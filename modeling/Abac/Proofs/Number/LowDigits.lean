import Abac.Proofs.Number.Decimals

/-!
Rounding and low digits. A whole number of more than 53 binary digits keeps its rounding when digits
are added behind it, with one exception: when it lies half way between two doubles it is rounded
down to the even one, and anything behind it would have it rounded up.
-/

namespace Abac.Binary64

private theorem log2_mul_pow_add {units bits low : Nat} (hpos : 0 < units)
    (hlow : low < Nat.pow 2 bits) :
    (units * Nat.pow 2 bits + low).log2 = units.log2 + bits := by
  simp only [Nat.pow_eq] at hlow ⊢
  have hpower : 0 < 2 ^ bits := Nat.two_pow_pos bits
  have hsome : units * 2 ^ bits + low ≠ 0 := by
    have hscaled : 0 < units * 2 ^ bits := Nat.mul_pos hpos hpower
    omega
  rw [Nat.log2_eq_iff hsome, Nat.pow_add, Nat.add_right_comm, Nat.pow_add]
  constructor
  · exact Nat.le_trans (Nat.mul_le_mul_right _ (Nat.log2_self_le (Nat.ne_of_gt hpos)))
      (Nat.le_add_right _ _)
  · calc units * 2 ^ bits + low < units * 2 ^ bits + 2 ^ bits := Nat.add_lt_add_left hlow _
      _ = (units + 1) * 2 ^ bits := (Nat.succ_mul _ _).symm
      _ ≤ 2 ^ (units.log2 + 1) * 2 ^ bits := Nat.mul_le_mul_right _ Nat.lt_log2_self

private theorem le_log2_of_pow_le {units exponent : Nat} (hlarge : Nat.pow 2 exponent ≤ units) :
    exponent ≤ units.log2 := by
  have hpower : 0 < 2 ^ exponent := Nat.two_pow_pos exponent
  have hle : 2 ^ exponent ≤ units := hlarge
  exact (Nat.le_log2 (by omega)).2 hle

private theorem spacing_mul_pow_add {units bits low : Nat} (hlarge : Nat.pow 2 52 ≤ units)
    (hlow : low < Nat.pow 2 bits) :
    spacing (units * Nat.pow 2 bits + low) = spacing units + bits := by
  have hpos : 0 < units := Nat.lt_of_lt_of_le (Nat.two_pow_pos 52) hlarge
  have hlog := le_log2_of_pow_le hlarge
  rw [spacing, spacing, log2_mul_pow_add hpos hlow]
  omega

private theorem spacing_pos {units : Nat} (hlarge : Nat.pow 2 53 ≤ units) : 0 < spacing units := by
  have hlog := le_log2_of_pow_le hlarge
  rw [spacing]
  omega

/-- Half way between two neighbouring magnitudes of doubles, the even one below. -/
def TiesDown (units : Nat) : Prop :=
  2 * (units % Nat.pow 2 (spacing units)) = Nat.pow 2 (spacing units) ∧
    units / Nat.pow 2 (spacing units) % 2 = 0

instance (units : Nat) : Decidable (TiesDown units) :=
  inferInstanceAs (Decidable (_ ∧ _))

/-- A quotient rounds as without the low part of its numerator, unless that breaks a tie. -/
theorem roundDiv_mul_add (num : Nat) {half factor low : Nat} (hhalf : 0 < half)
    (hlow : low < factor) :
    roundDiv (num * factor + low) (2 * half * factor) =
      if (2 * (num % (2 * half)) = 2 * half ∧ num / (2 * half) % 2 = 0) ∧ 0 < low then
        roundDiv num (2 * half) + 1
      else
        roundDiv num (2 * half) := by
  have hfactor : 0 < factor := Nat.lt_of_le_of_lt (Nat.zero_le _) hlow
  have hrest : num % (2 * half) < 2 * half := Nat.mod_lt _ (by omega)
  have hscaled : num % (2 * half) * factor + low < 2 * half * factor :=
    calc num % (2 * half) * factor + low < num % (2 * half) * factor + factor :=
          Nat.add_lt_add_left hlow _
      _ = (num % (2 * half) + 1) * factor := (Nat.succ_mul _ _).symm
      _ ≤ 2 * half * factor := Nat.mul_le_mul_right _ hrest
  have hnum : num % (2 * half) * factor + low + 2 * half * factor * (num / (2 * half)) =
      num * factor + low := by
    have hsplit := congrArg (· * factor) (Nat.mod_add_div num (2 * half))
    simp only [Nat.add_mul] at hsplit
    rw [Nat.mul_right_comm, Nat.add_right_comm, hsplit]
  obtain ⟨hquotient, hremainder⟩ :=
    (Nat.div_mod_unique (Nat.mul_pos (by omega) hfactor)).2 ⟨hnum, hscaled⟩
  simp only [roundDiv, hquotient, hremainder]
  generalize num / (2 * half) = quotient
  generalize num % (2 * half) = rest at hrest
  rw [Nat.mul_assoc]
  -- the rest decides, and only when it is just half does the low part matter
  rcases Nat.lt_trichotomy rest half with hbelow | hhalfway | habove
  · have hnext : (rest + 1) * factor ≤ half * factor := Nat.mul_le_mul_right _ hbelow
    rw [Nat.succ_mul] at hnext
    split <;> split <;> split <;> omega
  · subst hhalfway
    split <;> split <;> split <;> omega
  · have hnext : (half + 1) * factor ≤ rest * factor := Nat.mul_le_mul_right _ habove
    rw [Nat.succ_mul] at hnext
    split <;> split <;> split <;> omega

/-- Digits behind a number of more than 53 digits change its rounding only when they break a tie. -/
theorem nearest_mul_pow_add {units bits low : Nat} (hlarge : Nat.pow 2 53 ≤ units)
    (hlow : low < Nat.pow 2 bits) :
    nearest (units * Nat.pow 2 bits + low) 1 =
      if TiesDown units ∧ 0 < low then
        (nearest units 1 + Nat.pow 2 (spacing units)) * Nat.pow 2 bits
      else
        nearest units 1 * Nat.pow 2 bits := by
  have hle : Nat.pow 2 52 ≤ units := Nat.le_trans (by decide) hlarge
  have hspacing := spacing_pos hlarge
  have hpower : Nat.pow 2 (spacing units) = 2 * Nat.pow 2 (spacing units - 1) :=
    calc Nat.pow 2 (spacing units) = Nat.pow 2 (spacing units - 1 + 1) := by
          rw [Nat.sub_add_cancel hspacing]
      _ = 2 * Nat.pow 2 (spacing units - 1) := Nat.mul_comm _ _
  have hgap : Nat.pow 2 (spacing (units * Nat.pow 2 bits + low)) =
      Nat.pow 2 (spacing units) * Nat.pow 2 bits := by
    rw [spacing_mul_pow_add hle hlow]
    exact Nat.pow_add 2 _ _
  have hround := roundDiv_mul_add units (Nat.two_pow_pos (spacing units - 1)) hlow
  rw [← Nat.pow_eq, ← hpower] at hround
  unfold TiesDown
  rw [nearest_one, hgap, hround, nearest_one]
  split
  · rw [Nat.succ_mul, ← Nat.mul_assoc, Nat.add_mul]
  · rw [← Nat.mul_assoc]

private theorem not_tiesDown_of_dvd {units : Nat} (hdvd : Nat.pow 2 (spacing units) ∣ units) :
    ¬ TiesDown units := by
  rintro ⟨hhalf, -⟩
  have hpower : 0 < Nat.pow 2 (spacing units) := Nat.two_pow_pos _
  rw [Nat.mod_eq_zero_of_dvd hdvd] at hhalf
  omega

private theorem spacing_of_lt {units : Nat} (hsmall : units < Nat.pow 2 53) :
    spacing units = 0 := by
  have hscaled := spacing_mul_pow units 0 hsmall
  rw [Nat.pow_eq, Nat.pow_zero, Nat.mul_one] at hscaled
  exact Nat.le_zero.1 hscaled

theorem nearest_of_lt {units : Nat} (hsmall : units < Nat.pow 2 53) : nearest units 1 = units := by
  apply nearest_of_dvd
  rw [spacing_of_lt hsmall]
  exact Nat.one_dvd units

theorem pow_le_of_tiesDown {units : Nat} (hties : TiesDown units) : Nat.pow 2 53 ≤ units := by
  apply Nat.not_lt.1
  intro hsmall
  apply not_tiesDown_of_dvd ?_ hties
  rw [spacing_of_lt hsmall]
  exact Nat.one_dvd units

/-- A tie has nothing but zeros behind its first 54 digits. -/
theorem eq_zero_of_tiesDown {units bits low : Nat} (hlarge : Nat.pow 2 53 ≤ units)
    (hlow : low < Nat.pow 2 bits) (hties : TiesDown (units * Nat.pow 2 bits + low)) : low = 0 := by
  have hspacing := spacing_mul_pow_add (Nat.le_trans (by decide) hlarge) hlow
  have hpos := spacing_pos hlarge
  have hgap : Nat.pow 2 (spacing (units * Nat.pow 2 bits + low)) =
      2 * (Nat.pow 2 (spacing units - 1) * Nat.pow 2 bits) := by
    have hexponent : spacing units + bits = spacing units - 1 + bits + 1 := by omega
    calc Nat.pow 2 (spacing (units * Nat.pow 2 bits + low))
        = Nat.pow 2 (spacing units - 1 + bits + 1) := by rw [hspacing, hexponent]
      _ = 2 * Nat.pow 2 (spacing units - 1 + bits) := Nat.mul_comm _ _
      _ = 2 * (Nat.pow 2 (spacing units - 1) * Nat.pow 2 bits) :=
          congrArg (2 * ·) (Nat.pow_add 2 _ _)
  have hhalf := hties.1
  rw [hgap] at hhalf
  have hrest := Nat.eq_of_mul_eq_mul_left (by decide) hhalf
  -- the half of the gap is a multiple of the power, so the low part is one too
  have hdvd : Nat.pow 2 bits ∣ units * Nat.pow 2 bits + low := by
    have hgap_dvd := Nat.dvd_mul_left_of_dvd
      (Nat.dvd_mul_left (Nat.pow 2 bits) (Nat.pow 2 (spacing units - 1))) 2
    rw [← Nat.dvd_mod_iff hgap_dvd, hrest]
    exact Nat.dvd_mul_left _ _
  exact Nat.eq_zero_of_dvd_of_lt ((Nat.dvd_add_right (Nat.dvd_mul_left _ _)).1 hdvd) hlow

theorem nearest_mul_pow {units : Nat} (hlarge : Nat.pow 2 53 ≤ units) (bits : Nat) :
    nearest (units * Nat.pow 2 bits) 1 = nearest units 1 * Nat.pow 2 bits := by
  have hscaled := nearest_mul_pow_add hlarge (Nat.two_pow_pos bits)
  rwa [Nat.add_zero, if_neg (by simp)] at hscaled

private theorem pow_le_nearest_of_pow_le {units : Nat} (hlarge : Nat.pow 2 53 ≤ units) :
    Nat.pow 2 53 ≤ nearest units 1 := by
  have hkept : nearest (Nat.pow 2 53) 1 = Nat.pow 2 53 := nearest_of_dvd (by decide)
  rw [← hkept]
  exact nearest_mono 1 hlarge

/-- A digit behind a rounded number of more than 53 digits is lost. -/
theorem nearest_nearest_mul_pow_add {units bits low : Nat} (hlarge : Nat.pow 2 53 ≤ units)
    (hlow : low < Nat.pow 2 bits) :
    nearest (nearest units 1 * Nat.pow 2 bits + low) 1 = nearest (units * Nat.pow 2 bits) 1 := by
  have hdvd := dvd_nearest units 1
  rw [nearest_mul_pow_add (pow_le_nearest_of_pow_le hlarge) hlow, nearest_mul_pow hlarge,
    if_neg fun hties => not_tiesDown_of_dvd hdvd hties.1, nearest_of_dvd hdvd]

/-- Rounding in units is rounding of the whole number. -/
theorem nearest_whole (value : Nat) : nearest (value * one) 1 = nearest value 1 * one := by
  rcases Nat.lt_or_ge value (Nat.pow 2 53) with hsmall | hlarge
  · rw [nearest_mul_one (Nat.le_of_lt hsmall), nearest_of_lt hsmall]
  · obtain ⟨exponent, hone, -⟩ := exists_pow_one_ceiling
    rw [hone, nearest_mul_pow hlarge]

theorem ofInt?_natCast (value : Nat) : ofInt? value = ofQuotient? false (value * one) 1 := by
  have hsign : decide ((value : Int) < 0) = false := by simp
  rw [ofInt?, hsign, Int.natAbs_natCast]

theorem ofInt?_eq_some_iff {value : Nat} {x : Binary64} :
    ofInt? value = some x ↔ x.negative = false ∧ x.units = nearest value 1 * one := by
  rw [ofInt?_natCast, ofQuotient?_eq_some_iff, nearest_whole]

theorem ofInt?_eq_none_iff {value : Nat} :
    ofInt? value = none ↔ ceiling ≤ nearest value 1 * one := by
  rw [← nearest_whole, ofInt?_natCast, ofQuotient?]
  split
  · next hfinite =>
    constructor
    · intro hnone
      cases hnone
    · intro hinfinite
      exact absurd hfinite (Nat.not_lt.2 hinfinite)
  · next hinfinite => exact ⟨fun _ => Nat.not_lt.1 hinfinite, fun _ => rfl⟩

/-- Whole numbers with the same rounding have the same double. -/
theorem ofInt?_congr {value other : Nat} (hnearest : nearest value 1 = nearest other 1) :
    ofInt? value = ofInt? other := by
  rw [ofInt?_natCast, ofInt?_natCast]
  simp only [ofQuotient?, nearest_whole, hnearest]

/-- Between a tie that goes down to the even double and the next double there is no power of two. -/
theorem nearest_add_lt_of_tiesDown {units : Nat} (hties : TiesDown units) :
    nearest units 1 + Nat.pow 2 (spacing units) < Nat.pow 2 (53 + spacing units) := by
  have hnearest : nearest units 1 =
      units / Nat.pow 2 (spacing units) * Nat.pow 2 (spacing units) := by
    rw [nearest_one, roundDiv, if_pos (.inr hties)]
  have hquotient := quotient_lt_of_spacing units 1
  rw [Nat.div_one, Nat.one_mul] at hquotient
  have heven := hties.2
  have hnext : units / Nat.pow 2 (spacing units) + 1 < Nat.pow 2 53 := by
    have hpower : Nat.pow 2 53 = 9007199254740992 := rfl
    omega
  calc nearest units 1 + Nat.pow 2 (spacing units) =
        (units / Nat.pow 2 (spacing units) + 1) * Nat.pow 2 (spacing units) := by
        rw [hnearest, Nat.succ_mul]
    _ < Nat.pow 2 53 * Nat.pow 2 (spacing units) :=
        Nat.mul_lt_mul_of_pos_right hnext (Nat.two_pow_pos _)
    _ = Nat.pow 2 (53 + spacing units) := (Nat.pow_add 2 53 _).symm

/-- Digits behind a number of more than 53 digits do not take its rounding past a power of two. -/
theorem pow_le_nearest_mul_pow_add_iff {units bits low : Nat} (hlarge : Nat.pow 2 53 ≤ units)
    (hlow : low < Nat.pow 2 bits) (top : Nat) :
    Nat.pow 2 top ≤ nearest (units * Nat.pow 2 bits + low) 1 ↔
      Nat.pow 2 top ≤ nearest (units * Nat.pow 2 bits) 1 := by
  constructor
  · rw [nearest_mul_pow_add hlarge hlow, nearest_mul_pow hlarge]
    split
    · next hties =>
      intro hle
      have hbelow : Nat.pow 2 (52 + spacing (units / 1)) ≤ nearest units 1 := by
        apply pow_le_nearest
        rw [Nat.div_one]
        exact spacing_pos hlarge
      rw [Nat.div_one] at hbelow
      have htop : 2 ^ top < 2 ^ (53 + spacing units + bits) :=
        calc 2 ^ top ≤ (nearest units 1 + Nat.pow 2 (spacing units)) * Nat.pow 2 bits := hle
          _ < Nat.pow 2 (53 + spacing units) * Nat.pow 2 bits :=
              Nat.mul_lt_mul_of_pos_right (nearest_add_lt_of_tiesDown hties.1)
                (Nat.two_pow_pos _)
          _ = 2 ^ (53 + spacing units + bits) := (Nat.pow_add 2 _ _).symm
      have hexponent := (Nat.pow_lt_pow_iff_right (by decide)).1 htop
      calc 2 ^ top ≤ 2 ^ (52 + spacing units + bits) :=
            Nat.pow_le_pow_right (by decide) (by omega)
        _ = 2 ^ (52 + spacing units) * 2 ^ bits := Nat.pow_add 2 _ _
        _ ≤ nearest units 1 * Nat.pow 2 bits := Nat.mul_le_mul_right _ hbelow
    · exact id
  · intro hle
    exact Nat.le_trans hle (nearest_mono 1 (Nat.le_add_right _ _))

private theorem exists_ceiling_eq : ∃ top, ceiling = Nat.pow 2 top * one := by
  obtain ⟨exponent, hone, hceiling⟩ := exists_pow_one_ceiling
  refine ⟨1024, ?_⟩
  rw [hone, hceiling]
  generalize 1024 = top
  rw [Nat.add_comm]
  exact Nat.pow_add 2 top exponent

/-- Whether a whole number is finite does not depend on the digits behind the first 53. -/
theorem ofInt?_mul_pow_add_eq_none_iff {value bits low : Nat} (hlarge : Nat.pow 2 53 ≤ value)
    (hlow : low < Nat.pow 2 bits) :
    ofInt? (value * Nat.pow 2 bits + low : Nat) = none ↔
      ofInt? (value * Nat.pow 2 bits : Nat) = none := by
  obtain ⟨top, hceiling⟩ := exists_ceiling_eq
  rw [ofInt?_eq_none_iff, ofInt?_eq_none_iff, hceiling, Nat.mul_le_mul_right_iff one_pos,
    Nat.mul_le_mul_right_iff one_pos, pow_le_nearest_mul_pow_add_iff hlarge hlow]

end Abac.Binary64
