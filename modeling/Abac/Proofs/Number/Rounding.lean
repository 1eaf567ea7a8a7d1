import Abac.Number.Binary64

/-!
Rounding to doubles. No double is nearer to a magnitude than what it is rounded to, and rounding
keeps the order of what is rounded. A magnitude that is a whole multiple of its spacing is kept:
whole numbers up to 2⁵³ are, and beyond 2⁵³ two of them can round to one double.
-/

namespace Abac.Binary64

/-- The distance of two magnitudes. -/
def gap (units other : Nat) : Nat := (units - other) + (other - units)

private theorem div_le_roundDiv (num den : Nat) : num / den ≤ roundDiv num den := by
  simp only [roundDiv]
  split <;> omega

private theorem roundDiv_mono {den num more : Nat} (hle : num ≤ more) :
    roundDiv num den ≤ roundDiv more den := by
  rcases Nat.lt_or_eq_of_le (Nat.div_le_div_right (c := den) hle) with hlt | heq
  · calc roundDiv num den ≤ num / den + 1 := roundDiv_le num den
      _ ≤ more / den := hlt
      _ ≤ roundDiv more den := div_le_roundDiv more den
  · -- the quotients are the same, so the larger number has the larger remainder
    have hnum := Nat.div_add_mod num den
    have hmore := Nat.div_add_mod more den
    rw [heq] at hnum
    simp only [roundDiv, heq]
    split <;> split <;> omega

private theorem roundDiv_mul (count : Nat) {den : Nat} (hpos : 0 < den) :
    roundDiv (count * den) den = count := by
  simp [roundDiv, Nat.mul_div_cancel count hpos, hpos]

/-- No multiple of the divisor is nearer than the rounded quotient. -/
theorem gap_roundDiv_le (num : Nat) {den : Nat} (hpos : 0 < den) (count : Nat) :
    gap (roundDiv num den * den) num ≤ gap (count * den) num := by
  have hnum : num / den * den + num % den = num := Nat.div_add_mod' num den
  have hrest : num % den < den := Nat.mod_lt num hpos
  have hcount : count * den ≤ num / den * den ∨ num / den * den + den ≤ count * den := by
    rcases Nat.lt_or_ge (num / den) count with hlt | hge
    · right
      calc num / den * den + den = (num / den + 1) * den := (Nat.succ_mul _ _).symm
        _ ≤ count * den := Nat.mul_le_mul_right den hlt
    · exact .inl (Nat.mul_le_mul_right den hge)
  simp only [gap, roundDiv]
  split
  · omega
  · rw [Nat.succ_mul]
    omega

private theorem spacing_mono {units more : Nat} (hle : units ≤ more) :
    spacing units ≤ spacing more := by
  by_cases hzero : units = 0
  · simp [hzero, spacing]
  · have hlog : units.log2 ≤ more.log2 :=
      (Nat.le_log2 (by omega)).2 (Nat.le_trans (Nat.log2_self_le hzero) hle)
    simp only [spacing]
    omega

/-- Rounding stays below the next power of two. -/
theorem nearest_le_pow (num den : Nat) :
    nearest num den ≤ Nat.pow 2 (53 + spacing (num / den)) := by
  have hbound : roundDiv num (den * Nat.pow 2 (spacing (num / den))) ≤ 2 ^ 53 :=
    Nat.le_trans (roundDiv_le _ _) (quotient_lt_of_spacing num den)
  rw [Nat.pow_eq, Nat.pow_add]
  exact Nat.mul_le_mul_right _ hbound

/-- Rounding does not fall below the power of two of the leading digit. -/
theorem pow_le_nearest {num den : Nat} (hspacing : 0 < spacing (num / den)) :
    Nat.pow 2 (52 + spacing (num / den)) ≤ nearest num den := by
  have hlog : (num / den).log2 = 52 + spacing (num / den) := by
    simp only [spacing] at hspacing ⊢
    omega
  have hsome : num / den ≠ 0 := by
    intro hzero
    simp [hzero, spacing] at hspacing
  have hquotient : 2 ^ 52 ≤ num / (den * Nat.pow 2 (spacing (num / den))) := by
    rw [Nat.pow_eq, ← Nat.div_div_eq_div_mul, Nat.le_div_iff_mul_le (Nat.two_pow_pos _),
      ← Nat.pow_add, ← hlog]
    exact Nat.log2_self_le hsome
  rw [Nat.pow_eq, Nat.pow_add]
  exact Nat.mul_le_mul_right _ (Nat.le_trans hquotient (div_le_roundDiv _ _))

theorem nearest_mono {num more : Nat} (den : Nat) (hle : num ≤ more) :
    nearest num den ≤ nearest more den := by
  have hquotient : num / den ≤ more / den := Nat.div_le_div_right hle
  rcases Nat.lt_or_eq_of_le (spacing_mono hquotient) with hlt | heq
  · calc nearest num den ≤ 2 ^ (53 + spacing (num / den)) := nearest_le_pow num den
      _ ≤ 2 ^ (52 + spacing (more / den)) := Nat.pow_le_pow_right (by decide) (by omega)
      _ ≤ nearest more den := pow_le_nearest (by omega)
  · simp only [nearest, heq]
    exact Nat.mul_le_mul_right _ (roundDiv_mono hle)

theorem nearest_one (units : Nat) :
    nearest units 1 = roundDiv units (Nat.pow 2 (spacing units)) * Nat.pow 2 (spacing units) := by
  rw [nearest, Nat.div_one, Nat.one_mul]

/-- A magnitude that is a multiple of its spacing is kept. -/
theorem nearest_of_dvd {units : Nat} (hdvd : Nat.pow 2 (spacing units) ∣ units) :
    nearest units 1 = units := by
  obtain ⟨count, hcount⟩ := hdvd
  have hround := roundDiv_mul count (Nat.two_pow_pos (spacing units))
  rw [Nat.mul_comm, ← Nat.pow_eq, ← hcount] at hround
  rw [nearest_one, hround, Nat.mul_comm]
  exact hcount.symm

/-- No magnitude of a double is nearer than the one that rounding yields. -/
theorem gap_nearest_le (units : Nat) {other : Nat} (hother : Nat.pow 2 (spacing other) ∣ other) :
    gap (nearest units 1) units ≤ gap other units := by
  rw [nearest_one]
  rcases Nat.lt_or_ge (spacing other) (spacing units) with hlt | hge
  · -- the power of two of the leading digit lies between, and is a multiple of the spacing
    have hlog : units.log2 = 52 + spacing units := by
      simp only [spacing] at hlt ⊢
      omega
    have hsome : units ≠ 0 := by
      rintro rfl
      simp [spacing] at hlt
    have hbelow : other < 2 ^ units.log2 := by
      by_cases hzero : other = 0
      · rw [hzero]
        exact Nat.two_pow_pos _
      · apply (Nat.log2_lt hzero).1
        simp only [spacing] at hlt
        omega
    have hpower := gap_roundDiv_le units (Nat.two_pow_pos (spacing units)) (2 ^ 52)
    rw [← Nat.pow_add, ← hlog] at hpower
    have hself := Nat.log2_self_le hsome
    refine Nat.le_trans hpower ?_
    simp only [gap]
    omega
  · obtain ⟨count, hcount⟩ := Nat.dvd_trans (Nat.pow_dvd_pow 2 hge) hother
    rw [hcount, Nat.mul_comm _ count]
    exact gap_roundDiv_le units (Nat.two_pow_pos _) count

/-- A whole number with at most 53 digits is a multiple of its spacing. -/
theorem nearest_mul_one {value : Nat} (hle : value ≤ Nat.pow 2 53) :
    nearest (value * one) 1 = value * one := by
  apply nearest_of_dvd
  unfold one
  generalize 1074 = exponent
  rcases Nat.lt_or_eq_of_le hle with hlt | rfl
  · exact Nat.dvd_trans (Nat.pow_dvd_pow 2 (spacing_mul_pow value exponent hlt))
      (Nat.dvd_mul_left _ _)
  · rw [spacing_pow_mul_pow, Nat.pow_eq, Nat.pow_eq, Nat.pow_eq, ← Nat.pow_add]
    exact Nat.pow_dvd_pow 2 (by omega)

/-- The value, in units, of the double nearest to a whole number. -/
def rounded (value : Int) : Int :=
  if value < 0 then -(nearest (value.natAbs * one) 1 : Int) else nearest (value.natAbs * one) 1

theorem toInt_of_ofInt? {value : Int} {x : Binary64} (hx : ofInt? value = some x) :
    x.toInt = rounded value := by
  unfold ofInt? ofQuotient? at hx
  split at hx
  · obtain rfl := Option.some.inj hx
    simp [toInt, rounded]
  · cases hx

theorem exists_pow_one_ceiling :
    ∃ exponent, one = Nat.pow 2 exponent ∧ ceiling = Nat.pow 2 (exponent + 1024) := by
  unfold one ceiling
  have htop : 2098 = 1074 + 1024 := rfl
  generalize 2098 = top at htop ⊢
  generalize 1074 = exponent at htop ⊢
  exact ⟨exponent, rfl, by rw [htop]⟩

/-- Whole numbers of 64 bits are far from infinity. -/
theorem exists_ofInt? {value : Int} (hle : value.natAbs ≤ Nat.pow 2 64) :
    ∃ x, ofInt? value = some x := by
  obtain ⟨exponent, hone, hceiling⟩ := exists_pow_one_ceiling
  have hunits : value.natAbs * one ≤ 2 ^ (64 + exponent) := by
    rw [hone, Nat.pow_add]
    exact Nat.mul_le_mul_right _ hle
  have hfinite : nearest (value.natAbs * one) 1 < ceiling := by
    have hspacing := spacing_mono hunits
    rw [spacing, spacing, Nat.log2_two_pow] at hspacing
    rw [hceiling]
    refine Nat.lt_of_le_of_lt (nearest_le_pow _ 1) (Nat.pow_lt_pow_right (by decide) ?_)
    rw [Nat.div_one, spacing]
    omega
  rw [ofInt?, ofQuotient?, dif_pos hfinite]
  exact ⟨_, rfl⟩

theorem rounded_of_natAbs_le {value : Int} (hle : value.natAbs ≤ Nat.pow 2 53) :
    rounded value = value * one := by
  rw [rounded, nearest_mul_one hle, Int.natCast_mul]
  split
  · next hneg =>
    have habs : (value.natAbs : Int) = -value := by omega
    rw [habs, Int.neg_mul, Int.neg_neg]
  · next hpos =>
    have habs : (value.natAbs : Int) = value := by omega
    rw [habs]

theorem rounded_mono {value more : Int} (hle : value ≤ more) : rounded value ≤ rounded more := by
  have hgrows : ∀ {units other : Nat}, units ≤ other →
      (nearest (units * one) 1 : Int) ≤ nearest (other * one) 1 := by
    intro units other hunits
    exact_mod_cast nearest_mono 1 (Nat.mul_le_mul_right one hunits)
  unfold rounded
  split <;> split
  · exact Int.neg_le_neg (hgrows (by omega))
  · omega
  · omega
  · exact hgrows (by omega)

/-- Different whole numbers round to different doubles unless both have more than 53 digits, or one
has and the other is the first that does. -/
theorem rounded_lt {value more : Int} (hlt : value < more)
    (hsmall : value.natAbs < Nat.pow 2 53 ∨ more.natAbs < Nat.pow 2 53 ∨
      value.natAbs ≤ Nat.pow 2 53 ∧ more.natAbs ≤ Nat.pow 2 53) :
    rounded value < rounded more := by
  have hstep : ∀ units : Int, units * one < (units + 1) * one := by
    intro units
    have hpos : (0 : Int) < one := Int.natCast_pos.2 one_pos
    rw [Int.add_mul]
    omega
  rcases hsmall with hvalue | hmore | ⟨hvalue, hmore⟩
  · calc rounded value = value * one := rounded_of_natAbs_le (Nat.le_of_lt hvalue)
      _ < (value + 1) * one := hstep value
      _ = rounded (value + 1) := (rounded_of_natAbs_le (by omega)).symm
      _ ≤ rounded more := rounded_mono hlt
  · calc rounded value ≤ rounded (more - 1) := rounded_mono (by omega)
      _ = (more - 1) * one := rounded_of_natAbs_le (by omega)
      _ < (more - 1 + 1) * one := hstep (more - 1)
      _ = more * one := by rw [Int.sub_add_cancel]
      _ = rounded more := (rounded_of_natAbs_le (Nat.le_of_lt hmore)).symm
  · rw [rounded_of_natAbs_le hvalue, rounded_of_natAbs_le hmore]
    exact Int.mul_lt_mul_of_pos_right hlt (Int.natCast_pos.2 one_pos)

theorem rounded_inj {value more : Int}
    (hsmall : value.natAbs < Nat.pow 2 53 ∨ more.natAbs < Nat.pow 2 53 ∨
      value.natAbs ≤ Nat.pow 2 53 ∧ more.natAbs ≤ Nat.pow 2 53) :
    rounded value = rounded more ↔ value = more := by
  constructor
  · intro hsame
    rcases Int.lt_trichotomy value more with hlt | heq | hgt
    · exact absurd hsame (Int.ne_of_lt (rounded_lt hlt hsmall))
    · exact heq
    · rw [or_left_comm, and_comm] at hsmall
      exact absurd hsame.symm (Int.ne_of_lt (rounded_lt hgt hsmall))
  · rintro rfl
    rfl

private theorem rounded_neg_iff {value : Int} : rounded value < 0 ↔ value < 0 := by
  have hzero : rounded 0 = 0 := by
    rw [rounded_of_natAbs_le (by simp), Int.zero_mul]
  constructor
  · intro hrounded
    apply Int.not_le.1
    intro hpos
    have hle := rounded_mono hpos
    omega
  · intro hneg
    rw [← hzero]
    exact rounded_lt hneg (.inr (.inl (Nat.two_pow_pos 53)))

/-- The doubles nearest to two whole numbers are the same when they have the same value. -/
theorem ofInt?_inj {value more : Int} {x y : Binary64} (hx : ofInt? value = some x)
    (hy : ofInt? more = some y) : x = y ↔ rounded value = rounded more := by
  constructor
  · rintro rfl
    rw [← toInt_of_ofInt? hx, ← toInt_of_ofInt? hy]
  · intro hsame
    have hsign : value < 0 ↔ more < 0 := by
      rw [← rounded_neg_iff, hsame, rounded_neg_iff]
    have hunits : nearest (value.natAbs * one) 1 = nearest (more.natAbs * one) 1 := by
      simp only [rounded, hsign] at hsame
      split at hsame <;> omega
    have hfind : ofInt? value = ofInt? more := by
      simp only [ofInt?, ofQuotient?, hunits, hsign]
    rw [hx, hy] at hfind
    exact Option.some.inj hfind

/-- No double is nearer to a whole number than the one it is rounded to. -/
theorem natAbs_rounded_le (value : Int) (z : Binary64) :
    (rounded value - value * one).natAbs ≤ (z.toInt - value * one).natAbs := by
  have hnearest := gap_nearest_le (value.natAbs * one) z.representable.2
  have hzero := gap_nearest_le (value.natAbs * one) (Nat.dvd_zero (Nat.pow 2 (spacing 0)))
  have hvalue : value * one = if value < 0 then -((value.natAbs * one : Nat) : Int)
      else ((value.natAbs * one : Nat) : Int) := by
    rw [Int.natCast_mul, ← Int.neg_mul]
    split
    · next hneg => rw [Int.ofNat_natAbs_of_nonpos (Int.le_of_lt hneg), Int.neg_neg]
    · next hpos => rw [Int.natAbs_of_nonneg (Int.not_lt.1 hpos)]
  rw [hvalue, rounded, toInt]
  generalize value.natAbs * one = units at hnearest hzero ⊢
  generalize nearest units 1 = near at hnearest hzero ⊢
  simp only [gap] at hnearest hzero
  split <;> split <;> omega

end Abac.Binary64
