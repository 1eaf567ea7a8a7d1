import Abac.Number.Decimal
import Abac.Proofs.Number.Rounding

/-!
Decimals as doubles. Which double a decimal is read as depends on its value alone, not on how many
zeros its digits end in; a whole number is read as the double nearest to it; and the decimal that a
double is printed with is read as that double.
-/

namespace Abac

namespace Binary64

private theorem roundDiv_mul_mul (num den : Nat) {factor : Nat} (hpos : 0 < factor) :
    roundDiv (num * factor) (den * factor) = roundDiv num den := by
  have htwice : 2 * (num % den * factor) = 2 * (num % den) * factor := (Nat.mul_assoc _ _ _).symm
  have hlt : 2 * (num % den) * factor < den * factor ↔ 2 * (num % den) < den :=
    Nat.mul_lt_mul_right hpos
  have heq : 2 * (num % den) * factor = den * factor ↔ 2 * (num % den) = den :=
    Nat.mul_left_inj (Nat.ne_of_gt hpos)
  simp only [roundDiv, Nat.mul_div_mul_right _ _ hpos, Nat.mul_mod_mul_right, htwice, hlt, heq]

private theorem nearest_mul_mul (num den : Nat) {factor : Nat} (hpos : 0 < factor) :
    nearest (num * factor) (den * factor) = nearest num den := by
  simp only [nearest, Nat.mul_div_mul_right _ _ hpos]
  rw [Nat.mul_right_comm, roundDiv_mul_mul _ _ hpos]

private theorem ofQuotient?_mul_mul (negative : Bool) (num den : Nat) {factor : Nat}
    (hpos : 0 < factor) :
    ofQuotient? negative (num * factor) (den * factor) = ofQuotient? negative num den := by
  simp only [ofQuotient?, nearest_mul_mul _ _ hpos]

theorem ofQuotient?_eq_some_iff {negative : Bool} {num den : Nat} {x : Binary64} :
    ofQuotient? negative num den = some x ↔ x.negative = negative ∧ x.units = nearest num den := by
  unfold ofQuotient?
  split
  · next hfinite =>
    constructor
    · intro hx
      obtain rfl := Option.some.inj hx
      exact ⟨rfl, rfl⟩
    · obtain ⟨negative', units, hunits⟩ := x
      rintro ⟨rfl, rfl⟩
      rfl
  · next hinfinite =>
    simp only [reduceCtorEq, false_iff]
    rintro ⟨-, hunits⟩
    exact hinfinite (hunits ▸ x.representable.1)

end Binary64

namespace Decimal

open Binary64

private theorem digitChars_mul_pow {value : Nat} (hpos : 0 < value) (count : Nat) :
    digitChars (value * Nat.pow 10 count) = digitChars value ++ List.replicate count '0' := by
  simp only [Nat.pow_eq]
  induction count with
  | zero => simp
  | succ count ih =>
    have hlarge : 0 < value * 10 ^ count := Nat.mul_pos hpos (Nat.pow_pos (by decide))
    have hlast := Nat.toDigits_append_toDigits (b := 10) (d := 0) (by decide) hlarge (by decide)
    have hvalue : 10 * (value * 10 ^ count) + 0 = value * 10 ^ (count + 1) := by
      rw [Nat.add_zero, Nat.pow_succ, Nat.mul_comm, Nat.mul_assoc]
    rw [hvalue, Nat.toDigits_zero] at hlast
    rw [digitChars, ← hlast, List.replicate_succ', ← List.append_assoc, ← ih]
    rfl

private theorem digitCount_mul_pow {value : Nat} (hpos : 0 < value) (count : Nat) :
    digitCount (value * Nat.pow 10 count) = digitCount value + count := by
  rw [digitCount, digitChars_mul_pow hpos, List.length_append, List.length_replicate, digitCount]

private theorem digitCount_pos (value : Nat) : 0 < digitCount value := Nat.length_toDigits_pos

private theorem digitCount_le_iff {value count : Nat} (hpos : 0 < count) :
    digitCount value ≤ count ↔ value < Nat.pow 10 count :=
  Nat.length_toDigits_le_iff (by decide) hpos

theorem ofDigitChars_digitChars (value : Nat) : ofDigitChars (digitChars value) = value :=
  Nat.ofDigitChars_ten_toDigits

/-- The double of a decimal that is not far outside the range, with a denominator of any power of
ten that clears the exponent. -/
theorem toBinary64?_eq_ofQuotient? {d : Decimal} (hdigits : d.digits ≠ 0)
    (hlow : -330 ≤ d.leadingExponent) (hhigh : d.leadingExponent ≤ 310) {count : Nat}
    (hcount : 0 ≤ d.exponent + count) (negative : Bool) :
    d.toBinary64? negative =
      ofQuotient? negative (d.digits * Nat.pow 10 (d.exponent + count).toNat * one)
        (Nat.pow 10 count) := by
  rw [toBinary64?, if_neg hdigits, if_neg (Int.not_lt.2 hhigh), if_neg (Int.not_lt.2 hlow)]
  simp only [Nat.pow_eq]
  split
  · next hpos =>
    have hscaled := ofQuotient?_mul_mul negative (d.digits * 10 ^ d.exponent.toNat * one) 1
      (Nat.pow_pos (n := count) (show 0 < 10 by decide))
    have hexponent : (d.exponent + count).toNat = d.exponent.toNat + count := by omega
    rw [Nat.one_mul] at hscaled
    rw [← hscaled, hexponent, Nat.pow_add, ← Nat.mul_assoc, Nat.mul_right_comm]
  · next hneg =>
    have hscaled := ofQuotient?_mul_mul negative (d.digits * one) (10 ^ (-d.exponent).toNat)
      (Nat.pow_pos (n := (d.exponent + count).toNat) (show 0 < 10 by decide))
    have hexponent : count = (-d.exponent).toNat + (d.exponent + count).toNat := by omega
    rw [← hscaled, ← Nat.pow_add, ← hexponent, Nat.mul_right_comm]

/-- Zeros at the end of the digits count as much as in the exponent. -/
theorem toBinary64?_mul_pow (negative : Bool) (digits count : Nat) (exponent : Int) :
    toBinary64? negative ⟨digits * Nat.pow 10 count, exponent⟩ =
      toBinary64? negative ⟨digits, exponent + count⟩ := by
  rcases Nat.eq_zero_or_pos digits with rfl | hpos
  · simp [toBinary64?]
  · have hpower : 0 < Nat.pow 10 count := Nat.pow_pos (by decide)
    have hleading : leadingExponent ⟨digits * Nat.pow 10 count, exponent⟩ =
        leadingExponent ⟨digits, exponent + count⟩ := by
      simp only [leadingExponent, digitCount_mul_pow hpos]
      omega
    have hdigits : digits * Nat.pow 10 count ≠ 0 := Nat.ne_of_gt (Nat.mul_pos hpos hpower)
    by_cases hhigh : leadingExponent ⟨digits, exponent + count⟩ ≤ 310
    · by_cases hlow : -330 ≤ leadingExponent ⟨digits, exponent + count⟩
      · have hclear : 0 ≤ exponent + (-exponent).toNat := by omega
        have hclear' : 0 ≤ exponent + count + (-exponent).toNat := by omega
        rw [toBinary64?_eq_ofQuotient? hdigits (hleading ▸ hlow) (hleading ▸ hhigh) hclear,
          toBinary64?_eq_ofQuotient? (Nat.ne_of_gt hpos) hlow hhigh hclear']
        have hexponent : (exponent + count + (-exponent).toNat).toNat =
            count + (exponent + (-exponent).toNat).toNat := by omega
        simp only [hexponent, Nat.pow_eq, Nat.pow_add, Nat.mul_assoc]
      · rw [toBinary64?, toBinary64?, if_neg hdigits, if_neg (Nat.ne_of_gt hpos), hleading,
          if_neg (Int.not_lt.2 hhigh), if_neg (Int.not_lt.2 hhigh), if_pos (Int.not_le.1 hlow),
          if_pos (Int.not_le.1 hlow)]
    · rw [toBinary64?, toBinary64?, if_neg hdigits, if_neg (Nat.ne_of_gt hpos), hleading,
        if_pos (Int.not_le.1 hhigh), if_pos (Int.not_le.1 hhigh)]

theorem ofQuotient?_eq_none {units : Nat} (hlarge : ceiling ≤ units) (negative : Bool) :
    ofQuotient? negative units 1 = none := by
  have hkept : nearest ceiling 1 = ceiling := by
    obtain ⟨exponent, -, hceiling⟩ := exists_pow_one_ceiling
    apply nearest_of_dvd
    simp only [hceiling, Nat.pow_eq, spacing, Nat.log2_two_pow]
    exact Nat.pow_dvd_pow 2 (Nat.sub_le _ _)
  have hnearest := nearest_mono 1 hlarge
  rw [hkept] at hnearest
  rw [ofQuotient?, dif_neg (Nat.not_lt.2 hnearest)]

/-- A whole number is read as the double nearest to it. -/
theorem toBinary64?_whole (negative : Bool) (value : Nat) :
    toBinary64? negative ⟨value, 0⟩ = ofQuotient? negative (value * one) 1 := by
  by_cases hzero : value = 0
  · rw [toBinary64?, if_pos hzero, hzero, Nat.zero_mul]
  · have hlow : -330 ≤ leadingExponent ⟨value, 0⟩ := by
      have hcount := digitCount_pos value
      simp only [leadingExponent]
      omega
    by_cases hhigh : leadingExponent ⟨value, 0⟩ ≤ 310
    · have hclear : (0 : Int) ≤ 0 + (0 : Nat) := Int.le_refl 0
      rw [toBinary64?_eq_ofQuotient? hzero hlow hhigh hclear]
      simp
    · obtain ⟨count, hcount, hpower⟩ : ∃ count, count = 310 ∧ ceiling ≤ Nat.pow 10 count * one :=
        ⟨310, rfl, by decide +kernel⟩
      have hvalue : ¬ digitCount value ≤ count := by
        simp only [leadingExponent] at hhigh
        omega
      rw [digitCount_le_iff (by omega), Nat.not_lt] at hvalue
      have hlarge : ceiling ≤ value * one :=
        Nat.le_trans hpower (Nat.mul_le_mul_right one hvalue)
      rw [toBinary64?, if_neg hzero, if_pos (Int.not_le.1 hhigh), ofQuotient?_eq_none hlarge]

/-- The sign has no part in how a decimal is rounded. -/
theorem exists_quotient (d : Decimal) : (∀ negative, d.toBinary64? negative = none) ∨
    ∃ num den, ∀ negative, d.toBinary64? negative = ofQuotient? negative num den := by
  simp only [toBinary64?]
  by_cases hzero : d.digits = 0
  · exact .inr ⟨0, 1, fun negative => by rw [if_pos hzero]⟩
  · by_cases hhigh : 310 < d.leadingExponent
    · exact .inl fun negative => by rw [if_neg hzero, if_pos hhigh]
    · by_cases hlow : d.leadingExponent < -330
      · exact .inr ⟨0, 1, fun negative => by rw [if_neg hzero, if_neg hhigh, if_pos hlow]⟩
      · by_cases hexponent : 0 ≤ d.exponent
        · exact .inr ⟨_, _, fun negative => by
            rw [if_neg hzero, if_neg hhigh, if_neg hlow, if_pos hexponent]⟩
        · exact .inr ⟨_, _, fun negative => by
            rw [if_neg hzero, if_neg hhigh, if_neg hlow, if_neg hexponent]⟩

/-- A decimal that is read as a magnitude is read as the double of that magnitude with either
sign. -/
theorem toBinary64?_eq_some {d : Decimal} {x y : Binary64} (hread : d.toBinary64? false = some x)
    (hunits : y.units = x.units) : d.toBinary64? y.negative = some y := by
  rcases exists_quotient d with hnone | ⟨num, den, hquotient⟩
  · rw [hnone] at hread
    cases hread
  · rw [hquotient, ofQuotient?_eq_some_iff] at hread
    rw [hquotient, ofQuotient?_eq_some_iff]
    exact ⟨rfl, hunits.trans hread.2⟩

/-- The exact expansion of a magnitude is inside the range. -/
theorem leadingExponent_exact {units : Nat} (hpos : 0 < units) (hfinite : units < ceiling) :
    -330 ≤ (exact units).leadingExponent ∧ (exact units).leadingExponent ≤ 310 := by
  have hexact : (exact units).leadingExponent =
      (digitCount (units * Nat.pow 5 1074) : Int) - 1 + -1074 := rfl
  have hlow : ¬ digitCount (units * Nat.pow 5 1074) ≤ 744 := by
    obtain ⟨count, hcount, hpower⟩ : ∃ count, count = 744 ∧ Nat.pow 10 count ≤ Nat.pow 5 1074 :=
      ⟨744, rfl, by decide +kernel⟩
    rw [← hcount, digitCount_le_iff (by omega), Nat.not_lt]
    exact Nat.le_trans hpower (Nat.le_mul_of_pos_left _ hpos)
  have hhigh : digitCount (units * Nat.pow 5 1074) ≤ 1385 := by
    obtain ⟨count, hcount, hpower⟩ :
        ∃ count, count = 1385 ∧ ceiling * Nat.pow 5 1074 < Nat.pow 10 count :=
      ⟨1385, rfl, by decide +kernel⟩
    rw [← hcount, digitCount_le_iff (by omega)]
    exact Nat.lt_of_le_of_lt (Nat.mul_le_mul_right _ (Nat.le_of_lt hfinite)) hpower
  rw [hexact]
  generalize digitCount (units * Nat.pow 5 1074) = count at hlow hhigh ⊢
  omega

/-- Fives in the digits and twos in the unit cancel the tens of the exponent. -/
theorem toBinary64?_fives {units exponent : Nat} (hone : one = Nat.pow 2 exponent)
    (hpos : 0 < units) (hlow : -330 ≤ leadingExponent ⟨units * Nat.pow 5 exponent, -exponent⟩)
    (hhigh : leadingExponent ⟨units * Nat.pow 5 exponent, -exponent⟩ ≤ 310) (negative : Bool) :
    toBinary64? negative ⟨units * Nat.pow 5 exponent, -exponent⟩ =
      ofQuotient? negative units 1 := by
  have hfives : 0 < 5 ^ exponent := Nat.pow_pos (by decide)
  have htens : 10 ^ exponent = 1 * (5 ^ exponent * 2 ^ exponent) := by
    rw [Nat.one_mul, ← Nat.mul_pow]
  have hexponent : (-(exponent : Int) + exponent).toNat = 0 := by omega
  have hclear : 0 ≤ -(exponent : Int) + exponent := by omega
  rw [toBinary64?_eq_ofQuotient? (Nat.ne_of_gt (Nat.mul_pos hpos hfives)) hlow hhigh hclear]
  simp only [hexponent, hone, htens, Nat.pow_eq, Nat.pow_zero, Nat.mul_one, Nat.mul_assoc]
  exact ofQuotient?_mul_mul negative units 1 (Nat.mul_pos hfives (Nat.two_pow_pos _))

/-- The exact expansion reads back. -/
theorem reads_exact {units : Nat} (hrepresentable : Representable units) (hpos : 0 < units) :
    ∃ x, (exact units).toBinary64? false = some x ∧ x.units = units := by
  obtain ⟨hlow, hhigh⟩ := leadingExponent_exact hpos hrepresentable.1
  have hone : one = Nat.pow 2 1074 := by
    unfold one
    generalize 1074 = exponent
    rfl
  have hfives : toBinary64? false (exact units) = ofQuotient? false units 1 :=
    toBinary64?_fives hone hpos hlow hhigh false
  refine ⟨⟨false, units, hrepresentable⟩, ?_, rfl⟩
  rw [hfives, ofQuotient?_eq_some_iff, nearest_of_dvd hrepresentable.2]
  exact ⟨rfl, rfl⟩

/-- What a double is printed with reads back: only candidates that do are taken, and failing these
the exact expansion. -/
theorem reads_shortest {units : Nat} (hrepresentable : Representable units) (hpos : 0 < units) :
    ∃ x, (shortest units).toBinary64? false = some x ∧ x.units = units := by
  rw [shortest]
  cases hfound : (List.range 17).findSome? fun count => neighbour? units (count + 1) with
  | none => exact reads_exact hrepresentable hpos
  | some d =>
    obtain ⟨count, -, hneighbour⟩ := List.exists_of_findSome?_eq_some hfound
    simp only [neighbour?] at hneighbour
    have hreads := List.find?_some hneighbour
    simpa [reads, Option.any_eq_true] using hreads

theorem digits_shortest {units : Nat} (hrepresentable : Representable units) (hpos : 0 < units) :
    (shortest units).digits ≠ 0 := by
  intro hzero
  obtain ⟨x, hx, hunits⟩ := reads_shortest hrepresentable hpos
  rw [toBinary64?, if_pos hzero, ofQuotient?_eq_some_iff] at hx
  have hnearest : nearest 0 1 = 0 := nearest_of_dvd (Nat.dvd_zero _)
  omega

end Decimal

end Abac
