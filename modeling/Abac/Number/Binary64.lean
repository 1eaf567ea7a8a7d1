/-!
Finite double-precision values. A magnitude is a whole number of units of 2⁻¹⁰⁷⁴, the smallest
positive double, so order, equality and rounding to nearest are arithmetic on whole numbers.
-/

namespace Abac

namespace Binary64

/-- The exponent of the gap between neighbouring doubles at a magnitude: 53 significant bits. -/
def spacing (units : Nat) : Nat := units.log2 - 52

/-- The first power of two that is too large to be finite, 2¹⁰²⁴, in units. -/
def ceiling : Nat := Nat.pow 2 2098

/-- One, in units. -/
def one : Nat := Nat.pow 2 1074

private theorem ceiling_pos : 0 < ceiling := by
  unfold ceiling
  generalize 2098 = exponent
  exact Nat.two_pow_pos exponent

theorem one_pos : 0 < one := by
  unfold one
  generalize 1074 = exponent
  exact Nat.two_pow_pos exponent

def Representable (units : Nat) : Prop := units < ceiling ∧ Nat.pow 2 (spacing units) ∣ units

instance (units : Nat) : Decidable (Representable units) :=
  inferInstanceAs (Decidable (_ ∧ _))

/-- The quotient rounded to the nearest whole number, a half to the even one. -/
def roundDiv (num den : Nat) : Nat :=
  let quotient := num / den
  let twice := 2 * (num % den)
  if twice < den ∨ (twice = den ∧ quotient % 2 = 0) then quotient else quotient + 1

/-- The magnitude nearest to `num / den` units, with 53 significant bits and no upper bound. -/
def nearest (num den : Nat) : Nat :=
  let step := Nat.pow 2 (spacing (num / den))
  roundDiv num (den * step) * step

theorem roundDiv_le (num den : Nat) : roundDiv num den ≤ num / den + 1 := by
  simp only [roundDiv]
  split <;> omega

theorem quotient_lt_of_spacing (num den : Nat) :
    num / (den * Nat.pow 2 (spacing (num / den))) < Nat.pow 2 53 := by
  simp only [Nat.pow_eq]
  rw [← Nat.div_div_eq_div_mul, Nat.div_lt_iff_lt_mul (Nat.two_pow_pos _), ← Nat.pow_add]
  refine Nat.lt_of_lt_of_le Nat.lt_log2_self (Nat.pow_le_pow_right (by decide) ?_)
  simp only [spacing]
  omega

theorem spacing_mul_pow (digits gap : Nat) (h : digits < Nat.pow 2 53) :
    spacing (digits * Nat.pow 2 gap) ≤ gap := by
  simp only [Nat.pow_eq] at h ⊢
  by_cases hzero : digits * 2 ^ gap = 0
  · simp [hzero, spacing]
  · have : digits * 2 ^ gap < 2 ^ (53 + gap) := by
      rw [Nat.pow_add]
      exact Nat.mul_lt_mul_of_pos_right h (Nat.two_pow_pos _)
    have := (Nat.log2_lt hzero).2 this
    simp only [spacing]
    omega

theorem spacing_pow_mul_pow (gap : Nat) : spacing (Nat.pow 2 53 * Nat.pow 2 gap) = gap + 1 := by
  rw [Nat.pow_eq, Nat.pow_eq, ← Nat.pow_add, spacing, Nat.log2_two_pow]
  omega

theorem dvd_nearest (num den : Nat) :
    Nat.pow 2 (spacing (nearest num den)) ∣ nearest num den := by
  have hbound : roundDiv num (den * Nat.pow 2 (spacing (num / den))) ≤ Nat.pow 2 53 :=
    Nat.le_trans (roundDiv_le _ _) (quotient_lt_of_spacing num den)
  simp only [nearest]
  generalize spacing (num / den) = gap at hbound ⊢
  generalize roundDiv num (den * Nat.pow 2 gap) = digits at hbound ⊢
  rcases Nat.lt_or_eq_of_le hbound with h | rfl
  · exact Nat.dvd_trans (Nat.pow_dvd_pow 2 (spacing_mul_pow digits gap h)) (Nat.dvd_mul_left _ _)
  · rw [spacing_pow_mul_pow, Nat.pow_eq, Nat.pow_eq, Nat.pow_eq, ← Nat.pow_add]
    exact Nat.pow_dvd_pow 2 (by omega)

end Binary64

structure Binary64 where
  negative : Bool
  units : Nat
  representable : Binary64.Representable units
  deriving DecidableEq

namespace Binary64

/-- The double nearest to a quotient of whole numbers of units, or none when that is infinite. -/
def ofQuotient? (negative : Bool) (num den : Nat) : Option Binary64 :=
  if h : nearest num den < ceiling then
    some ⟨negative, nearest num den, h, dvd_nearest num den⟩
  else
    none

private theorem zero_representable : Representable 0 :=
  ⟨ceiling_pos, Nat.dvd_zero _⟩

def zero : Binary64 := ⟨false, 0, zero_representable⟩

/-- The double nearest to a whole number. -/
def ofInt? (value : Int) : Option Binary64 :=
  ofQuotient? (decide (value < 0)) (value.natAbs * one) 1

/-- The value in units. Both zeros have the value 0. -/
def toInt (x : Binary64) : Int := if x.negative then -(x.units : Int) else x.units

def isIntegral (x : Binary64) : Bool := x.units % one = 0

/-- Comparison by value. -/
def order (x y : Binary64) : Ordering := compare x.toInt y.toInt

def equal (x y : Binary64) : Bool := x.toInt = y.toInt

instance : Inhabited Binary64 := ⟨zero⟩

end Binary64

/-- A double, finite or infinite. -/
inductive Double where
  | finite (value : Binary64)
  | infinite (negative : Bool)
  deriving DecidableEq, Inhabited

namespace Double

/-- What rounding yields. A number that is too large becomes an infinity. -/
def ofRounding (negative : Bool) : Option Binary64 → Double
  | some value => finite value
  | none => infinite negative

def finite? : Double → Option Binary64
  | finite value => some value
  | infinite _ => none

end Double

end Abac
