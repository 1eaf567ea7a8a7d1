import Abac.Evaluation
import Abac.Proofs.Number.Rounding

/-!
Comparison of whole numbers. Both are rounded to the nearest double first, so two of them compare
in their own order unless one double is nearest to both: then they are equal. That cannot happen up
to 2⁵³.
-/

namespace Abac

/-- Does a whole number fit 64 bits, with or without a sign? -/
def Number.Fits64 (value : Int) : Prop :=
  -(Nat.pow 2 63 : Int) ≤ value ∧ value < (Nat.pow 2 64 : Int)

instance (value : Int) : Decidable (Number.Fits64 value) :=
  inferInstanceAs (Decidable (_ ∧ _))

theorem Number.Fits64.natAbs_le {value : Int} (hfits : Number.Fits64 value) :
    value.natAbs ≤ Nat.pow 2 64 := by
  have h63 : (Nat.pow 2 63 : Int) = 9223372036854775808 := rfl
  have h64 : (Nat.pow 2 64 : Int) = 18446744073709551616 := rfl
  have hpow : Nat.pow 2 64 = 18446744073709551616 := rfl
  obtain ⟨hlow, hhigh⟩ := hfits
  omega

/-- No double is nearer to a whole number. -/
def Binary64.IsNearest (value : Int) (x : Binary64) : Prop :=
  ∀ z : Binary64, (x.toInt - value * one).natAbs ≤ (z.toInt - value * one).natAbs

theorem Operand.pair_eq_numbers {left right : Operand} {x y : Binary64}
    (hleft : left.toNumber? = some x) (hright : right.toNumber? = some y) :
    pair left right = .numbers x y := by
  rw [pair, hleft, hright]

namespace Operator

/-- What an operator says about two whole numbers, given whether they count as the same. -/
def Says (same : Prop) (a b : Int) : Operator → Prop
  | eq => same
  | neq => ¬ same
  | gt => b < a ∧ ¬ same
  | lt => a < b ∧ ¬ same
  | gte => b ≤ a ∨ same
  | lte => a ≤ b ∨ same
  | unknown _ => False

open Operand

/-- Finite numbers are compared by their values. -/
theorem holds_numbers_iff {left right : Operand} {x y : Binary64}
    (hpair : pair left right = .numbers x y) (op : Operator) :
    op.holds left right = true ↔ op.Says (x.toInt = y.toInt) x.toInt y.toInt := by
  have hequal : (pair left right).equal = true ↔ x.toInt = y.toInt := by
    rw [hpair, Pair.equal, Binary64.equal, decide_eq_true_iff]
  have horder : (pair left right).order? = some (compare x.toInt y.toInt) := by
    rw [hpair, Pair.order?, Binary64.order]
  cases op with
  | eq => exact hequal
  | neq => simp only [holds, Says, ← hequal, Bool.not_eq_true', Bool.not_eq_true]
  | unknown name => simp [holds, Says]
  | gt | lt | gte | lte =>
    simp only [holds, horder, Says, Bool.or_eq_true, beq_iff_eq, Option.some.injEq,
      Int.compare_eq_gt, Int.compare_eq_lt, Int.compare_eq_eq]
    omega

/-- An operator says the same about values that are rounded in their order. -/
theorem says_iff_of_mono {a b x y : Int} (hle : a ≤ b → x ≤ y) (hge : b ≤ a → y ≤ x)
    (op : Operator) : op.Says (x = y) x y ↔ op.Says (x = y) a b := by
  cases op <;> simp only [Says]
  all_goals omega

/-- Whole numbers of 64 bits compare as the doubles nearest to them: those beyond 2⁵³ in their
order, but as equals when they have the same nearest double. The comparison is exact when one number
is below 2⁵³ in absolute value, or both are at most that. -/
theorem integers_compare_as_nearest_doubles {comparison : Comparison} {context : Context}
    {a b : Int} (ha : Number.Fits64 a) (hb : Number.Fits64 b)
    (hleft : comparison.leftOperand context = some (.number (.int a)))
    (hright : comparison.rightOperand context = some (.number (.int b))) :
    ∃ x y, Binary64.ofInt? a = some x ∧ Binary64.ofInt? b = some y ∧
      x.IsNearest a ∧ y.IsNearest b ∧
      (comparison.evaluate context = true ↔ comparison.op.Says (x = y) a b) ∧
      ((a.natAbs < Nat.pow 2 53 ∨ b.natAbs < Nat.pow 2 53 ∨
          a.natAbs ≤ Nat.pow 2 53 ∧ b.natAbs ≤ Nat.pow 2 53) →
        (comparison.evaluate context = true ↔ comparison.op.Says (a = b) a b)) := by
  obtain ⟨x, hx⟩ := Binary64.exists_ofInt? ha.natAbs_le
  obtain ⟨y, hy⟩ := Binary64.exists_ofInt? hb.natAbs_le
  have hvalue : x.toInt = Binary64.rounded a := Binary64.toInt_of_ofInt? hx
  have hvalue' : y.toInt = Binary64.rounded b := Binary64.toInt_of_ofInt? hy
  have hpair : pair (some (.number (.int a))) (some (.number (.int b))) = .numbers x y :=
    pair_eq_numbers hx hy
  have hsame : x = y ↔ x.toInt = y.toInt := by
    rw [hvalue, hvalue', Binary64.ofInt?_inj hx hy]
  have hevaluate : comparison.evaluate context = true ↔ comparison.op.Says (x = y) a b := by
    rw [Comparison.evaluate, hleft, hright, holds_numbers_iff hpair, hsame]
    apply says_iff_of_mono
    · rw [hvalue, hvalue']
      exact Binary64.rounded_mono
    · rw [hvalue, hvalue']
      exact Binary64.rounded_mono
  refine ⟨x, y, hx, hy, ?_, ?_, hevaluate, ?_⟩
  · intro z
    rw [hvalue]
    exact Binary64.natAbs_rounded_le a z
  · intro z
    rw [hvalue']
    exact Binary64.natAbs_rounded_le b z
  · intro hsmall
    rw [hevaluate, Binary64.ofInt?_inj hx hy, Binary64.rounded_inj hsmall]

/-- Is the number of the subject the one of the resource? -/
def sameNumber : Comparison := ⟨"subject.x", .eq, .string "resource.y"⟩

/-- A subject and a resource, each with a whole number. -/
def numbers (a b : Int) : Context :=
  ⟨.object [("x", .number (.int a))], some (.object [("y", .number (.int b))])⟩

private theorem leftOperand_sameNumber (a b : Int) :
    sameNumber.leftOperand (numbers a b) = some (.number (.int a)) := rfl

private theorem rightOperand_sameNumber (a b : Int) :
    sameNumber.rightOperand (numbers a b) = some (.number (.int b)) := rfl

/-- The last two whole numbers up to 2⁵³ are told apart. -/
theorem neighbours_within_digits_differ :
    Number.Fits64 9007199254740991 ∧ Number.Fits64 9007199254740992 ∧
    sameNumber.leftOperand (numbers 9007199254740991 9007199254740992) =
      some (.number (.int 9007199254740991)) ∧
    sameNumber.rightOperand (numbers 9007199254740991 9007199254740992) =
      some (.number (.int 9007199254740992)) ∧
    ¬ sameNumber.evaluate (numbers 9007199254740991 9007199254740992) = true := by
  have hfits : Number.Fits64 9007199254740991 := by decide
  have hfits' : Number.Fits64 9007199254740992 := by decide
  have hleft := leftOperand_sameNumber 9007199254740991 9007199254740992
  have hright := rightOperand_sameNumber 9007199254740991 9007199254740992
  obtain ⟨x, y, -, -, -, -, -, hexact⟩ :=
    integers_compare_as_nearest_doubles hfits hfits' hleft hright
  refine ⟨hfits, hfits', hleft, hright, ?_⟩
  rw [hexact (.inr (.inr (by decide)))]
  intro hsays
  have hsame : (9007199254740991 : Int) = 9007199254740992 := hsays
  exact absurd hsame (by decide)

/-- Two different whole numbers that are equal to the comparison: the double nearest to both
is 2⁵³. -/
theorem neighbours_beyond_digits_equal :
    Number.Fits64 9007199254740992 ∧ Number.Fits64 9007199254740993 ∧
    (9007199254740992 : Int) ≠ 9007199254740993 ∧
    sameNumber.evaluate (numbers 9007199254740992 9007199254740993) = true := by
  decide +kernel

end Operator

end Abac
