import Abac.Proofs.Operand.Integers
import Abac.Proofs.Operand.Order

/-!
Comparison with a boolean. A boolean counts as the number one or zero, so an operand that is a
number is compared with that; any other is taken as a boolean, and all that are defined are taken as
true. What is taken as a boolean is therefore never a number, null or the empty text.
-/

namespace Abac

/-- Numbers as documents have them: a whole number that does not fit 64 bits is read as a double. -/
def Number.Written : Number → Prop
  | .int value => Number.Fits64 value
  | .real _ => True

private theorem Number.Written.exists_toBinary64? {number : Number} (hwritten : number.Written) :
    ∃ x, number.toBinary64? = some x := by
  cases number with
  | int value => exact Binary64.exists_ofInt? hwritten.natAbs_le
  | real x => exact ⟨x, rfl⟩

namespace Operand

variable {operand left right : Operand}

/-- The number that a boolean counts as. -/
theorem exists_toNumber?_bool (value : Bool) :
    ∃ x, toNumber? (some (.bool value)) = some x ∧
      x.toInt = if value then (Binary64.one : Int) else 0 := by
  have hsmall : (if value then 1 else 0 : Int).natAbs ≤ 1 := by
    cases value <;> decide
  obtain ⟨x, hx⟩ := Binary64.exists_ofInt? (Nat.le_trans hsmall (by decide))
  refine ⟨x, hx, ?_⟩
  rw [Binary64.toInt_of_ofInt? hx,
    Binary64.rounded_of_natAbs_le (Nat.le_trans hsmall (by decide))]
  generalize (Binary64.one : Int) = unit
  cases value <;> simp

/-- Only a number that no document has converts to no double, and zero does. -/
theorem toBool_of_no_number (hnone : operand.toNumber? = none) :
    operand.toBool = true ↔ operand ≠ none := by
  cases operand with
  | none => simp [toBool]
  | some value =>
    simp only [ne_eq, reduceCtorEq, not_false_eq_true, iff_true]
    cases value with
    | null => cases hnone
    | bool value =>
      obtain ⟨x, hx, -⟩ := exists_toNumber?_bool value
      rw [hx] at hnone
      cases hnone
    | number number =>
      cases number with
      | real x => cases hnone
      | int value =>
        have hsome : value ≠ 0 := by
          rintro rfl
          have hsmall : (0 : Int).natAbs ≤ Nat.pow 2 64 := Nat.zero_le _
          obtain ⟨x, hx⟩ := Binary64.exists_ofInt? hsmall
          have hzero : Binary64.ofInt? 0 = none := hnone
          rw [hx] at hzero
          cases hzero
        have hone : (0 : Int) < Binary64.one := Int.natCast_pos.2 Binary64.one_pos
        have hunits : value * Binary64.one ≠ 0 := Int.mul_ne_zero hsome (Int.ne_of_gt hone)
        exact decide_eq_true hunits
    | string text =>
      have hsome : text.toList ≠ [] := by
        intro hempty
        rw [toNumber?, hempty] at hnone
        cases hnone
      simpa [toBool] using hsome
    | array items => rfl
    | object fields => rfl

private theorem pair_bool_of_number {x : Binary64} (hx : operand.toNumber? = some x)
    (value : Bool) :
    ∃ y : Binary64, y.toInt = (if value then (Binary64.one : Int) else 0) ∧
      pair operand (some (.bool value)) = .numbers x y := by
  obtain ⟨y, hy, hvalue⟩ := exists_toNumber?_bool value
  exact ⟨y, hvalue, pair_eq_numbers hx hy⟩

private theorem pair_bool_of_no_number (hnone : operand.toNumber? = none) (value : Bool) :
    pair operand (some (.bool value)) = .booleans operand.toBool value := by
  unfold pair
  rw [hnone]
  simp [isBool, toBool]

/-- Two operands are compared as booleans only when one is a boolean and the other no number. -/
theorem bool_of_pair_eq_booleans {l r : Bool} (hpair : pair left right = .booleans l r) :
    ((∃ value, left = some (.bool value)) ∧ right.toNumber? = none) ∨
      (∃ value, right = some (.bool value)) ∧ left.toNumber? = none := by
  unfold pair at hpair
  split at hpair
  · cases hpair
  · next hnumbers =>
    split at hpair
    · next hbool =>
      rw [Bool.or_eq_true, isBool_iff, isBool_iff] at hbool
      rcases hbool with ⟨value, rfl⟩ | ⟨value, rfl⟩
      · refine .inl ⟨⟨value, rfl⟩, ?_⟩
        obtain ⟨x, hx, -⟩ := exists_toNumber?_bool value
        exact Option.eq_none_iff_forall_ne_some.2 fun y hy => hnumbers x y hx hy
      · refine .inr ⟨⟨value, rfl⟩, ?_⟩
        obtain ⟨y, hy, -⟩ := exists_toNumber?_bool value
        exact Option.eq_none_iff_forall_ne_some.2 fun x hx => hnumbers x y hx hy
    · cases hpair

/-- The operands beside which a boolean always counts as a number: numbers, null, and the empty
text. -/
inductive Counts : Operand → Prop
  | number {number : Number} : number.Written → Counts (some (.number number))
  | null : Counts (some .null)
  | empty : Counts (some (.string ""))

private theorem Counts.exists_toNumber? (hcounts : Counts operand) :
    ∃ x, operand.toNumber? = some x := by
  cases hcounts with
  | number hwritten => exact hwritten.exists_toBinary64?
  | null => exact ⟨_, rfl⟩
  | empty => exact ⟨_, rfl⟩

private theorem not_counts_of_no_number (hnone : operand.toNumber? = none) : ¬ Counts operand := by
  intro hcounts
  obtain ⟨x, hx⟩ := hcounts.exists_toNumber?
  rw [hx] at hnone
  cases hnone

private theorem not_counts_bool (value : Bool) : ¬ Counts (some (.bool value)) := by
  rintro ⟨⟩

/-- None of them is ever taken as a boolean. -/
theorem not_counts_of_pair_eq_booleans {l r : Bool} (hpair : pair left right = .booleans l r) :
    ¬ Counts left ∧ ¬ Counts right := by
  rcases bool_of_pair_eq_booleans hpair with ⟨⟨value, rfl⟩, hnone⟩ | ⟨⟨value, rfl⟩, hnone⟩
  · exact ⟨not_counts_bool value, not_counts_of_no_number hnone⟩
  · exact ⟨not_counts_of_no_number hnone, not_counts_bool value⟩

end Operand

namespace Operator

open Operand

private theorem eq_holds_bool_iff (operand : Operand) (value : Bool) :
    eq.holds operand (some (.bool value)) = true ↔
      (∃ x, operand.toNumber? = some x ∧ x.toInt = if value then (Binary64.one : Int) else 0) ∨
        operand.toNumber? = none ∧ (value = true ↔ operand ≠ none) := by
  cases hnumber : operand.toNumber? with
  | some x =>
    obtain ⟨y, hy, hpair⟩ := pair_bool_of_number hnumber value
    rw [holds_numbers_iff hpair, Says, hy]
    generalize (if value = true then (Binary64.one : Int) else 0) = number
    simp
  | none =>
    have hpair := pair_bool_of_no_number hnumber value
    simp only [holds, hpair, Pair.equal, reduceCtorEq, false_and, exists_false, false_or, true_and,
      ← toBool_of_no_number hnumber, beq_iff_eq]
    rw [Bool.eq_iff_iff]
    exact iff_comm

/-- Comparison with a boolean. An operand equals true when it is one as a number, or is defined and
no number; it equals false when it is zero as a number, or undefined; the side does not matter. No
number, null or empty text is ever taken as a boolean, since beside a boolean it is compared as a
number. -/
theorem comparison_with_boolean :
    (∀ operand : Operand, eq.holds operand (some (.bool true)) = true ↔
      (∃ x, operand.toNumber? = some x ∧ x.toInt = (Binary64.one : Int)) ∨
        operand ≠ none ∧ operand.toNumber? = none) ∧
    (∀ operand : Operand, eq.holds operand (some (.bool false)) = true ↔
      (∃ x, operand.toNumber? = some x ∧ x.toInt = 0) ∨ operand = none) ∧
    (∀ (operand : Operand) value,
      eq.holds (some (.bool value)) operand = eq.holds operand (some (.bool value))) ∧
    (∀ left right l r, pair left right = .booleans l r → ¬ Counts left ∧ ¬ Counts right) ∧
    ∀ operand value, Counts operand →
      (∃ x y, pair operand (some (.bool value)) = .numbers x y) ∧
        ∃ x y, pair (some (.bool value)) operand = .numbers x y := by
  refine ⟨fun operand => ?_, fun operand => ?_, fun operand value => ?_, ?_, ?_⟩
  · rw [eq_holds_bool_iff, and_comm (b := operand.toNumber? = none)]
    simp only [if_true, true_iff]
  · rw [eq_holds_bool_iff]
    constructor
    · rintro (hzero | ⟨-, hflag⟩)
      · exact .inl hzero
      · exact .inr (not_not.1 fun hsome => absurd (hflag.2 hsome) (by simp))
    · rintro (hzero | rfl)
      · exact .inl hzero
      · exact .inr ⟨rfl, by simp⟩
  · show (pair (some (.bool value)) operand).equal = (pair operand (some (.bool value))).equal
    rw [← pair_swap, Pair.equal_swap]
  · intro left right l r hpair
    exact not_counts_of_pair_eq_booleans hpair
  · intro operand value hcounts
    obtain ⟨x, hx⟩ := hcounts.exists_toNumber?
    obtain ⟨y, hy, -⟩ := exists_toNumber?_bool value
    exact ⟨⟨x, y, pair_eq_numbers hx hy⟩, ⟨y, x, pair_eq_numbers hy hx⟩⟩

/-- A word equals true and is no number; null equals false as the number zero. -/
theorem word_is_true_and_null_false :
    pair (some (.string "yes")) (some (.bool true)) = .booleans true true ∧
    ¬ Counts (some (.string "yes")) ∧
    eq.holds (some (.string "yes")) (some (.bool true)) = true ∧
    Counts (some .null) ∧
    (∃ x y, pair (some .null) (some (.bool false)) = .numbers x y) ∧
    eq.holds (some .null) (some (.bool false)) = true := by
  obtain ⟨htrue, hfalse, -, hbooleans, hnumbers⟩ := comparison_with_boolean
  have hword : toNumber? (some (.string "yes")) = none := rfl
  have hpair : pair (some (.string "yes")) (some (.bool true)) = .booleans true true :=
    pair_bool_of_no_number hword true
  exact ⟨hpair, (hbooleans _ _ _ _ hpair).1, (htrue _).2 (.inr ⟨by simp, hword⟩), .null,
    (hnumbers _ false .null).1, (hfalse _).2 (.inl ⟨Binary64.zero, rfl, rfl⟩)⟩

end Operator

end Abac
