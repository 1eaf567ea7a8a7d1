import Mathlib.Data.Bool.Basic
import Abac.Proofs.Operand.Words

/-!
The order of operands. Whatever kind two operands are compared as, equality does not depend on the
side, the order turns round with the sides, and where there is an order it calls those operands
equal that are. The six operators are read off equality and order and agree for that reason.
-/

namespace Abac

private theorem Binary64.equal_comm (x y : Binary64) : x.equal y = y.equal x := by
  simp only [Binary64.equal, eq_comm]

private theorem Number.equal_comm (a b : Number) : a.equal b = b.equal a := by
  cases a <;> cases b <;> simp only [Number.equal, Binary64.equal, eq_comm]

@[simp] theorem Number.equal_self (a : Number) : a.equal a = true := by
  cases a <;> simp [Number.equal, Binary64.equal]

namespace Json

mutual

private theorem equal_comm : ∀ a b : Json, a.equal b = b.equal a
  | .null, b => by cases b <;> rfl
  | .bool _, b => by cases b <;> simp only [equal, eq_comm]
  | .number a, b => by cases b <;> simp only [equal, a.equal_comm]
  | .string _, b => by cases b <;> simp only [equal, eq_comm]
  | .array as, b => by cases b <;> simp only [equal, equalItems_comm as]
  | .object as, b => by cases b <;> simp only [equal, equalFields_comm as]

private theorem equalItems_comm : ∀ as bs : List Json, equalItems as bs = equalItems bs as
  | [], [] => rfl
  | [], _ :: _ => rfl
  | _ :: _, [] => rfl
  | a :: as, b :: bs => by
    rw [equalItems, equalItems, equal_comm a b, equalItems_comm as bs]

private theorem equalFields_comm : ∀ as bs : Fields, equalFields as bs = equalFields bs as
  | [], [] => rfl
  | [], _ :: _ => rfl
  | _ :: _, [] => rfl
  | (key, a) :: as, (key', b) :: bs => by
    rw [equalFields, equalFields, equal_comm a b, equalFields_comm as bs]
    simp only [eq_comm]

end

mutual

private theorem equal_self : ∀ a : Json, a.equal a = true
  | .null => rfl
  | .bool _ => by simp [equal]
  | .number a => a.equal_self
  | .string _ => by simp [equal]
  | .array items => equalItems_self items
  | .object fields => equalFields_self fields

private theorem equalItems_self : ∀ items : List Json, equalItems items items = true
  | [] => rfl
  | item :: rest => by rw [equalItems, equal_self item, equalItems_self rest, Bool.and_self]

private theorem equalFields_self : ∀ fields : Fields, equalFields fields fields = true
  | [] => rfl
  | (key, value) :: rest => by
    rw [equalFields, equal_self value, equalFields_self rest]
    simp

end

end Json

namespace Operand

private theorem equal_comm (left right : Operand) : equal left right = equal right left := by
  cases left <;> cases right <;> simp only [equal, Json.equal_comm]

@[simp] theorem equal_self (operand : Operand) : equal operand operand = true := by
  cases operand with
  | none => rfl
  | some value => exact value.equal_self

theorem compareBytes_swap (as bs : List UInt8) :
    (compareBytes as bs).swap = compareBytes bs as := by
  induction as generalizing bs with
  | nil => cases bs <;> rfl
  | cons a as ih =>
    cases bs with
    | nil => rfl
    | cons b bs =>
      have hfirst : (compare a b).swap = compare b a := Std.OrientedOrd.eq_swap.symm
      rw [compareBytes, compareBytes, Ordering.swap_then, hfirst, ih]

private theorem compareBytes_eq_iff {as bs : List UInt8} : compareBytes as bs = .eq ↔ as = bs := by
  constructor
  · intro hsame
    induction as generalizing bs with
    | nil =>
      cases bs with
      | nil => rfl
      | cons b bs => cases hsame
    | cons a as ih =>
      cases bs with
      | nil => cases hsame
      | cons b bs =>
        rw [compareBytes, Ordering.then_eq_eq, Std.compare_eq_iff_eq] at hsame
        rw [hsame.1, ih hsame.2]
  · rintro rfl
    exact compareBytes_self as

private theorem encoding_inj {a b : String} : encoding a = encoding b ↔ a = b := by
  constructor
  · intro hsame
    have hbytes : a.toList.utf8Encode = b.toList.utf8Encode :=
      congrArg List.toByteArray hsame
    rw [String.utf8Encode_toList, String.utf8Encode_toList] at hbytes
    exact String.toByteArray_inj.1 hbytes
  · rintro rfl
    rfl

private theorem order?_swap (left right : Operand) :
    (order? left right).map Ordering.swap = order? right left := by
  unfold order?
  split
  · rw [Option.map_some, compareBytes_swap]
  · next hnone =>
    split
    · next a b => exact absurd rfl (hnone b a rfl)
    · rfl

theorem order?_eq_some_eq {left right : Operand} {order : Ordering}
    (horder : order? left right = some order) : order = .eq ↔ equal left right = true := by
  unfold order? at horder
  split at horder
  · next a b =>
    obtain rfl := Option.some.inj horder
    rw [compareBytes_eq_iff, encoding_inj]
    simp [equal, Json.equal]
  · cases horder

private theorem isSome_order?_iff {left right : Operand} :
    (order? left right).isSome ↔
      ∃ a b, left = some (.string a) ∧ right = some (.string b) := by
  unfold order?
  split
  · next a b => simp
  · next hnone =>
    simp only [Option.isSome_none, Bool.false_eq_true, false_iff]
    rintro ⟨a, b, rfl, rfl⟩
    exact hnone a b rfl rfl

namespace Pair

/-- The pair with its sides exchanged. -/
def swap : Pair → Pair
  | numbers left right => numbers right left
  | booleans left right => booleans right left
  | values left right => values right left

theorem equal_swap (pair : Pair) : pair.swap.equal = pair.equal := by
  cases pair with
  | numbers left right => exact right.equal_comm left
  | booleans left right => exact Bool.beq_comm
  | values left right => exact Operand.equal_comm right left

private theorem order?_swap (pair : Pair) : pair.swap.order? = pair.order?.map Ordering.swap := by
  cases pair with
  | numbers left right =>
    exact congrArg some Std.OrientedOrd.eq_swap
  | booleans left right =>
    exact congrArg some Std.OrientedOrd.eq_swap
  | values left right => exact (Operand.order?_swap left right).symm

/-- The order of a pair, where there is one, is equality just when the pair is equal. -/
theorem order?_eq_some_eq {pair : Pair} {order : Ordering} (horder : pair.order? = some order) :
    order = .eq ↔ pair.equal = true := by
  cases pair with
  | numbers left right =>
    obtain rfl := Option.some.inj horder
    simp [Binary64.order, equal, Binary64.equal]
  | booleans left right =>
    obtain rfl := Option.some.inj horder
    simp [equal]
  | values left right => exact Operand.order?_eq_some_eq horder

end Pair

theorem pair_swap (left right : Operand) : (pair left right).swap = pair right left := by
  unfold pair
  cases hleft : left.toNumber? <;> cases hright : right.toNumber? <;>
    simp only [Bool.or_comm right.isBool] <;> first | rfl | (split <;> rfl)

theorem equal_pair_self (operand : Operand) : (pair operand operand).equal = true := by
  unfold pair
  split
  · next l r hl hr =>
    obtain rfl := Option.some.inj (hl.symm.trans hr)
    simp [Pair.equal, Binary64.equal]
  · split
    · simp [Pair.equal]
    · exact operand.equal_self

/-- Two operands have an order: as numbers, as booleans or as strings. -/
def Ordered (left right : Operand) : Prop :=
  (∃ x y, left.toNumber? = some x ∧ right.toNumber? = some y) ∨
    (∃ value, left = some (.bool value)) ∨ (∃ value, right = some (.bool value)) ∨
    ∃ a b, left = some (.string a) ∧ right = some (.string b)

theorem isBool_iff {operand : Operand} :
    operand.isBool = true ↔ ∃ value, operand = some (.bool value) := by
  unfold isBool
  split
  · simp
  · next hnone =>
    simp only [Bool.false_eq_true, false_iff]
    rintro ⟨value, rfl⟩
    exact hnone value rfl

private theorem isSome_order?_pair_iff {left right : Operand} :
    (pair left right).order?.isSome ↔ Ordered left right := by
  unfold pair Ordered
  split
  · next x y hx hy => simp [Pair.order?, hx, hy]
  · next hnumbers =>
    have hnone : ¬ ∃ x y, left.toNumber? = some x ∧ right.toNumber? = some y := by
      rintro ⟨x, y, hx, hy⟩
      exact hnumbers x y hx hy
    rw [or_iff_right hnone, ← isBool_iff, ← isBool_iff, ← or_assoc, ← Bool.or_eq_true]
    split
    · next hbool => simp [Pair.order?, hbool]
    · next hbool =>
      rw [or_iff_right hbool]
      exact isSome_order?_iff

end Operand

namespace Operator

open Operand

variable {left right : Operand}

/-- The operator that says which order two operands have. -/
def ofOrdering : Ordering → Operator
  | .lt => lt
  | .eq => eq
  | .gt => gt

/-- Of greater, less and equal, the one holds that says the order. -/
theorem holds_iff_eq_ofOrdering {order : Ordering} (horder : (pair left right).order? = some order)
    {op : Operator} (hmem : op ∈ [gt, lt, eq]) :
    op.holds left right = true ↔ op = ofOrdering order := by
  have hequal : order = .eq ↔ eq.holds left right = true := Pair.order?_eq_some_eq horder
  simp only [List.mem_cons, List.not_mem_nil, or_false] at hmem
  rcases hmem with rfl | rfl | rfl
  · cases order <;> simp [holds, horder, ofOrdering]
  · cases order <;> simp [holds, horder, ofOrdering]
  · rw [← hequal]
    cases order <;> simp [ofOrdering]

private theorem ofOrdering_mem (order : Ordering) : ofOrdering order ∈ [gt, lt, eq] := by
  cases order <;> simp [ofOrdering]

private theorem existsUnique_eq_neq (left right : Operand) :
    ∃! op, op ∈ [eq, neq] ∧ op.holds left right = true := by
  cases hequal : (pair left right).equal with
  | true =>
    refine ⟨eq, ⟨by simp, hequal⟩, ?_⟩
    rintro op ⟨hmem, hholds⟩
    simp only [List.mem_cons, List.not_mem_nil, or_false] at hmem
    rcases hmem with rfl | rfl
    · rfl
    · simp [holds, hequal] at hholds
  | false =>
    refine ⟨neq, ⟨by simp, by simp [holds, hequal]⟩, ?_⟩
    rintro op ⟨hmem, hholds⟩
    simp only [List.mem_cons, List.not_mem_nil, or_false] at hmem
    rcases hmem with rfl | rfl
    · simp [holds, hequal] at hholds
    · rfl

private theorem existsUnique_order {order : Ordering}
    (horder : (pair left right).order? = some order) :
    ∃! op, op ∈ [gt, lt, eq] ∧ op.holds left right = true := by
  refine ⟨ofOrdering order, ⟨ofOrdering_mem order, ?_⟩, ?_⟩
  · exact (holds_iff_eq_ofOrdering horder (ofOrdering_mem order)).2 rfl
  · rintro op ⟨hmem, hholds⟩
    exact (holds_iff_eq_ofOrdering horder hmem).1 hholds

/-- With an order, the operators that include equality follow from those that do not. -/
theorem holds_or_equal {order : Ordering} (horder : (pair left right).order? = some order) :
    gte.holds left right = (gt.holds left right || eq.holds left right) ∧
      lte.holds left right = (lt.holds left right || eq.holds left right) := by
  have hequal : ((pair left right).order? == some .eq) = eq.holds left right := by
    rw [Bool.eq_iff_iff, horder, beq_iff_eq, Option.some.injEq]
    exact Pair.order?_eq_some_eq horder
  constructor
  · rw [← hequal]
    rfl
  · rw [← hequal]
    rfl

theorem holds_of_no_order (hnone : (pair left right).order? = none) {op : Operator}
    (hmem : op ∈ [gt, lt, gte, lte]) : op.holds left right = false := by
  simp only [List.mem_cons, List.not_mem_nil, or_false] at hmem
  rcases hmem with rfl | rfl | rfl | rfl <;> simp [holds, hnone]

/-- What orders say with the sides exchanged. -/
theorem order?_pair_beq (left right : Operand) (order : Ordering) :
    ((pair right left).order? == some order) = ((pair left right).order? == some order.swap) := by
  rw [← pair_swap, Pair.order?_swap]
  cases (pair left right).order? with
  | none => rfl
  | some other => cases other <;> cases order <;> rfl

/-- The six operators are one comparison. Of equality and inequality exactly one holds, equality
holds between an operand and itself and does not depend on the side, and the orders turn round with
the sides. Between operands that have an order exactly one of greater, less and equal holds, and the
two others follow from these; between all others no order holds. -/
theorem operators_are_one_comparison (left right : Operand) :
    (∃! op, op ∈ [eq, neq] ∧ op.holds left right = true) ∧
    eq.holds left right = eq.holds right left ∧
    gt.holds left right = lt.holds right left ∧
    gte.holds left right = lte.holds right left ∧
    eq.holds left left = true ∧
    (Ordered left right →
      (∃! op, op ∈ [gt, lt, eq] ∧ op.holds left right = true) ∧
      gte.holds left right = (gt.holds left right || eq.holds left right) ∧
      lte.holds left right = (lt.holds left right || eq.holds left right)) ∧
    (¬ Ordered left right → ∀ op ∈ [gt, lt, gte, lte], op.holds left right = false) := by
  have hturned := order?_pair_beq right left
  refine ⟨existsUnique_eq_neq left right, ?_, hturned .gt, ?_, equal_pair_self left, ?_, ?_⟩
  · show (pair left right).equal = (pair right left).equal
    rw [← pair_swap left right, Pair.equal_swap]
  · exact congrArg₂ or (hturned .gt) (hturned .eq)
  · intro hordered
    obtain ⟨order, horder⟩ := Option.isSome_iff_exists.1 (isSome_order?_pair_iff.2 hordered)
    exact ⟨existsUnique_order horder, holds_or_equal horder⟩
  · intro hunordered op hmem
    have hnone : (pair left right).order? = none := by
      rw [← Option.not_isSome_iff_eq_none, isSome_order?_pair_iff]
      exact hunordered
    exact holds_of_no_order hnone hmem

end Operator

end Abac
