import Mathlib.Data.List.Lex
import Abac.Proofs.Condition.Positions

/-!
The comparisons of a condition in the order of the document. A walk with an agenda meets them as the
recursion over the condition lists them. Their positions increase from left to right, and the
written place of a comparison can be read in one way only, so no two comparisons share a place.
-/

namespace Abac.Condition

variable {way other : List Nat} {place : String} {condition : Condition}
  {comparison : Comparison}

/-- The leaves of a part that stands at a place. -/
def leavesAt (place : String) (condition : Condition) : List (String × Comparison) :=
  condition.leaves.map fun (way, comparison) => (way.foldl memberPlace place, comparison)

private theorem leavesAt_leaf (place : String) (comparison : Comparison) :
    leavesAt place (leaf comparison) = [(place, comparison)] := by
  simp [leavesAt, leaves]

private theorem leavesAt_group (place : String) (join : Join) (conditions : List Condition) :
    leavesAt place (group join conditions) =
      conditions.zipIdx.flatMap fun member => leavesAt (memberPlace place member.2) member.1 := by
  have hmembers : ∀ first, (leavesFrom first conditions).map (fun (way, comparison) =>
      (way.foldl memberPlace place, comparison)) =
      (conditions.zipIdx first).flatMap fun member =>
        leavesAt (memberPlace place member.2) member.1 := by
    induction conditions with
    | nil => simp [leavesFrom]
    | cons condition rest ih =>
      intro first
      rw [leavesFrom, List.map_append, ih, List.zipIdx_cons, List.flatMap_cons, List.map_map]
      rfl
  rw [leavesAt, leaves, hmembers]

/-- What the walk still has to meet are the leaves of the parts on its agenda, in their order. -/
theorem comparisons_agenda (agenda : Agenda) :
    agenda.comparisons = agenda.flatMap fun entry => leavesAt entry.2 entry.1 := by
  fun_induction Agenda.comparisons agenda with
  | case1 => rfl
  | case2 comparison place agenda ih =>
    rw [ih, List.flatMap_cons, leavesAt_leaf, List.singleton_append]
  | case3 join conditions place agenda ih =>
    rw [ih, Agenda.push_eq, List.flatMap_append, List.flatMap_map, List.flatMap_cons,
      leavesAt_group]

/-- The walk meets the comparisons as the recursion lists them. -/
theorem comparisons_eq (condition : Condition) :
    condition.comparisons =
      condition.leaves.map fun (way, comparison) => (location way, comparison) := by
  rw [comparisons, comparisons_agenda, List.flatMap_cons, List.flatMap_nil, List.append_nil]
  rfl

/-- What a step into a member adds to a place. -/
def stepText (index : Nat) : String := ".conditions[" ++ toString index ++ "]"

private theorem memberPlace_eq (place : String) (index : Nat) :
    memberPlace place index = place ++ stepText index := by
  rw [memberPlace, stepText, String.append_assoc, String.append_assoc, String.append_assoc]

private theorem toList_foldl_memberPlace (way : List Nat) (place : String) :
    (way.foldl memberPlace place).toList =
      place.toList ++ way.flatMap fun index => (stepText index).toList := by
  induction way generalizing place with
  | nil => rw [List.foldl_nil, List.flatMap_nil, List.append_nil]
  | cons index rest ih =>
    rw [List.foldl_cons, ih, memberPlace_eq, String.toList_append, List.flatMap_cons,
      List.append_assoc]

private theorem toList_stepText (index : Nat) :
    (stepText index).toList = ".conditions[".toList ++ (Nat.toDigits 10 index ++ [']']) := by
  have hdigits : (toString index).toList = Nat.toDigits 10 index := by
    rw [Nat.toString_eq_ofList_toDigits, String.toList_ofList]
  rw [stepText, String.toList_append, String.toList_append, List.append_assoc, hdigits]
  rfl

private theorem bracket_notMem_toDigits (index : Nat) : ']' ∉ Nat.toDigits 10 index := by
  intro hmem
  have hdigit := Nat.isDigit_of_mem_toDigits (by omega) (by omega) hmem
  cases hdigit

/-- A step is read in one way: its digits end with the bracket. -/
theorem stepText_append_inj {index index' : Nat} {rest rest' : List Char}
    (hsame : (stepText index).toList ++ rest = (stepText index').toList ++ rest') :
    index = index' ∧ rest = rest' := by
  rw [toList_stepText, toList_stepText] at hsame
  generalize ".conditions[".toList = head at hsame
  simp only [List.append_assoc, List.append_cancel_left_eq, List.singleton_append] at hsame
  obtain ⟨hdigits, hrest⟩ := Text.append_mark_inj (bracket_notMem_toDigits index)
    (bracket_notMem_toDigits index') hsame
  have hindex : index = index' := by
    calc
      index = Nat.ofDigitChars 10 (Nat.toDigits 10 index) 0 := Nat.ofDigitChars_ten_toDigits.symm
      _ = Nat.ofDigitChars 10 (Nat.toDigits 10 index') 0 := by rw [hdigits]
      _ = index' := Nat.ofDigitChars_ten_toDigits
  exact ⟨hindex, hrest⟩

private theorem stepText_append_ne_nil (index : Nat) (rest : List Char) :
    (stepText index).toList ++ rest ≠ [] := by
  rw [toList_stepText]
  simp

private theorem flatMap_stepText_inj
    (hsame : way.flatMap (fun index => (stepText index).toList) =
      other.flatMap fun index => (stepText index).toList) : way = other := by
  induction way generalizing other with
  | nil =>
    cases other with
    | nil => rfl
    | cons index rest => exact absurd hsame.symm (stepText_append_ne_nil _ _)
  | cons index rest ih =>
    cases other with
    | nil => exact absurd hsame (stepText_append_ne_nil _ _)
    | cons index' rest' =>
      obtain ⟨hindex, hrest⟩ := stepText_append_inj hsame
      rw [hindex, ih hrest]

/-- Different positions are written differently. -/
theorem location_inj : location way = location other ↔ way = other := by
  constructor
  · intro hsame
    have hchars : (way.foldl memberPlace "$").toList = (other.foldl memberPlace "$").toList :=
      congrArg String.toList hsame
    rw [toList_foldl_memberPlace, toList_foldl_memberPlace, List.append_cancel_left_eq] at hchars
    exact flatMap_stepText_inj hchars
  · intro hsame
    rw [hsame]

/-- A written place leads to a part of a condition. -/
def LeadsTo (condition : Condition) (place : String) (part : Condition) : Prop :=
  ∃ way, location way = place ∧ condition.follow? way = some part

theorem LeadsTo.unique {part part' : Condition} (hpart : condition.LeadsTo place part)
    (hpart' : condition.LeadsTo place part') : part = part' := by
  obtain ⟨way, hway, hfollow⟩ := hpart
  obtain ⟨way', hway', hfollow'⟩ := hpart'
  have hsame : way = way' := location_inj.1 (hway.trans hway'.symm)
  rw [hsame, hfollow'] at hfollow
  exact (Option.some.inj hfollow).symm

end Abac.Condition
