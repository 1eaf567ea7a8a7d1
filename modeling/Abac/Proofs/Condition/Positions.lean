import Abac.Condition.Basic

/-!
The comparisons of a condition by their positions. A way leads to a comparison just when it is
listed among the leaves with it, so statements about all leaves and about all positions are the
same, and both follow the structure of the condition.
-/

namespace Abac.Condition

/-- Induction over conditions: a group has the property when all of its members have it. -/
@[induction_eliminator]
theorem structural {motive : Condition → Prop}
    (leaf : ∀ comparison, motive (.leaf comparison))
    (group : ∀ join conditions, (∀ condition ∈ conditions, motive condition) →
      motive (.group join conditions)) :
    ∀ condition, motive condition
  | .leaf comparison => leaf comparison
  | .group join conditions => group join conditions fun condition _ =>
      structural leaf group condition

/-- Every comparison at every position has a property. -/
def EveryLeaf (good : Comparison → Prop) (condition : Condition) : Prop :=
  ∀ way comparison, condition.follow? way = some (.leaf comparison) → good comparison

section EveryLeaf

variable {good : Comparison → Prop}

@[simp] theorem everyLeaf_leaf (comparison : Comparison) :
    EveryLeaf good (.leaf comparison) ↔ good comparison := by
  constructor
  · intro hevery
    exact hevery [] comparison (by simp [follow?])
  · intro hgood way other hfollow
    cases way with
    | nil =>
      simp only [follow?, Option.some.injEq, Condition.leaf.injEq] at hfollow
      exact hfollow ▸ hgood
    | cons index way => simp [follow?] at hfollow

theorem everyLeaf_group (join : Join) (conditions : List Condition) :
    EveryLeaf good (.group join conditions) ↔
      ∀ condition ∈ conditions, EveryLeaf good condition := by
  constructor
  · intro hevery condition hmem way comparison hfollow
    obtain ⟨index, hindex⟩ := List.mem_iff_getElem?.1 hmem
    exact hevery (index :: way) comparison (by simp [follow?, hindex, hfollow])
  · intro hall way comparison hfollow
    cases way with
    | nil => simp [follow?] at hfollow
    | cons index way =>
      simp only [follow?, Option.bind_eq_some_iff] at hfollow
      obtain ⟨condition, hindex, hfollow⟩ := hfollow
      exact hall condition (List.mem_of_getElem? hindex) way comparison hfollow

theorem EveryLeaf.imp {better : Comparison → Prop} {condition : Condition}
    (hevery : EveryLeaf good condition) (himp : ∀ comparison, good comparison → better comparison) :
    EveryLeaf better condition := by
  intro way comparison hfollow
  exact himp comparison (hevery way comparison hfollow)

end EveryLeaf

/-- The leaves of a list of members, by the place of the member. -/
theorem mem_leavesFrom_iff {first : Nat} {conditions : List Condition} {way : List Nat}
    {comparison : Comparison} :
    (way, comparison) ∈ leavesFrom first conditions ↔ ∃ index rest condition,
      way = (first + index) :: rest ∧ conditions[index]? = some condition ∧
        (rest, comparison) ∈ leaves condition := by
  induction conditions generalizing first with
  | nil => simp [leavesFrom]
  | cons condition others ih =>
    rw [leavesFrom, List.mem_append, ih]
    constructor
    · rintro (hmem | ⟨index, rest, member, rfl, hindex, hmem⟩)
      · obtain ⟨⟨rest, other⟩, hmem, heq⟩ := List.mem_map.1 hmem
        cases heq
        exact ⟨0, rest, condition, by simp, rfl, hmem⟩
      · exact ⟨index + 1, rest, member, by simp; omega, by simpa using hindex, hmem⟩
    · rintro ⟨index, rest, member, rfl, hindex, hmem⟩
      cases index with
      | zero =>
        obtain rfl : condition = member := by simpa using hindex
        exact .inl (List.mem_map.2 ⟨(rest, comparison), hmem, rfl⟩)
      | succ index =>
        exact .inr ⟨index, rest, member, by simp; omega, by simpa using hindex, hmem⟩

/-- A way leads to a comparison just when both are listed together. -/
theorem mem_leaves_iff {condition : Condition} {way : List Nat} {comparison : Comparison} :
    (way, comparison) ∈ condition.leaves ↔ condition.follow? way = some (.leaf comparison) := by
  induction condition generalizing way with
  | leaf other =>
    cases way with
    | nil => simp [leaves, follow?, eq_comm]
    | cons index way => simp [leaves, follow?]
  | group join conditions ih =>
    rw [leaves, mem_leavesFrom_iff]
    constructor
    · rintro ⟨index, rest, member, rfl, hindex, hmem⟩
      have hfollow := (ih member (List.mem_of_getElem? hindex)).1 hmem
      simp [follow?, hindex, hfollow]
    · intro hfollow
      cases way with
      | nil => simp [follow?] at hfollow
      | cons index way =>
        simp only [follow?, Option.bind_eq_some_iff] at hfollow
        obtain ⟨member, hindex, hfollow⟩ := hfollow
        exact ⟨index, way, member, by simp, hindex,
          (ih member (List.mem_of_getElem? hindex)).2 hfollow⟩

/-- Properties of all listed leaves are properties of all positions. -/
theorem forall_mem_leaves_iff {good : Comparison → Prop} {condition : Condition} :
    (∀ entry ∈ condition.leaves, good entry.2) ↔ EveryLeaf good condition := by
  constructor
  · intro hall way comparison hfollow
    exact hall (way, comparison) (mem_leaves_iff.2 hfollow)
  · rintro hevery ⟨way, comparison⟩ hmem
    exact hevery way comparison (mem_leaves_iff.1 hmem)

end Abac.Condition
