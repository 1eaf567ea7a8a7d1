import Abac.Proofs.Condition.Positions

/-!
Conditions of one shape: the same groups at the same positions, and no matter which comparisons.
Comparisons can be changed one by one, each by its position, and the shape stays.
-/

namespace Abac.Condition

/-- What a part is apart from its comparisons: a group has a join and a number of members. -/
def kind : Condition → Option (Join × Nat)
  | leaf _ => none
  | group join conditions => some (join, conditions.length)

/-- The same groups stand at the same positions, with the same joins and numbers of members. -/
def SameShape (first second : Condition) : Prop :=
  ∀ way, (first.follow? way).map kind = (second.follow? way).map kind

namespace SameShape

variable {second : Condition}

theorem exists_leaf {comparison : Comparison} (hshape : SameShape (.leaf comparison) second) :
    ∃ other, second = .leaf other := by
  have hroot := hshape []
  cases second with
  | leaf other => exact ⟨other, rfl⟩
  | group join conditions => simp [follow?, kind] at hroot

/-- A condition of the shape of a group is a group whose members have the shapes of its members. -/
theorem exists_group {join : Join} {conditions : List Condition}
    (hshape : SameShape (.group join conditions) second) :
    ∃ others, second = .group join others ∧ conditions.length = others.length ∧
      ∀ (index : Nat) (condition other : Condition), conditions[index]? = some condition →
        others[index]? = some other → SameShape condition other := by
  have hroot := hshape []
  cases second with
  | leaf comparison => simp [follow?, kind] at hroot
  | group join' others =>
    simp only [follow?, kind, Option.map_some, Option.some.injEq, Prod.mk.injEq] at hroot
    obtain ⟨rfl, hlength⟩ := hroot
    refine ⟨others, rfl, hlength, fun index condition other hcondition hother way => ?_⟩
    simpa [follow?, hcondition, hother] using hshape (index :: way)

end SameShape

mutual

/-- Changes every comparison, given its position. -/
def mapLeaves (change : List Nat → Comparison → Comparison) : Condition → Condition
  | leaf comparison => leaf (change [] comparison)
  | group join conditions => group join (mapLeavesFrom change 0 conditions)

def mapLeavesFrom (change : List Nat → Comparison → Comparison) :
    Nat → List Condition → List Condition
  | _, [] => []
  | index, condition :: rest =>
    mapLeaves (fun way => change (index :: way)) condition :: mapLeavesFrom change (index + 1) rest

end

variable {change : List Nat → Comparison → Comparison}

private theorem getElem?_mapLeavesFrom (first index : Nat) (conditions : List Condition) :
    (mapLeavesFrom change first conditions)[index]? =
      conditions[index]?.map (mapLeaves fun way => change ((first + index) :: way)) := by
  induction conditions generalizing first index with
  | nil => simp [mapLeavesFrom]
  | cons condition rest ih =>
    cases index with
    | zero => simp [mapLeavesFrom]
    | succ index =>
      have hplace : first + 1 + index = first + (index + 1) := by omega
      simp [mapLeavesFrom, ih, hplace]

private theorem length_mapLeavesFrom (first : Nat) (conditions : List Condition) :
    (mapLeavesFrom change first conditions).length = conditions.length := by
  induction conditions generalizing first with
  | nil => rfl
  | cons condition rest ih => rw [mapLeavesFrom, List.length_cons, ih, List.length_cons]

private theorem kind_mapLeaves (condition : Condition) :
    (mapLeaves change condition).kind = condition.kind := by
  cases condition with
  | leaf comparison => rfl
  | group join conditions => simp [mapLeaves, kind, length_mapLeavesFrom]

/-- A way leads to the part that it led to before, with its comparisons changed. -/
theorem follow?_mapLeaves (way : List Nat) (condition : Condition) :
    (mapLeaves change condition).follow? way =
      (condition.follow? way).map (mapLeaves fun rest => change (way ++ rest)) := by
  induction condition generalizing way change with
  | leaf comparison =>
    cases way with
    | nil => simp [mapLeaves, follow?]
    | cons index way => simp [mapLeaves, follow?]
  | group join conditions ih =>
    cases way with
    | nil => simp [mapLeaves, follow?]
    | cons index way =>
      simp only [mapLeaves, follow?, getElem?_mapLeavesFrom, Nat.zero_add]
      cases hmember : conditions[index]? with
      | none => rfl
      | some condition =>
        rw [Option.map_some, Option.bind_some, Option.bind_some,
          ih condition (List.mem_of_getElem? hmember)]
        rfl

theorem sameShape_mapLeaves (condition : Condition) :
    SameShape (mapLeaves change condition) condition := by
  intro way
  rw [follow?_mapLeaves, Option.map_map]
  congr 1
  funext part
  exact kind_mapLeaves part

/-- The comparison at a position is the changed one. -/
theorem leaf_of_follow?_mapLeaves {condition : Condition} {way : List Nat}
    {changed comparison : Comparison}
    (hchanged : (mapLeaves change condition).follow? way = some (.leaf changed))
    (horiginal : condition.follow? way = some (.leaf comparison)) :
    changed = change way comparison := by
  rw [follow?_mapLeaves, horiginal] at hchanged
  simpa [mapLeaves, eq_comm] using hchanged

end Abac.Condition
