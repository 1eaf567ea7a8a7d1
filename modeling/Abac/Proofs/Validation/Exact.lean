import Abac.Proofs.Condition.Levels
import Abac.Proofs.Condition.Places
import Abac.Validation.Validator

/-!
Validation of conditions is exact: a report passes just when the condition has no more levels than
allowed and every comparison at every position follows the rules. The check of the written form adds
nothing to the rules, since it asks only for left paths that are not empty.
-/

namespace Abac

namespace Condition

private theorem toJsonAll_eq_map (conditions : List Condition) :
    toJsonAll conditions = conditions.map toJson := by
  induction conditions with
  | nil => rw [toJsonAll, List.map_nil]
  | cons condition rest ih => rw [toJsonAll, List.map_cons, ih]

private theorem hasForm_toJson_leaf (comparison : Comparison) :
    (toJson (.leaf comparison)).hasForm = true ↔ comparison.left ≠ "" := by
  rw [toJson, Comparison.toJson, Json.hasForm_eq]
  simp [Json.matchesGroup, Json.matchesLeaf, Json.namesJoin, Json.isLeftPath, Json.isText,
    List.lookup_cons]

private theorem hasForm_toJson_group (join : Join) (conditions : List Condition) :
    (toJson (.group join conditions)).hasForm = true ↔
      ∀ condition ∈ conditions, condition.toJson.hasForm = true := by
  have hleaf : (toJson (.group join conditions)).matchesLeaf = false := rfl
  have hjoin : ∃ other : Join, join.name = other.name := ⟨join, rfl⟩
  rw [Json.hasForm_eq, hleaf, Bool.xor_false, Json.matchesGroup_iff, toJson]
  simp [List.lookup_cons, toJsonAll_eq_map, hjoin]

/-- A written condition has the form just when no left path is empty. -/
theorem hasForm_toJson_iff (condition : Condition) :
    condition.toJson.hasForm = true ↔
      condition.EveryLeaf fun comparison => comparison.left ≠ "" := by
  induction condition with
  | leaf comparison => rw [hasForm_toJson_leaf, everyLeaf_leaf]
  | group join conditions ih =>
    rw [hasForm_toJson_group, everyLeaf_group]
    exact forall₂_congr ih

end Condition

namespace Validator

variable {validator : Validator} {requiresResource : Bool}

/-- What the rules ask of one comparison. -/
structure Permits (validator : Validator) (requiresResource : Bool) (comparison : Comparison) :
    Prop where
  rooted : isPath requiresResource comparison.left = true
  known : comparison.op.isKnown = true
  declared : ∀ schema, validator.schema? = some schema →
    ∀ path ∈ checkedPaths requiresResource comparison,
      schema.declares (Context.segments path) = true

private theorem comparisonBreaches_eq_nil_iff (location : String) (comparison : Comparison) :
    validator.comparisonBreaches requiresResource location comparison = [] ↔
      validator.Permits requiresResource comparison := by
  constructor
  · intro hnone
    simp only [comparisonBreaches, List.append_eq_nil_iff] at hnone
    obtain ⟨⟨hrooted, hknown⟩, hdeclared⟩ := hnone
    refine ⟨by simpa using hrooted, by simpa using hknown, fun schema hschema => ?_⟩
    rw [hschema] at hdeclared
    simpa using hdeclared
  · rintro ⟨hrooted, hknown, hdeclared⟩
    cases hschema : validator.schema? with
    | none => simp [comparisonBreaches, hrooted, hknown, hschema]
    | some schema =>
      simpa [comparisonBreaches, hrooted, hknown, hschema] using hdeclared schema hschema

/-- The breaches of the rules by the positions of the comparisons. -/
theorem ruleBreaches_eq (validator : Validator) (requiresResource : Bool) (condition : Condition) :
    validator.ruleBreaches requiresResource condition =
      (if validator.maxDepth < condition.depth then
        [.tooDeep condition.depth validator.maxDepth] else []) ++
        condition.leaves.flatMap fun (way, comparison) =>
          validator.comparisonBreaches requiresResource (Condition.location way) comparison := by
  simp only [ruleBreaches, Condition.levels_eq_depth, Condition.comparisons_eq, List.flatMap_map]

private theorem ruleBreaches_eq_nil_iff (condition : Condition) :
    validator.ruleBreaches requiresResource condition = [] ↔
      condition.depth ≤ validator.maxDepth ∧
        condition.EveryLeaf (validator.Permits requiresResource) := by
  simp only [ruleBreaches_eq, List.append_eq_nil_iff, List.flatMap_eq_nil_iff,
    comparisonBreaches_eq_nil_iff, Condition.forall_mem_leaves_iff]
  have hdepth : (if validator.maxDepth < condition.depth then
      [Breach.tooDeep condition.depth validator.maxDepth] else []) = [] ↔
      condition.depth ≤ validator.maxDepth := by
    simp
  rw [hdepth]

private theorem isPath_empty (hasResource : Bool) : isPath hasResource "" = false := by
  cases hasResource <;> rfl

/-- What the rules let through has the form of conditions. -/
theorem formBreaches_eq_nil_of_ruleBreaches {condition : Condition}
    (hrules : validator.ruleBreaches requiresResource condition = []) :
    formBreaches condition.toJson = [] := by
  rw [formBreaches_eq_nil_iff, Condition.hasForm_toJson_iff]
  refine (ruleBreaches_eq_nil_iff condition).1 hrules |>.2.imp fun comparison hpermits => ?_
  intro hempty
  have hrooted := hpermits.rooted
  rw [hempty, isPath_empty] at hrooted
  cases hrooted

/-- So the check of the written form decides nothing: a condition passes just when it passes the
rules. -/
theorem checkCondition_passed_iff (condition : Condition) :
    (validator.checkCondition requiresResource condition).passed = true ↔
      condition.depth ≤ validator.maxDepth ∧
        condition.EveryLeaf (validator.Permits requiresResource) := by
  rw [← ruleBreaches_eq_nil_iff]
  simp only [checkCondition, Report.ofBreaches, Report.passed, List.isEmpty_iff,
    List.map_eq_nil_iff, conditionBreaches, List.append_eq_nil_iff]
  constructor
  · exact And.right
  · intro hrules
    refine ⟨?_, hrules⟩
    split
    · rfl
    · exact formBreaches_eq_nil_of_ruleBreaches hrules

private theorem mem_checkedPaths_iff {comparison : Comparison} {path : String}
    (hrooted : isPath requiresResource comparison.left = true) :
    path ∈ checkedPaths requiresResource comparison ↔
      path = comparison.left ∨ comparison.rightPath? requiresResource = some path := by
  simp [checkedPaths, hrooted]

/-- What the rules ask of a comparison, written out. -/
theorem permits_iff (comparison : Comparison) :
    validator.Permits requiresResource comparison ↔
      (Text.startsWith subjectPath comparison.left = true ∨
        requiresResource = true ∧ Text.startsWith resourcePath comparison.left = true) ∧
      comparison.op ∈ [.eq, .neq, .gt, .lt, .gte, .lte] ∧
      ∀ schema, validator.schema? = some schema →
        schema.declares (Context.segments comparison.left) = true ∧
        ∀ path, comparison.rightPath? requiresResource = some path →
          schema.declares (Context.segments path) = true := by
  rw [← isPath_iff, ← Operator.isKnown_iff]
  constructor
  · rintro ⟨hrooted, hknown, hdeclared⟩
    refine ⟨hrooted, hknown, fun schema hschema => ?_⟩
    have hpaths := hdeclared schema hschema
    simp only [mem_checkedPaths_iff hrooted] at hpaths
    exact ⟨hpaths _ (.inl rfl), fun path hright => hpaths path (.inr hright)⟩
  · rintro ⟨hrooted, hknown, hdeclared⟩
    refine ⟨hrooted, hknown, fun schema hschema path hmem => ?_⟩
    obtain ⟨hleft, hright⟩ := hdeclared schema hschema
    rcases (mem_checkedPaths_iff hrooted).1 hmem with rfl | hpath
    · exact hleft
    · exact hright path hpath

/-- Validation is sound and complete. A report passes just when no level is too deep and every
comparison at every position is rooted, known and declared, also where the check of the written form
was skipped or made. That check reads the schema of conditions as it is written and never rejects
what the rules accept. -/
theorem checkCondition_sound_and_complete (validator : Validator) (requiresResource : Bool)
    (condition : Condition) :
    ((validator.checkCondition requiresResource condition).passed = true ↔
      condition.depth ≤ validator.maxDepth ∧
      ∀ way comparison, condition.follow? way = some (.leaf comparison) →
        (Text.startsWith subjectPath comparison.left = true ∨
          requiresResource = true ∧ Text.startsWith resourcePath comparison.left = true) ∧
        comparison.op ∈ [.eq, .neq, .gt, .lt, .gte, .lte] ∧
        ∀ schema, validator.schema? = some schema →
          schema.declares (Context.segments comparison.left) = true ∧
          ∀ path, comparison.rightPath? requiresResource = some path →
            schema.declares (Context.segments path) = true) ∧
    (validator.ruleBreaches requiresResource condition = [] →
      formBreaches condition.toJson = []) ∧
    ∀ document, formBreaches document = [] ↔ document.hasForm = true := by
  refine ⟨?_, formBreaches_eq_nil_of_ruleBreaches, formBreaches_eq_nil_iff⟩
  simp only [checkCondition_passed_iff, Condition.EveryLeaf, permits_iff]

end Validator

end Abac
