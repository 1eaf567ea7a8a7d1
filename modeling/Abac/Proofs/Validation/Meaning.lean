import Abac.Proofs.Condition.Influence
import Abac.Proofs.Operand.Words
import Abac.Proofs.Validation.Lookup

/-!
What a policy about a type means for one resource. Two contexts are compared, with the same subject
and with and without a resource. A text on the right that starts with `resource.` is a literal in
one and a path in the other, and valid policies about a type may have such texts. Nothing else in
them changes its meaning.
-/

namespace Abac

namespace Comparison

/-- Read as a text and as a path, a right operand that names the resource compares the same. -/
def ReadsAlike (subject resource : Json) (comparison : Comparison) : Prop :=
  ∀ text, comparison.right = .string text → Text.startsWith resourcePath text = true →
    comparison.op.holds (comparison.leftOperand ⟨subject, none⟩) (some (.string text)) =
      comparison.op.holds (comparison.leftOperand ⟨subject, none⟩)
        (Context.resolve? ⟨subject, some resource⟩ text)

variable {comparison : Comparison} {text : String}

private theorem toList_of_resourcePath (hpath : Text.startsWith resourcePath text = true) :
    ∃ rest, text.toList = 'r' :: rest := by
  obtain ⟨rest, hrest⟩ := List.isPrefixOf_iff_prefix.1 hpath
  exact ⟨"esource.".toList ++ rest, hrest.symm⟩

private theorem not_subjectPath_of_resourcePath (hpath : Text.startsWith resourcePath text = true) :
    Text.startsWith subjectPath text = false := by
  obtain ⟨rest, hrest⟩ := toList_of_resourcePath hpath
  rw [Text.startsWith, hrest]
  rfl

/-- Where the right operand names the resource, it is the text itself without a resource. -/
theorem rightOperand_without_resource (hright : comparison.right = .string text)
    (hpath : Text.startsWith resourcePath text = true) (subject : Json) :
    comparison.rightOperand ⟨subject, none⟩ = some (.string text) := by
  have hliteral : comparison.rightPath? false = none := by
    simp [rightPath?, hright, isPath, not_subjectPath_of_resourcePath hpath]
  simp [rightOperand, Context.hasResource, hliteral, hright]

/-- With a resource it is where the text leads. -/
theorem rightOperand_with_resource (hright : comparison.right = .string text)
    (hpath : Text.startsWith resourcePath text = true) (subject resource : Json) :
    comparison.rightOperand ⟨subject, some resource⟩ =
      Context.resolve? ⟨subject, some resource⟩ text := by
  have hleads : comparison.rightPath? true = some text := by
    simp [rightPath?, hright, isPath, hpath]
  simp [rightOperand, Context.hasResource, hleads]

private theorem leftOperand_with_resource
    (hrooted : Text.startsWith subjectPath comparison.left = true) (subject resource : Json) :
    comparison.leftOperand ⟨subject, none⟩ = comparison.leftOperand ⟨subject, some resource⟩ := by
  obtain ⟨keys, hkeys⟩ := Context.resolve?_of_subjectPath hrooted
  rw [leftOperand, leftOperand, hkeys, hkeys]

private theorem rightOperand_of_not_namesResource (hnames : ¬ comparison.NamesResource)
    (subject resource : Json) :
    comparison.rightOperand ⟨subject, none⟩ = comparison.rightOperand ⟨subject, some resource⟩ := by
  have hsame : comparison.rightPath? true = comparison.rightPath? false :=
    rightPath?_of_not_namesResource hnames true
  cases hpath : comparison.rightPath? false with
  | none => simp [rightOperand, Context.hasResource, hsame, hpath]
  | some path =>
    have hrooted := (rightPath?_eq_some_iff.1 hpath).2
    have hsubject : Text.startsWith subjectPath path = true := by simpa [isPath] using hrooted
    obtain ⟨keys, hkeys⟩ := Context.resolve?_of_subjectPath hsubject
    simp [rightOperand, Context.hasResource, hsame, hpath, hkeys]

/-- A comparison below the subject keeps its meaning for all subjects and resources just when its
right operand does not name the resource. -/
theorem same_with_resource_iff (hrooted : Text.startsWith subjectPath comparison.left = true)
    (hknown : comparison.op.isKnown = true) :
    (∀ subject resource,
      comparison.evaluate ⟨subject, none⟩ = comparison.evaluate ⟨subject, some resource⟩) ↔
      ¬ comparison.NamesResource := by
  constructor
  · rintro hsame ⟨text, hright, hpath⟩
    obtain ⟨rest, hrest⟩ := toList_of_resourcePath hpath
    have hword : Operand.numeral? text.toList = none := by
      rw [hrest]
      exact Operand.numeral?_eq_none rfl rfl (by decide) (by decide) rest
    obtain ⟨left, hdiffers⟩ := Operator.exists_holds_ne_undefined hknown hword
    obtain ⟨subject, hsubject⟩ := Context.exists_subject_resolve? hrooted (.string left)
    -- no path leads below null, so with this resource the right operand is undefined
    obtain ⟨key, keys, hkeys⟩ := Context.resolve?_of_resourcePath hpath
    have hundefined : Context.resolve? ⟨subject, some .null⟩ text = none := hkeys subject .null
    have hreadings := hsame subject .null
    rw [evaluate, evaluate, rightOperand_without_resource hright hpath,
      rightOperand_with_resource hright hpath, hundefined, leftOperand, leftOperand, hsubject,
      hsubject] at hreadings
    exact hdiffers hreadings
  · intro hnames subject resource
    rw [evaluate, evaluate, leftOperand_with_resource hrooted subject resource,
      rightOperand_of_not_namesResource hnames subject resource]

end Comparison

namespace Validator

variable {validator : Validator} {policy : Policy}

private theorem permits_of_valid_type_policy (htype : policy.requiresResource = false)
    (hvalid : (validator.checkPolicy policy).passed = true) :
    policy.conditions.EveryLeaf (validator.Permits false) := by
  rw [checkPolicy, htype, checkCondition_passed_iff] at hvalid
  exact hvalid.2

theorem Permits.subjectPath {comparison : Comparison}
    (hpermits : validator.Permits false comparison) :
    Text.startsWith subjectPath comparison.left = true := by
  simpa [isPath] using hpermits.rooted

/-- A valid policy about a type means the same for one resource when every comparison whose right
operand names the resource reads alike there. A comparison keeps its meaning for all subjects and
resources just when it has no such operand. -/
theorem type_policy_with_resource (validator : Validator) (policy : Policy)
    (htype : policy.requiresResource = false)
    (hvalid : (validator.checkPolicy policy).passed = true) :
    (∀ subject resource, policy.conditions.EveryLeaf (Comparison.ReadsAlike subject resource) →
      policy.conditions.evaluate ⟨subject, none⟩ =
        policy.conditions.evaluate ⟨subject, some resource⟩) ∧
    policy.conditions.EveryLeaf fun comparison =>
      (∀ subject resource,
        comparison.evaluate ⟨subject, none⟩ = comparison.evaluate ⟨subject, some resource⟩) ↔
        ¬ comparison.NamesResource := by
  have hleaves := permits_of_valid_type_policy htype hvalid
  constructor
  · intro subject resource halike
    apply Condition.evaluate_congr
    intro way comparison hfollow
    have hpermits := hleaves way comparison hfollow
    by_cases hnames : comparison.NamesResource
    · obtain ⟨text, hright, hpath⟩ := hnames
      rw [Comparison.evaluate, Comparison.evaluate,
        Comparison.rightOperand_without_resource hright hpath,
        Comparison.rightOperand_with_resource hright hpath,
        ← Comparison.leftOperand_with_resource hpermits.subjectPath]
      exact halike way comparison hfollow text hright hpath
    · have hsame := Comparison.same_with_resource_iff hpermits.subjectPath hpermits.known
      exact hsame.2 hnames subject resource
  · intro way comparison hfollow
    have hpermits := hleaves way comparison hfollow
    exact Comparison.same_with_resource_iff hpermits.subjectPath hpermits.known

/-- Administrators, and those whose role is what the text says or the resource. -/
def adminPolicy : Policy :=
  ⟨false, .group .or [.leaf ⟨"subject.role", .eq, .string "admin"⟩, .leaf roleComparison]⟩

def withRole (role : String) : Json := .object [("role", .string role)]

/-- To an administrator the role of an editor and its path compare alike. -/
theorem adminPolicy_with_resource :
    adminPolicy.requiresResource = false ∧ ((plain 2).checkPolicy adminPolicy).passed = true ∧
    adminPolicy.conditions.evaluate ⟨withRole "admin", none⟩ =
      adminPolicy.conditions.evaluate ⟨withRole "admin", some (withRole "editor")⟩ := by
  have hvalid : ((plain 2).checkPolicy adminPolicy).passed = true := by
    decide +kernel
  refine ⟨rfl, hvalid, (type_policy_with_resource (plain 2) adminPolicy rfl hvalid).1 _ _ ?_⟩
  rw [adminPolicy, Condition.everyLeaf_group]
  intro condition hmem
  simp only [List.mem_cons, List.not_mem_nil, or_false] at hmem
  rcases hmem with rfl | rfl
  · rw [Condition.everyLeaf_leaf]
    rintro text hright hpath
    cases hright
    cases hpath
  · rw [Condition.everyLeaf_leaf]
    rintro text hright -
    cases hright
    decide +kernel

def rolePolicy : Policy := ⟨false, .leaf roleComparison⟩

/-- So a valid policy about a type may hold for the type and not for a resource: this one holds for
subjects whose role is the text `resource.role`, until there is a resource without a role. -/
theorem rolePolicy_changes_with_resource :
    rolePolicy.requiresResource = false ∧ ((plain 32).checkPolicy rolePolicy).passed = true ∧
    rolePolicy.conditions.evaluate ⟨withRole "resource.role", none⟩ = true ∧
    rolePolicy.conditions.evaluate
      ⟨withRole "resource.role", some (Resource.ofType "doc").toJson⟩ = false := by
  decide +kernel

end Validator

end Abac
