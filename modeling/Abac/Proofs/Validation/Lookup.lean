import Abac.Proofs.Policy.Lookup
import Abac.Proofs.Validation.Exact

/-!
Validation when policies are loaded and when they are looked up. A policy about a type is checked
without a resource when it is loaded, but it also answers requests about one resource, and for those
it is checked with one. The two checks differ in a single point: with a resource a text on the right
that starts with `resource.` is a path, and a schema of contexts has to declare it.
-/

namespace Abac

namespace Validator

variable {validator : Validator} {requiresResource : Bool}

/-- The report of a lookup has the failures of all its conditions, in their order. -/
theorem failures_checkLookup (validator : Validator) (requiresResource : Bool)
    (conditions : List Condition) :
    (validator.checkLookup requiresResource conditions).failures =
      conditions.flatMap fun condition =>
        (validator.checkCondition requiresResource condition).failures := by
  have hfold : ∀ report : Report, (conditions.foldl (fun report condition =>
      report.merge (validator.checkCondition requiresResource condition)) report).failures =
      report.failures ++ conditions.flatMap fun condition =>
        (validator.checkCondition requiresResource condition).failures := by
    induction conditions with
    | nil => simp
    | cons condition rest ih =>
      intro report
      rw [List.foldl_cons, ih]
      simp [Report.merge]
  simpa [checkLookup, Report.empty] using hfold .empty

theorem checkLookup_passed_iff (conditions : List Condition) :
    (validator.checkLookup requiresResource conditions).passed = true ↔
      ∀ condition ∈ conditions,
        (validator.checkCondition requiresResource condition).passed = true := by
  simp only [Report.passed, List.isEmpty_iff, failures_checkLookup, List.flatMap_eq_nil_iff]

/-- A screen lets a list of conditions through unchanged when all are valid. -/
theorem screen_done_eq_iff {request : Request} {conditions : List Condition} :
    validator.screen request (.done conditions) = .done conditions ↔
      ∀ condition ∈ conditions,
        (validator.checkCondition request.requiresResource condition).passed = true := by
  rw [← checkLookup_passed_iff]
  simp only [screen]
  split <;> simp_all

/-- One invalid condition is enough to refuse all. -/
theorem screen_of_invalid {request : Request} {conditions : List Condition} {condition : Condition}
    (hmem : condition ∈ conditions)
    (hinvalid : ¬ (validator.checkCondition request.requiresResource condition).passed = true) :
    validator.screen request (.done conditions) = .failed (.invalidPolicy
      (validator.checkLookup request.requiresResource conditions).summary) := by
  have hreport : ¬ (validator.checkLookup request.requiresResource conditions).passed = true := by
    rw [checkLookup_passed_iff]
    intro hall
    exact hinvalid (hall condition hmem)
  simp only [screen]
  rw [if_neg hreport]

theorem checkEntitlements_passed_iff (entitlements : List Entitlement) :
    (validator.checkEntitlements entitlements).passed = true ↔
      ∀ entitlement ∈ entitlements, ∀ entry ∈ entitlement.policies,
        (validator.checkPolicy entry.2).passed = true := by
  simp [Report.passed, checkEntitlements, checkEntitlement, List.flatMap_eq_nil_iff]

/-- With a resource a comparison is asked for one thing more: a text on the right that starts with
`resource.` has to be declared. -/
theorem permits_with_resource_iff {comparison : Comparison}
    (hwithout : validator.Permits false comparison) :
    validator.Permits true comparison ↔
      ∀ schema text, validator.schema? = some schema → comparison.right = .string text →
        Text.startsWith resourcePath text = true →
        schema.declares (Context.segments text) = true := by
  obtain ⟨hrooted, hknown, hdeclared⟩ := (permits_iff comparison).1 hwithout
  have hsubject : Text.startsWith subjectPath comparison.left = true := by simpa using hrooted
  rw [permits_iff]
  constructor
  · rintro ⟨-, -, hboth⟩ schema text hschema hright hresource
    refine (hboth schema hschema).2 text ?_
    simp [Comparison.rightPath?, hright, isPath, hresource]
  · intro hresource
    refine ⟨.inl hsubject, hknown, fun schema hschema => ⟨(hdeclared schema hschema).1, ?_⟩⟩
    intro path hpath
    obtain ⟨hright, hroots⟩ := Comparison.rightPath?_eq_some_iff.1 hpath
    rcases isPath_iff.1 hroots with hroot | ⟨-, hroot⟩
    · -- a path below the subject was checked when the policy was loaded
      refine (hdeclared schema hschema).2 path (Comparison.rightPath?_eq_some_iff.2 ⟨hright, ?_⟩)
      exact isPath_iff.2 (.inl hroot)
    · exact hresource schema path hschema hright hroot

/-- A policy about a type that answers a request about one resource, with a text on the right of a
comparison that was a literal when the policy was loaded, is a path now, and is not declared. -/
def HidesPath (validator : Validator) (request : Request) (policy : Policy) : Prop :=
  request.requiresResource = true ∧ policy.requiresResource = false ∧
    ∃ schema way comparison text, validator.schema? = some schema ∧
      policy.conditions.follow? way = some (.leaf comparison) ∧
      comparison.right = .string text ∧ Text.startsWith resourcePath text = true ∧
      schema.declares (Context.segments text) = false

/-- A valid policy that answers a request stays valid there unless it hides a path. -/
theorem passed_at_lookup_iff {request : Request} {policy : Policy}
    (hloaded : (validator.checkPolicy policy).passed = true)
    (hadmits : Configuration.admits request policy = true) :
    (validator.checkCondition request.requiresResource policy.conditions).passed = true ↔
      ¬ validator.HidesPath request policy := by
  by_cases hsame : request.requiresResource = policy.requiresResource
  · rw [hsame]
    refine iff_of_true hloaded ?_
    rintro ⟨hrequest, hpolicy, -⟩
    rw [hrequest, hpolicy] at hsame
    cases hsame
  · obtain ⟨hrequest, hpolicy⟩ :
        request.requiresResource = true ∧ policy.requiresResource = false := by
      unfold Configuration.admits at hadmits
      revert hadmits hsame
      cases request.requiresResource <;> cases policy.requiresResource <;> simp
    rw [checkPolicy, hpolicy, checkCondition_passed_iff] at hloaded
    obtain ⟨hdepth, hleaves⟩ := hloaded
    rw [hrequest, checkCondition_passed_iff]
    constructor
    · rintro ⟨-, hall⟩ ⟨-, -, schema, way, comparison, text, hschema, hfollow, hright, hroot, hnot⟩
      have hasked := (permits_with_resource_iff (hleaves way comparison hfollow)).1
        (hall way comparison hfollow) schema text hschema hright hroot
      rw [hasked] at hnot
      cases hnot
    · intro hopen
      refine ⟨hdepth, fun way comparison hfollow => ?_⟩
      refine (permits_with_resource_iff (hleaves way comparison hfollow)).2 ?_
      intro schema text hschema hright hroot
      cases hdeclares : schema.declares (Context.segments text) with
      | true => rfl
      | false =>
        exact absurd ⟨hrequest, hpolicy, schema, way, comparison, text, hschema, hfollow, hright,
          hroot, hdeclares⟩ hopen

/-- Some policy that answers a request hides a path there. -/
def AnswerHidesPath (validator : Validator) (config : Configuration) (request : Request) : Prop :=
  ∃ entitlement ∈ config.entitlements, entitlement.resourceType = request.resourceType ∧
    ∃ policy, entitlement.policy? request.action = some policy ∧ validator.HidesPath request policy

/-- When all entitlements are valid, a lookup through a screen gives what it gives without, unless a
policy that answers it hides a path. In that case, and in no other, the policies are refused. -/
theorem screened_lookup_of_valid_entitlements (validator : Validator) (config : Configuration)
    (request : Request)
    (hloaded : (validator.checkEntitlements config.entitlements).passed = true) :
    (¬ validator.AnswerHidesPath config request →
      validator.screen request (.done (config.lookup request)) =
        .done (config.lookup request)) ∧
    (validator.AnswerHidesPath config request →
      validator.screen request (.done (config.lookup request)) =
        .failed (.invalidPolicy
          (validator.checkLookup request.requiresResource (config.lookup request)).summary)) := by
  have hpolicies := (checkEntitlements_passed_iff config.entitlements).1 hloaded
  constructor
  · intro hopen
    rw [screen_done_eq_iff]
    intro condition hmem
    obtain ⟨entitlement, hentitlement, htype, policy, hpolicy, hadmits, rfl⟩ :=
      Configuration.mem_lookup_iff.1 hmem
    have hvalid :=
      hpolicies entitlement hentitlement _ (Entitlement.mem_policies_of_policy? hpolicy)
    refine (passed_at_lookup_iff hvalid hadmits).2 fun hhides => ?_
    exact hopen ⟨entitlement, hentitlement, htype, policy, hpolicy, hhides⟩
  · rintro ⟨entitlement, hentitlement, htype, policy, hpolicy, hhides⟩
    have hadmits : Configuration.admits request policy = true := by
      simp [Configuration.admits, hhides.1]
    have hmem : policy.conditions ∈ config.lookup request :=
      Configuration.mem_lookup_iff.2
        ⟨entitlement, hentitlement, htype, policy, hpolicy, hadmits, rfl⟩
    have hvalid :=
      hpolicies entitlement hentitlement _ (Entitlement.mem_policies_of_policy? hpolicy)
    refine screen_of_invalid hmem fun hpassed => ?_
    exact (passed_at_lookup_iff hvalid hadmits).1 hpassed hhides

/-- A schema of contexts in which subjects have a role, and resources are not mentioned. -/
def roleSchema : Json :=
  .object [("properties", .object [
    ("subject", .object [("properties", .object [("role", .object [])])])])]

def roleValidator : Validator := ⟨32, Schema.ofJson? roleSchema⟩

def roleComparison : Comparison := ⟨"subject.role", .eq, .string "resource.role"⟩

/-- One policy, about documents in general, that compares a role with a text. -/
def roleConfiguration : Configuration where
  actions := ⟨["read"], by decide, by decide⟩
  maxDepth := 32
  entitlements := [⟨1, "reader", "", "doc", [("read", ⟨false, .leaf roleComparison⟩)],
    List.pairwise_singleton _ _⟩]

def aboutDocuments : Request := ⟨"doc", "read", false⟩

def aboutOneDocument : Request := ⟨"doc", "read", true⟩

private theorem valid_roleConfiguration :
    (roleValidator.checkEntitlements roleConfiguration.entitlements).passed = true := by
  decide +kernel

/-- The text is a literal for documents in general and a hidden path for one document. -/
theorem screened_lookup_of_roleConfiguration :
    (roleValidator.checkEntitlements roleConfiguration.entitlements).passed = true ∧
    roleValidator.screen aboutDocuments (.done (roleConfiguration.lookup aboutDocuments)) =
      .done (roleConfiguration.lookup aboutDocuments) ∧
    roleValidator.screen aboutOneDocument (.done (roleConfiguration.lookup aboutOneDocument)) =
      .failed (.invalidPolicy (roleValidator.checkLookup true
        (roleConfiguration.lookup aboutOneDocument)).summary) := by
  refine ⟨valid_roleConfiguration, ?_, ?_⟩
  · refine (screened_lookup_of_valid_entitlements _ _ _ valid_roleConfiguration).1 ?_
    rintro ⟨entitlement, -, -, policy, -, hrequest, -⟩
    cases hrequest
  · refine (screened_lookup_of_valid_entitlements _ _ _ valid_roleConfiguration).2 ?_
    have hundeclared : ∀ schema, roleValidator.schema? = some schema →
        schema.declares (Context.segments "resource.role") = false := by
      intro schema hschema
      have hsome : roleValidator.schema?.all
          (fun schema => !schema.declares (Context.segments "resource.role")) = true := by
        decide +kernel
      simpa [hschema] using hsome
    obtain ⟨schema, hschema⟩ : ∃ schema, roleValidator.schema? = some schema :=
      Option.isSome_iff_exists.1 (by decide +kernel)
    exact ⟨_, List.mem_singleton_self _, rfl, _, rfl, rfl, rfl, schema, [], roleComparison,
      "resource.role", hschema, by simp [Condition.follow?], rfl, by decide,
      hundeclared schema hschema⟩

/-- So valid entitlements do not make every lookup valid: this one is refused. -/
theorem valid_entitlements_refused_at_lookup :
    Validator.withSchema 32 roleSchema = .ok roleValidator ∧ roleConfiguration.flaw? = none ∧
    (roleValidator.checkEntitlements roleConfiguration.entitlements).passed = true ∧
    roleValidator.screen aboutOneDocument (.done (roleConfiguration.lookup aboutOneDocument)) =
      .failed (.invalidPolicy
        "[unknown-path] $: path 'resource.role' is not declared by the context schema") := by
  have hreason : (roleValidator.checkLookup true
      (roleConfiguration.lookup aboutOneDocument)).summary =
      "[unknown-path] $: path 'resource.role' is not declared by the context schema" := by
    decide +kernel
  have hinvalid : ¬ (roleValidator.checkCondition true (.leaf roleComparison)).passed = true := by
    decide +kernel
  refine ⟨rfl, by decide, valid_roleConfiguration, ?_⟩
  rw [← hreason]
  exact screen_of_invalid (List.mem_singleton_self _) hinvalid

end Validator

end Abac
