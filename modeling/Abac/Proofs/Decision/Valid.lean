import Abac.Proofs.Condition.Evaluation
import Abac.Proofs.Decision.FailClosed
import Abac.Proofs.Validation.Lookup

/-!
Decisions by configurations whose entitlements are valid. Validation bounds the levels of every
condition by the bound of the evaluator, so no evaluation fails and nothing hides a later policy:
the verdict is that some policy which answers the request holds, and the only thing that is ever
reported is that there is none.
-/

namespace Abac

namespace Collaborators

variable {source : Source} {judge : Judge} {subject : Attributes} {action : String}
  {target : Target} {granted : Bool} {evaluated : List (Condition × Context)}
  {recorded : List Diagnostic}

/-- Collaborators that answer by a source and a judge and list what is reported. -/
def reporting (source : Source) (judge : Judge) : Collaborators (StateM (List Diagnostic)) :=
  noting (fun
    | .record diagnostic => modify (· ++ [diagnostic])
    | _ => return ()) source judge

theorem run_reporting
    (hcourse : Course source judge subject action target granted evaluated recorded)
    (before : List Diagnostic) :
    ((reporting source judge).decide subject action target).run before =
      (granted, before ++ recorded) := by
  rw [reporting, decide_noting_reports _ (fun _ => rfl) (fun _ _ => rfl) hcourse]
  simp only [List.forM_eq_forM, StateT.run_bind, run_forM_append, StateT.run_pure, List.map_id']
  rfl

/-- When the source answers, the context can be built and every evaluation has an answer, the only
report is that there are no conditions. -/
theorem exists_course_of_answers {context : Context} {conditions : List Condition}
    {holds : Condition → Bool}
    (hfound : source (requestOf action target) = .done conditions)
    (hcontext : Context.ofTarget subject target = .ok context)
    (hanswers : ∀ condition ∈ conditions, judge condition context = .done (holds condition)) :
    ∃ granted evaluated recorded,
      Course source judge subject action target granted evaluated recorded ∧
      (conditions = [] → recorded = [.noPolicyFound target.type action]) ∧
      (conditions ≠ [] → recorded = []) ∧
      (granted = true ↔ ∃ condition ∈ conditions, holds condition = true) := by
  by_cases hsome : conditions = []
  · subst hsome
    exact ⟨false, [], _, .noPolicy hfound, fun _ => rfl, by simp, by simp⟩
  rcases all_denied_or_first judge context conditions with
    hall | ⟨before, condition, after, rfl, hbefore, hfirst⟩
  · have hnone : ¬ ∃ condition ∈ conditions, holds condition = true := by
      rintro ⟨condition, hmem, hholds⟩
      have hdenied := hall condition hmem
      rw [hanswers condition hmem, hholds] at hdenied
      cases hdenied
    refine ⟨false, _, [], .denied hfound hsome hcontext hall, ?_, fun _ => rfl, ?_⟩
    · exact fun hempty => absurd hempty hsome
    · exact iff_of_false Bool.false_ne_true hnone
  · have hanswer := hanswers condition (by simp)
    have hholds : holds condition = true := by
      cases hvalue : holds condition with
      | true => rfl
      | false =>
        rw [hanswer, hvalue] at hfirst
        exact absurd rfl hfirst
    rw [hholds] at hanswer
    refine ⟨true, _, [], .granted hfound hcontext hbefore hanswer, ?_, fun _ => rfl, ?_⟩
    · exact fun hempty => absurd hempty hsome
    · exact iff_of_true rfl ⟨condition, by simp, hholds⟩

end Collaborators

namespace Configuration

/-- The policies of a configuration as a source that always answers. -/
def source (config : Configuration) : Collaborators.Source := fun request =>
  .done (config.lookup request)

/-- Some entitlement has a policy for a request that has a property. -/
def Answers (config : Configuration) (request : Request) (good : Policy → Prop) : Prop :=
  ∃ entitlement ∈ config.entitlements, entitlement.resourceType = request.resourceType ∧
    ∃ policy, entitlement.policy? request.action = some policy ∧
      (policy.requiresResource = false ∨ request.requiresResource = true) ∧ good policy

private theorem exists_mem_lookup_iff {config : Configuration} {request : Request}
    {good : Condition → Prop} :
    (∃ condition ∈ config.lookup request, good condition) ↔
      config.Answers request fun policy => good policy.conditions := by
  have hadmits : ∀ policy, admits request policy = true ↔
      policy.requiresResource = false ∨ request.requiresResource = true := by
    intro policy
    simp [admits, or_comm]
  constructor
  · rintro ⟨condition, hmem, hgood⟩
    obtain ⟨entitlement, hentitlement, htype, policy, hpolicy, hadmitted, rfl⟩ :=
      mem_lookup_iff.1 hmem
    exact ⟨entitlement, hentitlement, htype, policy, hpolicy, (hadmits policy).1 hadmitted, hgood⟩
  · rintro ⟨entitlement, hentitlement, htype, policy, hpolicy, hadmitted, hgood⟩
    have hmem := mem_lookup_iff.2
      ⟨entitlement, hentitlement, htype, policy, hpolicy, (hadmits policy).2 hadmitted, rfl⟩
    exact ⟨policy.conditions, hmem, hgood⟩

private theorem lookup_ne_nil_iff {config : Configuration} {request : Request} :
    config.lookup request ≠ [] ↔ config.Answers request fun _ => True := by
  rw [← @exists_mem_lookup_iff config request fun _ => True]
  constructor
  · intro hsome
    obtain ⟨condition, hmem⟩ := List.exists_mem_of_ne_nil _ hsome
    exact ⟨condition, hmem, trivial⟩
  · rintro ⟨condition, hmem, -⟩
    exact List.ne_nil_of_mem hmem

private theorem depth_le_of_valid {validator : Validator} {config : Configuration}
    {request : Request}
    {condition : Condition}
    (hvalid : (validator.checkEntitlements config.entitlements).passed = true)
    (hmem : condition ∈ config.lookup request) : condition.depth ≤ validator.maxDepth := by
  obtain ⟨entitlement, hentitlement, -, policy, hpolicy, -, rfl⟩ := mem_lookup_iff.1 hmem
  have hpolicies := (Validator.checkEntitlements_passed_iff config.entitlements).1 hvalid
  have hpassed := hpolicies entitlement hentitlement _ (Entitlement.mem_policies_of_policy? hpolicy)
  exact ((Validator.checkCondition_passed_iff policy.conditions).1 hpassed).1

open Collaborators (requestOf reporting)

/-- Decisions by valid policies have no fault. The context of a resource or of a type can be built,
the verdict is that some policy for the request holds in it, and nothing is reported but that there
is no policy for the request, which is reported just then. -/
theorem decision_of_valid_configuration (validator : Validator) (config : Configuration)
    (subject : Json) (action : String) (target : Target)
    (hbound : validator.maxDepth ≤ config.maxDepth)
    (hvalid : (validator.checkEntitlements config.entitlements).passed = true)
    (haction : action ∈ config.actions.names)
    (htarget : (∃ resource : Resource, target = .ofResource resource) ∨
      ∃ type, target = .kind type) :
    ∃ context decision granted recorded,
      Context.ofTarget (.ok subject) target = .ok context ∧
      (reporting config.source (evaluator config.maxDepth)).check? config.actions (.ok subject)
        action target = some decision ∧
      (∀ before, decision.run before = (granted, before ++ recorded)) ∧
      (¬ config.Answers (requestOf action target) (fun _ => True) →
        recorded = [.noPolicyFound target.type action]) ∧
      (config.Answers (requestOf action target) (fun _ => True) → recorded = []) ∧
      (granted = true ↔ config.Answers (requestOf action target) fun policy =>
        policy.conditions.evaluate context = true) := by
  obtain ⟨context, hcontext⟩ :
      ∃ context, Context.ofTarget (.ok subject) target = .ok context := by
    rcases htarget with ⟨resource, rfl⟩ | ⟨type, rfl⟩
    · exact ⟨⟨subject, some resource.toJson⟩, rfl⟩
    · exact ⟨⟨subject, none⟩, rfl⟩
  have hanswers : ∀ condition ∈ config.lookup (requestOf action target),
      evaluator config.maxDepth condition context = .done (condition.evaluate context) := by
    intro condition hmem
    have hdepth := Configuration.depth_le_of_valid hvalid hmem
    exact evaluator_of_depth_le context (Nat.le_trans hdepth hbound)
  have hfound : config.source (requestOf action target) =
      .done (config.lookup (requestOf action target)) := rfl
  obtain ⟨granted, evaluated, recorded, hcourse, hnone, hsome, hverdict⟩ :=
    Collaborators.exists_course_of_answers hfound hcontext hanswers
  refine ⟨context, _, granted, recorded, hcontext,
    Collaborators.check?_of_mem _ (.ok subject) target haction, ?_, ?_, ?_, ?_⟩
  · exact Collaborators.run_reporting hcourse
  · intro hunanswered
    rw [← Configuration.lookup_ne_nil_iff, ne_eq, Classical.not_not] at hunanswered
    exact hnone hunanswered
  · intro hanswered
    exact hsome (Configuration.lookup_ne_nil_iff.2 hanswered)
  · rw [hverdict]
    exact Configuration.exists_mem_lookup_iff

/-- Two policies about documents: owners may read them, and so may editors. The first has as many
levels as the configuration allows. -/
def documentConfiguration : Configuration where
  actions := ⟨["read", "update"], by decide, by decide⟩
  maxDepth := 2
  entitlements := [
    ⟨1, "owners", "", "doc", [("read", ⟨true, .group .and [
      .leaf ⟨"subject.id", .eq, .string "resource.owner"⟩]⟩)], List.pairwise_singleton _ _⟩,
    ⟨2, "editors", "", "doc", [("read", ⟨false, .leaf ⟨"subject.role", .eq, .string "editor"⟩⟩)],
      List.pairwise_singleton _ _⟩]

def editor : Json := .object [("id", .ofNat 1), ("role", .string "editor")]

def foreignDocument : Resource := ⟨"doc", [("owner", .ofNat 2)]⟩

/-- An editor may read a document of someone else: the second policy grants what the first, which
is as deep as allowed, does not. -/
theorem editor_reads_foreignDocument :
    ((Validator.plain 2).checkEntitlements documentConfiguration.entitlements).passed = true ∧
    ∃ decision,
      (reporting documentConfiguration.source (evaluator documentConfiguration.maxDepth)).check?
        documentConfiguration.actions (.ok editor) "read" (.ofResource foreignDocument) =
          some decision ∧
      decision.run [] = (true, []) := by
  have hvalid : ((Validator.plain 2).checkEntitlements
      documentConfiguration.entitlements).passed = true := by
    decide +kernel
  obtain ⟨context, decision, granted, recorded, hcontext, hcheck, hrun, -, hsilent, hverdict⟩ :=
    decision_of_valid_configuration (Validator.plain 2) documentConfiguration editor "read"
      (.ofResource foreignDocument) (Nat.le_refl 2) hvalid List.mem_cons_self
      (.inl ⟨foreignDocument, rfl⟩)
  cases hcontext
  have hgranted : granted = true := hverdict.2
    ⟨_, List.mem_cons_of_mem _ (List.mem_singleton_self _), rfl, _, rfl, .inl rfl,
      by decide +kernel⟩
  have hrecorded : recorded = [] := hsilent
    ⟨_, List.mem_cons_of_mem _ (List.mem_singleton_self _), rfl, _, rfl, .inl rfl, trivial⟩
  rw [hgranted, hrecorded] at hrun
  exact ⟨hvalid, decision, hcheck, hrun []⟩

end Configuration

end Abac
