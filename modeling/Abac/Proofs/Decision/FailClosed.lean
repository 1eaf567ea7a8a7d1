import Abac.Proofs.Decision.Course

/-!
Decisions are exact and fail closed. The verdict is a grant just when the source answered with
conditions, the context could be built, and the first condition that does not plainly fail holds.
Every other way ends in a denial, and every fault on the way leaves one diagnostic.
-/

namespace Abac.Collaborators

variable {source : Source} {judge : Judge} {subject : Attributes} {action : String}
  {target : Target} {granted : Bool} {evaluated : List (Condition × Context)}
  {recorded : List Diagnostic}

/-- Some condition holds and all before it plainly fail. -/
def HasFirstGrant (judge : Judge) (context : Context) (conditions : List Condition) : Prop :=
  ∃ index, ∃ hindex : index < conditions.length,
    judge conditions[index] context = .done true ∧
    ∀ earlier, ∀ hearlier : earlier < index, judge conditions[earlier] context = .done false

theorem hasFirstGrant_append {before after : List Condition} {condition : Condition}
    {context : Context} (hbefore : ∀ other ∈ before, judge other context = .done false)
    (hfirst : judge condition context ≠ .done false) :
    HasFirstGrant judge context (before ++ condition :: after) ↔
      judge condition context = .done true := by
  constructor
  · rintro ⟨index, hindex, hholds, hearlier⟩
    rcases Nat.lt_trichotomy index before.length with hlt | rfl | hgt
    · have hdenied := hbefore _ (List.getElem_mem hlt)
      rw [List.getElem_append_left hlt, hdenied] at hholds
      cases hholds
    · simpa using hholds
    · have hdenied := hearlier before.length hgt
      exact absurd (by simpa using hdenied) hfirst
  · intro hholds
    refine ⟨before.length, by simp, by simpa using hholds, ?_⟩
    intro earlier hearlier
    rw [List.getElem_append_left hearlier]
    exact hbefore _ (List.getElem_mem hearlier)

theorem not_hasFirstGrant_of_all_denied {conditions : List Condition} {context : Context}
    (hall : ∀ condition ∈ conditions, judge condition context = .done false) :
    ¬ HasFirstGrant judge context conditions := by
  rintro ⟨index, hindex, hholds, -⟩
  rw [hall _ (List.getElem_mem hindex)] at hholds
  cases hholds

/-- A context has a resource just when the request that it answers is about one. -/
theorem hasResource_of_ofTarget {context : Context} (action : String)
    (hcontext : Context.ofTarget subject target = .ok context) :
    context.hasResource = (requestOf action target).requiresResource := by
  cases target with
  | item type attributes =>
    cases subject with
    | error reason => cases hcontext
    | ok value =>
      cases attributes with
      | error reason => cases hcontext
      | ok resource => cases hcontext; rfl
  | kind type =>
    cases subject with
    | error reason => cases hcontext
    | ok value => cases hcontext; rfl

/-- A grant is a first grant, and nothing else is. -/
theorem Course.granted_iff
    (hcourse : Course source judge subject action target granted evaluated recorded) :
    granted = true ↔ ∃ conditions context,
      source (requestOf action target) = .done conditions ∧
      Context.ofTarget subject target = .ok context ∧
      HasFirstGrant judge context conditions := by
  constructor
  · rintro rfl
    cases hcourse with
    | granted hfound hcontext hbefore hfirst =>
      exact ⟨_, _, hfound, hcontext,
        (hasFirstGrant_append hbefore (by simp [hfirst])).2 hfirst⟩
  · rintro ⟨conditions, context, hfound, hcontext, hgrant⟩
    cases hcourse with
    | sourceFailed hfailed => simp [hfound] at hfailed
    | sourceCrashed hcrashed => simp [hfound] at hcrashed
    | noPolicy hnone =>
      obtain rfl : conditions = [] := by simpa [hfound] using hnone
      exact absurd hgrant (not_hasFirstGrant_of_all_denied (by simp))
    | noContext _ _ hfault => simp [hcontext] at hfault
    | @denied others other hothers _ hother hall =>
      obtain rfl : conditions = others := by simpa [hfound] using hothers
      obtain rfl : context = other := by simpa [hcontext] using hother
      exact absurd hgrant (not_hasFirstGrant_of_all_denied hall)
    | granted => rfl
    | @faulted before after condition other fault hothers hother hbefore hfirst =>
      obtain rfl : conditions = before ++ condition :: after := by simpa [hfound] using hothers
      obtain rfl : context = other := by simpa [hcontext] using hother
      have hne : judge condition context ≠ .done false := ne_denied_of_settled_error hfirst
      rw [(hasFirstGrant_append hbefore hne).1 hgrant] at hfirst
      cases hfirst

/-- Every evaluation is in the context of the target. -/
theorem Course.evaluated_in_context
    (hcourse : Course source judge subject action target granted evaluated recorded)
    {evaluation : Condition × Context} (hmem : evaluation ∈ evaluated) :
    Context.ofTarget subject target = .ok evaluation.2 := by
  cases hcourse with
  | sourceFailed | sourceCrashed | noPolicy | noContext => cases hmem
  | denied _ _ hcontext _ =>
    obtain ⟨condition, -, rfl⟩ := List.mem_map.1 hmem
    exact hcontext
  | granted _ hcontext _ _ | faulted _ hcontext _ _ =>
    obtain ⟨condition, -, rfl⟩ := List.mem_map.1 hmem
    exact hcontext

/-- Nothing is reported about grants and about denials by conditions that all plainly fail. About
every other decision exactly one diagnostic is. -/
theorem Course.recorded_eq_nil_iff
    (hcourse : Course source judge subject action target granted evaluated recorded) :
    recorded = [] ↔ granted = true ∨ ∃ conditions context,
      source (requestOf action target) = .done conditions ∧ conditions ≠ [] ∧
      Context.ofTarget subject target = .ok context ∧
      ∀ condition ∈ conditions, judge condition context = .done false := by
  constructor
  · rintro rfl
    cases hcourse with
    | denied hfound hsome hcontext hall => exact .inr ⟨_, _, hfound, hsome, hcontext, hall⟩
    | granted => exact .inl rfl
  · rintro (rfl | ⟨conditions, context, hfound, hsome, hcontext, hall⟩)
    · cases hcourse with
      | granted => rfl
    · cases hcourse with
      | sourceFailed hfailed => simp [hfound] at hfailed
      | sourceCrashed hcrashed => simp [hfound] at hcrashed
      | noPolicy hnone => simp [hfound, hsome] at hnone
      | noContext _ _ hfault => simp [hcontext] at hfault
      | denied => rfl
      | granted => rfl
      | @faulted before after condition other fault hothers hother hbefore hfirst =>
        obtain rfl : conditions = before ++ condition :: after := by simpa [hfound] using hothers
        obtain rfl : context = other := by simpa [hcontext] using hother
        exact absurd (hall condition (by simp)) (ne_denied_of_settled_error hfirst)

theorem Course.recorded_length_le_one
    (hcourse : Course source judge subject action target granted evaluated recorded) :
    recorded.length ≤ 1 := by
  cases hcourse <;> simp

/-- Entries that are listed one by one are appended in their order. -/
theorem run_forM_append {α β : Type} (entry : α → β) (items : List α) (entries : List β) :
    StateT.run (m := Id) (forM items fun item => modify (· ++ [entry item])) entries =
      ((), entries ++ items.map entry) := by
  induction items generalizing entries with
  | nil =>
    rw [List.forM_nil, List.map_nil, List.append_nil]
    rfl
  | cons item rest ih =>
    have hnext := ih (entries ++ [entry item])
    rw [List.append_assoc, List.singleton_append] at hnext
    simpa using hnext

/-- A decision lists the steps of its course. -/
theorem run_listing
    (hcourse : Course source judge subject action target granted evaluated recorded) :
    ((listing source judge).decide subject action target).run [] =
      (granted, .lookup (requestOf action target) ::
        (evaluated.map (fun evaluation => .evaluate evaluation.1 evaluation.2) ++
          recorded.map .record)) := by
  rw [listing, decide_noting _ hcourse]
  simp only [List.forM_eq_forM, StateT.run_bind, run_forM_append, StateT.run_modify,
    StateT.run_pure, pure_bind]
  rfl

/-- Decisions about configured actions are exact and fail closed. Whatever the source, the
attributes and the evaluator come up with, the source is asked once, the evaluator is asked along a
course of the decision and in a context that has a resource just when the source was told so, and
only a first grant is a grant. -/
theorem decision_exact_and_fail_closed (source : Source) (judge : Judge) (actions : ActionSet)
    (subject : Attributes) (action : String) (target : Target)
    (hconfigured : action ∈ actions.names) :
    ∃ decision granted evaluated recorded,
      (listing source judge).check? actions subject action target = some decision ∧
      decision.run [] = (granted, .lookup (requestOf action target) ::
        (evaluated.map (fun evaluation => .evaluate evaluation.1 evaluation.2) ++
          recorded.map .record)) ∧
      Course source judge subject action target granted evaluated recorded ∧
      (granted = true ↔ ∃ conditions context,
        source (requestOf action target) = .done conditions ∧
        Context.ofTarget subject target = .ok context ∧
        HasFirstGrant judge context conditions) ∧
      (∀ condition context, (condition, context) ∈ evaluated →
        Context.ofTarget subject target = .ok context ∧
        context.hasResource = (requestOf action target).requiresResource) ∧
      (recorded = [] ↔ granted = true ∨ ∃ conditions context,
        source (requestOf action target) = .done conditions ∧ conditions ≠ [] ∧
        Context.ofTarget subject target = .ok context ∧
        ∀ condition ∈ conditions, judge condition context = .done false) ∧
      recorded.length ≤ 1 := by
  obtain ⟨granted, evaluated, recorded, hcourse⟩ :=
    exists_course source judge subject action target
  refine ⟨_, granted, evaluated, recorded, check?_of_mem _ subject target hconfigured,
    run_listing hcourse, hcourse, hcourse.granted_iff, ?_, hcourse.recorded_eq_nil_iff,
    hcourse.recorded_length_le_one⟩
  intro condition context hmem
  have hcontext := hcourse.evaluated_in_context hmem
  exact ⟨hcontext, hasResource_of_ofTarget action hcontext⟩

/-- A judge that denies equalities, crashes on unknown operators and grants all else. -/
def waryJudge : Judge
  | .leaf ⟨_, .eq, _⟩, _ => .done false
  | .leaf ⟨_, .unknown name, _⟩, _ => .crashed (some name)
  | _, _ => .done true

def equality : Condition := .leaf ⟨"subject.a", .eq, .null⟩

def oddity : Condition := .leaf ⟨"subject.a", .unknown "like", .null⟩

/-- The second of three conditions crashes the judge. The third, which holds, is not reached. -/
theorem decision_denied_by_crash :
    "read" ∈ ["read"] ∧ ∃ (evaluated : List (Condition × Context)) (recorded : List Diagnostic),
      Course (fun _ => .done [equality, oddity, .group .and []]) waryJudge (.ok .null) "read"
        (.kind "doc") false evaluated recorded ∧
      recorded.length = 1 := by
  refine ⟨by decide, ?_⟩
  obtain ⟨decision, granted, evaluated, recorded, hcheck, hrun, hcourse, -, -, hsilent, hone⟩ :=
    decision_exact_and_fail_closed (fun _ => .done [equality, oddity, .group .and []]) waryJudge
      ⟨["read"], by decide, by decide⟩ (.ok .null) "read" (.kind "doc") (by decide)
  obtain rfl := Option.some.inj hcheck
  obtain rfl : false = granted := congrArg Prod.fst hrun
  refine ⟨evaluated, recorded, hcourse, ?_⟩
  have hsome : recorded ≠ [] := by
    intro hnone
    rcases hsilent.1 hnone with hgranted | ⟨conditions, context, hfound, -, -, hall⟩
    · cases hgranted
    · cases hfound
      cases hall oddity (by simp)
  have hpos := List.length_pos_iff.2 hsome
  omega

end Abac.Collaborators
