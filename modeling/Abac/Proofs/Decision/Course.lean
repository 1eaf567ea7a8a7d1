import Abac.Decision

/-!
Runs of decisions whose collaborators answer by fixed rules: a source that answers requests and a
judge that answers evaluations, each with any outcome. The steps of such a run are noted one by
one. `Course` says once which runs there are; `decide_noting` proves that every run is one of
them, in any monad, and the theorems about verdicts, evaluations and diagnostics follow from it.
-/

namespace Abac.Collaborators

/-- What a decision asks of its collaborators, or tells them. -/
inductive Step where
  | lookup (request : Request)
  | evaluate (condition : Condition) (context : Context)
  | record (diagnostic : Diagnostic)

/-- A policy source that is a function of the request. -/
abbrev Source := Request → Outcome (List Condition)

/-- An evaluator that is a function of the condition and the context. -/
abbrev Judge := Condition → Context → Outcome Bool

section Noting

variable {m : Type → Type} [Monad m]

/-- Collaborators that answer by a source and a judge and note every step before they answer. -/
def noting (note : Step → m Unit) (source : Source) (judge : Judge) : Collaborators m where
  lookup request := do
    note (.lookup request)
    return source request
  evaluate condition context := do
    note (.evaluate condition context)
    return judge condition context
  record diagnostic := note (.record diagnostic)

@[simp] theorem noting_lookup (note : Step → m Unit) (source : Source) (judge : Judge)
    (request : Request) :
    (noting note source judge).lookup request = (do
      note (.lookup request)
      return source request) := rfl

@[simp] theorem noting_evaluate (note : Step → m Unit) (source : Source) (judge : Judge)
    (condition : Condition) (context : Context) :
    (noting note source judge).evaluate condition context = (do
      note (.evaluate condition context)
      return judge condition context) := rfl

@[simp] theorem noting_record (note : Step → m Unit) (source : Source) (judge : Judge)
    (diagnostic : Diagnostic) :
    (noting note source judge).record diagnostic = note (.record diagnostic) := rfl

end Noting

/-- Collaborators whose steps are listed in their order. -/
def listing (source : Source) (judge : Judge) : Collaborators (StateM (List Step)) :=
  noting (fun step => modify (· ++ [step])) source judge

/-- The request of a decision to the policy source. -/
def requestOf (action : String) (target : Target) : Request := ⟨target.type, action, target.isItem⟩

variable {judge : Judge} {context : Context}

theorem all_denied_or_first (judge : Judge) (context : Context) (conditions : List Condition) :
    (∀ condition ∈ conditions, judge condition context = .done false) ∨
      ∃ before condition after, conditions = before ++ condition :: after ∧
        (∀ other ∈ before, judge other context = .done false) ∧
        judge condition context ≠ .done false := by
  induction conditions with
  | nil => exact .inl (by simp)
  | cons condition rest ih =>
    by_cases hcondition : judge condition context = .done false
    · rcases ih with hall | ⟨before, first, after, rfl, hbefore, hfirst⟩
      · exact .inl (List.forall_mem_cons.2 ⟨hcondition, hall⟩)
      · exact .inr ⟨condition :: before, first, after, rfl,
          List.forall_mem_cons.2 ⟨hcondition, hbefore⟩, hfirst⟩
    · exact .inr ⟨[], condition, rest, rfl, by simp, hcondition⟩

/-- What a decision makes of the outcome of the condition with an index. -/
def settled (index : Nat) : Outcome Bool → Except Fault Bool
  | .done granted => .ok granted
  | .failed fault => .error fault
  | .crashed text? => .error (.evaluation ("evaluator panicked on policy " ++ toString index ++
      ": " ++ crashReport text?))

theorem ne_denied_of_settled_error {index : Nat} {outcome : Outcome Bool} {fault : Fault}
    (hsettled : settled index outcome = .error fault) : outcome ≠ .done false := by
  rintro rfl
  cases hsettled

section FirstGrant

variable {m : Type → Type} [Monad m] [LawfulMonad m] (note : Step → m Unit) (source : Source)

/-- A condition that plainly fails is noted and passed over. -/
theorem firstGrant_noting_denied {condition : Condition} (rest : List Condition) (index : Nat)
    (hcondition : judge condition context = .done false) :
    (noting note source judge).firstGrant context index (condition :: rest) = (do
      note (.evaluate condition context)
      (noting note source judge).firstGrant context (index + 1) rest) := by
  simp [firstGrant, noting_evaluate, hcondition]

/-- Any other condition is noted and ends the search. -/
theorem firstGrant_noting_settled {condition : Condition} (rest : List Condition) (index : Nat)
    (hcondition : judge condition context ≠ .done false) :
    (noting note source judge).firstGrant context index (condition :: rest) = (do
      note (.evaluate condition context)
      return settled index (judge condition context)) := by
  cases houtcome : judge condition context with
  | done granted =>
    cases granted with
    | true => simp [firstGrant, noting_evaluate, houtcome, settled]
    | false => exact absurd houtcome hcondition
  | failed fault => simp [firstGrant, noting_evaluate, houtcome, settled]
  | crashed text? => simp [firstGrant, noting_evaluate, houtcome, settled]

private theorem firstGrant_of_all_denied {conditions : List Condition} (index : Nat)
    (hall : ∀ condition ∈ conditions, judge condition context = .done false) :
    (noting note source judge).firstGrant context index conditions = (do
      conditions.forM fun condition => note (.evaluate condition context)
      return .ok false) := by
  induction conditions generalizing index with
  | nil => simp [firstGrant]
  | cons condition rest ih =>
    obtain ⟨hcondition, hrest⟩ := List.forall_mem_cons.1 hall
    rw [firstGrant_noting_denied note source rest index hcondition, ih (index + 1) hrest]
    simp

private theorem firstGrant_of_first {before : List Condition} {condition : Condition}
    (after : List Condition) (index : Nat)
    (hbefore : ∀ other ∈ before, judge other context = .done false)
    (hfirst : judge condition context ≠ .done false) :
    (noting note source judge).firstGrant context index (before ++ condition :: after) = (do
      (before ++ [condition]).forM fun condition => note (.evaluate condition context)
      return settled (index + before.length) (judge condition context)) := by
  induction before generalizing index with
  | nil =>
    rw [List.nil_append, firstGrant_noting_settled note source after index hfirst]
    simp
  | cons other rest ih =>
    obtain ⟨hother, hrest⟩ := List.forall_mem_cons.1 hbefore
    have hindex : index + (rest.length + 1) = index + 1 + rest.length := by omega
    rw [List.cons_append, firstGrant_noting_denied note source _ index hother,
      ih (index + 1) hrest, List.length_cons, hindex]
    simp

end FirstGrant

/-- A configured action has a decision. -/
theorem check?_of_mem {m : Type → Type} [Monad m] (collaborators : Collaborators m)
    {actions : ActionSet} (subject : Attributes) (target : Target) {action : String}
    (hmem : action ∈ actions.names) :
    collaborators.check? actions subject action target =
      some (collaborators.decide subject action target) := by
  rw [check?, actions.get?_eq_some_of_mem hmem, Option.map_some]

/-- The ways in which a decision can go: the verdict, the evaluations and the diagnostics. Every
way to a verdict other than a grant or a plain denial has exactly one diagnostic. -/
inductive Course (source : Source) (judge : Judge) (subject : Attributes) (action : String)
    (target : Target) : Bool → List (Condition × Context) → List Diagnostic → Prop where
  | sourceFailed {fault : Fault} (hfound : source (requestOf action target) = .failed fault) :
      Course source judge subject action target false []
        [.policySourceFailure target.type action fault.message]
  | sourceCrashed {text? : Option String}
      (hfound : source (requestOf action target) = .crashed text?) :
      Course source judge subject action target false []
        [.policySourceFailure target.type action
          ("policy source panicked: " ++ crashReport text?)]
  | noPolicy (hfound : source (requestOf action target) = .done []) :
      Course source judge subject action target false [] [.noPolicyFound target.type action]
  | noContext {conditions : List Condition} {fault : Fault}
      (hfound : source (requestOf action target) = .done conditions) (hsome : conditions ≠ [])
      (hcontext : Context.ofTarget subject target = .error fault) :
      Course source judge subject action target false []
        [.evaluationFailure target.type action fault.message]
  | denied {conditions : List Condition} {context : Context}
      (hfound : source (requestOf action target) = .done conditions) (hsome : conditions ≠ [])
      (hcontext : Context.ofTarget subject target = .ok context)
      (hall : ∀ condition ∈ conditions, judge condition context = .done false) :
      Course source judge subject action target false
        (conditions.map fun condition => (condition, context)) []
  | granted {before after : List Condition} {condition : Condition} {context : Context}
      (hfound : source (requestOf action target) = .done (before ++ condition :: after))
      (hcontext : Context.ofTarget subject target = .ok context)
      (hbefore : ∀ other ∈ before, judge other context = .done false)
      (hfirst : judge condition context = .done true) :
      Course source judge subject action target true
        ((before ++ [condition]).map fun condition => (condition, context)) []
  | faulted {before after : List Condition} {condition : Condition} {context : Context}
      {fault : Fault}
      (hfound : source (requestOf action target) = .done (before ++ condition :: after))
      (hcontext : Context.ofTarget subject target = .ok context)
      (hbefore : ∀ other ∈ before, judge other context = .done false)
      (hfirst : settled before.length (judge condition context) = .error fault) :
      Course source judge subject action target false
        ((before ++ [condition]).map fun condition => (condition, context))
        [.evaluationFailure target.type action fault.message]

theorem exists_course (source : Source) (judge : Judge) (subject : Attributes) (action : String)
    (target : Target) :
    ∃ granted evaluated recorded,
      Course source judge subject action target granted evaluated recorded := by
  cases hfound : source (requestOf action target) with
  | failed fault => exact ⟨_, _, _, .sourceFailed hfound⟩
  | crashed text? => exact ⟨_, _, _, .sourceCrashed hfound⟩
  | done conditions =>
    by_cases hsome : conditions = []
    · subst hsome
      exact ⟨_, _, _, .noPolicy hfound⟩
    cases hcontext : Context.ofTarget subject target with
    | error fault => exact ⟨_, _, _, .noContext hfound hsome hcontext⟩
    | ok context =>
      rcases all_denied_or_first judge context conditions with
        hall | ⟨before, condition, after, rfl, hbefore, hfirst⟩
      · exact ⟨_, _, _, .denied hfound hsome hcontext hall⟩
      cases hsettled : settled before.length (judge condition context) with
      | error fault => exact ⟨_, _, _, .faulted hfound hcontext hbefore hsettled⟩
      | ok granted =>
        have hgranted : judge condition context = .done true := by
          cases houtcome : judge condition context with
          | done granted =>
            cases granted with
            | true => rfl
            | false => exact absurd houtcome hfirst
          | failed fault => simp [settled, houtcome] at hsettled
          | crashed text? => simp [settled, houtcome] at hsettled
        exact ⟨_, _, _, .granted hfound hcontext hbefore hgranted⟩

/-- A decision takes the steps of its course, in whatever monad they are noted, and answers with
its verdict: one lookup, the evaluations, the diagnostics. -/
theorem decide_noting {m : Type → Type} [Monad m] [LawfulMonad m] (note : Step → m Unit)
    {source : Source} {judge : Judge} {subject : Attributes} {action : String} {target : Target}
    {granted : Bool} {evaluated : List (Condition × Context)} {recorded : List Diagnostic}
    (hcourse : Course source judge subject action target granted evaluated recorded) :
    (noting note source judge).decide subject action target = (do
      note (.lookup (requestOf action target))
      evaluated.forM fun evaluation => note (.evaluate evaluation.1 evaluation.2)
      recorded.forM fun diagnostic => note (.record diagnostic)
      return granted) := by
  cases hcourse with
  | sourceFailed hfound => simp [decide, conclude, deny, ← requestOf.eq_1, hfound]
  | sourceCrashed hfound => simp [decide, conclude, deny, ← requestOf.eq_1, hfound]
  | noPolicy hfound => simp [decide, conclude, deny, ← requestOf.eq_1, hfound]
  | noContext hfound hsome hcontext =>
    simp [decide, conclude, deny, ← requestOf.eq_1, hfound, hcontext]
  | denied hfound hsome hcontext hall =>
    simp [decide, conclude, ← requestOf.eq_1, hfound, hcontext,
      firstGrant_of_all_denied note source 0 hall]
  | @granted before after condition context hfound hcontext hbefore hfirst =>
    have hne : judge condition context ≠ .done false := by simp [hfirst]
    have hsearch := firstGrant_of_first note source after 0 hbefore hne
    simp [decide, conclude, ← requestOf.eq_1, hfound, hcontext, hsearch, hfirst, settled]
  | @faulted before after condition context fault hfound hcontext hbefore hfirst =>
    have hsearch := firstGrant_of_first note source after 0 hbefore
      (ne_denied_of_settled_error hfirst)
    simp [decide, conclude, deny, ← requestOf.eq_1, hfound, hcontext, hsearch, hfirst]

/-- When lookups and evaluations leave no note, a decision notes the diagnostics of its course. -/
theorem decide_noting_reports {m : Type → Type} [Monad m] [LawfulMonad m] (note : Step → m Unit)
    (hlookup : ∀ request, note (.lookup request) = return ())
    (hevaluate : ∀ condition context, note (.evaluate condition context) = return ())
    {source : Source} {judge : Judge} {subject : Attributes} {action : String} {target : Target}
    {granted : Bool} {evaluated : List (Condition × Context)} {recorded : List Diagnostic}
    (hcourse : Course source judge subject action target granted evaluated recorded) :
    (noting note source judge).decide subject action target = (do
      recorded.forM fun diagnostic => note (.record diagnostic)
      return granted) := by
  have hsilent : ∀ evaluations : List (Condition × Context),
      (evaluations.forM fun _ => (return () : m Unit)) = return () := by
    intro evaluations
    induction evaluations with
    | nil => rfl
    | cons evaluation rest ih => simpa using ih
  rw [decide_noting _ hcourse]
  simp only [hlookup, hevaluate, hsilent, pure_bind]

end Abac.Collaborators
