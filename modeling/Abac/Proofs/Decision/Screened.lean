import Abac.Proofs.Decision.Course
import Abac.Proofs.Validation.Lookup

/-!
Policy sources behind a screen. Two decisions are compared, with the same collaborators but for the
screen. The collaborators are any actions on a common state, so the source and the evaluator may
answer differently every time and the sink may keep what it likes.
-/

namespace Abac

namespace Validator

/-- All conditions of an answer to a request are valid there. -/
def AllValid (validator : Validator) (request : Request) (conditions : List Condition) : Prop :=
  ∀ condition ∈ conditions,
    (validator.checkCondition request.requiresResource condition).passed = true

/-- The fault of an answer with invalid conditions: the failures of all of them, in their order. -/
def refusal (validator : Validator) (request : Request) (conditions : List Condition) : Fault :=
  .invalidPolicy (Report.summary ⟨conditions.flatMap fun condition =>
    (validator.checkCondition request.requiresResource condition).failures⟩)

variable {validator : Validator} {request : Request} {conditions : List Condition}

theorem screen_of_not_allValid (hinvalid : ¬ validator.AllValid request conditions) :
    validator.screen request (.done conditions) =
      .failed (validator.refusal request conditions) := by
  have hreport : (validator.checkLookup request.requiresResource conditions).passed ≠ true := by
    intro hpassed
    exact hinvalid (checkLookup_passed_iff conditions |>.1 hpassed)
  have hfailures := failures_checkLookup validator request.requiresResource conditions
  simp only [screen, if_neg hreport, refusal, ← hfailures]

end Validator

namespace Collaborators

section Monad

variable {m : Type → Type} [Monad m]

end Monad

variable {σ : Type} {validator : Validator} {collaborators : Collaborators (StateM σ)}
  {subject : Attributes} {action : String} {target : Target} {state after : σ}
  {found : Outcome (List Condition)}

theorem run_decide
    (hlookup : (collaborators.lookup (requestOf action target)).run state = (found, after)) :
    (collaborators.decide subject action target).run state =
      (collaborators.conclude subject action target found).run after := by
  simp only [decide, ← requestOf.eq_1, StateT.run_bind, hlookup]
  rfl

end Collaborators

end Abac
