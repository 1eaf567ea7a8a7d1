import Abac.Diagnostic.Basic
import Abac.Evaluation
import Abac.Policy.Basic
import Abac.Resource

/-!
Decisions. A request is granted when the first of its conditions that does not plainly fail holds.
Whatever goes wrong on the way denies the request and leaves one diagnostic.
-/

namespace Abac

/-- Those whom a decision asks and tells: the source of policies, the evaluator of conditions, and
the sink of diagnostics. -/
structure Collaborators (m : Type → Type) where
  lookup : Request → m (Outcome (List Condition))
  evaluate : Condition → Context → m (Outcome Bool)
  record : Diagnostic → m Unit

/-- The evaluator of conditions of at most `bound` levels. -/
def evaluator (bound : Nat) (condition : Condition) (context : Context) : Outcome Bool :=
  .ofExcept (condition.evaluateWithin bound context)

namespace Collaborators

variable {m : Type → Type} [Monad m]

/-- Looks for the first condition that holds, and stops at the first that goes wrong. -/
def firstGrant (collaborators : Collaborators m) (context : Context) :
    Nat → List Condition → m (Except Fault Bool)
  | _, [] => return .ok false
  | index, condition :: rest => do
    match ← collaborators.evaluate condition context with
    | .done true => return .ok true
    | .done false => collaborators.firstGrant context (index + 1) rest
    | .failed fault => return .error fault
    | .crashed text? =>
      return .error (.evaluation ("evaluator panicked on policy " ++ toString index ++ ": " ++
        crashReport text?))

def deny (collaborators : Collaborators m) (diagnostic : Diagnostic) : m Bool := do
  collaborators.record diagnostic
  return false

/-- The second step of a decision: what follows from the answer of the policy source. -/
def conclude (collaborators : Collaborators m) (subject : Attributes) (action : String)
    (target : Target) (found : Outcome (List Condition)) : m Bool :=
  match found with
  | .failed fault =>
    collaborators.deny (.policySourceFailure target.type action fault.message)
  | .crashed text? =>
    collaborators.deny (.policySourceFailure target.type action
      ("policy source panicked: " ++ crashReport text?))
  | .done [] => collaborators.deny (.noPolicyFound target.type action)
  | .done conditions =>
    match Context.ofTarget subject target with
    | .error fault => collaborators.deny (.evaluationFailure target.type action fault.message)
    | .ok context => do
      match ← collaborators.firstGrant context 0 conditions with
      | .ok granted => return granted
      | .error fault =>
        collaborators.deny (.evaluationFailure target.type action fault.message)

/-- Decides whether a subject may act on a target. -/
def decide (collaborators : Collaborators m) (subject : Attributes) (action : String)
    (target : Target) : m Bool := do
  let found ← collaborators.lookup ⟨target.type, action, target.isItem⟩
  collaborators.conclude subject action target found

/-- The decision about a configured action. Other actions have none. -/
def check? (collaborators : Collaborators m) (actions : ActionSet) (subject : Attributes)
    (action : String) (target : Target) : Option (m Bool) :=
  (actions.get? action).map fun action => collaborators.decide subject action target

/-- The decisions about all configured actions, in their order. -/
def checkAll (collaborators : Collaborators m) (actions : ActionSet) (subject : Attributes)
    (target : Target) : List (String × m Bool) :=
  actions.names.map fun action => (action, collaborators.decide subject action target)

end Collaborators

end Abac
