/-!
The faults of a decision and of what leads to it, and what the parts of a decision may do: answer,
fail with a fault, or crash. Reports of validation are the failures found, in the order found; one
without failures passes.
-/

namespace Abac

inductive Fault where
  /-- The policy source failed. -/
  | policySource (reason : String)
  /-- A condition could not be evaluated. -/
  | evaluation (reason : String)
  /-- A condition has more levels than allowed. -/
  | nestingTooDeep (bound : Nat)
  /-- Subject or resource have no attributes to decide on. -/
  | context (reason : String)
  /-- A condition was refused before use. -/
  | invalidPolicy (reason : String)
  /-- A configuration is missing or wrong. -/
  | config (reason : String)
  deriving DecidableEq, Inhabited

def Fault.message : Fault → String
  | policySource reason => "policy source failure: " ++ reason
  | evaluation reason => "evaluation failure: " ++ reason
  | nestingTooDeep bound =>
    "condition tree nesting exceeds maximum depth of " ++ toString bound
  | context reason => "failed to build evaluation context: " ++ reason
  | invalidPolicy reason => "invalid policy: " ++ reason
  | config reason => "configuration error: " ++ reason

/-- What came of asking a collaborator. A crash leaves a text, or something that is none. -/
inductive Outcome (α : Type) where
  | done (value : α)
  | failed (fault : Fault)
  | crashed (text? : Option String)
  deriving Inhabited

def Outcome.ofExcept {α : Type} : Except Fault α → Outcome α
  | .ok value => .done value
  | .error fault => .failed fault

/-- The report of what a crash left. -/
def crashReport (text? : Option String) : String := text?.getD "non-string panic payload"

/-- A rule that was broken, and how. -/
structure Failure where
  rule : String
  message : String
  deriving DecidableEq, Inhabited

structure Report where
  failures : List Failure
  deriving DecidableEq, Inhabited

namespace Report

def empty : Report := ⟨[]⟩

def passed (report : Report) : Bool := report.failures.isEmpty

def merge (report other : Report) : Report := ⟨report.failures ++ other.failures⟩

/-- All failures in one line. -/
def summary (report : Report) : String :=
  "; ".intercalate (report.failures.map fun failure =>
    "[" ++ failure.rule ++ "] " ++ failure.message)

end Report

end Abac
