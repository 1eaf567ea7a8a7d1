import Abac.Json.Printer

/-!
Diagnostics: why a request was denied, other than by its conditions.
-/

namespace Abac

inductive Diagnostic where
  /-- No policy covers the request. -/
  | noPolicyFound (resourceType action : String)
  /-- The policy source failed. -/
  | policySourceFailure (resourceType action error : String)
  /-- The context could not be built or a condition not evaluated. -/
  | evaluationFailure (resourceType action error : String)
  deriving DecidableEq, Inhabited

/-- The severity of a log entry. -/
inductive Level where
  | warn | error
  deriving DecidableEq, Inhabited

def Level.name : Level → String
  | warn => "WARN"
  | error => "ERROR"

namespace Diagnostic

def kind : Diagnostic → String
  | noPolicyFound _ _ => "no_policy_found"
  | policySourceFailure _ _ _ => "policy_source_failure"
  | evaluationFailure _ _ _ => "evaluation_failure"

def resourceType : Diagnostic → String
  | noPolicyFound resourceType _ => resourceType
  | policySourceFailure resourceType _ _ => resourceType
  | evaluationFailure resourceType _ _ => resourceType

def action : Diagnostic → String
  | noPolicyFound _ action => action
  | policySourceFailure _ action _ => action
  | evaluationFailure _ action _ => action

/-- The text of the fault behind a failure. -/
def error? : Diagnostic → Option String
  | noPolicyFound _ _ => none
  | policySourceFailure _ _ error => some error
  | evaluationFailure _ _ error => some error

/-- Is there a fault, and not only a gap in the policies? -/
def isFailure (diagnostic : Diagnostic) : Bool := diagnostic.error?.isSome

def text (diagnostic : Diagnostic) : String :=
  let request := "(" ++ diagnostic.resourceType ++ ", " ++ diagnostic.action ++ ")"
  match diagnostic with
  | noPolicyFound _ _ => "no policy found for " ++ request
  | policySourceFailure _ _ error => "policy source failed for " ++ request ++ ": " ++ error
  | evaluationFailure _ _ error => "evaluation failed for " ++ request ++ ": " ++ error

def level (diagnostic : Diagnostic) : Level := if diagnostic.isFailure then .error else .warn

/-- The text of the log entry. -/
def logText : Diagnostic → String
  | noPolicyFound _ _ => "no policy found; denying"
  | policySourceFailure _ _ _ => "policy source failed; denying"
  | evaluationFailure _ _ _ => "policy evaluation failed; denying"

/-- The fields in the order in which they are written out. -/
def fields (diagnostic : Diagnostic) : Fields :=
  let error := match diagnostic.error? with
    | some error => [("error", Json.string error)]
    | none => []
  ("kind", .string diagnostic.kind) :: ("resource_type", .string diagnostic.resourceType) ::
    ("action", .string diagnostic.action) :: error

def toJson (diagnostic : Diagnostic) : Json := Json.ofFields diagnostic.fields

/-- A diagnostic of the kind with a name. Only failures have an error. -/
def ofParts? (kind resourceType action : String) (error? : Option String) : Option Diagnostic :=
  if kind = "no_policy_found" then some (noPolicyFound resourceType action)
  else if kind = "policy_source_failure" then error?.map (policySourceFailure resourceType action)
  else if kind = "evaluation_failure" then error?.map (evaluationFailure resourceType action)
  else none

/-- Reads the fields of an object, or the items of an array in the order kind, type of resource,
action and, for failures, error. -/
def ofJson? : Json → Option Diagnostic
  | .object fields => do
    let kind ← (← fields.lookup "kind").asString?
    let resourceType ← (← fields.lookup "resource_type").asString?
    let action ← (← fields.lookup "action").asString?
    ofParts? kind resourceType action ((fields.lookup "error").bind Json.asString?)
  | .array [.string "no_policy_found", .string resourceType, .string action] =>
    some (noPolicyFound resourceType action)
  | .array [.string kind, .string resourceType, .string action, .string error] =>
    if kind = "no_policy_found" then none else ofParts? kind resourceType action (some error)
  | _ => none

end Diagnostic

end Abac
