import Abac.Fault
import Abac.Schema.Violation

/-!
The ways in which a condition or a context can break the rules of validation, their texts, and the
traces that they leave in the log.
-/

namespace Abac

inductive Breach where
  /-- The written condition violates the schema of conditions. -/
  | form (violation : Schema.Violation)
  /-- A document cannot be read as a condition. -/
  | notACondition
  /-- A condition has more levels than allowed. -/
  | tooDeep (depth bound : Nat)
  /-- The left path of a comparison does not start at a root that is there. -/
  | unrooted (location left : String) (requiresResource : Bool)
  | unknownOperator (location name : String)
  /-- The schema of contexts does not declare a path. -/
  | undeclared (location path : String)
  /-- A context violates its schema. -/
  | context (violation : Schema.Violation)
  deriving Inhabited

namespace Breach

def rule : Breach → String
  | form _ => "json-schema"
  | notACondition => "json-schema"
  | tooDeep _ _ => "max-depth"
  | unrooted _ _ _ => "left-path-root"
  | unknownOperator _ _ => "unknown-operator"
  | undeclared _ _ => "unknown-path"
  | context _ => "context-schema"

def allowedRoots (requiresResource : Bool) : String :=
  if requiresResource then "'subject.' or 'resource.'"
  else "'subject.' (the policy has no resource)"

def message : Breach → String
  | form violation => "JSON Schema violation at " ++ violation.pointer ++ ": " ++ violation.text
  | notACondition => "document is not a condition tree"
  | tooDeep depth bound =>
    "nesting depth " ++ toString depth ++ " exceeds the maximum of " ++ toString bound
  | unrooted location left requiresResource =>
    location ++ ": left path '" ++ left ++ "' must start with " ++ allowedRoots requiresResource
  | unknownOperator location name => location ++ ": unknown operator '" ++ name ++ "'"
  | undeclared location path =>
    location ++ ": path '" ++ path ++ "' is not declared by the context schema"
  | context violation => "context violation at " ++ violation.pointer ++ ": " ++ violation.text

def failure (breach : Breach) : Failure := ⟨breach.rule, breach.message⟩

end Breach

/-- A warning that a validator writes to the log: what it says, and the fields that go with it. -/
structure Trace where
  text : String
  fields : List (String × String)
  deriving DecidableEq, Inhabited

/-- The trace of a breach when it is found. That a document cannot be read leaves none. -/
def Breach.trace? (breach : Breach) : Option Trace :=
  match breach with
  | form _ => some ⟨"structural validation failure", [("message", breach.message)]⟩
  | context _ => some ⟨"context schema failure", [("message", breach.message)]⟩
  | notACondition => none
  | _ => some ⟨"semantic rule failed", [("rule_id", breach.rule), ("message", breach.message)]⟩

def Report.ofBreaches (breaches : List Breach) : Report := ⟨breaches.map Breach.failure⟩

end Abac
