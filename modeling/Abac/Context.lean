import Abac.Condition.Basic
import Abac.Json.Printer

/-!
The context of a decision: the attributes of the subject and, when the question is about one
resource, the attributes of the resource. A path names a root and then keys of nested objects.
-/

namespace Abac

structure Context where
  subject : Json
  resource : Option Json
  deriving Inhabited

namespace Context

def hasResource (context : Context) : Bool := context.resource.isSome

def root? (context : Context) (name : String) : Option Json :=
  if name = "subject" then some context.subject
  else if name = "resource" then context.resource
  else none

/-- The segments of a path, between its dots. -/
def segments (path : String) : List String :=
  (Text.split '.' path.toList).map String.ofList

/-- The value that a path leads to. A path with an unknown root, a missing key or a value on its
way that is not an object leads to none. -/
def resolve? (context : Context) (path : String) : Option Json :=
  match segments path with
  | [] => none
  | name :: keys => (context.root? name).bind fun value => keys.foldlM Json.field? value

def toJson (context : Context) : Json :=
  match context.resource with
  | some resource => .object [("resource", resource), ("subject", context.subject)]
  | none => .object [("subject", context.subject)]

/-- A null resource counts as none. -/
def ofParts (subject : Json) (resource : Option Json) : Context :=
  match resource with
  | some .null => ⟨subject, none⟩
  | resource => ⟨subject, resource⟩

/-- Reads the fields of an object, or the items of an array in the order subject, resource. -/
def ofJson? : Json → Option Context
  | .object fields => (fields.lookup "subject").map fun subject =>
      ofParts subject (fields.lookup "resource")
  | .array [subject] => some (ofParts subject none)
  | .array [subject, resource] => some (ofParts subject (some resource))
  | _ => none

end Context

end Abac
