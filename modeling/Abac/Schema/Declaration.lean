import Abac.Schema.Violation

/-!
Which paths a schema declares. A path is followed through the properties of schemas, through
references, and into every branch of a combination. References and branches may be entered only a
bounded number of times on one way.
-/

namespace Abac.Schema

/-- The references and branches that a way may enter. -/
def hopLimit : Nat := 64

/-- The target of a reference with a pointer for its fragment. -/
def pointed? (root schema : Json) : Option Json :=
  match schema.field? "$ref" with
  | some (.string reference) =>
    match reference.toList with
    | '#' :: pointer => root.pointer? pointer
    | _ => none
  | _ => none

/-- The branches of the combinations of a schema. -/
def branches (schema : Json) : List Json :=
  ["oneOf", "anyOf", "allOf"].flatMap fun keyword =>
    ((schema.field? keyword).bind Json.asArray?).getD []

/-- Can the property `name` be entered after at most so many hops, and the way go on from it as
`next` says? The first number is one more than the hops left, and nothing when they are spent. -/
def enters (root : Json) (name : String) (next : Nat → Json → Bool) : Nat → Json → Bool
  | 0, _ => false
  | hops + 1, schema =>
    (match pointed? root schema with
      | some target => enters root name next hops target
      | none => false) ||
    (match (schema.field? "properties").bind (·.field? name) with
      | some inner => next (hops + 1) inner
      | none => false) ||
    (branches schema).any fun branch => enters root name next hops branch

/-- Does a schema of a document declare a path? -/
def declaresWithin (root : Json) : List String → Nat → Json → Bool
  | [] => fun _ _ => true
  | name :: rest => enters root name (declaresWithin root rest)

def declares (schema : Schema) (path : List String) : Bool :=
  declaresWithin schema.document path (hopLimit + 1) schema.document

end Abac.Schema
