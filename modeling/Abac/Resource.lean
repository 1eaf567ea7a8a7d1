import Abac.Context
import Abac.Fault

/-!
Resources and the targets of requests. Where a resource is written down, its type stands among its
attributes under the key `type`, and neither readers nor setters let anything else stand there.
-/

namespace Abac

def typeKey : String := "type"

/-- A resource with a type and further attributes. -/
structure Resource where
  type : String
  attributes : Fields
  deriving Inhabited

namespace Resource

def ofType (type : String) : Resource := ⟨type, []⟩

/-- Sets an attribute. The key `type` is left to the type of the resource. -/
def set (resource : Resource) (key : String) (value : Json) : Resource :=
  if key = typeKey then resource
  else { resource with attributes := Keyed.insert key value resource.attributes }

/-- The type comes first, so an attribute under its key would take its place. -/
def toJson (resource : Resource) : Json :=
  Json.ofFields ((typeKey, .string resource.type) :: resource.attributes)

/-- A resource is an object whose `type` is a string. -/
def ofJson? : Json → Option Resource
  | .object fields =>
    match fields.lookup typeKey with
    | some (.string type) => some ⟨type, fields.filter fun field => field.1 ≠ typeKey⟩
    | _ => none
  | _ => none

theorem ofJson?_eq_some_iff {value : Json} {resource : Resource} :
    ofJson? value = some resource ↔
      ∃ fields type, value = .object fields ∧ fields.lookup typeKey = some (.string type) ∧
        resource = ⟨type, fields.filter fun field => field.1 ≠ typeKey⟩ := by
  unfold ofJson?
  constructor
  · intro hresource
    split at hresource
    · split at hresource
      · next hlookup => exact ⟨_, _, rfl, hlookup, (Option.some.inj hresource).symm⟩
      · cases hresource
    · cases hresource
  · rintro ⟨fields, type, rfl, hlookup, rfl⟩
    simp [hlookup]

/-- The fault of a value that is no resource. -/
def notAResource : Fault :=
  .context "resource must be an object with a string 'type': no such object"

end Resource

/-- The attributes of a subject or resource, or the reason why it has none to give. -/
abbrev Attributes := Except String Json

/-- What a request is about: one resource with its attributes, or all resources of a type. -/
inductive Target where
  | item (type : String) (attributes : Attributes)
  | kind (type : String)

namespace Target

def ofResource (resource : Resource) : Target := item resource.type (.ok resource.toJson)

def type : Target → String
  | item type _ => type
  | kind type => type

/-- Is the target one resource? -/
def isItem : Target → Bool
  | item _ _ => true
  | kind _ => false

end Target

namespace Context

def ofAttributes (what : String) : Attributes → Except Fault Json
  | .ok value => .ok value
  | .error reason => .error (.context ("failed to serialize " ++ what ++ ": " ++ reason))

/-- The context of a question about a target. It has a resource just when the target is one. -/
def ofTarget (subject : Attributes) : Target → Except Fault Context
  | .item _ attributes => do
    let subject ← ofAttributes "subject" subject
    let resource ← ofAttributes "resource" attributes
    return ⟨subject, some resource⟩
  | .kind _ => do
    let subject ← ofAttributes "subject" subject
    return ⟨subject, none⟩

end Context

end Abac
