import Abac.Policy.Basic
import Abac.Toml.Reader

/-!
Policies, entitlements and configurations as documents. In JSON a record is an object with its
fields by name, or an array with its fields in their fixed order; a configuration can be written in
TOML too. Fields are read in the order in which they stand, and the first that does not read decides
what is reported.
-/

namespace Abac

/-- Why a JSON value is not what was expected. -/
inductive Mismatch where
  | shape
  /-- A condition was expected. -/
  | condition
  /-- A list of names is no set of actions. -/
  | actions (flaw : ActionSet.Flaw)
  deriving DecidableEq, Inhabited

/-- The fields of a record by their names, as they stand. -/
def namedFields (names : List String) : Json → Except Mismatch Fields
  | .object fields => .ok fields
  | .array items => .ok (names.zip items)
  | _ => .error .shape

/-- A record written as an array has no more items than it has fields. In TOML the surplus is
ignored. -/
def checkSurplus (format : Format) (names : List String) : Json → Except Mismatch Unit
  | .array items =>
    if format = .json ∧ names.length < items.length then .error .shape else .ok ()
  | _ => .ok ()

def expect {α : Type} : Option α → Except Mismatch α
  | some value => .ok value
  | none => .error .shape

def ActionSet.ofJson (value : Json) : Except Mismatch ActionSet := do
  let items ← expect value.asArray?
  let names ← expect (items.mapM Json.asString?)
  match ActionSet.ofNames names with
  | .ok actions => return actions
  | .error flaw => throw (.actions flaw)

namespace Policy

def fieldNames : List String := ["requires_resource", "conditions"]

/-- The fields read so far. -/
structure Draft where
  requiresResource : Option Bool := none
  conditions : Option Condition := none

def Draft.read (format : Format) (draft : Draft) : String × Json → Except Mismatch Draft
  | (name, value) =>
    if name = "requires_resource" then do
      return { draft with requiresResource := some (← expect value.asBool?) }
    else if name = "conditions" then
      match Condition.ofJson? format value with
      | some conditions => .ok { draft with conditions := some conditions }
      | none => .error .condition
    else
      .ok draft

def Draft.policy? (draft : Draft) : Option Policy := do
  return ⟨← draft.requiresResource, ← draft.conditions⟩

def ofJson (format : Format) (value : Json) : Except Mismatch Policy := do
  let draft ← (← namedFields fieldNames value).foldlM (Draft.read format) {}
  checkSurplus format fieldNames value
  expect draft.policy?

def toJson (policy : Policy) : Json :=
  .object [("conditions", policy.conditions.toJson),
    ("requires_resource", .bool policy.requiresResource)]

end Policy

namespace Entitlement

def fieldNames : List String := ["id", "title", "description", "resource_type", "policies"]

/-- The fields read so far. -/
structure Draft where
  id : Option Nat := none
  title : Option String := none
  description : String := ""
  resourceType : Option String := none
  policies : List (String × Policy) := []

/-- The policies of an object, in the order of their actions. -/
def readPolicies (format : Format) : Json → Except Mismatch (List (String × Policy))
  | .object fields => fields.mapM fun field => do
      return (field.1, ← Policy.ofJson format field.2)
  | _ => .error .shape

def Draft.read (format : Format) (draft : Draft) : String × Json → Except Mismatch Draft
  | (name, value) =>
    if name = "id" then do
      return { draft with id := some (← expect value.asNatural?) }
    else if name = "title" then do
      return { draft with title := some (← expect value.asString?) }
    else if name = "description" then do
      return { draft with description := ← expect value.asString? }
    else if name = "resource_type" then do
      return { draft with resourceType := some (← expect value.asString?) }
    else if name = "policies" then do
      return { draft with policies := ← readPolicies format value }
    else
      .ok draft

def Draft.entitlement? (draft : Draft) : Option Entitlement := do
  return {
    id := ← draft.id
    title := ← draft.title
    description := draft.description
    resourceType := ← draft.resourceType
    policies := Keyed.ofList draft.policies
    sorted := Keyed.sorted_ofList _ }

def ofJson (format : Format) (value : Json) : Except Mismatch Entitlement := do
  let draft ← (← namedFields fieldNames value).foldlM (Draft.read format) {}
  checkSurplus format fieldNames value
  expect draft.entitlement?

def toJson (entitlement : Entitlement) : Json :=
  .object [("description", .string entitlement.description), ("id", .ofNat entitlement.id),
    ("policies", .object (entitlement.policies.map fun (action, policy) =>
      (action, policy.toJson))),
    ("resource_type", .string entitlement.resourceType), ("title", .string entitlement.title)]

end Entitlement

namespace Configuration

def fieldNames : List String := ["actions", "max_depth", "entitlements"]

/-- The fields read so far. -/
structure Draft where
  actions : Option ActionSet := none
  maxDepth : Nat := Condition.defaultBound
  entitlements : List Entitlement := []

def Draft.read (format : Format) (draft : Draft) : String × Json → Except Mismatch Draft
  | (name, value) =>
    if name = "actions" then do
      return { draft with actions := some (← ActionSet.ofJson value) }
    else if name = "max_depth" then do
      return { draft with maxDepth := ← expect value.asNatural? }
    else if name = "entitlements" then do
      let items ← expect value.asArray?
      return { draft with entitlements := ← items.mapM (Entitlement.ofJson format) }
    else
      .ok draft

def Draft.configuration? (draft : Draft) : Option Configuration := do
  return ⟨← draft.actions, draft.maxDepth, draft.entitlements⟩

def ofFields (format : Format) (fields : Fields) : Except Mismatch Configuration := do
  let draft ← fields.foldlM (Draft.read format) {}
  expect draft.configuration?

def ofJson (value : Json) : Except Mismatch Configuration := do
  let config ← ofFields .json (← namedFields fieldNames value)
  checkSurplus .json fieldNames value
  return config

def toJson (config : Configuration) : Json :=
  .object [("actions", config.actions.toJson),
    ("entitlements", .array (config.entitlements.map Entitlement.toJson)),
    ("max_depth", .ofNat config.maxDepth)]

/-- Why a text is no configuration. -/
inductive Unreadable where
  /-- The text is no TOML document. -/
  | document (reason : String)
  | mismatch (mismatch : Mismatch)
  deriving DecidableEq, Inhabited

def Unreadable.detail : Unreadable → String
  | document reason => reason
  | mismatch .shape => "not a policy configuration"
  | mismatch .condition => "not a condition"
  | mismatch (.actions flaw) => (Fault.config flaw.reason).message

/-- The configuration that a TOML text describes, where `read` finds the table of the text. -/
def ofTomlBy (read : String → Except String Toml.Table) (text : String) :
    Except Unreadable Configuration :=
  match read text with
  | .error reason => .error (.document reason)
  | .ok table =>
    match ofFields .toml (Toml.fieldsToJson table) with
    | .ok config => .ok config
    | .error reason => .error (.mismatch reason)

def ofToml : String → Except Unreadable Configuration := ofTomlBy Toml.Table.ofText

/-- A configuration that can be used. -/
def accept (config : Configuration) : Except Fault Configuration :=
  match config.flaw? with
  | none => .ok config
  | some flaw => .error (.config flaw.reason)

/-- The configuration that a TOML text describes, if it can be used. -/
def loadBy (read : String → Except String Toml.Table) (text : String) :
    Except Fault Configuration :=
  match ofTomlBy read text with
  | .ok config => config.accept
  | .error reason => .error (.config ("failed to parse policy TOML: " ++ reason.detail))

def load : String → Except Fault Configuration := loadBy Toml.Table.ofText

end Configuration

end Abac
