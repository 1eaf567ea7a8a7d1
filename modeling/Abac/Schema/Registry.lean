import Abac.Json.Pointer
import Abac.Schema.Vocabulary
import Abac.Uri

/-!
What the references of a schema document can lead to. A schema with an identifier of its own is a
resource; all schemas inside it without one belong to it, and references in them start from its
identifier. A fragment is a pointer into a resource or the name of an anchor in it.
-/

namespace Abac.Schema

/-- A schema that a name leads to. Of dynamic anchors of one name the outermost counts. -/
structure Anchor where
  schema : Json
  dynamic : Bool
  deriving Inhabited

/-- The resources and anchors of a document, the last found first. -/
structure Registry where
  resources : List (Uri × Json) := []
  anchors : List ((Uri × String) × Anchor) := []
  /-- The resources that references speak of. -/
  wanted : List Uri := []
  deriving Inhabited

/-- The place of a schema: the identifier that its references start from, and those of the
resources that led to it, the nearest first. -/
structure Scope where
  base : Uri
  outer : List Uri
  deriving DecidableEq, Inhabited

/-- The identifier of documents without one. -/
def anonymous : Uri := ⟨some "json-schema".toList, some [], ['/'], none, none⟩

/-- The text of a keyword of a schema. -/
def keywordText? (keyword : String) (schema : Json) : Option String :=
  (schema.field? keyword).bind Json.asString?

/-- A text without the number signs at its end. -/
def withoutMarks (text : String) : List Char := (text.toList.reverse.dropWhile (· = '#')).reverse

/-- The identifier that references in a schema start from. -/
def baseOf? (base : Uri) (schema : Json) : Option Uri :=
  match keywordText? "$id" schema with
  | some name => base.resolve? (withoutMarks name)
  | none => some base

/-- The identifiers of the known dialects. All are read by the rules of the first. -/
def dialects : List String := [
  "https://json-schema.org/draft/2020-12/schema", "https://json-schema.org/draft/2019-09/schema",
  "http://json-schema.org/draft-07/schema", "http://json-schema.org/draft-06/schema",
  "http://json-schema.org/draft-04/schema"]

/-- Is the dialect of a schema known, if it names one? -/
def hasKnownDialect (schema : Json) : Bool :=
  match keywordText? "$schema" schema with
  | some name => dialects.any fun dialect => dialect.toList = withoutMarks name
  | none => true

/-- References that begin so lead to the schemas of schemas. -/
def metaHeads : List String := [
  "https://json-schema.org/draft/2020-12/", "https://json-schema.org/draft/2019-09/",
  "http://json-schema.org/draft-07/", "http://json-schema.org/draft-06/",
  "http://json-schema.org/draft-04/"]

namespace Registry

/-- Adds the anchors that a schema of a resource bears. -/
def addAnchors (registry : Registry) (base : Uri) (schema : Json) : Registry :=
  let anchor := fun keyword (dynamic : Bool) =>
    (keywordText? keyword schema).map fun name => ((base, name), Anchor.mk schema dynamic)
  let plain := anchor "$anchor" false
  let dynamic := anchor "$dynamicAnchor" true
  { registry with anchors := dynamic.toList ++ plain.toList ++ registry.anchors }

/-- Adds the resource that the reference of a schema speaks of. References within the resource are
not looked at here. -/
def addWanted? (registry : Registry) (base : Uri) (schema : Json) : Option Registry :=
  match keywordText? "$ref" schema with
  | none => some registry
  | some reference =>
    if Text.startsWith "#" reference || metaHeads.any (Text.startsWith · reference) ||
        base.scheme? = some "urn".toList then
      some registry
    else do
      let target ← base.resolve? reference.toList
      return { registry with wanted := target.withoutFragment :: registry.wanted }

/-- Adds a schema whose surroundings have the given identifier, and answers with its own. -/
def add? (registry : Registry) (outer : Uri) (schema : Json) : Option (Registry × Uri) := do
  let base ← baseOf? outer schema
  let registry := match keywordText? "$id" schema with
    | some _ => { registry with resources := (base, schema) :: registry.resources }
    | none => registry
  let registry ← (registry.addAnchors base schema).addWanted? base schema
  return (registry, base)

/-- Adds schemas, and answers with the schemas inside them. -/
def addAll? : Registry → List (Uri × Json) → Option (Registry × List (Uri × Json))
  | registry, [] => some (registry, [])
  | registry, (outer, schema) :: rest =>
    if hasKnownDialect schema then do
      let (registry, base) ← registry.add? outer schema
      let (registry, inner) ← registry.addAll? rest
      return (registry, (subschemas schema).map (base, ·) ++ inner)
    else
      none

/-- Adds schemas and those inside them, level by level. -/
def addLevels? : Nat → Registry → List (Uri × Json) → Option Registry
  | 0, registry, _ => some registry
  | levels + 1, registry, schemas => do
    let (registry, inner) ← registry.addAll? schemas
    registry.addLevels? levels inner

/-- The resources and anchors of a document with the given identifier, if all resources that its
schemas speak of are among them. -/
def ofDocument? (base : Uri) (document : Json) : Option Registry := do
  let registry ← addLevels? document.height { resources := [(base, document)] } [(base, document)]
  if registry.wanted.all fun uri => (registry.resources.lookup uri).isSome then
    some registry
  else
    none

end Registry

namespace Scope

/-- The scope behind a reference into a resource. -/
def enter (scope : Scope) (base : Uri) : Scope :=
  if scope.base ∈ scope.outer ∨ (scope.outer ≠ [] ∧ base = scope.base) then
    { scope with base }
  else
    ⟨base, scope.base :: scope.outer⟩

/-- The scope of a schema inside the one that a scope belongs to. -/
def within? (scope : Scope) (schema : Json) : Option Scope := do
  return { scope with base := ← baseOf? scope.base schema }

end Scope

/-- A step of a pointer. -/
inductive Step where
  | key (name : String)
  | index (place : Nat)
  deriving DecidableEq, Inhabited

/-- Do the steps from a schema lead to a schema inside it? -/
def leadsToSchema : List Step → Bool
  | [] => true
  | .index _ :: rest => leadsToSchema rest
  | .key keyword :: rest =>
    match form? keyword, rest with
    | some .schema, rest => leadsToSchema rest
    | some .schemas, _ :: rest => leadsToSchema rest
    | some .schemaMap, _ :: rest => leadsToSchema rest
    | _, _ => false

/-- In a token `~1` stands for a slash and `~0` for a tilde. A tilde before another character stays,
and that character does not begin anything. -/
def decodeToken : List Char → List Char
  | '~' :: '1' :: rest => '/' :: decodeToken rest
  | '~' :: '0' :: rest => '~' :: decodeToken rest
  | '~' :: c :: rest => '~' :: c :: decodeToken rest
  | c :: rest => c :: decodeToken rest
  | [] => []

/-- An index is digits, perhaps behind a plus sign, for a number of 64 bits. -/
def index? (token : List Char) : Option Nat :=
  let digits := match token with
    | '+' :: rest => rest
    | rest => rest
  let index := Decimal.ofDigitChars digits
  if digits.isEmpty || !digits.all Char.isDigit || Nat.pow 2 64 ≤ index then none else some index

def step? (value : Json) (token : List Char) : Option (Step × Json) :=
  match value with
  | .array items => do
    let place ← index? token
    return (.index place, ← items[place]?)
  | .object fields => do
    let name := String.ofList (decodeToken token)
    return (.key name, ← fields.lookup name)
  | _ => none

/-- Follows tokens from a value. The steps are those since the last change of the scope: a schema
with an identifier of its own changes it. -/
def walk? : List Step → Scope → Json → List (List Char) → Option (Json × Scope)
  | _, scope, value, [] => some (value, scope)
  | steps, scope, value, token :: rest => do
    let (step, next) ← step? value token
    let steps := steps ++ [step]
    let inner ← if leadsToSchema steps then scope.within? next else some scope
    walk? (if inner.base = scope.base then steps else []) inner next rest

namespace Registry

/-- The schema of an anchor. The schema of a dynamic one is the outermost of its name. -/
def anchored? (registry : Registry) (scope : Scope) (name : List Char) :
    Option (Json × Scope) := do
  let name := String.ofList name
  let anchor ← registry.anchors.lookup (scope.base, name)
  if anchor.dynamic then
    let outermost := scope.outer.foldl (fun found base =>
      match registry.anchors.lookup (base, name) with
      | some ⟨schema, true⟩ => schema
      | _ => found) anchor.schema
    return (outermost, ← scope.within? outermost)
  else
    return (anchor.schema, scope)

/-- The schema that a reference in a scope leads to, and its scope. -/
def lookup? (registry : Registry) (scope : Scope) (reference : List Char) :
    Option (Json × Scope) := do
  let (head, fragment?) := Uri.cut '#' reference
  let base ←
    if head.isEmpty ∧ fragment?.isSome then some scope.base else scope.base.resolve? head
  let resource ← registry.resources.lookup base
  let scope := scope.enter base
  match fragment?.getD [] with
  | [] => return (resource, scope)
  | '/' :: pointer => walk? [] scope resource (Text.split '/' (← Uri.decode? pointer))
  | name => registry.anchored? scope name

end Registry

end Abac.Schema
