import Abac.Json.Pointer

/-!
The vocabulary of JSON Schema 2020-12: which keywords there are, what may stand under them, and
whether a value is a schema at all. Unknown keywords may have any value.
-/

namespace Abac.Schema

/-- The kinds of values that the keyword `type` speaks of. -/
inductive Kind where
  | array | boolean | integer | null | number | object | string
  deriving DecidableEq, Inhabited

def Kind.all : List Kind := [.array, .boolean, .integer, .null, .number, .object, .string]

def Kind.name : Kind → String
  | array => "array"
  | boolean => "boolean"
  | integer => "integer"
  | null => "null"
  | number => "number"
  | object => "object"
  | string => "string"

def Kind.ofName? (name : String) : Option Kind := Kind.all.find? (·.name = name)

/-- Is a value of the kind? A double without a fractional part is an integer too. -/
def Kind.admits : Kind → Json → Bool
  | array, .array _ => true
  | boolean, .bool _ => true
  | integer, .number value => value.isIntegral
  | null, .null => true
  | number, .number _ => true
  | object, .object _ => true
  | string, .string _ => true
  | _, _ => false

/-- What stands under a keyword. -/
inductive Form where
  | schema
  /-- At least one schema. -/
  | schemas
  | schemaMap
  | text
  | anchor
  /-- A text in which a number sign stands at most at the end. -/
  | identifier
  | flag
  | flagMap
  | number
  | positive
  /-- A whole number that is not negative. -/
  | count
  | kinds
  /-- Different texts. -/
  | names
  | nameMap
  /-- A map of schemas and lists of different texts. -/
  | dependencyMap
  | list
  deriving DecidableEq, Inhabited

def keywords : List (String × Form) := [
  ("$anchor", .anchor), ("$comment", .text), ("$defs", .schemaMap), ("$dynamicAnchor", .anchor),
  ("$dynamicRef", .text), ("$id", .identifier), ("$recursiveAnchor", .anchor),
  ("$recursiveRef", .text), ("$ref", .text), ("$schema", .text), ("$vocabulary", .flagMap),
  ("additionalProperties", .schema), ("allOf", .schemas), ("anyOf", .schemas),
  ("contains", .schema), ("contentEncoding", .text), ("contentMediaType", .text),
  ("contentSchema", .schema), ("definitions", .schemaMap), ("dependencies", .dependencyMap),
  ("dependentRequired", .nameMap), ("dependentSchemas", .schemaMap), ("deprecated", .flag),
  ("description", .text), ("else", .schema), ("enum", .list), ("examples", .list),
  ("exclusiveMaximum", .number), ("exclusiveMinimum", .number), ("format", .text),
  ("if", .schema), ("items", .schema), ("maxContains", .count), ("maxItems", .count),
  ("maxLength", .count), ("maxProperties", .count), ("maximum", .number), ("minContains", .count),
  ("minItems", .count), ("minLength", .count), ("minProperties", .count), ("minimum", .number),
  ("multipleOf", .positive), ("not", .schema), ("oneOf", .schemas), ("pattern", .text),
  ("patternProperties", .schemaMap), ("prefixItems", .schemas), ("properties", .schemaMap),
  ("propertyNames", .schema), ("readOnly", .flag), ("required", .names), ("then", .schema),
  ("title", .text), ("type", .kinds), ("unevaluatedItems", .schema),
  ("unevaluatedProperties", .schema), ("uniqueItems", .flag), ("writeOnly", .flag)]

def form? (keyword : String) : Option Form := keywords.lookup keyword

def isKindName : Json → Bool
  | .string name => (Kind.ofName? name).isSome
  | _ => false

/-- Are the items texts, each standing once? -/
def areNames : Json → Bool
  | .array items =>
    match items.mapM Json.asString? with
    | some names => names.eraseDups.length = names.length
    | none => false
  | _ => false

def isAnchor (text : String) : Bool :=
  match text.toList with
  | [] => false
  | c :: rest =>
    (c.isAlpha || c = '_') && rest.all fun c => c.isAlphanum || c = '_' || c = '-' || c = '.'

def isIdentifier (text : String) : Bool := !text.toList.dropLast.contains '#'

/-- Is a value of a form in which no schemas stand? -/
def Form.admits : Form → Json → Bool
  | text, .string _ => true
  | anchor, .string name => isAnchor name
  | identifier, .string name => isIdentifier name
  | flag, .bool _ => true
  | flagMap, .object fields => fields.all fun field => field.2.asBool?.isSome
  | number, .number _ => true
  | positive, .number value => 0 < value.toUnits
  | count, .number value => value.isIntegral && 0 ≤ value.toUnits
  | kinds, .string name => isKindName (.string name)
  | kinds, .array items => !items.isEmpty && items.all isKindName && areNames (.array items)
  | names, value => areNames value
  | nameMap, .object fields => fields.all fun field => areNames field.2
  | list, .array _ => true
  | _, _ => false

mutual

/-- Is a value a schema: a boolean, or an object whose keywords have what belongs under them? -/
def wellFormed : Json → Bool
  | .bool _ => true
  | .object fields => keywordsWellFormed fields
  | _ => false

def keywordsWellFormed : Fields → Bool
  | [] => true
  | (keyword, value) :: rest =>
    (match form? keyword, value with
      | none, _ => true
      | some .schema, value => wellFormed value
      | some .schemas, .array items => !items.isEmpty && itemsWellFormed items
      | some .schemaMap, .object fields => mapWellFormed fields
      | some .dependencyMap, .object fields => dependenciesWellFormed fields
      | some form, value => form.admits value) && keywordsWellFormed rest

def itemsWellFormed : List Json → Bool
  | [] => true
  | item :: rest => wellFormed item && itemsWellFormed rest

def mapWellFormed : Fields → Bool
  | [] => true
  | (_, value) :: rest => wellFormed value && mapWellFormed rest

def dependenciesWellFormed : Fields → Bool
  | [] => true
  | (_, value) :: rest => (areNames value || wellFormed value) && dependenciesWellFormed rest

end

/-- The schemas that stand directly under the keywords of a schema. -/
def subschemas : Json → List Json
  | .object fields => fields.flatMap fun (keyword, value) =>
    match form? keyword, value with
    | some .schema, value => [value]
    | some .schemas, .array items => items
    | some .schemaMap, .object schemas => schemas.map (·.2)
    | _, _ => []
  | _ => []

end Abac.Schema
