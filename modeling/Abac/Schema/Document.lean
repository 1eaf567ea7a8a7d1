import Abac.Schema.Registry
import Abac.Schema.Rule

/-!
Reading the rules of a schema document. What a reference leads to is read where the reference
stands; when it leads to what has been followed before, a link is left instead, and the targets of
links are read on their own. A reference to what has been followed before, and begins with the very
same reference, adds nothing.
-/

namespace Abac

namespace Schema

/-- What a link leads to. -/
structure Target where
  address : Uri
  scope : Scope
  schema : Json
  deriving Inhabited

/-- What reading has met so far. -/
structure Progress where
  /-- The references that have been followed. -/
  followed : List Uri
  /-- The targets of links. -/
  targets : List Target
  deriving Inhabited

/-- A reader fails where a document is no schema. -/
abbrev Reader (α β : Type) := α → Progress → Option (β × Progress)

/-- Reads values in turn. -/
def readEach {α β : Type} (read : Reader α β) : Reader (List α) (List β)
  | [], progress => some ([], progress)
  | value :: rest, progress => do
    let (first, progress) ← read value progress
    let (others, progress) ← readEach read rest progress
    return (first :: others, progress)

/-- Does the keyword `additionalProperties` lay down the rules of all properties? -/
def governsProperties (fields : Fields) : Bool :=
  match fields.lookup "additionalProperties" with
  | some (.bool false) => true
  | some (.object _) => true
  | _ => false

section Operands

variable (read : Reader Json Rule)

def readList : Reader Json (List Rule) := fun operand progress => do
  readEach read (← operand.asArray?) progress

def readMap : Reader Json (List (String × Rule)) := fun operand progress => do
  let readField := fun (field : String × Json) progress => do
    let (rule, progress) ← read field.2 progress
    return ((field.1, rule), progress)
  readEach readField (← operand.asObject?) progress

def readPatterns : Reader Json (List (Pattern × Rule)) := fun operand progress => do
  let readField := fun (field : String × Json) progress => do
    let pattern ← Pattern.ofText? field.1
    let (rule, progress) ← read field.2 progress
    return ((pattern, rule), progress)
  readEach readField (← operand.asObject?) progress

/-- Rules by the names of properties on which they depend: schemas, or lists of properties that must
be there too. -/
def readDependencies : Reader Json (List (String × Rule)) := fun operand progress => do
  let readField := fun (field : String × Json) progress =>
    match field.2 with
    | .array items => do
      return ((field.1, Rule.required (← items.mapM Json.asString?)), progress)
    | schema => do
      let (rule, progress) ← read schema progress
      return ((field.1, rule), progress)
  readEach readField (← operand.asObject?) progress

/-- Reads the operand of a keyword that may be missing. -/
def readOptional {α : Type} (missing : α) (read : Reader Json α) : Reader (Option Json) α
  | some operand, progress => read operand progress
  | none, progress => some (missing, progress)

def readAdditional (fields : Fields) : Reader Json (List Rule) := fun operand progress => do
  let (matched, progress) ←
    readOptional [] (readPatterns read) (fields.lookup "patternProperties") progress
  match operand with
  | .bool true => return ([], progress)
  | _ => do
    let (named, progress) ← readOptional [] (readMap read) (fields.lookup "properties") progress
    match operand with
    | .bool _ => return ([.closed named matched], progress)
    | schema => do
      let (other, progress) ← read schema progress
      return ([.additional named matched other], progress)

def readBranch (fields : Fields) : Reader Json (List Rule) := fun operand progress =>
  match fields.lookup "then", fields.lookup "else" with
  | none, none => some ([], progress)
  | met?, unmet? => do
    let (condition, progress) ← read operand progress
    let (met, progress) ← readOptional (.every []) read met? progress
    let (unmet, progress) ← readOptional (.every []) read unmet? progress
    return ([.branch condition met unmet], progress)

/-- A number of items that satisfy a schema. -/
def itemCount? : Json → Option Nat
  | .number (.int value) => if value < 0 then none else some value.toNat
  | operand => countOf? operand

def readContains (fields : Fields) : Reader Json (List Rule) := fun operand progress => do
  let least? ← (fields.lookup "minContains").mapM itemCount?
  let most? ← (fields.lookup "maxContains").mapM itemCount?
  let (rule, progress) ← read operand progress
  return ([.contains (least?.getD 1) most? rule], progress)

def readItems (fields : Fields) : Reader Json (List Rule) := fun operand progress =>
  let all := do
    let (rule, progress) ← read operand progress
    let skipped := ((fields.lookup "prefixItems").bind Json.asArray?).elim 0 List.length
    return ([.items skipped rule], progress)
  match operand with
  | .array items => do
    let (rules, progress) ← readEach read items progress
    return ([.prefixItems rules], progress)
  | .object _ => all
  | .bool false => all
  | _ => some ([], progress)

def readPropertyNames : Reader Json (List Rule) := fun operand progress =>
  match operand with
  | .object _ => do
    let (rule, progress) ← read operand progress
    return ([.propertyNames rule], progress)
  | .bool false => some ([.propertyNames .never], progress)
  | _ => some ([], progress)

/-- Makes the one rule of what is read. -/
def asRule {α : Type} (make : α → Rule) (read : Reader Json α) : Reader Json (List Rule) :=
  fun operand progress =>
    (read operand progress).map fun (found, progress) => ([make found], progress)

/-- Reads rules unless those of additional properties include them. -/
def unlessGoverned (fields : Fields) (read : Reader Json (List Rule)) : Reader Json (List Rule) :=
  fun operand progress =>
    if governsProperties fields then some ([], progress) else read operand progress

/-- Reads a schema that has to be one, but lays down no rule. -/
def withoutRule : Reader Json (List Rule) := fun operand progress =>
  (read operand progress).map fun (_, progress) => ([], progress)

/-- How the rules of keywords with schemas or references are read, in a schema with the given
fields. Schemas under them are read by `read`, references by `follow`. Nothing is laid down for what
other keywords leave unevaluated. -/
def schemaKeywords (follow : Reader Json (List Rule)) (fields : Fields) :
    List (String × Reader Json (List Rule)) := [
  ("$dynamicRef", follow),
  ("$ref", follow),
  ("additionalProperties", readAdditional read fields),
  ("allOf", asRule .every (readList read)),
  ("anyOf", asRule .anyOf (readList read)),
  ("contains", readContains read fields),
  ("dependencies", asRule .dependent (readDependencies read)),
  ("dependentSchemas", asRule .dependent (readMap read)),
  ("if", readBranch read fields),
  ("items", readItems read fields),
  ("not", fun operand => asRule (.unless operand) read operand),
  ("oneOf", asRule .oneOf (readList read)),
  ("patternProperties", unlessGoverned fields (asRule .patternProperties (readPatterns read))),
  ("prefixItems", asRule .prefixItems (readList read)),
  ("properties", unlessGoverned fields (asRule .properties (readMap read))),
  ("propertyNames", readPropertyNames read),
  ("unevaluatedItems", withoutRule read),
  ("unevaluatedProperties", withoutRule read)]

/-- The rules of a field of a schema. Keywords without rules may have any operand. -/
def readField (follow : Reader Json (List Rule)) (fields : Fields) :
    Reader (String × Json) (List Rule) := fun (keyword, operand) progress =>
  match (schemaKeywords read follow fields).lookup keyword, plainKeywords.lookup keyword with
  | some readRules, _ => readRules operand progress
  | none, some rule? => (rule? operand).map fun rule => ([rule], progress)
  | none, none => some ([], progress)

end Operands

/-- Leaves a link to a target, which is added if there is none yet. -/
def readLink (target : Target) (progress : Progress) : Rule × Progress :=
  let known := progress.targets.findIdx fun other =>
    other.address = target.address ∧ other.scope = target.scope
  if known < progress.targets.length then
    (.link known, progress)
  else
    (.link known, { progress with targets := progress.targets ++ [target] })

/-- The rules of a reference in a scope. What it leads to is read by `read`. -/
def readReference (registry : Registry) (read : Scope → Reader Json Rule) (scope : Scope) :
    Reader Json (List Rule) := fun operand progress => do
  let reference ← operand.asString?
  let address ← scope.base.resolve? reference.toList
  let (schema, inner) ← registry.lookup? scope reference.toList
  if address ∈ progress.followed then
    if keywordText? "$ref" schema = some reference then
      return ([], progress)
    else
      let (link, progress) := readLink ⟨address, inner, schema⟩ progress
      return ([link], progress)
  else
    asRule id (read inner) schema { progress with followed := address :: progress.followed }

/-- Reads a schema in a scope. The number bounds how far schemas lead to schemas. -/
def readSchema (registry : Registry) : Nat → Scope → Reader Json Rule
  | 0, _, _, _ => none
  | steps + 1, scope, schema, progress =>
    match schema with
    | .bool true => some (.every [], progress)
    | .bool false => some (.never, progress)
    | .object fields => do
      let read := fun schema progress => do
        readSchema registry steps (← scope.within? schema) schema progress
      let follow := readReference registry (readSchema registry steps) scope
      let (rules, progress) ← readEach (readField read follow fields) fields progress
      return (.every rules.flatten, progress)
    | _ => none

/-- Reads the targets of links, with those that are met on the way. -/
def readTargets? (registry : Registry) (steps : Nat) :
    Nat → List Rule → List Target → Option (List Rule)
  | 0, _, _ => none
  | rounds + 1, rules, targets =>
    match targets[rules.length]? with
    | none => some rules
    | some target => do
      let (rule, progress) ←
        readSchema registry steps target.scope target.schema ⟨[], targets⟩
      readTargets? registry steps rounds (rules ++ [rule]) progress.targets

/-- What a document lays down: the rule of the whole, and the rules that links lead to. -/
structure Rules where
  rule : Rule
  links : List Rule
  deriving Inhabited

/-- How often schemas of a document can lead on to others: on one way no reference is followed twice
from the same identifier, and between two of them the way only descends. -/
def stepLimit (document : Json) : Nat := Nat.pow (document.size + 1) 3

/-- The rules that a document lays down. Documents of all dialects are read by the rules of the
newest, and one with a pattern that is not known is no schema. -/
def Rules.ofJson? (document : Json) : Option Rules := do
  if hasKnownDialect document && wellFormed document then
    let base ← baseOf? anonymous document
    let registry ← Registry.ofDocument? base document
    let steps := stepLimit document
    let scope : Scope := ⟨← baseOf? base document, []⟩
    let (rule, progress) ← readSchema registry steps scope document ⟨[], []⟩
    let links ← readTargets? registry steps steps [] progress.targets
    return ⟨rule, links⟩
  else
    none

end Schema

end Abac
