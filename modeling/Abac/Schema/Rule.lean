import Abac.Pattern.Reader
import Abac.Schema.Vocabulary

/-!
The rules that schemas lay down. A schema is one rule, which holds when all of its rules hold.
Rules that are met again inside themselves are entered through links.
-/

namespace Abac

namespace Schema

/-- What a limit counts. -/
inductive Measure where
  | characters | items | properties
  deriving DecidableEq, Inhabited

inductive Rule where
  /-- No value is allowed. -/
  | never
  /-- The target of the link with an index holds. -/
  | link (index : Nat)
  | every (rules : List Rule)
  | anyOf (rules : List Rule)
  | oneOf (rules : List Rule)
  /-- A rule, read from a schema, does not hold. -/
  | unless (schema : Json) (rule : Rule)
  /-- One rule holds where the condition does, the other where it does not. -/
  | branch (condition met unmet : Rule)
  | const (expected : Json)
  | enum (options : List Json)
  | kind (kind : Kind)
  | kinds (kinds : List Kind)
  /-- A number is at least a bound, or above it. -/
  | minimum (strict : Bool) (bound : Number)
  /-- A number is at most a bound, or below it. -/
  | maximum (strict : Bool) (bound : Number)
  | multipleOf (divisor : Number)
  | atLeast (measure : Measure) (count : Nat)
  | atMost (measure : Measure) (count : Nat)
  | pattern (text : String) (pattern : Pattern)
  /-- No two items are the same. -/
  | unique
  | required (names : List String)
  /-- Where a property is there, its rule holds for the object. -/
  | dependent (rules : List (String × Rule))
  | properties (rules : List (String × Rule))
  | patternProperties (rules : List (Pattern × Rule))
  /-- Properties have rules by name and by pattern, and there are no others. -/
  | closed (named : List (String × Rule)) (matched : List (Pattern × Rule))
  /-- Properties have rules by name and by pattern, and all others have the last rule. -/
  | additional (named : List (String × Rule)) (matched : List (Pattern × Rule)) (other : Rule)
  | propertyNames (rule : Rule)
  /-- The first items have rules of their own. -/
  | prefixItems (rules : List Rule)
  /-- All items but the first have a rule. -/
  | items (skipped : Nat) (rule : Rule)
  /-- So many items satisfy a rule. -/
  | contains (least : Nat) (most? : Option Nat) (rule : Rule)
  deriving Inhabited

/-- The count that a number stands for. Counts have 64 bits; a larger number stands for the
greatest count, a negative one for none. -/
def countOf? (operand : Json) : Option Nat := do
  let bound ← operand.asNumber?
  if bound.isIntegral then
    some (min (bound.toUnits / Binary64.one).toNat (Nat.pow 2 64 - 1))
  else
    none

def strings? (operand : Json) : Option (List String) := do
  (← operand.asArray?).mapM Json.asString?

def kindRule? : Json → Option Rule
  | .string name => (Kind.ofName? name).map .kind
  | .array [item] => do return .kind (← Kind.ofName? (← item.asString?))
  | .array items => do
    return .kinds (← items.mapM fun item => do Kind.ofName? (← item.asString?))
  | _ => none

/-- Lists of properties that must be there where another one is. -/
def dependentRule? (operand : Json) : Option Rule := do
  let rules ← (← operand.asObject?).mapM fun (name, names) =>
    if areNames names then (strings? names).map fun names => (name, Rule.required names) else none
  return .dependent rules

def patternRule? (operand : Json) : Option Rule := do
  let text ← operand.asString?
  return .pattern text (← Pattern.ofText? text)

def limitRule? (limit : Measure → Nat → Rule) (measure : Measure) (operand : Json) :
    Option Rule :=
  (countOf? operand).map (limit measure)

def boundRule? (bound : Bool → Number → Rule) (strict : Bool) (operand : Json) : Option Rule :=
  operand.asNumber?.map (bound strict)

/-- How the rule of a keyword under which no schemas stand is read. -/
def plainKeywords : List (String × (Json → Option Rule)) := [
  ("const", fun operand => some (.const operand)),
  ("dependentRequired", dependentRule?),
  ("enum", fun operand => operand.asArray?.map .enum),
  ("exclusiveMaximum", boundRule? .maximum true),
  ("exclusiveMinimum", boundRule? .minimum true),
  ("maxItems", limitRule? .atMost .items),
  ("maxLength", limitRule? .atMost .characters),
  ("maxProperties", limitRule? .atMost .properties),
  ("maximum", boundRule? .maximum false),
  ("minItems", limitRule? .atLeast .items),
  ("minLength", limitRule? .atLeast .characters),
  ("minProperties", limitRule? .atLeast .properties),
  ("minimum", boundRule? .minimum false),
  ("multipleOf", fun operand => operand.asNumber?.map .multipleOf),
  ("pattern", patternRule?),
  ("required", fun operand => (strings? operand).map .required),
  ("type", kindRule?),
  ("uniqueItems", fun operand => operand.asBool?.map fun wanted =>
    if wanted then .unique else .every [])]

end Schema

end Abac
