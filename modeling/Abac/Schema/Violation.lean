import Abac.Schema.Document

/-!
Checking values against schemas. Rules are taken in the order in which their keywords stand, and
every violation is listed, except that a choice of schemas counts as one. A check that links lead
around in a circle does not come to an end and has no result.
-/

namespace Abac

/-- The text of a positive double as a decimal without exponent, and without a point if it is
whole. -/
def Binary64.toPlainText (x : Binary64) : List Char :=
  let sign := if x.negative then ['-'] else []
  if x.units = 0 then
    sign ++ ['0']
  else
    let d := Decimal.shortest x.units
    let exponent := d.leadingExponent
    if exponent < 0 then
      sign ++ '0' :: '.' :: (List.replicate (-exponent - 1).toNat '0' ++ d.significant)
    else
      let whole := exponent.toNat + 1
      let digits := d.significant
      if digits.length ≤ whole then
        sign ++ digits ++ List.replicate (whole - digits.length) '0'
      else
        sign ++ digits.take whole ++ '.' :: digits.drop whole

namespace Schema

structure Violation where
  /-- The way from the whole value to the part that violates the schema. -/
  location : List String
  text : String
  deriving Inhabited

def Violation.under (token : String) (violation : Violation) : Violation :=
  { violation with location := token :: violation.location }

/-- The text of the pointer to a violation. -/
def Violation.pointer (violation : Violation) : String :=
  String.ofList (Json.Pointer.ofTokens violation.location)

/-- A violation of the whole value: its text behind the value. -/
def violated (value : Json) (text : String) : List Violation := [⟨[], value.text ++ text⟩]

/-- The violation that a value is when a condition does not hold. -/
def requireThat (holds : Bool) (value : Json) (text : String) : List Violation :=
  if holds then [] else violated value text

def neverViolations (value : Json) : List Violation :=
  [⟨[], "False schema does not allow " ++ value.text⟩]

def noneValid (keyword : String) : String :=
  " is not valid under any of the schemas listed in the '" ++ keyword ++ "' keyword"

def severalValid (keyword : String) : String :=
  " is valid under more than one of the schemas listed in the '" ++ keyword ++ "' keyword"

/-- The smallest distance of different constants, 2⁻⁵², in units. -/
def tolerance : Nat := Nat.pow 2 1022

/-- Is a value the constant? Numbers are as doubles, and their distance is rounded to a double; only
inside arrays and objects are they compared exactly. -/
def isConstant : Json → Json → Bool
  | .number a, .number b =>
    match a.toBinary64?, b.toBinary64? with
    | some a, some b => Binary64.nearest (a.toInt - b.toInt).natAbs 1 < tolerance
    | _, _ => false
  | a, b => a.sameValue b

def kindViolations (kind : Kind) (value : Json) : List Violation :=
  requireThat (kind.admits value) value (" is not of type " ++ (Json.string kind.name).text)

def kindsViolations (kinds : List Kind) (value : Json) : List Violation :=
  let names := (Kind.all.filter (kinds.contains ·)).map fun kind => (Json.string kind.name).text
  requireThat (kinds.any (·.admits value)) value (" is not of types " ++ ", ".intercalate names)

def minimumViolations (strict : Bool) (bound : Number) (value : Json) : List Violation :=
  match value with
  | .number number =>
    let least := bound.toUnits + if strict then 1 else 0
    let text := if strict then " is less than or equal to the minimum of " else
      " is less than the minimum of "
    requireThat (least ≤ number.toUnits) value (text ++ (Json.number bound).text)
  | _ => []

def maximumViolations (strict : Bool) (bound : Number) (value : Json) : List Violation :=
  match value with
  | .number number =>
    let most := bound.toUnits - if strict then 1 else 0
    let text := if strict then " is greater than or equal to the maximum of " else
      " is greater than the maximum of "
    requireThat (number.toUnits ≤ most) value (text ++ (Json.number bound).text)
  | _ => []

/-- Is a double a multiple of another one? A whole divisor divides whole numbers exactly. Otherwise
the quotient is rounded to a double, and counts as whole if its fractional part is below the
tolerance, as that of a negative number always is; a quotient out of range is not rounded. -/
def isMultiple (value divisor : Binary64) : Bool :=
  if divisor.isIntegral then
    value.isIntegral && divisor.units ≠ 0 && value.units % divisor.units = 0
  else
    match Binary64.ofQuotient? false (value.units * Binary64.one) divisor.units with
    | some quotient =>
      value.negative != divisor.negative || quotient.units % Binary64.one < tolerance
    | none => value.units % divisor.units = 0

def multipleViolations (divisor : Number) (value : Json) : List Violation :=
  match value with
  | .number number =>
    match number.toBinary64?, divisor.toBinary64? with
    | some number, some divisor =>
      requireThat (isMultiple number divisor) value
        (" is not a multiple of " ++ String.ofList divisor.toPlainText)
    | _, _ => []
  | _ => []

/-- How much of what is measured a value has, if it has any of it. -/
def Measure.of? : Measure → Json → Option Nat
  | characters, .string text => some text.length
  | items, .array values => some values.length
  | properties, .object fields => some fields.length
  | _, _ => none

/-- The text of a number of what is measured. -/
def Measure.countText (measure : Measure) (count : Nat) : String :=
  let unit := match measure with
    | characters => if count = 1 then " character" else " characters"
    | items => if count = 1 then " item" else " items"
    | properties => if count = 1 then " property" else " properties"
  toString count ++ unit

def atLeastViolations (measure : Measure) (count : Nat) (value : Json) : List Violation :=
  match measure.of? value with
  | some size =>
    let text := if measure = .characters then " is shorter than " else " has less than "
    requireThat (count ≤ size) value (text ++ measure.countText count)
  | none => []

def atMostViolations (measure : Measure) (count : Nat) (value : Json) : List Violation :=
  match measure.of? value with
  | some size =>
    let text := if measure = .characters then " is longer than " else " has more than "
    requireThat (size ≤ count) value (text ++ measure.countText count)
  | none => []

def patternViolations (text : String) (pattern : Pattern) (value : Json) : List Violation :=
  match value with
  | .string found =>
    requireThat (pattern.occursIn found) value (" does not match \"" ++ text ++ "\"")
  | _ => []

/-- Are items different from one another? -/
def areDistinct : List Json → Bool
  | [] => true
  | item :: rest => !rest.any item.sameValue && areDistinct rest

def uniqueViolations (value : Json) : List Violation :=
  match value with
  | .array items => requireThat (areDistinct items) value " has non-unique elements"
  | _ => []

def requiredViolations (names : List String) (value : Json) : List Violation :=
  match value with
  | .object fields =>
    names.filterMap fun name =>
      if (fields.lookup name).isSome then none
      else some ⟨[], (Json.string name).text ++ " is a required property"⟩
  | _ => []

/-- A check of values: the violations that it finds, or nothing if it does not come to an end. -/
abbrev Check := Json → Option (List Violation)

/-- The violations in the items of a list, from an index on. -/
def itemViolations? (check : Check) : Nat → List Json → Option (List Violation)
  | _, [] => some []
  | index, item :: rest => do
    let found ← check item
    let others ← itemViolations? check (index + 1) rest
    return found.map (Violation.under (toString index)) ++ others

/-- The violation of an object with properties of which no rule speaks. -/
def unexpectedViolations : List String → List Violation
  | [] => []
  | [name] => [⟨[], "Additional properties are not allowed ('" ++ name ++ "' was unexpected)"⟩]
  | names => [⟨[], "Additional properties are not allowed (" ++
      ", ".intercalate (names.map fun name => "'" ++ name ++ "'") ++ " were unexpected)"⟩]

namespace Rule

mutual

/-- The violations of a rule by a value. Links are followed by `follow`. -/
def violations? (follow : Nat → Check) : Rule → Check
  | never, value => some (neverViolations value)
  | link index, value => follow index value
  | every rules, value => do
    let found ← eachViolations? follow rules value
    return found.flatten
  | anyOf rules, value => do
    return requireThat (← someHolds? follow rules value) value (noneValid "anyOf")
  | oneOf rules, value => do
    let found ← eachViolations? follow rules value
    match found.countP List.isEmpty with
    | 0 => return violated value (noneValid "oneOf")
    | 1 => return []
    | _ => return violated value (severalValid "oneOf")
  | .unless schema rule, value => do
    let found ← violations? follow rule value
    if found.isEmpty then
      return [⟨[], schema.text ++ " is not allowed for " ++ value.text⟩]
    else
      return []
  | branch condition met unmet, value => do
    let found ← violations? follow condition value
    if found.isEmpty then violations? follow met value else violations? follow unmet value
  | const expected, value =>
    some (if isConstant value expected then [] else [⟨[], expected.text ++ " was expected"⟩])
  | enum options, value =>
    some (requireThat (options.any value.sameValue) value
      (" is not one of " ++ (Json.array options).text))
  | .kind wanted, value => some (kindViolations wanted value)
  | .kinds wanted, value => some (kindsViolations wanted value)
  | minimum strict bound, value => some (minimumViolations strict bound value)
  | maximum strict bound, value => some (maximumViolations strict bound value)
  | multipleOf divisor, value => some (multipleViolations divisor value)
  | atLeast measure count, value => some (atLeastViolations measure count value)
  | atMost measure count, value => some (atMostViolations measure count value)
  | .pattern text expression, value => some (patternViolations text expression value)
  | unique, value => some (uniqueViolations value)
  | required names, value => some (requiredViolations names value)
  | dependent rules, value =>
    match value with
    | .object fields => dependentViolations? follow rules fields value
    | _ => some []
  | properties rules, value =>
    match value with
    | .object fields => propertyViolations? follow rules fields
    | _ => some []
  | patternProperties rules, value =>
    match value with
    | .object fields => do
      let found ← matchedViolations? follow rules fields
      return found.flatten
    | _ => some []
  | closed named matched, value =>
    match value with
    | .object fields =>
      if named.isEmpty && matched.isEmpty then
        some (((fields.head?).map fun field => neverViolations field.2).getD [])
      else do
        let found ← fields.mapM fun (name, inner) => do
          let ruled ← namedViolations? follow named name inner
          let others ← matchedViolations? follow matched [(name, inner)]
          return (ruled ++ others).flatten
        return found.flatten ++ unexpectedViolations ((fields.filter fun (name, _) =>
          (named.lookup name).isNone && !matched.any fun rule => rule.1.occursIn name).map (·.1))
    | _ => some []
  | additional named matched other, value =>
    match value with
    | .object fields => do
      let found ← fields.mapM fun (name, inner) => do
        let ruled ← namedViolations? follow named name inner
        let others ← matchedViolations? follow matched [(name, inner)]
        match ruled ++ others with
        | [] => do
          let found ← violations? follow other inner
          return found.map (Violation.under name)
        | found => return found.flatten
      return found.flatten
    | _ => some []
  | propertyNames rule, value =>
    match value with
    | .object fields =>
      match rule with
      | never => some (if fields.isEmpty then [] else neverViolations value)
      | rule => do
        let found ← fields.mapM fun (name, _) => violations? follow rule (.string name)
        return found.flatten
    | _ => some []
  | prefixItems rules, value =>
    match value with
    | .array values => leadingViolations? follow rules 0 values
    | _ => some []
  | .items skipped rule, value =>
    match value with
    | .array values => itemViolations? (violations? follow rule) skipped (values.drop skipped)
    | _ => some []
  | contains least most? rule, value =>
    match value with
    | .array values => do
      let found ← values.mapM fun item => violations? follow rule item
      let count := found.countP List.isEmpty
      if least ≤ count && most?.all (count ≤ ·) then
        return []
      else
        return [⟨[], "None of " ++ value.text ++ " are valid under the given schema"⟩]
    | _ => some []

/-- Does a value satisfy some rule? They are tried in turn, up to the first that it satisfies. -/
def someHolds? (follow : Nat → Check) : List Rule → Json → Option Bool
  | [], _ => some false
  | rule :: rest, value => do
    let found ← violations? follow rule value
    if found.isEmpty then return true else someHolds? follow rest value

/-- The violations of each rule by a value. -/
def eachViolations? (follow : Nat → Check) : List Rule → Json → Option (List (List Violation))
  | [], _ => some []
  | rule :: rest, value => do
    let found ← violations? follow rule value
    let others ← eachViolations? follow rest value
    return found :: others

/-- The violations of the first items by one rule each. -/
def leadingViolations? (follow : Nat → Check) :
    List Rule → Nat → List Json → Option (List Violation)
  | rule :: rules, index, value :: values => do
    let found ← violations? follow rule value
    let others ← leadingViolations? follow rules (index + 1) values
    return found.map (Violation.under (toString index)) ++ others
  | _, _, _ => some []

/-- The violations of rules that depend on the presence of properties. -/
def dependentViolations? (follow : Nat → Check) :
    List (String × Rule) → Fields → Json → Option (List Violation)
  | [], _, _ => some []
  | (name, rule) :: rest, fields, value => do
    let found ← (if (fields.lookup name).isSome then violations? follow rule value else some [])
    let others ← dependentViolations? follow rest fields value
    return found ++ others

/-- The violations of rules by the properties that they name. -/
def propertyViolations? (follow : Nat → Check) :
    List (String × Rule) → Fields → Option (List Violation)
  | [], _ => some []
  | (name, rule) :: rest, fields => do
    let found ← (fields.lookup name).elim (some []) (violations? follow rule)
    let others ← propertyViolations? follow rest fields
    return found.map (Violation.under name) ++ others

/-- The violations of the rule that names a property, if there is one. -/
def namedViolations? (follow : Nat → Check) :
    List (String × Rule) → String → Json → Option (List (List Violation))
  | [], _, _ => some []
  | (name, rule) :: rest, key, value =>
    if name = key then do
      let found ← violations? follow rule value
      return [found.map (Violation.under key)]
    else
      namedViolations? follow rest key value

/-- The violations of rules by each property whose name matches. -/
def matchedViolations? (follow : Nat → Check) :
    List (Pattern × Rule) → Fields → Option (List (List Violation))
  | [], _ => some []
  | (expression, rule) :: rest, fields => do
    let found ← (fields.filter fun (name, _) => expression.occursIn name).mapM
      fun (name, value) => do
        let found ← violations? follow rule value
        return found.map (Violation.under name)
    let others ← matchedViolations? follow rest fields
    return found ++ others

end

-- The equations, one for each kind of rule, are made here once for all proofs that open them.
attribute [grind =] violations?

end Rule

/-- The violations of the target of a link. The number bounds how far links lead to links; when it
is spent, there is no result. -/
def followLinks (links : List Rule) : Nat → Nat → Check
  | 0, _, _ => none
  | steps + 1, index, value =>
    match links[index]? with
    | some rule => rule.violations? (followLinks links steps) value
    | none => some []

/-- Checks values against rules. Without stepping into the value, links lead to links at most as
often as there are links, unless they lead around in a circle. -/
def Rules.check (rules : Rules) : Check := fun value =>
  rules.rule.violations?
    (followLinks rules.links ((rules.links.length + 1) * (value.height + 1))) value

/-- The check that a document describes, or why it describes none. This is one compiler of schemas:
what a document of an older dialect, or one with patterns of another language, describes elsewhere
may differ. -/
def compile (document : Json) : Except String Check :=
  match Rules.ofJson? document with
  | some rules => .ok rules.check
  | none => .error "not a JSON Schema"

end Schema

/-- A schema: a document, and the check of values that it describes. -/
structure Schema where
  document : Json
  check : Schema.Check
  deriving Inhabited

/-- The schema that a document describes. -/
def Schema.ofJson? (document : Json) : Option Schema :=
  (Schema.Rules.ofJson? document).map fun rules => ⟨document, rules.check⟩

end Abac
