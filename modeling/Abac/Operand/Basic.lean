import Abac.Json.Printer
import Abac.Operand.Numeral
import Abac.Condition.Basic

/-!
Operands and their comparison. An operand is a value or undefined. Two operands that are both
finite numbers, or read as such, are compared as numbers; otherwise, if one is a boolean, both are
taken as booleans; otherwise they are compared as they are, and only strings have an order.
-/

namespace Abac

/-- A value, or none where a path leads nowhere. -/
abbrev Operand := Option Json

namespace Operand

mutual

/-- The text of an item inside a list: null has the empty text, objects have none. -/
def itemText? : Json → Option (List Char)
  | .null => some []
  | .bool true => some ['t', 'r', 'u', 'e']
  | .bool false => some ['f', 'a', 'l', 's', 'e']
  | .number value => some value.chars
  | .string value => some value.toList
  | .array items => listText? items
  | .object _ => none

/-- The texts of the items, with commas between them. -/
def listText? : List Json → Option (List Char)
  | [] => some []
  | item :: rest =>
    match itemText? item, tailText? rest with
    | some head, some tail => some (head ++ tail)
    | _, _ => none

/-- The texts of the items after the first, each behind a comma. -/
def tailText? : List Json → Option (List Char)
  | [] => some []
  | item :: rest =>
    match itemText? item, tailText? rest with
    | some head, some tail => some (',' :: (head ++ tail))
    | _, _ => none

end

/-- The finite number that an operand converts to. -/
def toNumber? : Operand → Option Binary64
  | none => none
  | some .null => some Binary64.zero
  | some (.bool value) => Binary64.ofInt? (if value then 1 else 0)
  | some (.number value) => value.toBinary64?
  | some (.string value) => numeral? value.toList
  | some (.array items) => (listText? items).bind numeral?
  | some (.object _) => none

def isBool : Operand → Bool
  | some (.bool _) => true
  | _ => false

def toBool : Operand → Bool
  | none => false
  | some .null => false
  | some (.bool value) => value
  | some (.number value) => value.toUnits ≠ 0
  | some (.string value) => !value.toList.isEmpty
  | some (.array _) => true
  | some (.object _) => true

def equal : Operand → Operand → Bool
  | none, none => true
  | some a, some b => a.equal b
  | _, _ => false

/-- The UTF-8 encoding of a text. -/
def encoding (text : String) : List UInt8 := text.toList.flatMap String.utf8EncodeChar

/-- The order of two byte sequences: the first difference decides, and a beginning of the other
comes first. -/
def compareBytes : List UInt8 → List UInt8 → Ordering
  | [], [] => .eq
  | [], _ :: _ => .lt
  | _ :: _, [] => .gt
  | a :: as, b :: bs => (compare a b).then (compareBytes as bs)

/-- Strings are ordered by their encodings; no other operands have an order. -/
def order? : Operand → Operand → Option Ordering
  | some (.string a), some (.string b) => some (compareBytes (encoding a) (encoding b))
  | _, _ => none

/-- Two operands after conversion to a common kind. -/
inductive Pair where
  | numbers (left right : Binary64)
  | booleans (left right : Bool)
  | values (left right : Operand)

def pair (left right : Operand) : Pair :=
  match left.toNumber?, right.toNumber? with
  | some l, some r => .numbers l r
  | _, _ =>
    if left.isBool || right.isBool then .booleans left.toBool right.toBool
    else .values left right

namespace Pair

def equal : Pair → Bool
  | numbers l r => l.equal r
  | booleans l r => l == r
  | values l r => Operand.equal l r

def order? : Pair → Option Ordering
  | numbers l r => some (l.order r)
  | booleans l r => some (compare l r)
  | values l r => Operand.order? l r

end Pair

end Operand

namespace Operator

/-- Does the operator hold between two operands? -/
def holds (op : Operator) (left right : Operand) : Bool :=
  let pair := Operand.pair left right
  match op with
  | eq => pair.equal
  | neq => !pair.equal
  | gt => pair.order? == some .gt
  | lt => pair.order? == some .lt
  | gte => pair.order? == some .gt || pair.order? == some .eq
  | lte => pair.order? == some .lt || pair.order? == some .eq
  | unknown _ => false

end Operator

end Abac
