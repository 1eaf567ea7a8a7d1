import Abac.Keyed
import Abac.Number.Decimal

/-!
JSON values. Whole numbers and doubles are kept apart: `1` and `1.0` are printed differently and
are different values. The fields of an object stand in the order of their keys, each key once; only
in what is about to be written out they may stand in another order.
-/

namespace Abac

inductive Number where
  | int (value : Int)
  | real (value : Binary64)
  deriving DecidableEq, Inhabited

inductive Json where
  | null
  | bool (value : Bool)
  | number (value : Number)
  | string (value : String)
  | array (items : List Json)
  | object (fields : List (String × Json))
  deriving Inhabited

abbrev Fields := List (String × Json)

namespace Number

/-- The nearest double, or none when that is infinite. -/
def toBinary64? : Number → Option Binary64
  | int value => Binary64.ofInt? value
  | real value => some value

/-- Equality of the written kind: whole numbers with whole numbers, doubles with doubles. -/
def equal : Number → Number → Bool
  | int a, int b => a = b
  | real a, real b => a.equal b
  | _, _ => false

/-- The exact value in units of 2⁻¹⁰⁷⁴. -/
def toUnits : Number → Int
  | int value => value * Binary64.one
  | real value => value.toInt

def isIntegral : Number → Bool
  | int _ => true
  | real value => value.isIntegral

end Number

namespace Json

def ofNat (value : Nat) : Json := .number (.int value)

mutual

/-- Structural equality. -/
def equal : Json → Json → Bool
  | null, null => true
  | bool a, bool b => a = b
  | number a, number b => a.equal b
  | string a, string b => a = b
  | array a, array b => equalItems a b
  | object a, object b => equalFields a b
  | _, _ => false

def equalItems : List Json → List Json → Bool
  | [], [] => true
  | a :: as, b :: bs => equal a b && equalItems as bs
  | _, _ => false

def equalFields : Fields → Fields → Bool
  | [], [] => true
  | (key, a) :: as, (key', b) :: bs => key = key' && (equal a b && equalFields as bs)
  | _, _ => false

end

mutual

/-- Structural equality in which numbers are compared by value. -/
def sameValue : Json → Json → Bool
  | null, null => true
  | bool a, bool b => a = b
  | number a, number b => a.toUnits = b.toUnits
  | string a, string b => a = b
  | array a, array b => sameItems a b
  | object a, object b => sameFields a b
  | _, _ => false

def sameItems : List Json → List Json → Bool
  | [], [] => true
  | a :: as, b :: bs => sameValue a b && sameItems as bs
  | _, _ => false

def sameFields : Fields → Fields → Bool
  | [], [] => true
  | (key, a) :: as, (key', b) :: bs => key = key' && (sameValue a b && sameFields as bs)
  | _, _ => false

end

/-- An object from fields in any order; of two with one key the later counts. -/
def ofFields (fields : Fields) : Json := .object (Keyed.ofList fields)

/-- The value under a key of an object. -/
def field? : Json → String → Option Json
  | object fields, key => fields.lookup key
  | _, _ => none

def isObject : Json → Bool
  | object _ => true
  | _ => false

def asString? : Json → Option String
  | string value => some value
  | _ => none

def asBool? : Json → Option Bool
  | bool value => some value
  | _ => none

def asNumber? : Json → Option Number
  | number value => some value
  | _ => none

def asArray? : Json → Option (List Json)
  | array items => some items
  | _ => none

def asObject? : Json → Option Fields
  | object fields => some fields
  | _ => none

/-- A natural number that fits 64 bits, written without point or exponent. -/
def asNatural? : Json → Option Nat
  | number (.int value) =>
    if 0 ≤ value ∧ value < (Nat.pow 2 64 : Int) then some value.toNat else none
  | _ => none

theorem asNatural?_ofNat {value : Nat} (hfits : value < Nat.pow 2 64) :
    (ofNat value).asNatural? = some value := by
  have hbound : 0 ≤ (value : Int) ∧ (value : Int) < (Nat.pow 2 64 : Int) :=
    ⟨Int.natCast_nonneg value, Int.ofNat_lt.2 hfits⟩
  rw [ofNat, asNatural?, if_pos hbound]
  rfl

mutual

/-- The number of values in a value, itself included. -/
def size : Json → Nat
  | array items => sizeItems items + 1
  | object fields => sizeFields fields + 1
  | _ => 1

def sizeItems : List Json → Nat
  | [] => 0
  | item :: rest => size item + sizeItems rest

def sizeFields : Fields → Nat
  | [] => 0
  | (_, value) :: rest => size value + sizeFields rest

end

mutual

/-- The number of levels of a value: one for a scalar or an empty container. -/
def height : Json → Nat
  | array items => heightItems items + 1
  | object fields => heightFields fields + 1
  | _ => 1

def heightItems : List Json → Nat
  | [] => 0
  | item :: rest => max (height item) (heightItems rest)

def heightFields : Fields → Nat
  | [] => 0
  | (_, value) :: rest => max (height value) (heightFields rest)

end

end Json

end Abac
