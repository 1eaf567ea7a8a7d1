import Abac.Number.Decimal
import Abac.Text.Basic

/-!
Strings as numbers: blanks around it aside, a string is a number when it is empty, a decimal
numeral, or a numeral in base sixteen, eight or two behind its mark.
-/

namespace Abac.Operand

/-- White space other than the next-line control, and the byte order mark. -/
def isNumericBlank (c : Char) : Bool := (Text.isBlank c && c.toNat != 0x85) || c.toNat = 0xFEFF

inductive Radix where
  | hexadecimal | octal | binary
  deriving DecidableEq

namespace Radix

def value : Radix → Nat
  | hexadecimal => 16
  | octal => 8
  | binary => 2

def ofMark? (mark : Char) : Option Radix :=
  if mark = 'x' ∨ mark = 'X' then some hexadecimal
  else if mark = 'o' ∨ mark = 'O' then some octal
  else if mark = 'b' ∨ mark = 'B' then some binary
  else none

def digit? (radix : Radix) (c : Char) : Option Nat :=
  (Text.hexValue? c).filter (· < radix.value)

/-- Appends a digit to a number, rounding to the nearest double. Beyond the finite doubles there is
no way back. -/
def append (radix : Radix) : Double → Nat → Double
  | .finite number, digit =>
    .ofRounding false
      (Binary64.ofQuotient? false (number.units * radix.value + digit * Binary64.one) 1)
  | .infinite negative, _ => .infinite negative

/-- The number that digits spell, rounded after every digit. -/
def number? (radix : Radix) (digits : List Char) : Option Double :=
  if digits.isEmpty then
    none
  else
    digits.foldlM (fun number c => (radix.digit? c).map (radix.append number))
      (.finite Binary64.zero)

end Radix

/-- A sign or none, digits with at most one point before, among or behind them, and perhaps an
exponent. -/
def decimal? (chars : List Char) : Option Double :=
  let (negative, chars) := Decimal.signed chars
  let (whole, rest) := Decimal.spanDigits chars
  let (fraction, rest) := Decimal.fractionPart rest
  if whole.isEmpty && fraction.isEmpty then
    none
  else
    match Decimal.exponentPart rest with
    | some (exponent, []) =>
      let decimal := Decimal.ofParts whole fraction exponent
      some (.ofRounding negative (decimal.toBinary64? negative))
    | _ => none

/-- The double that a text spells. -/
def spelled? (chars : List Char) : Option Double :=
  match Text.trim isNumericBlank chars with
  | [] => some (.finite Binary64.zero)
  | '0' :: mark :: digits =>
    match Radix.ofMark? mark with
    | some radix => radix.number? digits
    | none => decimal? ('0' :: mark :: digits)
  | rest => decimal? rest

/-- The finite number that a text spells. -/
def numeral? (chars : List Char) : Option Binary64 := (spelled? chars).bind Double.finite?

end Abac.Operand
