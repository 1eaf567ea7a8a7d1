import Abac.Toml.Basic
import Abac.Toml.Text

/-!
The scalars of TOML that are not strings: booleans, numbers, dates and times. A reader takes the
longest of its forms at the front of the text; what is left over is for the caller to judge.
-/

namespace Abac.Toml

/-- The digits behind a first digit, where single underscores may stand between digits. -/
def moreDigits (isDigit : Char → Bool) : List Char → List Char × List Char
  | '_' :: c :: rest =>
    if isDigit c then
      let (digits, rest) := moreDigits isDigit rest
      (c :: digits, rest)
    else
      ([], '_' :: c :: rest)
  | c :: rest =>
    if isDigit c then
      let (digits, rest) := moreDigits isDigit rest
      (c :: digits, rest)
    else
      ([], c :: rest)
  | [] => ([], [])

def digits? (isDigit : Char → Bool) : List Char → Option (List Char × List Char)
  | c :: rest =>
    if isDigit c then
      let (digits, rest) := moreDigits isDigit rest
      some (c :: digits, rest)
    else
      none
  | [] => none

/-- A sign or none, and digits without a needless zero in front. -/
def whole? (chars : List Char) : Option (Bool × List Char × List Char) :=
  let (negative, chars) := Decimal.signed chars
  match chars with
  | '0' :: rest => some (negative, ['0'], rest)
  | chars => do
    let (digits, rest) ← digits? Char.isDigit chars
    return (negative, digits, rest)

/-- A whole number that fits sixty-four bits with sign. -/
def inRange? (value : Int) : Option Value :=
  if -(Nat.pow 2 63 : Int) ≤ value ∧ value < (Nat.pow 2 63 : Int) then some (.integer value)
  else none

def radixNumber? (base : Nat) (chars : List Char) : Option (Value × List Char) := do
  let isDigit := fun c => match Text.hexValue? c with
    | some value => value < base
    | none => false
  let (digits, rest) ← digits? isDigit chars
  let values ← digits.mapM Text.hexValue?
  let value ← inRange? (values.foldl (fun number digit => number * base + digit) 0 : Nat)
  return (value, rest)

def integer? : List Char → Option (Value × List Char)
  | '0' :: 'x' :: rest => radixNumber? 16 rest
  | '0' :: 'o' :: rest => radixNumber? 8 rest
  | '0' :: 'b' :: rest => radixNumber? 2 rest
  | chars => do
    let (negative, digits, rest) ← whole? chars
    let value : Int := Decimal.ofDigitChars digits
    let value ← inRange? (if negative then -value else value)
    return (value, rest)

/-- The exponent of a float: a mark, a sign or none, and digits, zeros in front allowed. -/
def exponent? : List Char → Option (Int × List Char)
  | mark :: rest =>
    if mark = 'e' ∨ mark = 'E' then do
      let (negative, rest) := Decimal.signed rest
      let (digits, rest) ← digits? Char.isDigit rest
      let value : Int := Decimal.ofDigitChars digits
      return (if negative then -value else value, rest)
    else
      none
  | [] => none

/-- The float of a decimal. One too large is refused, one too small is not finite. -/
def floatValue? (negative : Bool) (decimal : Decimal) : Option Value :=
  match decimal.toBinary64? negative with
  | some value => some (.float (some value))
  | none => if negative then some (.float none) else none

def decimalFloat? (chars : List Char) : Option (Value × List Char) := do
  let (negative, whole, rest) ← whole? chars
  match rest with
  | '.' :: rest =>
    let (fraction, rest) ← digits? Char.isDigit rest
    let (exponent, rest) := (exponent? rest).getD (0, rest)
    return (← floatValue? negative (Decimal.ofParts whole fraction exponent), rest)
  | rest =>
    let (exponent, rest) ← exponent? rest
    return (← floatValue? negative (Decimal.ofParts whole [] exponent), rest)

def specialFloat? (chars : List Char) : Option (Value × List Char) :=
  match (Decimal.signed chars).2 with
  | 'i' :: 'n' :: 'f' :: rest => some (.float none, rest)
  | 'n' :: 'a' :: 'n' :: rest => some (.float none, rest)
  | _ => none

/-- Exactly `count` digits and their value. -/
def fixedDigits? (count : Nat) (chars : List Char) : Option (Nat × List Char) :=
  let digits := chars.take count
  if digits.length = count ∧ digits.all Char.isDigit then
    some (Decimal.ofDigitChars digits, chars.drop count)
  else
    none

def mark? (mark : Char) : List Char → Option (List Char)
  | c :: rest => if c = mark then some rest else none
  | [] => none

/-- A number written with at least `width` digits. -/
def padded (width value : Nat) : List Char :=
  let digits := Decimal.digitChars value
  List.replicate (width - digits.length) '0' ++ digits

def isLeapYear (year : Nat) : Bool := year % 4 = 0 && (year % 100 ≠ 0 || year % 400 = 0)

def daysInMonth (year month : Nat) : Nat :=
  if month = 2 then (if isLeapYear year then 29 else 28)
  else if month = 4 ∨ month = 6 ∨ month = 9 ∨ month = 11 then 30
  else 31

/-- A date, as text. -/
def date? (chars : List Char) : Option (List Char × List Char) := do
  let (year, rest) ← fixedDigits? 4 chars
  let (month, rest) ← fixedDigits? 2 (← mark? '-' rest)
  let (day, rest) ← fixedDigits? 2 (← mark? '-' rest)
  if 1 ≤ month ∧ month ≤ 12 ∧ 1 ≤ day ∧ day ≤ daysInMonth year month then
    return (padded 4 year ++ '-' :: padded 2 month ++ '-' :: padded 2 day, rest)
  else
    none

/-- The digits of a fraction of a second: nine at most, and no zeros at the end. -/
def fractionText (digits : List Char) : List Char :=
  match ((digits.take 9).reverse.dropWhile (· = '0')).reverse with
  | [] => []
  | digits => '.' :: digits

/-- A time of day, as text. The last second of a minute may be a leap second. -/
def time? (chars : List Char) : Option (List Char × List Char) := do
  let (hour, rest) ← fixedDigits? 2 chars
  let (minute, rest) ← fixedDigits? 2 (← mark? ':' rest)
  let (second, rest) ← fixedDigits? 2 (← mark? ':' rest)
  if 24 ≤ hour ∨ 60 ≤ minute ∨ 61 ≤ second then
    none
  else
    let clock := padded 2 hour ++ ':' :: padded 2 minute ++ ':' :: padded 2 second
    match rest with
    | '.' :: c :: more =>
      if c.isDigit then
        let (digits, rest) := Decimal.spanDigits (c :: more)
        return (clock ++ fractionText digits, rest)
      else
        return (clock, rest)
    | rest => return (clock, rest)

/-- An offset from universal time, as text. No offset has a plus sign. -/
def offset? : List Char → Option (List Char × List Char)
  | 'Z' :: rest => some (['Z'], rest)
  | 'z' :: rest => some (['Z'], rest)
  | sign :: rest =>
    if sign = '+' ∨ sign = '-' then do
      let (hour, rest) ← fixedDigits? 2 rest
      let (minute, rest) ← fixedDigits? 2 (← mark? ':' rest)
      if 24 ≤ hour ∨ 60 ≤ minute then
        none
      else
        let sign := if hour = 0 ∧ minute = 0 then '+' else sign
        return (sign :: padded 2 hour ++ ':' :: padded 2 minute, rest)
    else
      none
  | [] => none

/-- A time behind a date, and perhaps an offset behind the time. -/
def timeOfDate? : List Char → Option (List Char × List Char)
  | mark :: rest =>
    if mark = 'T' ∨ mark = 't' ∨ mark = ' ' then do
      let (time, rest) ← time? rest
      let (offset, rest) := (offset? rest).getD ([], rest)
      return ('T' :: time ++ offset, rest)
    else
      none
  | [] => none

def datetime? (chars : List Char) : Option (Value × List Char) :=
  let text := match date? chars with
    | some (date, rest) =>
      let (time, rest) := (timeOfDate? rest).getD ([], rest)
      some (date ++ time, rest)
    | none => time? chars
  text.map fun (chars, rest) => (.datetime (String.ofList chars), rest)

def boolean? : List Char → Option (Value × List Char)
  | 't' :: 'r' :: 'u' :: 'e' :: rest => some (.boolean true, rest)
  | 'f' :: 'a' :: 'l' :: 's' :: 'e' :: rest => some (.boolean false, rest)
  | _ => none

def scalarValue? (chars : List Char) : Option (Value × List Char) :=
  (boolean? chars).or <| (datetime? chars).or <| (decimalFloat? chars).or <|
    (specialFloat? chars).or (integer? chars)

end Abac.Toml
