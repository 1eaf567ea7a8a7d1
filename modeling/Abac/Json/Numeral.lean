import Abac.Json.Basic

/-!
Numbers in JSON text. Whole numbers within 64 bits are kept. Of any other number the first digits
are collected into a significand of 64 bits, and the double nearest to it is multiplied or divided
by that of a power of ten. So a number is rounded more than once, and what is read need not be the
double nearest to it.
-/

namespace Abac.Json

/-- The greatest power of ten that is finite as a double. -/
def powerLimit : Nat := 308

/-- The magnitude of the double of a power of ten. -/
def tenPower (exponent : Nat) : Nat := Binary64.nearest (Nat.pow 10 exponent * Binary64.one) 1

/-- Collects digits into a significand as long as it fits 64 bits, and counts those left over. -/
def collect : Nat → List Char → Nat × Nat
  | significand, [] => (significand, 0)
  | significand, c :: rest =>
    let next := significand * 10 + (c.toNat - '0'.toNat)
    if next < Nat.pow 2 64 then collect next rest else (significand, rest.length + 1)

/-- A magnitude divided by a power of ten. Powers that are not finite are divided by in turns. -/
def dividedByTen (units exponent : Nat) : Nat :=
  if exponent ≤ powerLimit then
    Binary64.nearest (units * Binary64.one) (tenPower exponent)
  else if units = 0 then
    0
  else
    dividedByTen (Binary64.nearest (units * Binary64.one) (tenPower powerLimit))
      (exponent - powerLimit)
termination_by exponent
decreasing_by
  unfold powerLimit at *
  omega

/-- The double of a significand and an exponent, unless it is infinite. -/
def scaled? (negative : Bool) (significand : Nat) (exponent : Int) : Option Binary64 :=
  let units := Binary64.nearest (significand * Binary64.one) 1
  if exponent < 0 then
    Binary64.ofQuotient? negative (dividedByTen units exponent.natAbs) 1
  else if exponent.natAbs ≤ powerLimit then
    Binary64.ofQuotient? negative (units * tenPower exponent.natAbs) Binary64.one
  else if units = 0 then
    Binary64.ofQuotient? negative 0 1
  else
    none

/-- The double of whole digits, digits after the point and an exponent. Whole digits that are left
over count in the exponent; the digits after the point are collected where the whole digits end. -/
def real? (negative : Bool) (whole fraction : List Char) (exponent : Int) : Option Binary64 :=
  let (significand, passed) := collect 0 whole
  let (significand, dropped) := collect significand fraction
  scaled? negative significand (exponent + passed - (fraction.length - dropped : Nat))

/-- A whole number within 64 bits is kept, a larger one becomes a double, and so does minus
zero. -/
def ofDigits? (negative : Bool) (digits : List Char) : Option Number :=
  let value := Decimal.ofDigitChars digits
  if negative && (value = 0 || Nat.pow 2 63 < value) || !negative && Nat.pow 2 64 ≤ value then
    (real? negative digits [] 0).map .real
  else
    some (.int (if negative then -(value : Int) else value))

/-- A number behind its sign: digits without a needless zero in front, perhaps a point with digits,
perhaps an exponent. A number that rounds to infinity is refused. -/
def readUnsigned (negative : Bool) (chars : List Char) : Option (Number × List Char) :=
  match Decimal.spanDigits chars with
  | ([], _) => none
  | ('0' :: _ :: _, _) => none
  | (whole, '.' :: rest) =>
    match Decimal.spanDigits rest with
    | ([], _) => none
    | (fraction, rest) => do
      let (exponent, rest) ← Decimal.exponentPart rest
      let value ← real? negative whole fraction exponent
      return (.real value, rest)
  | (whole, mark :: rest) =>
    if mark = 'e' ∨ mark = 'E' then do
      let (exponent, rest) ← Decimal.exponentPart (mark :: rest)
      let value ← real? negative whole [] exponent
      return (.real value, rest)
    else do
      let value ← ofDigits? negative whole
      return (value, mark :: rest)
  | (whole, []) => do
    let value ← ofDigits? negative whole
    return (value, [])

def readNumber : List Char → Option (Number × List Char)
  | '-' :: rest => readUnsigned true rest
  | chars => readUnsigned false chars

end Abac.Json
