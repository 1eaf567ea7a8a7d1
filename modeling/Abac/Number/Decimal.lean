import Abac.Number.Binary64

/-!
Decimal numerals of doubles: the double nearest to a decimal, and the fewest decimal digits that
read back as a given double. Every double is a whole number of 10⁻¹⁰⁷⁴, so its exact expansion is
always a numeral that reads back.
-/

namespace Abac

/-- The decimal `digits * 10 ^ exponent`. -/
structure Decimal where
  digits : Nat
  exponent : Int
  deriving DecidableEq, Inhabited

namespace Decimal

def digitChars (value : Nat) : List Char := Nat.toDigits 10 value

def ofDigitChars (chars : List Char) : Nat := Nat.ofDigitChars 10 chars 0

def digitCount (value : Nat) : Nat := (digitChars value).length

/-- The power of ten of the leading digit. -/
def leadingExponent (d : Decimal) : Int := (digitCount d.digits : Int) - 1 + d.exponent

/-- The double nearest to the decimal, or none when that is infinite. Decimals far outside the
range of doubles are answered from their leading exponent, so that no power of ten is larger than
the digits and the range call for. -/
def toBinary64? (negative : Bool) (d : Decimal) : Option Binary64 :=
  if d.digits = 0 then
    Binary64.ofQuotient? negative 0 1
  else if 310 < d.leadingExponent then
    none
  else if d.leadingExponent < -330 then
    Binary64.ofQuotient? negative 0 1
  else if 0 ≤ d.exponent then
    Binary64.ofQuotient? negative (d.digits * Nat.pow 10 d.exponent.toNat * Binary64.one) 1
  else
    Binary64.ofQuotient? negative (d.digits * Binary64.one) (Nat.pow 10 (-d.exponent).toNat)

/-- Does the decimal read back as a double of this magnitude? -/
def reads (d : Decimal) (units : Nat) : Bool :=
  (d.toBinary64? false).any fun x => x.units = units

/-- The power of ten of the leading digit of a positive magnitude. Every such magnitude is above
10⁻⁴⁰⁰, so its multiple by 10⁴⁰⁰ has the same digits and is at least one. -/
def magnitude (units : Nat) : Int :=
  (digitCount (units * Nat.pow 10 400 / Binary64.one) : Int) - 1 - 400

/-- The magnitude in multiples of `10 ^ exponent`: whole multiples, remainder and divisor. -/
def scale (units : Nat) (exponent : Int) : Nat × Nat × Nat :=
  let num := if 0 ≤ exponent then units else units * Nat.pow 10 (-exponent).toNat
  let den := if 0 ≤ exponent then Binary64.one * Nat.pow 10 exponent.toNat else Binary64.one
  (num / den, num % den, den)

/-- The nearer neighbour on the grid of decimals with `count` digits, among those that read back;
of two equally near the even one. -/
def neighbour? (units count : Nat) : Option Decimal :=
  let exponent := magnitude units - (count - 1 : Nat)
  let (quotient, remainder, divisor) := scale units exponent
  let below : Decimal := ⟨quotient, exponent⟩
  let above : Decimal := ⟨quotient + 1, exponent⟩
  let belowFirst := 2 * remainder < divisor ∨ (2 * remainder = divisor ∧ quotient % 2 = 0)
  let candidates := if belowFirst then [below, above] else [above, below]
  candidates.find? (·.reads units)

/-- The exact value of a magnitude: a unit is 5¹⁰⁷⁴ / 10¹⁰⁷⁴. -/
def exact (units : Nat) : Decimal := ⟨units * Nat.pow 5 1074, -1074⟩

/-- The nearest of the decimals with fewest digits that read back as the given magnitude. -/
def shortest (units : Nat) : Decimal :=
  ((List.range 17).findSome? fun count => neighbour? units (count + 1)).getD (exact units)

/-- The digits without the zeros at their end. -/
def significant (d : Decimal) : List Char :=
  ((digitChars d.digits).reverse.dropWhile (· = '0')).reverse

def exponentText (exponent : Int) : List Char :=
  (if exponent < 0 then '-' else '+') :: digitChars exponent.natAbs

/-- Lays out significant digits whose first stands for `10 ^ exponent`. Numbers from 10⁻⁵ up to
10¹⁶ are written positionally with at least one digit after the point, all others with an
exponent. -/
def layout (digits : List Char) (exponent : Int) : List Char :=
  if -5 ≤ exponent ∧ exponent < 0 then
    '0' :: '.' :: (List.replicate (-exponent - 1).toNat '0' ++ digits)
  else if 0 ≤ exponent ∧ exponent < 16 then
    let whole := exponent.toNat + 1
    if digits.length ≤ whole then
      digits ++ List.replicate (whole - digits.length) '0' ++ ['.', '0']
    else
      digits.take whole ++ '.' :: digits.drop whole
  else
    let fraction := if digits.length ≤ 1 then [] else '.' :: digits.drop 1
    digits.take 1 ++ fraction ++ 'e' :: exponentText exponent

end Decimal

namespace Binary64

/-- The text of a double. -/
def toText (x : Binary64) : List Char :=
  let sign := if x.negative then ['-'] else []
  if x.units = 0 then
    sign ++ ['0', '.', '0']
  else
    let d := Decimal.shortest x.units
    sign ++ Decimal.layout d.significant d.leadingExponent

end Binary64

/-!
Reading decimal numerals: the parts that the notations of this library share.
-/

namespace Decimal

/-- The digits at the front of a text, and the rest. -/
def spanDigits (chars : List Char) : List Char × List Char := chars.span Char.isDigit

/-- A sign at the front of a text. -/
def signed : List Char → Bool × List Char
  | '-' :: rest => (true, rest)
  | '+' :: rest => (false, rest)
  | rest => (false, rest)

/-- The digits behind a point at the front of a text, and the rest. -/
def fractionPart : List Char → List Char × List Char
  | '.' :: rest => spanDigits rest
  | rest => ([], rest)

/-- An exponent part at the front of a text: `e` or `E`, perhaps a sign, and digits. A text that
begins otherwise has the exponent 0; a mark without digits is refused. -/
def exponentPart : List Char → Option (Int × List Char)
  | [] => some (0, [])
  | mark :: rest =>
    if mark = 'e' ∨ mark = 'E' then
      let (negative, rest) := signed rest
      match spanDigits rest with
      | ([], _) => none
      | (digits, rest) =>
        let exponent : Int := ofDigitChars digits
        some (if negative then -exponent else exponent, rest)
    else
      some (0, mark :: rest)

/-- The decimal written with the given whole digits, digits after the point, and exponent. -/
def ofParts (whole fraction : List Char) (exponent : Int) : Decimal :=
  ⟨ofDigitChars (whole ++ fraction), exponent - fraction.length⟩

end Decimal

end Abac
