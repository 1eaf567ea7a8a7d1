import Abac.Json.Numeral
import Abac.Json.Printer
import Abac.Text.Basic

/-!
Reading JSON text. A reader of a part takes the text from where the part begins and answers with
the value and the rest. Containers nest up to a given number of levels.
-/

namespace Abac

namespace Json

def isBlank (c : Char) : Bool := c = ' ' || c = '\n' || c = '\t' || c = '\r'

def skipBlanks (chars : List Char) : List Char := chars.dropWhile isBlank

/-- The sixteen-bit unit of four hexadecimal digits. -/
def unit? (a b c d : Char) : Option Nat := do
  let a ← Text.hexValue? a
  let b ← Text.hexValue? b
  let c ← Text.hexValue? c
  let d ← Text.hexValue? d
  return ((a * 16 + b) * 16 + c) * 16 + d

/-- Is a unit the first of a surrogate pair? -/
def isHigh (unit : Nat) : Bool := 0xD800 ≤ unit && unit < 0xDC00

/-- Is a unit the second of a surrogate pair? -/
def isLow (unit : Nat) : Bool := 0xDC00 ≤ unit && unit < 0xE000

def ofSurrogates (high low : Nat) : Char :=
  Char.ofNat (0x10000 + (high - 0xD800) * 0x400 + (low - 0xDC00))

def unescape? : Char → Option Char
  | '"' => some '"'
  | '\\' => some '\\'
  | '/' => some '/'
  | 'b' => some (Char.ofNat 8)
  | 'f' => some (Char.ofNat 12)
  | 'n' => some '\n'
  | 'r' => some '\r'
  | 't' => some '\t'
  | _ => none

/-- The characters of a string up to its closing quote. A surrogate counts only in a pair. -/
def readString : List Char → Option (List Char × List Char)
  | [] => none
  | '"' :: rest => some ([], rest)
  | '\\' :: 'u' :: a :: b :: c :: d :: '\\' :: 'u' :: a' :: b' :: c' :: d' :: rest => do
    let first ← unit? a b c d
    if isHigh first then
      let second ← unit? a' b' c' d'
      if isLow second then
        let (tail, rest) ← readString rest
        return (ofSurrogates first second :: tail, rest)
      else
        none
    else if isLow first then
      none
    else
      let (tail, rest) ← readString ('\\' :: 'u' :: a' :: b' :: c' :: d' :: rest)
      return (Char.ofNat first :: tail, rest)
  | '\\' :: 'u' :: a :: b :: c :: d :: rest => do
    let unit ← unit? a b c d
    if isHigh unit || isLow unit then
      none
    else
      let (tail, rest) ← readString rest
      return (Char.ofNat unit :: tail, rest)
  | '\\' :: c :: rest => do
    let c ← unescape? c
    let (tail, rest) ← readString rest
    return (c :: tail, rest)
  | c :: rest =>
    if c.toNat < 32 then
      none
    else do
      let (tail, rest) ← readString rest
      return (c :: tail, rest)

mutual

/-- Reads a value. The first number bounds the steps, the second the levels of containers. -/
def readValue : Nat → Nat → List Char → Option (Json × List Char)
  | 0, _, _ => none
  | steps + 1, levels, chars =>
    match skipBlanks chars with
    | 'n' :: 'u' :: 'l' :: 'l' :: rest => some (.null, rest)
    | 't' :: 'r' :: 'u' :: 'e' :: rest => some (.bool true, rest)
    | 'f' :: 'a' :: 'l' :: 's' :: 'e' :: rest => some (.bool false, rest)
    | '"' :: rest => do
      let (value, rest) ← readString rest
      return (.string (String.ofList value), rest)
    | '[' :: rest =>
      if levels = 0 then
        none
      else
        match skipBlanks rest with
        | ']' :: rest => some (.array [], rest)
        | rest => do
          let (items, rest) ← readItems steps (levels - 1) rest
          return (.array items, rest)
    | '{' :: rest =>
      if levels = 0 then
        none
      else
        match skipBlanks rest with
        | '}' :: rest => some (.object [], rest)
        | rest => do
          let (fields, rest) ← readFields steps (levels - 1) rest
          return (Json.ofFields fields, rest)
    | rest => do
      let (value, rest) ← readNumber rest
      return (.number value, rest)

def readItems : Nat → Nat → List Char → Option (List Json × List Char)
  | 0, _, _ => none
  | steps + 1, levels, chars => do
    let (item, rest) ← readValue steps levels chars
    match skipBlanks rest with
    | ',' :: rest =>
      let (items, rest) ← readItems steps levels rest
      return (item :: items, rest)
    | ']' :: rest => return ([item], rest)
    | _ => none

def readFields : Nat → Nat → List Char → Option (Fields × List Char)
  | 0, _, _ => none
  | steps + 1, levels, chars =>
    match skipBlanks chars with
    | '"' :: rest => do
      let (key, rest) ← readString rest
      match skipBlanks rest with
      | ':' :: rest =>
        let (value, rest) ← readValue steps levels rest
        match skipBlanks rest with
        | ',' :: rest =>
          let (fields, rest) ← readFields steps levels rest
          return ((String.ofList key, value) :: fields, rest)
        | '}' :: rest => return ([(String.ofList key, value)], rest)
        | _ => none
      | _ => none
    | _ => none

end

-- The equations of these long matches are made here once, and not by each proof that opens them.
attribute [grind =] readString readValue readItems readFields

/-- The value that a whole text holds, with containers nested up to `levels` deep. -/
def ofChars? (levels : Nat) (chars : List Char) : Option Json := do
  let (value, rest) ← readValue (chars.length + 1) levels chars
  if skipBlanks rest = [] then some value else none

def ofText? (levels : Nat) (text : String) : Option Json := ofChars? levels text.toList

/-- The levels of containers that texts from outside may nest. -/
def nestingLimit : Nat := 127

/-- The value that a text from outside holds, or why it holds none. -/
def ofText (text : String) : Except String Json :=
  match ofText? nestingLimit text with
  | some value => .ok value
  | none => .error "no JSON text"

end Json

end Abac
