import Abac.Json.Basic

/-!
The text of a JSON value: no blanks, fields in the order of their keys, and in strings only the
quote, the backslash and the control characters below the blank escaped.
-/

namespace Abac

def Number.chars : Number → List Char
  | .int value =>
    if value < 0 then '-' :: Decimal.digitChars value.natAbs else Decimal.digitChars value.natAbs
  | .real value => value.toText

namespace Json

def hexDigits (value : Nat) : List Char := Nat.toDigits 16 value

def escape (c : Char) : List Char :=
  if c = '"' then ['\\', '"']
  else if c = '\\' then ['\\', '\\']
  else if c = '\n' then ['\\', 'n']
  else if c = '\r' then ['\\', 'r']
  else if c = '\t' then ['\\', 't']
  else if c.toNat = 8 then ['\\', 'b']
  else if c.toNat = 12 then ['\\', 'f']
  else if c.toNat < 16 then '\\' :: 'u' :: '0' :: '0' :: '0' :: hexDigits c.toNat
  else if c.toNat < 32 then '\\' :: 'u' :: '0' :: '0' :: hexDigits c.toNat
  else [c]

def quoted (text : List Char) : List Char := '"' :: (text.flatMap escape ++ ['"'])

mutual

def chars : Json → List Char
  | null => ['n', 'u', 'l', 'l']
  | bool true => ['t', 'r', 'u', 'e']
  | bool false => ['f', 'a', 'l', 's', 'e']
  | number value => value.chars
  | string value => quoted value.toList
  | array [] => ['[', ']']
  | array (item :: rest) => '[' :: (chars item ++ itemsChars rest)
  | object [] => ['{', '}']
  | object ((key, value) :: rest) =>
    '{' :: (quoted key.toList ++ ':' :: (chars value ++ fieldsChars rest))

/-- The items after the first, each behind a comma, and the closing bracket. -/
def itemsChars : List Json → List Char
  | [] => [']']
  | item :: rest => ',' :: (chars item ++ itemsChars rest)

/-- The fields after the first, each behind a comma, and the closing brace. -/
def fieldsChars : Fields → List Char
  | [] => ['}']
  | (key, value) :: rest => ',' :: (quoted key.toList ++ ':' :: (chars value ++ fieldsChars rest))

end

def text (value : Json) : String := String.ofList value.chars

end Json

end Abac
