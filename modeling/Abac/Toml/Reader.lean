import Abac.Toml.Scalar

/-!
Reading TOML text: keys, values, and the lines of a document.
-/

namespace Abac.Toml

def isBareKeyChar (c : Char) : Bool := c.isAlphanum || c = '_' || c = '-'

/-- One part of a key: bare, or a string on one line. -/
def simpleKey? : List Char → Option (String × List Char)
  | '"' :: rest => readString?.done (readBasic rest)
  | '\'' :: rest => readString?.done (readLiteral rest)
  | chars =>
    match chars.span isBareKeyChar with
    | ([], _) => none
    | (key, rest) => some (String.ofList key, rest)

/-- The parts of a key between its dots. -/
def keyParts? : Nat → List Char → Option (List String × List Char)
  | 0, _ => none
  | steps + 1, chars => do
    let (part, rest) ← simpleKey? (skipSpaces chars)
    match skipSpaces rest with
    | '.' :: rest =>
      let (parts, rest) ← keyParts? steps rest
      return (part :: parts, rest)
    | rest => return ([part], rest)

/-- Keys have fewer than eighty parts, and containers nest fewer than eighty levels. -/
def partLimit : Nat := 79

/-- A key: the path before its last dot, and the last part. -/
def key? (chars : List Char) : Option (List String × String × List Char) := do
  let (parts, rest) ← keyParts? partLimit chars
  return (parts.dropLast, ← parts.getLast?, rest)

mutual

/-- Reads a value. The first number bounds the steps, the second the levels of containers. -/
def value? : Nat → Nat → List Char → Option (Value × List Char)
  | 0, _, _ => none
  | steps + 1, levels, chars =>
    match chars with
    | '[' :: rest =>
      if levels = 0 then
        none
      else do
        let (items, rest) ← items? steps (levels - 1) rest
        return (.array false items, rest)
    | '{' :: rest =>
      if levels = 0 then
        none
      else
        match skipSpaces rest with
        | '}' :: rest => some (.table .inline [], rest)
        | rest => do
          let (entries, rest) ← entries? steps (levels - 1) rest
          return (← inlineTable? entries, rest)
    | '"' :: _ => text? chars
    | '\'' :: _ => text? chars
    | _ => scalarValue? chars
where
  text? (chars : List Char) : Option (Value × List Char) := do
    let (text, rest) ← readString? chars
    return (.string text, rest)

/-- The items of an array up to its end. A comma may stand behind the last item. -/
def items? : Nat → Nat → List Char → Option (List Value × List Char)
  | 0, _, _ => none
  | steps + 1, levels, chars => do
    match ← skipGap? false chars with
    | ']' :: rest => return ([], rest)
    | chars =>
      let (item, rest) ← value? steps levels chars
      match ← skipGap? false rest with
      | ']' :: rest => return ([item], rest)
      | ',' :: rest =>
        let (items, rest) ← items? steps levels rest
        return (item :: items, rest)
      | _ => none

/-- The entries of an inline table up to its end, on one line and without a comma at the end. -/
def entries? : Nat → Nat → List Char → Option (List Entry × List Char)
  | 0, _, _ => none
  | steps + 1, levels, chars => do
    let (path, key, rest) ← key? chars
    let rest ← mark? '=' rest
    let (value, rest) ← value? steps levels (skipSpaces rest)
    match skipSpaces rest with
    | '}' :: rest => return ([⟨path, key, value⟩], rest)
    | ',' :: rest =>
      let (entries, rest) ← entries? steps levels rest
      return (⟨path, key, value⟩ :: entries, rest)
    | _ => none

end

/-- The lines of a document. The number bounds the steps. -/
def lines? : Nat → List Char → Option (List Line)
  | 0, _ => none
  | steps + 1, chars =>
    match skipSpaces chars with
    | [] => some []
    | '[' :: '[' :: rest => do
      let (path, key, rest) ← key? rest
      let rest ← restOfLine? (← mark? ']' (← mark? ']' rest))
      return .row path key :: (← lines? steps rest)
    | '[' :: rest => do
      let (path, key, rest) ← key? rest
      let rest ← restOfLine? (← mark? ']' rest)
      return .table path key :: (← lines? steps rest)
    | c :: rest =>
      if c = '\n' ∨ c = '\r' ∨ c = '#' then do
        lines? steps (← restOfLine? (c :: rest))
      else do
        let (path, key, rest) ← key? (c :: rest)
        let (value, rest) ← value? (rest.length + 1) partLimit (skipSpaces (← mark? '=' rest))
        return .entry ⟨path, key, value⟩ :: (← lines? steps (← restOfLine? rest))

/-- A byte order mark at the front of a text does not count. -/
def skipMark : List Char → List Char
  | c :: rest => if c.toNat = 0xFEFF then rest else c :: rest
  | [] => []

/-- The table that a text describes. -/
def Table.ofText? (text : String) : Option Table := do
  document? (← lines? (text.toList.length + 1) (skipMark text.toList))

/-- The table that a text describes, or why it describes none. -/
def Table.ofText (text : String) : Except String Table :=
  match Table.ofText? text with
  | some table => .ok table
  | none => .error "not a TOML document"

end Abac.Toml
