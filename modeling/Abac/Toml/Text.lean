import Abac.Json.Reader

/-!
The texts of TOML: blanks, comments, line ends and the four kinds of strings.
-/

namespace Abac.Toml

def isSpace (c : Char) : Bool := c = ' ' || c = '\t'

def skipSpaces (chars : List Char) : List Char := chars.dropWhile isSpace

/-- The characters of comments: all but the controls other than the tab. -/
def isPrintable (c : Char) : Bool := c = '\t' || (32 ≤ c.toNat && c.toNat ≠ 127)

/-- What follows the end of a line. The end of the text ends a line too. -/
def lineEnd? : List Char → Option (List Char)
  | [] => some []
  | '\n' :: rest => some rest
  | '\r' :: '\n' :: rest => some rest
  | _ => none

/-- What follows the rest of a line on which nothing but blanks and a comment stands. -/
def restOfLine? (chars : List Char) : Option (List Char) :=
  match skipSpaces chars with
  | '#' :: rest => lineEnd? (rest.dropWhile isPrintable)
  | rest => lineEnd? rest

/-- Skips blanks, line ends and comments. -/
def skipGap? : Bool → List Char → Option (List Char)
  | _, [] => some []
  | _, '\r' :: '\n' :: rest => skipGap? false rest
  | inComment, c :: rest =>
    if c = '\n' then skipGap? false rest
    else if inComment then (if isPrintable c then skipGap? true rest else none)
    else if isSpace c then skipGap? false rest
    else if c = '#' then skipGap? true rest
    else some (c :: rest)

/-- The character of a code point, unless it is a surrogate or out of range. -/
def scalar? (code : Nat) : Option Char :=
  if code < 0xD800 ∨ (0xE000 ≤ code ∧ code < 0x110000) then some (Char.ofNat code) else none

def codePoint? (digits : List Char) : Option Char := do
  let digits ← digits.mapM Text.hexValue?
  scalar? (digits.foldl (fun code digit => code * 16 + digit) 0)

def unescape? : Char → Option Char
  | 'b' => some (Char.ofNat 8)
  | 't' => some '\t'
  | 'n' => some '\n'
  | 'f' => some (Char.ofNat 12)
  | 'r' => some '\r'
  | '"' => some '"'
  | '\\' => some '\\'
  | _ => none

/-- A string is read up to its closing mark, and with it come the characters behind the mark. -/
abbrev ReadText := Option (List Char × List Char)

def ReadText.push (c : Char) (read : ReadText) : ReadText :=
  read.map fun (chars, rest) => (c :: chars, rest)

/-- A string between quotes on one line. -/
def readBasic : List Char → ReadText
  | [] => none
  | '"' :: rest => some ([], rest)
  | '\\' :: 'u' :: a :: b :: c :: d :: rest =>
    (codePoint? [a, b, c, d]).bind fun code => (readBasic rest).push code
  | '\\' :: 'U' :: a :: b :: c :: d :: e :: f :: g :: h :: rest =>
    (codePoint? [a, b, c, d, e, f, g, h]).bind fun code => (readBasic rest).push code
  | '\\' :: c :: rest => (unescape? c).bind fun c => (readBasic rest).push c
  | c :: rest => if isPrintable c then (readBasic rest).push c else none

/-- A string between apostrophes on one line, in which nothing is escaped. -/
def readLiteral : List Char → ReadText
  | [] => none
  | '\'' :: rest => some ([], rest)
  | c :: rest => if isPrintable c then (readLiteral rest).push c else none

/-- Where a string over several lines is read: in its text, behind a backslash at the end of a
line, or in the blank beginning of the line after. -/
inductive Place where
  | text | fold | margin
  deriving DecidableEq

/-- A string between triple quotes. Up to two quotes may stand before the closing ones. -/
def readMultiline : Place → List Char → ReadText
  | _, [] => none
  | place, '\r' :: '\n' :: rest =>
    if place = .text then (readMultiline .text rest).push '\n' else readMultiline .margin rest
  | .fold, c :: rest =>
    if isSpace c then readMultiline .fold rest
    else if c = '\n' then readMultiline .margin rest
    else none
  | .margin, ' ' :: rest => readMultiline .margin rest
  | .margin, '\t' :: rest => readMultiline .margin rest
  | .margin, '\n' :: rest => readMultiline .margin rest
  | _, '"' :: '"' :: '"' :: '"' :: '"' :: rest => some (['"', '"'], rest)
  | _, '"' :: '"' :: '"' :: '"' :: rest => some (['"'], rest)
  | _, '"' :: '"' :: '"' :: rest => some ([], rest)
  | _, '\\' :: 'u' :: a :: b :: c :: d :: rest =>
    (codePoint? [a, b, c, d]).bind fun code => (readMultiline .text rest).push code
  | _, '\\' :: 'U' :: a :: b :: c :: d :: e :: f :: g :: h :: rest =>
    (codePoint? [a, b, c, d, e, f, g, h]).bind fun code => (readMultiline .text rest).push code
  | _, '\\' :: '\n' :: rest => readMultiline .margin rest
  | _, '\\' :: '\r' :: '\n' :: rest => readMultiline .margin rest
  | _, '\\' :: c :: rest =>
    if isSpace c then readMultiline .fold rest
    else (unescape? c).bind fun c => (readMultiline .text rest).push c
  | _, c :: rest =>
    if c = '\n' || isPrintable c then (readMultiline .text rest).push c else none

/-- A string between triple apostrophes. Up to two may stand before the closing ones. -/
def readMultilineLiteral : List Char → ReadText
  | [] => none
  | '\r' :: '\n' :: rest => (readMultilineLiteral rest).push '\n'
  | '\'' :: '\'' :: '\'' :: '\'' :: '\'' :: rest => some (['\'', '\''], rest)
  | '\'' :: '\'' :: '\'' :: '\'' :: rest => some (['\''], rest)
  | '\'' :: '\'' :: '\'' :: rest => some ([], rest)
  | c :: rest => if c = '\n' || isPrintable c then (readMultilineLiteral rest).push c else none

/-- A line end directly behind opening triple marks does not count. -/
def skipFirstLineEnd : List Char → List Char
  | '\n' :: rest => rest
  | '\r' :: '\n' :: rest => rest
  | rest => rest

/-- A string of any kind. -/
def readString? : List Char → Option (String × List Char)
  | '"' :: '"' :: '"' :: rest => done (readMultiline .text (skipFirstLineEnd rest))
  | '"' :: rest => done (readBasic rest)
  | '\'' :: '\'' :: '\'' :: rest => done (readMultilineLiteral (skipFirstLineEnd rest))
  | '\'' :: rest => done (readLiteral rest)
  | _ => none
where
  done (read : ReadText) : Option (String × List Char) :=
    read.map fun (chars, rest) => (String.ofList chars, rest)

end Abac.Toml
