import Abac.Pattern.Basic
import Abac.Number.Decimal
import Abac.Text.Basic

/-!
Reading regular expressions. A reader of a part takes the text from where the part begins and
answers with the part and the rest. Nothing may be left over, nothing may be repeated that is not
there, and only characters that need an escape or have one may stand behind a backslash.
-/

namespace Abac

namespace Pattern

/-- How the characters of an expression are to be understood. -/
structure Mode where
  caseless : Bool := false
  /-- The edges of lines count as the edges of the text do. -/
  lines : Bool := false
  /-- A point stands for the ends of lines too. -/
  point : Bool := false
  deriving DecidableEq, Inhabited

def Mode.set (mode : Mode) (value : Bool) : Char → Option Mode
  | 'i' => some { mode with caseless := value }
  | 'm' => some { mode with lines := value }
  | 's' => some { mode with point := value }
  | 'u' => some mode
  | 'U' => some mode
  | _ => none

/-- Sets modes by their letters; those behind a minus sign are switched off. -/
def Mode.setAll (mode : Mode) (value : Bool) : List Char → Option Mode
  | [] => some mode
  | ['-'] => none
  | '-' :: rest => if value then Mode.setAll mode false rest else none
  | c :: rest => do Mode.setAll (← mode.set value c) value rest

def ofClass (mode : Mode) (characters : CharClass) : Pattern :=
  .char (if mode.caseless then .caseless characters else characters)

/-- What an escape stands for. -/
inductive Escape where
  | char (c : Char)
  | characters (characters : CharClass)
  | edge (condition : Edge)

def codePoint? (digits : List Char) : Option Char := do
  if digits.isEmpty then
    none
  else
    let digits ← digits.mapM Text.hexValue?
    let code := digits.foldl (fun code digit => code * 16 + digit) 0
    if h : code.isValidChar then some (Char.ofNatAux code h) else none

/-- A code point in hexadecimal digits: so many of them, or any number in braces. -/
def readCodePoint (count : Nat) (chars : List Char) : Option (Char × List Char) :=
  match chars with
  | '{' :: rest =>
    match rest.span (· ≠ '}') with
    | (digits, _ :: rest) => (codePoint? digits).map fun c => (c, rest)
    | _ => none
  | chars =>
    if count ≤ chars.length then
      (codePoint? (chars.take count)).map fun c => (c, chars.drop count)
    else
      none

/-- What stands behind a backslash. -/
def readEscape : List Char → Option (Escape × List Char)
  | 'd' :: rest => some (.characters .digit, rest)
  | 'D' :: rest => some (.characters (.complement .digit), rest)
  | 'w' :: rest => some (.characters .word, rest)
  | 'W' :: rest => some (.characters (.complement .word), rest)
  | 's' :: rest => some (.characters .space, rest)
  | 'S' :: rest => some (.characters (.complement .space), rest)
  | 'b' :: rest => some (.edge (.word true), rest)
  | 'B' :: rest => some (.edge (.word false), rest)
  | 'A' :: rest => some (.edge .textStart, rest)
  | 'z' :: rest => some (.edge .textEnd, rest)
  | 'a' :: rest => some (.char (Char.ofNat 7), rest)
  | 'f' :: rest => some (.char (Char.ofNat 12), rest)
  | 't' :: rest => some (.char '\t', rest)
  | 'n' :: rest => some (.char '\n', rest)
  | 'r' :: rest => some (.char '\r', rest)
  | 'v' :: rest => some (.char (Char.ofNat 11), rest)
  | 'x' :: rest => (readCodePoint 2 rest).map fun (c, rest) => (.char c, rest)
  | 'u' :: rest => (readCodePoint 4 rest).map fun (c, rest) => (.char c, rest)
  | 'U' :: rest => (readCodePoint 8 rest).map fun (c, rest) => (.char c, rest)
  | 'c' :: letter :: rest =>
    if letter.isAlpha then some (.char (Char.ofNat (letter.toUpper.toNat - 64)), rest) else none
  | c :: rest =>
    if c.toNat < 128 && !c.isAlphanum && c != '<' && c != '>' then some (.char c, rest) else none
  | [] => none

/-- The classes with a name between colons. -/
def namedClasses : List (String × CharClass) := [
  ("alnum", .ofRanges [('0', '9'), ('A', 'Z'), ('a', 'z')]),
  ("alpha", .ofRanges [('A', 'Z'), ('a', 'z')]), ("ascii", .range (Char.ofNat 0) (Char.ofNat 127)),
  ("blank", .ofRanges [('\t', '\t'), (' ', ' ')]),
  ("cntrl", .ofRanges [(Char.ofNat 0, Char.ofNat 31), (Char.ofNat 127, Char.ofNat 127)]),
  ("digit", .digit), ("graph", .range '!' '~'), ("lower", .range 'a' 'z'),
  ("print", .range ' ' '~'),
  ("punct", .ofRanges [('!', '/'), (':', '@'), ('[', Char.ofNat 96), ('\x7b', '~')]),
  ("space", .ofRanges [('\t', '\r'), (' ', ' ')]), ("upper", .range 'A' 'Z'), ("word", .word),
  ("xdigit", .ofRanges [('0', '9'), ('A', 'F'), ('a', 'f')])]

/-- A class by its name, perhaps behind a caret, up to a colon and a bracket. -/
def readNamedClass (chars : List Char) : Option (CharClass × List Char) :=
  let (negated, chars) := match chars with
    | '^' :: rest => (true, rest)
    | rest => (false, rest)
  match chars.span Char.isAlpha with
  | (name, ':' :: ']' :: rest) =>
    (namedClasses.lookup (String.ofList name)).map fun found =>
      (if negated then .complement found else found, rest)
  | _ => none

/-- A character of a class in brackets, or a class by its escape. -/
def readMember : List Char → Option (Escape × List Char)
  | '\\' :: rest =>
    match readEscape rest with
    | some (.edge _, _) => none
    | found => found
  | c :: rest => some (.char c, rest)
  | [] => none

/-- A member of a class, which may be the first end of a range. -/
def readRange (chars : List Char) : Option (CharClass × List Char) := do
  let (first, rest) ← readMember chars
  match first, rest with
  | .char low, '-' :: next :: rest =>
    if next = ']' ∨ next = '-' then
      return (.single low, '-' :: next :: rest)
    else
      match ← readMember (next :: rest) with
      | (.char high, rest) => if low ≤ high then return (.range low high, rest) else none
      | _ => none
  | .char c, rest => return (.single c, rest)
  | .characters found, '-' :: next :: rest =>
    if next = ']' ∨ next = '-' then return (found, '-' :: next :: rest) else none
  | .characters found, rest => return (found, rest)
  | .edge _, _ => none

/-- How a part of a class is combined with what stands before it. -/
inductive Operation where
  | union | both | difference | symmetric

def Operation.apply : Operation → CharClass → CharClass → CharClass
  | union => .union
  | both => .both
  | difference => .difference
  | symmetric => .symmetricDifference

mutual

/-- A class behind its opening bracket. At its beginning a closing bracket stands for itself, and so
do minus signs. -/
def readClass : Nat → List Char → Option (CharClass × List Char)
  | 0, _ => none
  | steps + 1, chars => do
    let (negated, chars) := match chars with
      | '^' :: rest => (true, rest)
      | rest => (false, rest)
    let (minuses, chars) := chars.span (· = '-')
    let start : CharClass := if minuses.isEmpty then .none else .single '-'
    let (start, chars) := match minuses, chars with
      | [], ']' :: rest => (CharClass.single ']', rest)
      | _, rest => (start, rest)
    let (found, rest) ← readMembers steps .union .none start chars
    return (if negated then .complement found else found, rest)

/-- The members of a class up to its closing bracket. The first class is what stands before the last
operation, the second what stands behind it so far. -/
def readMembers : Nat → Operation → CharClass → CharClass → List Char →
    Option (CharClass × List Char)
  | 0, _, _, _, _ => none
  | steps + 1, operation, before, found, chars =>
    match chars with
    | ']' :: rest => some (operation.apply before found, rest)
    | '&' :: '&' :: rest => readMembers steps .both (operation.apply before found) .none rest
    | '-' :: '-' :: rest => readMembers steps .difference (operation.apply before found) .none rest
    | '~' :: '~' :: rest => readMembers steps .symmetric (operation.apply before found) .none rest
    | '[' :: ':' :: rest => do
      let (inner, rest) ← (readNamedClass rest).or (readClass steps (':' :: rest))
      readMembers steps operation before (.union found inner) rest
    | '[' :: rest => do
      let (inner, rest) ← readClass steps rest
      readMembers steps operation before (.union found inner) rest
    | chars => do
      let (inner, rest) ← readRange chars
      readMembers steps operation before (.union found inner) rest

end

/-- The number of repetitions in braces: one number, or two of which the second may be missing. -/
def readCount (chars : List Char) : Option ((Nat × Option Nat) × List Char) :=
  match Decimal.spanDigits chars with
  | ([], _) => none
  | (least, '}' :: rest) =>
    let least := Decimal.ofDigitChars least
    some ((least, some least), rest)
  | (least, ',' :: '}' :: rest) => some ((Decimal.ofDigitChars least, none), rest)
  | (least, ',' :: rest) =>
    match Decimal.spanDigits rest with
    | (most, '}' :: rest) =>
      let least := Decimal.ofDigitChars least
      let most := Decimal.ofDigitChars most
      if least ≤ most then some ((least, some most), rest) else none
    | _ => none
  | _ => none

/-- The repetitions behind a part. A question mark behind one does not change what it matches. -/
def readRepetitions : Nat → Pattern → List Char → Option (Pattern × List Char)
  | 0, _, _ => none
  | steps + 1, body, chars =>
    let again := fun (least : Nat) (most? : Option Nat) rest =>
      let rest := match rest with
        | '?' :: rest => rest
        | rest => rest
      readRepetitions steps (.repeated least most? body) rest
    match chars with
    | '*' :: rest => again 0 none rest
    | '+' :: rest => again 1 none rest
    | '?' :: rest => again 0 (some 1) rest
    | '{' :: rest => do
      let ((least, most?), rest) ← readCount rest
      again least most? rest
    | rest => some (body, rest)

def isGroupName (name : List Char) : Bool :=
  match name with
  | [] => false
  | c :: rest => (c.isAlpha || c = '_') &&
      rest.all fun c => c.isAlphanum || c = '_' || c = '.' || c = '[' || c = ']'

/-- What follows the name of a group. -/
def afterGroupName? (chars : List Char) : Option (List Char) :=
  match chars.span (· ≠ '>') with
  | (name, _ :: rest) => if isGroupName name then some rest else none
  | _ => none

/-- What opens a group, behind its bracket. -/
inductive Opening where
  | group (mode : Mode)
  | look (ahead wanted : Bool)
  /-- Letters of modes for the rest of the group around them. -/
  | modes (mode : Mode)

def readOpening (mode : Mode) : List Char → Option (Opening × List Char)
  | '?' :: '=' :: rest => some (.look true true, rest)
  | '?' :: '!' :: rest => some (.look true false, rest)
  | '?' :: '<' :: '=' :: rest => some (.look false true, rest)
  | '?' :: '<' :: '!' :: rest => some (.look false false, rest)
  | '?' :: '<' :: rest => (afterGroupName? rest).map fun rest => (.group mode, rest)
  | '?' :: 'P' :: '<' :: rest => (afterGroupName? rest).map fun rest => (.group mode, rest)
  | '?' :: rest =>
    match rest.span fun c => c ≠ ':' ∧ c ≠ ')' with
    | (letters, ':' :: rest) => (mode.setAll true letters).map fun mode => (.group mode, rest)
    | ([], _) => none
    | (letters, ')' :: rest) => (mode.setAll true letters).map fun mode => (.modes mode, rest)
    | _ => none
  | rest => some (.group mode, rest)

/-- A part without brackets. -/
def readSimple (mode : Mode) : List Char → Option (Pattern × List Char)
  | '.' :: rest => some (.char (if mode.point then .any else .anyInLine), rest)
  | '^' :: rest => some (.edge (if mode.lines then .lineStart else .textStart), rest)
  | '$' :: rest => some (.edge (if mode.lines then .lineEnd else .textEnd), rest)
  | '\\' :: rest => do
    match ← readEscape rest with
    | (.char c, rest) => return (ofClass mode (.single c), rest)
    | (.characters found, rest) => return (ofClass mode found, rest)
    | (.edge condition, rest) => return (.edge condition, rest)
  | c :: rest =>
    if ['*', '+', '?', '{'].contains c then none else some (ofClass mode (.single c), rest)
  | [] => none

def afterBracket? : List Char → Option (List Char)
  | ')' :: rest => some rest
  | _ => none

mutual

/-- Alternatives up to a closing bracket or the end. -/
def readAlternatives : Nat → Mode → List Char → Option (Pattern × List Char)
  | 0, _, _ => none
  | steps + 1, mode, chars => do
    let (first, mode, rest) ← readSequence steps mode chars
    match rest with
    | '|' :: rest => do
      let (second, rest) ← readAlternatives steps mode rest
      return (.either first second, rest)
    | rest => return (first, rest)

/-- Parts one behind the other. The mode that holds at their end comes with them. -/
def readSequence : Nat → Mode → List Char → Option (Pattern × Mode × List Char)
  | 0, _, _ => none
  | steps + 1, mode, chars =>
    match chars with
    | [] => some (.empty, mode, [])
    | '|' :: rest => some (.empty, mode, '|' :: rest)
    | ')' :: rest => some (.empty, mode, ')' :: rest)
    | '(' :: rest => do
      match ← readOpening mode rest with
      | (.modes mode, rest) => readSequence steps mode rest
      | (.group inner, rest) =>
        let (body, rest) ← readAlternatives steps inner rest
        readRest steps mode body (← afterBracket? rest)
      | (.look ahead wanted, rest) =>
        let (body, rest) ← readAlternatives steps mode rest
        readRest steps mode (.look ahead wanted body) (← afterBracket? rest)
    | '[' :: rest => do
      let (found, rest) ← readClass steps rest
      readRest steps mode (ofClass mode found) rest
    | chars => do
      let (part, rest) ← readSimple mode chars
      readRest steps mode part rest

/-- The repetitions of a part, and the parts behind it. -/
def readRest : Nat → Mode → Pattern → List Char → Option (Pattern × Mode × List Char)
  | 0, _, _, _ => none
  | steps + 1, mode, part, chars => do
    let (part, rest) ← readRepetitions steps part chars
    let (others, mode, rest) ← readSequence steps mode rest
    return (.sequence part others, mode, rest)

end

/-- The expression that a text is. Three steps are taken for a character at most. -/
def ofText? (text : String) : Option Pattern :=
  match readAlternatives (3 * text.length + 3) {} text.toList with
  | some (pattern, []) => some pattern
  | _ => none

end Pattern

end Abac
