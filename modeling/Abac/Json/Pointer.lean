import Abac.Json.Reader
import Abac.Text.Basic

/-!
Pointers into JSON values: reference tokens, each behind a slash, that lead through objects by key
and through arrays by index.
-/

namespace Abac

namespace Json

namespace Pointer

/-- In a token `~1` stands for a slash and `~0` for a tilde. -/
def decodeToken : List Char → List Char
  | '~' :: '1' :: rest => '/' :: decodeToken rest
  | '~' :: '0' :: rest => '~' :: decodeToken rest
  | c :: rest => c :: decodeToken rest
  | [] => []

def encodeToken (token : List Char) : List Char :=
  token.flatMap fun c => if c = '~' then ['~', '0'] else if c = '/' then ['~', '1'] else [c]

/-- The tokens of a pointer. The empty pointer has none; any other begins with a slash. -/
def tokens? : List Char → Option (List String)
  | [] => some []
  | '/' :: rest => some ((Text.split '/' rest).map fun token => String.ofList (decodeToken token))
  | _ => none

/-- An index is digits without a needless zero in front. -/
def index? (token : String) : Option Nat :=
  match token.toList with
  | [] => none
  | '0' :: _ :: _ => none
  | digits => if digits.all Char.isDigit then some (Decimal.ofDigitChars digits) else none

def step? : Json → String → Option Json
  | .object fields, token => fields.lookup token
  | .array items, token => (index? token).bind (items[·]?)
  | _, _ => none

/-- The text of a pointer. -/
def ofTokens (tokens : List String) : List Char :=
  tokens.flatMap fun token => '/' :: encodeToken token.toList

end Pointer

/-- The value that a pointer leads to. -/
def pointer? (root : Json) (pointer : List Char) : Option Json := do
  let tokens ← Pointer.tokens? pointer
  tokens.foldlM Pointer.step? root

end Json

end Abac
