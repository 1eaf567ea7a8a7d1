import Abac.Text.Basic

/-!
Uniform resource identifiers. A text is read into five parts, of which only the path is always
there; one without a scheme is a reference that a base completes. What a base completes is put
into normal form, so that two identifiers of one resource are equal.
-/

namespace Abac

/-- An identifier, or a reference to one. -/
structure Uri where
  scheme? : Option (List Char)
  authority? : Option (List Char)
  path : List Char
  query? : Option (List Char)
  fragment? : Option (List Char)
  deriving DecidableEq, Inhabited

namespace Uri

def isUnreserved (c : Char) : Bool :=
  c.isAlphanum || c = '-' || c = '.' || c = '_' || c = '~'

def isDelimiter (c : Char) : Bool :=
  ['!', '$', '&', '\'', '(', ')', '*', '+', ',', ';', '='].contains c

/-- The characters of names of hosts. -/
def isNameChar (c : Char) : Bool := isUnreserved c || isDelimiter c

def isPathChar (c : Char) : Bool := isNameChar c || c = ':' || c = '@' || c = '/'

/-- The characters of queries and fragments. -/
def isQueryChar (c : Char) : Bool := isPathChar c || c = '?'

/-- Has a text only allowed characters, and percent signs only before two hexadecimal digits? -/
def isEncoded (allowed : Char → Bool) : List Char → Bool
  | [] => true
  | '%' :: a :: b :: rest => Text.isHexDigit a && Text.isHexDigit b && isEncoded allowed rest
  | c :: rest => allowed c && isEncoded allowed rest

/-- The bytes of a text in which a percent sign and two hexadecimal digits stand for a byte. -/
def bytes : List Char → List UInt8
  | '%' :: a :: b :: rest =>
    match Text.hexValue? a, Text.hexValue? b with
    | some a, some b => UInt8.ofNat (a * 16 + b) :: bytes rest
    | _, _ => String.utf8EncodeChar '%' ++ bytes (a :: b :: rest)
  | c :: rest => String.utf8EncodeChar c ++ bytes rest
  | [] => []

/-- A text with its bytes decoded, unless they are no text. -/
def decode? (chars : List Char) : Option (List Char) :=
  if chars.contains '%' then
    (String.fromUTF8? ⟨(bytes chars).toArray⟩).map String.toList
  else
    some chars

/-- The normal form of the escapes in a text: unreserved characters stand for themselves, and the
digits of other escapes are capital. -/
def normalizeEscapes : List Char → List Char
  | '%' :: a :: b :: rest =>
    match Text.hexValue? a, Text.hexValue? b with
    | some x, some y =>
      let c := Char.ofNat (x * 16 + y)
      if isUnreserved c then
        c :: normalizeEscapes rest
      else
        '%' :: a.toUpper :: b.toUpper :: normalizeEscapes rest
    | _, _ => '%' :: normalizeEscapes (a :: b :: rest)
  | c :: rest => c :: normalizeEscapes rest
  | [] => []

/-- The parts of a text before and after the first place where a mark stands. -/
def cut (mark : Char) (chars : List Char) : List Char × Option (List Char) :=
  match chars.span (· ≠ mark) with
  | (before, _ :: after) => (before, some after)
  | (before, []) => (before, none)

def isScheme : List Char → Bool
  | [] => false
  | c :: rest => c.isAlpha && rest.all fun c => c.isAlphanum || c = '+' || c = '-' || c = '.'

def isNumber (chars : List Char) : Bool := chars.all Char.isDigit

/-- Is a text the name or the bracketed address of a host, perhaps with a number behind a colon? -/
def isHost : List Char → Bool
  | '[' :: rest =>
    match cut ']' rest with
    | (address, some rest) =>
      !address.isEmpty && address.all (fun c => Text.isHexDigit c || c = ':' || c = '.') &&
        (match rest with
          | [] => true
          | mark :: number => mark = ':' && isNumber number)
    | (_, none) => false
  | chars =>
    let (name, number?) := cut ':' chars
    isEncoded isNameChar name && number?.all isNumber

/-- Is a text a host, perhaps behind a user and an at sign? -/
def isAuthority (chars : List Char) : Bool :=
  match cut '@' chars with
  | (user, some host) => isEncoded (fun c => isNameChar c || c = ':') user && isHost host
  | (host, none) => isHost host

def isWellFormed (uri : Uri) : Bool :=
  uri.scheme?.all isScheme && uri.authority?.all isAuthority && isEncoded isPathChar uri.path &&
    uri.query?.all (isEncoded isQueryChar) && uri.fragment?.all (isEncoded isQueryChar)

/-- The identifier or reference that a text is. -/
def ofChars? (chars : List Char) : Option Uri :=
  let (rest, fragment?) := cut '#' chars
  let (rest, query?) := cut '?' rest
  let (scheme?, rest) := match cut ':' rest with
    | (head, some tail) => if head.contains '/' then (none, rest) else (some head, tail)
    | (_, none) => (none, rest)
  let (authority?, path) := match rest with
    | '/' :: '/' :: rest =>
      let (authority, path) := rest.span (· ≠ '/')
      (some authority, path)
    | rest => (none, rest)
  let uri : Uri := ⟨scheme?, authority?, path, query?, fragment?⟩
  if uri.isWellFormed then some uri else none

/-- The segments of a path without the dots among them: one dot stays where it is, two lead back.
The number of segments kept so far grows at the front. -/
def withoutDots : List (List Char) → List (List Char) → List (List Char)
  | kept, [] => kept.reverse
  | kept, [['.']] => ([] :: kept).reverse
  | kept, [['.', '.']] => ([] :: kept.tail).reverse
  | kept, ['.'] :: rest => withoutDots kept rest
  | kept, ['.', '.'] :: rest => withoutDots kept.tail rest
  | kept, segment :: rest => withoutDots (segment :: kept) rest

/-- The normal form of a path. Dots count only in a path that begins with a slash. -/
def normalizePath (path : List Char) : List Char :=
  match normalizeEscapes path with
  | '/' :: rest => '/' :: Text.join '/' (withoutDots [] (Text.split '/' rest))
  | path => path

def lower (chars : List Char) : List Char := chars.map Char.toLower

/-- The normal form of a host: small letters, and no colon without a number. -/
def normalizeHost (host : List Char) : List Char :=
  let host := normalizeEscapes (lower (normalizeEscapes host))
  if host.getLast? = some ':' then host.dropLast else host

def normalizeAuthority (authority : List Char) : List Char :=
  match cut '@' authority with
  | (user, some host) => normalizeEscapes user ++ '@' :: normalizeHost host
  | (host, none) => normalizeHost host

def normalize (uri : Uri) : Uri where
  scheme? := uri.scheme?.map lower
  authority? := uri.authority?.map normalizeAuthority
  path := normalizePath uri.path
  query? := uri.query?.map normalizeEscapes
  fragment? := uri.fragment?.map normalizeEscapes

/-- Does a base name no place in a hierarchy, so that only fragments can be added to it? -/
def isOpaque (uri : Uri) : Bool := uri.authority?.isNone && uri.path.head? ≠ some '/'

/-- The path of a reference, taken from the directory of the base. -/
def mergePaths (base : Uri) (path : List Char) : List Char :=
  if base.authority?.isSome && base.path.isEmpty then
    '/' :: path
  else
    (base.path.reverse.dropWhile (· ≠ '/')).reverse ++ path

/-- The reference that a base completes, in normal form. -/
def complete (base reference : Uri) : Uri :=
  if reference.scheme?.isSome then
    reference.normalize
  else if reference.authority?.isSome then
    { reference with scheme? := base.scheme? }.normalize
  else if reference.path.isEmpty then
    { base with
      query? := reference.query?.or base.query?
      fragment? := reference.fragment? }.normalize
  else
    let path :=
      if reference.path.head? = some '/' then reference.path else base.mergePaths reference.path
    { base with path, query? := reference.query?, fragment? := reference.fragment? }.normalize

/-- Resolves a reference. A base must not have a fragment, and one that names no place in a
hierarchy resolves only identifiers and fragments. -/
def resolve? (base : Uri) (chars : List Char) : Option Uri := do
  let reference ← ofChars? chars
  if base.fragment?.isSome then
    none
  else if base.isOpaque && reference.scheme?.isNone &&
      !(chars.isEmpty || chars.head? = some '#') then
    none
  else
    return base.complete reference

def withoutFragment (uri : Uri) : Uri := { uri with fragment? := none }

end Uri

end Abac
