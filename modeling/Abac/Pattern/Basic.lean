/-!
Regular expressions over texts. What an expression matches is given by the places where a match can
end; a text satisfies an expression when there is a match anywhere in it.
-/

namespace Abac

/-- A class of characters. -/
inductive CharClass where
  | none
  | range (low high : Char)
  | union (first second : CharClass)
  | both (first second : CharClass)
  | complement (inner : CharClass)
  /-- The characters of a class in either case. -/
  | caseless (inner : CharClass)
  deriving DecidableEq, Inhabited

namespace CharClass

def contains : CharClass → Char → Bool
  | none, _ => false
  | range low high, c => low ≤ c && c ≤ high
  | union first second, c => first.contains c || second.contains c
  | both first second, c => first.contains c && second.contains c
  | complement inner, c => !inner.contains c
  | caseless inner, c => inner.contains c.toLower || inner.contains c.toUpper

def single (c : Char) : CharClass := range c c

def ofRanges (ranges : List (Char × Char)) : CharClass :=
  ranges.foldl (fun found (low, high) => union found (range low high)) none

def difference (first second : CharClass) : CharClass := both first (complement second)

def symmetricDifference (first second : CharClass) : CharClass :=
  union (difference first second) (difference second first)

def any : CharClass := complement none

def anyInLine : CharClass := complement (single '\n')

def digit : CharClass := range '0' '9'

def word : CharClass := ofRanges [('A', 'Z'), ('a', 'z'), ('0', '9'), ('_', '_')]

def space : CharClass :=
  ofRanges [('\t', '\r'), (' ', ' '), ('\u2003', '\u2003'), ('\u2029', '\u2029'),
    ('\ufeff', '\ufeff')]

end CharClass

/-- A condition on a place in a text, between two characters or at an end. -/
inductive Edge where
  | textStart
  | textEnd
  | lineStart
  | lineEnd
  /-- Between a character of a word and one that is of none, or not so. -/
  | word (wanted : Bool)
  deriving DecidableEq, Inhabited

namespace Edge

def isWordAt (text : List Char) (place : Nat) : Bool :=
  (text[place]?).any CharClass.word.contains

def holds (text : List Char) (place : Nat) : Edge → Bool
  | textStart => place = 0
  | textEnd => place = text.length
  | lineStart => place = 0 || text[place - 1]? = some '\n'
  | lineEnd => place = text.length || text[place]? = some '\n'
  | word wanted =>
    let before := 0 < place && isWordAt text (place - 1)
    (before != isWordAt text place) = wanted

end Edge

inductive Pattern where
  | empty
  | char (characters : CharClass)
  | edge (condition : Edge)
  | sequence (first second : Pattern)
  | either (first second : Pattern)
  | repeated (least : Nat) (most? : Option Nat) (body : Pattern)
  /-- What stands ahead of or behind a place matches, or does not. -/
  | look (ahead wanted : Bool) (body : Pattern)
  deriving DecidableEq, Inhabited

namespace Pattern

/-- The places that so many rounds of steps reach from fresh places, and those reached before. -/
def reach (next : Nat → List Nat) : Nat → List Nat → List Nat → List Nat
  | 0, reached, _ => reached
  | rounds + 1, reached, fresh =>
    match (fresh.flatMap next).eraseDups.filter fun place => !reached.contains place with
    | [] => reached
    | fresh => reach next rounds (reached ++ fresh) fresh

/-- The places where a match that begins at a place can end, each once. No repetition reaches a new
place after more rounds than there are places. -/
def ends (text : List Char) : Pattern → Nat → List Nat
  | empty, place => [place]
  | char characters, place =>
    if (text[place]?).any characters.contains then [place + 1] else []
  | edge condition, place => if condition.holds text place then [place] else []
  | sequence first second, place =>
    ((ends text first place).flatMap (ends text second)).eraseDups
  | either first second, place => (ends text first place ++ ends text second place).eraseDups
  | repeated least most? body, place =>
    let start := least.repeat (fun places => (places.flatMap (ends text body)).eraseDups) [place]
    let rounds := match most? with
      | some most => min (most - least) (text.length + 1)
      | none => text.length + 1
    reach (ends text body) rounds start start
  | look ahead wanted body, place =>
    let found :=
      if ahead then
        !(ends text body place).isEmpty
      else
        (List.range (place + 1)).any fun start => (ends text body start).contains place
    if found = wanted then [place] else []

def occursIn (pattern : Pattern) (text : String) : Bool :=
  (List.range (text.length + 1)).any fun place => !(ends text.toList pattern place).isEmpty

end Pattern

end Abac
