import Abac.Diagnostic.Basic
import Abac.Json.Reader

/-!
Journals keep diagnostics in the order in which they come and number them. Clearing a journal does
not start the numbers anew.
-/

namespace Abac

structure Event where
  sequence : Nat
  /-- The time of recording, as the clock of the recorder writes it. -/
  recordedAt : String
  diagnostic : Diagnostic
  deriving DecidableEq, Inhabited

namespace Event

/-- An event as it is written out, its fields in the order of their declaration. -/
def written (event : Event) : Json :=
  .object [("sequence", .ofNat event.sequence), ("recorded_at", .string event.recordedAt),
    ("diagnostic", .object event.diagnostic.fields)]

/-- The line of an event, without what ends it. -/
def line (event : Event) : List Char := event.written.chars

/-- An event from its parts. Times have a reader of their own. -/
def ofParts? (readTime? : String → Option String) (sequence recordedAt diagnostic : Json) :
    Option Event := do
  return ⟨← sequence.asNatural?, ← readTime? (← recordedAt.asString?),
    ← Diagnostic.ofJson? diagnostic⟩

/-- Reads the fields of an object, or the items of an array in the order number, time,
diagnostic. -/
def ofJson? (readTime? : String → Option String) : Json → Option Event
  | .object fields => do
    ofParts? readTime? (← fields.lookup "sequence") (← fields.lookup "recorded_at")
      (← fields.lookup "diagnostic")
  | .array [sequence, recordedAt, diagnostic] => ofParts? readTime? sequence recordedAt diagnostic
  | _ => none

/-- The event that a line holds. -/
def ofLine? (readTime? : String → Option String) (line : List Char) : Option Event := do
  ofJson? readTime? (← Json.ofChars? Json.nestingLimit line)

end Event

structure Journal where
  events : List Event
  /-- The number of the next event, which is the number of events recorded so far. -/
  next : Nat
  deriving DecidableEq, Inhabited

namespace Journal

def empty : Journal := ⟨[], 0⟩

def record (time : String) (journal : Journal) (diagnostic : Diagnostic) : Journal :=
  ⟨journal.events ++ [⟨journal.next, time, diagnostic⟩], journal.next + 1⟩

def clear (journal : Journal) : Journal := { journal with events := [] }

def size (journal : Journal) : Nat := journal.events.length

def isEmpty (journal : Journal) : Bool := journal.events.isEmpty

def diagnostics (journal : Journal) : List Diagnostic := journal.events.map (·.diagnostic)

def count (journal : Journal) (matching : Diagnostic → Bool) : Nat :=
  journal.diagnostics.countP matching

/-- One line of JSON for every event, each line ended. There is no event that cannot be written. -/
def exportChars (journal : Journal) : List Char :=
  journal.events.flatMap fun event => event.line ++ ['\n']

def exportLines (journal : Journal) : String := String.ofList journal.exportChars

end Journal

end Abac
