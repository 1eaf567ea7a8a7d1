import Abac.Diagnostic.Journal

/-!
Sinks take diagnostics: a journal keeps them, the log writes them, and a fan passes each on to
several sinks, one after the other. Journals are shared: two sinks may name the same one.
-/

namespace Abac

inductive Sink where
  | journal (index : Nat)
  | log
  | fan (sinks : List Sink)
  deriving Inhabited

structure LogEntry where
  level : Level
  message : String
  resourceType : String
  action : String
  error? : Option String
  deriving DecidableEq, Inhabited

def Diagnostic.logEntry (diagnostic : Diagnostic) : LogEntry :=
  ⟨diagnostic.level, diagnostic.logText, diagnostic.resourceType, diagnostic.action,
    diagnostic.error?⟩

/-- What the sinks have taken. -/
structure Records where
  journals : List Journal
  log : List LogEntry
  deriving DecidableEq, Inhabited

namespace Records

def empty : Records := ⟨[], []⟩

/-- Adds an empty journal, whose sink is the answer. -/
def addJournal (records : Records) : Sink × Records :=
  (.journal records.journals.length, { records with journals := records.journals ++ [.empty] })

def journal (records : Records) (index : Nat) : Journal :=
  (records.journals[index]?).getD .empty

def clear (records : Records) (index : Nat) : Records :=
  { records with journals := records.journals.modify index Journal.clear }

end Records

namespace Sink

/-- The parts of a sink that take diagnostics themselves, in the order in which they do. -/
inductive Leaf where
  | journal (index : Nat)
  | log
  deriving DecidableEq, Inhabited

mutual

def leaves : Sink → List Leaf
  | journal index => [.journal index]
  | log => [.log]
  | fan sinks => leavesOf sinks

def leavesOf : List Sink → List Leaf
  | [] => []
  | sink :: rest => leaves sink ++ leavesOf rest

end

def Leaf.record (time : String) (diagnostic : Diagnostic) (records : Records) : Leaf → Records
  | journal index =>
    { records with
      journals := records.journals.modify index fun journal => journal.record time diagnostic }
  | log => { records with log := records.log ++ [diagnostic.logEntry] }

mutual

def record (time : String) (diagnostic : Diagnostic) (records : Records) : Sink → Records
  | journal index => Leaf.record time diagnostic records (.journal index)
  | log => Leaf.record time diagnostic records .log
  | fan sinks => recordAll time diagnostic records sinks

def recordAll (time : String) (diagnostic : Diagnostic) (records : Records) : List Sink → Records
  | [] => records
  | sink :: rest => recordAll time diagnostic (record time diagnostic records sink) rest

end

end Sink

end Abac
