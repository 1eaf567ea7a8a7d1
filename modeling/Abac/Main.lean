import Abac.Command.Run

/-!
The command line: reads the files that a command names, runs it, and prints what it says.
-/

namespace Abac.Command

/-- What a file holds, if it can be read. -/
def readFile? (path : String) : IO (Option String) := do
  try
    return some (← IO.FS.readFile path)
  catch _ =>
    return none

def usage : String :=
  "usage: check --policies FILE --action NAME --subject JSON (--resource JSON | " ++
    "--resource-type NAME) [--context-schema FILE]\n" ++
  "       validate --policies FILE [--context-schema FILE]"

/-- The exit code of a run that is given up because it does not come to an end. -/
def aborted : Nat := 134

/-- An entry of the log on one line, without its time. -/
def entryText (entry : LogEntry) : String :=
  entry.level.name ++ " " ++ entry.message ++ " resource_type=" ++ entry.resourceType ++
    " action=" ++ entry.action ++ (entry.error?.elim "" (" error=" ++ ·))

def traceText (trace : Trace) : String :=
  "WARN " ++ trace.text ++
    String.join (trace.fields.map fun (name, value) => " " ++ name ++ "=" ++ value)

def outputText : Output → String
  | .line text => text
  | .entry entry => entryText entry
  | .trace trace => traceText trace

end Abac.Command

open Abac in
def main (arguments : List String) : IO UInt32 := do
  match Command.ofArguments? arguments with
  | none =>
    IO.eprintln Command.usage
    return UInt32.ofNat Command.misused
  | some command =>
    let texts ← command.files.mapM fun path => do
      return (path, ← Command.readFile? path)
    match command.run fun path => (texts.lookup path).join with
    | none =>
      IO.eprintln "the check of the context does not come to an end"
      return UInt32.ofNat Command.aborted
    | some conclusion =>
      for output in conclusion.outputs do
        IO.println (Command.outputText output)
      if let some complaint := conclusion.complaint? then
        IO.eprintln complaint
      return UInt32.ofNat conclusion.code
