import Abac.Command.Arguments
import Abac.Diagnostic.Sink
import Abac.Policy.Document
import Abac.Validation.Validator

/-!
What the commands do: `check` answers one request by the policies of a file, `validate` checks all
policies of a file. Files are given by what they hold; one that cannot be read holds nothing. What
texts hold and what schemas check is up to libraries, of which this one has its own. The log goes to
the standard output as well, and lets through warnings and errors, as it does by default.
-/

namespace Abac

/-- A part of what a command writes to the standard output. -/
inductive Output where
  | line (text : String)
  /-- An entry of the log about a diagnostic. -/
  | entry (entry : LogEntry)
  /-- An entry of the log about a validation. -/
  | trace (trace : Trace)
  deriving DecidableEq, Inhabited

/-- What a command writes, and how it ends. -/
structure Conclusion where
  outputs : List Output
  result : Except Fault Nat

namespace Conclusion

/-- The lines that a command prints, without its log. -/
def lines (conclusion : Conclusion) : List String :=
  conclusion.outputs.filterMap fun
    | .line text => some text
    | _ => none

/-- The exit code: the one of the result, or one for a fault. -/
def code (conclusion : Conclusion) : Nat :=
  match conclusion.result with
  | .ok code => code
  | .error _ => 1

/-- What is printed about a fault. -/
def complaint? (conclusion : Conclusion) : Option String :=
  match conclusion.result with
  | .ok _ => none
  | .error fault => some ("warrant-demo error: " ++ fault.message)

def ofExcept : Except Fault Conclusion → Conclusion
  | .ok conclusion => conclusion
  | .error fault => ⟨[], .error fault⟩

end Conclusion

namespace Command

/-- The exit codes of a decision. -/
def allowed : Nat := 0

def denied : Nat := 2

/-- The exit code of policies that are not valid. -/
def invalid : Nat := 1

/-- The code of arguments that are no command. -/
def misused : Nat := 2

abbrev FileTexts := String → Option String

/-- What a command leaves to others. Those who cannot read a text or compile a schema say why. -/
structure Libraries where
  /-- The time of recording, as the clock writes it. -/
  now : String
  /-- The value that a JSON text holds. -/
  parseJson : String → Except String Json
  /-- The table that a TOML text holds. -/
  parseToml : String → Except String Toml.Table
  /-- The check of values that a schema document describes. -/
  compileSchema : Json → Except String Schema.Check

/-- The readers and the compiler of this library. Its clock stands still. -/
def ownLibraries : Libraries where
  now := ""
  parseJson := Json.ofText
  parseToml := Toml.Table.ofText
  compileSchema := Schema.compile

def loadPolicies (libraries : Libraries) (files : FileTexts) (path : String) :
    Except Fault Configuration :=
  match files path with
  | some text => Configuration.loadBy libraries.parseToml text
  | none => .error (.config ("failed to read policy file '" ++ path ++ "': no such text"))

/-- The JSON value of an argument or of the file that an option names. -/
def readJson (libraries : Libraries) (option text : String) : Except Fault Json :=
  match libraries.parseJson text with
  | .ok value => .ok value
  | .error reason => .error (.config (option ++ " is not valid JSON: " ++ reason))

def loadValidator (libraries : Libraries) (files : FileTexts) (maxDepth : Nat) (path : String) :
    Except Fault Validator :=
  match files path with
  | some text => do
    let document ← readJson libraries "--context-schema" text
    Validator.withSchemaBy libraries.compileSchema maxDepth document
  | none => .error (.config ("failed to read context schema '" ++ path ++ "': no such text"))

def readTarget (libraries : Libraries) : CheckTarget → Except Fault Target
  | .resource text => do
    let value ← readJson libraries "--resource" text
    match Resource.ofJson? value with
    | some resource => return .ofResource resource
    | none => throw Resource.notAResource
  | .type name => return .kind name

/-- What a check decides once all that its options name has been read. -/
structure Question where
  config : Configuration
  validator? : Option Validator
  subject : Json
  action : String
  target : Target

def readQuestion (libraries : Libraries) (files : FileTexts) (options : CheckOptions) :
    Except Fault Question := do
  let config ← loadPolicies libraries files options.policies
  let subject ← readJson libraries "--subject" options.subject
  let target ← readTarget libraries options.target
  let validator? ← options.schema?.mapM (loadValidator libraries files config.maxDepth)
  return ⟨config, validator?, subject, options.action, target⟩

/-- The sink of a check, which logs each diagnostic and keeps it in a journal. -/
def sink : Sink := .fan [.log, .journal 0]

/-- The records of a check before anything is reported: a journal without events. -/
def noRecords : Records := Records.empty.addJournal.2

namespace Question

/-- The collaborators of a check: the policies, behind a screen if there is a validator, and the
sink. -/
def collaborators (now : String) (question : Question) : Collaborators (StateM Records) :=
  let plain : Collaborators (StateM Records) := {
    lookup := fun request => return .done (question.config.lookup request)
    evaluate := fun condition context =>
      return evaluator question.config.maxDepth condition context
    record := fun diagnostic => modify fun records => sink.record now diagnostic records }
  match question.validator? with
  | some validator => plain.screened validator
  | none => plain

def request (question : Question) : Request :=
  ⟨question.target.type, question.action, question.target.isItem⟩

/-- The conditions that apply to a question. -/
def conditions (question : Question) : List Condition := question.config.lookup question.request

/-- What is written when the context of a resource violates the schema of contexts: the traces of
the violations, and a warning. The check of the context has to come to an end. -/
def warnings? (question : Question) : Option (List Output) :=
  match question.validator?, question.target with
  | some validator, .item _ (.ok resource) => do
    let breaches ← validator.contextBreaches? ⟨question.subject, some resource⟩
    let report := Report.ofBreaches breaches
    if report.passed then
      return []
    else
      return (breaches.filterMap Breach.trace?).map .trace ++
        [.line ("warning: context does not match schema: " ++ report.summary)]
  | _, _ => some []

/-- The traces of screening the conditions, if there is a validator. -/
def screenTraces (question : Question) : List Trace :=
  question.validator?.elim [] fun validator =>
    validator.screenTraces question.request question.conditions

/-- The fault of a question about an action that is not configured. -/
def unknownAction (question : Question) : Fault :=
  .config ("unknown action '" ++ question.action ++ "'; configured actions: " ++
    ", ".intercalate question.config.actions.names)

end Question

def diagnosticLine (event : Event) : String :=
  "  diagnostic #" ++ toString event.sequence ++ ": " ++ event.diagnostic.text

/-- Decides a question. -/
def Question.answer? (now : String) (question : Question) : Option Conclusion := do
  let warnings ← question.warnings?
  match (question.collaborators now).check? question.config.actions (.ok question.subject)
      question.action question.target with
  | none => return ⟨warnings, .error question.unknownAction⟩
  | some decision =>
    let (granted, records) := decision.run noRecords
    let verdict := if granted then "ALLOW" else "DENY"
    return ⟨warnings ++ question.screenTraces.map .trace ++ records.log.map .entry ++
      (verdict :: (records.journal 0).events.map diagnosticLine).map .line,
      .ok (if granted then allowed else denied)⟩

/-- Runs a check, which has no conclusion when it does not come to an end. -/
def runCheck (libraries : Libraries) (files : FileTexts) (options : CheckOptions) :
    Option Conclusion :=
  match readQuestion libraries files options with
  | .ok question => question.answer? libraries.now
  | .error fault => some ⟨[], .error fault⟩

def runValidate (libraries : Libraries) (files : FileTexts) (policies : String)
    (schema? : Option String) : Conclusion :=
  Conclusion.ofExcept do
    let config ← loadPolicies libraries files policies
    let validator ← match schema? with
      | some path => loadValidator libraries files config.maxDepth path
      | none => pure (Validator.plain config.maxDepth)
    let report := validator.checkEntitlements config.entitlements
    let traces := (validator.entitlementTraces config.entitlements).map .trace
    if report.passed then
      return ⟨traces ++ [.line ("OK: " ++ toString config.policyCount ++ " policies in " ++
        toString config.entitlements.length ++ " entitlements are valid")], .ok allowed⟩
    else
      return ⟨traces ++ .line ("FAILED: " ++ toString report.failures.length ++
        " problems found") :: report.failures.map (fun failure =>
          .line ("  [" ++ failure.rule ++ "] " ++ failure.message)), .ok invalid⟩

def runBy (libraries : Libraries) (files : FileTexts) : Command → Option Conclusion
  | check options => runCheck libraries files options
  | validate policies schema? => some (runValidate libraries files policies schema?)

def run : FileTexts → Command → Option Conclusion := runBy ownLibraries

end Command

end Abac
