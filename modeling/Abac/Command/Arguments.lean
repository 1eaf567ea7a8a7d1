import Abac.Text.Basic

/-!
The arguments of the command line: a command and its options, each option with a value behind it or
behind an equals sign, and none twice.
-/

namespace Abac

/-- What a check is about: a resource as JSON text, or a type of resources. -/
inductive CheckTarget where
  | resource (text : String)
  | type (name : String)
  deriving DecidableEq, Inhabited

structure CheckOptions where
  policies : String
  action : String
  subject : String
  target : CheckTarget
  /-- The file with the schema of contexts. -/
  schema? : Option String
  deriving DecidableEq, Inhabited

inductive Command where
  | check (options : CheckOptions)
  | validate (policies : String) (schema? : Option String)
  deriving DecidableEq, Inhabited

namespace Command

def checkOptions : List String :=
  ["--policies", "--action", "--subject", "--resource", "--resource-type", "--context-schema"]

def validateOptions : List String := ["--policies", "--context-schema"]

/-- Options whose value names a file, which cannot be empty. -/
def fileOptions : List String := ["--policies", "--context-schema"]

/-- An argument that begins with a dash is no value, unless the dash is all of it. -/
def isValue (argument : String) : Bool :=
  argument = "-" || !Text.startsWith "-" argument

/-- The option and the value on the two sides of the first equals sign, if there is one. -/
def splitOption (argument : String) : String × Option String :=
  match argument.toList.span (· ≠ '=') with
  | (_, []) => (argument, none)
  | (option, _ :: value) => (String.ofList option, some (String.ofList value))

/-- The values of the options in a list of arguments. Two dashes at the end count for nothing. -/
def options? (known : List String) : List String → Option (List (String × String))
  | [] => some []
  | ["--"] => some []
  | [argument] => do
    let (option, value?) := splitOption argument
    let value ← value?
    if option ∈ known then some [(option, value)] else none
  | argument :: next :: rest =>
    match splitOption argument with
    | (option, some value) => do
      let others ← options? known (next :: rest)
      if option ∈ known then some ((option, value) :: others) else none
    | (option, none) => do
      let others ← options? known rest
      if option ∈ known ∧ isValue next then some ((option, next) :: others) else none

/-- Does every option stand once, and does every file have a name? -/
def acceptable (options : List (String × String)) : Bool :=
  (options.map Prod.fst).eraseDups.length = options.length &&
    options.all fun (option, value) => !(fileOptions.contains option && value.isEmpty)

/-- The target of a check: either a resource or a type, and not both. -/
def target? (options : List (String × String)) : Option CheckTarget :=
  match options.lookup "--resource", options.lookup "--resource-type" with
  | some text, none => some (.resource text)
  | none, some name => some (.type name)
  | _, _ => none

/-- The command of a list of arguments. -/
def ofArguments? : List String → Option Command
  | "check" :: arguments => do
    let options ← options? checkOptions arguments
    if acceptable options then
      return .check {
        policies := ← options.lookup "--policies"
        action := ← options.lookup "--action"
        subject := ← options.lookup "--subject"
        target := ← target? options
        schema? := options.lookup "--context-schema" }
    else
      none
  | "validate" :: arguments => do
    let options ← options? validateOptions arguments
    if acceptable options then
      return .validate (← options.lookup "--policies") (options.lookup "--context-schema")
    else
      none
  | _ => none

/-- The files that a command reads. -/
def files : Command → List String
  | check options => options.policies :: options.schema?.toList
  | validate policies schema? => policies :: schema?.toList

end Command

end Abac
