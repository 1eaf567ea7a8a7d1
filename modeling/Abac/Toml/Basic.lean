import Abac.Json.Basic

/-!
TOML values and the definition of tables. A table remembers how it came to be, because that decides
where it may still be extended: an inline table nowhere, a table under its header by no dotted key,
a table that was only named on the way to others once by a header of its own.
-/

namespace Abac.Toml

inductive Origin where
  /-- Written as a value. -/
  | inline
  /-- Under a header of its own. -/
  | header
  /-- Named in the header of a table inside it. -/
  | implied
  /-- Named in a dotted key. -/
  | dotted
  deriving DecidableEq, Inhabited

inductive Value where
  | string (text : String)
  | integer (value : Int)
  /-- Infinities and what is not a number have no value. -/
  | float (value? : Option Binary64)
  | boolean (value : Bool)
  | datetime (text : String)
  /-- An array that grows has its items under headers. -/
  | array (grows : Bool) (items : List Value)
  | table (origin : Origin) (fields : List (String × Value))
  deriving Inhabited

/-- The fields of a table, in the order in which they were defined. -/
abbrev Table := List (String × Value)

namespace Table

def replace (key : String) (value : Value) : Table → Table
  | [] => []
  | (key', value') :: rest =>
    if key = key' then (key, value) :: rest else (key', value') :: replace key value rest

/-- May a path of the given origin lead into a table? A dotted key must end in a table that dotted
keys have made, and must not lead into one that has a header. -/
def opens (way : Origin) (last : Bool) (found : Origin) : Bool :=
  match found with
  | .inline => false
  | .dotted => true
  | .header => way != .dotted
  | .implied => way != .dotted || !last

/-- Changes the table that a path leads to. Tables that are missing on the way are added; arrays
that grow are entered at their last item. -/
def within (way : Origin) (change : Table → Option Table) : List String → Table → Option Table
  | [], table => change table
  | key :: path, table =>
    match table.lookup key with
    | none => do
      let inner ← within way change path []
      return table ++ [(key, .table way inner)]
    | some (.table found inner) =>
      if opens way path.isEmpty found then do
        let inner ← within way change path inner
        return table.replace key (.table found inner)
      else
        none
    | some (.array true items) =>
      match items.getLast? with
      | some (.table found inner) =>
        if way = .dotted ∧ path.isEmpty then
          none
        else do
          let inner ← within way change path inner
          return table.replace key (.array true (items.dropLast ++ [.table found inner]))
      | _ => none
    | some _ => none

/-- Adds a field under a new key. -/
def define (key : String) (value : Value) (table : Table) : Option Table :=
  match table.lookup key with
  | none => some (table ++ [(key, value)])
  | some _ => none

/-- Begins the table of a header. -/
def openTable (key : String) (table : Table) : Option Table :=
  match table.lookup key with
  | none => some (table ++ [(key, .table .header [])])
  | some (.table .implied inner) => some (table.replace key (.table .header inner))
  | some _ => none

/-- Begins the next table of an array. -/
def openRow (key : String) (table : Table) : Option Table :=
  match table.lookup key with
  | none => some (table ++ [(key, .array true [.table .header []])])
  | some (.array true items) =>
    some (table.replace key (.array true (items ++ [.table .header []])))
  | some _ => none

end Table

/-- A key with its value; the path is what stands before the last dot of the key. -/
structure Entry where
  path : List String
  key : String
  value : Value
  deriving Inhabited

def Entry.add (entry : Entry) : Table → Option Table :=
  Table.within .dotted (Table.define entry.key entry.value) entry.path

/-- The table of the entries between two braces. -/
def inlineTable? (entries : List Entry) : Option Value := do
  return .table .inline (← entries.foldlM (fun table entry => entry.add table) [])

inductive Line where
  | entry (entry : Entry)
  | table (path : List String) (key : String)
  | row (path : List String) (key : String)
  deriving Inhabited

/-- The table of the headers and entries of a document. An entry belongs to the last header. -/
def document? (lines : List Line) : Option Table := do
  let step := fun (state : List String × Table) (line : Line) => do
    let (current, table) := state
    match line with
    | .entry entry => return (current, ← Table.within .implied entry.add current table)
    | .table path key =>
      return (path ++ [key], ← Table.within .implied (Table.openTable key) path table)
    | .row path key =>
      return (path ++ [key], ← Table.within .implied (Table.openRow key) path table)
  let (_, table) ← lines.foldlM step ([], [])
  return table

mutual

/-- A value in JSON. A float that is not finite becomes null, a date or time an object with its
text. -/
def Value.toJson : Value → Json
  | .string text => .string text
  | .integer value => .number (.int value)
  | .float (some value) => .number (.real value)
  | .float none => .null
  | .boolean value => .bool value
  | .datetime text => .object [("$__toml_private_datetime", .string text)]
  | .array _ items => .array (itemsToJson items)
  | .table _ fields => Json.ofFields (fieldsToJson fields)

def itemsToJson : List Value → List Json
  | [] => []
  | item :: rest => item.toJson :: itemsToJson rest

def fieldsToJson : List (String × Value) → Fields
  | [] => []
  | (key, value) :: rest => (key, value.toJson) :: fieldsToJson rest

end

end Abac.Toml
