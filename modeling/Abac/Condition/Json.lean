import Abac.Condition.Basic

/-!
Conditions as JSON. An object or array with the parts of a group is a group; with the parts of a
comparison it is a comparison; with both it is the group, unless its group parts do not read.
-/

namespace Abac

/-- The format that a document was written in. -/
inductive Format where
  | json | toml
  deriving DecidableEq, Inhabited

/-- A join is its name, or an object whose only key is the name, with null. TOML has no null, so
there a join is always its name. -/
def Join.ofJson? : Format → Json → Option Join
  | _, .string name => Join.ofName? name
  | .json, .object [(name, .null)] => Join.ofName? name
  | _, _ => none

namespace Comparison

def ofParts? (left op : Option Json) (right : Option Json) : Option Comparison := do
  let left ← (← left).asString?
  let op ← (← op).asString?
  return ⟨left, .ofName op, ← right⟩

def toJson (comparison : Comparison) : Json :=
  .object [("left", .string comparison.left), ("op", .string comparison.op.name),
    ("right", comparison.right)]

end Comparison

namespace Condition

mutual

def toJson : Condition → Json
  | leaf comparison => comparison.toJson
  | group join conditions =>
    .object [("conditions", .array (toJsonAll conditions)), ("join", .string join.name)]

def toJsonAll : List Condition → List Json
  | [] => []
  | condition :: rest => toJson condition :: toJsonAll rest

end

mutual

def ofJson? (format : Format) : Json → Option Condition
  | .object fields =>
    match (fields.lookup "join").bind (Join.ofJson? format), ofField? format fields with
    | some join, some conditions => some (group join conditions)
    | _, _ =>
      (Comparison.ofParts? (fields.lookup "left") (fields.lookup "op")
        (fields.lookup "right")).map leaf
  | .array [join, .array conditions] =>
    match Join.ofJson? format join, ofJsonAll? format conditions with
    | some join, some conditions => some (group join conditions)
    | _, _ => none
  | .array [left, op, right] => (Comparison.ofParts? (some left) (some op) (some right)).map leaf
  | _ => none

/-- The members of a group, from its fields. -/
def ofField? (format : Format) : Fields → Option (List Condition)
  | [] => none
  | (key, value) :: rest =>
    if key = "conditions" then
      match value with
      | .array conditions => ofJsonAll? format conditions
      | _ => none
    else
      ofField? format rest

def ofJsonAll? (format : Format) : List Json → Option (List Condition)
  | [] => some []
  | item :: rest =>
    match ofJson? format item, ofJsonAll? format rest with
    | some condition, some conditions => some (condition :: conditions)
    | _, _ => none

end

end Condition

end Abac
