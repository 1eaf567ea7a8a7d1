import Abac.Json.Basic
import Abac.Text.Basic

/-!
Conditions: comparisons joined by `and` and `or` into a tree of any depth.
-/

namespace Abac

inductive Operator where
  | eq | neq | gt | lt | gte | lte
  /-- A name that is none of the six. A comparison with it never holds. -/
  | unknown (name : String)
  deriving DecidableEq, Inhabited

namespace Operator

def name : Operator → String
  | eq => "eq"
  | neq => "neq"
  | gt => "gt"
  | lt => "lt"
  | gte => "gte"
  | lte => "lte"
  | unknown name => name

def ofName (name : String) : Operator :=
  if name = "eq" then eq
  else if name = "neq" then neq
  else if name = "gt" then gt
  else if name = "lt" then lt
  else if name = "gte" then gte
  else if name = "lte" then lte
  else unknown name

def isKnown : Operator → Bool
  | unknown _ => false
  | _ => true

theorem isKnown_iff {op : Operator} :
    op.isKnown = true ↔ op ∈ [.eq, .neq, .gt, .lt, .gte, .lte] := by
  cases op <;> simp [isKnown]

end Operator

inductive Join where
  | and | or
  deriving DecidableEq, Inhabited

def Join.name : Join → String
  | and => "and"
  | or => "or"

def Join.ofName? (name : String) : Option Join :=
  if name = "and" then some .and else if name = "or" then some .or else none

/-- A comparison of the value at the path `left` with `right`, which is a path or a literal. -/
structure Comparison where
  left : String
  op : Operator
  right : Json
  deriving Inhabited

def subjectPath : String := "subject."

def resourcePath : String := "resource."

/-- Does a text read as a path, given whether there is a resource to lead into? -/
def isPath (hasResource : Bool) (text : String) : Bool :=
  Text.startsWith subjectPath text || (hasResource && Text.startsWith resourcePath text)

theorem isPath_iff {hasResource : Bool} {text : String} :
    isPath hasResource text = true ↔ Text.startsWith subjectPath text = true ∨
      hasResource = true ∧ Text.startsWith resourcePath text = true := by
  simp [isPath]

/-- The right operand, if it is a path and not a literal. -/
def Comparison.rightPath? (comparison : Comparison) (hasResource : Bool) : Option String :=
  match comparison.right with
  | .string text => if isPath hasResource text then some text else none
  | _ => none

theorem Comparison.rightPath?_eq_some_iff {comparison : Comparison} {hasResource : Bool}
    {path : String} :
    comparison.rightPath? hasResource = some path ↔
      comparison.right = .string path ∧ isPath hasResource path = true := by
  unfold rightPath?
  split
  · next text hright =>
    rw [hright]
    by_cases hpath : isPath hasResource text = true
    · simp only [hpath, if_true, Option.some.injEq, Json.string.injEq]
      constructor
      · rintro rfl
        exact ⟨rfl, hpath⟩
      · exact And.left
    · rw [if_neg hpath]
      constructor
      · intro hnone
        cases hnone
      · rintro ⟨hsame, hother⟩
        cases hsame
        exact absurd hother hpath
  · next hright =>
    constructor
    · intro hnone
      cases hnone
    · rintro ⟨hsame, -⟩
      exact absurd hsame (hright path)

inductive Condition where
  | group (join : Join) (conditions : List Condition)
  | leaf (comparison : Comparison)
  deriving Inhabited

namespace Condition

mutual

/-- The number of levels: one for a comparison and for an empty group. -/
def depth : Condition → Nat
  | leaf _ => 1
  | group _ conditions => depthAll conditions + 1

def depthAll : List Condition → Nat
  | [] => 0
  | condition :: rest => max (depth condition) (depthAll rest)

end

mutual

/-- The number of parts, the condition itself among them. -/
def size : Condition → Nat
  | leaf _ => 1
  | group _ conditions => sizeAll conditions + 1

def sizeAll : List Condition → Nat
  | [] => 0
  | condition :: rest => size condition + sizeAll rest

end

/-- The parts that a walk has still to visit, each with its level, the next one in front. -/
abbrev Stack := List (Condition × Nat)

namespace Stack

/-- Puts the members of a group on a stack, one after the other, so that the last is in front. -/
def push (level : Nat) (conditions : List Condition) (stack : Stack) : Stack :=
  (conditions.map fun condition => (condition, level)).reverse ++ stack

/-- The number of visits that a walk may still make. -/
def size : Stack → Nat
  | [] => 0
  | (condition, _) :: stack => condition.size + size stack

private theorem size_push (level : Nat) (conditions : List Condition) (stack : Stack) :
    size (push level conditions stack) = sizeAll conditions + size stack := by
  induction conditions generalizing stack with
  | nil => simp [push, sizeAll]
  | cons condition rest ih =>
    have hfirst : push level (condition :: rest) stack =
        push level rest ((condition, level) :: stack) := by
      simp [push]
    rw [hfirst, ih, sizeAll, size]
    omega

/-- The deepest level that a walk meets when it visits everything below a stack. -/
def deepest (found : Nat) : Stack → Nat
  | [] => found
  | (leaf _, level) :: stack => deepest (max found level) stack
  | (group _ conditions, level) :: stack =>
    deepest (max found level) (push (level + 1) conditions stack)
termination_by stack => stack.size
decreasing_by
  · simp [size, Condition.size]
  · simp [size, size_push, Condition.size]

/-- Is something below a stack on a level beyond the bound? The walk ends with the first part that
is. -/
def exceeds (bound : Nat) : Stack → Bool
  | [] => false
  | (condition, level) :: stack =>
    if bound < level then true
    else
      match condition with
      | leaf _ => exceeds bound stack
      | group _ conditions => exceeds bound (push (level + 1) conditions stack)
termination_by stack => stack.size
decreasing_by
  · simp [size, Condition.size]
  · simp [size, size_push, Condition.size]

end Stack

/-- The number of levels as a walk through all parts finds it. -/
def levels (condition : Condition) : Nat := Stack.deepest 0 [(condition, 1)]

/-- Does a walk meet a part on a level beyond the bound? -/
def exceeds (bound : Nat) (condition : Condition) : Bool := Stack.exceeds bound [(condition, 1)]

mutual

/-- The comparisons from left to right, each with the way to it: an index for every group. -/
def leaves : Condition → List (List Nat × Comparison)
  | leaf comparison => [([], comparison)]
  | group _ conditions => leavesFrom 0 conditions

def leavesFrom : Nat → List Condition → List (List Nat × Comparison)
  | _, [] => []
  | index, condition :: rest =>
    (leaves condition).map (fun (way, comparison) => (index :: way, comparison)) ++
      leavesFrom (index + 1) rest

end

/-- The part that a way leads to. -/
def follow? : List Nat → Condition → Option Condition
  | [], condition => some condition
  | index :: way, group _ conditions => (conditions[index]?).bind (follow? way)
  | _ :: _, leaf _ => none

/-- The written form of a way. -/
def location (way : List Nat) : String :=
  way.foldl (fun text index => text ++ ".conditions[" ++ toString index ++ "]") "$"

/-- The written place of a member of a group, from the place of the group. -/
def memberPlace (place : String) (index : Nat) : String :=
  place ++ ".conditions[" ++ toString index ++ "]"

/-- The parts that a walk in the order of the document has still to visit, each with its written
place, the next one in front. -/
abbrev Agenda := List (Condition × String)

namespace Agenda

/-- Puts the members of a group on an agenda one after the other, beginning with the last, so that
the first is in front. -/
def push (place : String) (conditions : List Condition) (agenda : Agenda) : Agenda :=
  conditions.zipIdx.reverse.foldl
    (fun agenda (condition, index) => (condition, memberPlace place index) :: agenda) agenda

/-- The number of visits that a walk may still make. -/
def size : Agenda → Nat
  | [] => 0
  | (condition, _) :: agenda => condition.size + size agenda

/-- The members stand in front, in their order. -/
theorem push_eq (place : String) (conditions : List Condition) (agenda : Agenda) :
    push place conditions agenda =
      (conditions.zipIdx.map fun (condition, index) => (condition, memberPlace place index)) ++
        agenda := by
  rw [push, List.foldl_reverse]
  induction conditions.zipIdx with
  | nil => rfl
  | cons member rest ih => rw [List.foldr_cons, ih, List.map_cons, List.cons_append]

private theorem size_push (place : String) (conditions : List Condition) (agenda : Agenda) :
    size (push place conditions agenda) = sizeAll conditions + size agenda := by
  have hmembers : ∀ first, size ((conditions.zipIdx first).map (fun (condition, index) =>
      (condition, memberPlace place index)) ++ agenda) = sizeAll conditions + size agenda := by
    induction conditions with
    | nil => simp [sizeAll]
    | cons condition rest ih =>
      intro first
      rw [List.zipIdx_cons, List.map_cons, List.cons_append, size, ih, sizeAll]
      omega
  rw [push_eq, hmembers]

/-- The comparisons that a walk meets when it visits everything below an agenda, each with its
written place. -/
def comparisons : Agenda → List (String × Comparison)
  | [] => []
  | (leaf comparison, place) :: agenda => (place, comparison) :: comparisons agenda
  | (group _ conditions, place) :: agenda => comparisons (push place conditions agenda)
termination_by agenda => agenda.size
decreasing_by
  · simp [size, Condition.size]
  · simp [size, size_push, Condition.size]

end Agenda

/-- The comparisons with their written places, as a walk through all parts meets them. -/
def comparisons (condition : Condition) : List (String × Comparison) :=
  Agenda.comparisons [(condition, "$")]

mutual

/-- Structural equality; literals are equal as JSON values are. -/
def equal : Condition → Condition → Bool
  | leaf a, leaf b => a.left = b.left && (a.op = b.op && a.right.equal b.right)
  | group join as, group join' bs => join = join' && equalAll as bs
  | _, _ => false

def equalAll : List Condition → List Condition → Bool
  | [], [] => true
  | a :: as, b :: bs => equal a b && equalAll as bs
  | _, _ => false

end

end Condition

end Abac
