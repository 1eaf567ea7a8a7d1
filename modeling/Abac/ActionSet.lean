import Abac.Fault
import Abac.Json.Basic
import Abac.Text.Basic

/-!
The actions that decisions are about: names in their order, none blank and none twice.
-/

namespace Abac

structure ActionSet where
  names : List String
  nodup : names.Nodup
  named : ∀ name ∈ names, Text.allBlank name = false

namespace ActionSet

inductive Flaw where
  | blank
  | repeated (name : String)
  deriving DecidableEq, Inhabited

def Flaw.reason : Flaw → String
  | blank => "action names must not be empty"
  | repeated name => "duplicate action '" ++ name ++ "' in action set"

/-- The first flaw of a list of names that follows other names. -/
def flaw? (seen : List String) : List String → Option Flaw
  | [] => none
  | name :: rest =>
    if Text.allBlank name then some .blank
    else if name ∈ seen then some (.repeated name)
    else flaw? (name :: seen) rest

theorem sound_of_flaw?_eq_none {seen names : List String} (h : flaw? seen names = none) :
    names.Nodup ∧ (∀ name ∈ names, name ∉ seen) ∧
      ∀ name ∈ names, Text.allBlank name = false := by
  induction names generalizing seen with
  | nil => simp
  | cons name rest ih =>
    simp only [flaw?] at h
    split at h
    · cases h
    · next hblank =>
      split at h
      · cases h
      · next hseen =>
        obtain ⟨hnodup, hfresh, hnamed⟩ := ih h
        refine ⟨List.nodup_cons.2 ⟨fun hmem => hfresh name hmem List.mem_cons_self, hnodup⟩,
          fun other hother => ?_, fun other hother => ?_⟩
        · rcases List.mem_cons.1 hother with rfl | hother
          · exact hseen
          · exact fun hmem => hfresh other hother (List.mem_cons_of_mem _ hmem)
        · rcases List.mem_cons.1 hother with rfl | hother
          · simpa using hblank
          · exact hnamed other hother

theorem flaw?_eq_none {seen names : List String} (hnodup : names.Nodup)
    (hfresh : ∀ name ∈ names, name ∉ seen)
    (hnamed : ∀ name ∈ names, Text.allBlank name = false) : flaw? seen names = none := by
  induction names generalizing seen with
  | nil => rfl
  | cons name rest ih =>
    obtain ⟨hnew, hrest⟩ := List.nodup_cons.1 hnodup
    obtain ⟨hname, hnames⟩ := List.forall_mem_cons.1 hnamed
    have hseen := hfresh name List.mem_cons_self
    have hlater : ∀ other ∈ rest, other ∉ name :: seen := by
      intro other hother hmem
      rcases List.mem_cons.1 hmem with rfl | hmem
      · exact hnew hother
      · exact hfresh other (List.mem_cons_of_mem _ hother) hmem
    simp only [flaw?, hname, Bool.false_eq_true, if_false, if_neg hseen]
    exact ih hrest hlater hnames

def ofNames (names : List String) : Except Flaw ActionSet :=
  match h : flaw? [] names with
  | none => .ok ⟨names, (sound_of_flaw?_eq_none h).1, (sound_of_flaw?_eq_none h).2.2⟩
  | some flaw => .error flaw

/-- The names of a set are accepted again. -/
theorem ofNames_names (actions : ActionSet) : ofNames actions.names = .ok actions := by
  have hnone : flaw? [] actions.names = none :=
    flaw?_eq_none actions.nodup (by simp) actions.named
  unfold ofNames
  split
  · rfl
  · next flaw hsome =>
    rw [hnone] at hsome
    cases hsome

def empty : ActionSet := ⟨[], List.nodup_nil, by simp⟩

instance : Inhabited ActionSet := ⟨empty⟩

def contains (actions : ActionSet) (name : String) : Bool := actions.names.contains name

/-- The configured name that equals the given one. -/
def get? (actions : ActionSet) (name : String) : Option String := actions.names.find? (· == name)

theorem get?_eq_some_of_mem (actions : ActionSet) {name : String} (hmem : name ∈ actions.names) :
    actions.get? name = some name := by
  cases hfound : actions.get? name with
  | none =>
    have hmissing := List.find?_eq_none.1 hfound name hmem
    simp at hmissing
  | some other =>
    have hsame := List.find?_some hfound
    rw [eq_of_beq hsame]

def size (actions : ActionSet) : Nat := actions.names.length

def isEmpty (actions : ActionSet) : Bool := actions.names.isEmpty

def toJson (actions : ActionSet) : Json := .array (actions.names.map .string)

end ActionSet

end Abac
