import Mathlib.Data.List.Forall2
import Abac.Proofs.Condition.Parse
import Abac.Validation.Validator

/-!
The schema of conditions and the reader, side by side. Both take a document apart, but the schema
takes the branch that matches while the reader tries a group first and admits more spellings: a join
as a key with null, members as arrays. A document that matches the leaf branch can so be read as a
group. This is the only way in which the two differ, at any level.
-/

namespace Abac

/-- The condition that the schema saw in a document: the branch that matched says what it is. -/
inductive Json.Shaped : Json → Condition → Prop where
  | leaf {fields : Fields} {left op : String} {right : Json}
      (hbranch : (Json.object fields).matchesLeaf = true)
      (hleft : fields.lookup "left" = some (.string left))
      (hop : fields.lookup "op" = some (.string op))
      (hright : fields.lookup "right" = some right) :
      Shaped (.object fields) (.leaf ⟨left, .ofName op, right⟩)
  | group {fields : Fields} {join : Join} {items : List Json} {conditions : List Condition}
      (hbranch : (Json.object fields).matchesGroup = true)
      (hjoin : fields.lookup "join" = some (.string join.name))
      (hitems : fields.lookup "conditions" = some (.array items))
      (hmembers : List.Forall₂ Shaped items conditions) :
      Shaped (.object fields) (.group join conditions)

/-- Somewhere in a document, below group branches only, the leaf branch matches while a join and
members can be read. -/
inductive Json.DoublyRead : Json → Prop where
  | here {fields : Fields} {join : Join} {items : List Json}
      (hbranch : (Json.object fields).matchesLeaf = true)
      (hjoin : (fields.lookup "join").bind (Join.ofJson? .json) = some join)
      (hitems : fields.lookup "conditions" = some (.array items))
      (hread : ∀ item ∈ items, (Condition.ofJson? .json item).isSome = true) :
      DoublyRead (.object fields)
  | member {fields : Fields} {items : List Json} {item : Json}
      (hbranch : (Json.object fields).matchesGroup = true)
      (hitems : fields.lookup "conditions" = some (.array items))
      (hmem : item ∈ items) (hitem : DoublyRead item) :
      DoublyRead (.object fields)

namespace Validator

/-- Readings of members, each with its own agreement, make one reading of all. -/
theorem exists_readings {items : List Json}
    (hitems : ∀ item ∈ items, ∃ condition, Condition.ofJson? .json item = some condition ∧
      (item.Shaped condition ↔ ¬ item.DoublyRead)) :
    ∃ conditions, Condition.ofJsonAll? .json items = some conditions ∧
      (List.Forall₂ Json.Shaped items conditions ↔ ∀ item ∈ items, ¬ item.DoublyRead) := by
  induction items with
  | nil => exact ⟨[], rfl, by simp⟩
  | cons item rest ih =>
    rw [List.forall_mem_cons] at hitems
    obtain ⟨⟨condition, hcondition, hagrees⟩, hrest⟩ := hitems
    obtain ⟨conditions, hconditions, hagree⟩ := ih hrest
    refine ⟨condition :: conditions, ?_, ?_⟩
    · rw [Condition.ofJsonAll?, hcondition, hconditions]
    · rw [List.forall₂_cons, List.forall_mem_cons, hagrees, hagree]

/-- The part of a document that matched the group branch alone. -/
theorem exists_reading_of_group {fields : Fields} {join : Join} {items : List Json}
    {conditions : List Condition}
    (hgroup : (Json.object fields).matchesGroup = true)
    (hleaf : (Json.object fields).matchesLeaf = false)
    (hjoin : fields.lookup "join" = some (.string join.name))
    (hitems : fields.lookup "conditions" = some (.array items))
    (hread : Condition.ofJsonAll? .json items = some conditions)
    (hagree : List.Forall₂ Json.Shaped items conditions ↔ ∀ item ∈ items, ¬ item.DoublyRead) :
    Condition.ofJson? .json (.object fields) = some (.group join conditions) ∧
      ((Json.object fields).Shaped (.group join conditions) ↔
        ¬ (Json.object fields).DoublyRead) := by
  constructor
  · refine Condition.ofJson?_object_of_group ?_ ?_
    · rw [hjoin, Option.bind_some, Join.ofJson?_name]
    · rw [Condition.ofField?_eq, hitems]
      exact hread
  · constructor
    · intro hshaped hdouble
      cases hshaped with
      | group _ _ hitems' hmembers =>
        rw [hitems] at hitems'
        cases hitems'
        cases hdouble with
        | here hbranch => rw [hleaf] at hbranch; cases hbranch
        | member _ hitems' hmem hitem =>
          rw [hitems] at hitems'
          cases hitems'
          exact hagree.1 hmembers _ hmem hitem
    · intro hsingle
      refine .group hgroup hjoin hitems (hagree.2 fun item hmem hitem => ?_)
      exact hsingle (.member hgroup hitems hmem hitem)

/-- The part of a document that matched the leaf branch alone. -/
theorem exists_reading_of_leaf {fields : Fields} {left op : String} {right : Json}
    (hleaf : (Json.object fields).matchesLeaf = true)
    (hgroup : (Json.object fields).matchesGroup = false)
    (hleft : fields.lookup "left" = some (.string left))
    (hop : fields.lookup "op" = some (.string op))
    (hright : fields.lookup "right" = some right) :
    ∃ condition, Condition.ofJson? .json (.object fields) = some condition ∧
      ((Json.object fields).Shaped condition ↔ ¬ (Json.object fields).DoublyRead) := by
  by_cases hparts : ∃ join conditions,
      (fields.lookup "join").bind (Join.ofJson? .json) = some join ∧
        Condition.ofField? .json fields = some conditions
  · -- the reader takes the group, which is not what matched
    obtain ⟨join, conditions, hjoin, hmembers⟩ := hparts
    refine ⟨.group join conditions, Condition.ofJson?_object_of_group hjoin hmembers, ?_⟩
    refine iff_of_false ?_ ?_
    · intro hshaped
      cases hshaped with
      | group hbranch => rw [hgroup] at hbranch; cases hbranch
    · obtain ⟨items, hitems, hread⟩ := Condition.ofField?_eq_some_iff.1 hmembers
      refine not_not_intro (.here hleaf hjoin hitems ?_)
      exact Condition.isSome_ofJsonAll?_iff.1 (by rw [hread]; rfl)
  · refine ⟨.leaf ⟨left, .ofName op, right⟩, ?_, ?_⟩
    · rw [Condition.ofJson?_object_of_not_group hparts, hleft, hop, hright]
      rfl
    · refine iff_of_true (.leaf hleaf hleft hop hright) ?_
      intro hdouble
      cases hdouble with
      | @here _ join items _ hjoin hitems hread =>
        obtain ⟨conditions, hconditions⟩ :=
          Option.isSome_iff_exists.1 (Condition.isSome_ofJsonAll?_iff.2 hread)
        exact hparts ⟨join, conditions, hjoin,
          Condition.ofField?_eq_some_iff.2 ⟨items, hitems, hconditions⟩⟩
      | member hbranch => rw [hgroup] at hbranch; cases hbranch

/-- Every document that has the form is read as some condition, and that is the one the schema saw
unless the document is doubly read. The induction is on the height of the document. -/
theorem exists_reading (document : Json) (hform : document.hasForm = true) :
    ∃ condition, Condition.ofJson? .json document = some condition ∧
      (document.Shaped condition ↔ ¬ document.DoublyRead) := by
  rw [Json.hasForm_eq] at hform
  cases hgroup : document.matchesGroup with
  | true =>
    have hleaf : document.matchesLeaf = false := by simpa [hgroup] using hform
    obtain ⟨fields, hfields, ⟨join, hjoin⟩, items, hitems, hall⟩ :=
      (Json.matchesGroup_iff document).1 hgroup
    have hmembers : ∀ item ∈ items, ∃ condition, Condition.ofJson? .json item = some condition ∧
        (item.Shaped condition ↔ ¬ item.DoublyRead) := fun item hmem =>
      exists_reading item (hall item hmem)
    obtain ⟨conditions, hread, hagree⟩ := exists_readings hmembers
    subst hfields
    exact ⟨.group join conditions,
      exists_reading_of_group hgroup hleaf hjoin hitems hread hagree⟩
  | false =>
    have hleaf : document.matchesLeaf = true := by simpa [hgroup] using hform
    obtain ⟨fields, rfl, ⟨left, -, hleft⟩, ⟨op, hop⟩, right, hright⟩ :=
      (Json.matchesLeaf_iff document).1 hleaf
    exact exists_reading_of_leaf hleaf hgroup hleft hop hright
termination_by document.height
decreasing_by
  rw [hfields]
  exact Json.height_lt_of_lookup_array hitems hmem

/-- A document that passes the schema is read, and the rules are then checked on what was read. That
is the condition the schema saw in all documents but the doubly read ones, and in none of those. -/
theorem checkDocument_of_accepted (validator : Validator) (requiresResource : Bool)
    (document : Json) (haccepted : formBreaches document = []) :
    ∃ condition, Condition.ofJson? .json document = some condition ∧
      validator.checkDocument requiresResource document =
        validator.checkCondition requiresResource condition ∧
      (document.Shaped condition ↔ ¬ document.DoublyRead) := by
  obtain ⟨condition, hread, hagrees⟩ :=
    exists_reading document ((formBreaches_eq_nil_iff document).1 haccepted)
  refine ⟨condition, hread, ?_, hagrees⟩
  rw [checkDocument, haccepted]
  simp only [hread]

/-- A group of one comparison, written with the name of its join. -/
def plainDocument : Json :=
  .object [("conditions", .array [.object [("left", .string "subject.id"), ("op", .string "eq"),
    ("right", .null)]]), ("join", .string "or")]

/-- It is read as the group that the schema saw. -/
theorem checkDocument_of_plainDocument :
    formBreaches plainDocument = [] ∧ ∃ condition,
      Condition.ofJson? .json plainDocument = some condition ∧ plainDocument.Shaped condition := by
  have haccepted : formBreaches plainDocument = [] := (formBreaches_eq_nil_iff _).2 rfl
  obtain ⟨condition, hread, -, hagrees⟩ :=
    checkDocument_of_accepted (plain 32) false plainDocument haccepted
  refine ⟨haccepted, condition, hread, hagrees.2 fun hdouble => ?_⟩
  cases hdouble with
  | here hbranch => cases hbranch
  | member _ hitems hmem hitem =>
    cases hitems
    obtain rfl := List.mem_singleton.1 hmem
    cases hitem with
    | here _ hjoin => cases hjoin
    | member hbranch => cases hbranch

/-- A comparison whose left path has no root, with the parts of an empty group beside it. -/
def doubleDocument : Json :=
  .object [("conditions", .array []), ("join", .object [("and", .null)]),
    ("left", .string "user.id"), ("op", .string "eq"), ("right", .null)]

def unrootedComparison : Comparison := ⟨"user.id", .eq, .null⟩

/-- The schema accepts it as the comparison, it is read as the empty group, and it passes, although
the comparison does not. -/
theorem doubleDocument_passes_as_group :
    formBreaches doubleDocument = [] ∧ doubleDocument.matchesGroup = false ∧
    doubleDocument.Shaped (.leaf unrootedComparison) ∧
    Condition.ofJson? .json doubleDocument = some (.group .and []) ∧
    ((plain 32).checkDocument false doubleDocument).passed = true ∧
    ((plain 32).checkCondition false (.leaf unrootedComparison)).passed = false := by
  have hshaped : doubleDocument.Shaped (.leaf ⟨"user.id", .ofName "eq", .null⟩) :=
    .leaf rfl rfl rfl rfl
  exact ⟨(formBreaches_eq_nil_iff _).2 rfl, rfl, hshaped, rfl, by decide +kernel,
    by decide +kernel⟩

end Validator

end Abac
