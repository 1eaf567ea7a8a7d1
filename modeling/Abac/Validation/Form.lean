import Abac.Condition.Basic
import Abac.Schema.Verdict

/-!
The form of written conditions: a schema, and what it says. A document is an object that matches
exactly one of its two branches. The group branch asks for the name of a join and for members that
have the form again, the leaf branch for a left path that is not empty, an operator that is a text,
and a right operand. `conditionForm` is the schema as it is read, with links where it leads back to
itself; `verdict_conditionForm` proves that checking a document along those links comes to an end
and decides the form.
-/

namespace Abac

/-- The schema that every written condition satisfies. -/
def conditionSchema : Json :=
  .object [
    ("$defs", .object [
      ("group", .object [
        ("properties", .object [
          ("conditions", .object [
            ("items", .object [("$ref", .string "#/$defs/tree")]),
            ("type", .string "array")]),
          ("join", .object [("enum", .array [.string "and", .string "or"])])]),
        ("required", .array [.string "join", .string "conditions"]),
        ("type", .string "object")]),
      ("leaf", .object [
        ("properties", .object [
          ("left", .object [("minLength", .ofNat 1), ("type", .string "string")]),
          ("op", .object [("type", .string "string")])]),
        ("required", .array [.string "left", .string "op", .string "right"]),
        ("type", .string "object")]),
      ("tree", .object [
        ("oneOf", .array [
          .object [("$ref", .string "#/$defs/group")],
          .object [("$ref", .string "#/$defs/leaf")]])])]),
    ("$ref", .string "#/$defs/tree"),
    ("$schema", .string "https://json-schema.org/draft/2020-12/schema")]

private theorem isSome_ofJson?_conditionSchema : (Schema.ofJson? conditionSchema).isSome := by
  decide +kernel

/-- The schema of conditions, ready to check them. -/
def conditionForm : Schema :=
  (Schema.ofJson? conditionSchema).get isSome_ofJson?_conditionSchema

namespace Json

/-- A join is written as one of two names. -/
def namesJoin : Option Json → Bool
  | some (.string name) => name = "and" || name = "or"
  | _ => false

def isLeftPath : Option Json → Bool
  | some (.string left) => left ≠ ""
  | _ => false

def isText : Option Json → Bool
  | some (.string _) => true
  | _ => false

/-- Does a document match the leaf branch? -/
def matchesLeaf : Json → Bool
  | .object fields => isLeftPath (fields.lookup "left") && isText (fields.lookup "op") &&
      (fields.lookup "right").isSome
  | _ => false

mutual

/-- Does a document match exactly one branch? -/
def hasForm : Json → Bool
  | .object fields => (namesJoin (fields.lookup "join") && membersHaveForm fields) ^^
      matchesLeaf (.object fields)
  | _ => false

def membersHaveForm : Fields → Bool
  | [] => false
  | (key, value) :: rest =>
    if key = "conditions" then itemsHaveForm value else membersHaveForm rest

def itemsHaveForm : Json → Bool
  | .array items => allHaveForm items
  | _ => false

def allHaveForm : List Json → Bool
  | [] => true
  | item :: rest => hasForm item && allHaveForm rest

end

/-- Does a document match the group branch? -/
def matchesGroup : Json → Bool
  | .object fields => namesJoin (fields.lookup "join") && membersHaveForm fields
  | _ => false

theorem hasForm_eq (document : Json) :
    hasForm document = (matchesGroup document ^^ matchesLeaf document) := by
  cases document <;> rfl

private theorem namesJoin_iff (value : Option Json) :
    namesJoin value = true ↔ ∃ join : Join, value = some (.string join.name) := by
  constructor
  · intro hnames
    rcases value with _ | value
    · cases hnames
    · cases value with
      | string name =>
        simp only [namesJoin, Bool.or_eq_true, decide_eq_true_eq] at hnames
        rcases hnames with rfl | rfl
        · exact ⟨.and, rfl⟩
        · exact ⟨.or, rfl⟩
      | null | bool | number | array | object => cases hnames
  · rintro ⟨join, rfl⟩
    cases join <;> rfl

private theorem isLeftPath_iff (value : Option Json) :
    isLeftPath value = true ↔ ∃ left, left ≠ "" ∧ value = some (.string left) := by
  rcases value with _ | value
  · simp [isLeftPath]
  · cases value <;> simp [isLeftPath]

private theorem isText_iff (value : Option Json) :
    isText value = true ↔ ∃ text, value = some (.string text) := by
  rcases value with _ | value
  · simp [isText]
  · cases value <;> simp [isText]

private theorem allHaveForm_eq (items : List Json) : allHaveForm items = items.all hasForm := by
  induction items with
  | nil => rfl
  | cons item rest ih => rw [allHaveForm, List.all_cons, ih]

private theorem membersHaveForm_eq (fields : Fields) :
    membersHaveForm fields = (fields.lookup "conditions").any itemsHaveForm := by
  induction fields with
  | nil => rfl
  | cons field rest ih =>
    obtain ⟨key, value⟩ := field
    by_cases hkey : key = "conditions"
    · subst hkey
      simp [membersHaveForm]
    · have hother : ("conditions" == key) = false := by simpa using Ne.symm hkey
      rw [membersHaveForm, if_neg hkey, ih, List.lookup_cons, hother]

private theorem membersHaveForm_iff (fields : Fields) :
    membersHaveForm fields = true ↔ ∃ items, fields.lookup "conditions" = some (.array items) ∧
      ∀ item ∈ items, hasForm item = true := by
  rw [membersHaveForm_eq]
  rcases fields.lookup "conditions" with _ | value
  · simp
  · cases value <;> simp [itemsHaveForm, allHaveForm_eq]

/-- The group branch, part by part. -/
theorem matchesGroup_iff (document : Json) :
    matchesGroup document = true ↔ ∃ fields, document = .object fields ∧
      (∃ join : Join, fields.lookup "join" = some (.string join.name)) ∧
      ∃ items, fields.lookup "conditions" = some (.array items) ∧
        ∀ item ∈ items, hasForm item = true := by
  cases document <;> simp [matchesGroup, namesJoin_iff, membersHaveForm_iff]

/-- The leaf branch, part by part. -/
theorem matchesLeaf_iff (document : Json) :
    matchesLeaf document = true ↔ ∃ fields, document = .object fields ∧
      (∃ left, left ≠ "" ∧ fields.lookup "left" = some (.string left)) ∧
      (∃ op, fields.lookup "op" = some (.string op)) ∧
      ∃ right, fields.lookup "right" = some right := by
  cases document <;>
    simp [matchesLeaf, isLeftPath_iff, isText_iff, Option.isSome_iff_exists, and_assoc]

private theorem height_pos (value : Json) : 0 < value.height := by
  cases value <;> simp [height]

private theorem height_le_heightItems {item : Json} {items : List Json} (hmem : item ∈ items) :
    item.height ≤ heightItems items := by
  induction items with
  | nil => cases hmem
  | cons first rest ih =>
    rw [heightItems]
    rcases List.mem_cons.1 hmem with rfl | hrest
    · exact Nat.le_max_left _ _
    · exact Nat.le_trans (ih hrest) (Nat.le_max_right _ _)

private theorem height_le_heightFields {key : String} {value : Json} {fields : Fields}
    (hlookup : fields.lookup key = some value) : value.height ≤ heightFields fields := by
  induction fields with
  | nil => cases hlookup
  | cons field rest ih =>
    obtain ⟨key', value'⟩ := field
    rw [heightFields]
    rw [List.lookup_cons] at hlookup
    split at hlookup
    · cases hlookup
      exact Nat.le_max_left _ _
    · exact Nat.le_trans (ih hlookup) (Nat.le_max_right _ _)

/-- The items of an array under a key of an object are lower than the object. -/
theorem height_lt_of_lookup_array {key : String} {item : Json} {items : List Json}
    {fields : Fields} (hlookup : fields.lookup key = some (.array items)) (hmem : item ∈ items) :
    item.height < (Json.object fields).height := by
  have harray := height_le_heightFields hlookup
  have hitem := height_le_heightItems hmem
  simp only [height] at harray ⊢
  omega

end Json

namespace Schema

/-- The rule of the leaf branch, with the least length of a left path. -/
def leafRule (least : Nat) : Rule :=
  .every [
    .properties [
      ("left", .every [.atLeast .characters least, .kind .string]),
      ("op", .every [.kind .string])],
    .required ["left", "op", "right"],
    .kind .object]

/-- The rule of the group branch, with the rule of its members. -/
def groupRule (member : Rule) : Rule :=
  .every [
    .properties [
      ("conditions", .every [.items 0 (.every [member]), .kind .array]),
      ("join", .every [.enum [.string "and", .string "or"]])],
    .required ["join", "conditions"],
    .kind .object]

def treeRule (group leaf : Rule) : Rule := .every [.oneOf [.every [group], .every [leaf]]]

/-- The rules that links of the schema lead to: those of a document, of its group branch and of its
leaf branch. -/
def formLinks (least : Nat) : List Rule := [
  treeRule (groupRule (treeRule (.link 1) (leafRule least))) (.link 2),
  groupRule (treeRule (groupRule (.link 0)) (leafRule least)),
  leafRule least]

private theorem countOf?_ofNat {count : Nat} (hcount : count < Nat.pow 2 64) :
    countOf? (.ofNat count) = some count := by
  have hone : (Binary64.one : Int) ≠ 0 :=
    Int.natCast_ne_zero.2 (Nat.ne_of_gt Binary64.one_pos)
  have hunits : (count * Binary64.one : Int) / Binary64.one = count :=
    Int.mul_ediv_cancel _ hone
  simp only [countOf?, Json.ofNat, Json.asNumber?, Number.isIntegral, Number.toUnits]
  simp only [bind, Option.bind, if_true, hunits, Int.toNat_natCast]
  rw [Nat.min_eq_left (by omega)]

-- The length is left as it is read: only the kernel computes with doubles.
set_option maxRecDepth 1200 in
private theorem conditionForm_eq_read :
    conditionForm =
      ⟨conditionSchema, Rules.check
        ⟨.every [treeRule (groupRule (.link 0)) (leafRule ((countOf? (.ofNat 1)).getD 0))],
          formLinks ((countOf? (.ofNat 1)).getD 0)⟩⟩ := by
  rfl

private theorem conditionForm_eq :
    conditionForm = ⟨conditionSchema, Rules.check
      ⟨.every [treeRule (groupRule (.link 0)) (leafRule 1)], formLinks 1⟩⟩ := by
  have hleast : (countOf? (.ofNat 1)).getD 0 = 1 := by
    rw [countOf?_ofNat (by decide), Option.getD_some]
  rw [conditionForm_eq_read, hleast]

variable {follow : Nat → Check}

private theorem verdict_leftPath (value : Json) :
    verdict ((Rule.every [.atLeast .characters 1, .kind .string]).violations? follow value) =
      some (Json.isLeftPath (some value)) := by
  cases value with
  | string left =>
    have hlength : decide (1 ≤ left.length) = decide (left ≠ "") := by
      rw [decide_eq_decide, Nat.one_le_iff_ne_zero, ne_eq, ne_eq, String.length_eq_zero_iff]
    have hleast : verdict ((Rule.atLeast .characters 1).violations? follow (.string left)) =
        some (decide (left ≠ "")) := by
      rw [Rule.violations?, verdict_some, atLeastViolations, Measure.of?, isEmpty_requireThat,
        hlength]
    rw [Rule.verdict_every_cons hleast (Rule.verdict_every_singleton (Rule.verdict_kind .string))]
    simp [Kind.admits, Json.isLeftPath]
  | null | bool | number | array | object => rfl

private theorem verdict_text (value : Json) :
    verdict ((Rule.every [.kind .string]).violations? follow value) =
      some (Json.isText (some value)) := by
  cases value <;> rfl

private theorem verdict_joinName (value : Json) :
    verdict ((Rule.every [.enum [.string "and", .string "or"]]).violations? follow value) =
      some (Json.namesJoin (some value)) := by
  refine Rule.verdict_every_singleton ?_
  rw [Rule.violations?, verdict_some, isEmpty_requireThat]
  cases value <;> simp [Json.namesJoin, Json.sameValue]

/-- The rule of members decides their form, if it does so for each of them. -/
theorem verdict_members {member : Rule} {value : Json}
    (hmember : ∀ items, value = .array items → ∀ item ∈ items,
      verdict (member.violations? follow item) = some item.hasForm) :
    verdict ((Rule.every [.items 0 (.every [member]), .kind .array]).violations? follow value) =
      some (Json.itemsHaveForm value) := by
  cases value with
  | array items =>
    have hitems : verdict ((Rule.items 0 (.every [member])).violations? follow (.array items)) =
        some (items.all Json.hasForm) := by
      refine Rule.verdict_items fun item hmem => ?_
      exact Rule.verdict_every_singleton (hmember items rfl item hmem)
    rw [Rule.verdict_every_cons hitems (Rule.verdict_every_singleton (Rule.verdict_kind .array))]
    simp [Kind.admits, Json.itemsHaveForm, Json.allHaveForm_eq]
  | null | bool | number | string | object => rfl

private theorem verdict_leafRule (value : Json) :
    verdict ((leafRule 1).violations? follow value) = some value.matchesLeaf := by
  cases value with
  | object fields =>
    rw [leafRule, Rule.verdict_object (Rule.verdict_properties_cons
      (fun inner _ => verdict_leftPath inner) (Rule.verdict_properties_cons
        (fun inner _ => verdict_text inner) Rule.verdict_properties_nil))]
    cases hleft : fields.lookup "left" <;> cases hop : fields.lookup "op" <;>
      simp [Json.matchesLeaf, hleft, hop, Json.isLeftPath, Json.isText]
  | null | bool | number | string | array => exact Rule.verdict_object_of_other (by simp)

/-- The rule of the group branch decides it, if the rule of members decides the form of all lower
values. -/
theorem verdict_groupRule {member : Rule} {value : Json}
    (hmember : ∀ item : Json, item.height < value.height →
      verdict (member.violations? follow item) = some item.hasForm) :
    verdict ((groupRule member).violations? follow value) = some value.matchesGroup := by
  cases value with
  | object fields =>
    have hmembers : ∀ inner, fields.lookup "conditions" = some inner →
        verdict ((Rule.every [.items 0 (.every [member]), .kind .array]).violations? follow
          inner) = some (Json.itemsHaveForm inner) := by
      rintro inner hlookup
      refine verdict_members fun items hitems item hmem => ?_
      exact hmember item (Json.height_lt_of_lookup_array (hitems ▸ hlookup) hmem)
    rw [groupRule, Rule.verdict_object (Rule.verdict_properties_cons hmembers
      (Rule.verdict_properties_cons (fun inner _ => verdict_joinName inner)
        Rule.verdict_properties_nil))]
    rw [Json.matchesGroup, Json.membersHaveForm_eq]
    cases hjoin : fields.lookup "join" <;> cases hmembers : fields.lookup "conditions" <;>
      simp [hjoin, hmembers, Json.namesJoin, Bool.and_comm]
  | null | bool | number | string | array => exact Rule.verdict_object_of_other (by simp)

private theorem verdict_treeRule {group leaf : Rule} {value : Json}
    (hgroup : verdict (group.violations? follow value) = some value.matchesGroup)
    (hleaf : verdict (leaf.violations? follow value) = some value.matchesLeaf) :
    verdict ((treeRule group leaf).violations? follow value) = some value.hasForm := by
  rw [Json.hasForm_eq]
  exact Rule.verdict_every_singleton (Rule.verdict_oneOf_pair
    (Rule.verdict_every_singleton hgroup) (Rule.verdict_every_singleton hleaf))

private theorem verdict_followLinks_leaf (steps : Nat) (value : Json) :
    verdict (followLinks (formLinks 1) (steps + 1) 2 value) = some value.matchesLeaf :=
  verdict_leafRule value

/-- More steps than a value has levels are enough. The links of documents and of groups are
followed in turn, so both are taken together. -/
theorem verdict_followLinks {steps : Nat} {value : Json} (hheight : value.height < steps) :
    verdict (followLinks (formLinks 1) steps 0 value) = some value.hasForm ∧
      verdict (followLinks (formLinks 1) steps 1 value) = some value.matchesGroup := by
  induction steps generalizing value with
  | zero => omega
  | succ steps ih =>
    have hpos := value.height_pos
    have hlower : ∀ item : Json, item.height < value.height → item.height < steps := by
      intro item hitem
      omega
    constructor
    · change verdict ((treeRule _ _).violations? _ value) = _
      refine verdict_treeRule (verdict_groupRule fun item hitem => ?_) ?_
      · exact verdict_treeRule (ih (hlower item hitem)).2 (verdict_leafRule item)
      · obtain ⟨fewer, rfl⟩ : ∃ fewer, steps = fewer + 1 := ⟨steps - 1, by omega⟩
        exact verdict_followLinks_leaf fewer value
    · change verdict ((groupRule _).violations? _ value) = _
      refine verdict_groupRule fun item hitem => ?_
      refine verdict_treeRule (verdict_groupRule fun inner hinner => ?_) (verdict_leafRule item)
      exact (ih (Nat.lt_trans hinner (hlower item hitem))).1

end Schema

/-- The schema of conditions decides the form of every document. -/
theorem verdict_conditionForm (document : Json) :
    Schema.verdict (conditionForm.check document) = some document.hasForm := by
  rw [Schema.conditionForm_eq]
  refine Schema.Rule.verdict_every_singleton ?_
  refine Schema.verdict_treeRule (Schema.verdict_groupRule fun item hitem => ?_)
    (Schema.verdict_leafRule document)
  exact (Schema.verdict_followLinks (by simp [Schema.formLinks]; omega)).1

/-- Checks against the schema of conditions always come to an end. -/
theorem conditionForm_ends (document : Json) : (conditionForm.check document).isSome := by
  obtain ⟨violations, hfound, -⟩ := Schema.exists_of_verdict (verdict_conditionForm document)
  rw [hfound, Option.isSome_some]

end Abac
