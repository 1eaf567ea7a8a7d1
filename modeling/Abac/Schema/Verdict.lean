import Abac.Schema.Violation

/-!
When checks come to an end, and whether values pass them: one statement for each of the rules that
describe the shape of a document.
-/

namespace Abac.Schema

/-- Does a value pass a check, which has to come to an end? -/
def verdict (found : Option (List Violation)) : Option Bool := found.map List.isEmpty

@[simp] theorem verdict_some (violations : List Violation) :
    verdict (some violations) = some violations.isEmpty := rfl

theorem exists_of_verdict {found : Option (List Violation)} {passes : Bool}
    (hverdict : verdict found = some passes) :
    ∃ violations, found = some violations ∧ violations.isEmpty = passes :=
  Option.map_eq_some_iff.1 hverdict

@[simp] theorem isEmpty_requireThat (holds : Bool) (value : Json) (text : String) :
    (requireThat holds value text).isEmpty = holds := by
  cases holds <;> rfl

/-- Two checks, one after the other. -/
theorem verdict_append {first second : Option (List Violation)} {passes others : Bool}
    (under : Violation → Violation) (hfirst : verdict first = some passes)
    (hsecond : verdict second = some others) :
    verdict (do
      let found ← first
      let rest ← second
      return found.map under ++ rest) = some (passes && others) := by
  obtain ⟨found, rfl, rfl⟩ := exists_of_verdict hfirst
  obtain ⟨rest, rfl, rfl⟩ := exists_of_verdict hsecond
  cases found <;> rfl

private theorem verdict_itemViolations? {check : Check} {good : Json → Bool} (index : Nat)
    {items : List Json} (hcheck : ∀ item ∈ items, verdict (check item) = some (good item)) :
    verdict (itemViolations? check index items) = some (items.all good) := by
  induction items generalizing index with
  | nil => rfl
  | cons item rest ih =>
    obtain ⟨hitem, hrest⟩ := List.forall_mem_cons.1 hcheck
    exact verdict_append _ hitem (ih (index + 1) hrest)

private theorem isEmpty_requiredViolations (names : List String) (fields : Fields) :
    (requiredViolations names (.object fields)).isEmpty =
      names.all fun name => (fields.lookup name).isSome := by
  induction names with
  | nil => rfl
  | cons name rest ih =>
    rw [requiredViolations] at ih
    rw [requiredViolations, List.filterMap_cons, List.all_cons, ← ih]
    cases fields.lookup name <;> rfl

namespace Rule

variable {follow : Nat → Check} {value : Json}

private theorem verdict_every_nil : verdict ((every []).violations? follow value) = some true := rfl

theorem verdict_every_cons {rule : Rule} {rest : List Rule} {passes others : Bool}
    (hrule : verdict (rule.violations? follow value) = some passes)
    (hrest : verdict ((every rest).violations? follow value) = some others) :
    verdict ((every (rule :: rest)).violations? follow value) = some (passes && others) := by
  rw [violations?] at hrest
  rw [violations?, eachViolations?]
  obtain ⟨found, hfound, rfl⟩ := exists_of_verdict hrule
  obtain ⟨_, hothers, rfl⟩ := exists_of_verdict hrest
  obtain ⟨each, heach, hflat⟩ := Option.bind_eq_some_iff.1 hothers
  cases hflat
  rw [hfound, heach]
  cases found <;> rfl

theorem verdict_every_singleton {rule : Rule} {passes : Bool}
    (hrule : verdict (rule.violations? follow value) = some passes) :
    verdict ((every [rule]).violations? follow value) = some passes := by
  rw [verdict_every_cons hrule verdict_every_nil, Bool.and_true]

/-- Of two rules exactly one holds. -/
theorem verdict_oneOf_pair {first second : Rule} {passes others : Bool}
    (hfirst : verdict (first.violations? follow value) = some passes)
    (hsecond : verdict (second.violations? follow value) = some others) :
    verdict ((oneOf [first, second]).violations? follow value) = some (passes ^^ others) := by
  obtain ⟨found, hfound, rfl⟩ := exists_of_verdict hfirst
  obtain ⟨rest, hrest, rfl⟩ := exists_of_verdict hsecond
  simp only [violations?, eachViolations?, hfound, hrest]
  cases found <;> cases rest <;> rfl

theorem verdict_kind (wanted : Kind) :
    verdict ((Rule.kind wanted).violations? follow value) = some (wanted.admits value) := by
  rw [violations?, verdict_some, kindViolations, isEmpty_requireThat]

theorem verdict_items {rule : Rule} {good : Json → Bool} {items : List Json}
    (hrule : ∀ item ∈ items, verdict (rule.violations? follow item) = some (good item)) :
    verdict ((Rule.items 0 rule).violations? follow (.array items)) = some (items.all good) := by
  rw [violations?, List.drop_zero]
  exact verdict_itemViolations? 0 hrule

theorem verdict_properties_nil {fields : Fields} :
    verdict ((properties []).violations? follow (.object fields)) = some true := rfl

theorem verdict_properties_cons {name : String} {rule : Rule} {rest : List (String × Rule)}
    {fields : Fields} {good : Json → Bool} {others : Bool}
    (hrule : ∀ inner, fields.lookup name = some inner →
      verdict (rule.violations? follow inner) = some (good inner))
    (hrest : verdict ((properties rest).violations? follow (.object fields)) = some others) :
    verdict ((properties ((name, rule) :: rest)).violations? follow (.object fields)) =
      some ((fields.lookup name).all good && others) := by
  rw [violations?, propertyViolations?]
  refine verdict_append _ ?_ hrest
  cases hlookup : fields.lookup name with
  | none => rfl
  | some inner => exact hrule inner hlookup

/-- An object with properties that follow rules, some of which have to be there. -/
theorem verdict_object {rules : List (String × Rule)} {names : List String} {fields : Fields}
    {passes : Bool}
    (hrules : verdict ((properties rules).violations? follow (.object fields)) = some passes) :
    verdict ((every [properties rules, required names, .kind .object]).violations? follow
        (.object fields)) =
      some (passes && names.all fun name => (fields.lookup name).isSome) := by
  have hnames : verdict ((required names).violations? follow (.object fields)) =
      some (names.all fun name => (fields.lookup name).isSome) := by
    rw [violations?, verdict_some, isEmpty_requiredViolations]
  rw [verdict_every_cons hrules (verdict_every_cons hnames
    (verdict_every_singleton (verdict_kind .object)))]
  simp [Kind.admits]

/-- No other value is such an object. -/
theorem verdict_object_of_other {rules : List (String × Rule)} {names : List String}
    (hother : ∀ fields, value ≠ .object fields) :
    verdict ((every [properties rules, required names, .kind .object]).violations? follow value) =
      some false := by
  cases value with
  | object fields => exact absurd rfl (hother fields)
  | null | bool | number | string | array => rfl

end Rule

end Abac.Schema
