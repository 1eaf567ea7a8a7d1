import Abac.Toml.Basic
import Mathlib.Logic.Relation

/-!
What is inside a value, at any level, and inside the same value in JSON. The parts of a value in
JSON are its parts, each in JSON. So a null stands where a float that is not finite stands, and
nowhere else.
-/

namespace Abac

namespace Json

/-- The items of an array, and the values under the keys of an object. -/
inductive Child : Json → Json → Prop
  | item {items : List Json} {value : Json} (hmem : value ∈ items) : Child (.array items) value
  | field {fields : Fields} {key : String} {value : Json} (hmem : (key, value) ∈ fields) :
      Child (.object fields) value

/-- A value contains itself, its children, their children and so on. -/
def Contains : Json → Json → Prop := Relation.ReflTransGen Child

end Json

namespace Toml

private theorem itemsToJson_eq (items : List Value) :
    itemsToJson items = items.map Value.toJson := by
  induction items with
  | nil => rfl
  | cons item rest ih => rw [itemsToJson, ih, List.map_cons]

theorem fieldsToJson_eq (fields : Table) :
    fieldsToJson fields = fields.map (Prod.map id Value.toJson) := by
  induction fields with
  | nil => rfl
  | cons field rest ih =>
    rw [fieldsToJson, ih]
    rfl

namespace Value

/-- The items of an array, and the values under the keys of a table. A date or time has its text,
which stands under a key of its own in JSON. -/
inductive Child : Value → Value → Prop
  | item {grows : Bool} {items : List Value} {value : Value} (hmem : value ∈ items) :
      Child (.array grows items) value
  | field {origin : Origin} {fields : Table} {key : String} {value : Value}
      (hmem : (key, value) ∈ Keyed.ofList fields) : Child (.table origin fields) value
  | text {text : String} : Child (.datetime text) (.string text)

def Contains : Value → Value → Prop := Relation.ReflTransGen Child

variable {value : Value}

theorem toJson_array (grows : Bool) (items : List Value) :
    toJson (.array grows items) = .array (items.map toJson) := by
  rw [toJson, itemsToJson_eq]

theorem toJson_table (origin : Origin) (fields : Table) :
    toJson (.table origin fields) = .object ((Keyed.ofList fields).map (Prod.map id toJson)) := by
  rw [toJson, fieldsToJson_eq, Json.ofFields, Keyed.map_ofList]

private theorem child_toJson_iff {json : Json} :
    Json.Child value.toJson json ↔ ∃ part, value.Child part ∧ part.toJson = json := by
  constructor
  · intro hchild
    cases value with
    | array grows items =>
      rw [toJson_array] at hchild
      cases hchild with
      | item hmem =>
        obtain ⟨part, hpart, rfl⟩ := List.mem_map.1 hmem
        exact ⟨part, .item hpart, rfl⟩
    | table origin fields =>
      rw [toJson_table] at hchild
      cases hchild with
      | field hmem =>
        obtain ⟨⟨key, part⟩, hpart, hsame⟩ := List.mem_map.1 hmem
        cases hsame
        exact ⟨part, .field hpart, rfl⟩
    | datetime text =>
      cases hchild with
      | field hmem =>
        cases List.mem_singleton.1 hmem
        exact ⟨.string text, .text, rfl⟩
    | float value? => cases value? <;> cases hchild
    | string | integer | boolean => cases hchild
  · rintro ⟨part, hpart, rfl⟩
    cases hpart with
    | item hmem =>
      rw [toJson_array]
      exact .item (List.mem_map_of_mem hmem)
    | field hmem =>
      rw [toJson_table]
      exact .field (List.mem_map_of_mem hmem)
    | text => exact .field List.mem_cons_self

theorem contains_toJson_iff {json : Json} :
    value.toJson.Contains json ↔ ∃ part, value.Contains part ∧ part.toJson = json := by
  constructor
  · intro hcontains
    induction hcontains with
    | refl => exact ⟨value, .refl, rfl⟩
    | tail hcontains hchild ih =>
      obtain ⟨part, hpart, rfl⟩ := ih
      obtain ⟨inner, hinner, rfl⟩ := child_toJson_iff.1 hchild
      exact ⟨inner, hpart.tail hinner, rfl⟩
  · rintro ⟨part, hpart, rfl⟩
    have hchild : ∀ outer inner : Value, outer.Child inner →
        Json.Child outer.toJson inner.toJson := by
      intro outer inner hinner
      exact child_toJson_iff.2 ⟨inner, hinner, rfl⟩
    exact Relation.ReflTransGen.lift toJson hchild _ _ hpart

theorem toJson_eq_null_iff : value.toJson = .null ↔ value = .float none := by
  constructor
  · intro hnull
    cases value with
    | float value? =>
      cases value? with
      | none => rfl
      | some value => cases hnull
    | array grows items =>
      rw [toJson_array] at hnull
      cases hnull
    | table origin fields =>
      rw [toJson_table] at hnull
      cases hnull
    | string | integer | boolean | datetime => cases hnull
  · rintro rfl
    rfl

/-- A null in JSON is a float that is not finite. -/
theorem contains_null_iff : value.toJson.Contains .null ↔ value.Contains (.float none) := by
  simp only [contains_toJson_iff, toJson_eq_null_iff, exists_eq_right]

mutual

/-- Are all floats in a value finite? -/
def isFinite : Value → Bool
  | .float value? => value?.isSome
  | .array _ items => itemsFinite items
  | .table _ fields => fieldsFinite fields
  | _ => true

def itemsFinite : List Value → Bool
  | [] => true
  | item :: rest => item.isFinite && itemsFinite rest

def fieldsFinite : Table → Bool
  | [] => true
  | (_, value) :: rest => value.isFinite && fieldsFinite rest

end

private theorem itemsFinite_iff {items : List Value} :
    itemsFinite items = true ↔ ∀ item ∈ items, item.isFinite = true := by
  induction items with
  | nil => simp [itemsFinite]
  | cons item rest ih => simp [itemsFinite, ih]

theorem fieldsFinite_iff {fields : Table} :
    fieldsFinite fields = true ↔ ∀ field ∈ fields, field.2.isFinite = true := by
  induction fields with
  | nil => simp [fieldsFinite]
  | cons field rest ih =>
    obtain ⟨key, value⟩ := field
    simp [fieldsFinite, ih]

private theorem Child.isFinite {part : Value} (hchild : value.Child part)
    (hfinite : value.isFinite = true) : part.isFinite = true := by
  cases hchild with
  | item hmem => exact itemsFinite_iff.1 hfinite _ hmem
  | field hmem => exact fieldsFinite_iff.1 hfinite _ (Keyed.mem_of_mem_ofList hmem)
  | text => rfl

private theorem Contains.isFinite {part : Value} (hcontains : value.Contains part)
    (hfinite : value.isFinite = true) : part.isFinite = true := by
  induction hcontains with
  | refl => exact hfinite
  | tail _ hchild ih => exact hchild.isFinite ih

theorem not_contains_of_isFinite (hfinite : value.isFinite = true) :
    ¬ value.Contains (.float none) := by
  intro hcontains
  exact absurd (hcontains.isFinite hfinite) Bool.false_ne_true

end Value

end Toml

end Abac
