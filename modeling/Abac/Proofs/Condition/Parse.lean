import Abac.Condition.Json

/-!
How documents are read as conditions. The reader recurses through the fields of an object to the
members of a group; the equations here say what it does in terms of the fields that it looks up.
-/

namespace Abac

private theorem Json.asString?_eq_some_iff {value : Json} {text : String} :
    value.asString? = some text ↔ value = .string text := by
  cases value <;> simp [asString?]

namespace Condition

variable {format : Format}

/-- A list of documents can be read when each of them can. -/
theorem isSome_ofJsonAll?_iff {items : List Json} :
    (ofJsonAll? format items).isSome = true ↔
      ∀ item ∈ items, (ofJson? format item).isSome = true := by
  induction items with
  | nil => simp [ofJsonAll?]
  | cons item rest ih =>
    rw [ofJsonAll?, List.forall_mem_cons, ← ih]
    cases ofJson? format item <;> cases ofJsonAll? format rest <;> simp

/-- The members are what is read from the array under their key. -/
theorem ofField?_eq (fields : Fields) :
    ofField? format fields =
      ((fields.lookup "conditions").bind Json.asArray?).bind (ofJsonAll? format) := by
  induction fields with
  | nil => simp [ofField?]
  | cons field rest ih =>
    obtain ⟨key, value⟩ := field
    by_cases hkey : key = "conditions"
    · subst hkey
      cases value <;> simp [ofField?, Json.asArray?]
    · have hother : ("conditions" == key) = false := by simpa using Ne.symm hkey
      unfold ofField?
      rw [if_neg hkey, ih, List.lookup_cons, hother]

theorem ofField?_eq_some_iff {fields : Fields} {conditions : List Condition} :
    ofField? format fields = some conditions ↔ ∃ items,
      fields.lookup "conditions" = some (.array items) ∧
        ofJsonAll? format items = some conditions := by
  rw [ofField?_eq]
  cases fields.lookup "conditions" with
  | none => simp
  | some value => cases value <;> simp [Json.asArray?]

/-- An object is read as a group when its join and its members can be read. -/
theorem ofJson?_object_of_group {fields : Fields} {join : Join} {conditions : List Condition}
    (hjoin : (fields.lookup "join").bind (Join.ofJson? format) = some join)
    (hmembers : ofField? format fields = some conditions) :
    ofJson? format (.object fields) = some (.group join conditions) := by
  rw [ofJson?, hjoin, hmembers]

/-- In all other cases it is read as a comparison. -/
theorem ofJson?_object_of_not_group {fields : Fields}
    (hnot : ¬ ∃ join conditions, (fields.lookup "join").bind (Join.ofJson? format) = some join ∧
      ofField? format fields = some conditions) :
    ofJson? format (.object fields) =
      (Comparison.ofParts? (fields.lookup "left") (fields.lookup "op")
        (fields.lookup "right")).map leaf := by
  rw [ofJson?]
  split
  · next join conditions hjoin hmembers => exact absurd ⟨join, conditions, hjoin, hmembers⟩ hnot
  · rfl

theorem exists_item_of_ofJsonAll? {items : List Json} {conditions : List Condition}
    (hread : ofJsonAll? format items = some conditions) {condition : Condition}
    (hmem : condition ∈ conditions) : ∃ item ∈ items, ofJson? format item = some condition := by
  induction items generalizing conditions with
  | nil =>
    cases hread
    cases hmem
  | cons item rest ih =>
    rw [ofJsonAll?] at hread
    split at hread
    · next first others hitem hrest =>
      cases hread
      rcases List.mem_cons.1 hmem with rfl | hmem
      · exact ⟨item, List.mem_cons_self, hitem⟩
      · obtain ⟨other, hother, hcondition⟩ := ih hrest hmem
        exact ⟨other, List.mem_cons_of_mem _ hother, hcondition⟩
    · cases hread

/-- The documents of the members of a group, under their key or behind the join. -/
def members? : Json → Option (List Json)
  | .object fields => (fields.lookup "conditions").bind Json.asArray?
  | .array [_, .array items] => some items
  | _ => none

/-- A group is read from its members. -/
theorem exists_members_of_ofJson? {document : Json} {join : Join} {conditions : List Condition}
    (hread : ofJson? format document = some (.group join conditions)) :
    ∃ items, members? document = some items ∧ ofJsonAll? format items = some conditions := by
  unfold ofJson? at hread
  split at hread
  · next fields =>
    split at hread
    · next hmembers =>
      cases hread
      rw [ofField?_eq] at hmembers
      exact Option.bind_eq_some_iff.1 hmembers
    · obtain ⟨comparison, -, hleaf⟩ := Option.map_eq_some_iff.1 hread
      cases hleaf
  · next items =>
    split at hread
    · next hmembers =>
      cases hread
      exact ⟨items, rfl, hmembers⟩
    · cases hread
  · obtain ⟨comparison, -, hleaf⟩ := Option.map_eq_some_iff.1 hread
    cases hleaf
  · cases hread

end Condition

namespace Comparison

/-- The comparison that a document stands for, its parts under their names or in their order. -/
def ofJson? : Json → Option Comparison
  | .object fields => ofParts? (fields.lookup "left") (fields.lookup "op") (fields.lookup "right")
  | .array [left, op, right] => ofParts? (some left) (some op) (some right)
  | _ => none

theorem ofParts?_eq_some_iff {left op right : Option Json} {comparison : Comparison} :
    ofParts? left op right = some comparison ↔ left = some (.string comparison.left) ∧
      (∃ name, op = some (.string name) ∧ comparison.op = .ofName name) ∧
      right = some comparison.right := by
  constructor
  · intro hparts
    simp only [ofParts?, Option.bind_eq_bind, Option.bind_eq_some_iff] at hparts
    obtain ⟨leftValue, rfl, path, hpath, opValue, rfl, name, hname, rightValue, rfl, hsame⟩ :=
      hparts
    cases hsame
    refine ⟨?_, ⟨name, ?_, rfl⟩, rfl⟩
    · rw [Json.asString?_eq_some_iff.1 hpath]
    · rw [Json.asString?_eq_some_iff.1 hname]
  · obtain ⟨path, op, right⟩ := comparison
    rintro ⟨rfl, ⟨name, rfl, hop⟩, rfl⟩
    cases hop
    rfl

/-- Every operator that is read comes from its name. -/
theorem exists_op_of_ofJson? {document : Json} {comparison : Comparison}
    (hread : ofJson? document = some comparison) : ∃ name, comparison.op = .ofName name := by
  have hparts : ∃ left op right, ofParts? left op right = some comparison := by
    unfold ofJson? at hread
    split at hread
    · exact ⟨_, _, _, hread⟩
    · exact ⟨_, _, _, hread⟩
    · cases hread
  obtain ⟨left, op, right, hparts⟩ := hparts
  obtain ⟨-, ⟨name, -, hop⟩, -⟩ := ofParts?_eq_some_iff.1 hparts
  exact ⟨name, hop⟩

end Comparison

/-- A condition that is a comparison is read from a document that stands for it. -/
theorem Condition.comparison_of_ofJson? {format : Format} {document : Json}
    {comparison : Comparison} (hread : ofJson? format document = some (.leaf comparison)) :
    Comparison.ofJson? document = some comparison := by
  unfold ofJson? at hread
  split at hread
  · split at hread
    · cases hread
    · obtain ⟨other, hparts, hleaf⟩ := Option.map_eq_some_iff.1 hread
      cases hleaf
      exact hparts
  · split at hread
    · cases hread
    · cases hread
  · obtain ⟨other, hparts, hleaf⟩ := Option.map_eq_some_iff.1 hread
    cases hleaf
    exact hparts
  · cases hread

theorem Join.ofJson?_name (format : Format) (join : Join) :
    ofJson? format (.string join.name) = some join := by
  cases join <;> rfl

end Abac
