import Abac.Proofs.Condition.Parse
import Abac.Proofs.Condition.Positions

/-!
Writing conditions and reading them back. A condition comes back as it was when no unknown operator
has the name of a known one, and in conditions that were read none has.
-/

namespace Abac

namespace Operator

/-- An unknown operator does not have the name of a known one. -/
def Canonical (op : Operator) : Prop :=
  ∀ known : Operator, known.isKnown = true → op ≠ .unknown known.name

private theorem ofName_name {op : Operator} (hcanonical : op.Canonical) : ofName op.name = op := by
  cases op with
  | unknown name =>
    have hother : ∀ known : Operator, known.isKnown = true → name ≠ known.name := by
      rintro known hknown rfl
      exact hcanonical known hknown rfl
    have heq : name ≠ "eq" := hother .eq rfl
    have hneq : name ≠ "neq" := hother .neq rfl
    have hgt : name ≠ "gt" := hother .gt rfl
    have hlt : name ≠ "lt" := hother .lt rfl
    have hgte : name ≠ "gte" := hother .gte rfl
    have hlte : name ≠ "lte" := hother .lte rfl
    change ofName name = unknown name
    rw [ofName, if_neg heq, if_neg hneq, if_neg hgt, if_neg hlt, if_neg hgte, if_neg hlte]
  | eq | neq | gt | lt | gte | lte => rfl

theorem canonical_ofName (name : String) : (ofName name).Canonical := by
  intro known hknown hsame
  have hname : name = known.name := by
    unfold ofName at hsame
    repeat' split at hsame
    all_goals cases hsame
    rfl
  rw [hname] at hsame
  cases known with
  | unknown name => cases hknown
  | eq | neq | gt | lt | gte | lte => cases hsame

end Operator

namespace Condition

variable {format : Format}

def Canonical (condition : Condition) : Prop :=
  condition.EveryLeaf fun comparison => comparison.op.Canonical

@[simp] theorem canonical_leaf {comparison : Comparison} :
    (leaf comparison).Canonical ↔ comparison.op.Canonical := everyLeaf_leaf comparison

private theorem canonical_group {join : Join} {conditions : List Condition} :
    (group join conditions).Canonical ↔ ∀ condition ∈ conditions, condition.Canonical :=
  everyLeaf_group join conditions

private theorem ofJsonAll?_toJsonAll {conditions : List Condition}
    (hread : ∀ condition ∈ conditions, ofJson? format condition.toJson = some condition) :
    ofJsonAll? format (toJsonAll conditions) = some conditions := by
  induction conditions with
  | nil => rfl
  | cons condition rest ih =>
    obtain ⟨hcondition, hrest⟩ := List.forall_mem_cons.1 hread
    rw [toJsonAll, ofJsonAll?, hcondition, ih hrest]

/-- What is written is read back. A literal is kept whatever it looks like, since it stands under
its own key. -/
theorem ofJson?_toJson {condition : Condition} (hcanonical : condition.Canonical) :
    ofJson? format condition.toJson = some condition := by
  induction condition with
  | leaf comparison =>
    have hop : Operator.ofName comparison.op.name = comparison.op :=
      Operator.ofName_name (canonical_leaf.1 hcanonical)
    rw [toJson, Comparison.toJson, ofJson?_object_of_not_group]
    · simp [List.lookup_cons, Comparison.ofParts?, Json.asString?, hop]
    · rintro ⟨join, conditions, hjoin, -⟩
      simp [List.lookup_cons] at hjoin
  | group join conditions ih =>
    have hmembers := canonical_group.1 hcanonical
    have hread : ofJsonAll? format (toJsonAll conditions) = some conditions := by
      apply ofJsonAll?_toJsonAll
      intro condition hmem
      exact ih condition hmem (hmembers condition hmem)
    rw [toJson]
    apply ofJson?_object_of_group
    · simp [List.lookup_cons, Join.ofJson?_name]
    · simp [ofField?_eq, Json.asArray?, hread]

example : ofJson? .json (leaf ⟨"subject.id", .unknown "eq", .null⟩).toJson =
    some (leaf ⟨"subject.id", .eq, .null⟩) := by rfl

/-- Operators that are read come from their names. -/
theorem canonical_of_ofJson? {document : Json} {condition : Condition}
    (hread : ofJson? format document = some condition) : condition.Canonical := by
  induction condition generalizing document with
  | leaf comparison =>
    obtain ⟨name, hop⟩ := Comparison.exists_op_of_ofJson? (comparison_of_ofJson? hread)
    rw [canonical_leaf, hop]
    exact Operator.canonical_ofName name
  | group join conditions ih =>
    obtain ⟨items, -, hitems⟩ := exists_members_of_ofJson? hread
    apply canonical_group.2
    intro condition hmem
    obtain ⟨item, -, hitem⟩ := exists_item_of_ofJsonAll? hitems hmem
    exact ih condition hmem hitem

end Condition

end Abac
