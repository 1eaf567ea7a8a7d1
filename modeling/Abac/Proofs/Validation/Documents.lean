import Abac.Proofs.Validation.Exact
import Abac.Proofs.Validation.Reading

/-!
Reports on documents. A document that passes the schema of conditions is read as a condition, and
the report on it is the report on that condition. Any other document is reported with its violations
of the schema and is not read. So no report ever says that a document is no condition.
-/

namespace Abac

private theorem Text.startsWith_eq_false_of_head {head text : String} {c d : Char}
    (hhead : head.toList.head? = some c) (htext : text.toList.head? = some d) (hne : c ≠ d) :
    Text.startsWith head text = false := by
  obtain ⟨heads, hheads⟩ := List.head?_eq_some_iff.1 hhead
  obtain ⟨texts, htexts⟩ := List.head?_eq_some_iff.1 htext
  have hdiffer : (c == d) = false := by simpa using hne
  rw [Text.startsWith, hheads, htexts, List.isPrefixOf_cons_cons, hdiffer, Bool.false_and]

/-- What is written behind a text does not change how it begins. -/
theorem Text.head?_append {text : String} {c : Char} (htext : text.toList.head? = some c)
    (rest : String) : (text ++ rest).toList.head? = some c := by
  rw [String.toList_append, List.head?_append, htext, Option.some_or]

private theorem Condition.head?_location (way : List Nat) :
    (Condition.location way).toList.head? = some '$' := by
  have hfold : ∀ text : String, text.toList.head? = some '$' →
      (way.foldl (fun text index => text ++ ".conditions[" ++ toString index ++ "]")
        text).toList.head? = some '$' := by
    induction way with
    | nil => exact fun text htext => htext
    | cons index rest ih =>
      intro text htext
      rw [List.foldl_cons]
      refine ih _ (Text.head?_append (Text.head?_append (Text.head?_append htext _) _) _)
  exact hfold "$" rfl

namespace Validator

variable {validator : Validator} {requiresResource : Bool}

private theorem head?_message_form (violation : Schema.Violation) :
    (Breach.form violation).message.toList.head? = some 'J' := by
  have hhead : "JSON Schema violation at ".toList.head? = some 'J' := rfl
  have hpointer := Text.head?_append hhead violation.pointer
  exact Text.head?_append (Text.head?_append hpointer ": ") violation.text

private theorem head?_message_tooDeep (depth bound : Nat) :
    (Breach.tooDeep depth bound).message.toList.head? = some 'n' := by
  have hhead : "nesting depth ".toList.head? = some 'n' := rfl
  have hdepth := Text.head?_append hhead (toString depth)
  exact Text.head?_append (Text.head?_append hdepth " exceeds the maximum of ") (toString bound)

/-- The rules of comparisons are reported with the place of the comparison in front. -/
theorem head?_message_comparison {way : List Nat} {comparison : Comparison} {breach : Breach}
    (hmem : breach ∈ validator.comparisonBreaches requiresResource (Condition.location way)
      comparison) :
    breach.message.toList.head? = some '$' := by
  have hplace := Condition.head?_location way
  simp only [comparisonBreaches, List.mem_append] at hmem
  rcases hmem with (hunrooted | hunknown) | hundeclared
  · obtain ⟨-, rfl⟩ : _ ∧ breach = _ := by simpa using hunrooted
    have hleft := Text.head?_append (Text.head?_append hplace ": left path '") comparison.left
    exact Text.head?_append (Text.head?_append hleft "' must start with ")
      (Breach.allowedRoots requiresResource)
  · obtain ⟨-, rfl⟩ : _ ∧ breach = _ := by simpa using hunknown
    have hname := Text.head?_append (Text.head?_append hplace ": unknown operator '")
      comparison.op.name
    exact Text.head?_append hname "'"
  · split at hundeclared
    · cases hundeclared
    · obtain ⟨path, -, rfl⟩ := List.mem_map.1 hundeclared
      have hpath := Text.head?_append (Text.head?_append hplace ": path '") path
      exact Text.head?_append hpath "' is not declared by the context schema"

/-- Does a text say that a document is no condition, whatever it adds? -/
def saysNoCondition (text : String) : Bool := Text.startsWith Breach.notACondition.message text

private theorem saysNoCondition_eq_false {text : String} {c : Char}
    (htext : text.toList.head? = some c)
    (hne : 'd' ≠ c) : saysNoCondition text = false :=
  Text.startsWith_eq_false_of_head rfl htext hne

private theorem saysNoCondition_formBreaches {document : Json} {breach : Breach}
    (hmem : breach ∈ formBreaches document) : saysNoCondition breach.message = false := by
  obtain ⟨violation, -, rfl⟩ := List.mem_map.1 hmem
  exact saysNoCondition_eq_false (head?_message_form violation) (by decide)

private theorem saysNoCondition_conditionBreaches {condition : Condition} {breach : Breach}
    (hmem : breach ∈ validator.conditionBreaches requiresResource condition) :
    saysNoCondition breach.message = false := by
  simp only [conditionBreaches, ruleBreaches_eq, List.mem_append, List.mem_flatMap] at hmem
  rcases hmem with hform | htooDeep | ⟨⟨way, comparison⟩, -, hrule⟩
  · split at hform
    · cases hform
    · exact saysNoCondition_formBreaches hform
  · obtain ⟨-, rfl⟩ : _ ∧ breach = _ := by simpa using htooDeep
    exact saysNoCondition_eq_false (head?_message_tooDeep _ _) (by decide)
  · exact saysNoCondition_eq_false (head?_message_comparison hrule) (by decide)

/-- A document that passes the schema can be read, and its report is the one on what was read. -/
theorem exists_condition_of_accepted (validator : Validator) (requiresResource : Bool)
    {document : Json} (haccepted : formBreaches document = []) :
    ∃ condition, Condition.ofJson? .json document = some condition ∧
      validator.checkDocument requiresResource document =
        validator.checkCondition requiresResource condition := by
  have hform : document.hasForm = true := (formBreaches_eq_nil_iff document).1 haccepted
  obtain ⟨condition, hread, -⟩ := exists_reading document hform
  refine ⟨condition, hread, ?_⟩
  rw [checkDocument, haccepted]
  simp only [hread]

private theorem checkDocument_of_refused (validator : Validator) (requiresResource : Bool)
    {document : Json} (hrefused : formBreaches document ≠ []) :
    validator.checkDocument requiresResource document = .ofBreaches (formBreaches document) := by
  unfold checkDocument
  split
  · next hnone => exact absurd hnone hrefused
  · rfl

/-- Every document that passes the schema of conditions is read, and its report is the report on the
condition that it is read as. A document that does not is reported with its violations alone. So
there is no document at all whose report says that it is no condition. -/
theorem every_accepted_document_is_read (validator : Validator) (requiresResource : Bool)
    (document : Json) :
    (formBreaches document = [] → ∃ condition,
      Condition.ofJson? .json document = some condition ∧
      validator.checkDocument requiresResource document =
        validator.checkCondition requiresResource condition) ∧
    (formBreaches document ≠ [] →
      validator.checkDocument requiresResource document =
        .ofBreaches (formBreaches document)) ∧
    ∀ failure ∈ (validator.checkDocument requiresResource document).failures,
      saysNoCondition failure.message = false := by
  refine ⟨exists_condition_of_accepted validator requiresResource,
    checkDocument_of_refused validator requiresResource, fun failure hmem => ?_⟩
  by_cases haccepted : formBreaches document = []
  · obtain ⟨condition, -, hreport⟩ :=
      exists_condition_of_accepted validator requiresResource haccepted
    rw [hreport] at hmem
    obtain ⟨breach, hbreach, rfl⟩ := List.mem_map.1 hmem
    exact saysNoCondition_conditionBreaches hbreach
  · rw [checkDocument_of_refused validator requiresResource haccepted] at hmem
    obtain ⟨breach, hbreach, rfl⟩ := List.mem_map.1 hmem
    exact saysNoCondition_formBreaches hbreach

/-- A group, with a note that no rule asks for, of one comparison that has the parts of a group
beside it: a join that is none and a member that is no condition. -/
def crowdedDocument : Json :=
  .object [
    ("conditions", .array [.object [
      ("conditions", .array [.null]), ("join", .string "xor"), ("left", .string "user.id"),
      ("op", .string "like"), ("right", .null)]]),
    ("join", .string "and"),
    ("note", .bool true)]

/-- It passes the schema and is read, and the report has the two rules that the
comparison breaks. -/
theorem crowdedDocument_is_read :
    formBreaches crowdedDocument = [] ∧
    Condition.ofJson? .json crowdedDocument =
      some (.group .and [.leaf ⟨"user.id", .unknown "like", .null⟩]) ∧
    ((plain 2).checkDocument false crowdedDocument).failures.map (·.rule) =
      ["left-path-root", "unknown-operator"] ∧
    ∀ failure ∈ ((plain 2).checkDocument false crowdedDocument).failures,
      saysNoCondition failure.message = false := by
  have haccepted : formBreaches crowdedDocument = [] := (formBreaches_eq_nil_iff _).2 rfl
  obtain ⟨hreads, -, htexts⟩ := every_accepted_document_is_read (plain 2) false crowdedDocument
  obtain ⟨condition, hread, hreport⟩ := hreads haccepted
  have hcondition : Condition.ofJson? .json crowdedDocument =
      some (.group .and [.leaf ⟨"user.id", .unknown "like", .null⟩]) := rfl
  obtain rfl := Option.some.inj (hread.symm.trans hcondition)
  have hwritten : formBreaches (Condition.toJson
      (.group .and [.leaf ⟨"user.id", .unknown "like", .null⟩])) = [] :=
    (formBreaches_eq_nil_iff _).2 rfl
  refine ⟨haccepted, hcondition, ?_, htexts⟩
  rw [hreport, checkCondition, conditionBreaches, hwritten, ite_self, List.nil_append]
  decide +kernel

end Validator

end Abac
