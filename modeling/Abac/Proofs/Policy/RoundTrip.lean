import Abac.Proofs.Condition.RoundTrip
import Abac.Proofs.Policy.Acceptance
import Abac.Proofs.Policy.Reading

/-!
Writing policies, entitlements and configurations and reading them back. Numbers must fit 64 bits
and the operators of conditions must be canonical. Both hold of what was read, in either format.
-/

namespace Abac

/-- A list is read back when each of its members is. -/
theorem mapM_map_eq_pure {m : Type → Type} [Monad m] [LawfulMonad m] {α β : Type}
    {write : α → β} {read : β → m α} {values : List α}
    (hread : ∀ value ∈ values, read (write value) = pure value) :
    (values.map write).mapM read = pure values := by
  induction values with
  | nil => rfl
  | cons value rest ih =>
    obtain ⟨hvalue, hrest⟩ := List.forall_mem_cons.1 hread
    rw [List.map_cons, List.mapM_cons, hvalue, ih hrest]
    simp

namespace Json

/-- Operators that are read come from their names. -/
theorem everyComparison_canonical (document : Json) :
    document.EveryComparison fun comparison => comparison.op.Canonical := by
  intro part comparison _ hread
  obtain ⟨name, hop⟩ := Comparison.exists_op_of_ofJson? hread
  rw [hop]
  exact Operator.canonical_ofName name

end Json

variable {format : Format}

private theorem ActionSet.ofJson_toJson (actions : ActionSet) :
    ofJson actions.toJson = .ok actions := by
  have hnames : (actions.names.map Json.string).mapM Json.asString? = some actions.names :=
    mapM_map_eq_pure fun _ _ => rfl
  simp only [ofJson, toJson, Json.asArray?, expect, hnames, bind, Except.bind, ofNames_names]
  rfl

namespace Policy

def Canonical (policy : Policy) : Prop := policy.conditions.Canonical

private theorem ofJson_toJson {policy : Policy} (hcanonical : policy.Canonical) :
    ofJson format policy.toJson = .ok policy := by
  have hconditions : Condition.ofJson? format policy.conditions.toJson = some policy.conditions :=
    Condition.ofJson?_toJson hcanonical
  simp [ofJson, toJson, namedFields, checkSurplus, Draft.read, hconditions, Json.asBool?, expect,
    Draft.policy?, bind, Except.bind, pure, Except.pure]

private theorem yields_ofJson (document : Json) : Yields (ofJson format document) Canonical :=
  yields_everyLeaf (Json.everyComparison_canonical document)

end Policy

namespace Entitlement

structure Canonical (entitlement : Entitlement) : Prop where
  id_lt : entitlement.id < Nat.pow 2 64
  policies : ∀ entry ∈ entitlement.policies, entry.2.Canonical

private theorem ofJson_object {entitlement : Entitlement} {id policies : Json}
    (hid : id.asNatural? = some entitlement.id)
    (hpolicies : readPolicies format policies = .ok entitlement.policies) :
    ofJson format (.object [("description", .string entitlement.description), ("id", id),
      ("policies", policies), ("resource_type", .string entitlement.resourceType),
      ("title", .string entitlement.title)]) = .ok entitlement := by
  have hsorted : Keyed.ofList entitlement.policies = entitlement.policies :=
    Keyed.ofList_of_sorted entitlement.sorted
  simp [ofJson, namedFields, checkSurplus, Draft.read, hid, hpolicies, hsorted, Json.asString?,
    expect, Draft.entitlement?, bind, Except.bind, pure, Except.pure]

private theorem ofJson_toJson {entitlement : Entitlement} (hcanonical : entitlement.Canonical) :
    ofJson format entitlement.toJson = .ok entitlement := by
  rw [toJson]
  apply ofJson_object
  · exact Json.asNatural?_ofNat hcanonical.id_lt
  · apply mapM_map_eq_pure
    intro entry hentry
    rw [Policy.ofJson_toJson (hcanonical.policies entry hentry)]
    rfl

private theorem Upholds.canonical {entitlement : Entitlement}
    (hupholds : entitlement.Upholds fun comparison => comparison.op.Canonical) :
    entitlement.Canonical := ⟨hupholds.id_lt, hupholds.policies⟩

private theorem yields_ofJson (document : Json) : Yields (ofJson format document) Canonical := by
  intro entitlement hread
  have hgood := Json.everyComparison_canonical document
  exact (yields_upholds hgood entitlement hread).canonical

end Entitlement

namespace Configuration

structure Canonical (config : Configuration) : Prop where
  maxDepth_lt : config.maxDepth < Nat.pow 2 64
  entitlements : ∀ entitlement ∈ config.entitlements, entitlement.Canonical

private theorem ofJson_object {config : Configuration} {actions depth : Json}
    {entitlements : List Json}
    (hactions : ActionSet.ofJson actions = .ok config.actions)
    (hentitlements : entitlements.mapM (Entitlement.ofJson .json) = .ok config.entitlements)
    (hdepth : depth.asNatural? = some config.maxDepth) :
    ofJson (.object [("actions", actions), ("entitlements", .array entitlements),
      ("max_depth", depth)]) = .ok config := by
  simp [ofJson, ofFields, namedFields, checkSurplus, Draft.read, hactions, hentitlements, hdepth,
    Json.asArray?, expect, Draft.configuration?, bind, Except.bind, pure, Except.pure]

private theorem ofJson_toJson {config : Configuration} (hcanonical : config.Canonical) :
    ofJson config.toJson = .ok config := by
  rw [toJson]
  apply ofJson_object
  · exact ActionSet.ofJson_toJson config.actions
  · apply mapM_map_eq_pure
    intro entitlement hentitlement
    exact Entitlement.ofJson_toJson (hcanonical.entitlements entitlement hentitlement)
  · exact Json.asNatural?_ofNat hcanonical.maxDepth_lt

private theorem Upholds.canonical {config : Configuration}
    (hupholds : config.Upholds fun comparison => comparison.op.Canonical) : config.Canonical := by
  refine ⟨hupholds.maxDepth_lt, ?_⟩
  intro entitlement hmem
  exact (hupholds.entitlements entitlement hmem).canonical

private theorem yields_ofFields (fields : Fields) : Yields (ofFields format fields) Canonical := by
  intro config hread
  have hgood : ∀ document, ("entitlements", document) ∈ fields →
      document.EveryComparison fun comparison => comparison.op.Canonical :=
    fun document _ => Json.everyComparison_canonical document
  exact (yields_upholds hgood config hread).canonical

private theorem canonical_of_ofJson {document : Json} {config : Configuration}
    (hread : ofJson document = .ok config) : config.Canonical := by
  have hyields : Yields (ofJson document) Canonical := by
    unfold ofJson
    apply yields_of_next
    intro fields
    refine yields_bind (yields_ofFields fields) ?_
    intro config hconfig
    exact yields_of_next fun _ => yields_ok hconfig
  exact hyields config hread

private theorem canonical_of_ofToml {text : String} {config : Configuration}
    (hread : ofToml text = .ok config) : config.Canonical := by
  obtain ⟨table, -, hfields⟩ := ofTomlBy_eq_ok_iff.1 hread
  exact yields_ofFields _ config hfields

/-- Conditions are read back as they were written exactly when their operators are canonical, and
those of conditions that were read are. So policies, entitlements, sets of actions and
configurations that were read are read back as they were. -/
theorem decoding_undoes_encoding :
    (∀ condition : Condition,
      Condition.ofJson? .json condition.toJson = some condition ↔ condition.Canonical) ∧
    (∀ format document condition, Condition.ofJson? format document = some condition →
      condition.Canonical) ∧
    (∀ format document policy, Policy.ofJson format document = .ok policy →
      Policy.ofJson .json policy.toJson = .ok policy) ∧
    (∀ format document entitlement, Entitlement.ofJson format document = .ok entitlement →
      Entitlement.ofJson .json entitlement.toJson = .ok entitlement) ∧
    (∀ actions : ActionSet, ActionSet.ofJson actions.toJson = .ok actions) ∧
    (∀ config : Configuration,
      ((∃ document, ofJson document = .ok config) ∨ ∃ text, ofToml text = .ok config) →
      config.Canonical ∧ ofJson config.toJson = .ok config) ∧
    (∀ config : Configuration, config.Canonical → config.accept = .ok config →
      ∃ reread, ofJson config.toJson = .ok reread ∧ reread.accept = .ok reread ∧
        ∀ request, reread.lookup request = config.lookup request) := by
  refine ⟨?conditions, ?read, ?policies, ?entitlements, ?actions, ?configurations, ?sources⟩
  case conditions =>
    intro condition
    exact ⟨Condition.canonical_of_ofJson?, Condition.ofJson?_toJson⟩
  case read =>
    intro format document condition hread
    exact Condition.canonical_of_ofJson? hread
  case policies =>
    intro format document policy hread
    exact Policy.ofJson_toJson (Policy.yields_ofJson document policy hread)
  case entitlements =>
    intro format document entitlement hread
    exact Entitlement.ofJson_toJson (Entitlement.yields_ofJson document entitlement hread)
  case actions => exact ActionSet.ofJson_toJson
  case configurations =>
    intro config hread
    have hcanonical : config.Canonical := by
      rcases hread with ⟨document, hread⟩ | ⟨text, hread⟩
      · exact canonical_of_ofJson hread
      · exact canonical_of_ofToml hread
    exact ⟨hcanonical, ofJson_toJson hcanonical⟩
  case sources =>
    intro config hcanonical haccept
    exact ⟨config, ofJson_toJson hcanonical, haccept, fun _ => rfl⟩

end Configuration

end Abac
