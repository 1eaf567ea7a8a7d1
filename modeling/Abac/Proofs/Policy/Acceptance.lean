import Abac.Policy.Document

/-!
What it takes to accept a configuration. The search for a first flaw finds none just when nothing is
wrong anywhere: no identifier is used twice, no type of resource is blank, and every policy stands
under a configured action.
-/

namespace Abac

/-- Nothing is wrong with an entitlement taken by itself. -/
structure Entitlement.Sound (actions : ActionSet) (entitlement : Entitlement) : Prop where
  named : Text.allBlank entitlement.resourceType = false
  configured : ∀ entry ∈ entitlement.policies, entry.1 ∈ actions.names

namespace Configuration

variable {actions : ActionSet} {seen : List Nat}

private theorem entitlementFlaw?_eq_none_iff {entitlement : Entitlement} :
    entitlementFlaw? actions seen entitlement = none ↔
      entitlement.id ∉ seen ∧ entitlement.Sound actions := by
  unfold entitlementFlaw?
  constructor
  · intro hnone
    split at hnone
    · cases hnone
    · next hid =>
      split at hnone
      · cases hnone
      · next htype =>
        have hpolicies := List.find?_eq_none.1 (Option.map_eq_none_iff.1 hnone)
        exact ⟨hid, by simpa using htype, by simpa [ActionSet.contains] using hpolicies⟩
  · rintro ⟨hid, htype, hpolicies⟩
    have htype' : ¬ Text.allBlank entitlement.resourceType = true := by simp [htype]
    rw [if_neg hid, if_neg htype', Option.map_eq_none_iff, List.find?_eq_none]
    intro entry hentry
    simp [ActionSet.contains, hpolicies entry hentry]

theorem entitlementsFlaw?_eq_none_iff {entitlements : List Entitlement} :
    entitlementsFlaw? actions seen entitlements = none ↔
      (entitlements.map (·.id)).Nodup ∧
        ∀ entitlement ∈ entitlements, entitlement.id ∉ seen ∧ entitlement.Sound actions := by
  induction entitlements generalizing seen with
  | nil => simp [entitlementsFlaw?]
  | cons entitlement rest ih =>
    rw [entitlementsFlaw?, Option.or_eq_none_iff, entitlementFlaw?_eq_none_iff, ih, List.map_cons,
      List.nodup_cons, List.forall_mem_cons]
    constructor
    · rintro ⟨hfirst, hnodup, hrest⟩
      refine ⟨⟨?_, hnodup⟩, hfirst, fun other hother => ?_⟩
      · intro hrepeated
        obtain ⟨other, hother, hid⟩ := List.mem_map.1 hrepeated
        exact (hrest other hother).1 (hid ▸ List.mem_cons_self)
      · obtain ⟨hid, hsound⟩ := hrest other hother
        exact ⟨fun hseen => hid (List.mem_cons_of_mem _ hseen), hsound⟩
    · rintro ⟨⟨hfresh, hnodup⟩, hfirst, hrest⟩
      refine ⟨hfirst, hnodup, fun other hother => ?_⟩
      obtain ⟨hid, hsound⟩ := hrest other hother
      refine ⟨fun hseen => ?_, hsound⟩
      rcases List.mem_cons.1 hseen with hsame | hseen
      · exact hfresh (List.mem_map.2 ⟨other, hother, hsame⟩)
      · exact hid hseen

/-- A configuration without a flaw. -/
theorem flaw?_eq_none_iff {config : Configuration} :
    config.flaw? = none ↔ 0 < config.maxDepth ∧ (config.entitlements.map (·.id)).Nodup ∧
      ∀ entitlement ∈ config.entitlements, entitlement.Sound config.actions := by
  unfold flaw?
  by_cases hdepth : config.maxDepth = 0
  · simp [hdepth]
  · have hpos : 0 < config.maxDepth := Nat.pos_of_ne_zero hdepth
    rw [if_neg hdepth, entitlementsFlaw?_eq_none_iff]
    simp [hpos]

theorem accept_eq_ok_iff {config accepted : Configuration} :
    config.accept = .ok accepted ↔ config.flaw? = none ∧ config = accepted := by
  unfold accept
  cases config.flaw? <;> simp

section Texts

variable {read : String → Except String Toml.Table} {text : String} {config : Configuration}

/-- A text that is read as a configuration has a table, whose fields are those of
a configuration. -/
theorem ofTomlBy_eq_ok_iff :
    ofTomlBy read text = .ok config ↔
      ∃ table, read text = .ok table ∧ ofFields .toml (Toml.fieldsToJson table) = .ok config := by
  unfold ofTomlBy
  cases read text with
  | error reason => simp
  | ok table => cases hfields : ofFields .toml (Toml.fieldsToJson table) <;> simp [hfields]

theorem loadBy_eq_ok_iff :
    loadBy read text = .ok config ↔ ofTomlBy read text = .ok config ∧ config.flaw? = none := by
  unfold loadBy
  cases ofTomlBy read text with
  | error reason => simp
  | ok other =>
    rw [accept_eq_ok_iff, Except.ok.injEq]
    constructor
    · rintro ⟨hsound, rfl⟩
      exact ⟨rfl, hsound⟩
    · rintro ⟨rfl, hsound⟩
      exact ⟨hsound, rfl⟩

end Texts

end Configuration

theorem Toml.Table.ofText_eq_ok_iff {text : String} {table : Toml.Table} :
    Toml.Table.ofText text = .ok table ↔ Toml.Table.ofText? text = some table := by
  unfold Toml.Table.ofText
  cases Toml.Table.ofText? text <;> simp

end Abac
