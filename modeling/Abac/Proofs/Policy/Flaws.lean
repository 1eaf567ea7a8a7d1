import Abac.Proofs.Policy.Acceptance
import Abac.Proofs.Policy.Actions

/-!
The flaw that is reported. A configuration is checked in a fixed order: its depth, and then for each
entitlement its identifier, its type of resource and the actions of its policies. Of all checks that
are violated the first one is reported, and nothing is reported when none is.
-/

namespace Abac

namespace Configuration

variable {config : Configuration} {actions : ActionSet} {seen : List Nat} {flaw : Flaw}

/-- What a configuration is checked for: its depth, and of the entitlement at an index the
identifier, the type of resource, and every action under which it has a policy. -/
inductive Check where
  | depth
  | id (index : Nat)
  | resourceType (index : Nat)
  | action (index : Nat) (name : String)
  deriving DecidableEq

namespace Check

/-- The step in which a check is made. The actions of one entitlement share a step. -/
def step : Check → Nat
  | depth => 0
  | id index => 3 * index + 1
  | resourceType index => 3 * index + 2
  | action index _ => 3 * index + 3

def name : Check → String
  | action _ name => name
  | _ => ""

/-- Checks are made step by step, those of one step in the order of their names. -/
def AtOrBefore (check other : Check) : Prop :=
  check.step < other.step ∨ check.step = other.step ∧ check.name ≤ other.name

private theorem eq_of_step_name {check other : Check} (hstep : check.step = other.step)
    (hname : check.name = other.name) : check = other := by
  cases check <;> cases other <;> grind [step, name]

private theorem AtOrBefore.antisymm {check other : Check} (hle : check.AtOrBefore other)
    (hge : other.AtOrBefore check) : check = other := by
  rcases hle with hlt | ⟨hstep, hle⟩
  · rcases hge with hgt | ⟨hstep, -⟩ <;> omega
  · rcases hge with hgt | ⟨-, hge⟩
    · omega
    · exact eq_of_step_name hstep (String.le_antisymm hle hge)

end Check

/-- A check is violated, and this is the flaw that it finds. -/
inductive Violates (config : Configuration) : Check → Flaw → Prop
  | depth (hzero : config.maxDepth = 0) : Violates config .depth .zeroDepth
  | id {index earlier : Nat} {entitlement other : Entitlement}
      (hat : config.entitlements[index]? = some entitlement) (hearlier : earlier < index)
      (hother : config.entitlements[earlier]? = some other) (hsame : other.id = entitlement.id) :
      Violates config (.id index) (.repeatedId entitlement.id)
  | resourceType {index : Nat} {entitlement : Entitlement}
      (hat : config.entitlements[index]? = some entitlement)
      (hblank : ∀ c ∈ entitlement.resourceType.toList, Text.isBlank c = true) :
      Violates config (.resourceType index) (.blankResourceType entitlement.id)
  | action {index : Nat} {entitlement : Entitlement} {name : String}
      (hat : config.entitlements[index]? = some entitlement)
      (hname : name ∈ entitlement.policies.map (·.1)) (hunknown : name ∉ config.actions.names) :
      Violates config (.action index name) (.unknownAction entitlement.id name)

/-- A check finds no more than one flaw. -/
theorem Violates.unique {check : Check} {other : Flaw} (hviolates : config.Violates check flaw)
    (hother : config.Violates check other) : flaw = other := by
  cases hviolates with
  | depth =>
    cases hother
    rfl
  | id hat =>
    cases hother with
    | id hat' => rw [Option.some.inj (hat.symm.trans hat')]
  | resourceType hat =>
    cases hother with
    | resourceType hat' => rw [Option.some.inj (hat.symm.trans hat')]
  | action hat =>
    cases hother with
    | action hat' => rw [Option.some.inj (hat.symm.trans hat')]

private theorem find?_least {α : Type} (violated : String → Bool) {entries : List (String × α)}
    {found : String × α} (hsorted : Keyed.Sorted entries)
    (hfound : entries.find? (fun entry => violated entry.1) = some found) {name : String}
    (hname : name ∈ entries.map (·.1)) (hviolated : violated name = true) : found.1 ≤ name := by
  obtain ⟨-, before, after, rfl, hbefore⟩ := List.find?_eq_some_iff_append.1 hfound
  obtain ⟨entry, hentry, rfl⟩ := List.mem_map.1 hname
  rcases List.mem_append.1 hentry with hmem | hmem
  · have hkept := hbefore entry hmem
    rw [hviolated] at hkept
    cases hkept
  · rcases List.mem_cons.1 hmem with rfl | hmem
    · exact String.le_refl _
    · have hafter := (List.pairwise_cons.1 (List.pairwise_append.1 hsorted).2.1).1 entry hmem
      exact String.not_lt.1 fun hlt => String.lt_irrefl _ (String.lt_trans hlt hafter)

/-- What an entitlement can be refused for, behind others with the given identifiers. -/
theorem entitlementFlaw?_eq_some {entitlement : Entitlement}
    (hflaw : entitlementFlaw? actions seen entitlement = some flaw) :
    entitlement.id ∈ seen ∧ flaw = .repeatedId entitlement.id ∨
    entitlement.id ∉ seen ∧ (
      Text.allBlank entitlement.resourceType = true ∧ flaw = .blankResourceType entitlement.id ∨
      Text.allBlank entitlement.resourceType = false ∧ ∃ name,
        flaw = .unknownAction entitlement.id name ∧
        name ∈ entitlement.policies.map (·.1) ∧ name ∉ actions.names ∧
        ∀ other ∈ entitlement.policies.map (·.1), other ∉ actions.names → name ≤ other) := by
  unfold entitlementFlaw? at hflaw
  split at hflaw
  · next hid => exact .inl ⟨hid, (Option.some.inj hflaw).symm⟩
  · next hid =>
    refine .inr ⟨hid, ?_⟩
    split at hflaw
    · next hblank => exact .inl ⟨hblank, (Option.some.inj hflaw).symm⟩
    · next hblank =>
      refine .inr ⟨by simpa using hblank, ?_⟩
      obtain ⟨entry, hfound, rfl⟩ := Option.map_eq_some_iff.1 hflaw
      refine ⟨entry.1, rfl, List.mem_map_of_mem (List.mem_of_find?_eq_some hfound), ?_, ?_⟩
      · simpa [ActionSet.contains] using List.find?_some hfound
      · intro other hother hunknown
        apply find?_least (fun name => !actions.contains name) entitlement.sorted hfound hother
        simpa [ActionSet.contains] using hunknown

/-- The first entitlement with a flaw follows others without any. -/
theorem exists_of_entitlementsFlaw? {entitlements : List Entitlement}
    (hflaw : entitlementsFlaw? actions seen entitlements = some flaw) :
    ∃ before entitlement after, entitlements = before ++ entitlement :: after ∧
      entitlementsFlaw? actions seen before = none ∧
      entitlementFlaw? actions ((before.map (·.id)).reverse ++ seen) entitlement = some flaw :=
  exists_of_scan (entitlementFlaw? actions) (·.id) (entitlementsFlaw? actions) (fun _ => rfl)
    (fun _ _ _ => rfl) hflaw

private theorem Check.atOrBefore_of_step_le {check other : Check} (hname : check.name = "")
    (hstep : check.step ≤ other.step) : check.AtOrBefore other := by
  rcases Nat.lt_or_eq_of_le hstep with hlt | hsame
  · exact .inl hlt
  · refine .inr ⟨hsame, ?_⟩
    rw [hname]
    exact String.not_lt.1 fun hlt => List.not_lt_nil _ hlt

/-- No check of the entitlements in front is violated when these are all right. -/
theorem lt_step_of_violates {before rest : List Entitlement} {check : Check}
    (hdepth : 0 < config.maxDepth) (hsplit : config.entitlements = before ++ rest)
    (hnodup : (before.map (·.id)).Nodup)
    (hsound : ∀ entitlement ∈ before, entitlement.Sound config.actions)
    (hviolates : config.Violates check flaw) : 3 * before.length < check.step := by
  have hfront : ∀ {index : Nat} {entitlement : Entitlement}, index < before.length →
      config.entitlements[index]? = some entitlement → before[index]? = some entitlement := by
    intro index entitlement hlt hat
    rwa [hsplit, List.getElem?_append_left hlt] at hat
  apply Nat.lt_of_not_le
  intro hge
  cases hviolates with
  | depth hzero => omega
  | @id index earlier entitlement other hat hearlier hother hsame =>
    have hlt : index < before.length := by
      simp only [Check.step] at hge
      omega
    have hids : (before.map (·.id))[earlier]? = (before.map (·.id))[index]? := by
      rw [List.getElem?_map, List.getElem?_map, hfront hlt hat, hfront (by omega) hother]
      exact congrArg some hsame
    have hbound : earlier < (before.map (·.id)).length := by
      rw [List.length_map]
      omega
    have hindices := (List.getElem?_inj hbound hnodup).1 hids
    omega
  | @resourceType index entitlement hat hblank =>
    have hlt : index < before.length := by
      simp only [Check.step] at hge
      omega
    have hnamed := (hsound entitlement (List.mem_of_getElem? (hfront hlt hat))).named
    rw [Text.allBlank, List.all_eq_true.2 hblank] at hnamed
    cases hnamed
  | @action index entitlement name hat hname hunknown =>
    have hlt : index < before.length := by
      simp only [Check.step] at hge
      omega
    obtain ⟨entry, hentry, rfl⟩ := List.mem_map.1 hname
    exact hunknown
      ((hsound entitlement (List.mem_of_getElem? (hfront hlt hat))).configured entry hentry)

/-- What is violated from the step of an entitlement on: one of its own checks, or a later one. -/
theorem step_cases_of_violates {entitlement : Entitlement} {index : Nat} {check : Check}
    (hat : config.entitlements[index]? = some entitlement)
    (hviolates : config.Violates check flaw) (hfrom : 3 * index < check.step) :
    check.step = 3 * index + 1 ∧ config.Violates (.id index) flaw ∨
    check.step = 3 * index + 2 ∧ Text.allBlank entitlement.resourceType = true ∨
    (∃ name, check = .action index name ∧ name ∈ entitlement.policies.map (·.1) ∧
      name ∉ config.actions.names) ∨
    3 * index + 3 < check.step := by
  cases hviolates with
  | depth hzero => cases hfrom
  | @id other earlier owner _ howner hearlier hother hsame =>
    simp only [Check.step] at hfrom ⊢
    rcases Nat.lt_or_eq_of_le (show index ≤ other by omega) with hlt | rfl
    · omega
    · exact .inl ⟨rfl, .id howner hearlier hother hsame⟩
  | @resourceType other owner howner hblank =>
    simp only [Check.step] at hfrom ⊢
    rcases Nat.lt_or_eq_of_le (show index ≤ other by omega) with hlt | rfl
    · omega
    · obtain rfl := Option.some.inj (hat.symm.trans howner)
      exact .inr (.inl ⟨rfl, List.all_eq_true.2 hblank⟩)
  | @action other owner name howner hname hunknown =>
    simp only [Check.step] at hfrom ⊢
    rcases Nat.lt_or_eq_of_le (show index ≤ other by omega) with hlt | rfl
    · omega
    · obtain rfl := Option.some.inj (hat.symm.trans howner)
      exact .inr (.inr (.inl ⟨name, rfl, hname, hunknown⟩))

/-- The identifier of an entitlement repeats an earlier one. -/
theorem violates_id_iff {before after : List Entitlement} {entitlement : Entitlement}
    (hsplit : config.entitlements = before ++ entitlement :: after) :
    (∃ found, config.Violates (.id before.length) found) ↔
      entitlement.id ∈ before.map (·.id) := by
  have hat : config.entitlements[before.length]? = some entitlement := by
    rw [hsplit]
    simp
  have hfront : ∀ earlier < before.length,
      config.entitlements[earlier]? = before[earlier]? := by
    intro earlier hearlier
    rw [hsplit, List.getElem?_append_left hearlier]
  constructor
  · rintro ⟨found, hviolates⟩
    cases hviolates with
    | @id _ earlier owner other howner hearlier hother hsame =>
      obtain rfl := Option.some.inj (hat.symm.trans howner)
      rw [hfront earlier hearlier] at hother
      exact List.mem_map.2 ⟨other, List.mem_of_getElem? hother, hsame⟩
  · intro hmem
    obtain ⟨other, hother, hsame⟩ := List.mem_map.1 hmem
    obtain ⟨earlier, hearlier, rfl⟩ := List.getElem_of_mem hother
    refine ⟨_, .id hat hearlier ?_ hsame⟩
    rw [hfront earlier hearlier, List.getElem?_eq_getElem hearlier]

/-- A flaw that is found comes from a violated check, and no violated check is made before. -/
theorem exists_first_violated (hflaw : config.flaw? = some flaw) :
    ∃ check, config.Violates check flaw ∧
      ∀ other found, config.Violates other found → check.AtOrBefore other := by
  unfold flaw? at hflaw
  split at hflaw
  · next hzero =>
    obtain rfl := Option.some.inj hflaw
    exact ⟨.depth, .depth hzero, fun other _ _ =>
      Check.atOrBefore_of_step_le rfl (Nat.zero_le _)⟩
  next hdepth =>
  obtain ⟨before, entitlement, after, hsplit, hbefore, hfound⟩ :=
    exists_of_entitlementsFlaw? hflaw
  obtain ⟨hnodup, hsound⟩ := entitlementsFlaw?_eq_none_iff.1 hbefore
  have hat : config.entitlements[before.length]? = some entitlement := by
    rw [hsplit]
    simp
  have hfrom : ∀ {other found}, config.Violates other found → 3 * before.length < other.step :=
    lt_step_of_violates (Nat.pos_of_ne_zero hdepth) hsplit hnodup
      fun other hother => (hsound other hother).2
  rw [List.append_nil] at hfound
  rcases entitlementFlaw?_eq_some hfound with
    ⟨hid, rfl⟩ | ⟨hid, ⟨hblank, rfl⟩ | ⟨hnamed, name, rfl, hname, hunknown, hleast⟩⟩
  · obtain ⟨found, hviolates⟩ := (violates_id_iff hsplit).2 (List.mem_reverse.1 hid)
    cases hviolates with
    | id howner hearlier hother hsame =>
      obtain rfl := Option.some.inj (hat.symm.trans howner)
      refine ⟨_, .id hat hearlier hother hsame, fun other found hviolates => ?_⟩
      exact Check.atOrBefore_of_step_le rfl (hfrom hviolates)
  · refine ⟨_, .resourceType hat (List.all_eq_true.1 hblank), fun other found hviolates => ?_⟩
    apply Check.atOrBefore_of_step_le rfl
    show 3 * before.length + 2 ≤ other.step
    rcases step_cases_of_violates hat hviolates (hfrom hviolates) with
      ⟨-, hrepeats⟩ | ⟨hstep, -⟩ | ⟨name, rfl, -⟩ | hlater
    · exact absurd (List.mem_reverse.2 ((violates_id_iff hsplit).1 ⟨_, hrepeats⟩)) hid
    · omega
    · exact Nat.le_succ _
    · omega
  · refine ⟨_, .action hat hname hunknown, fun other found hviolates => ?_⟩
    rcases step_cases_of_violates hat hviolates (hfrom hviolates) with
      ⟨-, hrepeats⟩ | ⟨-, hblank⟩ | ⟨name', rfl, hname', hunknown'⟩ | hlater
    · exact absurd (List.mem_reverse.2 ((violates_id_iff hsplit).1 ⟨_, hrepeats⟩)) hid
    · rw [hnamed] at hblank
      cases hblank
    · exact .inr ⟨rfl, hleast name' hname' hunknown'⟩
    · exact .inl hlater

private theorem exists_flaw_of_violates {check : Check} (hviolates : config.Violates check flaw) :
    ∃ found, config.flaw? = some found := by
  apply Option.ne_none_iff_exists'.1
  intro hnone
  obtain ⟨hdepth, hnodup, hsound⟩ := flaw?_eq_none_iff.1 hnone
  have hlt := lt_step_of_violates hdepth (List.append_nil _).symm hnodup hsound hviolates
  have hindex : check.step ≤ 3 * config.entitlements.length := by
    cases hviolates with
    | depth hzero => omega
    | id hat | resourceType hat | action hat =>
      have hlength := (List.getElem?_eq_some_iff.1 hat).1
      simp only [Check.step]
      omega
  omega

/-- The flaw of a configuration is what the first violated check finds. -/
theorem flaw?_eq_some_iff :
    config.flaw? = some flaw ↔ ∃ check, config.Violates check flaw ∧
      ∀ other found, config.Violates other found → check.AtOrBefore other := by
  constructor
  · exact exists_first_violated
  · rintro ⟨check, hviolates, hfirst⟩
    obtain ⟨found, hfound⟩ := exists_flaw_of_violates hviolates
    obtain ⟨check', hviolates', hfirst'⟩ := exists_first_violated hfound
    obtain rfl := (hfirst _ _ hviolates').antisymm (hfirst' _ _ hviolates)
    rw [hfound, hviolates.unique hviolates']

end Configuration

end Abac
