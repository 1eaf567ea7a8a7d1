import Mathlib.Data.List.Dedup
import Mathlib.Data.List.Perm.Basic
import Mathlib.Logic.ExistsUnique
import Abac.Proofs.Policy.Acceptance

/-!
Which policies a lookup finds. Every policy stands at a place: in an entitlement and under an
action. A lookup finds the policies at the places that its request names, and the requests about one
resource, one for each type of resource and each action, divide all places among them.
-/

namespace Abac

theorem Configuration.mem_lookup_iff {config : Configuration} {request : Request}
    {condition : Condition} :
    condition ∈ config.lookup request ↔ ∃ entitlement ∈ config.entitlements,
      entitlement.resourceType = request.resourceType ∧
      ∃ policy, entitlement.policy? request.action = some policy ∧
        admits request policy = true ∧ policy.conditions = condition := by
  simp only [lookup, List.mem_map, List.mem_filter, List.mem_filterMap, decide_eq_true_eq]
  constructor
  · rintro ⟨policy, ⟨⟨entitlement, ⟨hmem, htype⟩, hpolicy⟩, hadmits⟩, rfl⟩
    exact ⟨entitlement, hmem, htype, policy, hpolicy, hadmits, rfl⟩
  · rintro ⟨entitlement, hmem, htype, policy, hpolicy, hadmits, rfl⟩
    exact ⟨policy, ⟨⟨entitlement, ⟨hmem, htype⟩, hpolicy⟩, hadmits⟩, rfl⟩

theorem Entitlement.mem_policies_of_policy? {entitlement : Entitlement} {action : String}
    {policy : Policy} (hpolicy : entitlement.policy? action = some policy) :
    (action, policy) ∈ entitlement.policies := Keyed.mem_of_lookup hpolicy

namespace Keyed

/-- In a list in order, at most one entry has a key. -/
theorem filter_key_of_sorted {α : Type} {entries : List (String × α)} (hsorted : Sorted entries)
    (key : String) :
    entries.filter (fun entry => entry.1 = key) =
      ((entries.lookup key).map fun value => (key, value)).toList := by
  induction entries with
  | nil => rfl
  | cons first rest ih =>
    obtain ⟨first, value⟩ := first
    obtain ⟨hfirst, hrest⟩ := List.pairwise_cons.1 hsorted
    by_cases hkey : first = key
    · subst hkey
      have hnone : rest.filter (fun entry => entry.1 = first) = [] := by
        apply List.filter_eq_nil_iff.2
        intro entry hentry
        have hlater : first < entry.1 := hfirst entry hentry
        have hne : entry.1 ≠ first := fun heq => String.lt_irrefl _ (heq ▸ hlater)
        simpa using hne
      simp [hnone]
    · have hother : (key == first) = false := by simpa using Ne.symm hkey
      simp [hkey, List.lookup_cons, hother, ih hrest]

variable {α κ : Type} [DecidableEq κ]

private theorem filter_other_of_ne (key : α → κ) (items : List α) {first other : κ}
    (hne : first ≠ other) :
    (items.filter fun item => !(key item = first)).filter (fun item => key item = other) =
      items.filter fun item => key item = other := by
  rw [List.filter_filter]
  apply List.filter_congr
  intro item _
  by_cases hkey : key item = other
  · simp [hkey, hne.symm]
  · simp [hkey]

/-- Items that are collected key by key are all items, each as often as it was there. -/
theorem flatMap_filter_perm (key : α → κ) {keys : List κ} {items : List α} (hnodup : keys.Nodup)
    (hcovered : ∀ item ∈ items, key item ∈ keys) :
    (keys.flatMap fun k => items.filter fun item => key item = k).Perm items := by
  induction keys generalizing items with
  | nil =>
    have hnone : items = [] := List.eq_nil_iff_forall_not_mem.2 fun item hmem =>
      List.not_mem_nil (hcovered item hmem)
    rw [hnone]
    exact .nil
  | cons first rest ih =>
    obtain ⟨hfresh, hrest⟩ := List.nodup_cons.1 hnodup
    let others := items.filter fun item => !(key item = first)
    have hothers : ∀ item ∈ others, key item ∈ rest := by
      intro item hmem
      obtain ⟨hitem, hne⟩ := List.mem_filter.1 hmem
      rcases List.mem_cons.1 (hcovered item hitem) with hsame | hlater
      · simp [hsame] at hne
      · exact hlater
    have hsame : (rest.flatMap fun k => items.filter fun item => key item = k) =
        rest.flatMap fun k => others.filter fun item => key item = k := by
      apply List.flatMap_congr
      intro k hk
      have hne : first ≠ k := fun heq => hfresh (heq ▸ hk)
      exact (filter_other_of_ne key items hne).symm
    rw [List.flatMap_cons, hsame]
    exact ((ih hrest hothers).append_left _).trans (List.filter_append_perm _ _)

end Keyed

/-- A policy where it stands. -/
structure Placement where
  entitlement : Entitlement
  action : String
  policy : Policy

namespace Placement

/-- The request about one resource that finds a policy where it stands. -/
def request (placement : Placement) : Request :=
  ⟨placement.entitlement.resourceType, placement.action, true⟩

/-- Does a policy stand where a request looks, and does it answer the request? -/
def answers (request : Request) (placement : Placement) : Bool :=
  placement.entitlement.resourceType = request.resourceType && placement.action = request.action &&
    Configuration.admits request placement.policy

private theorem answers_iff {request : Request} {placement : Placement} :
    placement.answers request = true ↔
      placement.entitlement.resourceType = request.resourceType ∧
        placement.action = request.action ∧
        Configuration.admits request placement.policy = true := by
  simp [answers, and_assoc]

private theorem answers_of_requiresResource {request : Request}
    (hitem : request.requiresResource = true)
    (placement : Placement) :
    placement.answers request = decide (placement.request = request) := by
  obtain ⟨type, action, requiresResource⟩ := request
  obtain rfl : requiresResource = true := hitem
  rw [Bool.eq_iff_iff, answers_iff, decide_eq_true_iff]
  simp [Placement.request, Configuration.admits]

end Placement

namespace Entitlement

def placements (entitlement : Entitlement) : List Placement :=
  entitlement.policies.map fun (action, policy) => ⟨entitlement, action, policy⟩

/-- The place at which an entitlement answers a request. -/
def answer? (request : Request) (entitlement : Entitlement) : Option Placement :=
  if entitlement.resourceType = request.resourceType then
    ((entitlement.policy? request.action).filter (Configuration.admits request)).map
      fun policy => ⟨entitlement, request.action, policy⟩
  else none

private theorem entitlement_of_answer? {request : Request} {entitlement : Entitlement}
    {placement : Placement} (hanswer : entitlement.answer? request = some placement) :
    placement.entitlement = entitlement := by
  unfold answer? at hanswer
  split at hanswer
  · obtain ⟨policy, -, rfl⟩ := Option.map_eq_some_iff.1 hanswer
    rfl
  · cases hanswer

/-- An entitlement answers a request at one place at most, since its actions are distinct. -/
theorem filter_placements (request : Request) (entitlement : Entitlement) :
    entitlement.placements.filter (·.answers request) = (entitlement.answer? request).toList := by
  have hplaces :
      entitlement.placements.filter (fun placement => placement.action = request.action) =
        ((entitlement.policy? request.action).map fun policy =>
          (⟨entitlement, request.action, policy⟩ : Placement)).toList := by
    rw [placements, List.filter_map]
    have hkeyed := Keyed.filter_key_of_sorted entitlement.sorted request.action
    unfold policy?
    simp only [Function.comp_def, hkeyed]
    cases entitlement.policies.lookup request.action <;> rfl
  by_cases htype : entitlement.resourceType = request.resourceType
  · have hanswers : entitlement.placements.filter (·.answers request) =
        (entitlement.placements.filter fun placement => placement.action = request.action).filter
          fun placement => Configuration.admits request placement.policy := by
      rw [List.filter_filter]
      apply List.filter_congr
      intro placement hmem
      obtain ⟨entry, -, rfl⟩ := List.mem_map.1 hmem
      simp [Placement.answers, htype, Bool.and_comm]
    rw [hanswers, hplaces, answer?, if_pos htype]
    cases entitlement.policy? request.action with
    | none => rfl
    | some policy =>
      cases hadmits : Configuration.admits request policy <;> simp [Option.filter, hadmits]
  · rw [answer?, if_neg htype, Option.toList_none, List.filter_eq_nil_iff]
    intro placement hmem
    obtain ⟨entry, -, rfl⟩ := List.mem_map.1 hmem
    simp [Placement.answers, htype]

end Entitlement

namespace Configuration

variable {config : Configuration}

def placements (config : Configuration) : List Placement :=
  config.entitlements.flatMap Entitlement.placements

/-- The places at which the policies answer a request. -/
def answering (config : Configuration) (request : Request) : List Placement :=
  config.placements.filter (·.answers request)

/-- The places in the order of the entitlements, one at most in each. -/
theorem answering_eq_filterMap (config : Configuration) (request : Request) :
    config.answering request = config.entitlements.filterMap (·.answer? request) := by
  rw [answering, placements, List.filter_flatMap, List.filterMap_eq_flatMap_toList]
  apply List.flatMap_congr
  intro entitlement _
  exact entitlement.filter_placements request

private theorem lookup_eq_answering (config : Configuration) (request : Request) :
    config.lookup request = (config.answering request).map (·.policy.conditions) := by
  rw [answering_eq_filterMap]
  unfold lookup
  induction config.entitlements with
  | nil => rfl
  | cons entitlement rest ih =>
    by_cases htype : entitlement.resourceType = request.resourceType
    · cases hpolicy : entitlement.policy? request.action with
      | none => simpa [Entitlement.answer?, htype, hpolicy] using ih
      | some policy =>
        cases hadmits : admits request policy with
        | false => simpa [Entitlement.answer?, htype, hpolicy, hadmits] using ih
        | true => simpa [Entitlement.answer?, htype, hpolicy, hadmits] using ih
    · simpa [Entitlement.answer?, htype] using ih

/-- The entitlements that answer a request are met in their order. -/
theorem map_entitlement_answering (config : Configuration) (request : Request) :
    (config.answering request).map (·.entitlement) =
      config.entitlements.filter fun entitlement => (entitlement.answer? request).isSome := by
  rw [answering_eq_filterMap]
  induction config.entitlements with
  | nil => rfl
  | cons entitlement rest ih =>
    cases hanswer : entitlement.answer? request with
    | none => simpa [hanswer] using ih
    | some placement =>
      have hentitlement := Entitlement.entitlement_of_answer? hanswer
      simpa [hanswer, hentitlement] using ih

/-- A request about a type finds what the request about one resource finds, less the policies that
speak of one resource. -/
theorem answering_type (config : Configuration) (type action : String) :
    config.answering ⟨type, action, false⟩ =
      (config.answering ⟨type, action, true⟩).filter
        fun placement => !placement.policy.requiresResource := by
  unfold answering
  rw [List.filter_filter]
  apply List.filter_congr
  intro placement _
  simp [Placement.answers, admits, Bool.and_comm]

private theorem answering_of_requiresResource {request : Request}
    (hitem : request.requiresResource = true) :
    config.answering request =
      config.placements.filter fun placement => placement.request = request := by
  unfold answering
  apply List.filter_congr
  intro placement _
  exact Placement.answers_of_requiresResource hitem placement

/-- The types of resources, each once. -/
def resourceTypes (config : Configuration) : List String :=
  (config.entitlements.map (·.resourceType)).dedup

/-- The requests about one resource: one for each type of resource and each action. -/
def itemRequests (config : Configuration) : List Request :=
  config.resourceTypes.flatMap fun type =>
    config.actions.names.map fun action => ⟨type, action, true⟩

private theorem mem_itemRequests_iff {request : Request} :
    request ∈ config.itemRequests ↔ request.resourceType ∈ config.resourceTypes ∧
      request.action ∈ config.actions.names ∧ request.requiresResource = true := by
  obtain ⟨type, action, requiresResource⟩ := request
  simp only [itemRequests, List.mem_flatMap, List.mem_map]
  constructor
  · rintro ⟨type, htype, action, haction, heq⟩
    cases heq
    exact ⟨htype, haction, rfl⟩
  · rintro ⟨htype, haction, rfl⟩
    exact ⟨type, htype, action, haction, rfl⟩

private theorem nodup_itemRequests (config : Configuration) : config.itemRequests.Nodup := by
  refine List.nodup_flatMap.2 ⟨fun type _ => ?_, ?_⟩
  · refine config.actions.nodup.map fun action other heq => ?_
    cases heq
    rfl
  · have hdistinct : config.resourceTypes.Pairwise (· ≠ ·) := List.nodup_dedup _
    refine hdistinct.imp fun {type other} hne => ?_
    intro request hmem hother
    obtain ⟨action, -, rfl⟩ := List.mem_map.1 hmem
    obtain ⟨action', -, heq⟩ := List.mem_map.1 hother
    cases heq
    exact hne rfl

private theorem entitlement_mem_of_placement {placement : Placement}
    (hmem : placement ∈ config.placements) :
    placement.entitlement ∈ config.entitlements ∧
      (placement.action, placement.policy) ∈ placement.entitlement.policies := by
  obtain ⟨entitlement, hentitlement, hplace⟩ := List.mem_flatMap.1 hmem
  obtain ⟨entry, hentry, rfl⟩ := List.mem_map.1 hplace
  exact ⟨hentitlement, hentry⟩

/-- An accepted configuration has no policy out of reach. -/
theorem request_mem_of_placement (haccepted : config.flaw? = none) {placement : Placement}
    (hmem : placement ∈ config.placements) : placement.request ∈ config.itemRequests := by
  obtain ⟨-, -, hsound⟩ := flaw?_eq_none_iff.1 haccepted
  obtain ⟨hentitlement, hentry⟩ := entitlement_mem_of_placement hmem
  refine mem_itemRequests_iff.2 ⟨?_, ?_, rfl⟩
  · exact List.mem_dedup.2 (List.mem_map.2 ⟨_, hentitlement, rfl⟩)
  · exact (hsound _ hentitlement).configured _ hentry

private theorem answering_itemRequests_perm (haccepted : config.flaw? = none) :
    (config.itemRequests.flatMap config.answering).Perm config.placements := by
  have hfilter : config.itemRequests.flatMap config.answering =
      config.itemRequests.flatMap fun request =>
        config.placements.filter fun placement => placement.request = request := by
    apply List.flatMap_congr
    intro request hmem
    exact answering_of_requiresResource (mem_itemRequests_iff.1 hmem).2.2
  rw [hfilter]
  exact Keyed.flatMap_filter_perm Placement.request config.nodup_itemRequests
    fun placement hmem => request_mem_of_placement haccepted hmem

private theorem existsUnique_request (haccepted : config.flaw? = none) {placement : Placement}
    (hmem : placement ∈ config.placements) :
    ∃! request, request ∈ config.itemRequests ∧ placement ∈ config.answering request := by
  have hrequest := request_mem_of_placement haccepted hmem
  refine ⟨placement.request, ⟨hrequest, ?_⟩, ?_⟩
  · rw [answering_of_requiresResource rfl]
    exact List.mem_filter.2 ⟨hmem, by simp⟩
  · rintro other ⟨hother, hfound⟩
    rw [answering_of_requiresResource (mem_itemRequests_iff.1 hother).2.2] at hfound
    have hsame := (List.mem_filter.1 hfound).2
    exact (of_decide_eq_true hsame).symm

private theorem lookup_eq_nil_of_unknown (haccepted : config.flaw? = none) {request : Request}
    (hunknown : request.resourceType ∉ config.resourceTypes ∨
      request.action ∉ config.actions.names) : config.lookup request = [] := by
  rw [lookup_eq_answering, List.map_eq_nil_iff, answering, List.filter_eq_nil_iff]
  intro placement hmem hanswers
  obtain ⟨htype, haction, -⟩ := Placement.answers_iff.1 hanswers
  obtain ⟨hknownType, hknownAction, -⟩ :=
    mem_itemRequests_iff.1 (request_mem_of_placement haccepted hmem)
  rcases hunknown with hunknown | hunknown
  · exact hunknown (htype ▸ hknownType)
  · exact hunknown (haction ▸ hknownAction)

/-- Lookups lose, repeat and leak no policy. In an accepted configuration a lookup finds the
conditions of the policies at the places that answer its request, in the order of the entitlements
and one at most in each. The requests about one resource find every place exactly once, and other
types and actions find nothing. A request about a type finds what the request about one resource
finds, less the policies that speak of one resource. -/
theorem lookups_divide_policies (config : Configuration) (haccepted : config.flaw? = none) :
    (∀ request, config.lookup request = (config.answering request).map (·.policy.conditions)) ∧
    (config.itemRequests.flatMap config.answering).Perm config.placements ∧
    (config.itemRequests.flatMap config.lookup).Perm
      (config.placements.map (·.policy.conditions)) ∧
    (∀ placement ∈ config.placements,
      ∃! request, request ∈ config.itemRequests ∧ placement ∈ config.answering request) ∧
    (∀ request : Request, request.resourceType ∉ config.resourceTypes ∨
      request.action ∉ config.actions.names → config.lookup request = []) ∧
    (∀ request, ((config.answering request).map (·.entitlement)).Sublist config.entitlements) ∧
    (config.entitlements.map (·.id)).Nodup ∧
    ∀ type action,
      config.answering ⟨type, action, false⟩ =
        (config.answering ⟨type, action, true⟩).filter
          (fun placement => !placement.policy.requiresResource) ∧
      (config.lookup ⟨type, action, false⟩).Sublist (config.lookup ⟨type, action, true⟩) := by
  have hperm := answering_itemRequests_perm haccepted
  refine ⟨config.lookup_eq_answering, hperm, ?_, ?_, ?_, ?_, ?_, ?_⟩
  · have hlookups : config.itemRequests.flatMap config.lookup =
        (config.itemRequests.flatMap config.answering).map (·.policy.conditions) := by
      rw [List.map_flatMap]
      apply List.flatMap_congr
      intro request _
      exact config.lookup_eq_answering request
    rw [hlookups]
    exact hperm.map _
  · intro placement hmem
    exact existsUnique_request haccepted hmem
  · intro request hunknown
    exact lookup_eq_nil_of_unknown haccepted hunknown
  · intro request
    rw [map_entitlement_answering]
    exact List.filter_sublist
  · exact (flaw?_eq_none_iff.1 haccepted).2.1
  · intro type action
    have htype := config.answering_type type action
    refine ⟨htype, ?_⟩
    rw [lookup_eq_answering, lookup_eq_answering, htype]
    exact List.filter_sublist.map _

def ownership : Condition := .leaf ⟨"subject.id", .eq, .string "resource.owner"⟩

def editorship : Condition := .leaf ⟨"subject.role", .eq, .string "editor"⟩

/-- Two entitlements for documents with one for folders between them, and one condition that stands
at two places. -/
def libraryConfiguration : Configuration where
  actions := ⟨["view", "edit"], by decide, by decide⟩
  maxDepth := 1
  entitlements := [
    ⟨1, "owners", "", "doc", [("edit", ⟨true, ownership⟩), ("view", ⟨true, ownership⟩)],
      List.pairwise_pair.2 (by decide)⟩,
    ⟨2, "folders", "", "folder", [("view", ⟨false, editorship⟩)], List.pairwise_singleton _ _⟩,
    ⟨3, "editors", "", "doc", [("view", ⟨false, editorship⟩)], List.pairwise_singleton _ _⟩]

/-- The four requests about one resource find the four policies, the two for viewing documents in
their order, of which viewing documents in general finds the second. -/
theorem lookups_divide_libraryConfiguration :
    libraryConfiguration.flaw? = none ∧
    (libraryConfiguration.itemRequests.flatMap libraryConfiguration.lookup).Perm
      [ownership, ownership, editorship, editorship] ∧
    libraryConfiguration.lookup ⟨"doc", "view", true⟩ = [ownership, editorship] ∧
    [editorship].Sublist (libraryConfiguration.lookup ⟨"doc", "view", true⟩) ∧
    libraryConfiguration.lookup ⟨"doc", "delete", true⟩ = [] := by
  have haccepted : libraryConfiguration.flaw? = none := by decide
  obtain ⟨-, -, hconditions, -, hunknown, -, -, htypes⟩ :=
    lookups_divide_policies libraryConfiguration haccepted
  exact ⟨haccepted, hconditions, rfl, (htypes "doc" "view").2,
    hunknown ⟨"doc", "delete", true⟩ (.inr (by decide))⟩

end Configuration

end Abac
