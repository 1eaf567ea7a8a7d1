import Abac.Policy.Document
import Abac.Proofs.Condition.Parse
import Abac.Proofs.Condition.Positions
import Abac.Proofs.Toml.Parts

/-!
What documents are read as. Every comparison in the conditions of a policy, an entitlement or a
configuration stands somewhere in the document that it was read from. So it has each property that
all comparisons in that document have. Numbers that are read fit 64 bits.
-/

namespace Abac

/-- What a reader yields has a property, if it yields anything. -/
def Yields {ε α : Type} (result : Except ε α) (P : α → Prop) : Prop :=
  ∀ value, result = .ok value → P value

section Yields

variable {ε α β : Type} {P : α → Prop} {Q : β → Prop}

theorem yields_ok {value : α} (hvalue : P value) : Yields (.ok value : Except ε α) P := by
  rintro other hother
  cases hother
  exact hvalue

private theorem yields_error (reason : ε) : Yields (.error reason) P := by
  rintro value hvalue
  cases hvalue

theorem yields_bind {result : Except ε α} {next : α → Except ε β} (hresult : Yields result P)
    (hnext : ∀ value, P value → Yields (next value) Q) : Yields (result >>= next) Q := by
  cases result with
  | error reason => exact yields_error reason
  | ok value => exact hnext value (hresult value rfl)

theorem yields_of_next {result : Except ε α} {next : α → Except ε β}
    (hnext : ∀ value, Yields (next value) Q) : Yields (result >>= next) Q := by
  refine yields_bind (P := fun _ => True) (fun _ _ => trivial) ?_
  intro value _
  exact hnext value

/-- An invariant of the steps holds at the end of the run. -/
theorem yields_foldlM {step : β → α → Except ε β} {items : List α}
    (hstep : ∀ state, ∀ item ∈ items, Q state → Yields (step state item) Q) {state : β}
    (hstate : Q state) : Yields (items.foldlM step state) Q := by
  induction items generalizing state with
  | nil => exact yields_ok hstate
  | cons item rest ih =>
    rw [List.foldlM_cons]
    refine yields_bind (hstep state item List.mem_cons_self hstate) ?_
    intro next hnext
    apply ih _ hnext
    intro state other hmem
    exact hstep state other (List.mem_cons_of_mem _ hmem)

private theorem yields_mapM {read : α → Except ε β} {items : List α}
    (hread : ∀ item ∈ items, Yields (read item) Q) :
    Yields (items.mapM read) fun values => ∀ value ∈ values, Q value := by
  induction items with
  | nil => exact yields_ok (by simp)
  | cons item rest ih =>
    obtain ⟨hitem, hrest⟩ := List.forall_mem_cons.1 hread
    rw [List.mapM_cons]
    refine yields_bind hitem ?_
    intro value hvalue
    refine yields_bind (ih hrest) ?_
    intro values hvalues
    exact yields_ok (List.forall_mem_cons.2 ⟨hvalue, hvalues⟩)

end Yields

private theorem yields_expect {α : Type} {value : Option α} {P : α → Prop}
    (h : ∀ content, value = some content → P content) : Yields (expect value) P := by
  cases value with
  | none => exact yields_error _
  | some content => exact yields_ok (h content rfl)

private theorem yields_namedFields (names : List String) (document : Json) :
    Yields (namedFields names document) fun fields => ∀ field ∈ fields, document.Child field.2 := by
  cases document with
  | object fields =>
    apply yields_ok
    intro field hfield
    exact .field hfield
  | array items =>
    apply yields_ok
    intro field hfield
    exact .item (List.of_mem_zip hfield).2
  | null | bool | number | string => exact yields_error _

/-- What is read from a record has a property that follows from an invariant of its fields. -/
theorem yields_fields {δ α : Type} {read : δ → String × Json → Except Mismatch δ}
    {finish : δ → Option α} {I : δ → Prop} {P : α → Prop} {start : δ} {document : Json}
    (hstart : I start)
    (hread : ∀ draft field, document.Child field.2 → I draft → Yields (read draft field) I)
    (hfinish : ∀ draft value, I draft → finish draft = some value → P value)
    (names : List String) (format : Format) :
    Yields (do
      let draft ← (← namedFields names document).foldlM read start
      checkSurplus format names document
      expect (finish draft)) P := by
  refine yields_bind (yields_namedFields names document) ?_
  intro fields hfields
  have hstep : ∀ draft, ∀ field ∈ fields, I draft → Yields (read draft field) I := by
    intro draft field hmem hdraft
    exact hread draft field (hfields field hmem) hdraft
  refine yields_bind (yields_foldlM hstep hstart) ?_
  intro draft hdraft
  apply yields_of_next
  intro _
  exact yields_expect fun value hvalue => hfinish draft value hdraft hvalue

private theorem Json.lt_of_asNatural? {document : Json} {value : Nat}
    (hread : document.asNatural? = some value) : value < Nat.pow 2 64 := by
  unfold asNatural? at hread
  split at hread
  · split at hread
    · next hbound =>
      cases hread
      have hfits := hbound.2
      simp only [Nat.pow_eq] at hfits
      omega
    · cases hread
  · cases hread

variable {format : Format} {good : Comparison → Prop} {document : Json}

namespace Json

/-- Every comparison that a document contains, at any level, is good. -/
def EveryComparison (good : Comparison → Prop) (document : Json) : Prop :=
  ∀ part comparison, document.Contains part → Comparison.ofJson? part = some comparison →
    good comparison

private theorem EveryComparison.of_child (hgood : document.EveryComparison good) {part : Json}
    (hchild : document.Child part) : part.EveryComparison good := by
  intro inner comparison hcontains hread
  exact hgood inner comparison (.head hchild hcontains) hread

end Json

namespace Condition

/-- The members of a group stand in a list in its document. -/
theorem child_of_members? {items : List Json} (hmembers : members? document = some items) :
    document.Child (.array items) := by
  unfold members? at hmembers
  split at hmembers
  · next fields =>
    obtain ⟨value, hlookup, hvalue⟩ := Option.bind_eq_some_iff.1 hmembers
    cases value with
    | array values =>
      cases hvalue
      exact .field (Keyed.mem_of_lookup hlookup)
    | null | bool | number | string | object => cases hvalue
  · cases hmembers
    exact .item (List.mem_cons_of_mem _ List.mem_cons_self)
  · cases hmembers

private theorem everyLeaf_of_ofJson? {condition : Condition}
    (hread : ofJson? format document = some condition) (hgood : document.EveryComparison good) :
    condition.EveryLeaf good := by
  induction condition generalizing document with
  | leaf comparison =>
    rw [everyLeaf_leaf]
    exact hgood document comparison .refl (comparison_of_ofJson? hread)
  | group join conditions ih =>
    obtain ⟨items, hmembers, hitems⟩ := exists_members_of_ofJson? hread
    have hlist := hgood.of_child (child_of_members? hmembers)
    rw [everyLeaf_group]
    intro condition hmem
    obtain ⟨item, hitem, hcondition⟩ := exists_item_of_ofJsonAll? hitems hmem
    exact ih condition hmem hcondition (hlist.of_child (.item hitem))

end Condition

namespace Policy

/-- The conditions read so far are made of good comparisons. -/
def Draft.Upholds (good : Comparison → Prop) (draft : Draft) : Prop :=
  ∀ conditions, draft.conditions = some conditions → conditions.EveryLeaf good

private theorem Draft.yields_read {draft : Draft} {field : String × Json}
    (hgood : field.2.EveryComparison good) (hdraft : draft.Upholds good) :
    Yields (draft.read format field) (Draft.Upholds good) := by
  unfold read
  dsimp only
  split
  · exact yields_of_next fun requiresResource => yields_ok hdraft
  split
  · split
    · next conditions hread =>
      apply yields_ok
      rintro _ ⟨⟩
      exact Condition.everyLeaf_of_ofJson? hread hgood
    · exact yields_error _
  · exact yields_ok hdraft

private theorem Draft.everyLeaf_of_policy? {draft : Draft} {policy : Policy}
    (hdraft : draft.Upholds good)
    (hpolicy : draft.policy? = some policy) : policy.conditions.EveryLeaf good := by
  simp only [policy?, Option.bind_eq_bind, Option.bind_eq_some_iff] at hpolicy
  obtain ⟨requiresResource, -, conditions, hconditions, hpolicy⟩ := hpolicy
  cases hpolicy
  exact hdraft conditions hconditions

theorem yields_everyLeaf (hgood : document.EveryComparison good) :
    Yields (ofJson format document) fun policy => policy.conditions.EveryLeaf good := by
  have hstart : Draft.Upholds good {} := by rintro conditions ⟨⟩
  exact yields_fields hstart
    (fun _ _ hchild hdraft => Draft.yields_read (hgood.of_child hchild) hdraft)
    (fun _ _ hdraft hpolicy => Draft.everyLeaf_of_policy? hdraft hpolicy) fieldNames format

end Policy

namespace Entitlement

/-- The number fits 64 bits, and the conditions are made of good comparisons. -/
structure Upholds (good : Comparison → Prop) (entitlement : Entitlement) : Prop where
  id_lt : entitlement.id < Nat.pow 2 64
  policies : ∀ entry ∈ entitlement.policies, entry.2.conditions.EveryLeaf good

/-- So it is with the number and the policies read so far. -/
structure Draft.Upholds (good : Comparison → Prop) (draft : Draft) : Prop where
  id_lt : ∀ id, draft.id = some id → id < Nat.pow 2 64
  policies : ∀ entry ∈ draft.policies, entry.2.conditions.EveryLeaf good

private theorem yields_readPolicies (hgood : document.EveryComparison good) :
    Yields (readPolicies format document) fun policies =>
      ∀ entry ∈ policies, entry.2.conditions.EveryLeaf good := by
  cases document with
  | object fields =>
    apply yields_mapM
    intro field hfield
    refine yields_bind (Policy.yields_everyLeaf (hgood.of_child (.field hfield))) ?_
    intro policy hpolicy
    exact yields_ok hpolicy
  | null | bool | number | string | array => exact yields_error _

private theorem Draft.yields_read {draft : Draft} {field : String × Json}
    (hgood : field.2.EveryComparison good) (hdraft : draft.Upholds good) :
    Yields (draft.read format field) (Draft.Upholds good) := by
  unfold read
  dsimp only
  split
  · refine yields_bind (yields_expect fun id hid => Json.lt_of_asNatural? hid) ?_
    intro id hid
    apply yields_ok
    refine ⟨?_, hdraft.policies⟩
    rintro _ ⟨⟩
    exact hid
  split
  · exact yields_of_next fun title => yields_ok ⟨hdraft.id_lt, hdraft.policies⟩
  split
  · exact yields_of_next fun description => yields_ok ⟨hdraft.id_lt, hdraft.policies⟩
  split
  · exact yields_of_next fun resourceType => yields_ok ⟨hdraft.id_lt, hdraft.policies⟩
  split
  · refine yields_bind (yields_readPolicies hgood) ?_
    intro policies hpolicies
    exact yields_ok ⟨hdraft.id_lt, hpolicies⟩
  · exact yields_ok hdraft

private theorem Draft.upholds_of_entitlement? {draft : Draft} {entitlement : Entitlement}
    (hdraft : draft.Upholds good) (hentitlement : draft.entitlement? = some entitlement) :
    entitlement.Upholds good := by
  simp only [entitlement?, Option.bind_eq_bind, Option.bind_eq_some_iff] at hentitlement
  obtain ⟨id, hid, title, -, resourceType, -, hentitlement⟩ := hentitlement
  cases hentitlement
  refine ⟨hdraft.id_lt id hid, ?_⟩
  intro entry hentry
  exact hdraft.policies entry (Keyed.mem_of_mem_ofList hentry)

theorem yields_upholds (hgood : document.EveryComparison good) :
    Yields (ofJson format document) (Upholds good) := by
  have hstart : Draft.Upholds good {} := ⟨by rintro id ⟨⟩, by simp⟩
  exact yields_fields hstart
    (fun _ _ hchild hdraft => Draft.yields_read (hgood.of_child hchild) hdraft)
    (fun _ _ hdraft hentitlement => Draft.upholds_of_entitlement? hdraft hentitlement)
    fieldNames format

end Entitlement

namespace Configuration

/-- The depth fits 64 bits, and the conditions are made of good comparisons. -/
structure Upholds (good : Comparison → Prop) (config : Configuration) : Prop where
  maxDepth_lt : config.maxDepth < Nat.pow 2 64
  entitlements : ∀ entitlement ∈ config.entitlements, entitlement.Upholds good

/-- So it is with the depth and the entitlements read so far. -/
structure Draft.Upholds (good : Comparison → Prop) (draft : Draft) : Prop where
  maxDepth_lt : draft.maxDepth < Nat.pow 2 64
  entitlements : ∀ entitlement ∈ draft.entitlements, entitlement.Upholds good

/-- Only the entitlements have comparisons to read. -/
theorem Draft.yields_read {draft : Draft} {field : String × Json}
    (hgood : field.1 = "entitlements" → field.2.EveryComparison good)
    (hdraft : draft.Upholds good) : Yields (draft.read format field) (Draft.Upholds good) := by
  unfold read
  dsimp only
  split
  · exact yields_of_next fun actions => yields_ok ⟨hdraft.maxDepth_lt, hdraft.entitlements⟩
  split
  · refine yields_bind (yields_expect fun depth hdepth => Json.lt_of_asNatural? hdepth) ?_
    intro depth hdepth
    exact yields_ok ⟨hdepth, hdraft.entitlements⟩
  split
  · next hname =>
    refine yields_bind (yields_expect (P := fun items => ∀ item ∈ items,
      item.EveryComparison good) ?_) ?_
    · intro items hitems item hmem
      cases hvalue : field.2 with
      | array values =>
        rw [hvalue] at hitems
        cases hitems
        have hlist := hgood hname
        rw [hvalue] at hlist
        exact hlist.of_child (.item hmem)
      | null | bool | number | string | object =>
        rw [hvalue] at hitems
        cases hitems
    intro items hitems
    refine yields_bind (yields_mapM fun item hmem =>
      Entitlement.yields_upholds (hitems item hmem)) ?_
    intro entitlements hentitlements
    exact yields_ok ⟨hdraft.maxDepth_lt, hentitlements⟩
  · exact yields_ok hdraft

theorem yields_upholds {fields : Fields}
    (hgood : ∀ document, ("entitlements", document) ∈ fields → document.EveryComparison good) :
    Yields (ofFields format fields) (Upholds good) := by
  have hstart : Draft.Upholds good {} := ⟨by decide, by simp⟩
  have hstep : ∀ draft : Draft, ∀ field ∈ fields, draft.Upholds good →
      Yields (draft.read format field) (Draft.Upholds good) := by
    intro draft field hmem hdraft
    apply Draft.yields_read _ hdraft
    rintro hname
    apply hgood
    rw [← hname]
    exact hmem
  unfold ofFields
  refine yields_bind (yields_foldlM hstep hstart) ?_
  intro draft hdraft
  apply yields_expect
  intro config hconfig
  simp only [Draft.configuration?, Option.bind_eq_bind, Option.bind_eq_some_iff] at hconfig
  obtain ⟨actions, -, hconfig⟩ := hconfig
  cases hconfig
  exact ⟨hdraft.maxDepth_lt, hdraft.entitlements⟩

end Configuration

end Abac
