import Abac.Decision

/-!
Sets of actions. Names are taken one after the other, and the first that is blank or was taken
before refuses them all. Names that are accepted are kept as they are: the same names are looked up,
are enumerated, and have a decision.
-/

namespace Abac

/-- A text is not blank when one of its characters is not. -/
theorem allBlank_eq_false_iff {text : String} :
    Text.allBlank text = false ↔ ∃ c ∈ text.toList, Text.isBlank c = false := by
  simp [Text.allBlank]

/-- What a scan finds is found in one element, and nothing in the elements before it. The scan takes
along the keys of the elements that it has passed, the last in front. -/
theorem exists_of_scan {α κ φ : Type} (check? : List κ → α → Option φ) (key : α → κ)
    (scan? : List κ → List α → Option φ) (hnil : ∀ seen, scan? seen [] = none)
    (hcons : ∀ seen first rest,
      scan? seen (first :: rest) = (check? seen first).or (scan? (key first :: seen) rest))
    {seen : List κ} {elements : List α} {found : φ} (hfound : scan? seen elements = some found) :
    ∃ before element after, elements = before ++ element :: after ∧ scan? seen before = none ∧
      check? ((before.map key).reverse ++ seen) element = some found := by
  induction elements generalizing seen with
  | nil =>
    rw [hnil] at hfound
    cases hfound
  | cons first rest ih =>
    rw [hcons, Option.or_eq_some_iff] at hfound
    rcases hfound with hfirst | ⟨hfirst, hrest⟩
    · exact ⟨[], first, rest, rfl, hnil seen, hfirst⟩
    · obtain ⟨before, element, after, rfl, hbefore, helement⟩ := ih hrest
      refine ⟨first :: before, element, after, rfl, ?_, ?_⟩
      · rw [hcons, hfirst, hbefore, Option.or_none]
      · rwa [List.map_cons, List.reverse_cons, List.append_assoc, List.singleton_append]

namespace ActionSet

variable {names : List String} {index : Nat} {flaw : Flaw}

/-- The flaw of one name that follows others. -/
def nameFlaw? (seen : List String) (name : String) : Option Flaw :=
  if Text.allBlank name then some .blank
  else if name ∈ seen then some (.repeated name)
  else none

private theorem flaw?_cons (seen : List String) (name : String) (rest : List String) :
    flaw? seen (name :: rest) = (nameFlaw? seen name).or (flaw? (name :: seen) rest) := by
  unfold nameFlaw?
  rw [flaw?]
  split
  · rfl
  · split <;> rfl

/-- The name at an index is blank, or it is not blank and repeats an earlier one. -/
inductive FlawAt (names : List String) (index : Nat) : Flaw → Prop
  | blank {name : String} (hat : names[index]? = some name)
      (hblank : ∀ c ∈ name.toList, Text.isBlank c = true) : FlawAt names index .blank
  | repeated {name : String} {earlier : Nat} (hat : names[index]? = some name)
      (hnamed : ∃ c ∈ name.toList, Text.isBlank c = false) (hearlier : earlier < index)
      (hsame : names[earlier]? = some name) : FlawAt names index (.repeated name)

namespace FlawAt

/-- The name at an index has no more than one flaw. -/
theorem unique {other : Flaw} (hflaw : FlawAt names index flaw)
    (hother : FlawAt names index other) : flaw = other := by
  have hclash : ∀ {name : String}, (∀ c ∈ name.toList, Text.isBlank c = true) →
      ¬ ∃ c ∈ name.toList, Text.isBlank c = false := by
    rintro name hblank ⟨c, hc, hkept⟩
    rw [hblank c hc] at hkept
    cases hkept
  cases hflaw with
  | blank hat hblank =>
    cases hother with
    | blank => rfl
    | repeated hat' hnamed =>
      obtain rfl := Option.some.inj (hat.symm.trans hat')
      exact absurd hnamed (hclash hblank)
  | repeated hat hnamed =>
    cases hother with
    | blank hat' hblank =>
      obtain rfl := Option.some.inj (hat.symm.trans hat')
      exact absurd hnamed (hclash hblank)
    | repeated hat' => rw [Option.some.inj (hat.symm.trans hat')]

/-- A flaw does not depend on later names. -/
theorem of_append {rest : List String} (hlt : index < names.length)
    (hflaw : FlawAt (names ++ rest) index flaw) : FlawAt names index flaw := by
  have hfront : ∀ {place : Nat} {name : String}, place ≤ index →
      (names ++ rest)[place]? = some name → names[place]? = some name := by
    intro place name hle hat
    rwa [List.getElem?_append_left (Nat.lt_of_le_of_lt hle hlt)] at hat
  cases hflaw with
  | blank hat hblank => exact .blank (hfront (Nat.le_refl _) hat) hblank
  | repeated hat hnamed hearlier hsame =>
    exact .repeated (hfront (Nat.le_refl _) hat) hnamed hearlier
      (hfront (Nat.le_of_lt hearlier) hsame)

end FlawAt

/-- The check of one name finds its flaw, given the names before it. -/
theorem flawAt_of_nameFlaw? {before after : List String} {name : String}
    (hflaw : nameFlaw? before.reverse name = some flaw) :
    FlawAt (before ++ name :: after) before.length flaw := by
  have hat : (before ++ name :: after)[before.length]? = some name := by simp
  unfold nameFlaw? at hflaw
  split at hflaw
  · next hblank =>
    obtain rfl := Option.some.inj hflaw
    exact .blank hat (List.all_eq_true.1 hblank)
  · next hnamed =>
    split at hflaw
    · next hseen =>
      obtain rfl := Option.some.inj hflaw
      obtain ⟨earlier, hearlier, hsame⟩ := List.getElem_of_mem (List.mem_reverse.1 hseen)
      refine .repeated hat (allBlank_eq_false_iff.1 (by simpa using hnamed)) hearlier ?_
      rw [List.getElem?_append_left hearlier, List.getElem?_eq_getElem hearlier, hsame]
    · cases hflaw

theorem flaw?_eq_none_iff :
    flaw? [] names = none ↔ names.Nodup ∧ ∀ name ∈ names, Text.allBlank name = false := by
  constructor
  · intro hnone
    obtain ⟨hnodup, -, hnamed⟩ := sound_of_flaw?_eq_none hnone
    exact ⟨hnodup, hnamed⟩
  · rintro ⟨hnodup, hnamed⟩
    exact flaw?_eq_none hnodup (fun _ _ => List.not_mem_nil) hnamed

/-- No name is flawed when none is found to be. -/
theorem not_flawAt_of_flaw?_eq_none (hnone : flaw? [] names = none) :
    ¬ FlawAt names index flaw := by
  obtain ⟨hnodup, hnamed⟩ := flaw?_eq_none_iff.1 hnone
  intro hflaw
  cases hflaw with
  | blank hat hblank =>
    have hkept := hnamed _ (List.mem_of_getElem? hat)
    rw [Text.allBlank, List.all_eq_true.2 hblank] at hkept
    cases hkept
  | repeated hat hnamed' hearlier hsame =>
    obtain ⟨hbound, -⟩ := List.getElem?_eq_some_iff.1 hsame
    have hindices := (List.getElem?_inj hbound hnodup).1 (hsame.trans hat.symm)
    omega

/-- The flaw that is found is that of a name, and no name before it has one. -/
theorem exists_first_flawAt (hfound : flaw? [] names = some flaw) :
    ∃ index, FlawAt names index flaw ∧
      ∀ earlier < index, ∀ other, ¬ FlawAt names earlier other := by
  obtain ⟨before, name, after, rfl, hbefore, hname⟩ :=
    exists_of_scan nameFlaw? id flaw? (fun _ => rfl) flaw?_cons hfound
  rw [List.map_id, List.append_nil] at hname
  refine ⟨before.length, flawAt_of_nameFlaw? hname, fun earlier hearlier other hother => ?_⟩
  exact not_flawAt_of_flaw?_eq_none hbefore (hother.of_append hearlier)

/-- The flaw of names is that of the first name that has one. -/
theorem flaw?_eq_some_iff :
    flaw? [] names = some flaw ↔
      ∃ index, FlawAt names index flaw ∧
        ∀ earlier < index, ∀ other, ¬ FlawAt names earlier other := by
  constructor
  · exact exists_first_flawAt
  · rintro ⟨index, hflaw, hfirst⟩
    obtain ⟨found, hfound⟩ := Option.ne_none_iff_exists'.1 fun hnone =>
      not_flawAt_of_flaw?_eq_none hnone hflaw
    obtain ⟨index', hflaw', hfirst'⟩ := exists_first_flawAt hfound
    rcases Nat.lt_trichotomy index index' with hlt | rfl | hgt
    · exact absurd hflaw (hfirst' index hlt flaw)
    · rw [hfound, hflaw'.unique hflaw]
    · exact absurd hflaw' (hfirst index' hgt found)

/-- The text of a flaw tells what the flaw is, and of which name. -/
theorem reason_injective : Function.Injective Flaw.reason := by
  have hrepeated : ∀ name, (Flaw.repeated name).reason.toList =
      "duplicate action '".toList ++ (name.toList ++ "' in action set".toList) := by
    intro name
    rw [← String.toList_append, ← String.toList_append, ← String.append_assoc]
    rfl
  have hdiffer : ∀ name, Flaw.blank.reason ≠ (Flaw.repeated name).reason := by
    intro name hsame
    have hblank : Flaw.blank.reason.toList.head? = some 'a' := rfl
    have hhead : "duplicate action '".toList.head? = some 'd' := rfl
    rw [hsame, hrepeated, List.head?_append, hhead] at hblank
    cases hblank
  intro flaw other hsame
  cases flaw with
  | blank =>
    cases other with
    | blank => rfl
    | repeated name => exact absurd hsame (hdiffer name)
  | repeated name =>
    cases other with
    | blank => exact absurd hsame.symm (hdiffer name)
    | repeated name' =>
      have hchars := congrArg String.toList hsame
      rw [hrepeated, hrepeated] at hchars
      have hname := List.append_cancel_right (List.append_cancel_left hchars)
      rw [String.toList_inj.1 hname]

private theorem ofNames_eq_ok_iff {actions : ActionSet} :
    ofNames names = .ok actions ↔ actions.names = names := by
  constructor
  · intro haccepted
    unfold ofNames at haccepted
    split at haccepted
    · cases haccepted
      rfl
    · cases haccepted
  · rintro rfl
    exact ofNames_names actions

private theorem ofNames_eq_error_iff :
    ofNames names = .error flaw ↔ flaw? [] names = some flaw := by
  unfold ofNames
  split
  · next hnone => simp [hnone]
  · next found hfound => simp [hfound]

/-- Names are accepted when there is something in each and no two are the same. -/
theorem exists_ofNames_iff :
    (∃ actions, ofNames names = .ok actions) ↔
      (∀ name ∈ names, ∃ c ∈ name.toList, Text.isBlank c = false) ∧ names.Nodup := by
  simp only [ofNames_eq_ok_iff, ← allBlank_eq_false_iff]
  constructor
  · rintro ⟨actions, rfl⟩
    exact ⟨actions.named, actions.nodup⟩
  · rintro ⟨hnamed, hnodup⟩
    exact ⟨⟨names, hnodup, hnamed⟩, rfl⟩

private theorem get?_eq_some_iff {actions : ActionSet} {name found : String} :
    actions.get? name = some found ↔ found = name ∧ name ∈ actions.names := by
  constructor
  · intro hfound
    obtain rfl : found = name := by simpa using List.find?_some hfound
    exact ⟨rfl, List.mem_of_find?_eq_some hfound⟩
  · rintro ⟨rfl, hmem⟩
    exact actions.get?_eq_some_of_mem hmem

private theorem contains_iff {actions : ActionSet} {name : String} :
    actions.contains name = true ↔ name ∈ actions.names :=
  List.contains_iff_mem

end ActionSet

namespace Collaborators

variable {m : Type → Type} [Monad m] {collaborators : Collaborators m} {actions : ActionSet}
  {subject : Attributes} {action : String} {target : Target} {decision : m Bool}

/-- Just the configured actions have a decision, and it is the decision about the action. -/
theorem check?_eq_some_iff :
    collaborators.check? actions subject action target = some decision ↔
      action ∈ actions.names ∧ decision = collaborators.decide subject action target := by
  rw [check?, Option.map_eq_some_iff]
  constructor
  · rintro ⟨found, hfound, rfl⟩
    obtain ⟨rfl, hmem⟩ := ActionSet.get?_eq_some_iff.1 hfound
    exact ⟨hmem, rfl⟩
  · rintro ⟨hmem, rfl⟩
    exact ⟨action, actions.get?_eq_some_of_mem hmem, rfl⟩

private theorem map_fst_checkAll :
    (collaborators.checkAll actions subject target).map Prod.fst = actions.names := by
  rw [checkAll, List.map_map]
  exact List.map_id _

/-- Looking an action up and going through all of them lead to the same decisions. -/
theorem mem_checkAll_iff :
    (action, decision) ∈ collaborators.checkAll actions subject target ↔
      collaborators.check? actions subject action target = some decision := by
  rw [check?_eq_some_iff, checkAll, List.mem_map]
  constructor
  · rintro ⟨name, hmem, hsame⟩
    cases hsame
    exact ⟨hmem, rfl⟩
  · rintro ⟨hmem, rfl⟩
    exact ⟨action, hmem, rfl⟩

end Collaborators

namespace ActionSet

/-- A set of actions is just its accepted names. Names are accepted when each has a character that
is not blank and no two are the same. Then the set has them as they were given, these and no others
are found and contained in it, and these and no others have a decision, each once and in its place.
Otherwise they are refused for the first name that is blank or repeats an earlier one, and the text
of the refusal tells which. -/
theorem actions_are_accepted_names (names : List String) :
    ((∃ actions, ofNames names = .ok actions) ↔
      (∀ name ∈ names, ∃ c ∈ name.toList, Text.isBlank c = false) ∧ names.Nodup) ∧
    (∀ actions, ofNames names = .ok actions →
      actions.names = names ∧
      (∀ name found, actions.get? name = some found ↔ found = name ∧ name ∈ names) ∧
      (∀ name, actions.contains name = true ↔ name ∈ names) ∧
      ∀ {m : Type → Type} [Monad m] (collaborators : Collaborators m) (subject : Attributes)
          (target : Target),
        (collaborators.checkAll actions subject target).map Prod.fst = names ∧ names.Nodup ∧
        (∀ action decision, (action, decision) ∈ collaborators.checkAll actions subject target ↔
          collaborators.check? actions subject action target = some decision) ∧
        ∀ action decision, collaborators.check? actions subject action target = some decision ↔
          action ∈ names ∧ decision = collaborators.decide subject action target) ∧
    (∀ flaw, ofNames names = .error flaw ↔ ∃ index, FlawAt names index flaw ∧
      ∀ earlier < index, ∀ other, ¬ FlawAt names earlier other) ∧
    Function.Injective Flaw.reason := by
  refine ⟨exists_ofNames_iff, ?accepted, ?refused, reason_injective⟩
  case accepted =>
    intro actions haccepted
    obtain rfl := ofNames_eq_ok_iff.1 haccepted
    refine ⟨rfl, fun _ _ => get?_eq_some_iff, fun _ => contains_iff, ?_⟩
    intro m _ collaborators subject target
    exact ⟨Collaborators.map_fst_checkAll, actions.nodup,
      fun _ _ => Collaborators.mem_checkAll_iff, fun _ _ => Collaborators.check?_eq_some_iff⟩
  case refused =>
    intro flaw
    rw [ofNames_eq_error_iff, flaw?_eq_some_iff]

/-- Two names are accepted and a third is unknown. Of a repeated and a blank name the one in front
is told. -/
theorem first_flaw_of_read_read_blank :
    (∃ actions, ofNames ["read", "update"] = .ok actions ∧ actions.names = ["read", "update"] ∧
      actions.contains "update" = true ∧ ¬ actions.contains "share" = true) ∧
    ofNames ["read", "read", " "] = .error (.repeated "read") ∧
    ofNames [" ", "read", "read"] = .error .blank := by
  have hread : Text.allBlank "read" = false := by decide
  have hupdate : Text.allBlank "update" = false := by decide
  have hblank : Text.allBlank " " = true := by decide
  refine ⟨?_, ?_, ?_⟩
  · obtain ⟨haccepted, hviews, -⟩ := actions_are_accepted_names ["read", "update"]
    have hnamed : ∀ name ∈ ["read", "update"], ∃ c ∈ name.toList, Text.isBlank c = false := by
      simp only [← allBlank_eq_false_iff]
      simp [hread, hupdate]
    obtain ⟨actions, hactions⟩ := haccepted.2 ⟨hnamed, by decide⟩
    obtain ⟨hnames, -, hcontains, -⟩ := hviews actions hactions
    refine ⟨actions, hactions, hnames, (hcontains _).2 (by decide), ?_⟩
    rw [hcontains]
    decide
  · obtain ⟨-, -, hrefused, -⟩ := actions_are_accepted_names ["read", "read", " "]
    refine (hrefused _).2 ⟨1, .repeated rfl (allBlank_eq_false_iff.1 hread) Nat.zero_lt_one rfl, ?_⟩
    intro earlier hearlier other hother
    obtain rfl := Nat.lt_one_iff.1 hearlier
    cases hother with
    | blank hat hall =>
      obtain rfl := Option.some.inj hat
      rw [Text.allBlank, List.all_eq_true.2 hall] at hread
      cases hread
    | repeated _ _ hbefore => exact absurd hbefore (Nat.not_lt_zero _)
  · obtain ⟨-, -, hrefused, -⟩ := actions_are_accepted_names [" ", "read", "read"]
    exact (hrefused _).2 ⟨0, .blank rfl (List.all_eq_true.1 hblank), fun _ hlt =>
      absurd hlt (Nat.not_lt_zero _)⟩

end ActionSet

end Abac
