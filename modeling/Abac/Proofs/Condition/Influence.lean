import Abac.Proofs.Condition.Evaluation
import Abac.Proofs.Condition.Shape
import Abac.Proofs.Context.Paths

/-!
What the truth value of a condition depends on: on its comparisons, in the direction of their truth
values, and through them on the values that their paths lead to. So an unknown operator may take a
grant away and never makes one, and an attribute that no path addresses does neither.
-/

namespace Abac

namespace Comparison

variable {comparison : Comparison} {context other : Context}

/-- The right operand is a literal without a resource and a path with one. -/
def NamesResource (comparison : Comparison) : Prop :=
  ∃ text, comparison.right = .string text ∧ Text.startsWith resourcePath text = true

/-- The paths that a comparison reads, given whether there is a resource. -/
def paths (comparison : Comparison) (hasResource : Bool) : List String :=
  comparison.left :: (comparison.rightPath? hasResource).toList

/-- Unless the right operand names the resource, a resource does not make it a path. -/
theorem rightPath?_of_not_namesResource (hnames : ¬ comparison.NamesResource)
    (hasResource : Bool) : comparison.rightPath? hasResource = comparison.rightPath? false := by
  cases hright : comparison.right with
  | string text =>
    have hother : Text.startsWith resourcePath text = false := by
      apply Bool.eq_false_iff.2
      intro hpath
      exact hnames ⟨text, hright, hpath⟩
    simp [rightPath?, hright, isPath, hother]
  | null | bool | number | array | object => simp [rightPath?, hright]

/-- A comparison has the same truth value where its paths lead to the same operands. -/
theorem evaluate_congr (hright : comparison.rightPath? context.hasResource =
      comparison.rightPath? other.hasResource)
    (hpaths : ∀ path ∈ comparison.paths context.hasResource,
      context.resolve? path = other.resolve? path) :
    comparison.evaluate context = comparison.evaluate other := by
  have hleft : comparison.leftOperand context = comparison.leftOperand other :=
    hpaths _ List.mem_cons_self
  have hoperand : comparison.rightOperand context = comparison.rightOperand other := by
    unfold rightOperand
    rw [← hright]
    split
    · next path hpath => exact hpaths path (by simp [paths, hpath])
    · rfl
  rw [evaluate, evaluate, hleft, hoperand]

end Comparison

namespace Condition

variable {context other : Context} {condition : Condition}

/-- Where every comparison that holds is matched by one that holds, so is the condition. -/
theorem evaluate_of_leaves {first second : Condition} (hshape : SameShape first second)
    (hleaves : ∀ way a b, first.follow? way = some (.leaf a) →
      second.follow? way = some (.leaf b) → a.evaluate context = true → b.evaluate other = true)
    (hfirst : first.evaluate context = true) : second.evaluate other = true := by
  induction first generalizing second with
  | leaf a =>
    obtain ⟨b, rfl⟩ := hshape.exists_leaf
    exact hleaves [] a b rfl rfl hfirst
  | group join conditions ih =>
    obtain ⟨others, rfl, hlength, hmembers⟩ := hshape.exists_group
    have hmember : ∀ (index : Nat) (condition member : Condition),
        conditions[index]? = some condition → others[index]? = some member →
          condition.evaluate context = true → member.evaluate other = true := by
      intro index condition member hcondition hother
      apply ih condition (List.mem_of_getElem? hcondition)
        (hmembers index condition member hcondition hother)
      intro way a b ha hb
      apply hleaves (index :: way) a b
      · simpa [follow?, hcondition] using ha
      · simpa [follow?, hother] using hb
    cases join with
    | and =>
      rw [evaluate, all_eq_true_iff] at hfirst ⊢
      intro member hmem
      obtain ⟨index, hindex, rfl⟩ := List.mem_iff_getElem.1 hmem
      have hcondition : conditions[index]? = some conditions[index] :=
        List.getElem?_eq_getElem (hlength ▸ hindex)
      exact hmember index _ _ hcondition (List.getElem?_eq_getElem hindex)
        (hfirst _ (List.getElem_mem _))
    | or =>
      rw [evaluate, any_eq_true_iff] at hfirst ⊢
      obtain ⟨condition, hmem, hholds⟩ := hfirst
      obtain ⟨index, hindex, rfl⟩ := List.mem_iff_getElem.1 hmem
      have hother : others[index]? = some others[index] :=
        List.getElem?_eq_getElem (hlength ▸ hindex)
      exact ⟨others[index], List.getElem_mem _,
        hmember index _ _ (List.getElem?_eq_getElem hindex) hother hholds⟩

/-- Gives comparisons at chosen positions unknown operators with the given names. -/
def disable (names : List Nat → Option String) : Condition → Condition :=
  mapLeaves fun way comparison =>
    match names way with
    | some name => { comparison with op := .unknown name }
    | none => comparison

private theorem evaluate_of_disable {names : List Nat → Option String}
    (hholds : (condition.disable names).evaluate context = true) :
    condition.evaluate context = true := by
  refine evaluate_of_leaves (sameShape_mapLeaves condition) ?_ hholds
  intro way changed comparison hchanged horiginal hchangedHolds
  rw [leaf_of_follow?_mapLeaves hchanged horiginal] at hchangedHolds
  split at hchangedHolds
  · cases hchangedHolds
  · exact hchangedHolds

/-- Evaluation is monotone in the comparisons, and so unknown operators can only deny. -/
theorem evaluation_is_monotone :
    (∀ (context other : Context) (first second : Condition), SameShape first second →
      (∀ way a b, first.follow? way = some (.leaf a) → second.follow? way = some (.leaf b) →
        a.evaluate context = true → b.evaluate other = true) →
      first.evaluate context = true → second.evaluate other = true) ∧
    ∀ (context : Context) (condition : Condition) (names : List Nat → Option String),
      (condition.disable names).evaluate context = true → condition.evaluate context = true := by
  constructor
  · intro context other first second hshape hleaves
    exact evaluate_of_leaves hshape hleaves
  · intro context condition names
    exact evaluate_of_disable

/-- Administrators, and editors from a level on. -/
def editors : Condition :=
  .group .or [.leaf ⟨"subject.role", .eq, .string "admin"⟩,
    .group .and [.leaf ⟨"subject.role", .eq, .string "editor"⟩,
      .leaf ⟨"subject.level", .gte, .number (.int 2)⟩]]

/-- The same from the first level on. -/
def allEditors : Condition :=
  editors.mapLeaves fun way comparison =>
    if way = [1, 1] then { comparison with right := .number (.int 1) } else comparison

def editor (level : Int) : Context :=
  ⟨.object [("level", .number (.int level)), ("role", .string "editor")], none⟩

/-- What editors of the second level may do, those of the first may when it asks for no more. -/
theorem allEditors_hold :
    SameShape editors allEditors ∧
    (∀ way a b, editors.follow? way = some (.leaf a) → allEditors.follow? way = some (.leaf b) →
      a.evaluate (editor 2) = true → b.evaluate (editor 1) = true) ∧
    (editors.disable fun way => if way = [0] then some "like" else none).evaluate (editor 2) =
      true ∧
    editors.evaluate (editor 2) = true ∧ allEditors.evaluate (editor 1) = true := by
  have hshape : SameShape editors allEditors := fun way => (sameShape_mapLeaves editors way).symm
  have hleaves : ∀ way a b, editors.follow? way = some (.leaf a) →
      allEditors.follow? way = some (.leaf b) → a.evaluate (editor 2) = true →
        b.evaluate (editor 1) = true := by
    intro way a b ha hb hholds
    obtain rfl := leaf_of_follow?_mapLeaves hb ha
    have hmem := mem_leaves_iff.2 ha
    simp only [editors, leaves, leavesFrom, List.map_cons, List.map_nil, List.nil_append,
      List.cons_append, List.mem_cons, List.not_mem_nil, or_false, Prod.mk.injEq] at hmem
    rcases hmem with ⟨rfl, rfl⟩ | ⟨rfl, rfl⟩ | ⟨rfl, rfl⟩
    · exact absurd hholds (by decide +kernel)
    · decide +kernel
    · decide +kernel
  have hdisabled : (editors.disable fun way =>
      if way = [0] then some "like" else none).evaluate (editor 2) = true := by
    decide +kernel
  have heditors := evaluation_is_monotone.2 _ _ _ hdisabled
  exact ⟨hshape, hleaves, hdisabled, heditors,
    evaluation_is_monotone.1 _ _ _ _ hshape hleaves heditors⟩

theorem evaluateWithin_congr (hsame : condition.evaluate context = condition.evaluate other)
    (bound : Nat) :
    condition.evaluateWithin bound context = condition.evaluateWithin bound other := by
  rw [evaluateWithin, evaluateWithin, hsame]

theorem evaluate_of_paths
    (hresource : context.hasResource = other.hasResource ∨
      condition.EveryLeaf fun comparison => ¬ comparison.NamesResource)
    (hpaths : condition.EveryLeaf fun comparison =>
      ∀ path ∈ comparison.paths context.hasResource,
        context.resolve? path = other.resolve? path) :
    condition.evaluate context = condition.evaluate other := by
  apply evaluate_congr
  intro way comparison hfollow
  refine comparison.evaluate_congr ?_ (hpaths way comparison hfollow)
  rcases hresource with hsame | hnames
  · rw [hsame]
  · have hnamed := hnames way comparison hfollow
    rw [Comparison.rightPath?_of_not_namesResource hnamed context.hasResource,
      Comparison.rightPath?_of_not_namesResource hnamed other.hasResource]

/-- A condition reads nothing but what its paths lead to. Two contexts in which they lead to the
same operands give it the same truth value, guarded or not, provided that the same right operands
are paths in both. So an attribute that no path addresses has no influence, and what is found at
the end of a path is not followed further. -/
theorem paths_are_all_that_is_read :
    (∀ (context other : Context) (condition : Condition),
      (context.hasResource = other.hasResource ∨
        condition.EveryLeaf fun comparison => ¬ comparison.NamesResource) →
      (condition.EveryLeaf fun comparison => ∀ path ∈ comparison.paths context.hasResource,
        context.resolve? path = other.resolve? path) →
      condition.evaluate context = condition.evaluate other ∧
      ∀ bound, condition.evaluateWithin bound context = condition.evaluateWithin bound other) ∧
    ∀ (root key : String) (context other : Context) (condition : Condition),
      Context.SameBut root key context other →
      (condition.EveryLeaf fun comparison => ∀ path ∈ comparison.paths context.hasResource,
        ¬ Context.Addresses root key path) →
      condition.evaluate context = condition.evaluate other ∧
      ∀ bound, condition.evaluateWithin bound context = condition.evaluateWithin bound other := by
  constructor
  · intro context other condition hresource hpaths
    have hsame := evaluate_of_paths hresource hpaths
    exact ⟨hsame, evaluateWithin_congr hsame⟩
  · intro root key context other condition hbut hunaddressed
    have hsame : condition.evaluate context = condition.evaluate other := by
      refine evaluate_of_paths (.inl hbut.hasResource_eq) ?_
      intro way comparison hfollow path hpath
      exact hbut.resolve?_eq (hunaddressed way comparison hfollow path hpath)
    exact ⟨hsame, evaluateWithin_congr hsame⟩

/-- Administrators, and those who are called as their role says. -/
def namedRole : Condition :=
  .group .or [.leaf ⟨"subject.role", .eq, .string "admin"⟩,
    .leaf ⟨"subject.role", .eq, .string "subject.name"⟩]

/-- A subject whose role is written like a path, with a value at the end of that path. -/
def roleLikePath (secret : String) : Json :=
  .object [("name", .string "subject.name"), ("role", .string "subject.secret"),
    ("secret", .string secret)]

theorem everyLeaf_namedRole {good : Comparison → Prop} :
    namedRole.EveryLeaf good ↔ good ⟨"subject.role", .eq, .string "admin"⟩ ∧
      good ⟨"subject.role", .eq, .string "subject.name"⟩ := by
  simp [namedRole, everyLeaf_group]

private theorem mem_paths_namedRole {good : String → Prop} (hrole : good "subject.role")
    (hname : good "subject.name") :
    namedRole.EveryLeaf fun comparison => ∀ path ∈ comparison.paths false, good path := by
  have hadmin : Comparison.paths ⟨"subject.role", .eq, .string "admin"⟩ false =
      ["subject.role"] := by
    decide +kernel
  have hnamed : Comparison.paths ⟨"subject.role", .eq, .string "subject.name"⟩ false =
      ["subject.role", "subject.name"] := by
    decide +kernel
  rw [everyLeaf_namedRole, hadmin, hnamed]
  simp [hrole, hname]

/-- The secret has no influence, also when it is `admin`, nor has a resource. -/
theorem namedRole_does_not_read_secret :
    (namedRole.EveryLeaf fun comparison => ¬ comparison.NamesResource) ∧
    (namedRole.EveryLeaf fun comparison => ∀ path ∈ comparison.paths false,
      Context.resolve? ⟨roleLikePath "admin", none⟩ path =
        Context.resolve? ⟨roleLikePath "guest", some (.object [])⟩ path) ∧
    Context.SameBut "subject" "secret" ⟨roleLikePath "admin", none⟩
      ⟨roleLikePath "guest", none⟩ ∧
    (namedRole.EveryLeaf fun comparison => ∀ path ∈ comparison.paths false,
      ¬ Context.Addresses "subject" "secret" path) ∧
    namedRole.evaluate ⟨roleLikePath "admin", none⟩ =
      namedRole.evaluate ⟨roleLikePath "guest", some (.object [])⟩ ∧
    namedRole.evaluate ⟨roleLikePath "admin", none⟩ =
      namedRole.evaluate ⟨roleLikePath "guest", none⟩ := by
  have hnames : namedRole.EveryLeaf fun comparison => ¬ comparison.NamesResource := by
    rw [everyLeaf_namedRole]
    constructor
    · rintro ⟨text, hright, hpath⟩
      cases hright
      revert hpath
      decide +kernel
    · rintro ⟨text, hright, hpath⟩
      cases hright
      revert hpath
      decide +kernel
  have hpaths : namedRole.EveryLeaf fun comparison => ∀ path ∈ comparison.paths false,
      Context.resolve? ⟨roleLikePath "admin", none⟩ path =
        Context.resolve? ⟨roleLikePath "guest", some (.object [])⟩ path :=
    mem_paths_namedRole rfl rfl
  have hbut : Context.SameBut "subject" "secret" ⟨roleLikePath "admin", none⟩
      ⟨roleLikePath "guest", none⟩ := by
    refine ⟨⟨_, _, rfl, rfl, fun key hkey => ?_⟩, fun name hname => ?_⟩
    · have hother : (key == "secret") = false := by simpa using hkey
      simp only [List.lookup_cons, hother]
    · simp [Context.root?, hname]
  have hunaddressed : namedRole.EveryLeaf fun comparison => ∀ path ∈ comparison.paths false,
      ¬ Context.Addresses "subject" "secret" path := by
    have hrole : Context.segments "subject.role" = ["subject", "role"] := by
      decide +kernel
    have hname : Context.segments "subject.name" = ["subject", "name"] := by
      decide +kernel
    apply mem_paths_namedRole
    · simp [Context.Addresses, hrole]
    · simp [Context.Addresses, hname]
  obtain ⟨hread, hunread⟩ := paths_are_all_that_is_read
  refine ⟨hnames, hpaths, hbut, hunaddressed, ?_, ?_⟩
  · exact (hread ⟨roleLikePath "admin", none⟩ ⟨roleLikePath "guest", some (.object [])⟩ namedRole
      (.inr hnames) hpaths).1
  · exact (hunread "subject" "secret" ⟨roleLikePath "admin", none⟩ ⟨roleLikePath "guest", none⟩
      namedRole hbut hunaddressed).1

end Condition

end Abac
