import Abac.Proofs.Condition.Influence
import Abac.Resource

/-!
Writing contexts and reading them back. A missing resource is not written, and a null that is read
counts as none. So every context comes back as it was but one with a null for a resource, which
comes back without any. What this changes is the bare name of the resource and the operands that are
paths only where there is a resource.
-/

namespace Abac

namespace Context

variable {context reread : Context} {condition : Condition}

theorem ofJson?_toJson (context : Context) :
    ofJson? context.toJson = some (ofParts context.subject context.resource) := by
  obtain ⟨subject, resource⟩ := context
  cases resource with
  | none => rfl
  | some resource => simp [toJson, ofJson?, List.lookup_cons]

/-- Parts make the context that they were taken from, unless the resource is null. -/
theorem ofParts_eq_iff (context : Context) :
    ofParts context.subject context.resource = context ↔ context.resource ≠ some .null := by
  obtain ⟨subject, resource⟩ := context
  constructor
  · intro hsame hnull
    cases hnull
    cases hsame
  · intro hresource
    unfold ofParts
    split
    · next hnull => exact absurd hnull hresource
    · rfl

private theorem ofJson?_toJson_eq_some_iff :
    ofJson? context.toJson = some context ↔ context.resource ≠ some .null := by
  rw [ofJson?_toJson, Option.some.injEq, ofParts_eq_iff]

/-- The resource of a context is what its target has to give. -/
theorem resource_eq_some_iff {subject : Attributes} {target : Target} {resource : Json}
    (hcontext : ofTarget subject target = .ok context) :
    context.resource = some resource ↔ ∃ type, target = .item type (.ok resource) := by
  cases target with
  | item type attributes =>
    cases subject with
    | error reason => cases hcontext
    | ok subject =>
      cases attributes with
      | error reason => cases hcontext
      | ok value =>
        cases hcontext
        simp
  | kind type =>
    cases subject with
    | error reason => cases hcontext
    | ok subject =>
      cases hcontext
      simp

/-- A null resource has no attributes, so only its bare name tells it from none. -/
theorem resolve?_null (subject : Json) {path : String} (hpath : path ≠ "resource") :
    resolve? ⟨subject, some .null⟩ path = resolve? ⟨subject, none⟩ path := by
  unfold resolve?
  cases hsegments : segments path with
  | nil => rfl
  | cons name keys =>
    by_cases hname : name = "resource"
    · subst hname
      cases keys with
      | nil =>
        exact absurd (eq_of_segments hsegments) hpath
      | cons key keys => rfl
    · simp [root?, hname]

private theorem subject_ofParts (context : Context) :
    (ofParts context.subject context.resource).subject = context.subject := by
  unfold ofParts
  split
  · rfl
  · rfl

private theorem resolve?_ofParts (context : Context) {path : String} (hpath : path ≠ "resource") :
    (ofParts context.subject context.resource).resolve? path = context.resolve? path := by
  by_cases hresource : context.resource = some .null
  · obtain ⟨subject, resource⟩ := context
    cases hresource
    exact (resolve?_null subject hpath).symm
  · rw [(ofParts_eq_iff context).2 hresource]

end Context

namespace Comparison

/-- The comparison does not tell a null resource from none. It does not read the bare resource on
its left, and its right operand is no path that only counts where there is a resource. -/
def IgnoresPresence (comparison : Comparison) : Prop :=
  comparison.left ≠ "resource" ∧ ¬ comparison.NamesResource

/-- None of its paths is the bare name of the resource. -/
theorem IgnoresPresence.ne_resource {comparison : Comparison}
    (hignores : comparison.IgnoresPresence) {hasResource : Bool} {path : String}
    (hpath : path ∈ comparison.paths hasResource) : path ≠ "resource" := by
  rintro rfl
  rcases List.mem_cons.1 hpath with hleft | hright
  · exact hignores.1 hleft.symm
  · obtain ⟨-, hrooted⟩ := rightPath?_eq_some_iff.1 (Option.mem_toList.1 hright)
    have hbare : isPath hasResource "resource" = false := by
      cases hasResource <;> rfl
    rw [hbare] at hrooted
    cases hrooted

end Comparison

namespace Context

variable {context : Context} {condition : Condition}

/-- A condition has its truth value also after reading back, unless there was a null resource and a
comparison that tells it from none. -/
theorem evaluate_ofParts (hsame : context.resource ≠ some .null ∨
      condition.EveryLeaf Comparison.IgnoresPresence) :
    condition.evaluate (ofParts context.subject context.resource) = condition.evaluate context := by
  by_cases hresource : context.resource = some .null
  · obtain ⟨subject, resource⟩ := context
    cases hresource
    have hleaves := hsame.resolve_left (fun hother => hother rfl)
    symm
    apply Condition.evaluate_of_paths
    · right
      intro way comparison hfollow
      exact (hleaves way comparison hfollow).2
    · intro way comparison hfollow path hpath
      exact resolve?_null subject ((hleaves way comparison hfollow).ne_resource hpath)
  · rw [(ofParts_eq_iff context).2 hresource]

/-- A context that is written and read comes back as it was just when its resource is not null; a
null resource comes back as none. So contexts of targets that are a kind, or a resource with its own
type, come back as they were, and those of other targets do unless the target is written as null.
Conditions have the same truth values afterwards, guarded or not, as long as the resource was not
null or no comparison tells a null resource from none. -/
theorem context_reads_back_unless_null (context : Context) :
    (ofJson? context.toJson = some context ↔ context.resource ≠ some .null) ∧
    (context.resource = some .null → ofJson? context.toJson = some ⟨context.subject, none⟩) ∧
    (∀ (subject : Attributes) (target : Target), ofTarget subject target = .ok context →
      (ofJson? context.toJson = some context ↔ ∀ type, target ≠ .item type (.ok .null)) ∧
      ((∃ resource, target = .ofResource resource) ∨ (∃ type, target = .kind type) →
        ofJson? context.toJson = some context)) ∧
    ∀ reread, ofJson? context.toJson = some reread →
      reread.subject = context.subject ∧
      (∀ path, path ≠ "resource" → reread.resolve? path = context.resolve? path) ∧
      ∀ condition : Condition,
        (context.resource ≠ some .null ∨ condition.EveryLeaf Comparison.IgnoresPresence) →
        condition.evaluate reread = condition.evaluate context ∧
        ∀ bound, condition.evaluateWithin bound reread =
          condition.evaluateWithin bound context := by
  refine ⟨ofJson?_toJson_eq_some_iff, ?null, ?targets, ?reread⟩
  case null =>
    intro hresource
    rw [ofJson?_toJson, hresource]
    rfl
  case targets =>
    intro subject target hcontext
    rw [ofJson?_toJson_eq_some_iff]
    constructor
    · rw [Ne, resource_eq_some_iff hcontext, not_exists]
    · intro htarget hresource
      obtain ⟨type, hitem⟩ := (resource_eq_some_iff hcontext).1 hresource
      rcases htarget with ⟨resource, rfl⟩ | ⟨kind, rfl⟩
      · cases hitem
      · cases hitem
  case reread =>
    intro reread hread
    rw [ofJson?_toJson, Option.some.injEq] at hread
    subst hread
    refine ⟨subject_ofParts context, fun path => resolve?_ofParts context, ?_⟩
    intro condition hsame
    have hevaluate := evaluate_ofParts hsame
    exact ⟨hevaluate, Condition.evaluateWithin_congr hevaluate⟩

/-- A subject with a role. -/
def inRole (role : String) : Json := .object [("role", .string role)]

/-- Is the role of the subject the one of the resource? -/
def sharedRole : Condition := .leaf ⟨"subject.role", .eq, .string "resource.role"⟩

/-- A null below a resource is kept, and one instead of it makes no difference to administrators. -/
theorem administrators_read_back :
    ofTarget (.ok (inRole "admin")) (.item "doc" (.ok (.object [("owner", .null)]))) =
      .ok ⟨inRole "admin", some (.object [("owner", .null)])⟩ ∧
    ofJson? (toJson ⟨inRole "admin", some (.object [("owner", .null)])⟩) =
      some ⟨inRole "admin", some (.object [("owner", .null)])⟩ ∧
    Condition.namedRole.EveryLeaf Comparison.IgnoresPresence ∧
    ofJson? (toJson ⟨inRole "admin", some .null⟩) = some ⟨inRole "admin", none⟩ ∧
    Condition.namedRole.evaluate ⟨inRole "admin", none⟩ =
      Condition.namedRole.evaluate ⟨inRole "admin", some .null⟩ := by
  have hignores : Condition.namedRole.EveryLeaf Comparison.IgnoresPresence := by
    rw [Condition.everyLeaf_namedRole]
    refine ⟨⟨by decide, ?_⟩, ⟨by decide, ?_⟩⟩
    · rintro ⟨text, hright, hpath⟩
      cases hright
      cases hpath
    · rintro ⟨text, hright, hpath⟩
      cases hright
      cases hpath
  obtain ⟨-, -, htargets, -⟩ :=
    context_reads_back_unless_null ⟨inRole "admin", some (.object [("owner", .null)])⟩
  obtain ⟨-, hnull, -, hreread⟩ := context_reads_back_unless_null ⟨inRole "admin", some .null⟩
  refine ⟨rfl, ?_, hignores, hnull rfl, ?_⟩
  · apply (htargets (.ok (inRole "admin")) (.item "doc" (.ok (.object [("owner", .null)]))) rfl).1.2
    intro type htarget
    cases htarget
  · exact ((hreread _ (hnull rfl)).2.2 _ (.inr hignores)).1

/-- Without the null resource the path on the right becomes a literal, and a subject whose role is
written like that path is let in. -/
theorem null_resource_denies_until_read_back :
    (ofJson? (toJson ⟨inRole "resource.role", some .null⟩)).map hasResource = some false ∧
    hasResource ⟨inRole "resource.role", some .null⟩ = true ∧
    sharedRole.evaluate ⟨inRole "resource.role", some .null⟩ = false ∧
    (ofJson? (toJson ⟨inRole "resource.role", some .null⟩)).map sharedRole.evaluate =
      some true := by
  decide +kernel

end Context

end Abac
