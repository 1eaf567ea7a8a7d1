import Mathlib.Data.List.Induction
import Abac.Proofs.Context.RoundTrip
import Abac.Proofs.Decision.FailClosed

/-!
The type of a resource. Attributes come to a resource by setting and by reading, and neither puts
anything under the key of the type. So a resource is read back as it was written, and the conditions
of a decision see the type for which the policies were looked up.
-/

namespace Abac

namespace Resource

variable {resource : Resource} {fields : Fields}

/-- The attributes stand in order and leave the key of the type alone. -/
structure Sound (resource : Resource) : Prop where
  sorted : Keyed.Sorted resource.attributes
  untyped : resource.attributes.lookup typeKey = none

/-- The resources that can be made: with a type alone, by setting an attribute, and by reading. -/
inductive Made : Resource → Prop
  | ofType (type : String) : Made (ofType type)
  | set {resource : Resource} (key : String) (value : Json) (hmade : Made resource) :
      Made (resource.set key value)
  | read {fields : Fields} {resource : Resource} (hsorted : Keyed.Sorted fields)
      (hread : ofJson? (.object fields) = some resource) : Made resource

@[simp] theorem type_set (resource : Resource) (key : String) (value : Json) :
    (resource.set key value).type = resource.type := by
  unfold set
  split <;> rfl

private theorem lookup_set (resource : Resource) (key : String) (value : Json) {other : String}
    (hother : other ≠ typeKey) :
    (resource.set key value).attributes.lookup other =
      if other = key then some value else resource.attributes.lookup other := by
  unfold set
  split
  · next hkey =>
    rw [if_neg (hkey ▸ hother)]
  · exact Keyed.lookup_insert key other value resource.attributes

theorem Sound.set (hsound : resource.Sound) (key : String) (value : Json) :
    (resource.set key value).Sound := by
  unfold Resource.set
  split
  · exact hsound
  · next hkey =>
    refine ⟨Keyed.sorted_insert key value hsound.sorted, ?_⟩
    rw [Keyed.lookup_insert, if_neg (Ne.symm hkey), hsound.untyped]

private theorem sound_ofType (type : String) : (ofType type).Sound := ⟨.nil, rfl⟩

/-- A resource with a type whose attributes are set one after the other. -/
def ofSettings (type : String) (settings : Fields) : Resource :=
  settings.foldl (fun resource setting => resource.set setting.1 setting.2) (ofType type)

private theorem ofSettings_append (type : String) (settings : Fields) (key : String)
    (value : Json) :
    ofSettings type (settings ++ [(key, value)]) = (ofSettings type settings).set key value := by
  rw [ofSettings, List.foldl_append]
  rfl

private theorem type_ofSettings (type : String) (settings : Fields) :
    (ofSettings type settings).type = type := by
  induction settings using List.reverseRecOn with
  | nil => rfl
  | append_singleton settings setting ih => rw [ofSettings_append, type_set, ih]

private theorem made_ofSettings (type : String) (settings : Fields) :
    Made (ofSettings type settings) := by
  induction settings using List.reverseRecOn with
  | nil => exact .ofType type
  | append_singleton settings setting ih =>
    rw [ofSettings_append]
    exact ih.set setting.1 setting.2

/-- Under each key stands what was set last. -/
theorem lookup_ofSettings (type : String) (settings : Fields) {key : String}
    (hkey : key ≠ typeKey) :
    (ofSettings type settings).attributes.lookup key = settings.reverse.lookup key := by
  induction settings using List.reverseRecOn with
  | nil => rfl
  | append_singleton settings setting ih =>
    rw [ofSettings_append, lookup_set _ _ _ hkey, ih, List.reverse_append]
    split
    · next hsame =>
      rw [hsame]
      exact (Keyed.lookup_cons_self _ _ _).symm
    · next hne => exact (Keyed.lookup_cons_of_ne hne _ _).symm

private theorem sound_of_ofJson? (hsorted : Keyed.Sorted fields)
    (hread : ofJson? (.object fields) = some resource) : resource.Sound := by
  obtain ⟨_, type, hobject, -, rfl⟩ := ofJson?_eq_some_iff.1 hread
  cases hobject
  refine ⟨hsorted.filter _, ?_⟩
  rw [Keyed.lookup_filter_ne, if_pos rfl]

theorem Made.sound (hmade : Made resource) : resource.Sound := by
  induction hmade with
  | ofType type => exact sound_ofType type
  | set key value _ ih => exact ih.set key value
  | read hsorted hread => exact sound_of_ofJson? hsorted hread

private theorem lookup_toJson (hsound : resource.Sound) (key : String) :
    (Keyed.ofList ((typeKey, .string resource.type) :: resource.attributes)).lookup key =
      if key = typeKey then some (.string resource.type)
      else resource.attributes.lookup key := by
  rw [Keyed.lookup_ofList, List.reverse_cons, List.lookup_append,
    Keyed.lookup_reverse_of_sorted hsound.sorted]
  split
  · next hsame =>
    rw [hsame, hsound.untyped, Option.none_or, Keyed.lookup_cons_self]
  · next hne => rw [Keyed.lookup_cons_of_ne hne, List.lookup_nil, Option.or_none]

private theorem field?_toJson (hsound : resource.Sound) (key : String) :
    resource.toJson.field? key =
      if key = typeKey then some (.string resource.type)
      else resource.attributes.lookup key :=
  lookup_toJson hsound key

/-- What is written is read back. -/
theorem Sound.ofJson?_toJson (hsound : resource.Sound) :
    ofJson? resource.toJson = some resource := by
  rw [ofJson?_eq_some_iff]
  refine ⟨_, resource.type, rfl, ?_, ?_⟩
  · rw [lookup_toJson hsound, if_pos rfl]
  · have hattributes : resource.attributes =
        (Keyed.ofList ((typeKey, .string resource.type) :: resource.attributes)).filter
          fun field => field.1 ≠ typeKey := by
      apply Keyed.eq_of_lookup_eq hsound.sorted ((Keyed.sorted_ofList _).filter _)
      intro key
      rw [Keyed.lookup_filter_ne, lookup_toJson hsound]
      split
      · next hsame => rw [hsame, hsound.untyped]
      · rfl
    rw [← hattributes]

/-- What is read is written as it was. -/
theorem toJson_of_ofJson? (hsorted : Keyed.Sorted fields)
    (hread : ofJson? (.object fields) = some resource) : resource.toJson = .object fields := by
  have hsound := sound_of_ofJson? hsorted hread
  obtain ⟨_, type, hobject, htype, rfl⟩ := ofJson?_eq_some_iff.1 hread
  cases hobject
  apply congrArg Json.object
  apply Keyed.eq_of_lookup_eq (Keyed.sorted_ofList _) hsorted
  intro key
  rw [lookup_toJson hsound, Keyed.lookup_filter_ne]
  split
  · next hsame => rw [hsame, htype]
  · rfl

private theorem isSome_ofJson?_iff {value : Json} :
    (∃ resource, ofJson? value = some resource) ↔
      ∃ fields type, value = .object fields ∧ fields.lookup typeKey = some (.string type) := by
  constructor
  · rintro ⟨resource, hread⟩
    obtain ⟨fields, type, hobject, htype, -⟩ := ofJson?_eq_some_iff.1 hread
    exact ⟨fields, type, hobject, htype⟩
  · rintro ⟨fields, type, hobject, htype⟩
    exact ⟨_, ofJson?_eq_some_iff.2 ⟨fields, type, hobject, htype, rfl⟩⟩

/-- Conditions find the type of the resource where they look for it. -/
theorem Sound.resolve?_type (hsound : resource.Sound) {subject : Attributes} {context : Context}
    (hcontext : Context.ofTarget subject (.ofResource resource) = .ok context) :
    context.resolve? "resource.type" = some (.string resource.type) := by
  have hresource : context.resource = some resource.toJson :=
    (Context.resource_eq_some_iff hcontext).2 ⟨resource.type, rfl⟩
  have hsegments : Context.segments "resource.type" = ["resource", typeKey] := by decide
  have hfield := field?_toJson hsound typeKey
  rw [if_pos rfl] at hfield
  simp [Context.resolve?, hsegments, Context.root?, hresource, hfield]

open Collaborators (listing)

/-- A resource cannot appear under another type than its own. Just the objects with a string under
the key of the type are read as resources, and written again they are what they were: the fields of
an object stand in the order of their keys, each key once. However often attributes are set, also
under that key, the type stays, every other key has what was set last, and the resource is read back
as it was written. In every decision about a resource that was made in one of these ways the
policies are looked up for its type, and all conditions are evaluated where `resource.type` leads to
that type. -/
theorem resource_keeps_its_type :
    (∀ value, (∃ resource, ofJson? value = some resource) ↔
      ∃ fields type, value = .object fields ∧ fields.lookup typeKey = some (.string type)) ∧
    (∀ fields resource, Keyed.Sorted fields → ofJson? (.object fields) = some resource →
      resource.toJson = .object fields) ∧
    (∀ type settings, Made (ofSettings type settings) ∧ (ofSettings type settings).type = type ∧
      ∀ key, key ≠ typeKey →
        (ofSettings type settings).attributes.lookup key = settings.reverse.lookup key) ∧
    ∀ resource, Made resource →
      ofJson? resource.toJson = some resource ∧
      (∀ key, resource.toJson.field? key =
        if key = typeKey then some (.string resource.type)
        else resource.attributes.lookup key) ∧
      (∀ subject, ∃ context,
        Context.ofTarget (.ok subject) (.ofResource resource) = .ok context ∧
        context.resolve? "resource.type" = some (.string resource.type)) ∧
      ∀ source judge subject action, ∃ (granted : Bool) (evaluated : List (Condition × Context))
          (recorded : List Diagnostic),
        ((listing source judge).decide subject action (.ofResource resource)).run [] =
          (granted, .lookup ⟨resource.type, action, true⟩ ::
            (evaluated.map (fun evaluation => .evaluate evaluation.1 evaluation.2) ++
              recorded.map .record)) ∧
        ∀ condition context, (condition, context) ∈ evaluated →
          context.resolve? "resource.type" = some (.string resource.type) := by
  refine ⟨fun _ => isSome_ofJson?_iff, fun _ _ => toJson_of_ofJson?, ?settings, ?made⟩
  case settings =>
    intro type settings
    exact ⟨made_ofSettings type settings, type_ofSettings type settings,
      fun _ hkey => lookup_ofSettings type settings hkey⟩
  case made =>
    intro resource hmade
    have hsound := hmade.sound
    refine ⟨hsound.ofJson?_toJson, field?_toJson hsound, ?_, ?_⟩
    · intro subject
      have hcontext : Context.ofTarget (.ok subject) (.ofResource resource) =
          .ok ⟨subject, some resource.toJson⟩ := rfl
      exact ⟨_, hcontext, hsound.resolve?_type hcontext⟩
    · intro source judge subject action
      obtain ⟨granted, evaluated, recorded, hcourse⟩ :=
        Collaborators.exists_course source judge subject action (.ofResource resource)
      refine ⟨granted, evaluated, recorded, Collaborators.run_listing hcourse, ?_⟩
      intro condition context hmem
      exact hsound.resolve?_type (hcourse.evaluated_in_context hmem)

def documentFields : Fields := [("owner", .ofNat 2), ("type", .string "doc")]

/-- A document that was set to be a folder, in vain, and to have one owner and then another. -/
def renamedDocument : Resource :=
  ofSettings "doc" [("type", .string "folder"), ("owner", .ofNat 1), ("owner", .ofNat 2)]

/-- It is what is read from the fields of a document, and is looked up and evaluated as one. -/
theorem renamedDocument_keeps_its_type :
    Keyed.Sorted documentFields ∧
    ofJson? (.object documentFields) = some renamedDocument ∧
    renamedDocument.toJson = .object documentFields ∧
    Made renamedDocument ∧
    (∃ context, Context.ofTarget (.ok .null) (.ofResource renamedDocument) = .ok context ∧
      context.resolve? "resource.type" = some (.string "doc")) ∧
    renamedDocument.attributes.lookup "owner" = some (.ofNat 2) := by
  obtain ⟨-, hwritten, hsettings, hmade⟩ := resource_keeps_its_type
  obtain ⟨hrenamed, -, howner⟩ :=
    hsettings "doc" [("type", .string "folder"), ("owner", .ofNat 1), ("owner", .ofNat 2)]
  have hordered : Keyed.ofList documentFields = documentFields := rfl
  have hsorted : Keyed.Sorted documentFields := by
    rw [← hordered]
    exact Keyed.sorted_ofList documentFields
  have hread : ofJson? (.object documentFields) = some renamedDocument := rfl
  obtain ⟨-, -, hcontext, -⟩ := hmade renamedDocument hrenamed
  exact ⟨hsorted, hread, hwritten _ _ hsorted hread, hrenamed, hcontext .null,
    howner "owner" (by decide)⟩

end Resource

end Abac
