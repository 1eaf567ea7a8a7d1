import Abac.Context

/-!
Paths below a root. Where a path leads depends on nothing but the value at its root, and of that
value on no attribute but the first that it names. Below a root any value can stand where a path
leads, and a path that is below neither root leads nowhere.
-/

namespace Abac.Context

variable {path : String}

/-- The segments of a path with a dot and more behind it. -/
theorem segments_append (path rest : String) :
    segments (path ++ "." ++ rest) = segments path ++ segments rest := by
  have hchars : (path ++ "." ++ rest).toList = path.toList ++ '.' :: rest.toList := by simp
  rw [segments, hchars, Text.split_append_mark, List.map_append]
  rfl

theorem segments_of_notMem {name : String} (hname : '.' ∉ name.toList) :
    segments name = [name] := by
  rw [segments, Text.split_of_notMem hname, List.map_singleton, String.ofList_toList]

theorem segments_ne_nil (path : String) : segments path ≠ [] := by
  rw [segments, ne_eq, List.map_eq_nil_iff]
  exact Text.split_ne_nil '.' path.toList

/-- A path that starts with the name of a root and a dot has that root as its first segment, and at
least one key. -/
theorem segments_of_startsWith {root : String} (hroot : '.' ∉ root.toList)
    (hpath : Text.startsWith (root ++ ".") path = true) :
    ∃ keys, keys ≠ [] ∧ segments path = root :: keys := by
  obtain ⟨rest, hrest⟩ := List.isPrefixOf_iff_prefix.1 hpath
  have hsplit : path = root ++ "." ++ String.ofList rest := by
    rw [← String.toList_inj, String.toList_append, String.toList_ofList, hrest]
  refine ⟨segments (String.ofList rest), segments_ne_nil _, ?_⟩
  rw [hsplit, segments_append, segments_of_notMem hroot, List.singleton_append]

/-- A path below the subject leads to the same value with and without a resource. -/
theorem resolve?_of_subjectPath (hpath : Text.startsWith subjectPath path = true) :
    ∃ keys : List String, ∀ subject resource,
      resolve? ⟨subject, resource⟩ path = keys.foldlM Json.field? subject := by
  have hroot : '.' ∉ "subject".toList := by decide
  obtain ⟨keys, -, hsegments⟩ := segments_of_startsWith hroot hpath
  refine ⟨keys, fun subject resource => ?_⟩
  simp [resolve?, hsegments, root?]

/-- A path below the resource leads into the resource, which has to be an object. -/
theorem resolve?_of_resourcePath (hpath : Text.startsWith resourcePath path = true) :
    ∃ (key : String) (keys : List String), ∀ subject resource,
      resolve? ⟨subject, some resource⟩ path =
        (resource.field? key).bind (keys.foldlM Json.field? ·) := by
  have hroot : '.' ∉ "resource".toList := by decide
  obtain ⟨keys, hsome, hsegments⟩ := segments_of_startsWith hroot hpath
  obtain ⟨key, keys, rfl⟩ := List.exists_cons_of_ne_nil hsome
  refine ⟨key, keys, fun subject resource => ?_⟩
  simp [resolve?, hsegments, root?]

private theorem exists_foldlM_field? (keys : List String) (value : Json) :
    ∃ root, keys.foldlM Json.field? root = some value := by
  induction keys with
  | nil => exact ⟨value, rfl⟩
  | cons key keys ih =>
    obtain ⟨inner, hinner⟩ := ih
    refine ⟨.object [(key, inner)], ?_⟩
    simp [Json.field?, hinner]

/-- Every value stands at a given path below some subject. -/
theorem exists_subject_resolve? (hpath : Text.startsWith subjectPath path = true) (value : Json) :
    ∃ subject, ∀ resource, resolve? ⟨subject, resource⟩ path = some value := by
  obtain ⟨keys, hkeys⟩ := resolve?_of_subjectPath hpath
  obtain ⟨subject, hsubject⟩ := exists_foldlM_field? keys value
  refine ⟨subject, fun resource => ?_⟩
  rw [hkeys, hsubject]

theorem join_segments (path : String) :
    Text.join '.' ((segments path).map String.toList) = path.toList := by
  have hparts : (segments path).map String.toList = Text.split '.' path.toList := by
    rw [segments, List.map_map]
    apply List.map_id''
    intro part
    exact String.toList_ofList
  rw [hparts, Text.join_split]

theorem eq_of_segments {name : String} (hsegments : segments path = [name]) : path = name := by
  have hjoin := join_segments path
  rw [hsegments] at hjoin
  exact (String.toList_inj.1 hjoin).symm

private theorem startsWith_of_segments {name key : String} {keys : List String}
    (hsegments : segments path = name :: key :: keys) :
    Text.startsWith (name ++ ".") path = true := by
  have hjoin := join_segments path
  rw [hsegments] at hjoin
  apply List.isPrefixOf_iff_prefix.2
  refine ⟨Text.join '.' ((key :: keys).map String.toList), ?_⟩
  rw [← hjoin, String.toList_append, List.append_assoc]
  rfl

/-- A path is its first segment, or starts with it and a dot. -/
theorem eq_or_startsWith_of_segments {name : String} {keys : List String}
    (hsegments : segments path = name :: keys) :
    path = name ∨ Text.startsWith (name ++ ".") path = true := by
  cases keys with
  | nil => exact .inl (eq_of_segments hsegments)
  | cons key keys => exact .inr (startsWith_of_segments hsegments)

private theorem root?_eq_some {context : Context} {name : String} {value : Json}
    (hroot : context.root? name = some value) :
    name = "subject" ∨ name = "resource" ∧ context.hasResource = true := by
  unfold root? at hroot
  split at hroot
  · next hname => exact .inl hname
  · split at hroot
    · next hname => exact .inr ⟨hname, by rw [hasResource, hroot, Option.isSome_some]⟩
    · cases hroot

/-- What leads to a value is the name of a root that is there, or a path below one. -/
theorem isPath_of_resolve? {context : Context} (hresolves : (context.resolve? path).isSome = true) :
    isPath context.hasResource path = true ∨ path = "subject" ∨
      path = "resource" ∧ context.hasResource = true := by
  unfold resolve? at hresolves
  split at hresolves
  · cases hresolves
  · next name keys hsegments =>
    obtain ⟨value, hvalue⟩ := Option.isSome_iff_exists.1 hresolves
    obtain ⟨root, hroot, -⟩ := Option.bind_eq_some_iff.1 hvalue
    rw [isPath_iff]
    rcases root?_eq_some hroot with rfl | ⟨rfl, hresource⟩
    · rcases eq_or_startsWith_of_segments hsegments with hbare | hpath
      · exact .inr (.inl hbare)
      · exact .inl (.inl hpath)
    · rcases eq_or_startsWith_of_segments hsegments with hbare | hpath
      · exact .inr (.inr ⟨hbare, hresource⟩)
      · exact .inl (.inr ⟨hresource, hpath⟩)

/-- The bare name of the resource leads to the resource, if there is one. -/
theorem resolve?_resource (context : Context) :
    context.resolve? "resource" = context.resource := by
  change context.resource.bind some = context.resource
  cases context.resource <;> rfl

/-- Every value stands at a given path below some resource. -/
theorem exists_resource_resolve? (hpath : Text.startsWith resourcePath path = true)
    (value : Json) :
    ∃ resource, ∀ subject, resolve? ⟨subject, some resource⟩ path = some value := by
  obtain ⟨key, keys, hkeys⟩ := resolve?_of_resourcePath hpath
  obtain ⟨resource, hresource⟩ := exists_foldlM_field? (key :: keys) value
  refine ⟨resource, fun subject => ?_⟩
  rw [hkeys]
  exact hresource

/-- Below a root that is there, a path leads to any given value in some context. -/
theorem exists_context_resolve? {hasResource : Bool} (hpath : isPath hasResource path = true)
    (value : Json) :
    ∃ context : Context, context.hasResource = hasResource ∧
      context.resolve? path = some value := by
  rcases isPath_iff.1 hpath with hsubject | ⟨rfl, hresource⟩
  · obtain ⟨subject, hvalue⟩ := exists_subject_resolve? hsubject value
    cases hasResource with
    | false => exact ⟨⟨subject, none⟩, rfl, hvalue none⟩
    | true => exact ⟨⟨subject, some (.object [])⟩, rfl, hvalue _⟩
  · obtain ⟨resource, hvalue⟩ := exists_resource_resolve? hresource value
    exact ⟨⟨.object [], some resource⟩, rfl, hvalue _⟩

theorem exists_resolves_iff {hasResource : Bool} (hsubject : path ≠ "subject")
    (hresource : path ≠ "resource") :
    isPath hasResource path = true ↔ ∃ context : Context, context.hasResource = hasResource ∧
      (context.resolve? path).isSome = true := by
  constructor
  · intro hpath
    obtain ⟨context, hhas, hvalue⟩ := exists_context_resolve? hpath .null
    exact ⟨context, hhas, by rw [hvalue, Option.isSome_some]⟩
  · intro hsome
    obtain ⟨context, hhas, hresolves⟩ := hsome
    rw [← hhas]
    rcases isPath_of_resolve? hresolves with hpath | hbare | ⟨hbare, -⟩
    · exact hpath
    · exact absurd hbare hsubject
    · exact absurd hbare hresource

/-- The path leads to the value at a root as a whole, or goes through one of its attributes. -/
def Addresses (root key path : String) : Prop :=
  segments path = [root] ∨ ∃ keys, segments path = root :: key :: keys

/-- The contexts are the same but for one attribute of a root, which either may lack. -/
structure SameBut (root key : String) (context other : Context) : Prop where
  attributes : ∃ fields others, context.root? root = some (.object fields) ∧
    other.root? root = some (.object others) ∧ ∀ key', key' ≠ key →
      fields.lookup key' = others.lookup key'
  roots : ∀ name, name ≠ root → context.root? name = other.root? name

namespace SameBut

variable {root key : String} {context other : Context}

theorem hasResource_eq (hsame : SameBut root key context other) :
    context.hasResource = other.hasResource := by
  have hresource : (context.root? "resource").isSome = (other.root? "resource").isSome := by
    by_cases hroot : "resource" = root
    · obtain ⟨fields, others, hfields, hothers, -⟩ := hsame.attributes
      rw [hroot, hfields, hothers]
      rfl
    · rw [hsame.roots "resource" hroot]
  simpa [root?, hasResource] using hresource

/-- Paths that do not address the attribute lead to the same values. -/
theorem resolve?_eq (hsame : SameBut root key context other)
    (hpath : ¬ Addresses root key path) : context.resolve? path = other.resolve? path := by
  unfold resolve?
  cases hsegments : segments path with
  | nil => rfl
  | cons name keys =>
    by_cases hname : name = root
    · subst hname
      obtain ⟨fields, others, hfields, hothers, hagree⟩ := hsame.attributes
      cases keys with
      | nil => exact absurd (.inl hsegments) hpath
      | cons key' keys =>
        have hother : key' ≠ key := by
          rintro rfl
          exact hpath (.inr ⟨keys, hsegments⟩)
        simp [hfields, hothers, Json.field?, hagree key' hother]
    · simp only [hsame.roots name hname]

end SameBut

end Abac.Context
