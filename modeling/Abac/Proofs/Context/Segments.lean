import Mathlib.Logic.ExistsUnique
import Abac.Proofs.Context.Paths

/-!
Paths segment by segment. With a dot behind it a path goes on from where it leads, and it goes on
into objects only, under keys without dots. So a path is a descent from a root by the names that its
dots keep apart, and what is not below objects alone, or below a key that has a dot, is out of its
reach.
-/

namespace Abac

namespace Json

/-- The value that a descent by the given keys comes to. It goes through objects only. -/
def descend? : List String → Json → Option Json
  | [], value => some value
  | key :: keys, object fields => (fields.lookup key).bind (descend? keys)
  | _ :: _, _ => none

private theorem foldlM_field? (keys : List String) (value : Json) :
    keys.foldlM field? value = descend? keys value := by
  induction keys generalizing value with
  | nil => rfl
  | cons key keys ih =>
    cases value with
    | object fields =>
      rw [List.foldlM_cons, descend?]
      exact Option.bind_congr fun inner _ => ih inner
    | null | bool | number | string | array => rfl

private theorem field?_eq_some_iff {value inner : Json} {key : String} :
    value.field? key = some inner ↔
      ∃ fields, value = object fields ∧ fields.lookup key = some inner := by
  cases value <;> simp [field?]

private theorem field?_eq_none_iff {value : Json} {key : String} :
    value.field? key = none ↔
      value.isObject = false ∨ ∃ fields, value = object fields ∧ fields.lookup key = none := by
  cases value <;> simp [field?, isObject]

mutual

/-- A value without all that no path leads to: the items of arrays, and what objects have under keys
with a dot. -/
def reachable : Json → Json
  | array _ => array []
  | object fields => object (reachableFields fields)
  | value => value

def reachableFields : Fields → Fields
  | [] => []
  | (key, value) :: rest =>
    if '.' ∈ key.toList then reachableFields rest
    else (key, reachable value) :: reachableFields rest

end

private theorem lookup_reachableFields {key : String} (hkey : '.' ∉ key.toList) (fields : Fields) :
    (reachableFields fields).lookup key = (fields.lookup key).map reachable := by
  induction fields with
  | nil => rfl
  | cons entry rest ih =>
    obtain ⟨name, value⟩ := entry
    rw [reachableFields]
    by_cases hsame : key = name
    · subst hsame
      rw [if_neg hkey, Keyed.lookup_cons_self, Keyed.lookup_cons_self, Option.map_some]
    · rw [Keyed.lookup_cons_of_ne hsame]
      split
      · exact ih
      · rw [Keyed.lookup_cons_of_ne hsame, ih]

/-- A descent by keys without dots does not miss what is out of reach. -/
theorem descend?_reachable {keys : List String} (hkeys : ∀ key ∈ keys, '.' ∉ key.toList)
    (value : Json) : descend? keys value.reachable = (descend? keys value).map reachable := by
  induction keys generalizing value with
  | nil => rfl
  | cons key keys ih =>
    obtain ⟨hkey, hrest⟩ := List.forall_mem_cons.1 hkeys
    cases value with
    | object fields =>
      rw [reachable, descend?, descend?, lookup_reachableFields hkey, Option.bind_map,
        Option.map_bind]
      exact Option.bind_congr fun inner _ => ih hrest inner
    | null | bool | number | string | array => rfl

end Json

namespace Context

variable {context : Context} {path key : String} {names : List String}

private theorem notMem_of_mem_segments {name : String} (hname : name ∈ segments path) :
    '.' ∉ name.toList := by
  obtain ⟨part, hpart, rfl⟩ := List.mem_map.1 hname
  rw [String.toList_ofList]
  exact Text.notMem_of_mem_split hpart

private theorem exists_segments (path : String) : ∃ name keys, segments path = name :: keys :=
  List.exists_cons_of_ne_nil (segments_ne_nil path)

/-- Names without dots are the segments of the path that they make up. -/
theorem segments_intercalate (hsome : names ≠ []) (hnames : ∀ name ∈ names, '.' ∉ name.toList) :
    segments (".".intercalate names) = names := by
  induction names with
  | nil => exact absurd rfl hsome
  | cons name rest ih =>
    obtain ⟨hname, hrest⟩ := List.forall_mem_cons.1 hnames
    cases rest with
    | nil => rw [String.intercalate_singleton, segments_of_notMem hname]
    | cons next rest =>
      rw [String.intercalate_cons_cons, segments_append, segments_of_notMem hname,
        ih (List.cons_ne_nil _ _) hrest, List.singleton_append]

/-- A path is made up of its segments. -/
theorem intercalate_segments (path : String) : ".".intercalate (segments path) = path := by
  have hjoin := join_segments path
  rw [Text.join_eq_intercalate] at hjoin
  rw [← String.toList_inj, String.toList_intercalate]
  exact hjoin

private theorem existsUnique_names (path : String) :
    ∃! names, names ≠ [] ∧ (∀ name ∈ names, '.' ∉ name.toList) ∧ ".".intercalate names = path := by
  refine ⟨segments path, ⟨segments_ne_nil path, fun _ => notMem_of_mem_segments,
    intercalate_segments path⟩, ?_⟩
  rintro names ⟨hsome, hnames, rfl⟩
  exact (segments_intercalate hsome hnames).symm

/-- The value that successive lookups come to: of a root by the first name, and of fields of nested
objects by the others. -/
def descend? (context : Context) : List String → Option Json
  | [] => none
  | name :: keys => (context.root? name).bind (Json.descend? keys)

private theorem resolve?_eq_descend? (context : Context) (path : String) :
    context.resolve? path = context.descend? (segments path) := by
  obtain ⟨name, keys, hsegments⟩ := exists_segments path
  simp only [resolve?, hsegments, descend?, Json.foldlM_field?]

/-- With a dot behind it a path goes on from the value that it leads to. -/
theorem resolve?_append (context : Context) (path rest : String) :
    context.resolve? (path ++ "." ++ rest) =
      (context.resolve? path).bind (Json.descend? (segments rest)) := by
  obtain ⟨name, keys, hsegments⟩ := exists_segments path
  simp only [resolve?, segments_append, hsegments, List.cons_append, List.foldlM_append,
    Json.foldlM_field?, Option.bind_assoc]
  rfl

private theorem resolve?_append_key (hkey : '.' ∉ key.toList) :
    context.resolve? (path ++ "." ++ key) =
      (context.resolve? path).bind fun value => value.field? key := by
  rw [resolve?_append, segments_of_notMem hkey]
  apply Option.bind_congr
  intro value _
  rw [← Json.foldlM_field?, List.foldlM_cons]
  exact Option.bind_fun_some _

private theorem resolve?_append_key_eq_some_iff {value : Json} (hkey : '.' ∉ key.toList) :
    context.resolve? (path ++ "." ++ key) = some value ↔
      ∃ fields, context.resolve? path = some (.object fields) ∧ fields.lookup key = some value := by
  rw [resolve?_append_key hkey, Option.bind_eq_some_iff]
  simp only [Json.field?_eq_some_iff]
  constructor
  · rintro ⟨_, hpath, fields, rfl, hvalue⟩
    exact ⟨fields, hpath, hvalue⟩
  · rintro ⟨fields, hpath, hvalue⟩
    exact ⟨_, hpath, fields, rfl, hvalue⟩

private theorem resolve?_append_key_eq_none_iff (hkey : '.' ∉ key.toList) :
    context.resolve? (path ++ "." ++ key) = none ↔
      context.resolve? path = none ∨
      (∃ value, context.resolve? path = some value ∧ value.isObject = false) ∨
      ∃ fields, context.resolve? path = some (.object fields) ∧ fields.lookup key = none := by
  rw [resolve?_append_key hkey]
  cases context.resolve? path with
  | none => simp
  | some value => simp [Json.field?_eq_none_iff]

private theorem resolve?_intercalate (hnames : ∀ name ∈ names, '.' ∉ name.toList) :
    context.resolve? (".".intercalate names) = context.descend? names := by
  by_cases hsome : names = []
  · subst hsome
    rfl
  · rw [resolve?_eq_descend?, segments_intercalate hsome hnames]

/-- No path goes on from a value that is no object. -/
theorem resolve?_append_of_not_object {value : Json}
    (hvalue : context.resolve? path = some value) (hscalar : value.isObject = false)
    (rest : String) : context.resolve? (path ++ "." ++ rest) = none := by
  obtain ⟨key, keys, hsegments⟩ := exists_segments rest
  rw [resolve?_append, hvalue, Option.bind_some, hsegments]
  cases value with
  | object fields => cases hscalar
  | null | bool | number | string | array => rfl

/-- A context without all that no path leads to. -/
def reachable (context : Context) : Context :=
  ⟨context.subject.reachable, context.resource.map Json.reachable⟩

private theorem root?_reachable (context : Context) (name : String) :
    context.reachable.root? name = (context.root? name).map Json.reachable := by
  unfold root? reachable
  split
  · rfl
  · split <;> rfl

private theorem resolve?_reachable (context : Context) (path : String) :
    context.reachable.resolve? path = (context.resolve? path).map Json.reachable := by
  obtain ⟨name, keys, hsegments⟩ := exists_segments path
  have hkeys : ∀ key ∈ keys, '.' ∉ key.toList := by
    intro key hmem
    have hsegment : key ∈ segments path := by
      rw [hsegments]
      exact List.mem_cons_of_mem name hmem
    exact notMem_of_mem_segments hsegment
  rw [resolve?_eq_descend?, resolve?_eq_descend?, hsegments, descend?, descend?, root?_reachable,
    Option.bind_map, Option.map_bind]
  exact Option.bind_congr fun value _ => Json.descend?_reachable hkeys value

/-- Resolution composes. A path with a dot and a key behind it leads to what an object at the path
has under the key, and nowhere when the path leads nowhere, to no object, or to one without the key.
So names without dots, joined by dots, lead where the lookups of the names lead one after the other,
and there is one way to read a path as such names. Nothing goes on behind a value that is no object,
and whatever paths lead to they still lead to when all items of arrays and all that stands under
keys with dots are taken away. -/
theorem resolution_composes (context : Context) :
    (∀ path key, '.' ∉ key.toList →
      (∀ value, context.resolve? (path ++ "." ++ key) = some value ↔
        ∃ fields, context.resolve? path = some (.object fields) ∧
          fields.lookup key = some value) ∧
      (context.resolve? (path ++ "." ++ key) = none ↔
        context.resolve? path = none ∨
        (∃ value, context.resolve? path = some value ∧ value.isObject = false) ∨
        ∃ fields, context.resolve? path = some (.object fields) ∧ fields.lookup key = none)) ∧
    (∀ names, (∀ name ∈ names, '.' ∉ name.toList) →
      context.resolve? (".".intercalate names) = context.descend? names) ∧
    (∀ path, ∃! names, names ≠ [] ∧ (∀ name ∈ names, '.' ∉ name.toList) ∧
      ".".intercalate names = path) ∧
    (∀ path value, context.resolve? path = some value → value.isObject = false →
      ∀ rest, context.resolve? (path ++ "." ++ rest) = none) ∧
    ∀ path, context.reachable.resolve? path = (context.resolve? path).map Json.reachable := by
  refine ⟨?key, ?names, existsUnique_names, ?scalar, resolve?_reachable context⟩
  case key =>
    intro path key hkey
    exact ⟨fun _ => resolve?_append_key_eq_some_iff hkey, resolve?_append_key_eq_none_iff hkey⟩
  case names =>
    intro names hnames
    exact resolve?_intercalate hnames
  case scalar =>
    intro path value hvalue hscalar rest
    exact resolve?_append_of_not_object hvalue hscalar rest

/-- Attributes in an array, below null, under keys without a name and under a key with a dot. -/
def layeredSubject : Json :=
  .object [("", .object [("", .bool true)]), ("a.b", .object [("c", .bool true)]),
    ("nothing", .null), ("profile", .object [("age", .ofNat 40)]),
    ("tags", .array [.object [("x", .ofNat 1)]])]

/-- Dots in a row lead on by keys without a name. Items, what follows null and what stands under the
key with a dot are out of reach. -/
theorem layeredSubject_resolves :
    resolve? ⟨layeredSubject, none⟩ "subject.profile.age" = some (.ofNat 40) ∧
    resolve? ⟨layeredSubject, none⟩ "subject.." = some (.bool true) ∧
    resolve? ⟨layeredSubject, none⟩ "subject.tags.0.x" = none ∧
    resolve? ⟨layeredSubject, none⟩ "subject.nothing.deeper" = none ∧
    resolve? ⟨layeredSubject, none⟩ "subject.a.b.c" = none := by
  obtain ⟨hkey, hnames, -, hscalar, -⟩ := resolution_composes ⟨layeredSubject, none⟩
  refine ⟨?_, ?_, ?_, ?_, ?_⟩
  · exact ((hkey "subject.profile" "age" (by decide)).1 (.ofNat 40)).2 ⟨_, rfl, rfl⟩
  · exact hnames ["subject", "", ""] (by decide)
  · exact hscalar "subject.tags" _ rfl rfl "0.x"
  · exact hscalar "subject.nothing" _ rfl rfl "deeper"
  · exact hnames ["subject", "a", "b", "c"] (by decide)

end Context

end Abac
