/-!
Lists of values under keys, in the order of the keys, each key once.
-/

namespace Abac.Keyed

def Sorted {α : Type} (entries : List (String × α)) : Prop :=
  entries.Pairwise fun a b => a.1 < b.1

/-- Puts a value at its place, instead of one under the same key. -/
def insert {α : Type} (key : String) (value : α) : List (String × α) → List (String × α)
  | [] => [(key, value)]
  | (key', value') :: rest =>
    if key = key' then (key, value) :: rest
    else if key < key' then (key, value) :: (key', value') :: rest
    else (key', value') :: insert key value rest

/-- Entries in any order put in order; of two with one key the later counts. -/
def ofList {α : Type} (entries : List (String × α)) : List (String × α) :=
  entries.foldl (fun sorted entry => insert entry.1 entry.2 sorted) []

private theorem lt_of_ne_of_not_lt {a b : String} (hne : a ≠ b) (hlt : ¬ a < b) : b < a :=
  Decidable.byContradiction fun h =>
    hne (String.le_antisymm (String.not_lt.mp h) (String.not_lt.mp hlt))

private theorem mem_insert {α : Type} {key : String} {value : α} {entries : List (String × α)}
    {entry : String × α} (h : entry ∈ insert key value entries) :
    entry = (key, value) ∨ entry ∈ entries := by
  induction entries with
  | nil => simpa [insert] using h
  | cons head rest ih =>
    simp only [insert] at h
    split at h
    · rcases List.mem_cons.1 h with h | h
      · exact .inl h
      · exact .inr (List.mem_cons_of_mem _ h)
    · split at h
      · exact (List.mem_cons.1 h)
      · rcases List.mem_cons.1 h with h | h
        · exact .inr (h ▸ List.mem_cons_self)
        · rcases ih h with h | h
          · exact .inl h
          · exact .inr (List.mem_cons_of_mem _ h)

theorem sorted_insert {α : Type} (key : String) (value : α) {entries : List (String × α)}
    (h : Sorted entries) : Sorted (insert key value entries) := by
  induction entries with
  | nil => simp [insert, Sorted]
  | cons head rest ih =>
    obtain ⟨hhead, hrest⟩ := List.pairwise_cons.1 h
    simp only [insert]
    split
    · next heq =>
      subst heq
      exact List.pairwise_cons.2 ⟨hhead, hrest⟩
    · next hne =>
      split
      · next hlt =>
        refine List.pairwise_cons.2 ⟨fun entry hentry => ?_, h⟩
        rcases List.mem_cons.1 hentry with rfl | hentry
        · exact hlt
        · exact String.lt_trans hlt (hhead entry hentry)
      · next hlt =>
        refine List.pairwise_cons.2 ⟨fun entry hentry => ?_, ih hrest⟩
        rcases mem_insert hentry with rfl | hentry
        · exact lt_of_ne_of_not_lt hne hlt
        · exact hhead entry hentry

theorem sorted_ofList {α : Type} (entries : List (String × α)) : Sorted (ofList entries) := by
  have step : ∀ sorted : List (String × α), Sorted sorted →
      Sorted (entries.foldl (fun sorted entry => insert entry.1 entry.2 sorted) sorted) := by
    induction entries with
    | nil => exact fun _ h => h
    | cons entry rest ih => exact fun sorted h => ih _ (sorted_insert _ _ h)
  exact step [] List.Pairwise.nil

theorem mem_of_mem_ofList {α : Type} {entries : List (String × α)} {entry : String × α}
    (h : entry ∈ ofList entries) : entry ∈ entries := by
  have step : ∀ sorted : List (String × α),
      entry ∈ entries.foldl (fun sorted entry => insert entry.1 entry.2 sorted) sorted →
      entry ∈ sorted ∨ entry ∈ entries := by
    clear h
    induction entries with
    | nil => exact fun _ h => .inl h
    | cons head rest ih =>
      intro sorted h
      rcases ih _ h with h | h
      · rcases mem_insert h with rfl | h
        · exact .inr List.mem_cons_self
        · exact .inl h
      · exact .inr (List.mem_cons_of_mem _ h)
  rcases step [] h with h | h
  · cases h
  · exact h

private theorem insert_of_forall_lt {α : Type} {key : String} {value : α}
    {entries : List (String × α)}
    (h : ∀ entry ∈ entries, entry.1 < key) :
    insert key value entries = entries ++ [(key, value)] := by
  induction entries with
  | nil => rfl
  | cons head rest ih =>
    obtain ⟨hhead, hrest⟩ := List.forall_mem_cons.1 h
    have hne : ¬ key = head.1 := by
      rintro rfl
      exact String.lt_irrefl _ hhead
    have hlt : ¬ key < head.1 := fun hlt => String.lt_irrefl _ (String.lt_trans hlt hhead)
    rw [insert, if_neg hne, if_neg hlt, ih hrest, List.cons_append]

/-- Entries that are in order stay as they are. -/
theorem ofList_of_sorted {α : Type} {entries : List (String × α)} (h : Sorted entries) :
    ofList entries = entries := by
  have step : ∀ sorted : List (String × α), Sorted (sorted ++ entries) →
      entries.foldl (fun sorted entry => insert entry.1 entry.2 sorted) sorted =
        sorted ++ entries := by
    clear h
    induction entries with
    | nil => simp
    | cons entry rest ih =>
      intro sorted h
      have hlast : ∀ other ∈ sorted, other.1 < entry.1 := by
        intro other hother
        exact (List.pairwise_append.1 h).2.2 other hother entry List.mem_cons_self
      have hnext : Sorted ((sorted ++ [entry]) ++ rest) := by simpa using h
      rw [List.foldl_cons, insert_of_forall_lt hlast, ih _ hnext]
      simp
  exact step [] h

theorem mem_of_lookup {α : Type} {key : String} {value : α} {entries : List (String × α)}
    (h : entries.lookup key = some value) : (key, value) ∈ entries := by
  obtain ⟨before, after, rfl, -⟩ := List.lookup_eq_some_iff.1 h
  exact List.mem_append_right _ List.mem_cons_self

theorem lookup_map {α β : Type} (change : α → β) (entries : List (String × α)) (key : String) :
    (entries.map (Prod.map id change)).lookup key = (entries.lookup key).map change := by
  induction entries with
  | nil => rfl
  | cons entry rest ih =>
    obtain ⟨name, value⟩ := entry
    simp only [List.map_cons, Prod.map_apply, id_eq, List.lookup_cons]
    cases key == name with
    | true => rfl
    | false => exact ih

private theorem map_insert {α β : Type} (change : α → β) (key : String) (value : α)
    (entries : List (String × α)) :
    (insert key value entries).map (Prod.map id change) =
      insert key (change value) (entries.map (Prod.map id change)) := by
  induction entries with
  | nil => rfl
  | cons head rest ih =>
    simp only [insert, List.map_cons, Prod.map_fst, id_eq]
    split
    · rfl
    · split
      · rfl
      · rw [List.map_cons, ih]
        rfl

/-- The order of entries is that of their keys, whatever the values. -/
theorem map_ofList {α β : Type} (change : α → β) (entries : List (String × α)) :
    (ofList entries).map (Prod.map id change) = ofList (entries.map (Prod.map id change)) := by
  have step : ∀ sorted : List (String × α),
      (entries.foldl (fun sorted entry => insert entry.1 entry.2 sorted) sorted).map
          (Prod.map id change) =
        (entries.map (Prod.map id change)).foldl
          (fun sorted entry => insert entry.1 entry.2 sorted)
          (sorted.map (Prod.map id change)) := by
    induction entries with
    | nil => exact fun _ => rfl
    | cons entry rest ih =>
      intro sorted
      rw [List.foldl_cons, ih, map_insert]
      rfl
  exact step []

theorem lookup_cons_self {α : Type} (key : String) (value : α) (entries : List (String × α)) :
    ((key, value) :: entries).lookup key = some value := by
  rw [List.lookup_cons, beq_self_eq_true]

theorem lookup_cons_of_ne {α : Type} {key other : String} (hne : other ≠ key) (value : α)
    (entries : List (String × α)) :
    ((key, value) :: entries).lookup other = entries.lookup other := by
  rw [List.lookup_cons, beq_false_of_ne hne]

/-- Insertion changes what stands under one key. -/
theorem lookup_insert {α : Type} (key other : String) (value : α) (entries : List (String × α)) :
    (insert key value entries).lookup other =
      if other = key then some value else entries.lookup other := by
  induction entries with
  | nil =>
    split
    · next hsame => rw [hsame, insert, lookup_cons_self]
    · next hne => rw [insert, lookup_cons_of_ne hne]
  | cons head rest ih =>
    obtain ⟨key', value'⟩ := head
    rw [insert]
    split
    · next hfirst =>
      subst hfirst
      split
      · next hsame => rw [hsame, lookup_cons_self]
      · next hne => rw [lookup_cons_of_ne hne, lookup_cons_of_ne hne]
    · next hfirst =>
      split
      · split
        · next hsame => rw [hsame, lookup_cons_self]
        · next hne => rw [lookup_cons_of_ne hne]
      · by_cases hother : other = key'
        · have hne : other ≠ key := fun hsame => hfirst (hsame.symm.trans hother)
          rw [hother, lookup_cons_self, lookup_cons_self, if_neg (hother ▸ hne)]
        · rw [lookup_cons_of_ne hother, lookup_cons_of_ne hother, ih]

/-- Of two entries with one key the later counts. -/
theorem lookup_ofList {α : Type} (entries : List (String × α)) (key : String) :
    (ofList entries).lookup key = entries.reverse.lookup key := by
  have step : ∀ sorted : List (String × α),
      (entries.foldl (fun sorted entry => insert entry.1 entry.2 sorted) sorted).lookup key =
        (entries.reverse.lookup key).or (sorted.lookup key) := by
    induction entries with
    | nil => exact fun _ => rfl
    | cons entry rest ih =>
      intro sorted
      rw [List.foldl_cons, ih, lookup_insert, List.reverse_cons, List.lookup_append,
        Option.or_assoc]
      congr 1
      split
      · next hsame => rw [hsame, lookup_cons_self, Option.some_or]
      · next hne => rw [lookup_cons_of_ne hne, List.lookup_nil, Option.none_or]
  rw [ofList, step, List.lookup_nil, Option.or_none]

theorem lookup_reverse_of_sorted {α : Type} {entries : List (String × α)} (h : Sorted entries)
    (key : String) : entries.reverse.lookup key = entries.lookup key := by
  rw [← lookup_ofList, ofList_of_sorted h]

theorem lookup_filter_ne {α : Type} (key other : String) (entries : List (String × α)) :
    (entries.filter fun entry => entry.1 ≠ key).lookup other =
      if other = key then none else entries.lookup other := by
  induction entries with
  | nil => simp
  | cons head rest ih =>
    obtain ⟨key', value⟩ := head
    by_cases hkey : key' = key
    · subst hkey
      rw [List.filter_cons_of_neg (by simp), ih]
      split
      · rfl
      · next hne => rw [lookup_cons_of_ne hne]
    · rw [List.filter_cons_of_pos (by simpa using hkey)]
      by_cases hother : other = key'
      · subst hother
        rw [lookup_cons_self, lookup_cons_self, if_neg hkey]
      · rw [lookup_cons_of_ne hother, lookup_cons_of_ne hother, ih]

private theorem lookup_eq_none_of_forall_lt {α : Type} {key : String} {entries : List (String × α)}
    (h : ∀ entry ∈ entries, key < entry.1) : entries.lookup key = none := by
  rw [List.lookup_eq_none_iff]
  intro entry hentry
  have hne : key ≠ entry.1 := by
    rintro rfl
    exact String.lt_irrefl _ (h entry hentry)
  simpa using hne

/-- In entries in order nothing stands under a key below the first. -/
theorem not_lt_first {α : Type} {first key : String} {value : α} {rest : List (String × α)}
    (h : ∀ entry ∈ rest, first < entry.1)
    (hsome : (((first, value) :: rest).lookup key).isSome) : ¬ key < first := by
  intro hlt
  have hnone : ((first, value) :: rest).lookup key = none := by
    apply lookup_eq_none_of_forall_lt
    exact List.forall_mem_cons.2 ⟨hlt, fun entry hentry => String.lt_trans hlt (h entry hentry)⟩
  rw [hnone] at hsome
  cases hsome

/-- Entries in order are determined by what stands under each key. -/
theorem eq_of_lookup_eq {α : Type} {entries others : List (String × α)} (h : Sorted entries)
    (h' : Sorted others) (hsame : ∀ key, entries.lookup key = others.lookup key) :
    entries = others := by
  induction entries generalizing others with
  | nil =>
    cases others with
    | nil => rfl
    | cons head rest =>
      have hhead := hsame head.1
      rw [lookup_cons_self, List.lookup_nil] at hhead
      cases hhead
  | cons head rest ih =>
    obtain ⟨key, value⟩ := head
    obtain ⟨hfirst, hrest⟩ := List.pairwise_cons.1 h
    cases others with
    | nil =>
      have hhead := hsame key
      rw [lookup_cons_self, List.lookup_nil] at hhead
      cases hhead
    | cons head' rest' =>
      obtain ⟨key', value'⟩ := head'
      obtain ⟨hfirst', hrest'⟩ := List.pairwise_cons.1 h'
      have hkey : key = key' := by
        apply String.le_antisymm
        · apply String.not_lt.1
          apply not_lt_first hfirst
          rw [hsame key', lookup_cons_self, Option.isSome_some]
        · apply String.not_lt.1
          apply not_lt_first hfirst'
          rw [← hsame key, lookup_cons_self, Option.isSome_some]
      subst hkey
      have hvalue := hsame key
      rw [lookup_cons_self, lookup_cons_self, Option.some.injEq] at hvalue
      subst hvalue
      have htail : ∀ other, rest.lookup other = rest'.lookup other := by
        intro other
        by_cases hother : other = key
        · rw [hother, lookup_eq_none_of_forall_lt hfirst, lookup_eq_none_of_forall_lt hfirst']
        · have hnext := hsame other
          rwa [lookup_cons_of_ne hother, lookup_cons_of_ne hother] at hnext
      rw [ih hrest hrest' htail]

end Abac.Keyed
