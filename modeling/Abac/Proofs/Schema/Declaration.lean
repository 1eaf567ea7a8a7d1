import Abac.Schema.Declaration

/-!
Ways through the schemas of a document. A path is declared when a way from the document enters its
names one after another and takes no more than 64 references and branches. The walk that looks for
one makes only calls with fewer names or fewer hops left, so that it ends where references run in a
circle too, and a document that grows keeps its ways.
-/

namespace Abac.Schema

/-- The schema of a named property. -/
def property? (schema : Json) (name : String) : Option Json :=
  (schema.field? "properties").bind (·.field? name)

/-- A step that enters no property: to what a pointer in a reference leads to, or into a branch. -/
inductive Hop (root schema : Json) : Json → Prop
  | reference {text : String} {pointer : List Char} {target : Json} :
      schema.field? "$ref" = some (.string text) → text.toList = '#' :: pointer →
      root.pointer? pointer = some target → Hop root schema target
  | branch {keyword : String} {items : List Json} {inner : Json} :
      keyword ∈ ["oneOf", "anyOf", "allOf"] → schema.field? keyword = some (.array items) →
      inner ∈ items → Hop root schema inner

/-- A way from one schema to another that enters the named properties in turn, with so many hops
before, between and behind them. -/
inductive Way (root : Json) : List String → Nat → Json → Json → Prop
  | here {schema : Json} : Way root [] 0 schema schema
  | property {schema inner last : Json} {name : String} {names : List String} {hops : Nat} :
      property? schema name = some inner → Way root names hops inner last →
      Way root (name :: names) hops schema last
  | hop {schema target last : Json} {names : List String} {hops : Nat} :
      Hop root schema target → Way root names hops target last →
      Way root names (hops + 1) schema last

variable {root : Json}

theorem Way.trans {first middle last : Json} {names more : List String} {hops count : Nat}
    (hway : Way root names hops first middle) (hmore : Way root more count middle last) :
    Way root (names ++ more) (hops + count) first last := by
  induction hway with
  | here =>
    rw [List.nil_append, Nat.zero_add]
    exact hmore
  | property hinner hrest ih => exact .property hinner (ih hmore)
  | hop htarget hrest ih =>
    rw [Nat.add_right_comm]
    exact .hop htarget (ih hmore)

private theorem pointed?_eq_some_iff {schema target : Json} :
    pointed? root schema = some target ↔ ∃ text pointer,
      schema.field? "$ref" = some (.string text) ∧ text.toList = '#' :: pointer ∧
        root.pointer? pointer = some target := by
  unfold pointed?
  split
  · next text hfield =>
    split
    · next pointer hchars => simp [hfield, hchars]
    · next hother =>
      simp only [reduceCtorEq, hfield, Option.some.injEq, Json.string.injEq, false_iff, not_exists]
      rintro text' pointer ⟨rfl, hchars, -⟩
      exact hother pointer hchars
  · next hother =>
    simp only [reduceCtorEq, false_iff, not_exists]
    rintro text pointer ⟨hfield, -⟩
    exact hother text hfield

private theorem mem_branches_iff {schema inner : Json} :
    inner ∈ branches schema ↔ ∃ keyword items, keyword ∈ ["oneOf", "anyOf", "allOf"] ∧
      schema.field? keyword = some (.array items) ∧ inner ∈ items := by
  have harray : ∀ keyword, inner ∈ ((schema.field? keyword).bind Json.asArray?).getD [] ↔
      ∃ items, schema.field? keyword = some (.array items) ∧ inner ∈ items := by
    intro keyword
    rcases schema.field? keyword with _ | value
    · simp
    · cases value <;> simp [Json.asArray?]
  simp only [branches, List.mem_flatMap, harray]
  constructor
  · rintro ⟨keyword, hkeyword, items, hfield, hinner⟩
    exact ⟨keyword, items, hkeyword, hfield, hinner⟩
  · rintro ⟨keyword, items, hkeyword, hfield, hinner⟩
    exact ⟨keyword, hkeyword, items, hfield, hinner⟩

private theorem hop_iff {schema target : Json} :
    Hop root schema target ↔ pointed? root schema = some target ∨ target ∈ branches schema := by
  rw [pointed?_eq_some_iff, mem_branches_iff]
  constructor
  · rintro (⟨hfield, hchars, htarget⟩ | ⟨hkeyword, hfield, hinner⟩)
    · exact .inl ⟨_, _, hfield, hchars, htarget⟩
    · exact .inr ⟨_, _, hkeyword, hfield, hinner⟩
  · rintro (⟨text, pointer, hfield, hchars, htarget⟩ | ⟨keyword, items, hkeyword, hfield, hinner⟩)
    · exact .reference hfield hchars htarget
    · exact .branch hkeyword hfield hinner

/-- With hops left the walk takes a hop or enters the property. -/
theorem enters_succ_iff {name : String} {next : Nat → Json → Bool} {left : Nat} {schema : Json} :
    enters root name next (left + 1) schema = true ↔
      (∃ target, Hop root schema target ∧ enters root name next left target = true) ∨
      ∃ inner, property? schema name = some inner ∧ next (left + 1) inner = true := by
  rw [enters, Bool.or_eq_true, Bool.or_eq_true, or_right_comm, List.any_eq_true]
  simp only [hop_iff, or_and_right, exists_or]
  refine or_congr (or_congr ?_ Iff.rfl) ?_
  · cases pointed? root schema <;> simp
  · rw [property?]
    cases (schema.field? "properties").bind (·.field? name) <;> simp

/-- What the walk is called with: the names that are left, the hops taken so far, and a schema. -/
structure Call where
  names : List String
  hops : Nat
  schema : Json

/-- The calls that a call makes. A call without names has its answer, and one beyond the limit
makes none. -/
inductive Calls (root : Json) : Call → Call → Prop
  | hop {name : String} {names : List String} {hops : Nat} {schema target : Json} :
      hops ≤ hopLimit → Hop root schema target →
      Calls root ⟨name :: names, hops, schema⟩ ⟨name :: names, hops + 1, target⟩
  | property {name : String} {names : List String} {hops : Nat} {schema inner : Json} :
      hops ≤ hopLimit → property? schema name = some inner →
      Calls root ⟨name :: names, hops, schema⟩ ⟨names, hops, inner⟩

/-- The call that asks a document for a path. -/
def Call.start (root : Json) (path : List String) : Call := ⟨path, 0, root⟩

/-- The answer to a call. -/
def Call.answer (root : Json) (call : Call) : Bool :=
  declaresWithin root call.names (hopLimit + 1 - call.hops) call.schema

/-- Every call has fewer names left than the one that made it, or as many and fewer hops, so there
is no endless chain of calls, whatever the references of the document. -/
theorem wellFounded_calls (root : Json) :
    WellFounded fun later earlier : Call => Calls root earlier later := by
  let size : Call → Nat × Nat := fun call => (call.names.length, hopLimit + 1 - call.hops)
  have hsizes : WellFounded (Prod.Lex (· < ·) (· < ·) : Nat × Nat → Nat × Nat → Prop) :=
    (Prod.lex Nat.lt_wfRel Nat.lt_wfRel).wf
  refine Subrelation.wf ?_ (InvImage.wf size hsizes)
  intro later earlier hcall
  cases hcall with
  | hop hlimit htarget =>
    exact Prod.Lex.right _ (Nat.sub_succ_lt_self _ _ (Nat.lt_succ_of_le hlimit))
  | property hlimit hinner => exact Prod.Lex.left _ _ (Nat.lt_succ_self _)

/-- A call is answered by the calls that it makes. -/
theorem answer_iff (call : Call) :
    call.answer root = true ↔
      call.names = [] ∨ ∃ later, Calls root call later ∧ later.answer root = true := by
  obtain ⟨names, hops, schema⟩ := call
  cases names with
  | nil => simp [Call.answer, declaresWithin]
  | cons name names =>
    simp only [Call.answer, declaresWithin, reduceCtorEq, false_or]
    by_cases hlimit : hops ≤ hopLimit
    · rw [Nat.succ_sub hlimit, enters_succ_iff]
      constructor
      · rintro (⟨target, hhop, henters⟩ | ⟨inner, hinner, hdeclares⟩)
        · refine ⟨_, .hop hlimit hhop, ?_⟩
          rw [Nat.add_sub_add_right]
          exact henters
        · refine ⟨_, .property hlimit hinner, ?_⟩
          rw [Nat.succ_sub hlimit]
          exact hdeclares
      · rintro ⟨later, hcall, hanswer⟩
        cases hcall with
        | hop hlimit hhop =>
          rw [Nat.add_sub_add_right] at hanswer
          exact .inl ⟨_, hhop, hanswer⟩
        | property hlimit hinner =>
          rw [Nat.succ_sub hlimit] at hanswer
          exact .inr ⟨_, hinner, hanswer⟩
    · rw [Nat.sub_eq_zero_of_le (Nat.lt_of_not_le hlimit)]
      simp only [enters, Bool.false_eq_true, false_iff]
      rintro ⟨later, hcall, -⟩
      cases hcall with
      | hop hbelow hhop => exact hlimit hbelow
      | property hbelow hinner => exact hlimit hbelow

/-- A way that has a name to enter begins with a hop or enters it. -/
theorem exists_way_cons_iff {name : String} {names : List String} {left : Nat} {schema : Json} :
    (∃ hops last, hops ≤ left ∧ Way root (name :: names) hops schema last) ↔
      (∃ target, Hop root schema target ∧
        ∃ hops last, hops < left ∧ Way root (name :: names) hops target last) ∨
      ∃ inner, property? schema name = some inner ∧
        ∃ hops last, hops ≤ left ∧ Way root names hops inner last := by
  constructor
  · rintro ⟨hops, last, hle, hway⟩
    cases hway with
    | property hinner hrest => exact .inr ⟨_, hinner, hops, last, hle, hrest⟩
    | hop hhop hrest => exact .inl ⟨_, hhop, _, last, hle, hrest⟩
  · rintro (⟨target, hhop, hops, last, hlt, hrest⟩ | ⟨inner, hinner, hops, last, hle, hrest⟩)
    · exact ⟨hops + 1, last, hlt, .hop hhop hrest⟩
    · exact ⟨hops, last, hle, .property hinner hrest⟩

/-- The walk finds the ways that take no more hops than are left. -/
theorem declaresWithin_iff {names : List String} {left : Nat} {schema : Json} :
    declaresWithin root names (left + 1) schema = true ↔
      ∃ hops last, hops ≤ left ∧ Way root names hops schema last := by
  induction names generalizing left schema with
  | nil => exact ⟨fun _ => ⟨0, schema, Nat.zero_le _, .here⟩, fun _ => rfl⟩
  | cons name names ihnames =>
    rw [declaresWithin]
    -- below one name only hops are taken, and each leaves one less
    induction left generalizing schema with
    | zero =>
      rw [enters_succ_iff, exists_way_cons_iff]
      simp only [ihnames, enters, Nat.not_lt_zero, Bool.false_eq_true, false_and, and_false,
        exists_false]
    | succ left ih =>
      rw [enters_succ_iff, exists_way_cons_iff]
      simp only [ihnames, ih, Nat.lt_succ_iff]

mutual

/-- Is the second value the first with fields or items added, at any depth? -/
def grows : Json → Json → Bool
  | .array items, .array items' => itemsGrow items items'
  | .object fields, .object fields' => fieldsGrow fields fields'
  | value, value' => value.equal value'

/-- Does every item stand among the others, perhaps grown? -/
def itemsGrow : List Json → List Json → Bool
  | [], _ => true
  | item :: rest, items' => items'.any (fun item' => grows item item') && itemsGrow rest items'

/-- Does every field stand among the others, perhaps grown? -/
def fieldsGrow : Fields → Fields → Bool
  | [], _ => true
  | (key, value) :: rest, fields' =>
    (match fields'.lookup key with
      | some value' => grows value value'
      | none => false) && fieldsGrow rest fields'

end

variable {root' : Json}

private theorem exists_lookup_of_fieldsGrow {fields fields' : Fields} {key : String} {value : Json}
    (hgrows : fieldsGrow fields fields' = true) (hvalue : fields.lookup key = some value) :
    ∃ value', fields'.lookup key = some value' ∧ grows value value' = true := by
  induction fields with
  | nil => cases hvalue
  | cons field rest ih =>
    obtain ⟨key', value₀⟩ := field
    rw [fieldsGrow, Bool.and_eq_true] at hgrows
    rw [List.lookup_cons] at hvalue
    split at hvalue
    · next hkey =>
      obtain rfl := Option.some.inj hvalue
      obtain rfl := eq_of_beq hkey
      cases hfound : fields'.lookup key with
      | none =>
        rw [hfound] at hgrows
        cases hgrows.1
      | some value' =>
        rw [hfound] at hgrows
        exact ⟨value', rfl, hgrows.1⟩
    · exact ih hgrows.2 hvalue

private theorem exists_mem_of_itemsGrow {items items' : List Json} {item : Json}
    (hgrows : itemsGrow items items' = true) (hitem : item ∈ items) :
    ∃ item' ∈ items', grows item item' = true := by
  induction items with
  | nil => cases hitem
  | cons first rest ih =>
    rw [itemsGrow, Bool.and_eq_true, List.any_eq_true] at hgrows
    rcases List.mem_cons.1 hitem with rfl | hitem
    · exact hgrows.1
    · exact ih hgrows.2 hitem

private theorem exists_field_of_grows {schema schema' value : Json} {key : String}
    (hgrows : grows schema schema' = true) (hvalue : schema.field? key = some value) :
    ∃ value', schema'.field? key = some value' ∧ grows value value' = true := by
  cases schema with
  | object fields =>
    cases schema' with
    | object fields' =>
      rw [grows] at hgrows
      exact exists_lookup_of_fieldsGrow hgrows hvalue
    | _ => cases hgrows
  | _ => cases hvalue

private theorem eq_string_of_grows {text : String} {value : Json}
    (hgrows : grows (.string text) value = true) : value = .string text := by
  cases value with
  | string other =>
    simp only [grows, Json.equal, decide_eq_true_eq] at hgrows
    rw [hgrows]
  | _ => cases hgrows

private theorem exists_items_of_grows {items : List Json} {value : Json}
    (hgrows : grows (.array items) value = true) :
    ∃ items', value = .array items' ∧ itemsGrow items items' = true := by
  cases value with
  | array items' =>
    rw [grows] at hgrows
    exact ⟨items', rfl, hgrows⟩
  | _ => cases hgrows

/-- Can a schema be met on a way from the document? -/
def Reached (root schema : Json) : Prop := ∃ names hops, Way root names hops root schema

theorem Reached.property {schema inner : Json} {name : String} (hreached : Reached root schema)
    (hinner : property? schema name = some inner) : Reached root inner := by
  obtain ⟨names, hops, hway⟩ := hreached
  exact ⟨_, _, hway.trans (.property hinner .here)⟩

theorem Reached.hop {schema target : Json} (hreached : Reached root schema)
    (hhop : Hop root schema target) : Reached root target := by
  obtain ⟨names, hops, hway⟩ := hreached
  exact ⟨_, _, hway.trans (.hop hhop .here)⟩

/-- Every reference that can be met in the first document leads in the second to the same schema,
as it has grown. -/
def KeepsReferences (root root' : Json) : Prop :=
  ∀ schema target, Reached root schema → pointed? root schema = some target →
    ∃ target', pointed? root' schema = some target' ∧ grows target target' = true

private theorem exists_property_of_grows {schema schema' inner : Json} {name : String}
    (hgrows : grows schema schema' = true) (hinner : property? schema name = some inner) :
    ∃ inner', property? schema' name = some inner' ∧ grows inner inner' = true := by
  obtain ⟨properties, hproperties, hfield⟩ := Option.bind_eq_some_iff.1 hinner
  obtain ⟨properties', hproperties', hgrown⟩ := exists_field_of_grows hgrows hproperties
  obtain ⟨inner', hfield', hgrown'⟩ := exists_field_of_grows hgrown hfield
  exact ⟨inner', Option.bind_eq_some_iff.2 ⟨properties', hproperties', hfield'⟩, hgrown'⟩

/-- A hop is kept: a branch is still there, and a reference leads where it led. -/
theorem exists_hop_of_grows {schema schema' target : Json} (hkeeps : KeepsReferences root root')
    (hreached : Reached root schema) (hgrows : grows schema schema' = true)
    (hhop : Hop root schema target) :
    ∃ target', Hop root' schema' target' ∧ grows target target' = true := by
  cases hhop with
  | reference hfield hchars htarget =>
    have hpointed := pointed?_eq_some_iff.2 ⟨_, _, hfield, hchars, htarget⟩
    obtain ⟨target', hpointed', hgrown⟩ := hkeeps schema target hreached hpointed
    obtain ⟨text, pointer, hsame, hchars', htarget'⟩ := pointed?_eq_some_iff.1 hpointed'
    obtain ⟨value, hfield', hvalue⟩ := exists_field_of_grows hgrows hsame
    obtain rfl := eq_string_of_grows hvalue
    exact ⟨target', .reference hfield' hchars' htarget', hgrown⟩
  | branch hkeyword hfield hinner =>
    obtain ⟨value, hfield', hvalue⟩ := exists_field_of_grows hgrows hfield
    obtain ⟨items', rfl, hitems⟩ := exists_items_of_grows hvalue
    obtain ⟨inner', hinner', hgrown⟩ := exists_mem_of_itemsGrow hitems hinner
    exact ⟨inner', .branch hkeyword hfield' hinner', hgrown⟩

/-- A document that grows keeps its ways, with the hops that they take. -/
theorem exists_way_of_grows {schema schema' last : Json} {names : List String} {hops : Nat}
    (hkeeps : KeepsReferences root root') (hway : Way root names hops schema last)
    (hreached : Reached root schema) (hgrows : grows schema schema' = true) :
    ∃ last', Way root' names hops schema' last' := by
  induction hway generalizing schema' with
  | here => exact ⟨schema', .here⟩
  | property hinner hrest ih =>
    obtain ⟨inner', hinner', hgrown⟩ := exists_property_of_grows hgrows hinner
    obtain ⟨last', hway'⟩ := ih (hreached.property hinner) hgrown
    exact ⟨last', .property hinner' hway'⟩
  | hop hhop hrest ih =>
    obtain ⟨target', hhop', hgrown⟩ := exists_hop_of_grows hkeeps hreached hgrows hhop
    obtain ⟨last', hway'⟩ := ih (hreached.hop hhop) hgrown
    exact ⟨last', .hop hhop' hway'⟩

/-- The walk is exact and ends on every document. Its calls form no endless chain, also where
references run in a circle, and each is answered by the calls that it makes. From the document it
finds a path just when some way enters its names with at most 64 hops in all. So nothing that is
added to a document makes it lose a path, as long as its references lead where they led. -/
theorem declared_paths_are_ways :
    (∀ (schema : Schema) path,
      schema.declares path = (Call.start schema.document path).answer schema.document) ∧
    (∀ root, WellFounded fun later earlier : Call => Calls root earlier later) ∧
    (∀ root (call : Call), call.answer root = true ↔
      call.names = [] ∨ ∃ later, Calls root call later ∧ later.answer root = true) ∧
    (∀ root path, (Call.start root path).answer root = true ↔
      ∃ hops last, hops ≤ 64 ∧ Way root path hops root last) ∧
    ∀ root root', grows root root' = true → KeepsReferences root root' →
      ∀ path, (Call.start root path).answer root = true →
        (Call.start root' path).answer root' = true := by
  have hexact : ∀ root path, (Call.start root path).answer root = true ↔
      ∃ hops last, hops ≤ 64 ∧ Way root path hops root last :=
    fun root path => declaresWithin_iff
  refine ⟨fun schema path => rfl, wellFounded_calls, fun root => answer_iff, hexact, ?_⟩
  intro root root' hgrows hkeeps path hanswer
  obtain ⟨hops, last, hle, hway⟩ := (hexact root path).1 hanswer
  obtain ⟨last', hway'⟩ := exists_way_of_grows hkeeps hway ⟨[], 0, .here⟩ hgrows
  exact (hexact root' path).2 ⟨hops, last', hle, hway'⟩

def itself : Json := .object [("$ref", .string "#")]

def badge : Json := .object [("properties", .object [("name", .object [])])]

/-- A person has a badge, and a manager who is a person. -/
def person : Json :=
  .object [("anyOf", .array [badge]), ("properties", .object [("manager", itself)])]

/-- The same with a definition of teams, a first branch that leads to it, and a property more. -/
def personWithTeam : Json :=
  .object [
    ("$defs", .object [("team", .object [("properties", .object [("lead", itself)])])]),
    ("anyOf", .array [.object [("$ref", .string "#/$defs/team")], badge]),
    ("properties", .object [("age", .object []), ("manager", itself)])]

/-- The schemas that ways through the document of persons lead to. -/
def personSchemas : List Json := [person, itself, badge, .object []]

private theorem mem_personSchemas_of_property? {schema inner : Json} {name : String}
    (hmem : schema ∈ personSchemas) (hinner : property? schema name = some inner) :
    inner ∈ personSchemas := by
  have hfield : ∀ {key : String} {value : Json},
      [(key, value)].lookup name = some inner → inner = value := by
    intro key value hlookup
    rw [List.lookup_cons] at hlookup
    split at hlookup
    · exact (Option.some.inj hlookup).symm
    · cases hlookup
  simp only [personSchemas, List.mem_cons, List.not_mem_nil, or_false] at hmem ⊢
  rcases hmem with rfl | rfl | rfl | rfl
  · exact .inr (.inl (hfield hinner))
  · cases hinner
  · exact .inr (.inr (.inr (hfield hinner)))
  · cases hinner

private theorem mem_personSchemas_of_hop {schema target : Json} (hmem : schema ∈ personSchemas)
    (hhop : Hop person schema target) : target ∈ personSchemas := by
  simp only [personSchemas, List.mem_cons, List.not_mem_nil, or_false] at hmem ⊢
  rcases hmem with rfl | rfl | rfl | rfl
  · rcases hop_iff.1 hhop with hpointed | hbranch
    · cases hpointed
    · exact .inr (.inr (.inl (List.mem_singleton.1 hbranch)))
  · rcases hop_iff.1 hhop with hpointed | hbranch
    · exact .inl (Option.some.inj hpointed).symm
    · cases hbranch
  · rcases hop_iff.1 hhop with hpointed | hbranch
    · cases hpointed
    · cases hbranch
  · rcases hop_iff.1 hhop with hpointed | hbranch
    · cases hpointed
    · cases hbranch

private theorem mem_personSchemas_of_way {first last : Json} {names : List String} {hops : Nat}
    (hway : Way person names hops first last) (hmem : first ∈ personSchemas) :
    last ∈ personSchemas := by
  induction hway with
  | here => exact hmem
  | property hinner hrest ih => exact ih (mem_personSchemas_of_property? hmem hinner)
  | hop hhop hrest ih => exact ih (mem_personSchemas_of_hop hmem hhop)

/-- The new branch stands in front of the old one, but the only reference is to the document. -/
theorem keepsReferences_person : KeepsReferences person personWithTeam := by
  intro schema target hreached hpointed
  obtain ⟨names, hops, hway⟩ := hreached
  have hmem : schema ∈ personSchemas := mem_personSchemas_of_way hway List.mem_cons_self
  simp only [personSchemas, List.mem_cons, List.not_mem_nil, or_false] at hmem
  rcases hmem with rfl | rfl | rfl | rfl
  · cases hpointed
  · obtain rfl := Option.some.inj hpointed
    exact ⟨personWithTeam, rfl, by decide⟩
  · cases hpointed
  · cases hpointed

/-- The name on the badge of a manager's manager is declared by way of the document itself, and
still is when there are teams. -/
theorem manager_of_manager_keeps_badge :
    grows person personWithTeam = true ∧ KeepsReferences person personWithTeam ∧
    (Call.start person ["manager", "manager", "name"]).answer person = true ∧
    (Call.start personWithTeam ["manager", "manager", "name"]).answer personWithTeam = true := by
  obtain ⟨-, -, -, hexact, hkept⟩ := declared_paths_are_ways
  have hway : Way person ["manager", "manager", "name"] 3 person (.object []) := by
    have hitself : Hop person itself person := .reference rfl rfl rfl
    have hkeyword : "anyOf" ∈ ["oneOf", "anyOf", "allOf"] := by simp
    have hbadge : Hop person person badge := .branch hkeyword rfl List.mem_cons_self
    exact .property rfl (.hop hitself (.property rfl (.hop hitself (.hop hbadge
      (.property rfl .here)))))
  have hgrows : grows person personWithTeam = true := by decide
  have hanswer := (hexact person _).2 ⟨3, _, by decide, hway⟩
  exact ⟨hgrows, keepsReferences_person, hanswer,
    hkept person personWithTeam hgrows keepsReferences_person _ hanswer⟩

end Abac.Schema
