import Abac.Evaluation
import Abac.Proofs.Operand.Arrays
import Abac.Proofs.Policy.Lookup
import Abac.Proofs.Policy.Reading

/-!
The literals of policies in TOML. Every comparison of a configuration is written somewhere among the
entitlements of the document, and its right operand is the literal there, in JSON. TOML has no null,
and yet a right operand may contain one: it stands where the literal has a float that is not finite.
As an operand of its own it counts as zero.
-/

namespace Abac

variable {comparison : Comparison}

namespace Toml

/-- A value stands for a comparison with a literal on the right: a table with the parts of the
comparison under their names, or an array of the parts. -/
inductive Value.Spells (comparison : Comparison) : Value → Value → Prop
  | table {origin : Origin} {fields : Table} {name : String} {literal : Value}
      (hop : comparison.op = .ofName name)
      (hleft : (Keyed.ofList fields).lookup "left" = some (.string comparison.left))
      (hname : (Keyed.ofList fields).lookup "op" = some (.string name))
      (hright : (Keyed.ofList fields).lookup "right" = some literal) :
      Spells comparison (.table origin fields) literal
  | array {grows : Bool} {name : String} {literal : Value} (hop : comparison.op = .ofName name) :
      Spells comparison (.array grows [.string comparison.left, .string name, literal]) literal

/-- Among the entitlements of a document a comparison is written, with a literal on the right. -/
def Table.Writes (table : Table) (comparison : Comparison) (literal : Value) : Prop :=
  ∃ entitlements part, ("entitlements", entitlements) ∈ table ∧ entitlements.Contains part ∧
    part.Spells comparison literal

namespace Value

private theorem Spells.child {part literal : Value} (hspells : part.Spells comparison literal) :
    part.Child literal := by
  cases hspells with
  | table hop hleft hname hright => exact .field (Keyed.mem_of_lookup hright)
  | array hop => exact .item (by simp)

private theorem toJson_eq_string_iff {value : Value} {text : String} :
    value.toJson = .string text ↔ value = .string text := by
  constructor
  · intro htext
    cases value with
    | string other =>
      cases htext
      rfl
    | float value? => cases value? <;> cases htext
    | array grows items =>
      rw [toJson_array] at htext
      cases htext
    | table origin fields =>
      rw [toJson_table] at htext
      cases htext
    | integer | boolean | datetime => cases htext
  · rintro rfl
    rfl

/-- What is read as a comparison in JSON is written as one in TOML. -/
theorem exists_spells {part : Value} (hread : Comparison.ofJson? part.toJson = some comparison) :
    ∃ literal, part.Spells comparison literal ∧ literal.toJson = comparison.right := by
  cases part with
  | table origin fields =>
    rw [toJson_table] at hread
    obtain ⟨hleft, ⟨name, hname, hop⟩, hright⟩ := Comparison.ofParts?_eq_some_iff.1 hread
    rw [Keyed.lookup_map, Option.map_eq_some_iff] at hleft hname hright
    obtain ⟨left, hleft, htext⟩ := hleft
    obtain ⟨op, hname, htext'⟩ := hname
    obtain ⟨literal, hright, hliteral⟩ := hright
    rw [toJson_eq_string_iff] at htext htext'
    subst htext htext'
    exact ⟨literal, .table hop hleft hname hright, hliteral⟩
  | array grows items =>
    rw [toJson_array] at hread
    match items, hread with
    | [left, op, literal], hread =>
      obtain ⟨hleft, ⟨name, hname, hop⟩, hright⟩ := Comparison.ofParts?_eq_some_iff.1 hread
      obtain rfl := toJson_eq_string_iff.1 (Option.some.inj hleft)
      obtain rfl := toJson_eq_string_iff.1 (Option.some.inj hname)
      exact ⟨literal, .array hop, Option.some.inj hright⟩
  | datetime text =>
    obtain ⟨hleft, -⟩ := Comparison.ofParts?_eq_some_iff.1 hread
    cases hleft
  | float value? => cases value? <;> cases hread
  | string | integer | boolean => cases hread

end Value

end Toml

open Operand in
/-- Beside a number, a null counts as zero, also inside lists of one item. -/
theorem Operator.holds_nested_null (op : Operator) (count : Nat) {left : Operand}
    (hleft : left.toNumber?.isSome = true) :
    op.holds left (some (nested count .null)) = op.holds left (some (.number (.int 0))) := by
  obtain ⟨x, hx⟩ := Option.isSome_iff_exists.1 hleft
  have hnull : toNumber? (some (nested count .null)) = some Binary64.zero :=
    toNumber?_nested rfl count
  have hzero : toNumber? (some (.number (.int 0))) = some Binary64.zero := by
    decide +kernel
  apply holds_eq_of_numbers
  · exact pair_eq_numbers_iff.2 ⟨hx, hnull⟩
  · exact pair_eq_numbers_iff.2 ⟨hx, hzero⟩

private theorem Comparison.evaluate_of_nested_null {count : Nat}
    (hright : comparison.right = Operand.nested count .null) {context : Context}
    (hleft : (comparison.leftOperand context).toNumber?.isSome = true) :
    comparison.evaluate context =
      { comparison with right := .number (.int 0) }.evaluate context := by
  have hliteral : comparison.rightOperand context = some (Operand.nested count .null) := by
    cases count <;> simp [rightOperand, rightPath?, hright, Operand.nested]
  rw [evaluate, hliteral, comparison.op.holds_nested_null count hleft]
  rfl

namespace Configuration

variable {text : String} {config : Configuration}

/-- All comparisons in the conditions of all policies are good. -/
def EveryLeaf (good : Comparison → Prop) (config : Configuration) : Prop :=
  ∀ entitlement ∈ config.entitlements, ∀ entry ∈ entitlement.policies,
    entry.2.conditions.EveryLeaf good

theorem EveryLeaf.imp {good better : Comparison → Prop} (hevery : config.EveryLeaf good)
    (himp : ∀ comparison, good comparison → better comparison) : config.EveryLeaf better := by
  intro entitlement hentitlement entry hentry
  exact (hevery entitlement hentitlement entry hentry).imp himp

private theorem EveryLeaf.of_mem_lookup {good : Comparison → Prop} (hevery : config.EveryLeaf good)
    {request : Request} {condition : Condition} (hmem : condition ∈ config.lookup request) :
    condition.EveryLeaf good := by
  obtain ⟨entitlement, hentitlement, -, policy, hpolicy, -, rfl⟩ := mem_lookup_iff.1 hmem
  exact hevery entitlement hentitlement _ (Entitlement.mem_policies_of_policy? hpolicy)

private theorem exists_table_of_load (hload : load text = .ok config) :
    ∃ table, Toml.Table.ofText? text = some table ∧
      ofFields .toml (Toml.fieldsToJson table) = .ok config := by
  obtain ⟨table, htable, hfields⟩ := ofTomlBy_eq_ok_iff.1 (loadBy_eq_ok_iff.1 hload).1
  exact ⟨table, Toml.Table.ofText_eq_ok_iff.1 htable, hfields⟩

/-- The comparisons of a configuration are written in its document. -/
theorem everyLeaf_written {table : Toml.Table}
    (hread : ofFields .toml (Toml.fieldsToJson table) = .ok config) :
    config.EveryLeaf fun comparison =>
      ∃ literal, table.Writes comparison literal ∧ literal.toJson = comparison.right := by
  have hupholds : config.Upholds fun comparison =>
      ∃ literal, table.Writes comparison literal ∧ literal.toJson = comparison.right := by
    apply yields_upholds _ config hread
    intro document hdocument
    rw [Toml.fieldsToJson_eq] at hdocument
    obtain ⟨⟨key, entitlements⟩, hmem, hsame⟩ := List.mem_map.1 hdocument
    cases hsame
    intro node comparison hcontains hnode
    obtain ⟨part, hpart, rfl⟩ := Toml.Value.contains_toJson_iff.1 hcontains
    obtain ⟨literal, hspells, hliteral⟩ := Toml.Value.exists_spells hnode
    exact ⟨literal, ⟨entitlements, part, hmem, hpart, hspells⟩, hliteral⟩
  intro entitlement hentitlement
  exact (hupholds.entitlements entitlement hentitlement).policies

/-- Every right operand of a configuration is a literal of its document, and contains a null just
when the literal contains a float that is not finite, although there is no null in TOML. Such a
float, by itself or inside lists of one item, is compared with numbers as if it were zero. A
document without such floats has no nulls in its right operands. -/
theorem literals_are_null_unless_finite (hload : load text = .ok config) :
    ∃ table, Toml.Table.ofText? text = some table ∧
      (config.EveryLeaf fun comparison => ∃ literal : Toml.Value,
        table.Writes comparison literal ∧ literal.toJson = comparison.right ∧
        (comparison.right.Contains .null ↔ literal.Contains (.float none)) ∧
        (comparison.right = .null ↔ literal = .float none) ∧
        ∀ count, comparison.right = Operand.nested count .null → ∀ context,
          (comparison.leftOperand context).toNumber?.isSome = true →
          comparison.evaluate context =
            { comparison with right := .number (.int 0) }.evaluate context) ∧
      ((∀ field ∈ table, ¬ field.2.Contains (.float none)) →
        config.EveryLeaf fun comparison => ¬ comparison.right.Contains .null) := by
  obtain ⟨table, htable, hfields⟩ := exists_table_of_load hload
  have hwritten := everyLeaf_written hfields
  refine ⟨table, htable, ?_, ?_⟩
  · refine hwritten.imp ?_
    rintro comparison ⟨literal, hwrites, hliteral⟩
    refine ⟨literal, hwrites, hliteral, ?_, ?_, ?_⟩
    · rw [← hliteral, Toml.Value.contains_null_iff]
    · rw [← hliteral, Toml.Value.toJson_eq_null_iff]
    · intro count hright context hleft
      exact comparison.evaluate_of_nested_null hright hleft
  · intro hfinite
    refine hwritten.imp ?_
    rintro comparison ⟨literal, ⟨entitlements, part, hmem, hpart, hspells⟩, hliteral⟩ hnull
    rw [← hliteral, Toml.Value.contains_null_iff] at hnull
    exact hfinite _ hmem ((hpart.tail hspells.child).trans hnull)

/-- Documents may be read by those whose rank is at least a bound. -/
def rankPolicy (bound : String) : String :=
  "actions=[\"read\"]\n" ++
  "entitlements=[\x7bid=1,title=\"\",resource_type=\"doc\"," ++
  "policies.read=\x7brequires_resource=false," ++
  "conditions=\x7bleft=\"subject.rank\",op=\"gte\",right=" ++ bound ++ "\x7d\x7d\x7d]"

/-- The context of a subject with a rank. -/
def ofRank (rank : Int) : Context := ⟨.object [("rank", .number (.int rank))], none⟩

/-- Are readers let in by one comparison, with a number on the left and a null on the right? -/
def grantsByNull (context : Context) (config : Configuration) : Bool :=
  match config.lookup ⟨"doc", "read", false⟩ with
  | [.leaf ⟨left, op, .null⟩] =>
    (Operand.toNumber? (context.resolve? left)).isSome &&
      Comparison.evaluate ⟨left, op, .null⟩ context
  | _ => false

private theorem exists_of_grantsByNull {context : Context}
    (hgrants : config.grantsByNull context = true) :
    ∃ comparison : Comparison, config.lookup ⟨"doc", "read", false⟩ = [.leaf comparison] ∧
      comparison.right = .null ∧ (comparison.leftOperand context).toNumber?.isSome = true ∧
      comparison.evaluate context = true := by
  unfold grantsByNull at hgrants
  split at hgrants
  · next left op hlookup =>
    obtain ⟨hnumber, hholds⟩ := Bool.and_eq_true_iff.1 hgrants
    exact ⟨⟨left, op, .null⟩, hlookup, rfl, hnumber, hholds⟩
  · cases hgrants

/-- With an infinite bound the first rank is let in. -/
theorem exists_load_infinite : ∃ config, load (rankPolicy "inf") = .ok config ∧
    config.grantsByNull (ofRank 1) = true := by
  have hgrants : ((load (rankPolicy "inf")).toOption.any (grantsByNull (ofRank 1))) = true := by
    decide +kernel
  cases hload : load (rankPolicy "inf") with
  | error fault =>
    rw [hload] at hgrants
    cases hgrants
  | ok config =>
    rw [hload] at hgrants
    exact ⟨config, rfl, hgrants⟩

/-- A bound of ten is loaded as it is. An infinite one is compared as if it were zero. -/
theorem rankPolicy_literals :
    (∃ config table, load (rankPolicy "10") = .ok config ∧
      Toml.Table.ofText? (rankPolicy "10") = some table ∧
      (∀ field ∈ table, ¬ field.2.Contains (.float none)) ∧
      config.EveryLeaf fun comparison => ¬ comparison.right.Contains .null) ∧
    ∃ config comparison, load (rankPolicy "inf") = .ok config ∧
      config.lookup ⟨"doc", "read", false⟩ = [.leaf comparison] ∧
      comparison.right = Operand.nested 0 .null ∧
      (comparison.leftOperand (ofRank 1)).toNumber?.isSome = true ∧
      comparison.evaluate (ofRank 1) =
        { comparison with right := .number (.int 0) }.evaluate (ofRank 1) := by
  constructor
  · have hloads : (load (rankPolicy "10")).toOption.isSome = true := by
      decide +kernel
    have hfinite : (Toml.Table.ofText? (rankPolicy "10")).all Toml.Value.fieldsFinite = true := by
      decide +kernel
    cases hload : load (rankPolicy "10") with
    | error fault =>
      rw [hload] at hloads
      cases hloads
    | ok config =>
      obtain ⟨table, htable, -, hnull⟩ := literals_are_null_unless_finite hload
      rw [htable] at hfinite
      have hfields : ∀ field ∈ table, ¬ field.2.Contains (.float none) := by
        intro field hmem
        exact Toml.Value.not_contains_of_isFinite (Toml.Value.fieldsFinite_iff.1 hfinite field hmem)
      exact ⟨config, table, rfl, htable, hfields, hnull hfields⟩
  · obtain ⟨config, hload, hgrants⟩ := exists_load_infinite
    obtain ⟨comparison, hlookup, hright, hnumber, -⟩ := exists_of_grantsByNull hgrants
    obtain ⟨table, -, hliterals, -⟩ := literals_are_null_unless_finite hload
    have hleaf := hliterals.of_mem_lookup (hlookup ▸ List.mem_singleton_self _)
    obtain ⟨literal, -, -, -, -, hzero⟩ := (Condition.everyLeaf_leaf comparison).1 hleaf
    exact ⟨config, comparison, hload, hlookup, hright, hnumber, hzero 0 hright _ hnumber⟩

/-- A bound that no rank should reach is loaded as null, and then the first rank reaches it. -/
theorem infinite_bound_grants_first_rank :
    ∃ config, load (rankPolicy "inf") = .ok config ∧
      (¬ config.EveryLeaf fun comparison => ¬ comparison.right.Contains .null) ∧
      ∃ condition ∈ config.lookup ⟨"doc", "read", false⟩,
        condition.evaluate (ofRank 1) = true := by
  obtain ⟨config, hload, hgrants⟩ := exists_load_infinite
  obtain ⟨comparison, hlookup, hright, -, hholds⟩ := exists_of_grantsByNull hgrants
  have hmem : .leaf comparison ∈ config.lookup ⟨"doc", "read", false⟩ := by
    rw [hlookup]
    exact List.mem_singleton_self _
  refine ⟨config, hload, ?_, .leaf comparison, hmem, hholds⟩
  intro hevery
  have hleaf := (Condition.everyLeaf_leaf comparison).1 (hevery.of_mem_lookup hmem)
  rw [hright] at hleaf
  exact hleaf .refl

end Configuration

end Abac
