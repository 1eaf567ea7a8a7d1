import Abac.Proofs.Context.Paths
import Abac.Proofs.Validation.Findings

/-!
The roots of paths. Apart from the bare names of the two roots, a path can lead to a value in some
context just when it starts with a root that is there and a dot. So the rule on left paths rejects
no path that could be of use and accepts none that could not, and the same texts are paths on the
right.
-/

namespace Abac

namespace Validator

/-- The rule on left paths is broken just when the path does not start at a root. -/
theorem keeps_root_rule_iff (validator : Validator) (requiresResource : Bool) (place : String)
    (comparison : Comparison) :
    (∀ breach ∈ validator.comparisonBreaches requiresResource place comparison,
      breach.rule ≠ "left-path-root") ↔ isPath requiresResource comparison.left = true := by
  rw [comparisonBreaches_eq_filterMap]
  constructor
  · intro hall
    by_contra hleft
    have hbreach : validator.offence? requiresResource place comparison .root =
        some (.unrooted place comparison.left requiresResource) := if_neg hleft
    exact hall _ (List.mem_filterMap.2 ⟨.root, Aspect.mem_all _, hbreach⟩) rfl
  · intro hleft breach hmem hrule
    obtain ⟨aspect, -, hbreach⟩ := List.mem_filterMap.1 hmem
    rw [rule_of_offence? hbreach] at hrule
    cases aspect with
    | root =>
      obtain ⟨hunrooted, -⟩ := Option.ite_none_left_eq_some.1 hbreach
      exact hunrooted hleft
    | operator | left | right => simp [Aspect.rule] at hrule

/-- The rule on left paths is about what can be resolved. A left path that is no bare root keeps the
rule just when it leads to a value in some context with a resource or without, as is asked for; it
then leads to any given value in some, and otherwise to no value in any. A text on the right that
counts as a path leads to any given value in some such context as well. The bare names of the roots
are left out because they break the rule and yet lead to the roots themselves. -/
theorem root_rule_is_resolvability :
    (∀ (validator : Validator) (requiresResource : Bool) (place : String)
        (comparison : Comparison),
      comparison.left ≠ "subject" → comparison.left ≠ "resource" →
      ((∀ breach ∈ validator.comparisonBreaches requiresResource place comparison,
        breach.rule ≠ "left-path-root") ↔
        Text.startsWith "subject." comparison.left = true ∨
          requiresResource = true ∧ Text.startsWith "resource." comparison.left = true) ∧
      ((∀ breach ∈ validator.comparisonBreaches requiresResource place comparison,
        breach.rule ≠ "left-path-root") ↔
        ∃ context : Context, context.hasResource = requiresResource ∧
          (context.resolve? comparison.left).isSome = true) ∧
      ((∀ breach ∈ validator.comparisonBreaches requiresResource place comparison,
        breach.rule ≠ "left-path-root") → ∀ value,
        ∃ context : Context, context.hasResource = requiresResource ∧
          context.resolve? comparison.left = some value)) ∧
    (∀ (requiresResource : Bool) (comparison : Comparison) (path : String),
      comparison.rightPath? requiresResource = some path → ∀ value,
        ∃ context : Context, context.hasResource = requiresResource ∧
          context.resolve? path = some value) ∧
    ∀ (requiresResource : Bool) (context : Context),
      isPath requiresResource "subject" = false ∧ isPath requiresResource "resource" = false ∧
      context.resolve? "subject" = some context.subject ∧
      context.resolve? "resource" = context.resource := by
  refine ⟨?lefts, ?rights, ?bare⟩
  case lefts =>
    intro validator requiresResource place comparison hsubject hresource
    rw [keeps_root_rule_iff]
    refine ⟨isPath_iff, Context.exists_resolves_iff hsubject hresource, ?_⟩
    intro hleft value
    exact Context.exists_context_resolve? hleft value
  case rights =>
    intro requiresResource comparison path hright value
    obtain ⟨-, hpath⟩ := Comparison.rightPath?_eq_some_iff.1 hright
    exact Context.exists_context_resolve? hpath value
  case bare =>
    intro requiresResource context
    refine ⟨?_, ?_, rfl, ?_⟩
    · cases requiresResource <;> rfl
    · cases requiresResource <;> rfl
    · exact Context.resolve?_resource context

/-- Dots in a row are keys without a name. The path keeps the rule, and a path that only begins like
it leads nowhere. -/
theorem empty_keys_resolve :
    (∃ context : Context, context.hasResource = true ∧
      context.resolve? "resource..name." = some (.bool true)) ∧
    ¬ ∃ context : Context, context.hasResource = true ∧
      (context.resolve? "resources.name").isSome = true := by
  obtain ⟨hlefts, -, -⟩ := root_rule_is_resolvability
  have hempty : isPath true "resource..name." = true := by decide +kernel
  have hother : isPath true "resources.name" = false := by decide +kernel
  constructor
  · obtain ⟨-, -, hvalues⟩ := hlefts (plain 1) true "$" ⟨"resource..name.", .eq, .null⟩
      (by decide) (by decide)
    exact hvalues ((keeps_root_rule_iff _ _ _ _).2 hempty) (.bool true)
  · obtain ⟨-, hiff, -⟩ := hlefts (plain 1) true "$" ⟨"resources.name", .eq, .null⟩
      (by decide) (by decide)
    intro hresolves
    have hkeeps := (keeps_root_rule_iff _ _ _ _).1 (hiff.2 hresolves)
    rw [hother] at hkeeps
    cases hkeeps

end Validator

end Abac
