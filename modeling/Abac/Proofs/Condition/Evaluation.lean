import Abac.Decision
import Abac.Proofs.Condition.Levels

/-!
Evaluation along the structure of conditions. A truth value depends on the context only through the
comparisons, and a condition with no more levels than allowed is evaluated without a fault.
-/

namespace Abac.Condition

variable {context other : Context} {conditions : List Condition}

theorem all_eq_true_iff :
    all context conditions = true ↔
      ∀ condition ∈ conditions, condition.evaluate context = true := by
  induction conditions with
  | nil => simp [all]
  | cons condition rest ih =>
    rw [all, Bool.and_eq_true, ih, List.forall_mem_cons]

theorem any_eq_true_iff :
    any context conditions = true ↔
      ∃ condition ∈ conditions, condition.evaluate context = true := by
  induction conditions with
  | nil => simp [any]
  | cons condition rest ih =>
    rw [any, Bool.or_eq_true, ih]
    simp

/-- Contexts in which every comparison has the same truth value give the condition the same. -/
theorem evaluate_congr {condition : Condition}
    (hleaves : condition.EveryLeaf fun comparison =>
      comparison.evaluate context = comparison.evaluate other) :
    condition.evaluate context = condition.evaluate other := by
  induction condition with
  | leaf comparison =>
    have hsame := (everyLeaf_leaf comparison).1 hleaves
    rw [evaluate, evaluate, hsame]
  | group join conditions ih =>
    have hmembers : ∀ condition ∈ conditions,
        condition.evaluate context = condition.evaluate other := by
      intro condition hmem
      exact ih condition hmem ((everyLeaf_group join conditions).1 hleaves condition hmem)
    cases join with
    | and =>
      rw [evaluate, evaluate, Bool.eq_iff_iff, all_eq_true_iff, all_eq_true_iff]
      apply forall₂_congr
      intro condition hmem
      rw [hmembers condition hmem]
    | or =>
      rw [evaluate, evaluate, Bool.eq_iff_iff, any_eq_true_iff, any_eq_true_iff]
      apply exists_congr
      intro condition
      apply and_congr_right
      intro hmem
      rw [hmembers condition hmem]

end Abac.Condition

namespace Abac

/-- Conditions that nest no deeper than allowed are evaluated without a fault. -/
theorem evaluator_of_depth_le {bound : Nat} {condition : Condition} (context : Context)
    (hdepth : condition.depth ≤ bound) :
    evaluator bound condition context = .done (condition.evaluate context) := by
  rw [evaluator, Condition.evaluateWithin_of_depth_le hdepth]
  rfl

end Abac
