import Abac.Evaluation
import Abac.Proofs.Condition.Positions

/-!
The levels of conditions. Two walks with a stack look for them, one through all parts and one that
ends with the first part beyond a bound. What either has still to find is how deep the parts below
its stack lie, and a step of the walk leaves that as it is.
-/

namespace Abac.Condition

variable {bound : Nat} {context : Context} {conditions : List Condition}

private theorem depthAll_le_iff :
    depthAll conditions ≤ bound ↔ ∀ condition ∈ conditions, condition.depth ≤ bound := by
  induction conditions with
  | nil => simp [depthAll]
  | cons condition rest ih =>
    rw [depthAll, Nat.max_le, ih, List.forall_mem_cons]

private theorem depth_pos (condition : Condition) : 0 < condition.depth := by
  cases condition <;> simp [depth]

namespace Stack

variable {stack : Stack} {level found : Nat}

/-- No part below the stack is beyond the bound. The deepest part of an entry lies `depth - 1`
levels below it. -/
def Within (bound : Nat) (stack : Stack) : Prop :=
  ∀ entry ∈ stack, entry.2 + entry.1.depth ≤ bound + 1

private theorem within_leaf_iff {comparison : Comparison} :
    Within bound ((leaf comparison, level) :: stack) ↔ level ≤ bound ∧ Within bound stack := by
  simp [Within, depth]

/-- A group is within the bound when its own level is and its members, one level below, are. -/
theorem within_group_iff {join : Join} :
    Within bound ((group join conditions, level) :: stack) ↔
      level ≤ bound ∧ Within bound (push (level + 1) conditions stack) := by
  have hmembers : level + (depthAll conditions + 1) ≤ bound + 1 ↔
      level ≤ bound ∧ ∀ condition ∈ conditions, level + 1 + condition.depth ≤ bound + 1 := by
    constructor
    · intro hgroup
      have hdepths : depthAll conditions ≤ bound - level := by omega
      refine ⟨by omega, fun condition hmem => ?_⟩
      have hdepth := depthAll_le_iff.1 hdepths condition hmem
      omega
    · rintro ⟨hlevel, hall⟩
      have hdepths : depthAll conditions ≤ bound - level := by
        refine depthAll_le_iff.2 fun condition hmem => ?_
        have hdepth := hall condition hmem
        omega
      omega
  simp only [Within, push, List.forall_mem_cons, List.forall_mem_append, depth, hmembers,
    and_assoc, and_congr_right_iff]
  simp

/-- The walk through all parts stays within a bound just when the parts below its stack do. -/
theorem deepest_le_iff : deepest found stack ≤ bound ↔ found ≤ bound ∧ Within bound stack := by
  fun_induction deepest found stack with
  | case1 found => simp [Within]
  | case2 found comparison level stack ih =>
    rw [ih, Nat.max_le, within_leaf_iff, and_assoc]
  | case3 found join conditions level stack ih =>
    rw [ih, Nat.max_le, within_group_iff, and_assoc]

/-- The walk that ends early misses nothing. -/
theorem exceeds_eq_false_iff : exceeds bound stack = false ↔ Within bound stack := by
  fun_induction exceeds bound stack with
  | case1 => simp [Within]
  | case2 condition level stack hbeyond =>
    have hentry : ¬ Within bound ((condition, level) :: stack) := by
      intro hwithin
      have hpart : level + condition.depth ≤ bound + 1 := hwithin _ List.mem_cons_self
      have hpos := depth_pos condition
      omega
    simp [hentry]
  | case3 level stack hlevel comparison ih =>
    rw [ih, within_leaf_iff]
    simp [Nat.not_lt.1 hlevel]
  | case4 level stack hlevel join conditions ih =>
    rw [ih, within_group_iff]
    simp [Nat.not_lt.1 hlevel]

end Stack

private theorem levels_le_iff {condition : Condition} :
    condition.levels ≤ bound ↔ condition.depth ≤ bound := by
  rw [levels, Stack.deepest_le_iff]
  simp [Stack.Within, Nat.add_comm 1]

theorem levels_eq_depth (condition : Condition) : condition.levels = condition.depth := by
  apply Nat.le_antisymm
  · exact levels_le_iff.2 (Nat.le_refl _)
  · exact levels_le_iff.1 (Nat.le_refl _)

private theorem exceeds_eq_false_iff {condition : Condition} :
    condition.exceeds bound = false ↔ condition.depth ≤ bound := by
  rw [exceeds, Stack.exceeds_eq_false_iff]
  simp [Stack.Within, Nat.add_comm 1]

theorem exceeds_iff {condition : Condition} :
    condition.exceeds bound = true ↔ bound < condition.depth := by
  rw [← Nat.not_le, ← exceeds_eq_false_iff, Bool.not_eq_false]

theorem evaluateWithin_of_depth_le {condition : Condition} (hdepth : condition.depth ≤ bound) :
    condition.evaluateWithin bound context = .ok (condition.evaluate context) := by
  have hwithin : condition.exceeds bound = false := exceeds_eq_false_iff.2 hdepth
  simp [evaluateWithin, hwithin]

private theorem evaluateWithin_of_lt_depth {condition : Condition}
    (hdepth : bound < condition.depth) :
    condition.evaluateWithin bound context = .error (.nestingTooDeep bound) := by
  rw [evaluateWithin, if_pos (exceeds_iff.2 hdepth)]

private theorem evaluateWithin_eq_error_iff {condition : Condition} {fault : Fault} :
    condition.evaluateWithin bound context = .error fault ↔
      bound < condition.depth ∧ fault = .nestingTooDeep bound := by
  rcases Nat.lt_or_ge bound condition.depth with hdepth | hdepth
  · simp [evaluateWithin_of_lt_depth hdepth, hdepth, eq_comm]
  · simp [evaluateWithin_of_depth_le hdepth, Nat.not_lt.2 hdepth]

private theorem evaluateWithin_eq_ok_iff {condition : Condition} {granted : Bool} :
    condition.evaluateWithin bound context = .ok granted ↔
      condition.depth ≤ bound ∧ condition.evaluate context = granted := by
  rcases Nat.lt_or_ge bound condition.depth with hdepth | hdepth
  · simp [evaluateWithin_of_lt_depth hdepth, Nat.not_le.2 hdepth]
  · simp [evaluateWithin_of_depth_le hdepth, hdepth]

/-- The two walks agree with the structure of the condition and so with each other, and the guard
with both: it refuses what has more levels than the bound, naming the bound, and evaluates all else.
A higher bound changes no answer. -/
theorem walks_and_guard_agree (condition : Condition) :
    condition.levels = condition.depth ∧
    (∀ bound, condition.exceeds bound = true ↔ bound < condition.levels) ∧
    ∀ bound context,
      (∀ fault, condition.evaluateWithin bound context = .error fault ↔
        bound < condition.levels ∧ fault = .nestingTooDeep bound) ∧
      (∀ granted, condition.evaluateWithin bound context = .ok granted ↔
        ¬ bound < condition.levels ∧ condition.evaluate context = granted) ∧
      ∀ more granted, bound ≤ more → condition.evaluateWithin bound context = .ok granted →
        condition.evaluateWithin more context = .ok granted := by
  rw [levels_eq_depth]
  refine ⟨rfl, fun bound => exceeds_iff, fun bound context => ⟨?_, fun granted => ?_, ?_⟩⟩
  · intro fault
    exact evaluateWithin_eq_error_iff
  · rw [Nat.not_lt]
    exact evaluateWithin_eq_ok_iff
  · intro more granted hmore hanswer
    obtain ⟨hdepth, hgranted⟩ := evaluateWithin_eq_ok_iff.1 hanswer
    exact evaluateWithin_eq_ok_iff.2 ⟨Nat.le_trans hdepth hmore, hgranted⟩

/-- Four groups around a comparison. -/
def fourGroups : Condition :=
  .group .and [.group .and [], .group .or [.group .or [], .group .or [.group .and [
    .leaf ⟨"subject.id", .eq, .number (.int 1)⟩]]]]

def firstSubject : Context := ⟨.object [("id", .number (.int 1))], none⟩

/-- Four levels are too few for it, five are enough, and so are six. -/
theorem fourGroups_within_five :
    fourGroups.levels = 5 ∧ fourGroups.exceeds 4 = true ∧
    fourGroups.evaluateWithin 4 firstSubject = .error (.nestingTooDeep 4) ∧
    fourGroups.evaluateWithin 5 firstSubject = .ok true ∧
    fourGroups.evaluateWithin 6 firstSubject = .ok true := by
  obtain ⟨hlevels, hexceeds, hguard⟩ := walks_and_guard_agree fourGroups
  have hfive : fourGroups.levels = 5 := by
    rw [hlevels]
    decide
  have hholds : fourGroups.evaluate firstSubject = true := by
    decide +kernel
  obtain ⟨hrefuses, -, -⟩ := hguard 4 firstSubject
  obtain ⟨-, hanswers, hraised⟩ := hguard 5 firstSubject
  have hanswer : fourGroups.evaluateWithin 5 firstSubject = .ok true :=
    (hanswers true).2 ⟨by simp [hfive], hholds⟩
  refine ⟨hfive, (hexceeds 4).2 (by simp [hfive]), ?_, hanswer, ?_⟩
  · exact (hrefuses _).2 ⟨by simp [hfive], rfl⟩
  · exact hraised 6 true (by decide) hanswer

end Abac.Condition
