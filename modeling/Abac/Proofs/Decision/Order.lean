import Abac.Proofs.Decision.Valid

/-!
The order of conditions. The search for a grant stops at the first condition that holds or is nested
too deeply. Conditions within the bound may therefore stand in any order and any number of times,
and a condition that is too deep takes away only grants that stand behind it.
-/

namespace Abac

private theorem evaluator_eq_done_iff {bound : Nat} {condition : Condition} {context : Context}
    {granted : Bool} :
    evaluator bound condition context = .done granted ↔
      condition.depth ≤ bound ∧ condition.evaluate context = granted := by
  by_cases hdepth : condition.depth ≤ bound
  · rw [evaluator_of_depth_le context hdepth]
    simp [hdepth]
  · have hexceeds : condition.exceeds bound = true :=
      Condition.exceeds_iff.2 (Nat.not_le.1 hdepth)
    simp [evaluator, Condition.evaluateWithin, hexceeds, Outcome.ofExcept, hdepth]

namespace Condition

variable {bound : Nat} {context : Context} {conditions : List Condition}

/-- Some condition holds, and neither it nor any before it has more levels than allowed. -/
def GrantsWithin (bound : Nat) (context : Context) (conditions : List Condition) : Prop :=
  ∃ before condition after, conditions = before ++ condition :: after ∧
    condition.evaluate context = true ∧ ∀ other ∈ before ++ [condition], other.depth ≤ bound

/-- What stands behind a grant cannot revoke it. -/
theorem GrantsWithin.append (hgrants : GrantsWithin bound context conditions)
    (more : List Condition) : GrantsWithin bound context (conditions ++ more) := by
  obtain ⟨before, condition, after, rfl, hholds, hdepth⟩ := hgrants
  exact ⟨before, condition, after ++ more, by simp, hholds, hdepth⟩

private theorem grantsWithin_iff_of_depth_le
    (hdepth : ∀ condition ∈ conditions, condition.depth ≤ bound) :
    GrantsWithin bound context conditions ↔
      ∃ condition ∈ conditions, condition.evaluate context = true := by
  constructor
  · rintro ⟨before, condition, after, rfl, hholds, -⟩
    exact ⟨condition, by simp, hholds⟩
  · rintro ⟨condition, hmem, hholds⟩
    obtain ⟨before, after, rfl⟩ := List.append_of_mem hmem
    refine ⟨before, condition, after, rfl, hholds, fun other hother => hdepth other ?_⟩
    rcases List.mem_append.1 hother with hbefore | hlast
    · exact List.mem_append_left _ hbefore
    · rw [List.mem_singleton.1 hlast]
      exact hmem

end Condition

namespace Collaborators

open Condition (GrantsWithin)

variable {bound : Nat} {context : Context} {conditions : List Condition} {subject : Attributes}
  {action : String} {target : Target}

theorem hasFirstGrant_evaluator_iff :
    HasFirstGrant (evaluator bound) context conditions ↔
      GrantsWithin bound context conditions := by
  constructor
  · intro hgrant
    rcases all_denied_or_first (evaluator bound) context conditions with
      hall | ⟨before, condition, after, rfl, hbefore, hfirst⟩
    · exact absurd hgrant (not_hasFirstGrant_of_all_denied hall)
    · obtain ⟨hdepth, hholds⟩ := evaluator_eq_done_iff.1
        ((hasFirstGrant_append hbefore hfirst).1 hgrant)
      refine ⟨before, condition, after, rfl, hholds, fun other hother => ?_⟩
      rcases List.mem_append.1 hother with hearlier | hlast
      · exact (evaluator_eq_done_iff.1 (hbefore other hearlier)).1
      · rw [List.mem_singleton.1 hlast]
        exact hdepth
  · rintro ⟨before, condition, after, rfl, hholds, hdepth⟩
    -- the search ends at the condition at the latest, and all up to there is within the bound
    rcases all_denied_or_first (evaluator bound) context (before ++ [condition]) with
      hall | ⟨earlier, first, later, hsplit, hearlier, hfirst⟩
    · have hdenied := evaluator_eq_done_iff.1 (hall condition (by simp))
      rw [hholds] at hdenied
      exact absurd hdenied.2 (by simp)
    · have hwithin : first.depth ≤ bound := hdepth first (by rw [hsplit]; simp)
      have hanswer := evaluator_of_depth_le context hwithin
      have hgranted : evaluator bound first context = .done true := by
        cases hvalue : first.evaluate context with
        | true => rw [hanswer, hvalue]
        | false => exact absurd (by rw [hanswer, hvalue]) hfirst
      have hwhole : before ++ condition :: after = earlier ++ first :: (later ++ after) := by
        rw [← List.singleton_append, ← List.append_assoc, hsplit]
        simp
      rw [hwhole]
      exact (hasFirstGrant_append hearlier hfirst).2 hgranted

/-- Collaborators for whom given conditions apply to every request, and who list what
is reported. -/
def serving (bound : Nat) (conditions : List Condition) :
    Collaborators (StateM (List Diagnostic)) :=
  reporting (fun _ => .done conditions) (evaluator bound)

/-- A decision over given conditions grants just when they grant within the bound. Nothing is
reported about a grant, nor about conditions that are all within the bound. -/
theorem exists_run_serving (bound : Nat) (action : String) (conditions : List Condition)
    (hcontext : Context.ofTarget subject target = .ok context) :
    ∃ granted recorded,
      (∀ before, ((serving bound conditions).decide subject action target).run before =
        (granted, before ++ recorded)) ∧
      (granted = true ↔ GrantsWithin bound context conditions) ∧
      (granted = true → recorded = []) ∧
      (conditions ≠ [] → (∀ condition ∈ conditions, condition.depth ≤ bound) →
        recorded = []) := by
  obtain ⟨granted, evaluated, recorded, hcourse⟩ :=
    exists_course (fun _ => .done conditions) (evaluator bound) subject action target
  have hverdict : granted = true ↔ GrantsWithin bound context conditions := by
    rw [hcourse.granted_iff, ← hasFirstGrant_evaluator_iff]
    constructor
    · rintro ⟨others, other, hothers, hother, hgrant⟩
      cases hothers
      obtain rfl : context = other := by simpa [hcontext] using hother
      exact hgrant
    · intro hgrant
      exact ⟨conditions, context, rfl, hcontext, hgrant⟩
  refine ⟨granted, recorded, run_reporting hcourse, hverdict, ?_, ?_⟩
  · intro hgranted
    exact hcourse.recorded_eq_nil_iff.2 (.inl hgranted)
  · intro hsome hdepth
    apply hcourse.recorded_eq_nil_iff.2
    by_cases hgranted : granted = true
    · exact .inl hgranted
    · refine .inr ⟨conditions, context, rfl, hsome, hcontext, fun condition hmem => ?_⟩
      rw [hverdict, Condition.grantsWithin_iff_of_depth_le hdepth] at hgranted
      refine evaluator_eq_done_iff.2 ⟨hdepth condition hmem, ?_⟩
      cases hvalue : condition.evaluate context with
      | true => exact absurd ⟨condition, hmem, hvalue⟩ hgranted
      | false => rfl

/-- The order and the number of conditions decide nothing unless one of them is too deep. Two lists
with the same conditions, all within the bound, lead to the same verdict and to no report. A grant
stays a grant, without a report, whatever conditions are put behind. For all lists the verdict is
that some condition holds and that neither it nor any before it is too deep. -/
theorem verdict_of_conditions (bound : Nat) (subject : Attributes) (action : String)
    (target : Target) (context : Context)
    (hcontext : Context.ofTarget subject target = .ok context) :
    (∀ conditions others : List Condition, conditions ≠ [] → others ≠ [] →
      (∀ condition, condition ∈ conditions ↔ condition ∈ others) →
      (∀ condition ∈ conditions, condition.depth ≤ bound) →
      ∃ granted, ∀ before,
        ((serving bound conditions).decide subject action target).run before = (granted, before) ∧
        ((serving bound others).decide subject action target).run before = (granted, before)) ∧
    (∀ (conditions more : List Condition) (before : List Diagnostic),
      (((serving bound conditions).decide subject action target).run before).1 = true →
      ((serving bound (conditions ++ more)).decide subject action target).run before =
        (true, before)) ∧
    ∀ (conditions : List Condition) (before : List Diagnostic),
      (((serving bound conditions).decide subject action target).run before).1 = true ↔
        GrantsWithin bound context conditions := by
  refine ⟨?_, ?_, ?_⟩
  · intro conditions others hconditions hothers hsame hdepth
    have hdepth' : ∀ condition ∈ others, condition.depth ≤ bound := fun condition hmem =>
      hdepth condition ((hsame condition).2 hmem)
    obtain ⟨granted, recorded, hrun, hverdict, -, hsilent⟩ :=
      exists_run_serving bound action conditions hcontext
    obtain ⟨granted', recorded', hrun', hverdict', -, hsilent'⟩ :=
      exists_run_serving bound action others hcontext
    have hgranted : granted = granted' := by
      rw [Bool.eq_iff_iff, hverdict, hverdict', Condition.grantsWithin_iff_of_depth_le hdepth,
        Condition.grantsWithin_iff_of_depth_le hdepth']
      simp only [hsame]
    refine ⟨granted, fun before => ⟨?_, ?_⟩⟩
    · rw [hrun, hsilent hconditions hdepth, List.append_nil]
    · rw [hrun', hsilent' hothers hdepth', List.append_nil, hgranted]
  · intro conditions more before hgrant
    obtain ⟨granted, recorded, hrun, hverdict, -, -⟩ :=
      exists_run_serving bound action conditions hcontext
    obtain ⟨granted', recorded', hrun', hverdict', hsilent', -⟩ :=
      exists_run_serving bound action (conditions ++ more) hcontext
    rw [hrun] at hgrant
    have hgranted' : granted' = true := hverdict'.2 ((hverdict.1 hgrant).append more)
    rw [hrun', hsilent' hgranted', hgranted', List.append_nil]
  · intro conditions before
    obtain ⟨granted, recorded, hrun, hverdict, -, -⟩ :=
      exists_run_serving bound action conditions hcontext
    rw [hrun]
    exact hverdict

def reader : Json := .object [("role", .string "reader")]

def forReaders : Condition := .leaf ⟨"subject.role", .eq, .string "reader"⟩

def forWriters : Condition := .leaf ⟨"subject.role", .eq, .string "writer"⟩

/-- With a bound of one level a reader is granted what is for writers or readers, in any order and
whatever stands behind, but not when a group stands in front. -/
theorem verdict_of_reader :
    Context.ofTarget (.ok reader) (.kind "doc") = .ok ⟨reader, none⟩ ∧
    (∃ granted, ∀ before,
      ((serving 1 [forWriters, forReaders]).decide (.ok reader) "read" (.kind "doc")).run before =
        (granted, before) ∧
      ((serving 1 [forReaders, forWriters, forReaders]).decide (.ok reader) "read"
        (.kind "doc")).run before = (granted, before)) ∧
    ((serving 1 ([forWriters, forReaders] ++ [.group .or [forWriters]])).decide (.ok reader) "read"
      (.kind "doc")).run [] = (true, []) ∧
    ¬ (((serving 1 [.group .or [forWriters], forReaders]).decide (.ok reader) "read"
      (.kind "doc")).run []).1 = true := by
  have hcontext : Context.ofTarget (.ok reader) (.kind "doc") = .ok ⟨reader, none⟩ := rfl
  obtain ⟨hsame, hkept, hverdict⟩ :=
    verdict_of_conditions 1 (.ok reader) "read" (.kind "doc") ⟨reader, none⟩ hcontext
  refine ⟨hcontext, ?_, ?_, ?_⟩
  · refine hsame _ _ (List.cons_ne_nil _ _) (List.cons_ne_nil _ _) (fun condition => ?_) ?_
    · simp only [List.mem_cons, List.not_mem_nil, or_false]
      rw [or_left_comm, or_self]
    · simp [forWriters, forReaders, Condition.depth]
  · apply hkept
    rw [hverdict]
    refine ⟨[forWriters], forReaders, [], rfl, by decide +kernel, ?_⟩
    simp [forWriters, forReaders, Condition.depth]
  · rw [hverdict]
    rintro ⟨earlier, condition, later, hsplit, -, hdepth⟩
    have hfront : Condition.group .or [forWriters] ∈ earlier ++ [condition] := by
      cases earlier with
      | nil =>
        rw [List.nil_append, List.cons.injEq] at hsplit
        simp [hsplit.1]
      | cons first rest =>
        rw [List.cons_append, List.cons.injEq] at hsplit
        simp [hsplit.1]
    have hlevels := hdepth _ hfront
    simp [forWriters, Condition.depth, Condition.depthAll] at hlevels

end Collaborators

end Abac
