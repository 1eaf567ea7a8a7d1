import Abac.Proofs.Decision.Order
import Abac.Proofs.Decision.Screened
import Abac.Proofs.Decision.Valid
import Abac.Proofs.Diagnostic.History
import Abac.Proofs.Policy.Lookup

/-!
Checks in flight. Many checks share a source of policies, an evaluator and a sink, and each takes
two steps: it looks up its conditions, and it concludes from them and reports. The steps of
different checks may come in any order. What a check still has to do says how far it is, and this is
kept by every step: so each check ends with the verdict that it has alone, and the journal behind
the sink with the reports of all, numbered as they came.
-/

namespace Abac

open Collaborators (requestOf reporting reader forReaders)

/-- What checks share. Source and evaluator answer by their arguments alone. -/
structure Facade (Subject : Type) where
  source : Subject → Collaborators.Source
  judge : Collaborators.Judge
  attributes : Subject → Attributes
  sink : Sink

structure Check (Subject : Type) where
  subject : Subject
  action : String
  target : Target

/-- How far a check is. -/
inductive Stage where
  | waiting
  | found (answer : Outcome (List Condition))
  | finished (granted : Bool)

/-- A step of the check with an index, at a time. -/
inductive Move where
  | lookup (index : Nat) (time : String)
  | conclude (index : Nat) (time : String)

def Move.index : Move → Nat
  | lookup index _ => index
  | conclude index _ => index

/-- How far all checks are, and what the sinks have taken. -/
structure Progress where
  stages : List Stage
  records : Records

namespace Facade

variable {Subject : Type}

/-- The collaborators of a check at a time. -/
def collaborators (facade : Facade Subject) (subject : Subject) (time : String) :
    Collaborators (StateM Records) :=
  .noting (fun
    | .record diagnostic => modify fun records => facade.sink.record time diagnostic records
    | _ => return ()) (facade.source subject) facade.judge

/-- A whole check, at a time. -/
def decide (facade : Facade Subject) (check : Check Subject) (time : String) :
    StateM Records Bool :=
  (facade.collaborators check.subject time).decide (facade.attributes check.subject) check.action
    check.target

/-- What a check does in a stage. A check that is not in the stage for it does nothing. -/
def act? (facade : Facade Subject) (check : Check Subject) :
    Move → Stage → Option (StateM Records Stage)
  | .lookup _ time, .waiting => some do
    let answer ← (facade.collaborators check.subject time).lookup
      (requestOf check.action check.target)
    return .found answer
  | .conclude _ time, .found answer => some do
    let granted ← (facade.collaborators check.subject time).conclude
      (facade.attributes check.subject) check.action check.target answer
    return .finished granted
  | _, _ => none

def step? (facade : Facade Subject) (checks : List (Check Subject)) (progress : Progress)
    (move : Move) : Option Progress := do
  let check ← checks[move.index]?
  let stage ← progress.stages[move.index]?
  let action ← facade.act? check move stage
  let (next, records) := action.run progress.records
  return ⟨progress.stages.set move.index next, records⟩

def run? (facade : Facade Subject) (checks : List (Check Subject)) (progress : Progress)
    (moves : List Move) : Option Progress :=
  moves.foldlM (facade.step? checks) progress

def start (checks : List (Check Subject)) (records : Records) : Progress :=
  ⟨checks.map fun _ => .waiting, records⟩

/-- The verdict and the reports of a check by itself. -/
def alone (facade : Facade Subject) (check : Check Subject) : Bool × List Diagnostic :=
  ((reporting (facade.source check.subject) facade.judge).decide
    (facade.attributes check.subject) check.action check.target).run []

/-- What a check reports in a step. -/
def reportsAt (facade : Facade Subject) (check : Check Subject) :
    Move → List (String × Diagnostic)
  | .lookup _ _ => []
  | .conclude _ time => (facade.alone check).2.map (time, ·)

/-- What is reported in a step. -/
def reports (facade : Facade Subject) (checks : List (Check Subject)) (move : Move) :
    List (String × Diagnostic) :=
  (checks[move.index]?).elim [] fun check => facade.reportsAt check move

end Facade

/-- The steps of a number of checks, in any order that is right for each of them. -/
def Interleaves (count : Nat) (moves : List Move) : Prop :=
  (∀ move ∈ moves, move.index < count) ∧
    ∀ index < count, ∃ first second,
      moves.filter (·.index = index) = [.lookup index first, .conclude index second]

namespace Facade

variable {Subject : Type} {facade : Facade Subject} {checks : List (Check Subject)}

/-- Entries that are passed to a sink one by one. -/
def entered (sink : Sink) (entries : List (String × Diagnostic)) : List Operation :=
  entries.map fun entry => .record entry.1 entry.2 sink

private theorem run_forM_record (facade : Facade Subject) (time : String)
    (diagnostics : List Diagnostic)
    (records : Records) :
    StateT.run (m := Id) (diagnostics.forM fun diagnostic =>
        modify fun records => facade.sink.record time diagnostic records) records =
      ((), records.run (entered facade.sink (diagnostics.map (time, ·)))) := by
  induction diagnostics generalizing records with
  | nil => rfl
  | cons diagnostic rest ih => exact ih (facade.sink.record time diagnostic records)

/-- A check has the verdict and the reports that it has by itself, whatever the sinks have taken. -/
theorem run_decide (facade : Facade Subject) (check : Check Subject) (time : String)
    (records : Records) :
    (facade.decide check time).run records = ((facade.alone check).1,
      records.run (entered facade.sink ((facade.alone check).2.map (time, ·)))) := by
  obtain ⟨granted, evaluated, recorded, hcourse⟩ :=
    Collaborators.exists_course (facade.source check.subject) facade.judge
      (facade.attributes check.subject) check.action check.target
  have halone : facade.alone check = (granted, recorded) :=
    Collaborators.run_reporting hcourse []
  rw [halone, decide, collaborators,
    Collaborators.decide_noting_reports _ (fun _ => rfl) (fun _ _ => rfl) hcourse,
    StateT.run_bind, run_forM_record]
  rfl

/-- What a check in a stage still has to do. -/
inductive Awaits (facade : Facade Subject) (check : Check Subject) (index : Nat) :
    Stage → List Move → Prop where
  | both (first second : String) :
      Awaits facade check index .waiting [.lookup index first, .conclude index second]
  | last (second : String) :
      Awaits facade check index
        (.found (facade.source check.subject (requestOf check.action check.target)))
        [.conclude index second]
  | nothing : Awaits facade check index (.finished (facade.alone check).1) []

/-- A check takes the step that it has to, and reports what is to be reported in it. -/
theorem Awaits.act {check : Check Subject} {index : Nat} {stage : Stage} {move : Move}
    {rest : List Move} (hawaits : facade.Awaits check index stage (move :: rest))
    (records : Records) :
    ∃ action next, facade.act? check move stage = some action ∧
      action.run records =
        (next, records.run (entered facade.sink (facade.reportsAt check move))) ∧
      facade.Awaits check index next rest := by
  cases hawaits with
  | both first second => exact ⟨_, _, rfl, rfl, .last second⟩
  | last second =>
    have hlookup : ((facade.collaborators check.subject second).lookup
        (requestOf check.action check.target)).run records =
        (facade.source check.subject (requestOf check.action check.target), records) := rfl
    have hwhole := run_decide facade check second records
    rw [decide, Collaborators.run_decide hlookup] at hwhole
    refine ⟨_, _, rfl, ?_, .nothing⟩
    rw [StateT.run_bind, hwhole]
    rfl

/-- Every check is in a stage in which it awaits just its own part of the steps to come. -/
structure Awaiting (facade : Facade Subject) (checks : List (Check Subject)) (stages : List Stage)
    (moves : List Move) : Prop where
  length : stages.length = checks.length
  within : ∀ move ∈ moves, move.index < checks.length
  awaits : ∀ index check stage, checks[index]? = some check → stages[index]? = some stage →
    facade.Awaits check index stage (moves.filter (·.index = index))

private theorem awaiting_start (records : Records) {moves : List Move}
    (hmoves : Interleaves checks.length moves) :
    facade.Awaiting checks (start checks records).stages moves where
  length := List.length_map _
  within := hmoves.1
  awaits := by
    intro index check stage hcheck hstage
    obtain ⟨hindex, -⟩ := List.getElem?_eq_some_iff.1 hcheck
    obtain ⟨first, second, hown⟩ := hmoves.2 index hindex
    simp only [start, List.getElem?_map, hcheck, Option.map_some, Option.some.injEq] at hstage
    rw [← hstage, hown]
    exact .both first second

theorem Awaiting.step {progress : Progress} {move : Move} {rest : List Move}
    (hawaiting : facade.Awaiting checks progress.stages (move :: rest)) :
    ∃ next, facade.step? checks progress move = some next ∧
      facade.Awaiting checks next.stages rest ∧
      next.records =
        progress.records.run (entered facade.sink (facade.reports checks move)) := by
  obtain ⟨hmove, hrest⟩ := List.forall_mem_cons.1 hawaiting.within
  obtain ⟨check, hcheck⟩ : ∃ check, checks[move.index]? = some check :=
    ⟨_, List.getElem?_eq_getElem hmove⟩
  obtain ⟨stage, hstage⟩ : ∃ stage, progress.stages[move.index]? = some stage :=
    ⟨_, List.getElem?_eq_getElem (hawaiting.length ▸ hmove)⟩
  have hown := hawaiting.awaits _ _ _ hcheck hstage
  rw [List.filter_cons_of_pos (by simp)] at hown
  obtain ⟨action, next, hact, hrun, hnext⟩ := hown.act progress.records
  refine ⟨⟨progress.stages.set move.index next, progress.records.run _⟩, ?_, ?_, rfl⟩
  · simp only [step?, hcheck, hstage, hact, hrun, reports, Option.bind_eq_bind, Option.bind_some,
      Option.elim_some]
    rfl
  · refine ⟨by simpa using hawaiting.length, hrest, ?_⟩
    intro index other found hother hfound
    by_cases hsame : move.index = index
    · subst hsame
      rw [List.getElem?_set_self (hawaiting.length ▸ hmove)] at hfound
      rw [hcheck] at hother
      cases hother
      cases hfound
      exact hnext
    · rw [List.getElem?_set_ne hsame] at hfound
      have hkept := hawaiting.awaits _ _ _ hother hfound
      rwa [List.filter_cons_of_neg (by simpa using hsame)] at hkept

/-- Any steps that are right for each check can be taken, and what is reported in them comes to the
sink in their order. -/
theorem Awaiting.run {progress : Progress} {moves : List Move}
    (hawaiting : facade.Awaiting checks progress.stages moves) :
    ∃ final, facade.run? checks progress moves = some final ∧
      facade.Awaiting checks final.stages [] ∧
      final.records =
        progress.records.run (entered facade.sink (moves.flatMap (facade.reports checks))) := by
  induction moves generalizing progress with
  | nil => exact ⟨progress, rfl, hawaiting, rfl⟩
  | cons move rest ih =>
    obtain ⟨next, hstep, hnext, hrecords⟩ := hawaiting.step
    obtain ⟨final, hrun, hfinal, hall⟩ := ih hnext
    refine ⟨final, ?_, hfinal, ?_⟩
    · rw [run?, List.foldlM_cons, hstep]
      exact hrun
    · rw [hall, hrecords, ← Records.run_append, List.flatMap_cons, entered, entered, entered,
        List.map_append]

/-- Checks that await nothing have finished, each with its own verdict. -/
theorem Awaiting.stages_eq {stages : List Stage} (hawaiting : facade.Awaiting checks stages []) :
    stages = checks.map fun check => .finished (facade.alone check).1 := by
  apply List.ext_getElem (by simpa using hawaiting.length)
  intro index hstage hcheck
  have hindex : index < checks.length := by simpa using hcheck
  have hnone := hawaiting.awaits index _ _ (List.getElem?_eq_getElem hindex)
    (List.getElem?_eq_getElem hstage)
  rw [List.filter_nil] at hnone
  rw [List.getElem_map]
  generalize stages[index] = stage at hnone ⊢
  cases hnone
  rfl

/-- All steps of a check together report what the check reports alone. -/
theorem reports_of_own {moves : List Move} {index : Nat} (hindex : index < checks.length)
    (hown : ∃ first second, moves.filter (·.index = index) =
      [.lookup index first, .conclude index second]) :
    ((moves.filter (·.index = index)).flatMap (facade.reports checks)).map (·.2) =
      (facade.alone checks[index]).2 := by
  obtain ⟨first, second, hown⟩ := hown
  rw [hown]
  simp [reports, Move.index, reportsAt, hindex, Function.comp_def]

/-- Whatever the order of the steps, the reports are those of all checks alone. -/
theorem reports_perm {moves : List Move} (hmoves : Interleaves checks.length moves) :
    ((moves.flatMap (facade.reports checks)).map (·.2)).Perm
      (checks.flatMap fun check => (facade.alone check).2) := by
  have hcovered : ∀ move ∈ moves, move.index ∈ List.range checks.length :=
    fun move hmem => List.mem_range.2 (hmoves.1 move hmem)
  have hgroups := Keyed.flatMap_filter_perm Move.index List.nodup_range hcovered
  rw [← List.map_coe_finRange_eq_range, List.flatMap_map] at hgroups
  have hchecks : (checks.flatMap fun check => (facade.alone check).2) =
      (List.finRange checks.length).flatMap fun index => (facade.alone checks[index]).2 := by
    conv_lhs => rw [← List.map_getElem_finRange checks, List.flatMap_map]
    rfl
  refine ((hgroups.flatMap_right _).map _).symm.trans (.of_eq ?_)
  rw [hchecks, List.flatMap_assoc, List.map_flatMap]
  exact List.flatMap_congr fun index _ => reports_of_own index.2 (hmoves.2 index index.2)

private theorem received_entered {sink : Sink} {index : Nat}
    (hsink : sink.leaves.count (.journal index) = 1)
    (entries : List (String × Diagnostic)) :
    Journal.received index (entered sink entries) = entries := by
  have hleaf : sink.leaves.filter (· = .journal index) = [.journal index] := by
    rw [List.filter_eq, hsink]
    rfl
  simp [Journal.received, entered, Operation.entries, List.flatMap_map, hleaf]

private theorem kept_entered {sink : Sink} {index : Nat}
    (hsink : sink.leaves.count (.journal index) = 1)
    (entries : List (String × Diagnostic)) :
    Journal.kept index (entered sink entries) = entries := by
  have hkeeps : ∀ operation ∈ entered sink entries, (!operation.clears index) = true := by
    intro operation hmem
    obtain ⟨entry, -, rfl⟩ := List.mem_map.1 hmem
    rfl
  have hall : Journal.sinceClear index (entered sink entries) = entered sink entries :=
    List.rtakeWhile_eq_self_iff.2 hkeeps
  rw [Journal.kept, hall, received_entered hsink]

/-- A journal that starts empty and gets each entry once has the entries in their order, with the
numbers from zero on. -/
theorem journal_run_entered {index : Nat} {records : Records} {sink : Sink}
    (hsink : sink.leaves.count (.journal index) = 1)
    (hempty : records.journals[index]? = some .empty) (entries : List (String × Diagnostic)) :
    (records.run (entered sink entries)).journals[index]? =
      some ⟨Journal.numbered 0 entries, entries.length⟩ := by
  rw [Records.getElem?_run hempty, Journal.foldl_follow_empty, Journal.ofHistory,
    received_entered hsink, kept_entered hsink, Nat.sub_self]

/-- A check by itself reports at most once, and not at all when it grants. -/
theorem alone_reports (facade : Facade Subject) (check : Check Subject) :
    (facade.alone check).2.length ≤ 1 ∧
      ((facade.alone check).1 = true → (facade.alone check).2 = []) := by
  obtain ⟨granted, evaluated, recorded, hcourse⟩ :=
    Collaborators.exists_course (facade.source check.subject) facade.judge
      (facade.attributes check.subject) check.action check.target
  have halone : facade.alone check = (granted, recorded) :=
    Collaborators.run_reporting hcourse []
  rw [halone]
  exact ⟨hcourse.recorded_length_le_one,
    fun hgranted => hcourse.recorded_eq_nil_iff.2 (.inl hgranted)⟩

/-- Checks in flight do not influence one another. In whatever order the steps of any checks are
taken, each check gets the verdict that it has alone. A journal that is once among the leaves of the
shared sink gets just what the checks report alone, in the order in which they come to report, with
the numbers from zero on. Alone, a check reports at most once and not at all when it grants, and it
does so whatever the sinks have taken before. -/
theorem checks_do_not_interfere (facade : Facade Subject) (checks : List (Check Subject))
    (moves : List Move) (records : Records) (index : Nat)
    (hsink : facade.sink.leaves.count (.journal index) = 1)
    (hempty : records.journals[index]? = some .empty)
    (hmoves : Interleaves checks.length moves) :
    (∃ final journal, facade.run? checks (start checks records) moves = some final ∧
      final.stages = checks.map (fun check => .finished (facade.alone check).1) ∧
      final.records.journals[index]? = some journal ∧
      journal.events.map (fun event => (event.recordedAt, event.diagnostic)) =
        moves.flatMap (facade.reports checks) ∧
      journal.diagnostics.Perm (checks.flatMap fun check => (facade.alone check).2) ∧
      journal.events.map (·.sequence) = List.range journal.size ∧
      journal.next = journal.size) ∧
    ∀ check ∈ checks,
      (facade.alone check).2.length ≤ 1 ∧
      ((facade.alone check).1 = true → (facade.alone check).2 = []) ∧
      ∀ time records, (facade.decide check time).run records = ((facade.alone check).1,
        records.run (entered facade.sink ((facade.alone check).2.map (time, ·)))) := by
  constructor
  · obtain ⟨final, hrun, hfinal, hrecords⟩ := (awaiting_start records hmoves).run
    have hjournal := journal_run_entered hsink hempty (moves.flatMap (facade.reports checks))
    have hentries := Journal.map_numbered 0 (moves.flatMap (facade.reports checks))
    refine ⟨final, _, hrun, hfinal.stages_eq, hrecords ▸ hjournal, hentries, ?_, ?_, ?_⟩
    · have hdiagnostics := congrArg (List.map Prod.snd) hentries
      rw [List.map_map] at hdiagnostics
      exact (List.Perm.of_eq hdiagnostics).trans (reports_perm hmoves)
    · rw [Journal.sequences_numbered, Journal.size, Journal.length_numbered, List.range_eq_range']
    · rw [Journal.size, Journal.length_numbered]
  · intro check _
    obtain ⟨hone, hsilent⟩ := facade.alone_reports check
    exact ⟨hone, hsilent, run_decide facade check⟩

/-- Readers have a condition that holds, others have none. -/
def readingRoom : Facade Bool where
  source isReader _ := .done (if isReader then [forReaders] else [])
  judge _ _ := .done true
  attributes _ := .ok reader
  sink := .fan [.log, .journal 0]

/-- A reader and someone else. -/
def visitors : List (Check Bool) := [⟨true, "read", .kind "doc"⟩, ⟨false, "read", .kind "doc"⟩]

/-- The reader looks up first and concludes last. -/
def crossing : List Move := [.lookup 0 "1", .lookup 1 "2", .conclude 1 "3", .conclude 0 "4"]

/-- The reader is granted, and in between the other is denied, with the one report. -/
theorem visitors_do_not_interfere :
    readingRoom.sink.leaves.count (.journal 0) = 1 ∧
    (⟨[.empty], []⟩ : Records).journals[0]? = some .empty ∧
    Interleaves visitors.length crossing ∧
    ∃ final journal, readingRoom.run? visitors (start visitors ⟨[.empty], []⟩) crossing =
        some final ∧
      final.stages = [.finished true, .finished false] ∧
      final.records.journals[0]? = some journal ∧
      journal.events.map (fun event => (event.recordedAt, event.diagnostic)) = [("3", gap)] ∧
      journal.events.map (·.sequence) = List.range journal.size := by
  have hsink : readingRoom.sink.leaves.count (.journal 0) = 1 := by decide
  have hmoves : Interleaves visitors.length crossing := by
    refine ⟨by simp [crossing, visitors, Move.index], fun index hindex => ?_⟩
    match index, hindex with
    | 0, _ => exact ⟨"1", "4", rfl⟩
    | 1, _ => exact ⟨"2", "3", rfl⟩
  obtain ⟨⟨final, journal, hrun, hstages, hjournal, hentries, -, hnumbers, -⟩, -⟩ :=
    checks_do_not_interfere readingRoom visitors crossing ⟨[.empty], []⟩ 0 hsink rfl hmoves
  exact ⟨hsink, rfl, hmoves, final, journal, hrun, hstages, hjournal, hentries, hnumbers⟩

end Facade

end Abac
