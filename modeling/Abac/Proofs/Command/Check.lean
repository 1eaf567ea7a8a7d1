import Abac.Command.Run
import Abac.Proofs.Decision.Order
import Abac.Proofs.Decision.Screened
import Abac.Proofs.Policy.Acceptance

/-!
The command `check`, from texts to exit codes, whatever libraries read the texts and compile the
schemas. A check either reads a question, which is all that its options and files come to, or ends
in a fault. The answer to a question is exact: it is a grant just when the conditions for the
request grant within the bound and, where contexts have a schema, are all valid. A schema can take a
grant away and do nothing else. A check has no conclusion only when the check of its context against
a schema does not come to an end.
-/

namespace Abac

namespace Command

open Collaborators (noting)
open Condition (GrantsWithin)

/-- The target that an option stands for: a resource is an object with a string as its type. -/
inductive Denotes (libraries : Libraries) : CheckTarget → Target → Prop where
  | resource {text type : String} {fields : Fields}
      (hparse : libraries.parseJson text = .ok (.object fields))
      (htype : fields.lookup typeKey = some (.string type)) :
      Denotes libraries (.resource text)
        (.ofResource ⟨type, fields.filter fun field => field.1 ≠ typeKey⟩)
  | type (name : String) : Denotes libraries (.type name) (.kind name)

/-- The validator that an optional file stands for: the file has to hold a schema that compiles. -/
inductive Screens (libraries : Libraries) (files : FileTexts) (maxDepth : Nat) :
    Option String → Option Validator → Prop where
  | absent : Screens libraries files maxDepth none none
  | compiled {path text : String} {document : Json} {check : Schema.Check}
      (hread : files path = some text)
      (hparse : libraries.parseJson text = .ok document)
      (hcompiles : libraries.compileSchema document = .ok check) :
      Screens libraries files maxDepth (some path) (some ⟨maxDepth, some ⟨document, check⟩⟩)

/-- All that the options of a check name can be read, and comes to a question. -/
structure Reads (libraries : Libraries) (files : FileTexts) (options : CheckOptions)
    (question : Question) : Prop where
  policies : ∃ text table, files options.policies = some text ∧
    libraries.parseToml text = .ok table ∧
    Configuration.ofFields .toml (Toml.fieldsToJson table) = .ok question.config
  sound : 0 < question.config.maxDepth ∧ (question.config.entitlements.map (·.id)).Nodup ∧
    ∀ entitlement ∈ question.config.entitlements, entitlement.Sound question.config.actions
  subject : libraries.parseJson options.subject = .ok question.subject
  target : Denotes libraries options.target question.target
  screen : Screens libraries files question.config.maxDepth options.schema? question.validator?
  action : question.action = options.action

/-- All inputs of a check are accepted: they come to a question about a configured action. -/
structure Accepts (libraries : Libraries) (files : FileTexts) (options : CheckOptions)
    (question : Question) : Prop extends Reads libraries files options question where
  configured : question.action ∈ question.config.actions.names

namespace Question

/-- Some condition holds in the context of the question, neither it nor any before it is too deep,
and all conditions are valid where contexts have a schema. -/
def Granted (question : Question) : Prop :=
  (∃ context, Context.ofTarget (.ok question.subject) question.target = .ok context ∧
    GrantsWithin question.config.maxDepth context question.conditions) ∧
  ∀ validator, question.validator? = some validator →
    validator.AllValid question.request question.conditions

/-- Where the question is about a resource and contexts have a schema, checking the context against
it comes to an end. -/
def Ends (question : Question) : Prop :=
  ∀ validator type resource, question.validator? = some validator →
    question.target = .item type (.ok resource) →
    (validator.checkContext? ⟨question.subject, some resource⟩).isSome = true

end Question

variable {libraries : Libraries} {files : FileTexts} {options : CheckOptions}
  {question : Question}

private theorem bind_eq_ok_iff {α β : Type} {result : Except Fault α} {next : α → Except Fault β}
    {value : β} :
    result >>= next = .ok value ↔ ∃ first, result = .ok first ∧ next first = .ok value := by
  cases result with
  | error fault => simp [bind, Except.bind]
  | ok first => simp [bind, Except.bind]

private theorem loadPolicies_eq_ok_iff {path : String} {config : Configuration} :
    loadPolicies libraries files path = .ok config ↔
      (∃ text table, files path = some text ∧ libraries.parseToml text = .ok table ∧
        Configuration.ofFields .toml (Toml.fieldsToJson table) = .ok config) ∧
      config.flaw? = none := by
  unfold loadPolicies
  cases files path with
  | none => simp
  | some text => simp [Configuration.loadBy_eq_ok_iff, Configuration.ofTomlBy_eq_ok_iff]

private theorem readJson_eq_ok_iff {option text : String} {value : Json} :
    readJson libraries option text = .ok value ↔ libraries.parseJson text = .ok value := by
  unfold readJson
  cases libraries.parseJson text <;> simp

private theorem readTarget_eq_ok_iff {given : CheckTarget} {target : Target} :
    readTarget libraries given = .ok target ↔ Denotes libraries given target := by
  cases given with
  | type name =>
    constructor
    · rintro ⟨⟩
      exact .type name
    · rintro ⟨⟩
      rfl
  | resource text =>
    rw [readTarget, bind_eq_ok_iff]
    constructor
    · rintro ⟨value, hvalue, hresource⟩
      cases hread : Resource.ofJson? value with
      | none => simp [hread] at hresource
      | some resource =>
        obtain ⟨fields, type, rfl, htype, rfl⟩ := Resource.ofJson?_eq_some_iff.1 hread
        rw [hread] at hresource
        cases hresource
        exact .resource (readJson_eq_ok_iff.1 hvalue) htype
    · rintro (@⟨_, type, fields, hparse, htype⟩)
      have hread := Resource.ofJson?_eq_some_iff.2 ⟨fields, type, rfl, htype, rfl⟩
      exact ⟨_, readJson_eq_ok_iff.2 hparse, by rw [hread]; rfl⟩

private theorem loadValidator_eq_ok_iff {maxDepth : Nat} {path : String} {validator : Validator} :
    loadValidator libraries files maxDepth path = .ok validator ↔
      ∃ text document check, files path = some text ∧
        libraries.parseJson text = .ok document ∧
        libraries.compileSchema document = .ok check ∧
        validator = ⟨maxDepth, some ⟨document, check⟩⟩ := by
  unfold loadValidator
  cases files path with
  | none => simp
  | some text =>
    simp only [bind_eq_ok_iff, readJson_eq_ok_iff, Option.some.injEq]
    constructor
    · rintro ⟨document, hparse, hschema⟩
      unfold Validator.withSchemaBy at hschema
      split at hschema
      · next check hcompiles =>
        exact ⟨text, document, check, rfl, hparse, hcompiles, (Except.ok.inj hschema).symm⟩
      · cases hschema
    · rintro ⟨text, document, check, rfl, hparse, hcompiles, rfl⟩
      exact ⟨document, hparse, by simp [Validator.withSchemaBy, hcompiles]⟩

private theorem mapM_loadValidator_eq_ok_iff {maxDepth : Nat} {schema? : Option String}
    {validator? : Option Validator} :
    schema?.mapM (loadValidator libraries files maxDepth) = .ok validator? ↔
      Screens libraries files maxDepth schema? validator? := by
  cases schema? with
  | none =>
    constructor
    · rintro ⟨⟩
      exact .absent
    · rintro ⟨⟩
      rfl
  | some path =>
    constructor
    · intro hmap
      rw [Option.mapM_some] at hmap
      cases hload : loadValidator libraries files maxDepth path with
      | error fault =>
        rw [hload] at hmap
        cases hmap
      | ok validator =>
        rw [hload] at hmap
        cases hmap
        obtain ⟨text, document, check, hread, hparse, hcompiles, rfl⟩ :=
          loadValidator_eq_ok_iff.1 hload
        exact .compiled hread hparse hcompiles
    · rintro (_ | @⟨_, text, document, check, hread, hparse, hcompiles⟩)
      rw [Option.mapM_some, loadValidator_eq_ok_iff.2
        ⟨text, document, check, hread, hparse, hcompiles, rfl⟩]
      rfl

private theorem readQuestion_eq_ok_iff :
    readQuestion libraries files options = .ok question ↔
      Reads libraries files options question := by
  simp only [readQuestion, bind_eq_ok_iff, loadPolicies_eq_ok_iff, readJson_eq_ok_iff,
    readTarget_eq_ok_iff, mapM_loadValidator_eq_ok_iff, pure, Except.pure, Except.ok.injEq,
    Configuration.flaw?_eq_none_iff]
  constructor
  · rintro ⟨config, ⟨hpolicies, hsound⟩, subject, hsubject, target, htarget, validator?, hscreen,
      rfl⟩
    exact ⟨hpolicies, hsound, hsubject, htarget, hscreen, rfl⟩
  · rintro ⟨hpolicies, hsound, hsubject, htarget, hscreen, haction⟩
    refine ⟨_, ⟨hpolicies, hsound⟩, _, hsubject, _, htarget, _, hscreen, ?_⟩
    rw [← haction]

/-- The inputs of a check come to one question at most. -/
theorem Reads.unique {other : Question} (hreads : Reads libraries files options question)
    (hother : Reads libraries files options other) : question = other :=
  Except.ok.inj ((readQuestion_eq_ok_iff.2 hreads).symm.trans (readQuestion_eq_ok_iff.2 hother))

private theorem runCheck_of_reads (hreads : Reads libraries files options question) :
    runCheck libraries files options = question.answer? libraries.now := by
  rw [runCheck, readQuestion_eq_ok_iff.2 hreads]

namespace Question

/-- The conditions for the question, behind the screen that its validator is. -/
def source (question : Question) : Collaborators.Source := fun request =>
  match question.validator? with
  | some validator => validator.screen request (.done (question.config.lookup request))
  | none => .done (question.config.lookup request)

/-- The collaborators of a question note nothing but reports. -/
private theorem collaborators_eq_noting (now : String) (question : Question) :
    question.collaborators now = noting (fun
      | .record diagnostic => modify fun records => sink.record now diagnostic records
      | _ => return ()) question.source (evaluator question.config.maxDepth) := by
  obtain ⟨config, _ | validator, subject, action, target⟩ := question <;> rfl

/-- The source answers with the conditions for the question, and only if they are all valid. -/
private theorem source_eq_done_iff {conditions : List Condition} :
    question.source question.request = .done conditions ↔
      conditions = question.conditions ∧
        ∀ validator, question.validator? = some validator →
          validator.AllValid question.request question.conditions := by
  have hconditions : question.config.lookup question.request = question.conditions := rfl
  rw [source, hconditions]
  cases question.validator? with
  | none => simp [eq_comm]
  | some validator =>
    simp only [Option.some.injEq, forall_eq']
    by_cases hvalid : validator.AllValid question.request question.conditions
    · rw [Validator.screen_done_eq_iff.2 hvalid]
      simp [hvalid, eq_comm]
    · rw [Validator.screen_of_not_allValid hvalid]
      simp [hvalid]

/-- A decision about the question grants just when the question is granted. -/
private theorem granted_iff {granted : Bool} {evaluated : List (Condition × Context)}
    {recorded : List Diagnostic}
    (hcourse : Collaborators.Course question.source (evaluator question.config.maxDepth)
      (.ok question.subject) question.action question.target granted evaluated recorded) :
    granted = true ↔ question.Granted := by
  rw [hcourse.granted_iff]
  simp only [Collaborators.hasFirstGrant_evaluator_iff]
  constructor
  · rintro ⟨conditions, context, hfound, hcontext, hgrants⟩
    obtain ⟨rfl, hvalid⟩ := source_eq_done_iff.1 hfound
    exact ⟨⟨context, hcontext, hgrants⟩, hvalid⟩
  · rintro ⟨⟨context, hcontext, hgrants⟩, hvalid⟩
    exact ⟨_, context, source_eq_done_iff.2 ⟨rfl, hvalid⟩, hcontext, hgrants⟩

/-- What a check records about a diagnostic, if there is one. -/
def records (now : String) (diagnostic? : Option Diagnostic) : Records :=
  diagnostic?.elim noRecords fun diagnostic => sink.record now diagnostic noRecords

/-- A decision reports at most one diagnostic, and none about a grant. -/
private theorem exists_decision (now : String) (question : Question) :
    ∃ granted diagnostic?,
      ((question.collaborators now).decide (.ok question.subject) question.action
        question.target).run noRecords = (granted, records now diagnostic?) ∧
      (granted = true ↔ question.Granted) ∧ (granted = true → diagnostic? = none) := by
  obtain ⟨granted, evaluated, recorded, hcourse⟩ :=
    Collaborators.exists_course question.source (evaluator question.config.maxDepth)
      (.ok question.subject) question.action question.target
  have hone := hcourse.recorded_length_le_one
  have hsilent : granted = true → recorded = [] := fun hgranted =>
    hcourse.recorded_eq_nil_iff.2 (.inl hgranted)
  rw [collaborators_eq_noting, Collaborators.decide_noting_reports _ (fun _ => rfl)
    (fun _ _ => rfl) hcourse]
  match recorded, hone with
  | [], _ => exact ⟨granted, none, rfl, granted_iff hcourse, fun _ => rfl⟩
  | [diagnostic], _ =>
    exact ⟨granted, some diagnostic, rfl, granted_iff hcourse, fun hgranted =>
      absurd (hsilent hgranted) (List.cons_ne_nil _ _)⟩

end Question

/-- What a check writes: notices, the entry of a diagnostic in the log, the verdict, and a line
about the diagnostic. -/
def outputs (notices : List Output) (verdict : String) (diagnostic? : Option Diagnostic) :
    List Output :=
  notices ++ (diagnostic?.map fun diagnostic => .entry diagnostic.logEntry).toList ++
    .line verdict ::
      (diagnostic?.map fun diagnostic => .line ("  diagnostic #0: " ++ diagnostic.text)).toList

private theorem outputs_records (now : String) (notices : List Output) (verdict : String)
    (diagnostic? : Option Diagnostic) :
    notices ++ (Question.records now diagnostic?).log.map .entry ++
        (verdict :: ((Question.records now diagnostic?).journal 0).events.map diagnosticLine).map
          .line =
      outputs notices verdict diagnostic? := by
  cases diagnostic? with
  | none => rfl
  | some diagnostic =>
    have hrecords : Question.records now (some diagnostic) =
        ⟨[⟨[⟨0, now, diagnostic⟩], 1⟩], [diagnostic.logEntry]⟩ := rfl
    have hmark : "  diagnostic #" ++ toString 0 ++ ": " = "  diagnostic #0: " := by decide
    have hline : diagnosticLine ⟨0, now, diagnostic⟩ =
        "  diagnostic #0: " ++ diagnostic.text :=
      congrArg (· ++ diagnostic.text) hmark
    rw [hrecords, outputs, Option.map_some, Option.map_some, ← hline]
    rfl

namespace Question

/-- The answer prints a grant without any report, and a denial with at most one. -/
private theorem exists_answer (now : String) {warnings : List Output}
    (hwarnings : question.warnings? = some warnings)
    (hconfigured : question.action ∈ question.config.actions.names) :
    ∃ granted diagnostic?,
      question.answer? now = some
        ⟨outputs (warnings ++ question.screenTraces.map .trace)
            (if granted then "ALLOW" else "DENY") diagnostic?,
          .ok (if granted then allowed else denied)⟩ ∧
      (granted = true ↔ question.Granted) ∧ (granted = true → diagnostic? = none) := by
  obtain ⟨granted, diagnostic?, hrun, hverdict, hsilent⟩ := exists_decision now question
  refine ⟨granted, diagnostic?, ?_, hverdict, hsilent⟩
  rw [answer?, hwarnings, Collaborators.check?_of_mem _ _ _ hconfigured]
  simp only [hrun, ← outputs_records now]
  rfl

/-- A question about an action that is not configured has no verdict. -/
private theorem answer?_of_unknown (now : String) {warnings : List Output}
    (hwarnings : question.warnings? = some warnings)
    (hunknown : question.action ∉ question.config.actions.names) :
    question.answer? now = some ⟨warnings, .error question.unknownAction⟩ := by
  have hnone : question.config.actions.get? question.action = none := by
    apply List.find?_eq_none.2
    intro name hmem hsame
    exact hunknown (eq_of_beq hsame ▸ hmem)
  rw [answer?, hwarnings, Collaborators.check?, hnone]
  rfl

private theorem isSome_warnings?_iff : question.warnings?.isSome = true ↔ question.Ends := by
  obtain ⟨config, _ | validator, subject, action, ⟨type, reason | resource⟩ | type⟩ := question
  case some.item.ok =>
    cases hcheck : validator.contextBreaches? ⟨subject, some resource⟩ with
    | none => simp [warnings?, Ends, Validator.checkContext?, hcheck]
    | some breaches =>
      cases hpassed : (Report.ofBreaches breaches).passed <;>
        simp [warnings?, Ends, Validator.checkContext?, hcheck, hpassed]
  all_goals simp [warnings?, Ends]

end Question

/-- What a check writes besides its verdict and its report. -/
inductive IsNotice : Output → Prop where
  | warning (summary : String) :
      IsNotice (.line ("warning: context does not match schema: " ++ summary))
  | trace (trace : Trace) : IsNotice (.trace trace)

private theorem isNotice_of_mem_traces {traces : List Trace} {output : Output}
    (hmem : output ∈ traces.map Output.trace) : IsNotice output := by
  obtain ⟨trace, -, rfl⟩ := List.mem_map.1 hmem
  exact .trace trace

private theorem isNotice_of_mem_warnings {warnings : List Output} {output : Output}
    (hwarnings : question.warnings? = some warnings) (hmem : output ∈ warnings) :
    IsNotice output := by
  unfold Question.warnings? at hwarnings
  split at hwarnings
  · obtain ⟨breaches, -, hlines⟩ := Option.bind_eq_some_iff.1 hwarnings
    dsimp only at hlines
    split at hlines
    · cases hlines
      cases hmem
    · cases hlines
      rcases List.mem_append.1 hmem with htrace | hline
      · exact isNotice_of_mem_traces htrace
      · rw [List.mem_singleton.1 hline]
        exact .warning _
  · cases hwarnings
    cases hmem

/-- Outputs besides the verdict and the report: notices, and not even those without a schema. -/
structure OnlyNotices (options : CheckOptions) (outputs : List Output) : Prop where
  notices : ∀ output ∈ outputs, IsNotice output
  silent : options.schema? = none → outputs = []

private theorem Screens.eq_none {maxDepth : Nat} {validator? : Option Validator}
    (hscreen : Screens libraries files maxDepth none validator?) : validator? = none := by
  cases hscreen
  rfl

private theorem Reads.no_validator (hreads : Reads libraries files options question)
    (hnone : options.schema? = none) : question.validator? = none := by
  have hscreen := hreads.screen
  rw [hnone] at hscreen
  exact hscreen.eq_none

private theorem onlyNotices_warnings {warnings : List Output}
    (hreads : Reads libraries files options question)
    (hwarnings : question.warnings? = some warnings) : OnlyNotices options warnings where
  notices := fun output => isNotice_of_mem_warnings hwarnings
  silent := by
    intro hnone
    rw [Question.warnings?, hreads.no_validator hnone] at hwarnings
    exact (Option.some.inj hwarnings).symm

private theorem onlyNotices_screenTraces (hreads : Reads libraries files options question) :
    OnlyNotices options (question.screenTraces.map .trace) where
  notices := fun output => isNotice_of_mem_traces
  silent := by
    intro hnone
    rw [Question.screenTraces, hreads.no_validator hnone]
    rfl

private theorem OnlyNotices.append {first second : List Output} (hfirst : OnlyNotices options first)
    (hsecond : OnlyNotices options second) : OnlyNotices options (first ++ second) where
  notices := by
    intro output hmem
    rcases List.mem_append.1 hmem with hmem | hmem
    · exact hfirst.notices output hmem
    · exact hsecond.notices output hmem
  silent := by
    intro hnone
    rw [hfirst.silent hnone, hsecond.silent hnone, List.append_nil]

/-- The ways in which a check can end. A grant is written without any report and a denial with at
most one; without a question there is no verdict. -/
inductive Ending (libraries : Libraries) (files : FileTexts) (options : CheckOptions) :
    Option Conclusion → Prop where
  | granted {question : Question} {notices : List Output}
      (hnotices : OnlyNotices options notices)
      (haccepts : Accepts libraries files options question) (hends : question.Ends)
      (hgranted : question.Granted) :
      Ending libraries files options (some ⟨outputs notices "ALLOW" none, .ok 0⟩)
  | denied {question : Question} {notices : List Output} {diagnostic? : Option Diagnostic}
      (hnotices : OnlyNotices options notices)
      (haccepts : Accepts libraries files options question) (hends : question.Ends)
      (hdenied : ¬ question.Granted) :
      Ending libraries files options (some ⟨outputs notices "DENY" diagnostic?, .ok 2⟩)
  | refused {notices : List Output} {fault : Fault}
      (hnotices : OnlyNotices options notices)
      (hnone : ¬ ∃ question, Accepts libraries files options question) :
      Ending libraries files options (some ⟨notices, .error fault⟩)
  | endless {question : Question} (hreads : Reads libraries files options question)
      (hendless : ¬ question.Ends) : Ending libraries files options none

private theorem ending_of_accepts (haccepts : Accepts libraries files options question)
    (hends : question.Ends) :
    Ending libraries files options (runCheck libraries files options) := by
  obtain ⟨warnings, hwarnings⟩ :=
    Option.isSome_iff_exists.1 (Question.isSome_warnings?_iff.2 hends)
  have hnotices : OnlyNotices options (warnings ++ question.screenTraces.map .trace) :=
    (onlyNotices_warnings haccepts.toReads hwarnings).append
      (onlyNotices_screenTraces haccepts.toReads)
  obtain ⟨granted, diagnostic?, hanswer, hverdict, hsilent⟩ :=
    Question.exists_answer libraries.now hwarnings haccepts.configured
  rw [runCheck_of_reads haccepts.toReads, hanswer]
  cases granted with
  | true =>
    rw [hsilent rfl]
    exact .granted hnotices haccepts hends (hverdict.1 rfl)
  | false =>
    have hdenied : ¬ question.Granted := fun hgranted => Bool.false_ne_true (hverdict.2 hgranted)
    exact .denied hnotices haccepts hends hdenied

private theorem ending_of_unknown (hreads : Reads libraries files options question)
    (hends : question.Ends) (hunknown : question.action ∉ question.config.actions.names) :
    Ending libraries files options (runCheck libraries files options) := by
  obtain ⟨warnings, hwarnings⟩ :=
    Option.isSome_iff_exists.1 (Question.isSome_warnings?_iff.2 hends)
  rw [runCheck_of_reads hreads, Question.answer?_of_unknown _ hwarnings hunknown]
  refine .refused (onlyNotices_warnings hreads hwarnings) ?_
  rintro ⟨other, hother⟩
  exact hunknown (hreads.unique hother.toReads ▸ hother.configured)

private theorem ending_of_endless (hreads : Reads libraries files options question)
    (hendless : ¬ question.Ends) :
    Ending libraries files options (runCheck libraries files options) := by
  have hnone : question.warnings? = none := by
    rw [← Question.isSome_warnings?_iff] at hendless
    exact Option.not_isSome_iff_eq_none.1 hendless
  have hanswer : question.answer? libraries.now = none := by
    rw [Question.answer?, hnone]
    rfl
  rw [runCheck_of_reads hreads, hanswer]
  exact .endless hreads hendless

private theorem ending_runCheck (libraries : Libraries) (files : FileTexts)
    (options : CheckOptions) :
    Ending libraries files options (runCheck libraries files options) := by
  cases hread : readQuestion libraries files options with
  | error fault =>
    rw [runCheck, hread]
    refine .refused ⟨nofun, fun _ => rfl⟩ ?_
    rintro ⟨question, haccepts⟩
    rw [readQuestion_eq_ok_iff.2 haccepts.toReads] at hread
    cases hread
  | ok question =>
    have hreads := readQuestion_eq_ok_iff.1 hread
    by_cases hends : question.Ends
    · by_cases hconfigured : question.action ∈ question.config.actions.names
      · exact ending_of_accepts ⟨hreads, hconfigured⟩ hends
      · exact ending_of_unknown hreads hends hconfigured
    · exact ending_of_endless hreads hends

namespace Ending

variable {conclusion plain : Conclusion}

private theorem code_eq_zero_iff (hending : Ending libraries files options (some conclusion)) :
    conclusion.code = 0 ↔
      ∃ question, Accepts libraries files options question ∧ question.Granted := by
  cases hending with
  | granted _ haccepts _ hgranted => exact iff_of_true rfl ⟨_, haccepts, hgranted⟩
  | denied _ haccepts _ hdenied =>
    refine iff_of_false nofun ?_
    rintro ⟨other, hother, hgranted⟩
    exact hdenied (haccepts.unique hother.toReads ▸ hgranted)
  | refused _ hnone => exact iff_of_false nofun fun ⟨other, hother, _⟩ => hnone ⟨other, hother⟩

private theorem code_eq_two_iff (hending : Ending libraries files options (some conclusion)) :
    conclusion.code = 2 ↔
      ∃ question, Accepts libraries files options question ∧ ¬ question.Granted := by
  cases hending with
  | granted _ haccepts _ hgranted =>
    refine iff_of_false nofun ?_
    rintro ⟨other, hother, hdenied⟩
    exact hdenied (haccepts.unique hother.toReads ▸ hgranted)
  | denied _ haccepts _ hdenied => exact iff_of_true rfl ⟨_, haccepts, hdenied⟩
  | refused _ hnone => exact iff_of_false nofun fun ⟨other, hother, _⟩ => hnone ⟨other, hother⟩

private theorem code_eq_one_iff (hending : Ending libraries files options (some conclusion)) :
    conclusion.code = 1 ↔ ¬ ∃ question, Accepts libraries files options question := by
  cases hending with
  | granted _ haccepts _ _ => exact iff_of_false nofun fun hnone => hnone ⟨_, haccepts⟩
  | denied _ haccepts _ _ => exact iff_of_false nofun fun hnone => hnone ⟨_, haccepts⟩
  | refused _ hnone => exact iff_of_true rfl hnone

end Ending

/-- Where every question ends there is a conclusion. -/
private theorem exists_conclusion
    (hends : ∀ question, Reads libraries files options question → question.Ends) :
    ∃ conclusion, runCheck libraries files options = some conclusion := by
  have hending := ending_runCheck libraries files options
  cases hconclusion : runCheck libraries files options with
  | some conclusion => exact ⟨conclusion, rfl⟩
  | none =>
    rw [hconclusion] at hending
    cases hending with
    | endless hreads hendless => exact absurd (hends _ hreads) hendless

/-- Whatever validator there is, the rest of the inputs is accepted as before. -/
private theorem Accepts.with_schema {schema? : Option String} {validator? : Option Validator}
    (haccepts : Accepts libraries files options question)
    (hscreen : Screens libraries files question.config.maxDepth schema? validator?) :
    Accepts libraries files { options with schema? := schema? }
      { question with validator? := validator? } where
  policies := haccepts.policies
  sound := haccepts.sound
  subject := haccepts.subject
  target := haccepts.target
  screen := hscreen
  action := haccepts.action
  configured := haccepts.configured

/-- Without a schema there is nothing that might not end. -/
private theorem Reads.ends_of_no_schema (hreads : Reads libraries files options question)
    (hnone : options.schema? = none) : question.Ends := by
  intro validator type resource hvalidator
  rw [hreads.no_validator hnone] at hvalidator
  cases hvalidator

/-- What is granted with a validator is granted without one. -/
private theorem Question.Granted.of_no_validator {validator? : Option Validator}
    (hgranted : Question.Granted { question with validator? := validator? })
    (hnone : question.validator? = none) : question.Granted := by
  refine ⟨hgranted.1, fun validator hsome => ?_⟩
  rw [hnone] at hsome
  cases hsome

/-- A file with a schema changes the end of a check from a grant to a denial or not at all. -/
private theorem code_with_schema {conclusion plain : Conclusion}
    (hscreened : Ending libraries files options (some conclusion))
    (hplain : Ending libraries files { options with schema? := none } (some plain))
    (hschema : ∀ maxDepth, ∃ validator?,
      Screens libraries files maxDepth options.schema? validator?) :
    conclusion.code = plain.code ∨ plain.code = 0 ∧ conclusion.code = 2 := by
  by_cases haccepted :
      ∃ question, Accepts libraries files { options with schema? := none } question
  · obtain ⟨question, haccepts⟩ := haccepted
    obtain ⟨validator?, hscreen⟩ := hschema question.config.maxDepth
    have hsame : Accepts libraries files options { question with validator? := validator? } :=
      haccepts.with_schema hscreen
    by_cases hgranted : Question.Granted { question with validator? := validator? }
    · have hbefore : question.Granted := hgranted.of_no_validator haccepts.screen.eq_none
      left
      rw [hscreened.code_eq_zero_iff.2 ⟨_, hsame, hgranted⟩,
        hplain.code_eq_zero_iff.2 ⟨_, haccepts, hbefore⟩]
    · have hdenied := hscreened.code_eq_two_iff.2 ⟨_, hsame, hgranted⟩
      by_cases hbefore : question.Granted
      · exact .inr ⟨hplain.code_eq_zero_iff.2 ⟨_, haccepts, hbefore⟩, hdenied⟩
      · left
        rw [hdenied, hplain.code_eq_two_iff.2 ⟨_, haccepts, hbefore⟩]
  · have hnone : ¬ ∃ question, Accepts libraries files options question := by
      rintro ⟨question, haccepts⟩
      exact haccepted ⟨_, haccepts.with_schema .absent⟩
    left
    rw [hscreened.code_eq_one_iff.2 hnone, hplain.code_eq_one_iff.2 haccepted]

/-- Checks are exact and fail closed, for all texts of files and options and all libraries. A check
is without a conclusion only when a question is read whose context is checked without end. Otherwise
it grants, with exit code zero, just when all its inputs are accepted and come to a question that is
granted; it denies, with exit code two, just when they come to a question that is not; anything else
is a fault, with exit code one and without a verdict. Nothing is reported with a grant and at most
once with a denial, in the log and on a line, and what else is written are notices, of which there
are none without a schema. A schema of contexts that compiles leaves the exit code as it is without
one, or turns a grant into a denial. -/
theorem check_is_exact_and_fail_closed (libraries : Libraries) (files : FileTexts)
    (options : CheckOptions) :
    Ending libraries files options (runCheck libraries files options) ∧
    ((∀ question, Reads libraries files options question → question.Ends) →
      ∃ conclusion, runCheck libraries files options = some conclusion ∧
        (conclusion.code = 0 ↔
          ∃ question, Accepts libraries files options question ∧ question.Granted) ∧
        (conclusion.code = 2 ↔
          ∃ question, Accepts libraries files options question ∧ ¬ question.Granted) ∧
        (conclusion.code = 1 ↔ ¬ ∃ question, Accepts libraries files options question) ∧
        ∃ plain, runCheck libraries files { options with schema? := none } = some plain ∧
          ∀ path text document check, options.schema? = some path → files path = some text →
            libraries.parseJson text = .ok document →
            libraries.compileSchema document = .ok check →
            conclusion.code = plain.code ∨ plain.code = 0 ∧ conclusion.code = 2) := by
  have hending := ending_runCheck libraries files options
  refine ⟨hending, fun hends => ?_⟩
  obtain ⟨conclusion, hconclusion⟩ := exists_conclusion hends
  rw [hconclusion] at hending
  have hplain := ending_runCheck libraries files { options with schema? := none }
  obtain ⟨plain, hconclusion'⟩ : ∃ plain,
      runCheck libraries files { options with schema? := none } = some plain :=
    exists_conclusion fun question hreads => hreads.ends_of_no_schema rfl
  rw [hconclusion'] at hplain
  refine ⟨conclusion, hconclusion, hending.code_eq_zero_iff, hending.code_eq_two_iff,
    hending.code_eq_one_iff, plain, hconclusion', ?_⟩
  intro path text document check hpath hread hparse hcompiles
  refine code_with_schema hending hplain fun maxDepth => ?_
  rw [hpath]
  exact ⟨_, .compiled hread hparse hcompiles⟩

/-- A policy that lets readers read documents. -/
def readersPolicy : String :=
  "actions=[\"read\"]\n" ++
  "entitlements=[\x7bid=1,title=\"\",resource_type=\"doc\"," ++
  "policies.read=\x7brequires_resource=false," ++
  "conditions=\x7bleft=\"subject.role\",op=\"eq\",right=\"reader\"\x7d\x7d\x7d]"

/-- A schema that does not declare roles of subjects. -/
def rolelessSchema : String :=
  "\x7b\"properties\": \x7b\"subject\": \x7b\"properties\": \x7b\"id\": true\x7d\x7d\x7d\x7d"

def readersFiles : FileTexts
  | "policies" => some readersPolicy
  | "schema" => some rolelessSchema
  | _ => none

/-- May a reader read a document? -/
def readersOptions (schema? : Option String) : CheckOptions :=
  ⟨"policies", "read", "\x7b\"role\": \"reader\"\x7d", .resource "\x7b\"type\": \"doc\"\x7d",
    schema?⟩

/-- The check of the context of this question against the schema comes to an end. -/
private theorem ends_of_reads_readersOptions
    (hreads : Reads ownLibraries readersFiles (readersOptions (some "schema")) question) :
    question.Ends := by
  have hall : (readQuestion ownLibraries readersFiles (readersOptions (some "schema"))).toOption.all
      (fun question => question.warnings?.isSome) = true := by
    decide +kernel
  rw [readQuestion_eq_ok_iff.2 hreads] at hall
  exact Question.isSome_warnings?_iff.1 hall

/-- A reader may, but not any more when there is a schema for which the policy is not valid. -/
theorem reader_check_with_schema :
    (∀ question, Reads ownLibraries readersFiles (readersOptions (some "schema")) question →
      question.Ends) ∧
    (∃ question, Accepts ownLibraries readersFiles (readersOptions none) question ∧
      question.Granted) ∧
    (∃ question, Accepts ownLibraries readersFiles (readersOptions (some "schema")) question ∧
      ¬ question.Granted) ∧
    ∃ document check conclusion plain, readersFiles "schema" = some rolelessSchema ∧
      ownLibraries.parseJson rolelessSchema = .ok document ∧
      ownLibraries.compileSchema document = .ok check ∧
      runCheck ownLibraries readersFiles (readersOptions (some "schema")) = some conclusion ∧
      runCheck ownLibraries readersFiles (readersOptions none) = some plain ∧
      (conclusion.code = plain.code ∨ plain.code = 0 ∧ conclusion.code = 2) := by
  have hcodes : (runCheck ownLibraries readersFiles (readersOptions (some "schema"))).map
        Conclusion.code = some 2 ∧
      (runCheck ownLibraries readersFiles (readersOptions none)).map Conclusion.code = some 0 := by
    decide +kernel
  have hcompiles : ((ownLibraries.parseJson rolelessSchema).toOption.any fun document =>
      (ownLibraries.compileSchema document).toOption.isSome) = true := by
    decide +kernel
  cases hparse : ownLibraries.parseJson rolelessSchema with
  | error reason =>
    rw [hparse] at hcompiles
    cases hcompiles
  | ok document =>
    rw [hparse] at hcompiles
    change (ownLibraries.compileSchema document).toOption.isSome = true at hcompiles
    cases hcheck : ownLibraries.compileSchema document with
    | error reason =>
      rw [hcheck] at hcompiles
      cases hcompiles
    | ok check =>
      obtain ⟨-, hconcludes⟩ := check_is_exact_and_fail_closed ownLibraries readersFiles
        (readersOptions (some "schema"))
      obtain ⟨conclusion, hconclusion, -, htwo, -, plain, hplain, hscreened⟩ :=
        hconcludes fun question => ends_of_reads_readersOptions
      obtain ⟨-, hconcludes⟩ := check_is_exact_and_fail_closed ownLibraries readersFiles
        (readersOptions none)
      obtain ⟨other, hother, hzero, -⟩ :=
        hconcludes fun question hreads => hreads.ends_of_no_schema rfl
      obtain rfl : plain = other := Option.some.inj (hplain.symm.trans hother)
      rw [hconclusion, hother, Option.map_some, Option.map_some, Option.some.injEq,
        Option.some.injEq] at hcodes
      exact ⟨fun question => ends_of_reads_readersOptions, hzero.1 hcodes.2, htwo.1 hcodes.1,
        document, check, conclusion, plain, rfl, rfl, hcheck, hconclusion, hplain,
        hscreened "schema" rolelessSchema document check rfl rfl hparse hcheck⟩

end Command

end Abac
