import Abac.Diagnostic.Journal
import Abac.Proofs.Json.Reading
import Abac.Text.Basic

/-!
Exports of journals. Each event is written to a line of its own, and no text that an event carries
can end the line or write another: line ends are always escaped. So an export is cut at its line
ends into the lines of the events, and each line is read as the event that it was written for.
-/

namespace Abac

namespace Diagnostic

private theorem sortedFields_fields (diagnostic : Diagnostic) :
    Json.sortedFields diagnostic.fields = diagnostic.fields := by
  cases diagnostic <;> rfl

/-- A diagnostic is read back from its fields: its kind is a name of its own. -/
theorem ofJson?_toJson (diagnostic : Diagnostic) :
    ofJson? diagnostic.toJson = some diagnostic := by
  rw [toJson, Json.ofFields, ofJson?]
  simp only [Keyed.lookup_ofList]
  cases diagnostic <;> rfl

end Diagnostic

namespace Event

variable {event : Event}

private theorem sorted_written (event : Event) :
    event.written.sorted = Json.ofFields [("sequence", .ofNat event.sequence),
      ("recorded_at", .string event.recordedAt), ("diagnostic", event.diagnostic.toJson)] := by
  rw [Diagnostic.toJson, ← Diagnostic.sortedFields_fields]
  rfl

private theorem ofParts?_written (readTime? : String → Option String)
    (hfits : event.sequence < Nat.pow 2 64) :
    ofParts? readTime? (.ofNat event.sequence) (.string event.recordedAt)
      event.diagnostic.toJson =
        (readTime? event.recordedAt).map fun time => { event with recordedAt := time } := by
  simp only [ofParts?, Json.asNatural?_ofNat hfits, Json.asString?, Diagnostic.ofJson?_toJson,
    Option.bind_eq_bind, Option.bind_some]
  cases readTime? event.recordedAt <;> rfl

private theorem ofJson?_ofFields (readTime? : String → Option String)
    (sequence recordedAt diagnostic : Json) :
    ofJson? readTime? (Json.ofFields [("sequence", sequence), ("recorded_at", recordedAt),
      ("diagnostic", diagnostic)]) = ofParts? readTime? sequence recordedAt diagnostic := by
  rw [Json.ofFields, ofJson?]
  simp only [Keyed.lookup_ofList]
  rfl

private theorem ofJson?_written (readTime? : String → Option String)
    (hfits : event.sequence < Nat.pow 2 64) :
    ofJson? readTime? event.written.sorted =
      (readTime? event.recordedAt).map fun time => { event with recordedAt := time } := by
  rw [sorted_written, ofJson?_ofFields, ofParts?_written readTime? hfits]

private theorem isPlain_written (hfits : event.sequence < Nat.pow 2 64) :
    event.written.IsPlain := by
  have hnumber : Json.Within64 (.int event.sequence) := by
    refine ⟨?_, Int.ofNat_lt.2 hfits⟩
    exact Int.le_trans (Int.neg_nonpos_of_nonneg (Int.natCast_nonneg _)) (Int.natCast_nonneg _)
  have hfields : Json.PlainFields event.diagnostic.fields := by
    cases event.diagnostic <;>
      simp [Diagnostic.fields, Diagnostic.error?, Json.PlainFields, Json.IsPlain]
  exact ⟨hnumber, trivial, hfields, trivial⟩

private theorem height_written (event : Event) : event.written.height ≤ Json.nestingLimit := by
  have hfields : Json.heightFields event.diagnostic.fields = 1 := by
    cases event.diagnostic <;> rfl
  simp [written, Json.ofNat, Json.height, Json.heightFields, hfields, Json.nestingLimit]

/-- A line is read as the event that it was written for. -/
theorem ofLine?_line (readTime? : String → Option String)
    (hfits : event.sequence < Nat.pow 2 64) :
    ofLine? readTime? event.line =
      (readTime? event.recordedAt).map fun time => { event with recordedAt := time } := by
  rw [ofLine?, line, Json.ofChars?_chars (isPlain_written hfits) event.height_written,
    Option.bind_eq_bind, Option.bind_some, ofJson?_written readTime? hfits]

private theorem printable_line (event : Event) : Json.Printable event.line :=
  Json.printable_chars event.written

private theorem not_mem_line (event : Event) {c : Char} (hcontrol : c.toNat < 32) :
    c ∉ event.line :=
  fun hmem => Nat.not_lt_of_le (event.printable_line c hmem) hcontrol

end Event

namespace Journal

/-- The numbers of the events are counted in 64 bits. -/
def Fits (journal : Journal) : Prop := ∀ event ∈ journal.events, event.sequence < Nat.pow 2 64

/-- The events of an export, read line by line; what stands behind the last line end is no line. -/
def decode (readTime? : String → Option String) (text : String) : Option (List Event) :=
  (Text.split '\n' text.toList).dropLast.mapM (Event.ofLine? readTime?)

private theorem split_lines (events : List Event) :
    Text.split '\n' (events.flatMap fun event => event.line ++ ['\n']) =
      events.map Event.line ++ [[]] := by
  induction events with
  | nil => rfl
  | cons event rest ih =>
    rw [List.flatMap_cons, List.append_assoc, List.singleton_append,
      Text.split_append (event.not_mem_line (by decide)), ih]
    rfl

private theorem split_exportLines (journal : Journal) :
    Text.split '\n' journal.exportLines.toList = journal.events.map Event.line ++ [[]] := by
  rw [exportLines, String.toList_ofList]
  exact split_lines journal.events

/-- The events with the times that a reader of times makes of theirs. -/
def readTimes (readTime? : String → Option String) (events : List Event) : Option (List Event) :=
  events.mapM fun event =>
    (readTime? event.recordedAt).map fun time => { event with recordedAt := time }

private theorem readTimes_some (events : List Event) : readTimes some events = some events := by
  induction events with
  | nil => rfl
  | cons event rest ih =>
    rw [readTimes] at ih ⊢
    rw [List.mapM_cons, ih]
    rfl

private theorem exists_readTimes {readTime? : String → Option String} {events : List Event}
    (htimes : ∀ event ∈ events, (readTime? event.recordedAt).isSome = true) :
    ∃ decoded, readTimes readTime? events = some decoded ∧
      decoded.map (·.sequence) = events.map (·.sequence) ∧
      decoded.map (·.diagnostic) = events.map (·.diagnostic) := by
  induction events with
  | nil => exact ⟨[], rfl, rfl, rfl⟩
  | cons event rest ih =>
    obtain ⟨hevent, hrest⟩ := List.forall_mem_cons.1 htimes
    obtain ⟨time, htime⟩ := Option.isSome_iff_exists.1 hevent
    obtain ⟨decoded, hdecoded, hsequences, hdiagnostics⟩ := ih hrest
    refine ⟨{ event with recordedAt := time } :: decoded, ?_, ?_, ?_⟩
    · rw [readTimes] at hdecoded ⊢
      rw [List.mapM_cons, htime, hdecoded]
      rfl
    · rw [List.map_cons, List.map_cons, hsequences]
    · rw [List.map_cons, List.map_cons, hdiagnostics]

private theorem mapM_lines (readTime? : String → Option String) {events : List Event}
    (hfits : ∀ event ∈ events, event.sequence < Nat.pow 2 64) :
    (events.map Event.line).mapM (Event.ofLine? readTime?) = readTimes readTime? events := by
  induction events with
  | nil => rfl
  | cons event rest ih =>
    obtain ⟨hevent, hrest⟩ := List.forall_mem_cons.1 hfits
    rw [List.map_cons, List.mapM_cons, Event.ofLine?_line readTime? hevent, ih hrest, readTimes,
      readTimes, List.mapM_cons]

private theorem decode_exportLines (readTime? : String → Option String) {journal : Journal}
    (hfits : journal.Fits) :
    decode readTime? journal.exportLines = readTimes readTime? journal.events := by
  rw [decode, split_exportLines, List.dropLast_concat]
  exact mapM_lines readTime? hfits

/-- An export determines its events, to the last character of their texts. -/
theorem events_eq_of_exportLines {journal other : Journal} (hfits : journal.Fits)
    (hfits' : other.Fits) (hsame : journal.exportLines = other.exportLines) :
    journal.events = other.events := by
  have hdecoded := decode_exportLines some hfits
  rw [hsame, decode_exportLines some hfits', readTimes_some, readTimes_some] at hdecoded
  exact (Option.some.inj hdecoded).symm

/-- Exports are framed by their line ends. An export is the lines of its events, in order, each
ended: there is a line for every event, nothing stands behind the last one, and no line holds a
control character, so none holds a line end. Reading the export line by line gives an event for
every event, in order and with its number and its diagnostic, whatever texts the events carry, if
only their times are such as can be read. Two journals with one export hold the same events. -/
theorem export_is_framed (journal : Journal) :
    (∃ lines : List (List Char), lines.length = journal.size ∧
      journal.exportLines.toList = lines.flatMap (fun line => line ++ ['\n']) ∧
      Text.split '\n' journal.exportLines.toList = lines ++ [[]] ∧
      ∀ line ∈ lines, ∀ c ∈ line, 32 ≤ c.toNat) ∧
    (journal.Fits → ∀ readTime? : String → Option String,
      (∀ event ∈ journal.events, (readTime? event.recordedAt).isSome = true) →
      ∃ decoded, decode readTime? journal.exportLines = some decoded ∧
        decoded.map (·.sequence) = journal.events.map (·.sequence) ∧
        decoded.map (·.diagnostic) = journal.diagnostics) ∧
    ∀ other : Journal, journal.Fits → other.Fits → journal.exportLines = other.exportLines →
      journal.events = other.events := by
  refine ⟨?framing, ?decoding, fun other => events_eq_of_exportLines⟩
  case framing =>
    refine ⟨journal.events.map Event.line, List.length_map _, ?_, journal.split_exportLines, ?_⟩
    · rw [exportLines, String.toList_ofList, exportChars, List.flatMap_map]
    · intro line hline
      obtain ⟨event, -, rfl⟩ := List.mem_map.1 hline
      exact event.printable_line
  case decoding =>
    intro hfits readTime? htimes
    rw [decode_exportLines readTime? hfits]
    exact exists_readTimes htimes

/-- Texts that would end a line, close a string or begin an event of their own. -/
def hostile : Journal where
  events := [
    ⟨0, "2026-01-01T00:00:00Z", .noPolicyFound "a\"\\" "b\n\r\t"⟩,
    ⟨7, "2026-01-01T00:00:01Z", .policySourceFailure "report" "read"
      "\"\x7d\n\x7b\"sequence\":1,\"recorded_at\":\"\",\"diagnostic\":null\x7d\n"⟩,
    ⟨8, "2026-01-01T00:00:02Z", .evaluationFailure "\x00\x1f" "\\u0000" "\\n\u2028é"⟩]
  next := 9

theorem hostile_export_is_framed :
    hostile.Fits ∧ (∀ event ∈ hostile.events, (some event.recordedAt).isSome = true) ∧
    ∃ decoded, decode some hostile.exportLines = some decoded ∧
      decoded.map (·.sequence) = [0, 7, 8] ∧ decoded.map (·.diagnostic) = hostile.diagnostics := by
  have hfits : hostile.Fits := by
    unfold Fits
    decide
  have htimes : ∀ event ∈ hostile.events, (some event.recordedAt).isSome = true := by simp
  obtain ⟨-, hdecoding, -⟩ := hostile.export_is_framed
  exact ⟨hfits, htimes, hdecoding hfits some htimes⟩

end Journal

end Abac
