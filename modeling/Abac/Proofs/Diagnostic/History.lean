import Mathlib.Data.List.DropRight
import Abac.Diagnostic.Sink

/-!
The history of journals. Diagnostics come to a journal through any sink that has it among its
leaves, and anyone may clear it in between. Whatever the order of these operations, a journal holds
what came to it since it was last cleared, and numbers what comes to it without a gap and without a
return.
-/

namespace Abac

namespace Sink

/-- The sink that is a leaf by itself. -/
def Leaf.toSink : Leaf → Sink
  | journal index => .journal index
  | log => .log

variable {time : String} {diagnostic : Diagnostic}

mutual

/-- A sink passes a diagnostic to its leaves, one after the other. -/
theorem record_eq_foldl_leaves (records : Records) :
    ∀ sink : Sink, record time diagnostic records sink =
      (leaves sink).foldl (Leaf.record time diagnostic) records
  | .journal _ => rfl
  | .log => rfl
  | .fan sinks => recordAll_eq_foldl_leavesOf records sinks

private theorem recordAll_eq_foldl_leavesOf (records : Records) :
    ∀ sinks : List Sink, recordAll time diagnostic records sinks =
      (leavesOf sinks).foldl (Leaf.record time diagnostic) records
  | [] => rfl
  | sink :: rest => by
    rw [recordAll, leavesOf, List.foldl_append, record_eq_foldl_leaves records sink,
      recordAll_eq_foldl_leavesOf _ rest]

end

private theorem Leaf.record_toSink (records : Records) (leaf : Leaf) :
    leaf.toSink.record time diagnostic records = leaf.record time diagnostic records := by
  cases leaf <;> rfl

end Sink

/-- What can be done with sinks: to pass a diagnostic to one, at a time, or to clear a journal. -/
inductive Operation where
  | record (time : String) (diagnostic : Diagnostic) (sink : Sink)
  | clear (index : Nat)

namespace Operation

def clears (index : Nat) : Operation → Bool
  | record _ _ _ => false
  | clear other => other = index

/-- What comes to a journal: a diagnostic as often as the journal is among the leaves of
its sink. -/
def entries (index : Nat) : Operation → List (String × Diagnostic)
  | record time diagnostic sink =>
    (sink.leaves.filter (· = .journal index)).map fun _ => (time, diagnostic)
  | clear _ => []

private theorem entries_of_clears {index : Nat} {operation : Operation}
    (hclears : operation.clears index = true) : operation.entries index = [] := by
  cases operation with
  | record time diagnostic sink => cases hclears
  | clear other => rfl

end Operation

namespace Records

def perform (records : Records) : Operation → Records
  | .record time diagnostic sink => sink.record time diagnostic records
  | .clear index => records.clear index

def run (records : Records) (operations : List Operation) : Records :=
  operations.foldl perform records

end Records

namespace Journal

/-- Entries as the events of a journal, numbered from a first number. -/
def numbered (first : Nat) (entries : List (String × Diagnostic)) : List Event :=
  (entries.zipIdx first).map fun (entry, sequence) => ⟨sequence, entry.1, entry.2⟩

private theorem numbered_cons (first : Nat) (entry : String × Diagnostic)
    (rest : List (String × Diagnostic)) :
    numbered first (entry :: rest) =
      ⟨first, entry.1, entry.2⟩ :: numbered (first + 1) rest := rfl

private theorem numbered_append (first : Nat) (entries more : List (String × Diagnostic)) :
    numbered first (entries ++ more) =
      numbered first entries ++ numbered (first + entries.length) more := by
  rw [numbered, List.zipIdx_append, List.map_append]
  rfl

@[simp] theorem length_numbered (first : Nat) (entries : List (String × Diagnostic)) :
    (numbered first entries).length = entries.length := by
  simp [numbered]

private theorem getElem_numbered (first : Nat) (entries : List (String × Diagnostic)) {i : Nat}
    (hi : i < (numbered first entries).length) :
    (numbered first entries)[i].sequence = first + i := by
  simp [numbered]

/-- Numbering keeps the entries and their order. -/
theorem map_numbered (first : Nat) (entries : List (String × Diagnostic)) :
    (numbered first entries).map (fun event => (event.recordedAt, event.diagnostic)) = entries := by
  have hforget : (fun event : Event => (event.recordedAt, event.diagnostic)) ∘
      (fun (entry, sequence) => ⟨sequence, entry.1, entry.2⟩) =
      (Prod.fst : (String × Diagnostic) × Nat → String × Diagnostic) := rfl
  rw [numbered, List.map_map, hforget, List.zipIdx_map_fst]

theorem sequences_numbered (first : Nat) (entries : List (String × Diagnostic)) :
    (numbered first entries).map (·.sequence) = List.range' first entries.length := by
  induction entries generalizing first with
  | nil => rfl
  | cons entry rest ih => rw [numbered_cons, List.map_cons, ih, List.length_cons, List.range'_succ]

def recordAll (journal : Journal) (entries : List (String × Diagnostic)) : Journal :=
  entries.foldl (fun journal entry => journal.record entry.1 entry.2) journal

private theorem recordAll_cons (journal : Journal) (entry : String × Diagnostic)
    (rest : List (String × Diagnostic)) :
    journal.recordAll (entry :: rest) = (journal.record entry.1 entry.2).recordAll rest := rfl

private theorem recordAll_eq (journal : Journal) (entries : List (String × Diagnostic)) :
    journal.recordAll entries =
      ⟨journal.events ++ numbered journal.next entries, journal.next + entries.length⟩ := by
  induction entries generalizing journal with
  | nil => simp [recordAll, numbered]
  | cons entry rest ih =>
    have hlength : journal.next + 1 + rest.length = journal.next + (entry :: rest).length := by
      rw [List.length_cons]
      omega
    rw [recordAll_cons, ih, record, numbered_cons, hlength, List.append_assoc,
      List.singleton_append]

/-- What an operation does to the journal with an index. -/
def follow (index : Nat) (journal : Journal) (operation : Operation) : Journal :=
  if operation.clears index then journal.clear else journal.recordAll (operation.entries index)

end Journal

namespace Records

variable {index : Nat} {journal : Journal}

private theorem getElem?_record_leaf (time : String) (diagnostic : Diagnostic) {records : Records}
    (hjournal : records.journals[index]? = some journal) (leaf : Sink.Leaf) :
    (leaf.record time diagnostic records).journals[index]? =
      some (if leaf = .journal index then journal.record time diagnostic else journal) := by
  cases leaf with
  | journal other =>
    simp only [Sink.Leaf.record, List.getElem?_modify, hjournal, Option.map_eq_map,
      Option.map_some, Sink.Leaf.journal.injEq]
  | log => simpa [Sink.Leaf.record] using hjournal

private theorem getElem?_foldl_leaves (time : String) (diagnostic : Diagnostic) {records : Records}
    (hjournal : records.journals[index]? = some journal) (leaves : List Sink.Leaf) :
    (leaves.foldl (Sink.Leaf.record time diagnostic) records).journals[index]? =
      some (journal.recordAll
        ((leaves.filter (· = .journal index)).map fun _ => (time, diagnostic))) := by
  induction leaves generalizing records journal with
  | nil => exact hjournal
  | cons leaf rest ih =>
    have hnext := ih (getElem?_record_leaf time diagnostic hjournal leaf)
    rw [List.foldl_cons, hnext]
    by_cases hleaf : leaf = .journal index
    · simp [hleaf, Journal.recordAll_cons]
    · simp [hleaf]

/-- An operation does to a journal what its clearing and its entries say, whatever sinks
there are. -/
theorem getElem?_perform {records : Records}
    (hjournal : records.journals[index]? = some journal) (operation : Operation) :
    (records.perform operation).journals[index]? = some (journal.follow index operation) := by
  cases operation with
  | record time diagnostic sink =>
    rw [perform, Sink.record_eq_foldl_leaves]
    exact getElem?_foldl_leaves time diagnostic hjournal sink.leaves
  | clear other =>
    by_cases hsame : other = index
    · simp [perform, clear, hjournal, Journal.follow, Operation.clears, hsame]
    · simp [perform, clear, hjournal, Journal.follow, Operation.clears, hsame,
        Operation.entries, Journal.recordAll]

theorem getElem?_run {records : Records}
    (hjournal : records.journals[index]? = some journal) (operations : List Operation) :
    (records.run operations).journals[index]? =
      some (operations.foldl (Journal.follow index) journal) := by
  induction operations generalizing records journal with
  | nil => exact hjournal
  | cons operation rest ih => exact ih (getElem?_perform hjournal operation)

end Records

namespace Journal

variable {index : Nat}

/-- The operations since a journal was last cleared. -/
def sinceClear (index : Nat) (operations : List Operation) : List Operation :=
  operations.rtakeWhile fun operation => !operation.clears index

/-- Everything that has come to a journal. -/
def received (index : Nat) (operations : List Operation) : List (String × Diagnostic) :=
  operations.flatMap (Operation.entries index)

/-- What has come to a journal since it was last cleared. -/
def kept (index : Nat) (operations : List Operation) : List (String × Diagnostic) :=
  received index (sinceClear index operations)

private theorem received_append (index : Nat) (operations more : List Operation) :
    received index (operations ++ more) =
      received index operations ++ received index more := List.flatMap_append

private theorem kept_append_of_clears {operation : Operation} (operations : List Operation)
    (hclears : operation.clears index = true) : kept index (operations ++ [operation]) = [] := by
  have hnone : sinceClear index (operations ++ [operation]) = [] :=
    List.rtakeWhile_concat_neg _ _ _ (by simp [hclears])
  rw [kept, hnone, received, List.flatMap_nil]

theorem kept_append {operation : Operation} (operations : List Operation)
    (hkeeps : ¬ operation.clears index = true) :
    kept index (operations ++ [operation]) =
      kept index operations ++ operation.entries index := by
  have hmore : sinceClear index (operations ++ [operation]) =
      sinceClear index operations ++ [operation] :=
    List.rtakeWhile_concat_pos _ _ _ (by simpa using hkeeps)
  rw [kept, hmore, received_append, kept, received, received, List.flatMap_singleton]

private theorem kept_suffix (index : Nat) (operations : List Operation) :
    kept index operations <:+ received index operations := by
  obtain ⟨before, hsplit⟩ :=
    List.rtakeWhile_suffix (fun operation : Operation => !operation.clears index) operations
  refine ⟨received index before, ?_⟩
  conv_rhs => rw [← hsplit]
  rw [received_append]
  rfl

/-- The journal of a history: what it kept, with the last of all numbers so far. -/
def ofHistory (index : Nat) (operations : List Operation) : Journal :=
  ⟨numbered ((received index operations).length - (kept index operations).length)
    (kept index operations), (received index operations).length⟩

private theorem follow_ofHistory (operations : List Operation) (operation : Operation) :
    follow index (ofHistory index operations) operation =
      ofHistory index (operations ++ [operation]) := by
  have hreceived : received index (operations ++ [operation]) =
      received index operations ++ operation.entries index := by
    rw [received_append, received, received, List.flatMap_singleton]
  by_cases hclears : operation.clears index = true
  · rw [follow, if_pos hclears, ofHistory, ofHistory, kept_append_of_clears operations hclears,
      hreceived, Operation.entries_of_clears hclears, List.append_nil]
    rfl
  · have hlength := (kept_suffix index operations).length_le
    have hfirst : (received index operations ++ operation.entries index).length -
        (kept index operations ++ operation.entries index).length =
        (received index operations).length - (kept index operations).length := by
      rw [List.length_append, List.length_append]
      omega
    have hnext : (received index operations).length - (kept index operations).length +
        (kept index operations).length = (received index operations).length := by
      omega
    rw [follow, if_neg hclears, recordAll_eq, ofHistory, ofHistory, kept_append operations hclears,
      hreceived, hfirst, numbered_append, hnext, List.length_append]

/-- A journal that starts empty is at any time the journal of its history. -/
theorem foldl_follow_empty (operations : List Operation) :
    operations.foldl (follow index) .empty = ofHistory index operations := by
  induction operations using List.reverseRecOn with
  | nil => rfl
  | append_singleton operations operation ih =>
    rw [List.foldl_append, ih, List.foldl_cons, List.foldl_nil, follow_ofHistory]

/-- No number of a journal, nor any that it will give, is below a bound. -/
def StartsAt (first : Nat) (journal : Journal) : Prop :=
  first ≤ journal.next ∧ ∀ event ∈ journal.events, first ≤ event.sequence

theorem StartsAt.follow {first : Nat} {journal : Journal} (hstarts : StartsAt first journal)
    (operation : Operation) : StartsAt first (journal.follow index operation) := by
  obtain ⟨hnext, hevents⟩ := hstarts
  unfold Journal.follow
  split
  · exact ⟨hnext, by simp [clear]⟩
  · rw [recordAll_eq]
    refine ⟨Nat.le_add_right_of_le hnext, fun event hmem => ?_⟩
    rcases List.mem_append.1 hmem with hold | hnew
    · exact hevents event hold
    · obtain ⟨i, hi, rfl⟩ := List.getElem_of_mem hnew
      rw [getElem_numbered]
      omega

theorem StartsAt.foldl {first : Nat} {journal : Journal} (hstarts : StartsAt first journal)
    (operations : List Operation) :
    StartsAt first (operations.foldl (Journal.follow index) journal) := by
  induction operations generalizing journal with
  | nil => exact hstarts
  | cons operation rest ih => exact ih (hstarts.follow operation)

/-- As long as a journal is not cleared its events stay as they are. -/
theorem prefix_foldl_follow (journal : Journal) {operations : List Operation}
    (hkeeps : ∀ operation ∈ operations, operation.clears index = false) :
    journal.events <+: (operations.foldl (follow index) journal).events := by
  induction operations generalizing journal with
  | nil => exact List.prefix_refl _
  | cons operation rest ih =>
    obtain ⟨hfirst, hrest⟩ := List.forall_mem_cons.1 hkeeps
    have hstep : journal.events <+: (journal.follow index operation).events := by
      rw [follow, hfirst, recordAll_eq]
      exact List.prefix_append _ _
    exact hstep.trans (ih _ hrest)

private theorem size_le_next (operations : List Operation) :
    (ofHistory index operations).size ≤ (ofHistory index operations).next := by
  have hlength := (kept_suffix index operations).length_le
  simpa [size, ofHistory] using hlength

private theorem pairwise_ofHistory (operations : List Operation) :
    (ofHistory index operations).events.Pairwise fun earlier later =>
      earlier.sequence < later.sequence := by
  rw [List.pairwise_iff_getElem]
  intro i j hi hj hlt
  simp only [ofHistory, getElem_numbered]
  omega

private theorem ofHistory_append (operations more : List Operation) :
    ofHistory index (operations ++ more) =
      more.foldl (follow index) (ofHistory index operations) := by
  rw [← foldl_follow_empty, List.foldl_append, foldl_follow_empty]

private theorem sequence_lt_next (operations : List Operation) {event : Event}
    (hmem : event ∈ (ofHistory index operations).events) :
    event.sequence < (ofHistory index operations).next := by
  obtain ⟨i, hi, rfl⟩ := List.getElem_of_mem hmem
  have hlength := (kept_suffix index operations).length_le
  have hbound : i < (kept index operations).length := by simpa [ofHistory] using hi
  simp only [ofHistory, getElem_numbered]
  omega

/-- What was numbered before a journal was cleared has a smaller number than what it holds later. -/
theorem sequence_lt_of_cleared {before after : List Operation} {old new : Event}
    (hold : old ∈ (ofHistory index before).events)
    (hnew : new ∈ (ofHistory index (before ++ .clear index :: after)).events) :
    old.sequence < new.sequence := by
  have hclear : (ofHistory index before).follow index (.clear index) =
      (ofHistory index before).clear := by
    simp [follow, Operation.clears]
  have hcleared : StartsAt (ofHistory index before).next (ofHistory index before).clear :=
    ⟨Nat.le_refl _, by simp [clear]⟩
  rw [ofHistory_append, List.foldl_cons, hclear] at hnew
  have hbound := (hcleared.foldl after).2 new hnew
  exact Nat.lt_of_lt_of_le (sequence_lt_next before hold) hbound

end Journal

namespace Records

private theorem journal_of_getElem? {records : Records} {index : Nat} {journal : Journal}
    (hjournal : records.journals[index]? = some journal) : records.journal index = journal := by
  rw [Records.journal, hjournal, Option.getD_some]

/-- The journal of a history that starts with it empty. -/
theorem journal_run {records : Records} {index : Nat}
    (hempty : records.journals[index]? = some .empty) (operations : List Operation) :
    (records.run operations).journal index = Journal.ofHistory index operations := by
  rw [journal_of_getElem? (getElem?_run hempty operations),
    Journal.foldl_follow_empty]

theorem run_append (records : Records) (operations more : List Operation) :
    records.run (operations ++ more) = (records.run operations).run more :=
  List.foldl_append

private theorem foldl_leaves_eq_run (records : Records) (time : String) (diagnostic : Diagnostic)
    (leaves : List Sink.Leaf) :
    leaves.foldl (Sink.Leaf.record time diagnostic) records =
      records.run (leaves.map fun leaf => .record time diagnostic leaf.toSink) := by
  induction leaves generalizing records with
  | nil => rfl
  | cons leaf rest ih =>
    have hfirst : records.perform (.record time diagnostic leaf.toSink) =
        leaf.record time diagnostic records := Sink.Leaf.record_toSink records leaf
    rw [List.foldl_cons, ih, List.map_cons, run, run, List.foldl_cons, hfirst]

private theorem perform_record (records : Records) (time : String) (diagnostic : Diagnostic)
    (sink : Sink) :
    records.perform (.record time diagnostic sink) =
      records.run (sink.leaves.map fun leaf => .record time diagnostic leaf.toSink) := by
  rw [perform, Sink.record_eq_foldl_leaves, foldl_leaves_eq_run]

/-- To pass diagnostics to a sink is to pass each in turn to the leaves of the sink in
their order. -/
theorem run_leaves (records : Records) (sink : Sink)
    (entries : List (String × Diagnostic)) :
    records.run (entries.map fun entry => .record entry.1 entry.2 sink) =
      records.run (entries.flatMap fun entry =>
        sink.leaves.map fun leaf => .record entry.1 entry.2 leaf.toSink) := by
  induction entries generalizing records with
  | nil => rfl
  | cons entry rest ih =>
    have hfirst := records.perform_record entry.1 entry.2 sink
    rw [List.map_cons, List.flatMap_cons, run_append, ← hfirst, ← ih]
    rfl

end Records

/-- Journals lose, repeat and renumber nothing. After any history in which a journal starts empty,
it holds what came to it since it was last cleared, in that order; its next number is the number of
all that ever came, and its events have the numbers just below. Events stay as they are until they
are cleared, and their numbers do not come back afterwards. Diagnostics that are passed to a sink
come to its leaves one by one, in their order, whatever fans there are and however often a leaf is
in them. -/
theorem journals_keep_and_number :
    (∀ (records : Records) (index : Nat) (operations : List Operation),
      records.journals[index]? = some .empty →
      ∃ journal, (records.run operations).journals[index]? = some journal ∧
        journal.events.map (fun event => (event.recordedAt, event.diagnostic)) =
          Journal.kept index operations ∧
        journal.next = (Journal.received index operations).length ∧
        journal.size ≤ journal.next ∧
        (∀ i, ∀ hi : i < journal.events.length,
          journal.events[i].sequence = journal.next - journal.size + i) ∧
        journal.events.Pairwise fun earlier later => earlier.sequence < later.sequence) ∧
    (∀ (records : Records) (index : Nat) (before after : List Operation),
      records.journals[index]? = some .empty →
      ((∀ operation ∈ after, operation.clears index = false) →
        ((records.run before).journal index).events <+:
          ((records.run (before ++ after)).journal index).events) ∧
      ∀ old ∈ ((records.run before).journal index).events,
        ∀ new ∈ ((records.run (before ++ .clear index :: after)).journal index).events,
          old.sequence < new.sequence) ∧
    ∀ (records : Records) (sink : Sink) (entries : List (String × Diagnostic)),
      records.run (entries.map fun entry => .record entry.1 entry.2 sink) =
        records.run (entries.flatMap fun entry =>
          sink.leaves.map fun leaf => .record entry.1 entry.2 leaf.toSink) := by
  refine ⟨?kept, ?numbers, Records.run_leaves⟩
  case kept =>
    intro records index operations hempty
    refine ⟨Journal.ofHistory index operations, ?_, Journal.map_numbered _ _, rfl,
      Journal.size_le_next operations, ?_, Journal.pairwise_ofHistory operations⟩
    · rw [Records.getElem?_run hempty, Journal.foldl_follow_empty]
    · intro i hi
      simp [Journal.size, Journal.ofHistory, Journal.getElem_numbered]
  case numbers =>
    intro records index before after hempty
    have hbefore := Records.journal_run hempty before
    constructor
    · intro hkeeps
      rw [hbefore, Records.journal_run hempty, Journal.ofHistory_append]
      exact Journal.prefix_foldl_follow _ hkeeps
    · intro old hold new hnew
      rw [hbefore] at hold
      rw [Records.journal_run hempty] at hnew
      exact Journal.sequence_lt_of_cleared hold hnew

def gap : Diagnostic := .noPolicyFound "doc" "read"

def outage : Diagnostic := .policySourceFailure "doc" "read" "store offline"

def twoJournals : Records := ⟨[.empty, .empty], []⟩

/-- A fan in a fan, with the first journal in both. -/
def nestedFan : Sink := .fan [.journal 0, .fan [.log, .journal 1, .journal 0]]

/-- The first journal takes each diagnostic twice. After it was cleared it has the second one, under
the numbers two and three. -/
theorem nestedFan_keeps_and_numbers :
    twoJournals.journals[0]? = some .empty ∧
    (∃ journal, (twoJournals.run [.record "1" gap nestedFan, .clear 0,
        .record "2" outage nestedFan]).journals[0]? = some journal ∧
      journal.events.map (fun event => (event.recordedAt, event.diagnostic)) =
        [("2", outage), ("2", outage)] ∧
      journal.next = 4 ∧
      ∀ i, ∀ hi : i < journal.events.length,
        journal.events[i].sequence = journal.next - journal.size + i) ∧
    twoJournals.run [.record "1" gap nestedFan] =
      twoJournals.run [.record "1" gap (.journal 0), .record "1" gap .log,
        .record "1" gap (.journal 1), .record "1" gap (.journal 0)] := by
  have hempty : twoJournals.journals[0]? = some .empty := rfl
  obtain ⟨hhistory, -, hleaves⟩ := journals_keep_and_number
  obtain ⟨journal, hjournal, hkept, hnext, -, hnumbers, -⟩ :=
    hhistory twoJournals 0 [.record "1" gap nestedFan, .clear 0, .record "2" outage nestedFan]
      hempty
  exact ⟨hempty, ⟨journal, hjournal, hkept, hnext, hnumbers⟩,
    hleaves twoJournals nestedFan [("1", gap)]⟩

end Abac
