import Interlock.SuiteFiles
import Interlock.JsonDocuments

/-!
# Results of a suite

Two files are appended in turn and only the first one is read back. A process that is
stopped after the record shows in the first file and before its line has ended in the
second one leaves a record that no later process writes; any other stop is made up for,
or no later process gets past it.
-/

namespace SuiteResults

open Dictionary PythonValues Harness LineFiles SuiteFiles JsonDocuments

/-! ### What the next process sees -/

/-- The records are those of the scenarios, in their order. -/
def Recorded (scenarios : List Scenario) (records : List Entries) : Prop :=
  List.Forall₂ (fun s record => ∃ finding, record = scenarioRecord s finding) scenarios records

section Resuming

variable {J : Codec Entries} {suite : Suite} {scenarios : List Scenario} {dir : ResultsDir}
variable {records later : List Entries} {attempt : Attempt} {p : Plan}

theorem scenarioIds (h : Recorded scenarios records) :
    records.mapM scenarioId = .ok (scenarios.map fun s => .str s.id) := by
  induction h with
  | nil => rfl
  | cons hrecord _ ih =>
    obtain ⟨finding, rfl⟩ := hrecord
    rw [List.mapM_cons, ih]
    rfl

theorem recorded_new (p : Plan) (findings : Scenario → Finding) :
    Recorded p.todo (p.newRecords findings) := by
  rw [Plan.newRecords, Recorded, List.forall₂_map_right_iff, List.forall₂_same]
  exact fun s _ => ⟨findings s, rfl⟩

theorem not_done_of_later {front back : List Scenario} {s : Scenario}
    (hdistinct : ((front ++ back).map Scenario.id).Nodup) (hs : s ∈ back) :
    ∀ other ∈ front, other.id ≠ s.id := by
  intro other hother hsame
  rw [List.map_append, List.nodup_append] at hdistinct
  exact hdistinct.2.2 _ (List.mem_map_of_mem hother) _ (List.mem_map_of_mem hs) hsame

/-- Ids tell the scenarios that are done from the others. -/
theorem filter_todo {front back : List Scenario}
    (hdistinct : ((front ++ back).map Scenario.id).Nodup) :
    ((front ++ back).filter fun s => !(front.map fun s => Json.str s.id).any (·.isStr s.id)) =
      back := by
  rw [List.filter_append, List.filter_eq_nil_iff.mpr, List.filter_eq_self.mpr, List.nil_append]
  · intro s hs
    have hnot := not_done_of_later hdistinct hs
    simpa [Json.isStr] using hnot
  · intro s hs
    have hdone : ∃ other ∈ front, other.id = s.id := ⟨s, hs, rfl⟩
    simpa [Json.isStr] using hdone

/-- The scenarios after those that are done. -/
def resumedPlan (suite : Suite) (records : List Entries) : Plan where
  alreadyDone := records
  todo := suite.scenarios.drop records.length
  appends := !records.isEmpty

/-- A process that is resumed over the records of the first scenarios takes up the others. -/
theorem plan_resumed (hall : Recorded suite.scenarios (records ++ later))
    (hread : J.readAll (textAt dir "runs_full.jsonl") = some records) :
    plan J .full suite.scenarios true dir = .ok (resumedPlan suite records) := by
  have hdone := scenarioIds (List.forall₂_take_append suite.scenarios records later hall)
  have hprimary : readJsonl J dir (primaryPath .full) = .ok records := readJsonl_ok_iff.mpr hread
  have hsplit := List.take_append_drop records.length suite.scenarios
  have htodo := filter_todo (hsplit.symm ▸ suite.distinct)
  rw [hsplit] at htodo
  simp only [plan, if_true, hprimary, bind, Except.bind, hdone, htodo, Bool.true_and]
  rfl

theorem recorded_resumed (hall : Recorded suite.scenarios (records ++ later))
    (findings : Scenario → Finding) :
    Recorded suite.scenarios (records ++ (resumedPlan suite records).newRecords findings) := by
  have hdone := List.forall₂_take_append suite.scenarios records later hall
  have hnew := recorded_new (resumedPlan suite records) findings
  have hboth : Recorded (suite.scenarios.take records.length ++
      suite.scenarios.drop records.length)
      (records ++ (resumedPlan suite records).newRecords findings) := List.rel_append hdone hnew
  rwa [List.take_append_drop] at hboth

/-- A resumed process empties files only where it read nothing. -/
theorem fresh_of_resumed (suite : Suite)
    (hempty : records = [] → textAt dir "runs_full.jsonl" = [] ∧ textAt dir "runs.jsonl" = []) :
    (resumedPlan suite records).appends = false →
      ∀ path ∈ modeOutputPaths .full, textAt dir path = [] := by
  intro happends path hpath
  obtain ⟨hprimary, hcopy⟩ := hempty (by simpa [resumedPlan] using happends)
  rw [modeOutputPaths_full] at hpath
  rcases List.mem_pair.mp hpath with rfl | rfl
  · exact hprimary
  · exact hcopy

/-- What a stopped process adds to the two files, over the records it had read. -/
theorem continued (attempt : Attempt) (hall : Recorded suite.scenarios (records ++ later))
    (hread : J.readAll (textAt dir "runs_full.jsonl") = some records)
    (hempty : records = [] → textAt dir "runs_full.jsonl" = [] ∧ textAt dir "runs.jsonl" = []) :
    ∃ done rest u v, Recorded suite.scenarios (records ++ (done ++ rest)) ∧
      textAt (stoppedMode J .full suite.scenarios attempt true dir) "runs_full.jsonl" =
        textAt dir "runs_full.jsonl" ++ (J.written done ++ u) ∧
      textAt (stoppedMode J .full suite.scenarios attempt true dir) "runs.jsonl" =
        textAt dir "runs.jsonl" ++ (J.written done ++ v) ∧
      ((SparedAttempt J suite true dir attempt ∧ Harmless J rest u v) ∨
        (¬ SparedAttempt J suite true dir attempt ∧ Harmful J rest u v)) := by
  have hplan := plan_resumed hall hread
  have hfresh := fresh_of_resumed suite hempty
  obtain ⟨done, rest, u, v, hsplit, hu, hv, htail⟩ :=
    cut (J := J) ((resumedPlan suite records).newRecords attempt.findings)
      (attempt.point - (modeOutputPaths .full).length)
  have hspared : SparedAttempt J suite true dir attempt ↔
      Spared J ((resumedPlan suite records).newRecords attempt.findings)
        (attempt.point - (modeOutputPaths .full).length) := by
    constructor
    · exact fun h => h _ hplan
    · intro h p hp
      rw [hplan] at hp
      cases hp
      exact h
  refine ⟨done, rest, u, v, ?_, ?_, ?_, by rwa [hspared]⟩
  · rw [← hsplit]
    exact recorded_resumed hall attempt.findings
  · rw [textAt_added hplan hfresh, ← hu]
    rfl
  · rw [textAt_added hplan hfresh, ← hv]
    rfl

theorem plan_unreadable (mode : AblationMode) (scenarios : List Scenario)
    (h : J.readAll (textAt dir (primaryPath mode)) = none) :
    ∃ e, plan J mode scenarios true dir = .error e := by
  have hread : ∃ e, readJsonl J dir (primaryPath mode) = .error e := by
    cases hr : readJsonl J dir (primaryPath mode) with
    | error e => exact ⟨e, rfl⟩
    | ok records =>
      rw [readJsonl_ok_iff, h] at hr
      cases hr
  obtain ⟨e, he⟩ := hread
  exact ⟨e, by simp only [plan, if_true, he, bind, Except.bind]⟩

/-- A process that cannot read its file changes nothing, and so does the next one. -/
theorem stopped_unreadable {mode : AblationMode}
    (h : J.readAll (textAt dir (primaryPath mode)) = none) :
    stoppedMode J mode scenarios attempt true dir = dir := by
  obtain ⟨e, he⟩ := plan_unreadable mode scenarios h
  rw [stoppedMode, he]

end Resuming

/-! ### Files that are whole, and files that are not -/

section Standing

variable {J : Codec Entries} {suite : Suite} {dir : ResultsDir} {attempt : Attempt}

/-- Both files hold the same records, to the end of their lines but for the last one of all;
or no process can read the first one. -/
inductive Kept (J : Codec Entries) (suite : Suite) (dir : ResultsDir) : Prop
  | level {records later : List Entries}
      (hall : Recorded suite.scenarios (records ++ later))
      (hprimary : textAt dir "runs_full.jsonl" = J.written records)
      (hcopy : textAt dir "runs.jsonl" = J.written records)
  | unreadable (h : J.readAll (textAt dir "runs_full.jsonl") = none)
  | closed {records : List Entries} {last : Entries}
      (hall : Recorded suite.scenarios (records ++ [last]))
      (hprimary : textAt dir "runs_full.jsonl" = J.written (records ++ [last]))
      (hcopy : textAt dir "runs.jsonl" = J.written records ++ J.dumps last)

/-- The second file has too few lines for the records in the first one, or its last line is
not whole, or not ended while there are records to come. -/
inductive Lost (J : Codec Entries) (suite : Suite) (dir : ResultsDir) : Prop
  | few {records later : List Entries}
      (hall : Recorded suite.scenarios (records ++ later))
      (hread : J.readAll (textAt dir "runs_full.jsonl") = some records)
      (hend : textAt dir "runs_full.jsonl" = J.written records ∨
        ∃ earlier record, textAt dir "runs_full.jsonl" = J.written earlier ++ J.dumps record)
      (hlines : (splitLines (textAt dir "runs.jsonl")).length < records.length)
  | torn {records later copies : List Entries} {record : Entries} {text : List Char}
      (hall : Recorded suite.scenarios (records ++ later))
      (hprimary : textAt dir "runs_full.jsonl" = J.written records)
      (hcopy : textAt dir "runs.jsonl" = J.written copies ++ text)
      (hlength : records.length = copies.length + 1)
      (hstarts : text <+: J.dumps record) (hne : text ≠ [])
      (hopen : text ≠ J.dumps record ∨ later ≠ [])
  | unreadable (h : J.readAll (textAt dir "runs_full.jsonl") = none)

theorem written_line (records : List Entries) (record : Entries) :
    J.written records ++ J.line record = J.written (records ++ [record]) := by
  rw [Codec.written_append]
  simp [Codec.written]

theorem readAll_begun {records : List Entries} {record : Entries} {text : List Char}
    (hstarts : text <+: J.dumps record) (hne : text ≠ []) (hshort : text ≠ J.dumps record) :
    J.readAll (J.written records ++ text) = none := by
  rw [Codec.readAll_written_append, Codec.readAll_torn hstarts hne hshort]
  rfl

theorem readAll_unended (records : List Entries) (record : Entries) :
    J.readAll (J.written records ++ J.dumps record) = some (records ++ [record]) := by
  rw [Codec.readAll_written_append, Codec.readAll_dumps]
  rfl

/-- The four ways in which a process leaves the ends of the two files. -/
theorem ends {rest : List Entries} {u v : List Char}
    (h : Harmless J rest u v ∨ Harmful J rest u v) :
    (u = [] ∧ v = []) ∨ ∃ record more, rest = record :: more ∧
      ((u <+: J.dumps record ∧ u ≠ [] ∧ u ≠ J.dumps record ∧ v = []) ∨
        (u = J.dumps record ∧ v = []) ∨ (u = J.line record ∧ v <+: J.dumps record)) := by
  rcases h with h | h
  · cases h with
    | between => exact Or.inl ⟨rfl, rfl⟩
    | begun hstarts hne hshort => exact Or.inr ⟨_, _, rfl, Or.inl ⟨hstarts, hne, hshort, rfl⟩⟩
    | last => exact Or.inr ⟨_, _, rfl, Or.inr (Or.inr ⟨rfl, List.prefix_refl _⟩)⟩
  · cases h with
    | unended => exact Or.inr ⟨_, _, rfl, Or.inr (Or.inl ⟨rfl, rfl⟩)⟩
    | missed hstarts hshort => exact Or.inr ⟨_, _, rfl, Or.inr (Or.inr ⟨rfl, hstarts⟩)⟩
    | unclosed => exact Or.inr ⟨_, _, rfl, Or.inr (Or.inr ⟨rfl, List.prefix_refl _⟩)⟩

theorem nothing_left {records new : List Entries} (hall : Recorded suite.scenarios records)
    (hmore : Recorded suite.scenarios (records ++ new)) : new = [] := by
  have hlength := hall.length_eq
  rw [hmore.length_eq, List.length_append] at hlength
  exact List.eq_nil_of_length_eq_zero (by omega)

/-- What it adds to files that hold the same records. -/
theorem continued_level {records later : List Entries} (attempt : Attempt)
    (hall : Recorded suite.scenarios (records ++ later))
    (hprimary : textAt dir "runs_full.jsonl" = J.written records)
    (hcopy : textAt dir "runs.jsonl" = J.written records) :
    ∃ done rest u v, Recorded suite.scenarios (done ++ rest) ∧
      textAt (stoppedMode J .full suite.scenarios attempt true dir) "runs_full.jsonl" =
        J.written done ++ u ∧
      textAt (stoppedMode J .full suite.scenarios attempt true dir) "runs.jsonl" =
        J.written done ++ v ∧
      ((SparedAttempt J suite true dir attempt ∧ Harmless J rest u v) ∨
        (¬ SparedAttempt J suite true dir attempt ∧ Harmful J rest u v)) := by
  have hread : J.readAll (textAt dir "runs_full.jsonl") = some records := by
    rw [hprimary, Codec.readAll_written]
  have hempty : records = [] →
      textAt dir "runs_full.jsonl" = [] ∧ textAt dir "runs.jsonl" = [] := by
    rintro rfl
    exact ⟨hprimary, hcopy⟩
  obtain ⟨done, rest, u, v, hnew, hu, hv, hcut⟩ := continued attempt hall hread hempty
  rw [hprimary, ← List.append_assoc, ← Codec.written_append] at hu
  rw [hcopy, ← List.append_assoc, ← Codec.written_append] at hv
  rw [← List.append_assoc] at hnew
  exact ⟨records ++ done, rest, u, v, hnew, hu, hv, hcut⟩

/-- A process that finds every scenario done adds nothing. -/
theorem continued_closed {records : List Entries} (attempt : Attempt)
    (hall : Recorded suite.scenarios records) (hne : records ≠ [])
    (hprimary : textAt dir "runs_full.jsonl" = J.written records) :
    SparedAttempt J suite true dir attempt ∧
      textAt (stoppedMode J .full suite.scenarios attempt true dir) "runs_full.jsonl" =
        textAt dir "runs_full.jsonl" ∧
      textAt (stoppedMode J .full suite.scenarios attempt true dir) "runs.jsonl" =
        textAt dir "runs.jsonl" := by
  have hread : J.readAll (textAt dir "runs_full.jsonl") = some records := by
    rw [hprimary, Codec.readAll_written]
  have hnone : Recorded suite.scenarios (records ++ []) := by rwa [List.append_nil]
  obtain ⟨done, rest, u, v, hnew, hu, hv, hcut⟩ :=
    continued attempt hnone hread fun hnil => absurd hnil hne
  obtain ⟨rfl, rfl⟩ := List.append_eq_nil_iff.mp (nothing_left hall hnew)
  rcases hcut with ⟨hspared, htail⟩ | ⟨_, htail⟩
  · cases htail
    rw [Codec.written_nil, List.append_nil, List.append_nil] at hu hv
    exact ⟨hspared, hu, hv⟩
  · cases htail

theorem kept_of_spared (h : Kept J suite dir) (hspared : SparedAttempt J suite true dir attempt) :
    Kept J suite (stoppedMode J .full suite.scenarios attempt true dir) := by
  cases h with
  | @level records later hall hprimary hcopy =>
    obtain ⟨done, rest, u, v, hnew, hu, hv, ⟨_, htail⟩ | ⟨hnot, _⟩⟩ :=
      continued_level attempt hall hprimary hcopy
    · cases htail with
      | between => exact .level hnew (by rw [hu, List.append_nil]) (by rw [hv, List.append_nil])
      | begun hstarts hne hshort =>
        exact .unreadable (by rw [hu, readAll_begun hstarts hne hshort])
      | last => exact .closed hnew (by rw [hu, written_line]) hv
    · exact absurd hspared hnot
  | unreadable h =>
    rw [stopped_unreadable h]
    exact .unreadable h
  | @closed records last hall hprimary hcopy =>
    obtain ⟨_, hfull, hruns⟩ := continued_closed attempt hall (by simp) hprimary
    exact .closed hall (hfull.trans hprimary) (hruns.trans hcopy)

theorem lost_of_stray (h : Kept J suite dir) (hstray : ¬ SparedAttempt J suite true dir attempt) :
    Lost J suite (stoppedMode J .full suite.scenarios attempt true dir) := by
  cases h with
  | @level records later hall hprimary hcopy =>
    obtain ⟨done, rest, u, v, hnew, hu, hv, ⟨hspared, _⟩ | ⟨_, htail⟩⟩ :=
      continued_level attempt hall hprimary hcopy
    · exact absurd hspared hstray
    · have hlines : (splitLines (J.written done ++ v)).length =
          done.length + (splitLines v).length :=
        Codec.length_splitLines_written_append _ _
      cases htail with
      | @unended record rest =>
        have hnext : Recorded suite.scenarios ((done ++ [record]) ++ rest) := by
          simpa using hnew
        refine .few hnext (by rw [hu, readAll_unended]) (Or.inr ⟨_, _, hu⟩) ?_
        rw [hv, hlines]
        simp [splitLines]
      | @missed record rest _ hstarts hshort =>
        have hnext : Recorded suite.scenarios ((done ++ [record]) ++ rest) := by
          simpa using hnew
        rw [written_line] at hu
        by_cases hne : v = []
        · refine .few hnext (by rw [hu, Codec.readAll_written]) (Or.inl hu) ?_
          rw [hv, hlines, hne]
          simp [splitLines]
        · exact .torn hnext hu hv (List.length_append ..) hstarts hne (Or.inl hshort)
      | @unclosed record next rest =>
        have hnext : Recorded suite.scenarios ((done ++ [record]) ++ (next :: rest)) := by
          simpa using hnew
        rw [written_line] at hu
        exact .torn hnext hu hv (List.length_append ..) (List.prefix_refl _)
          (Codec.dumps_ne_nil record)
          (Or.inr (List.cons_ne_nil next rest))
  | unreadable h =>
    obtain ⟨e, he⟩ := plan_unreadable .full suite.scenarios h
    refine absurd ?_ hstray
    intro p hp
    rw [he] at hp
    cases hp
  | @closed records last hall hprimary hcopy =>
    exact absurd (continued_closed attempt hall (by simp) hprimary).1 hstray

theorem length_splitLines_one {record : Entries} {v : List Char} (h : v <+: J.dumps record) :
    (splitLines v).length ≤ 1 := by
  by_cases hv : v = []
  · rw [hv]
    exact Nat.zero_le 1
  · rw [splitLines_last (Codec.oneLine_of_start h) hv, List.length_singleton]

/-- What a process has written to the first file is the beginning of its records. -/
theorem begun_written {done rest : List Entries} {u v : List Char}
    (h : Harmless J rest u v ∨ Harmful J rest u v) :
    J.written done ++ u <+: J.written (done ++ rest) := by
  rw [Codec.written_append, List.prefix_append_right_inj]
  rcases ends h with ⟨rfl, _⟩ | ⟨record, more, rfl, hend⟩
  · exact List.nil_prefix
  · have hline : J.line record <+: J.written (record :: more) := ⟨J.written more, rfl⟩
    have htext : J.dumps record <+: J.line record := List.prefix_append _ _
    rcases hend with ⟨hstarts, _, _, _⟩ | ⟨rfl, _⟩ | ⟨rfl, _⟩
    · exact (hstarts.trans htext).trans hline
    · exact htext.trans hline
    · exact hline

theorem written_eq_nil {done : List Entries} {u : List Char} (h : J.written done ++ u = []) :
    done = [] ∧ u = [] := by
  obtain ⟨hdone, hu⟩ := List.append_eq_nil_iff.mp h
  refine ⟨?_, hu⟩
  cases done with
  | nil => rfl
  | cons first done => simp [Codec.written, Codec.line] at hdone

/-- The second file gets at most one line that the first one does not have ended, and none
where the first one got nothing. -/
theorem ends_lines {rest : List Entries} {u v : List Char}
    (h : Harmless J rest u v ∨ Harmful J rest u v) :
    (u = [] → v = []) ∧ (splitLines v).length ≤ 1 := by
  rcases ends h with ⟨_, rfl⟩ | ⟨record, more, _, ⟨_, _, _, rfl⟩ | ⟨_, rfl⟩ | ⟨rfl, hstarts⟩⟩
  · exact ⟨fun _ => rfl, Nat.zero_le 1⟩
  · exact ⟨fun _ => rfl, Nat.zero_le 1⟩
  · exact ⟨fun _ => rfl, Nat.zero_le 1⟩
  · refine ⟨fun h => ?_, length_splitLines_one hstarts⟩
    simp [Codec.line] at h

/-- A second file with too few lines for the records in the first one. -/
theorem lost_of_lines {records done rest : List Entries} {u v : List Char}
    (hnew : Recorded suite.scenarios (records ++ (done ++ rest)))
    (htail : Harmless J rest u v ∨ Harmful J rest u v)
    (hprimary : textAt dir "runs_full.jsonl" = J.written (records ++ done) ++ u)
    (hwhole : u = [] → (splitLines (textAt dir "runs.jsonl")).length < (records ++ done).length)
    (hlines : (splitLines (textAt dir "runs.jsonl")).length ≤ (records ++ done).length) :
    Lost J suite dir := by
  rw [← List.append_assoc] at hnew
  rcases ends htail with ⟨rfl, _⟩ | ⟨record, more, rfl, ⟨hstarts, hne, hshort, _⟩ | ⟨rfl, _⟩ |
    ⟨rfl, _⟩⟩
  · rw [List.append_nil] at hprimary
    exact .few hnew (by rw [hprimary, Codec.readAll_written]) (Or.inl hprimary) (hwhole rfl)
  · exact .unreadable (by rw [hprimary, readAll_begun hstarts hne hshort])
  · have hnext : Recorded suite.scenarios ((records ++ done ++ [record]) ++ more) := by
      simpa using hnew
    refine .few hnext (by rw [hprimary, readAll_unended]) (Or.inr ⟨_, _, hprimary⟩) ?_
    rw [List.length_append, List.length_singleton]
    omega
  · have hnext : Recorded suite.scenarios ((records ++ done ++ [record]) ++ more) := by
      simpa using hnew
    rw [written_line] at hprimary
    refine .few hnext (by rw [hprimary, Codec.readAll_written]) (Or.inl hprimary) ?_
    rw [List.length_append, List.length_singleton]
    omega

/-- Once a record is lost no process brings it back. -/
theorem lost_of_lost (h : Lost J suite dir) :
    Lost J suite (stoppedMode J .full suite.scenarios attempt true dir) := by
  cases h with
  | unreadable h =>
    rw [stopped_unreadable h]
    exact .unreadable h
  | @few records later hall hread hend hlines =>
    have hempty : records = [] →
        textAt dir "runs_full.jsonl" = [] ∧ textAt dir "runs.jsonl" = [] := by
      rintro rfl
      simp at hlines
    obtain ⟨done, rest, u, v, hnew, hu, hv, hcut⟩ := continued attempt hall hread hempty
    have htail := hcut.imp And.right And.right
    obtain ⟨hnothing, hone⟩ := ends_lines htail
    rcases hend with hprimary | ⟨earlier, record, hprimary⟩
    · rw [hprimary, ← List.append_assoc, ← Codec.written_append] at hu
      have hadded := length_splitLines_append_le (textAt dir "runs.jsonl") (J.written done ++ v)
      rw [Codec.length_splitLines_written_append, ← hv] at hadded
      refine lost_of_lines hnew htail hu ?_ ?_
      · intro hnone
        rw [hnothing hnone] at hadded
        rw [List.length_append]
        simp only [splitLines, List.length_nil] at hadded
        omega
      · rw [List.length_append]
        omega
    · by_cases hwritten : J.written done ++ u = []
      · -- nothing was written
        obtain ⟨rfl, rfl⟩ := written_eq_nil hwritten
        rw [hnothing rfl] at hv
        rw [hwritten, List.append_nil] at hu
        rw [Codec.written_nil, List.append_nil, List.append_nil] at hv
        exact .few hall (by rw [hu, hread]) (Or.inr ⟨earlier, record, by rw [hu, hprimary]⟩)
          (by rw [hv]; exact hlines)
      · -- the next record runs into the last line
        refine .unreadable ?_
        rw [hu, hprimary, List.append_assoc, Codec.readAll_written_append,
          Codec.readAll_glued_written (begun_written htail) hwritten]
        rfl
  | @torn records later copies record text hall hprimary hcopy hlength hstarts hne hopen =>
    have hread : J.readAll (textAt dir "runs_full.jsonl") = some records := by
      rw [hprimary, Codec.readAll_written]
    have hempty : records = [] →
        textAt dir "runs_full.jsonl" = [] ∧ textAt dir "runs.jsonl" = [] := by
      rintro rfl
      simp at hlength
    obtain ⟨done, rest, u, v, hnew, hu, hv, hcut⟩ := continued attempt hall hread hempty
    have htail := hcut.imp And.right And.right
    obtain ⟨hnothing, hone⟩ := ends_lines htail
    rw [hprimary, ← List.append_assoc, ← Codec.written_append] at hu
    rw [hcopy, List.append_assoc] at hv
    by_cases hwritten : J.written done ++ v = []
    · obtain ⟨rfl, rfl⟩ := written_eq_nil hwritten
      rw [hwritten, List.append_nil] at hv
      rw [List.append_nil] at hu
      by_cases hsame : u = []
      · rw [hsame, List.append_nil] at hu
        exact .torn hall hu hv hlength hstarts hne hopen
      · have hlines : (splitLines (textAt (stoppedMode J .full suite.scenarios attempt true dir)
            "runs.jsonl")).length = records.length := by
          rw [hv, Codec.length_splitLines_written_append,
            splitLines_last (Codec.oneLine_of_start hstarts) hne, List.length_singleton, hlength]
        refine lost_of_lines hnew htail (by rwa [List.append_nil]) (fun h => absurd h hsame) ?_
        rw [hlines, List.append_nil]
    · have hlines : (splitLines (textAt (stoppedMode J .full suite.scenarios attempt true dir)
          "runs.jsonl")).length = copies.length + (done.length + (splitLines v).length) := by
        rw [hv, Codec.length_splitLines_written_append,
          length_splitLines_glued (Codec.oneLine_of_start hstarts) hwritten,
          Codec.length_splitLines_written_append]
      refine lost_of_lines hnew htail hu ?_ ?_
      · intro hnone
        rw [hlines, hnothing hnone, List.length_append]
        simp only [splitLines, List.length_nil]
        omega
      · rw [hlines, List.length_append]
        omega

theorem not_survives_of_lost (h : Lost J suite dir) : ¬ Survives J suite dir := by
  rintro ⟨records, copies, ids, hrecords, hcopies, hperm, hids, hidsPerm⟩
  rw [readJsonl_ok_iff] at hrecords hcopies
  cases h with
  | few hall hread hend hlines =>
    rw [hread] at hrecords
    cases hrecords
    have hle := Codec.length_le_of_readAll hcopies
    have hlength := hperm.length_eq
    omega
  | @torn _ later _ _ _ hall hprimary hcopy hlength hstarts hne hopen =>
    rw [hprimary, Codec.readAll_written] at hrecords
    cases hrecords
    rcases hopen with hshort | hmore
    · rw [hcopy, readAll_begun hstarts hne hshort] at hcopies
      cases hcopies
    · have hshown := scenarioIds (List.forall₂_take_append suite.scenarios records later hall)
      rw [hshown] at hids
      cases hids
      have hall' := hall.length_eq
      have hids' := hidsPerm.length_eq
      have hpositive := List.length_pos_of_ne_nil hmore
      rw [List.length_append] at hall'
      rw [List.length_map, List.length_map, List.length_take] at hids'
      omega
  | unreadable h =>
    rw [h] at hrecords
    cases hrecords

end Standing

/-! ### Histories -/

section Histories

variable {J : Codec Entries} {suite : Suite} {dir : ResultsDir}

theorem standing_retries (retries : List Attempt) :
    (Kept J suite dir → SparedRetries J suite dir retries →
        Kept J suite (retries.foldl
          (fun dir attempt => stoppedMode J .full suite.scenarios attempt true dir) dir)) ∧
      (Kept J suite dir → ¬ SparedRetries J suite dir retries →
        Lost J suite (retries.foldl
          (fun dir attempt => stoppedMode J .full suite.scenarios attempt true dir) dir)) ∧
      (Lost J suite dir → Lost J suite (retries.foldl
        (fun dir attempt => stoppedMode J .full suite.scenarios attempt true dir) dir)) := by
  induction retries generalizing dir with
  | nil => exact ⟨fun h _ => h, fun _ h => absurd trivial h, fun h => h⟩
  | cons attempt retries ih =>
    obtain ⟨hkept, hstray, hlost⟩ :=
      @ih (stoppedMode J .full suite.scenarios attempt true dir)
    refine ⟨fun h hspared => hkept (kept_of_spared h hspared.1) hspared.2, ?_,
      fun h => hlost (lost_of_lost h)⟩
    intro h hnot
    by_cases hfirst : SparedAttempt J suite true dir attempt
    · exact hstray (kept_of_spared h hfirst) fun hrest => hnot ⟨hfirst, hrest⟩
    · exact hlost (lost_of_stray h hfirst)

/-- Over no files `--resume` makes no difference. -/
theorem plan_first : plan J .full suite.scenarios false .empty =
    plan J .full suite.scenarios true .empty := by
  have hresumed : plan J .full suite.scenarios true .empty =
      .ok (resumedPlan suite []) := by
    have hall : Recorded suite.scenarios
        ([] ++ (⟨[], suite.scenarios, false⟩ : Plan).newRecords fun _ => ⟨"", []⟩) :=
      recorded_new ⟨[], suite.scenarios, false⟩ _
    exact plan_resumed hall Codec.readAll_nil
  rw [hresumed]
  rfl

theorem kept_empty : Kept J suite .empty :=
  @Kept.level J suite _ [] _ (recorded_new ⟨[], suite.scenarios, false⟩ fun _ => ⟨"", []⟩) rfl rfl

theorem standing_left (first : Attempt) (retries : List Attempt) :
    (AllSpared J suite first retries → Kept J suite (leftBehind J suite first retries)) ∧
      (¬ AllSpared J suite first retries → Lost J suite (leftBehind J suite first retries)) := by
  have hstopped : stoppedMode J .full suite.scenarios first false .empty =
      stoppedMode J .full suite.scenarios first true .empty := by
    rw [stoppedMode, stoppedMode, plan_first]
  have hspared : SparedAttempt J suite false .empty first ↔
      SparedAttempt J suite true .empty first := by
    rw [SparedAttempt, SparedAttempt, plan_first]
  obtain ⟨hkept, hstray, hlost⟩ := @standing_retries J suite
    (stoppedMode J .full suite.scenarios first true .empty) retries
  rw [AllSpared, leftBehind, hspared, hstopped]
  refine ⟨fun h => hkept (kept_of_spared kept_empty h.1) h.2, ?_⟩
  intro hnot
  by_cases hfirst : SparedAttempt J suite true .empty first
  · exact hstray (kept_of_spared kept_empty hfirst) fun hrest => hnot ⟨hfirst, hrest⟩
  · exact hlost (lost_of_stray kept_empty hfirst)

/-- Running to the end is stopping after the last operation. -/
theorem stopped_of_run {findings : Scenario → Finding} {records : List Entries}
    {dir' : ResultsDir}
    (h : runMode J .full suite.scenarios findings true dir = .ok (records, dir')) :
    ∃ p, plan J .full suite.scenarios true dir = .ok p ∧
      dir' = stoppedMode J .full suite.scenarios ⟨findings, (p.ops J .full findings).length⟩ true
        dir := by
  obtain ⟨p, hplan, hrest⟩ := except_bind_ok_iff.mp h
  cases hrest
  refine ⟨p, hplan, ?_⟩
  rw [stoppedMode, hplan]
  simp only [List.take_length]

/-- A process that runs to its end adds every record to both files. -/
theorem texts_at_end {findings : Scenario → Finding} {records later written : List Entries}
    {dir' : ResultsDir} (hall : Recorded suite.scenarios (records ++ later))
    (hread : J.readAll (textAt dir "runs_full.jsonl") = some records)
    (hempty : records = [] → textAt dir "runs_full.jsonl" = [] ∧ textAt dir "runs.jsonl" = [])
    (h : runMode J .full suite.scenarios findings true dir = .ok (written, dir')) :
    ∃ new, Recorded suite.scenarios (records ++ new) ∧
      textAt dir' "runs_full.jsonl" = textAt dir "runs_full.jsonl" ++ J.written new ∧
      textAt dir' "runs.jsonl" = textAt dir "runs.jsonl" ++ J.written new := by
  obtain ⟨p, hplan, rfl⟩ := stopped_of_run h
  have hresumed := plan_resumed hall hread
  rw [hplan] at hresumed
  cases hresumed
  have hfresh := fresh_of_resumed suite hempty
  have hpoint : ((resumedPlan suite records).ops J .full findings).length -
      (modeOutputPaths .full).length =
      (suiteOps J ((resumedPlan suite records).newRecords findings)).length := by
    rw [Plan.ops, List.length_append, List.length_map, suiteOps]
    omega
  obtain ⟨hprimary, hcopy⟩ := charsTo_all (J := J)
    ((resumedPlan suite records).newRecords findings)
  refine ⟨_, recorded_resumed hall findings, ?_, ?_⟩
  · rw [textAt_added hplan hfresh, hpoint, ← hprimary]
    exact congrArg _ (congrArg _ List.take_length)
  · rw [textAt_added hplan hfresh, hpoint, ← hcopy]
    exact congrArg _ (congrArg _ List.take_length)

theorem survives_of_reads {records : List Entries} (hall : Recorded suite.scenarios records)
    (hprimary : J.readAll (textAt dir "runs_full.jsonl") = some records)
    (hcopy : J.readAll (textAt dir "runs.jsonl") = some records) : Survives J suite dir :=
  ⟨records, records, _, readJsonl_ok_iff.mpr hprimary, readJsonl_ok_iff.mpr hcopy,
    List.Perm.refl _, scenarioIds hall, List.Perm.refl _⟩

theorem survives_of_kept {findings : Scenario → Finding} {written : List Entries}
    {dir' : ResultsDir} (h : Kept J suite dir)
    (hrun : runMode J .full suite.scenarios findings true dir = .ok (written, dir')) :
    Survives J suite dir' := by
  cases h with
  | @level records later hall hprimary hcopy =>
    have hread : J.readAll (textAt dir "runs_full.jsonl") = some records := by
      rw [hprimary, Codec.readAll_written]
    obtain ⟨new, hnew, hu, hv⟩ := texts_at_end hall hread
      (by rintro rfl; exact ⟨hprimary, hcopy⟩) hrun
    rw [hprimary, ← Codec.written_append] at hu
    rw [hcopy, ← Codec.written_append] at hv
    exact survives_of_reads hnew (by rw [hu, Codec.readAll_written])
      (by rw [hv, Codec.readAll_written])
  | unreadable h =>
    obtain ⟨e, he⟩ := plan_unreadable .full suite.scenarios h
    obtain ⟨p, hplan, _⟩ := stopped_of_run hrun
    rw [he] at hplan
    cases hplan
  | @closed records last hall hprimary hcopy =>
    have hread : J.readAll (textAt dir "runs_full.jsonl") = some (records ++ [last]) := by
      rw [hprimary, Codec.readAll_written]
    have hnone : Recorded suite.scenarios ((records ++ [last]) ++ []) := by
      rwa [List.append_nil]
    obtain ⟨new, hnew, hu, hv⟩ := texts_at_end hnone hread (by simp) hrun
    have hnothing := nothing_left hall hnew
    subst hnothing
    rw [hprimary, ← Codec.written_append, List.append_nil] at hu
    rw [hcopy, Codec.written_nil, List.append_nil] at hv
    exact survives_of_reads hall (by rw [hu, Codec.readAll_written])
      (by rw [hv, readAll_unended])

/-- After any number of stopped processes, the files of the process that runs to its end are
right exactly when none of them stopped between the text of a record in the first file and
the end of its line in the second one. -/
theorem survives_iff_spared (J : Codec Entries) (suite : Suite) (first : Attempt)
    (retries : List Attempt) (findings : Scenario → Finding) {records : List Entries}
    {dir : ResultsDir} (h : runMode J .full suite.scenarios findings true
      (leftBehind J suite first retries) = .ok (records, dir)) :
    Survives J suite dir ↔ AllSpared J suite first retries := by
  obtain ⟨hkept, hlost⟩ := @standing_left J suite first retries
  constructor
  · intro hsurvives
    by_contra hnot
    obtain ⟨p, _, rfl⟩ := stopped_of_run h
    exact not_survives_of_lost (lost_of_lost (hlost hnot)) hsurvives
  · exact fun hspared => survives_of_kept (hkept hspared) h

/-- Two scenarios of the tests. -/
def twoScenarios : Suite where
  scenarios := [⟨"eval-test-a", "low_risk"⟩, ⟨"eval-test-b", "low_risk"⟩]
  distinct := by decide

def completed (scenario : Scenario) : Finding where
  runId := "run-" ++ scenario.id
  rest := [("final_state", .str "COMPLETED")]

/-- A process that stops once it has opened the files and written the first record to both. -/
def betweenScenarios : Attempt where
  findings := completed
  point := 2 + 2 * 88

/-- A process that stops between the two lines of the first record. -/
def betweenFiles : Attempt where
  findings := completed
  point := 2 + 88

theorem survives_between_scenarios : ∃ records dir,
    runMode jsonLines .full twoScenarios.scenarios completed true
      (leftBehind jsonLines twoScenarios betweenScenarios []) = .ok (records, dir) ∧
      Survives jsonLines twoScenarios dir := by
  have hruns : (runMode jsonLines .full twoScenarios.scenarios completed true
      (leftBehind jsonLines twoScenarios betweenScenarios [])).toOption.isSome = true := by
    decide +kernel
  obtain ⟨⟨records, dir⟩, hsome⟩ := Option.isSome_iff_exists.mp hruns
  have hrun := eq_ok_of_toOption hsome
  refine ⟨records, dir, hrun, ?_⟩
  apply (survives_iff_spared jsonLines twoScenarios betweenScenarios [] completed hrun).mpr
  refine ⟨?_, trivial⟩
  intro p hp
  cases hp
  decide +kernel

theorem length_of_mapM {α β ε : Type} {f : α → Except ε β} {xs : List α} {ys : List β}
    (h : xs.mapM f = .ok ys) : ys.length = xs.length := by
  induction xs generalizing ys with
  | nil =>
    cases h
    rfl
  | cons x xs ih =>
    rw [List.mapM_cons] at h
    cases hx : f x with
    | error e =>
      rw [hx] at h
      cases h
    | ok y =>
      cases hxs : xs.mapM f with
      | error e =>
        rw [hx, hxs] at h
        cases h
      | ok zs =>
        rw [hx, hxs] at h
        cases h
        rw [List.length_cons, List.length_cons, ih hxs]

/-- The second file holds as many records as the suite has scenarios. -/
theorem length_of_survives {copies : List Entries} (h : Survives J suite dir)
    (hcopies : J.readAll (textAt dir "runs.jsonl") = some copies) :
    copies.length = suite.scenarios.length := by
  obtain ⟨records, others, ids, _, hothers, hperm, hids, hscenarios⟩ := h
  rw [readJsonl_ok_iff, hcopies] at hothers
  cases hothers
  rw [hperm.length_eq, ← length_of_mapM hids, hscenarios.length_eq, List.length_map]

theorem missed_between_files : ¬ ∀ (J : Codec Entries) (suite : Suite) (first : Attempt)
    (retries : List Attempt) (findings : Scenario → Finding) (records : List Entries)
    (dir : ResultsDir), runMode J .full suite.scenarios findings true
      (leftBehind J suite first retries) = .ok (records, dir) → Survives J suite dir := by
  intro h
  have hone : ((runMode jsonLines .full twoScenarios.scenarios completed true
      (leftBehind jsonLines twoScenarios betweenFiles [])).toOption.bind fun left =>
        (jsonLines.readAll (textAt left.2 "runs.jsonl")).map List.length) = some 1 := by
    decide +kernel
  obtain ⟨⟨records, dir⟩, hsome, hlength⟩ := Option.bind_eq_some_iff.mp hone
  obtain ⟨copies, hcopies, hcount⟩ := Option.map_eq_some_iff.mp hlength
  have hsurvives := h jsonLines twoScenarios betweenFiles [] completed records dir
    (eq_ok_of_toOption hsome)
  rw [length_of_survives hsurvives hcopies] at hcount
  cases hcount

end Histories

end SuiteResults
