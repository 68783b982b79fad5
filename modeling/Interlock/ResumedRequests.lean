import Interlock.RecordOrder
import Interlock.SuiteResults

/-!
# Resumed requests

A process that is resumed may be asked for other scenarios than the ones before it. It
leaves out what its file already shows and returns all that its file shows, so that it
returns the records of its own request exactly if the file shows no others.
-/

namespace ResumedRequests

open Dictionary PythonValues Harness Metrics RecordOrder LineFiles SuiteFiles JsonDocuments
open SuiteResults

/-! ### Requests and what earlier processes leave -/

/-- The scenarios that `_run_mode` is asked for, with what the metrics know of them. -/
structure Request where
  rows : List ScenarioRow
  distinct : (rows.map ScenarioRow.id).Nodup

def Request.suite (request : Request) : Suite where
  scenarios := request.rows.map fun row => ⟨row.id, row.category⟩
  distinct := by
    rw [List.map_map]
    exact request.distinct

/-- What earlier processes of a mode leave, each with scenarios of its own, with `--resume` or
without, and stopped anywhere. -/
inductive Left (J : Codec Entries) (mode : AblationMode) : ResultsDir → Prop
  | missing {dir : ResultsDir} (h : dir.get? (primaryPath mode) = none) : Left J mode dir
  | process {dir : ResultsDir} (h : Left J mode dir) (suite : Suite) (resume : Bool)
      (attempt : Attempt) : Left J mode (stoppedMode J mode suite.scenarios attempt resume dir)

/-- `compute_all_metrics(records, scenarios)`; `row` reads a record, or raises. -/
def metricsOf (percentile : Percentile) (row : Entries → Option RunRow) (request : Request)
    (records : List Entries) : Option AllMetrics :=
  (records.mapM row).map (computeAllMetrics percentile · request.rows)

/-- One record of each requested scenario and no other. -/
def OneEach (request : Request) (records : List Entries) : Prop :=
  ∃ ids, records.mapM scenarioId = .ok ids ∧ ids.Perm (request.rows.map fun row => .str row.id)

/-- A resumed process returns one record of each requested scenario, and its metrics are those
of an uninterrupted process that produces the same records. -/
def Covers (J : Codec Entries) (mode : AblationMode) (request : Request)
    (findings : Scenario → Finding) (dir : ResultsDir) : Prop :=
  ∃ records dir', runMode J mode request.suite.scenarios findings true dir = .ok (records, dir') ∧
    OneEach request records ∧
    ∃ findings' records' dir'',
      runMode J mode request.suite.scenarios findings' false dir = .ok (records', dir'') ∧
      records'.Perm records ∧ ∀ percentile row, Option.Rel SameMetrics
        (metricsOf percentile row request records) (metricsOf percentile row request records')

/-- The file can be read, and every record in it is of a requested scenario. -/
def OnlyRequested (J : Codec Entries) (mode : AblationMode) (request : Request)
    (dir : ResultsDir) : Prop :=
  ∃ records, readJsonl J dir (primaryPath mode) = .ok records ∧
    ∀ record ∈ records, ∃ row ∈ request.rows, scenarioId record = .ok (.str row.id)

/-! ### Suites one after the other -/

section Suites

/-- The first scenarios of a suite. -/
def first (suite : Suite) (n : ℕ) : Suite where
  scenarios := suite.scenarios.take n
  distinct := suite.distinct.sublist ((List.take_sublist n _).map Scenario.id)

/-- The scenarios of a suite that are not done. -/
def remaining (done suite : Suite) : List Scenario :=
  suite.scenarios.filter fun s => !(done.scenarios.map fun d => Json.str d.id).any (·.isStr s.id)

variable {done suite : Suite} {s : Scenario}

theorem mem_remaining : s ∈ remaining done suite ↔
    s ∈ suite.scenarios ∧ ∀ d ∈ done.scenarios, d.id ≠ s.id := by
  simp [remaining, Json.isStr]

def union (done suite : Suite) : Suite where
  scenarios := done.scenarios ++ remaining done suite
  distinct := by
    rw [List.map_append, List.nodup_append]
    refine ⟨done.distinct, suite.distinct.sublist (List.filter_sublist.map Scenario.id), ?_⟩
    intro id hid other hother hsame
    obtain ⟨d, hd, rfl⟩ := List.mem_map.mp hid
    obtain ⟨s, hs, rfl⟩ := List.mem_map.mp hother
    exact (mem_remaining.mp hs).2 d hd hsame

theorem ids_union_perm (h : ∀ d ∈ done.scenarios, d.id ∈ suite.scenarios.map Scenario.id) :
    ((union done suite).scenarios.map Scenario.id).Perm (suite.scenarios.map Scenario.id) := by
  rw [List.perm_ext_iff_of_nodup (union done suite).distinct suite.distinct]
  intro id
  rw [union, List.map_append, List.mem_append]
  constructor
  · rintro (hdone | hremaining)
    · obtain ⟨d, hd, rfl⟩ := List.mem_map.mp hdone
      exact h d hd
    · obtain ⟨s, hs, rfl⟩ := List.mem_map.mp hremaining
      exact List.mem_map_of_mem (mem_remaining.mp hs).1
  · intro hid
    obtain ⟨s, hs, rfl⟩ := List.mem_map.mp hid
    by_cases hdone : ∃ d ∈ done.scenarios, d.id = s.id
    · obtain ⟨d, hd, hsame⟩ := hdone
      exact Or.inl (hsame ▸ List.mem_map_of_mem hd)
    · simp only [not_exists, not_and] at hdone
      exact Or.inr (List.mem_map_of_mem (mem_remaining.mpr ⟨hs, hdone⟩))

end Suites

/-! ### The file between processes -/

/-- Records of distinct scenarios, the last one perhaps without the end of its line; or a file
that no process can read. -/
inductive Standing (J : Codec Entries) (mode : AblationMode) (dir : ResultsDir) : Prop
  | ended {done : Suite} {records : List Entries} (hall : Recorded done.scenarios records)
      (htext : textAt dir (primaryPath mode) = J.written records)
  | unended {done : Suite} {records : List Entries} {last : Entries}
      (hall : Recorded done.scenarios (records ++ [last]))
      (htext : textAt dir (primaryPath mode) = J.written records ++ J.dumps last)
  | unreadable (h : J.readAll (textAt dir (primaryPath mode)) = none)

section Files

variable {J : Codec Entries} {mode : AblationMode} {dir dir' : ResultsDir} {suite done : Suite}
variable {records new : List Entries} {text : List Char} {attempt : Attempt} {resume : Bool}
variable {p : Plan}

theorem Standing.of_text_eq (h : Standing J mode dir)
    (hsame : textAt dir' (primaryPath mode) = textAt dir (primaryPath mode)) :
    Standing J mode dir' := by
  cases h with
  | ended hall htext => exact .ended hall (hsame.trans htext)
  | unended hall htext => exact .unended hall (hsame.trans htext)
  | unreadable h => exact .unreadable (hsame ▸ h)

theorem recorded_first (hall : Recorded suite.scenarios (records ++ new)) :
    Recorded (first suite records.length).scenarios records :=
  List.forall₂_take_append suite.scenarios records new hall

/-- Wherever the writing of new records stops. -/
theorem standing_of_started (hall : Recorded suite.scenarios (records ++ new))
    (htext : textAt dir (primaryPath mode) = J.written records ++ text)
    (hstarts : text <+: J.written new) : Standing J mode dir := by
  obtain ⟨whole, rest, u, rfl, rfl, hend⟩ := Codec.cut_written hstarts
  rw [← List.append_assoc, ← Codec.written_append] at htext
  rw [← List.append_assoc] at hall
  rcases hend with rfl | ⟨record, more, rfl, hbegun, hne⟩
  · rw [List.append_nil] at htext
    exact .ended (recorded_first hall) htext
  · by_cases hwhole : u = J.dumps record
    · subst hwhole
      have hnext : Recorded suite.scenarios ((records ++ whole ++ [record]) ++ more) := by
        rwa [List.append_assoc _ [record], List.singleton_append]
      exact .unended (recorded_first hnext) htext
    · exact .unreadable (by rw [htext, readAll_begun hbegun hne hwhole])

theorem charsTo_primary (record : Entries) :
    charsTo (primaryPath mode) (recordOps J (modeOutputPaths mode) record) = J.line record := by
  have hself := charsTo_self (primaryPath mode) (J.line record)
  cases mode with
  | full =>
    have hother : charsTo "runs_full.jsonl" ((J.line record).map (.write "runs.jsonl")) = [] :=
      charsTo_other (by decide) _
    have hsame : charsTo "runs_full.jsonl" ((J.line record).map (.write "runs_full.jsonl")) =
        J.line record := hself
    rw [recordOps, modeOutputPaths_full, List.flatMap_cons, List.flatMap_singleton,
      charsTo_append]
    change charsTo "runs_full.jsonl" _ ++ charsTo "runs_full.jsonl" _ = _
    rw [hsame, hother, List.append_nil]
  | noDurability => simpa [recordOps, modeOutputPaths] using hself
  | noRevalidation => simpa [recordOps, modeOutputPaths] using hself

theorem charsTo_written (mode : AblationMode) (records : List Entries) :
    charsTo (primaryPath mode) (records.flatMap (recordOps J (modeOutputPaths mode))) =
      J.written records := by
  induction records with
  | nil => rfl
  | cons record rest ih =>
    rw [List.flatMap_cons, charsTo_append, charsTo_primary, ih]
    rfl

/-- A stopped process has written the beginning of its new records, after the old ones or in
their place. -/
theorem primary_stopped (attempt : Attempt)
    (hplan : plan J mode suite.scenarios resume dir = .ok p) :
    ∃ text, text <+: J.written (p.newRecords attempt.findings) ∧
      ((textAt (stoppedMode J mode suite.scenarios attempt resume dir) (primaryPath mode) =
          textAt dir (primaryPath mode) ++ text ∧ (p.appends = true ∨ text = [])) ∨
        (textAt (stoppedMode J mode suite.scenarios attempt resume dir) (primaryPath mode) =
          text ∧ p.appends = false)) := by
  let writes := (p.newRecords attempt.findings).flatMap (recordOps J (modeOutputPaths mode))
  have htext : textAt (stoppedMode J mode suite.scenarios attempt resume dir) (primaryPath mode) =
      (if p.appends = false ∧ primaryPath mode ∈ (modeOutputPaths mode).take attempt.point then []
        else textAt dir (primaryPath mode)) ++ charsTo (primaryPath mode)
          (writes.take (attempt.point - (modeOutputPaths mode).length)) :=
    textAt_stopped hplan (primaryPath mode)
  have hstarts : charsTo (primaryPath mode)
      (writes.take (attempt.point - (modeOutputPaths mode).length)) <+:
        J.written (p.newRecords attempt.findings) := by
    rw [← charsTo_written mode]
    exact (List.take_prefix _ _).filterMap _
  refine ⟨_, hstarts, ?_⟩
  by_cases hemptied : p.appends = false ∧
      primaryPath mode ∈ (modeOutputPaths mode).take attempt.point
  · rw [if_pos hemptied] at htext
    exact Or.inr ⟨htext, hemptied.1⟩
  · rw [if_neg hemptied] at htext
    refine Or.inl ⟨htext, ?_⟩
    cases happends : p.appends with
    | true => exact Or.inl rfl
    | false =>
      right
      have hzero : attempt.point = 0 := by
        by_contra hne
        obtain ⟨n, hn⟩ := Nat.exists_eq_succ_of_ne_zero hne
        rw [hn, modeOutputPaths, List.take_succ_cons] at hemptied
        exact hemptied ⟨happends, List.mem_cons_self⟩
      simp [hzero, charsTo]

/-! ### One more process -/

/-- The plan over records of the scenarios that are done. -/
def nextPlan (done suite : Suite) (records : List Entries) : Plan where
  alreadyDone := records
  todo := remaining done suite
  appends := !records.isEmpty

theorem plan_shown (suite : Suite) (hall : Recorded done.scenarios records)
    (hread : J.readAll (textAt dir (primaryPath mode)) = some records) :
    plan J mode suite.scenarios true dir = .ok (nextPlan done suite records) := by
  have hprimary := readJsonl_ok_iff.mpr hread
  simp only [plan, if_true, hprimary, bind, Except.bind, scenarioIds hall, Bool.true_and]
  rfl

theorem recorded_union (suite : Suite) (hall : Recorded done.scenarios records)
    (findings : Scenario → Finding) :
    Recorded (union done suite).scenarios
      (records ++ (nextPlan done suite records).newRecords findings) :=
  List.rel_append hall (recorded_new (nextPlan done suite records) findings)

/-- A process that reads records of done scenarios, wherever it stops, adds some of the others. -/
theorem standing_continued (hall : Recorded done.scenarios records)
    (htext : textAt dir (primaryPath mode) = J.written records) (suite : Suite)
    (attempt : Attempt) :
    Standing J mode (stoppedMode J mode suite.scenarios attempt true dir) := by
  have hread : J.readAll (textAt dir (primaryPath mode)) = some records := by
    rw [htext, Codec.readAll_written]
  have hunion := recorded_union suite hall attempt.findings
  obtain ⟨text, hstarts, ⟨hadded, _⟩ | ⟨hreplaced, hempty⟩⟩ :=
    primary_stopped attempt (plan_shown suite hall hread)
  · exact standing_of_started hunion (by rw [hadded, htext]) hstarts
  · have hnil : records = [] := by simpa [nextPlan] using hempty
    subst hnil
    exact standing_of_started hunion hreplaced hstarts

/-- The next record after one whose line was not ended is glued to it. -/
theorem standing_glued {last : Entries} (hall : Recorded done.scenarios (records ++ [last]))
    (htext : textAt dir (primaryPath mode) = J.written records ++ J.dumps last) (suite : Suite)
    (attempt : Attempt) :
    Standing J mode (stoppedMode J mode suite.scenarios attempt true dir) := by
  have hread : J.readAll (textAt dir (primaryPath mode)) = some (records ++ [last]) := by
    rw [htext, readAll_unended]
  obtain ⟨text, hstarts, ⟨hadded, _⟩ | ⟨_, hempty⟩⟩ :=
    primary_stopped attempt (plan_shown suite hall hread)
  · by_cases hne : text = []
    · rw [hne, List.append_nil] at hadded
      exact (Standing.unended hall htext).of_text_eq hadded
    · apply Standing.unreadable
      rw [hadded, htext, List.append_assoc, Codec.readAll_written_append,
        Codec.readAll_glued_written hstarts hne last]
      rfl
  · simp [nextPlan] at hempty

theorem standing_stopped (h : Standing J mode dir) (suite : Suite) (resume : Bool)
    (attempt : Attempt) :
    Standing J mode (stoppedMode J mode suite.scenarios attempt resume dir) := by
  cases resume with
  | false =>
    let fresh : Plan := ⟨[], suite.scenarios, false⟩
    have hplan : plan J mode suite.scenarios false dir = .ok fresh := rfl
    have hnew : Recorded suite.scenarios ([] ++ fresh.newRecords attempt.findings) :=
      recorded_new fresh attempt.findings
    obtain ⟨text, hstarts, ⟨htext, hnone⟩ | ⟨htext, _⟩⟩ := primary_stopped attempt hplan
    · rcases hnone with hfalse | rfl
      · cases hfalse
      · exact h.of_text_eq (htext.trans (List.append_nil _))
    · exact standing_of_started hnew htext hstarts
  | true =>
    cases h with
    | ended hall htext => exact standing_continued hall htext suite attempt
    | unended hall htext => exact standing_glued hall htext suite attempt
    | unreadable h =>
      rw [stopped_unreadable h]
      exact .unreadable h

/-- Whatever earlier processes leave, the file can be read as records of distinct scenarios or
not at all. -/
theorem standing_of_left (h : Left J mode dir) : Standing J mode dir := by
  induction h with
  | @missing dir h =>
    refine @Standing.ended J mode dir ⟨[], List.nodup_nil⟩ [] .nil ?_
    rw [textAt, h]
    rfl
  | process _ suite resume attempt ih => exact standing_stopped ih suite resume attempt

theorem shown_or_unreadable (h : Left J mode dir) :
    (∃ done : Suite, ∃ records, Recorded done.scenarios records ∧
      J.readAll (textAt dir (primaryPath mode)) = some records) ∨
    J.readAll (textAt dir (primaryPath mode)) = none := by
  cases standing_of_left h with
  | @ended done records hall htext =>
    exact Or.inl ⟨done, records, hall, by rw [htext, Codec.readAll_written]⟩
  | @unended done records last hall htext =>
    exact Or.inl ⟨done, records ++ [last], hall, by rw [htext, readAll_unended]⟩
  | unreadable h => exact Or.inr h

end Files

/-! ### One uninterrupted process -/

section Uninterrupted

/-- Records of distinct scenarios are what one process finds, scenario by scenario. -/
theorem findings_by_id {scenarios : List Scenario} {records : List Entries}
    (h : Recorded scenarios records) (hdistinct : (scenarios.map Scenario.id).Nodup) :
    ∃ found : String → Finding,
      records = scenarios.map fun s => scenarioRecord s (found s.id) := by
  induction h with
  | nil => exact ⟨fun _ => ⟨"", []⟩, rfl⟩
  | @cons s record scenarios records hrecord _ ih =>
    rw [List.map_cons, List.nodup_cons] at hdistinct
    obtain ⟨found, rfl⟩ := ih hdistinct.2
    obtain ⟨finding, rfl⟩ := hrecord
    refine ⟨Function.update found s.id finding, ?_⟩
    rw [List.map_cons, Function.update_self]
    congr 1
    apply List.map_congr_left
    intro other hother
    have hne : other.id ≠ s.id := by
      intro hsame
      exact hdistinct.1 (hsame ▸ List.mem_map_of_mem hother)
    rw [Function.update_of_ne hne]

/-- The record of a scenario names no more of it than its id. -/
def recordOf (found : String → Finding) (id : String) : Entries :=
  ("run_id", .str (found id).runId) :: ("scenario_id", .str id) :: (found id).rest

/-- Records of the scenarios of a suite, in any order, are those of one uninterrupted run. -/
theorem uninterrupted (J : Codec Entries) (mode : AblationMode) {all suite : Suite}
    {records : List Entries} (hall : Recorded all.scenarios records)
    (hperm : (all.scenarios.map Scenario.id).Perm (suite.scenarios.map Scenario.id))
    (dir : ResultsDir) : ∃ findings records' dir',
      runMode J mode suite.scenarios findings false dir = .ok (records', dir') ∧
        records'.Perm records := by
  obtain ⟨found, rfl⟩ := findings_by_id hall all.distinct
  refine ⟨fun s => found s.id, suite.scenarios.map fun s => scenarioRecord s (found s.id), _, rfl,
    ?_⟩
  have hrecords := hperm.symm.map (recordOf found)
  rw [List.map_map, List.map_map] at hrecords
  exact hrecords

theorem metricsOf_perm (percentile : Percentile) (row : Entries → Option RunRow)
    (request : Request) {records records' : List Entries} (h : records.Perm records') :
    Option.Rel SameMetrics (metricsOf percentile row request records)
      (metricsOf percentile row request records') := by
  have hrows := mapM_perm row h
  rw [metricsOf, metricsOf]
  generalize records.mapM row = rows, records'.mapM row = rows' at hrows ⊢
  cases hrows with
  | some hperm => exact .some (sameMetrics_of_perm percentile request.rows hperm)
  | none => exact .none

end Uninterrupted

/-! ### What a resumed process returns -/

section Returned

variable {J : Codec Entries} {mode : AblationMode} {dir : ResultsDir} {request : Request}
variable {done : Suite} {records : List Entries}

theorem ids_of_request (request : Request) :
    request.rows.map (fun row => Json.str row.id) =
      (request.suite.scenarios.map Scenario.id).map Json.str := by
  rw [Request.suite, List.map_map, List.map_map]
  rfl

theorem oneEach_iff {scenarios : List Scenario} (hall : Recorded scenarios records) :
    OneEach request records ↔
      (scenarios.map Scenario.id).Perm (request.suite.scenarios.map Scenario.id) := by
  have hids := scenarioIds hall
  have hstrs : scenarios.map (fun s => Json.str s.id) =
      (scenarios.map Scenario.id).map Json.str := by
    rw [List.map_map]
    rfl
  rw [hstrs] at hids
  rw [OneEach, ids_of_request]
  constructor
  · rintro ⟨ids, hread, hperm⟩
    rw [hids] at hread
    cases hread
    exact (List.map_perm_map_iff (fun _ _ h => Json.str.inj h)).mp hperm
  · exact fun hperm => ⟨_, hids, hperm.map Json.str⟩

/-- A resumed process returns what its file shows and the records of the other scenarios. -/
theorem run_shown (request : Request) (hall : Recorded done.scenarios records)
    (hread : J.readAll (textAt dir (primaryPath mode)) = some records)
    (findings : Scenario → Finding) :
    ∃ dir', runMode J mode request.suite.scenarios findings true dir =
      .ok (records ++ (nextPlan done request.suite records).newRecords findings, dir') := by
  rw [runMode, plan_shown request.suite hall hread]
  exact ⟨_, rfl⟩

theorem requested_iff {scenarios : List Scenario} (hall : Recorded scenarios records) :
    (∀ record ∈ records, ∃ row ∈ request.rows, scenarioId record = .ok (.str row.id)) ↔
      ∀ d ∈ scenarios, d.id ∈ request.suite.scenarios.map Scenario.id := by
  have hmem : ∀ id : String, id ∈ request.suite.scenarios.map Scenario.id ↔
      ∃ row ∈ request.rows, row.id = id := by
    intro id
    simp [Request.suite]
  simp only [hmem]
  induction hall with
  | nil => simp
  | @cons d record scenarios records hrecord _ ih =>
    obtain ⟨finding, rfl⟩ := hrecord
    have hfirst : scenarioId (scenarioRecord d finding) = .ok (.str d.id) := rfl
    rw [List.forall_mem_cons, List.forall_mem_cons, hfirst]
    refine and_congr (exists_congr fun row => and_congr_right fun _ => ?_) ih
    rw [Except.ok.injEq, Json.str.injEq]
    exact eq_comm

/-- A resumed process covers its request exactly if its file can be read and shows no records
but those of requested scenarios. -/
theorem covers_iff (h : Left J mode dir) (request : Request) (findings : Scenario → Finding) :
    Covers J mode request findings dir ↔ OnlyRequested J mode request dir := by
  rcases shown_or_unreadable h with ⟨done, records, hall, hread⟩ | hunreadable
  · have hunion := recorded_union request.suite hall findings
    obtain ⟨dir', hrun⟩ := run_shown request hall hread findings
    constructor
    · rintro ⟨returned, _, hreturned, hone, _⟩
      rw [hrun] at hreturned
      cases hreturned
      refine ⟨records, readJsonl_ok_iff.mpr hread, (requested_iff hall).mpr ?_⟩
      intro d hd
      exact ((oneEach_iff hunion).mp hone).subset
        (List.mem_map_of_mem (List.mem_append_left _ hd))
    · rintro ⟨shown, hshown, honly⟩
      rw [readJsonl_ok_iff, hread] at hshown
      cases hshown
      have hperm := ids_union_perm ((requested_iff hall).mp honly)
      obtain ⟨findings', records', dir'', hrun', hrecords⟩ :=
        uninterrupted J mode hunion hperm dir
      refine ⟨_, dir', hrun, (oneEach_iff hunion).mpr hperm, findings', records', dir'', hrun',
        hrecords, ?_⟩
      intro percentile row
      exact metricsOf_perm percentile row request hrecords.symm
  · constructor
    · rintro ⟨_, _, hrun, _⟩
      obtain ⟨e, he⟩ := plan_unreadable mode request.suite.scenarios hunreadable
      rw [runMode, he] at hrun
      cases hrun
    · rintro ⟨records, hread, _⟩
      rw [readJsonl_ok_iff, hunreadable] at hread
      cases hread

end Returned

/-! ### The request before -/

section Requests

/-- A request for scenarios of low risk. -/
def lowRisk (ids : List String) (hdistinct : ids.Nodup) : Request where
  rows := ids.map fun id => ⟨id, "low_risk", "low", ["restart_service:service_a"], []⟩
  distinct := by
    rw [List.map_map]
    exact (List.map_id ids).symm ▸ hdistinct

def firstRequest : Request := lowRisk ["eval-test-a"] (by decide)

/-- What a process leaves that has run the first request to its end. -/
def firstLeft : ResultsDir :=
  stoppedMode jsonLines .full firstRequest.suite.scenarios ⟨completed, 178⟩ false .empty

theorem left_first : Left jsonLines .full firstLeft :=
  .process (.missing rfl) firstRequest.suite false ⟨completed, 178⟩

def bothRequest : Request := lowRisk ["eval-test-a", "eval-test-b"] (by decide)

theorem eq_of_isStr {j : Json} {text : String} (h : j.isStr text = true) : j = .str text := by
  cases j <;> simp_all [Json.isStr]

theorem covers_both : Covers jsonLines .full bothRequest completed firstLeft := by
  apply (covers_iff left_first bothRequest completed).mpr
  have hreads : ((readJsonl jsonLines firstLeft "runs_full.jsonl").toOption.any fun records =>
      records.all fun record => (scenarioId record).toOption.any (·.isStr "eval-test-a")) =
        true := by
    decide +kernel
  obtain ⟨records, hread, hall⟩ := (Option.any_eq_true _ _).mp hreads
  refine ⟨records, eq_ok_of_toOption hread, ?_⟩
  intro record hrecord
  obtain ⟨id, hid, hstr⟩ := (Option.any_eq_true _ _).mp (List.all_eq_true.mp hall record hrecord)
  refine ⟨⟨"eval-test-a", "low_risk", "low", ["restart_service:service_a"], []⟩,
    List.mem_cons_self, ?_⟩
  rw [eq_ok_of_toOption hid, eq_of_isStr hstr]

def secondRequest : Request := lowRisk ["eval-test-b"] (by decide)

/-- After a request for one scenario a resumed request for another one returns both. -/
theorem earlier_request_returned : Left jsonLines .full firstLeft ∧
    ¬ Covers jsonLines .full secondRequest completed firstLeft := by
  refine ⟨left_first, ?_⟩
  rintro ⟨records, dir', hrun, ⟨ids, hids, hperm⟩, _⟩
  have htwo : ((runMode jsonLines .full secondRequest.suite.scenarios completed true
      firstLeft).toOption.map fun returned => returned.1.length) = some 2 := by
    decide +kernel
  rw [hrun] at htwo
  have hlength : records.length = 2 := Option.some.inj htwo
  rw [← length_of_mapM hids, hperm.length_eq] at hlength
  cases hlength

end Requests

end ResumedRequests
