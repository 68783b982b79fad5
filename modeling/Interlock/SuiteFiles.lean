import Interlock.Harness
import Interlock.LineFiles

/-!
# The files of a suite

The record of every scenario goes to its files as soon as the scenario is done, and
`--resume` reads back from the first file what is still to do. A process that is killed
has made a first part of its file operations.
-/

namespace SuiteFiles

open Dictionary PythonValues Harness LineFiles

/-! ### The files -/

/-- The texts in the results directory by file name; a file that is not there has none. -/
abbrev ResultsDir : Type := Dict String (List Char)

def modeName : AblationMode → String
  | .full => "full"
  | .noDurability => "no_durability"
  | .noRevalidation => "no_revalidation"

def primaryPath (mode : AblationMode) : String := "runs_" ++ modeName mode ++ ".jsonl"

/-- `_mode_output_paths(mode)`. -/
def modeOutputPaths (mode : AblationMode) : List String :=
  primaryPath mode :: if mode = .full then ["runs.jsonl"] else []

/-- A record in a file is a JSON object. -/
abbrev Entries : Type := List (String × Json)

/-- `_read_jsonl(path)`. -/
def readJsonl (J : Codec Entries) (dir : ResultsDir) (path : String) :
    Except PyError (List Entries) :=
  match dir.get? path with
  | none => .ok []
  | some text =>
    match J.readAll text with
    | some records => .ok records
    | none => .error (.valueError "a line is no JSON object")

/-- What reaches the disk, one character after the other. -/
inductive FileOp where
  | openFile (path : String) (append : Bool)
  | write (path : String) (c : Char)

def FileOp.apply (dir : ResultsDir) : FileOp → ResultsDir
  | .openFile path append => dir.set path (if append then (dir.get? path).getD [] else [])
  | .write path c => dir.set path ((dir.get? path).getD [] ++ [c])

/-! ### Running a mode -/

/-- What one run of a scenario found; another run of it may find something else. -/
structure Finding where
  runId : String
  rest : Entries

def scenarioRecord (scenario : Scenario) (finding : Finding) : Entries :=
  ("run_id", .str finding.runId) :: ("scenario_id", .str scenario.id) :: finding.rest

/-- `r["scenario_id"]`. -/
def scenarioId (record : Entries) : Except PyError Json :=
  (Json.obj record).getItem "scenario_id"

/-- What is settled before the loop over the scenarios. -/
structure Plan where
  alreadyDone : List Entries
  todo : List Scenario
  appends : Bool

def plan (J : Codec Entries) (mode : AblationMode) (scenarios : List Scenario) (resume : Bool)
    (dir : ResultsDir) : Except PyError Plan := do
  let alreadyDone ← if resume then readJsonl J dir (primaryPath mode) else pure []
  let doneIds ← alreadyDone.mapM scenarioId
  return {
    alreadyDone := alreadyDone
    todo := if resume then scenarios.filter fun s => !doneIds.any (·.isStr s.id) else scenarios
    appends := resume && !alreadyDone.isEmpty }

def Plan.newRecords (p : Plan) (findings : Scenario → Finding) : List Entries :=
  p.todo.map fun scenario => scenarioRecord scenario (findings scenario)

/-- `for f in files: f.write(line)`. -/
def recordOps (J : Codec Entries) (paths : List String) (record : Entries) : List FileOp :=
  paths.flatMap fun path => (J.line record).map (.write path)

def Plan.ops (J : Codec Entries) (mode : AblationMode) (p : Plan)
    (findings : Scenario → Finding) : List FileOp :=
  (modeOutputPaths mode).map (.openFile · p.appends) ++
    (p.newRecords findings).flatMap (recordOps J (modeOutputPaths mode))

/-- `_run_mode` to its end: the records it returns and the directory it leaves. -/
def runMode (J : Codec Entries) (mode : AblationMode) (scenarios : List Scenario)
    (findings : Scenario → Finding) (resume : Bool) (dir : ResultsDir) :
    Except PyError (List Entries × ResultsDir) := do
  let p ← plan J mode scenarios resume dir
  return (p.alreadyDone ++ p.newRecords findings, (p.ops J mode findings).foldl FileOp.apply dir)

/-- A process that stops after so many file operations. -/
structure Attempt where
  findings : Scenario → Finding
  point : Nat

/-- The directory that `_run_mode` leaves when it stops at the attempt's point; one that
raises while it reads its file has changed nothing. -/
def stoppedMode (J : Codec Entries) (mode : AblationMode) (scenarios : List Scenario)
    (attempt : Attempt) (resume : Bool) (dir : ResultsDir) : ResultsDir :=
  match plan J mode scenarios resume dir with
  | .error _ => dir
  | .ok p => ((p.ops J mode attempt.findings).take attempt.point).foldl FileOp.apply dir

/-- The scenarios of a suite have distinct ids. -/
structure Suite where
  scenarios : List Scenario
  distinct : (scenarios.map Scenario.id).Nodup

/-- A first process and then any number of them with `--resume`, all of them stopped. -/
def leftBehind (J : Codec Entries) (suite : Suite) (first : Attempt) (retries : List Attempt) :
    ResultsDir :=
  retries.foldl (fun dir attempt => stoppedMode J .full suite.scenarios attempt true dir)
    (stoppedMode J .full suite.scenarios first false Dict.empty)

/-- Both files hold one record of every scenario and no other, and the same records. -/
def Survives (J : Codec Entries) (suite : Suite) (dir : ResultsDir) : Prop :=
  ∃ records copies ids, readJsonl J dir "runs_full.jsonl" = .ok records ∧
    readJsonl J dir "runs.jsonl" = .ok copies ∧ copies.Perm records ∧
    records.mapM scenarioId = .ok ids ∧ ids.Perm (suite.scenarios.map fun s => .str s.id)

/-! ### Where a process may stop -/

/-- After so many characters neither file lacks a record that the first one shows: none of a
record's text is whole in the first file, or its line is in both. The very last record
may lack the end of its line in the second file. -/
def Spared (J : Codec Entries) : List Entries → Nat → Prop
  | [], _ => True
  | record :: rest, written =>
    let length := (J.dumps record).length
    written < length ∨ (rest = [] ∧ written = 2 * length + 1) ∨
      (2 * (length + 1) ≤ written ∧ Spared J rest (written - 2 * (length + 1)))

instance decidableSpared (J : Codec Entries) :
    (records : List Entries) → (written : Nat) → Decidable (Spared J records written)
  | [], _ => .isTrue trivial
  | record :: rest, written =>
    let _ := decidableSpared J rest (written - 2 * ((J.dumps record).length + 1))
    inferInstanceAs (Decidable (written < (J.dumps record).length ∨
      (rest = [] ∧ written = 2 * (J.dumps record).length + 1) ∨
      (2 * ((J.dumps record).length + 1) ≤ written ∧
        Spared J rest (written - 2 * ((J.dumps record).length + 1)))))

/-- The attempt stops at such a place; one that raises writes nothing. -/
def SparedAttempt (J : Codec Entries) (suite : Suite) (resume : Bool) (dir : ResultsDir)
    (attempt : Attempt) : Prop :=
  ∀ p, plan J .full suite.scenarios resume dir = .ok p →
    Spared J (p.newRecords attempt.findings)
      (attempt.point - (modeOutputPaths .full).length)

def SparedRetries (J : Codec Entries) (suite : Suite) : ResultsDir → List Attempt → Prop
  | _, [] => True
  | dir, attempt :: rest => SparedAttempt J suite true dir attempt ∧
    SparedRetries J suite (stoppedMode J .full suite.scenarios attempt true dir) rest

/-- No process of the history stops elsewhere. -/
def AllSpared (J : Codec Entries) (suite : Suite) (first : Attempt) (retries : List Attempt) :
    Prop :=
  SparedAttempt J suite false .empty first ∧
    SparedRetries J suite (stoppedMode J .full suite.scenarios first false Dict.empty) retries

/-! ### What the operations leave in a file -/

def textAt (dir : ResultsDir) (path : String) : List Char := (dir.get? path).getD []

/-- The characters that the operations add to a file. -/
def charsTo (path : String) (ops : List FileOp) : List Char :=
  ops.filterMap fun
    | .write target c => if target = path then some c else none
    | .openFile _ _ => none

section Files

variable {J : Codec Entries} {dir : ResultsDir} {path other : String} {records : List Entries}

theorem readJsonl_ok_iff :
    readJsonl J dir path = .ok records ↔ J.readAll (textAt dir path) = some records := by
  unfold readJsonl textAt
  cases htext : dir.get? path with
  | none =>
    rw [Option.getD_none, Codec.readAll_nil]
    simp
  | some text =>
    rw [Option.getD_some]
    cases hread : J.readAll text <;> simp [hread]

theorem textAt_set (dir : ResultsDir) (path other : String) (text : List Char) :
    textAt (dir.set other text) path = if other = path then text else textAt dir path := by
  rw [textAt, Dict.get?_set]
  split <;> rfl

theorem textAt_write (dir : ResultsDir) (path other : String) (c : Char) :
    textAt (FileOp.apply dir (.write other c)) path =
      textAt dir path ++ if other = path then [c] else [] := by
  rw [FileOp.apply, textAt_set]
  split
  · rename_i hsame
    rw [hsame, textAt]
  · rw [List.append_nil]

/-- Opening empties a file, unless it is opened to append. -/
theorem textAt_opened (append : Bool) (paths : List String) (point : Nat) :
    textAt (((paths.map (.openFile · append)).take point).foldl FileOp.apply dir) path =
      if append = false ∧ path ∈ paths.take point then [] else textAt dir path := by
  induction paths generalizing dir point with
  | nil => simp
  | cons other paths ih =>
    cases point with
    | zero => simp
    | succ point =>
      rw [List.map_cons, List.take_succ_cons, List.foldl_cons, ih point, FileOp.apply, textAt_set,
        List.take_succ_cons]
      cases append with
      | true =>
        by_cases hsame : other = path
        · simp [hsame, textAt]
        · simp [hsame]
      | false =>
        by_cases hsame : other = path
        · simp [hsame]
        · simp [hsame, Ne.symm hsame]

theorem textAt_writes {ops : List FileOp} (h : ∀ op ∈ ops, ∃ target c, op = .write target c) :
    textAt (ops.foldl FileOp.apply dir) path = textAt dir path ++ charsTo path ops := by
  induction ops generalizing dir with
  | nil => simp [charsTo]
  | cons op ops ih =>
    obtain ⟨target, c, rfl⟩ := h op List.mem_cons_self
    rw [List.foldl_cons, ih fun op hop => h op (List.mem_cons_of_mem _ hop), textAt_write,
      List.append_assoc]
    by_cases hsame : target = path
    · simp [charsTo, hsame]
    · simp [charsTo, hsame]

theorem charsTo_append (path : String) (ops later : List FileOp) :
    charsTo path (ops ++ later) = charsTo path ops ++ charsTo path later :=
  List.filterMap_append

theorem charsTo_self (path : String) (text : List Char) :
    charsTo path (text.map (.write path)) = text := by
  induction text with
  | nil => rfl
  | cons c text ih =>
    have hrest : charsTo path (text.map (.write path)) = text := ih
    simp only [charsTo, List.map_cons, List.filterMap_cons, if_true] at hrest ⊢
    rw [hrest]

theorem charsTo_other (h : other ≠ path) (text : List Char) :
    charsTo path (text.map (.write other)) = [] := by
  induction text with
  | nil => rfl
  | cons c text ih =>
    have hrest : charsTo path (text.map (.write other)) = [] := ih
    simp only [charsTo, List.map_cons, List.filterMap_cons, if_neg h] at hrest ⊢
    exact hrest

theorem recordOps_writes {paths : List String} {record : Entries} {op : FileOp}
    (h : op ∈ recordOps J paths record) : ∃ target c, op = .write target c := by
  obtain ⟨target, _, hop⟩ := List.mem_flatMap.mp h
  obtain ⟨c, _, rfl⟩ := List.mem_map.mp hop
  exact ⟨target, c, rfl⟩

end Files

/-! ### What a stopped process has written -/

section Stopped

variable {J : Codec Entries} {mode : AblationMode} {scenarios : List Scenario}
variable {attempt : Attempt} {resume : Bool} {dir : ResultsDir} {p : Plan}

/-- A stopped process has emptied some files, or none, and added to them. -/
theorem textAt_stopped (hplan : plan J mode scenarios resume dir = .ok p) (path : String) :
    textAt (stoppedMode J mode scenarios attempt resume dir) path =
      (if p.appends = false ∧ path ∈ (modeOutputPaths mode).take attempt.point then []
        else textAt dir path) ++
      charsTo path (((p.newRecords attempt.findings).flatMap
        (recordOps J (modeOutputPaths mode))).take
          (attempt.point - (modeOutputPaths mode).length)) := by
  have hwrites : ∀ op ∈ ((p.newRecords attempt.findings).flatMap
      (recordOps J (modeOutputPaths mode))).take (attempt.point - (modeOutputPaths mode).length),
      ∃ target c, op = .write target c := by
    intro op hop
    obtain ⟨record, _, hmem⟩ := List.mem_flatMap.mp (List.mem_of_mem_take hop)
    exact recordOps_writes hmem
  rw [stoppedMode, hplan]
  simp only [Plan.ops, List.take_append, List.length_map, List.foldl_append]
  rw [textAt_writes hwrites, textAt_opened]

/-- A process that does not empty files with something in them adds to every file. -/
theorem textAt_added (hplan : plan J mode scenarios resume dir = .ok p)
    (hfresh : p.appends = false → ∀ path ∈ modeOutputPaths mode, textAt dir path = [])
    (path : String) :
    textAt (stoppedMode J mode scenarios attempt resume dir) path = textAt dir path ++
      charsTo path (((p.newRecords attempt.findings).flatMap
        (recordOps J (modeOutputPaths mode))).take
          (attempt.point - (modeOutputPaths mode).length)) := by
  rw [textAt_stopped hplan]
  split
  · rename_i hemptied
    rw [hfresh hemptied.1 path (List.mem_of_mem_take hemptied.2)]
  · rfl

end Stopped

section Cuts

variable {J : Codec Entries}

/-- The writes of these records to both files. -/
def suiteOps (J : Codec Entries) (records : List Entries) : List FileOp :=
  records.flatMap (recordOps J (modeOutputPaths .full))

/-- The ends of the two files, with the records still to write, that leave neither of
them behind the other. -/
inductive Harmless (J : Codec Entries) : List Entries → List Char → List Char → Prop
  | between {rest : List Entries} : Harmless J rest [] []
  | begun {record : Entries} {rest : List Entries} {text : List Char}
      (hstarts : text <+: J.dumps record) (hne : text ≠ []) (hshort : text ≠ J.dumps record) :
      Harmless J (record :: rest) text []
  | last {record : Entries} : Harmless J [record] (J.line record) (J.dumps record)

/-- The ends at which the first file shows a record that the second one lacks, or whose line
in the second one the next record runs into. -/
inductive Harmful (J : Codec Entries) : List Entries → List Char → List Char → Prop
  | unended {record : Entries} {rest : List Entries} :
      Harmful J (record :: rest) (J.dumps record) []
  | missed {record : Entries} {rest : List Entries} {text : List Char}
      (hstarts : text <+: J.dumps record) (hshort : text ≠ J.dumps record) :
      Harmful J (record :: rest) (J.line record) text
  | unclosed {record next : Entries} {rest : List Entries} :
      Harmful J (record :: next :: rest) (J.line record) (J.dumps record)

theorem modeOutputPaths_full : modeOutputPaths .full = ["runs_full.jsonl", "runs.jsonl"] := by
  decide

theorem length_line (record : Entries) :
    (J.line record).length = (J.dumps record).length + 1 := by
  rw [Codec.line, List.length_append, List.length_singleton]

theorem suiteOps_cons (record : Entries) (rest : List Entries) :
    suiteOps J (record :: rest) = (J.line record).map (.write "runs_full.jsonl") ++
      ((J.line record).map (.write "runs.jsonl") ++ suiteOps J rest) := by
  rw [suiteOps, List.flatMap_cons, recordOps, modeOutputPaths_full]
  simp [suiteOps, modeOutputPaths_full]

theorem primary_ne_copy : "runs_full.jsonl" ≠ "runs.jsonl" := by decide

/-- Every record goes to both files. -/
theorem charsTo_all (records : List Entries) :
    charsTo "runs_full.jsonl" (suiteOps J records) = J.written records ∧
      charsTo "runs.jsonl" (suiteOps J records) = J.written records := by
  induction records with
  | nil => exact ⟨rfl, rfl⟩
  | cons record rest ih =>
    obtain ⟨hprimary, hcopy⟩ := ih
    rw [suiteOps_cons]
    simp only [charsTo_append, charsTo_self, charsTo_other primary_ne_copy,
      charsTo_other primary_ne_copy.symm, List.nil_append, hprimary, hcopy]
    exact ⟨rfl, rfl⟩

/-- The first writes go to the first file, the next ones to the second file. -/
theorem charsTo_record (record : Entries) (rest : List Entries) (point : Nat) :
    charsTo "runs_full.jsonl" ((suiteOps J (record :: rest)).take point) =
        (J.line record).take point ++ charsTo "runs_full.jsonl"
          ((suiteOps J rest).take (point - 2 * ((J.dumps record).length + 1))) ∧
      charsTo "runs.jsonl" ((suiteOps J (record :: rest)).take point) =
        (J.line record).take (point - ((J.dumps record).length + 1)) ++ charsTo "runs.jsonl"
          ((suiteOps J rest).take (point - 2 * ((J.dumps record).length + 1))) := by
  have hpoint : point - ((J.dumps record).length + 1) - ((J.dumps record).length + 1) =
      point - 2 * ((J.dumps record).length + 1) := by
    omega
  rw [suiteOps_cons, List.take_append, List.take_append, List.length_map, List.length_map,
    length_line, hpoint, ← List.map_take, ← List.map_take]
  simp only [charsTo_append, charsTo_self, charsTo_other primary_ne_copy,
    charsTo_other primary_ne_copy.symm, List.nil_append, and_self]

theorem take_line {record : Entries} {n : Nat} (h : n ≤ (J.dumps record).length) :
    (J.line record).take n = (J.dumps record).take n :=
  List.take_append_of_le_length h

theorem take_ne_dumps {record : Entries} {n : Nat} (h : n < (J.dumps record).length) :
    (J.dumps record).take n ≠ J.dumps record := by
  intro hsame
  have hlength := congrArg List.length hsame
  rw [List.length_take] at hlength
  omega

/-- Stopping inside the two lines of a record. -/
theorem cut_record (record : Entries) (rest : List Entries) {point : Nat}
    (h : point < 2 * ((J.dumps record).length + 1)) :
    (Spared J (record :: rest) point ∧ Harmless J (record :: rest) ((J.line record).take point)
        ((J.line record).take (point - ((J.dumps record).length + 1)))) ∨
      (¬ Spared J (record :: rest) point ∧ Harmful J (record :: rest)
        ((J.line record).take point)
        ((J.line record).take (point - ((J.dumps record).length + 1)))) := by
  have hlength := length_line (J := J) record
  simp only [Spared]
  rcases Nat.lt_trichotomy point (J.dumps record).length with hshort | hexact | hlong
  · -- inside the text in the first file
    have hnone : point - ((J.dumps record).length + 1) = 0 := by omega
    refine Or.inl ⟨Or.inl hshort, ?_⟩
    rw [hnone, take_line hshort.le, List.take_zero]
    by_cases hzero : point = 0
    · rw [hzero, List.take_zero]
      exact .between
    · refine .begun (List.take_prefix _ _) ?_ (take_ne_dumps hshort)
      intro hempty
      rcases List.take_eq_nil_iff.mp hempty with h | h
      · exact hzero h
      · exact Codec.dumps_ne_nil record h
  · -- the text is there, the end of its line is not
    have hnone : point - ((J.dumps record).length + 1) = 0 := by omega
    refine Or.inr ⟨by omega, ?_⟩
    rw [hnone, take_line hexact.le, List.take_zero, hexact, List.take_length]
    exact .unended
  · -- inside the line in the second file
    rw [List.take_of_length_le (by omega : (J.line record).length ≤ point)]
    by_cases hwhole : point = 2 * (J.dumps record).length + 1
    · have hall : point - ((J.dumps record).length + 1) = (J.dumps record).length := by omega
      rw [hall, take_line le_rfl, List.take_length]
      cases rest with
      | nil => exact Or.inl ⟨Or.inr (Or.inl ⟨rfl, hwhole⟩), .last⟩
      | cons next rest =>
        refine Or.inr ⟨?_, .unclosed⟩
        rintro (h | ⟨h, _⟩ | ⟨h, _⟩)
        · omega
        · cases h
        · omega
    · have hpart : point - ((J.dumps record).length + 1) < (J.dumps record).length := by omega
      rw [take_line hpart.le]
      exact Or.inr ⟨by omega, .missed (List.take_prefix _ _) (take_ne_dumps hpart)⟩

/-- Wherever a process stops, it has written some records whole to both files, and one of the
ends above. -/
theorem cut (records : List Entries) (point : Nat) :
    ∃ done rest u v, records = done ++ rest ∧
      charsTo "runs_full.jsonl" ((suiteOps J records).take point) = J.written done ++ u ∧
      charsTo "runs.jsonl" ((suiteOps J records).take point) = J.written done ++ v ∧
      ((Spared J records point ∧ Harmless J rest u v) ∨
        (¬ Spared J records point ∧ Harmful J rest u v)) := by
  induction records generalizing point with
  | nil => exact ⟨[], [], [], [], rfl, by simp [suiteOps, charsTo, Codec.written],
      by simp [suiteOps, charsTo, Codec.written], Or.inl ⟨trivial, .between⟩⟩
  | cons record rest ih =>
    obtain ⟨hprimary, hcopy⟩ := charsTo_record (J := J) record rest point
    have hlength := length_line (J := J) record
    rw [hprimary, hcopy]
    by_cases hwhole : 2 * ((J.dumps record).length + 1) ≤ point
    · obtain ⟨done, rest', u, v, hrest, hu, hv, htail⟩ :=
        ih (point - 2 * ((J.dumps record).length + 1))
      refine ⟨record :: done, rest', u, v, by rw [hrest, List.cons_append], ?_, ?_, ?_⟩
      · rw [List.take_of_length_le (by omega), hu, ← List.append_assoc]
        rfl
      · rw [List.take_of_length_le (by omega), hv, ← List.append_assoc]
        rfl
      · have hsame : Spared J (record :: rest) point ↔
            Spared J rest (point - 2 * ((J.dumps record).length + 1)) := by
          simp only [Spared]
          constructor
          · rintro (h | ⟨_, h⟩ | h)
            · omega
            · omega
            · exact h.2
          · exact fun h => Or.inr (Or.inr ⟨hwhole, h⟩)
        rw [hsame]
        exact htail
    · have hnone : point - 2 * ((J.dumps record).length + 1) = 0 := by omega
      refine ⟨[], record :: rest, _, _, rfl, ?_, ?_, cut_record record rest (by omega)⟩
      · simp [hnone, charsTo, Codec.written]
      · simp [hnone, charsTo, Codec.written]

end Cuts

end SuiteFiles
