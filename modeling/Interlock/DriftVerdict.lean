import Interlock.Harness

/-!
# The verdict of the harness

After each resumption the harness folds a field of the state into its verdict on drift. The
field is sticky: a resumption without a revalidation repeats the last report, and a clean
revalidation overwrites an earlier one. What was executed is read back from the records of
`verify`, and a rollback from those of `rolling_back`.
-/

namespace DriftVerdict

open PythonValues Tools DiagnosticSweep Execution RunState Nodes Graph Transitions Walks
open PlanningCycle (Move)
open RecordedVisits Harness
open DecisionHonoured (splitColon_ne_empty)

/-- A revalidation that reported drift. -/
def Drifted (v : Visit) : Prop :=
  v.node = .revalidate ∧ v.after.driftDetected.any Json.truthy = true

/-- The verdicts of the record are those of the visits. -/
structure Exact (vs : List Visit) (record : RunRecord) : Prop where
  unchecked : record.driftDetected = none ↔ ∀ v ∈ vs, v.node ≠ .revalidate
  drifted : record.driftDetected = some true ↔ ∃ v ∈ vs, Drifted v
  steady : record.driftDetected = some false ↔
    (∃ v ∈ vs, v.node = .revalidate) ∧ ∀ v ∈ vs, ¬ Drifted v
  executed : record.executedActions.map (·.map Json.str) =
    (vs.filter fun v => decide (v.node = .execute)).map (·.before.proposedAction)
  rolledBack : record.rollbackInvoked = true ↔ ∃ v ∈ vs, v.node = .rollingBack

/-! ### The reports of a run -/

/-- The reports of all revalidations together; `none` if there was none. -/
def reports (vs : List Visit) : Option Bool :=
  if vs.any fun v => decide (v.node = .revalidate) then
    some (vs.any fun v => decide (v.node = .revalidate) && v.after.driftDetected.any Json.truthy)
  else none

theorem reports_append_none {vs us : List Visit} (h : ∀ u ∈ us, u.node ≠ .revalidate) :
    reports (vs ++ us) = reports vs := by
  have hnone : us.any (fun v => decide (v.node = .revalidate)) = false := by simpa using h
  have hclean : us.any (fun v => decide (v.node = .revalidate) &&
      v.after.driftDetected.any Json.truthy) = false := by
    simp only [List.any_eq_false, Bool.and_eq_true, decide_eq_true_eq, not_and]
    exact fun u hu hnode => absurd hnode (h u hu)
  simp only [reports, List.any_append, hnone, hclean, Bool.or_false]

theorem reports_append_report {vs : List Visit} {v : Visit} {b : Bool}
    (hnode : v.node = .revalidate) (hreport : v.after.driftDetected = some (.bool b)) :
    reports (vs ++ [v]) = some ((reports vs).getD false || b) := by
  have htruthy : v.after.driftDetected.any Json.truthy = b := by
    rw [hreport]
    rfl
  by_cases hvs : vs.any (fun v => decide (v.node = .revalidate)) = true
  · simp [reports, List.any_append, hvs, hnode, htruthy]
  · have hnone : ∀ u ∈ vs, u.node ≠ .revalidate := by simpa using hvs
    have hempty : reports vs = none := by rw [reports, if_neg hvs]
    have hclean : vs.any (fun v => decide (v.node = .revalidate) &&
        v.after.driftDetected.any Json.truthy) = false := by
      simp only [List.any_eq_false, Bool.and_eq_true, decide_eq_true_eq, not_and]
      exact fun u hu h => absurd h (hnone u hu)
    rw [hempty]
    simp [reports, List.any_append, hclean, hnode, htruthy]

section Reports

variable {rt : Runtime} {c d : Config} {vs : List Visit} {moves : List Move} {next : Option Node}

theorem approved_before_revalidate {v : Visit} (h : v.Led rt (some .revalidate)) :
    v.node = .awaitApproval := by
  have hedge := led_edge h
  generalize v.node = n at hedge ⊢
  cases hedge
  rfl

/-- Only the first visit after an approval revalidates. -/
theorem ainvoke_unchecked (hnext : c.next ≠ some .revalidate)
    (h : ainvoke rt moves c = some (vs, d)) :
    (∀ v ∈ vs, v.node ≠ .revalidate) ∧ d.state.driftDetected = c.state.driftDetected := by
  induction moves generalizing c vs with
  | nil =>
    obtain ⟨rfl, rfl, _⟩ := ainvoke_nil h
    exact ⟨fun _ hv => (List.not_mem_nil hv).elim, rfl⟩
  | cons m rest ih =>
    cases m with
    | answer answers =>
      obtain ⟨node, c', later, hnode, hawait, hstep, hrest, rfl⟩ := ainvoke_answer h
      have hled := step_ok hnode hstep
      have hother : node ≠ .revalidate := fun heq => hnext (by rw [hnode, heq])
      have hnext' : c'.next ≠ some .revalidate := by
        intro heq
        rw [heq] at hled
        exact hawait (approved_before_revalidate hled)
      obtain ⟨hlater, hkept⟩ := ih hnext' hrest
      exact ⟨List.forall_mem_cons.mpr ⟨hother, hlater⟩,
        hkept.trans ((led_marksKept hled).driftDetected hother)⟩
    | change f =>
      rw [ainvoke] at h
      exact ih (c := { c with world := f c.world }) hnext h

theorem ainvoke_checked (hnext : c.next = some .revalidate)
    (h : ainvoke rt moves c = some (vs, d)) :
    ∃ v us b, vs = v :: us ∧ v.node = .revalidate ∧ (∀ u ∈ us, u.node ≠ .revalidate) ∧
      v.after.driftDetected = some (.bool b) ∧ d.state.driftDetected = some (.bool b) := by
  induction moves generalizing c with
  | nil =>
    obtain ⟨_, _, hnone | hsuspended⟩ := ainvoke_nil h
    · rw [hnone] at hnext
      cases hnext
    · rw [suspended, hnext] at hsuspended
      exact absurd hsuspended (by decide)
  | cons m rest ih =>
    cases m with
    | answer answers =>
      obtain ⟨node, c', later, hnode, _, hstep, hrest, rfl⟩ := ainvoke_answer h
      have hrev : node = .revalidate := Option.some.inj (hnode.symm.trans hnext)
      subst hrev
      have hled := step_ok hnode hstep
      have hnext' : c'.next ≠ some .revalidate := by
        intro heq
        rw [heq] at hled
        cases approved_before_revalidate hled
      obtain ⟨hlater, hkept⟩ := ainvoke_unchecked hnext' hrest
      obtain ⟨_, _, _, _, _, _, _, _, _, hafter⟩ := led_revalidate hled rfl
      have hreport := congrArg AgentState.driftDetected hafter
      exact ⟨_, later, _, rfl, rfl, hlater, hreport, hkept.trans hreport⟩
    | change f =>
      rw [ainvoke] at h
      exact ih (c := { c with world := f c.world }) hnext h

/-- The harness has folded all reports up to a suspension, of which the state repeats the
last one. -/
structure Folded (vs : List Visit) (s : AgentState) (overall : Option Bool) : Prop where
  overall_eq : overall = reports vs
  repeated : ∀ j, s.driftDetected = some j →
    ∃ b, reports vs = some b ∧ (j.truthy = true → b = true)

theorem folded_unchecked {us : List Visit} {s t : AgentState} {overall : Option Bool}
    (h : Folded vs s overall) (hus : ∀ u ∈ us, u.node ≠ .revalidate)
    (hkept : t.driftDetected = s.driftDetected) : Folded (vs ++ us) t (foldDrift overall t) := by
  have hsame : reports (vs ++ us) = reports vs := reports_append_none hus
  have hrepeated : ∀ j, t.driftDetected = some j →
      ∃ b, reports (vs ++ us) = some b ∧ (j.truthy = true → b = true) := by
    intro j hj
    rw [hsame]
    exact h.repeated j (hkept.symm.trans hj)
  refine ⟨?_, hrepeated⟩
  rw [foldDrift]
  cases hdrift : t.driftDetected with
  | none => exact h.overall_eq.trans hsame.symm
  | some j =>
    obtain ⟨b, hb, htrue⟩ := hrepeated j hdrift
    rw [hb, h.overall_eq, ← hsame, hb]
    cases b with
    | true => rfl
    | false =>
      have hfalse : j.truthy = false := by
        by_contra hj
        exact absurd (htrue (by simpa using hj)) (by decide)
      simp [hfalse]

theorem folded_checked {u v : Visit} {us : List Visit} {s t : AgentState} {overall : Option Bool}
    {b : Bool} (h : Folded vs s overall) (hu : u.node ≠ .revalidate) (hv : v.node = .revalidate)
    (hus : ∀ u ∈ us, u.node ≠ .revalidate) (hreport : v.after.driftDetected = some (.bool b))
    (ht : t.driftDetected = some (.bool b)) :
    Folded (vs ++ u :: v :: us) t (foldDrift overall t) := by
  have hreports : reports (vs ++ u :: v :: us) = some ((reports vs).getD false || b) := by
    have hfirst : reports (vs ++ [u]) = reports vs :=
      reports_append_none (by simpa using hu)
    rw [show vs ++ u :: v :: us = vs ++ [u] ++ [v] ++ us by simp, reports_append_none hus,
      reports_append_report hv hreport, hfirst]
  constructor
  · rw [foldDrift, ht, hreports, h.overall_eq]
    rfl
  · intro j hj
    rw [ht] at hj
    cases hj
    refine ⟨_, hreports, ?_⟩
    intro hb
    rw [show b = true from hb, Bool.or_true]

theorem folded_of_resumeSuspended {approverId : String} {waits : List Wait}
    {overall total : Option Bool} {us : List Visit} (hfolded : Folded vs c.state overall)
    (h : resumeSuspended rt approverId waits c overall = some (us, d, total)) :
    Folded (vs ++ us) d.state total := by
  induction waits generalizing c vs us overall with
  | nil =>
    obtain ⟨rfl, rfl, rfl, _⟩ := resumeSuspended_nil h
    rw [List.append_nil]
    exact hfolded
  | cons wait rest ih =>
    obtain ⟨v, c', mid, result, later, hawait, _, hled, hstate, hbefore, _, hmid, hlater, rfl⟩ :=
      resumeSuspended_cons h
    have hv : v.node ≠ .revalidate := by
      rw [hawait]
      decide
    rw [show vs ++ v :: (mid ++ later) = vs ++ v :: mid ++ later by simp]
    refine ih ?_ hlater
    by_cases hnext : c'.next = some .revalidate
    · obtain ⟨r, tail, b, rfl, hr, htail, hreport, hresult⟩ := ainvoke_checked hnext hmid
      exact folded_checked hfolded hv hr htail hreport hresult
    · obtain ⟨hclean, hkept⟩ := ainvoke_unchecked hnext hmid
      refine folded_unchecked hfolded (List.forall_mem_cons.mpr ⟨hv, hclean⟩) ?_
      rw [hkept, hstate, (led_marksKept hled).driftDetected hv, hbefore]

end Reports

theorem reports_of_runScenario {digest : String → String} {scenario : Scenario}
    {mode : AblationMode} {approverId runId : String} {world : ToolContext} {moves : List Move}
    {waits : List Wait} {vs : List Visit} {record : RunRecord}
    (h : runScenario digest scenario mode approverId runId world moves waits = some (vs, record)) :
    record.driftDetected = reports vs := by
  obtain ⟨⟨first, c⟩, hfirst, h⟩ := Option.bind_eq_some_iff.mp h
  obtain ⟨⟨later, d, overall⟩, hlater, h⟩ := Option.bind_eq_some_iff.mp h
  cases h
  obtain ⟨hclean, hkept⟩ := ainvoke_unchecked (by simp [startWorkflow]) hfirst
  have hnone : reports first = none := by
    rw [← List.nil_append first, reports_append_none hclean]
    rfl
  have hfolded : Folded first c.state none := by
    refine ⟨hnone.symm, ?_⟩
    intro j hj
    rw [hkept] at hj
    cases hj
  exact (folded_of_resumeSuspended hfolded hlater).overall_eq

theorem reports_none_iff {vs : List Visit} :
    reports vs = none ↔ ∀ v ∈ vs, v.node ≠ .revalidate := by
  simp [reports]

theorem reports_true_iff {vs : List Visit} : reports vs = some true ↔ ∃ v ∈ vs, Drifted v := by
  simp only [reports, Option.ite_none_right_eq_some, Option.some.injEq, List.any_eq_true,
    Bool.and_eq_true, decide_eq_true_eq]
  constructor
  · rintro ⟨_, v, hv, hdrifted⟩
    exact ⟨v, hv, hdrifted⟩
  · rintro ⟨v, hv, hdrifted⟩
    exact ⟨⟨v, hv, hdrifted.1⟩, v, hv, hdrifted⟩

theorem reports_false_iff {vs : List Visit} :
    reports vs = some false ↔ (∃ v ∈ vs, v.node = .revalidate) ∧ ∀ v ∈ vs, ¬ Drifted v := by
  simp only [reports, Option.ite_none_right_eq_some, Option.some.injEq, List.any_eq_true,
    decide_eq_true_eq, List.any_eq_false, Bool.and_eq_true, Drifted]

/-! ### What the log says of executions -/

/-- The actions of the visits to a node, the latest first. -/
def actionsAt (node : Node) (vs : List Visit) : List (Option Json) :=
  (vs.filter fun v => decide (v.node = node)).map (·.before.proposedAction)

theorem actionsAt_cons (node : Node) (v : Visit) (vs : List Visit) :
    actionsAt node (v :: vs) =
      (if v.node = node then [v.before.proposedAction] else []) ++ actionsAt node vs := by
  by_cases h : v.node = node
  · simp [actionsAt, h]
  · simp [actionsAt, h]

/-- An execution that is not verified yet. -/
def unverified (s : AgentState) (next : Option Node) : List (Option Json) :=
  if next = some .verify then [s.proposedAction] else []

section Executions

variable {rt : Runtime} {others : ToolContext → ToolContext → Prop} {runId : String}
variable {initialState : AgentState} {world : ToolContext} {past : List Event} {c : Config}
variable {v : Visit} {vs : List Visit} {next : Option Node}

theorem executed_before_verify (h : v.Led rt (some .verify)) : v.node = .execute := by
  have hedge := led_edge h
  generalize v.node = n at hedge ⊢
  cases hedge
  rfl

theorem verify_after_execute (h : v.Led rt next) (hnode : v.node = .execute) :
    next = some .verify := by
  have hedge := led_edge h
  rw [hnode] at hedge
  cases hedge
  rfl

theorem executions_visit
    (h : actionsAt .execute vs = unverified v.before (some v.node) ++ actionsAt .verify vs)
    (hled : v.Led rt next) :
    actionsAt .execute (v :: vs) = unverified v.after next ++ actionsAt .verify (v :: vs) := by
  rw [actionsAt_cons, actionsAt_cons, h]
  by_cases hexecute : v.node = .execute
  · have hkept : v.after.proposedAction = v.before.proposedAction :=
      (led_kept hled).proposedAction (by simp [hexecute]) (by simp [hexecute])
    simp [unverified, hexecute, verify_after_execute hled hexecute, hkept]
  · have hnext : next ≠ some .verify := by
      rintro rfl
      exact hexecute (executed_before_verify hled)
    by_cases hverify : v.node = .verify
    · simp [unverified, hverify, hnext]
    · simp [unverified, hexecute, hverify, hnext]

theorem run_executions (run : Run rt others runId initialState world past c) :
    actionsAt .execute (visits past) =
      unverified c.state c.next ++ actionsAt .verify (visits past) := by
  induction run with
  | start => rfl
  | snoc _ hs ih =>
    cases hs with
    | others _ => exact ih
    | visit hnext hstep =>
      rw [hnext] at ih
      exact executions_visit ih (step_ok hnext hstep)

theorem verified_action (h : v.Led rt next) (hnode : v.node = .verify) :
    v.after.proposedAction = v.before.proposedAction ∧
      ∃ action, v.after.proposedAction = some (.str action) ∧ action ≠ "" := by
  obtain ⟨_, action, _, _, haction, _, hpassed, hafter⟩ := led_verify h hnode
  obtain ⟨_, hsplit, _⟩ := except_bind_ok_iff.mp hpassed
  rw [hafter]
  exact ⟨rfl, action, haction, splitColon_ne_empty hsplit⟩

/-- Every visit of a run has led somewhere. -/
theorem led_of_run (run : Run rt others runId initialState world past c) :
    ∀ v ∈ visits past, ∃ next, v.Led rt next := by
  induction run with
  | start => exact fun _ hv => nomatch hv
  | snoc _ hs ih =>
    cases hs with
    | others _ => exact ih
    | visit hnext hstep => exact List.forall_mem_cons.mpr ⟨⟨_, step_ok hnext hstep⟩, ih⟩

end Executions

theorem statusShown_verifying {node : Node} : statusShown node = .verifying ↔ node = .verify := by
  cases node <;> decide

theorem statusShown_rollingBack {node : Node} :
    statusShown node = .rollingBack ↔ node = .rollingBack := by
  cases node <;> decide

/-- Records of visits with an action show these actions. -/
theorem actions_shown {log : List Graph.AuditRecord} {us : List Visit}
    (h : List.Forall₂ Tells log us)
    (hstr : ∀ u ∈ us, ∃ action, u.after.proposedAction = some (.str action) ∧ action ≠ "") :
    ((log.map (·.actionProposed)).filter fun action => action.any (· ≠ "")).map
      (·.map Json.str) = us.map (·.after.proposedAction) := by
  induction h with
  | nil => rfl
  | cons hu _ ih =>
    obtain ⟨⟨action, haction, hne⟩, hrest⟩ := List.forall_mem_cons.mp hstr
    have hshown := (AuditRecords.shown_iff hu.action).mpr haction
    rw [List.map_cons, List.filter_cons_of_pos (by simp [hshown, hne]), List.map_cons, ih hrest,
      List.map_cons, haction, hshown]
    rfl

theorem reached_iff {s : State} {node : Node} {log : List Graph.AuditRecord} {vs : List Visit}
    (h : List.Forall₂ Tells (recordsTo s log) (vs.filter fun v => decide (v.node = node))) :
    (log.any fun rec => decide (rec.toState = some s.value)) = true ↔
      ∃ v ∈ vs, v.node = node := by
  have hlength := h.length_eq
  rw [List.any_eq_true]
  constructor
  · rintro ⟨rec, hrec⟩
    have hpos : 0 < (recordsTo s log).length := List.length_pos_of_mem (List.mem_filter.mpr hrec)
    rw [hlength] at hpos
    obtain ⟨v, hv⟩ := List.exists_mem_of_length_pos hpos
    obtain ⟨hv, hnode⟩ := List.mem_filter.mp hv
    exact ⟨v, hv, of_decide_eq_true hnode⟩
  · rintro ⟨v, hv, hnode⟩
    have hpos : 0 < (vs.filter fun v => decide (v.node = node)).length :=
      List.length_pos_of_mem (List.mem_filter.mpr ⟨hv, decide_eq_true hnode⟩)
    rw [← hlength] at hpos
    obtain ⟨rec, hrec⟩ := List.exists_mem_of_length_pos hpos
    exact ⟨rec, List.mem_filter.mp hrec⟩

/-- The verdict on drift, the executed actions and the rollbacks of a record are those of
the run, whatever the reasoner and the classifier answer. -/
theorem verdict_exact (digest : String → String) (scenario : Scenario) (mode : AblationMode)
    (approverId runId : String) (world : ToolContext) (moves : List Move) (waits : List Wait)
    {vs : List Visit} {record : RunRecord}
    (h : runScenario digest scenario mode approverId runId world moves waits = some (vs, record)) :
    Exact vs record := by
  have hdrift : record.driftDetected = reports vs := reports_of_runScenario h
  obtain ⟨past, d, hreturned⟩ := returned_of_runScenario h
  obtain ⟨hown, htells⟩ := hreturned.tells
  obtain ⟨firstSuspension, overall, rfl⟩ := hreturned.record_eq
  have hled : ∀ v ∈ vs, ∃ next, v.Led (runtime digest mode) next := by
    intro v hv
    exact led_of_run hreturned.run v (by rw [hreturned.visits_eq]; exact List.mem_reverse.mpr hv)
  refine ⟨?_, ?_, ?_, ?_, ?_⟩
  · rw [hdrift]
    exact reports_none_iff
  · rw [hdrift]
    exact reports_true_iff
  · rw [hdrift]
    exact reports_false_iff
  · have hrun := run_executions hreturned.run
    simp only [hreturned.visits_eq, hreturned.ended, unverified, actionsAt, List.filter_reverse,
      List.map_reverse, reduceCtorEq, if_false, List.nil_append, List.reverse_inj] at hrun
    have hverify := htells .verifying
    simp only [statusShown_verifying] at hverify
    have hactions : ∀ u ∈ vs.filter fun v => decide (v.node = .verify),
        u.after.proposedAction = u.before.proposedAction ∧
          ∃ action, u.after.proposedAction = some (.str action) ∧ action ≠ "" := by
      intro u hu
      obtain ⟨hmem, hnode⟩ := List.mem_filter.mp hu
      obtain ⟨next, hnext⟩ := hled u hmem
      exact verified_action hnext (of_decide_eq_true hnode)
    rw [hrun, ← List.map_congr_left fun u hu => (hactions u hu).1,
      ← actions_shown hverify fun u hu => (hactions u hu).2, runRecord, hown]
  · have hrolling := htells .rollingBack
    simp only [statusShown_rollingBack] at hrolling
    rw [runRecord, hown]
    exact reached_iff hrolling

/-- From a proposal to the suspension of the run. -/
def gatedMoves (tool target : String) : List Move :=
  [.answer { proposal := { tool := tool, target := target } },
    .answer { classification := { tier := "medium" } }, .answer {}]

/-- The sandbox drifts during the first suspension; the replanned restart is approved
undisturbed, and works. -/
def driftedThenClean : List Wait :=
  [{ meanwhile := injectFault "service_b" .memoryLeak .high
     moves := [.answer {}, .answer {}] ++ gatedMoves "restart_service" "service_b" },
    { moves := [.answer {}, .answer {}, .answer {}, .answer {}, .answer {}] }]

/-- A clean revalidation at the end does not erase the drift that was found before. -/
theorem drift_not_erased :
    ∃ vs record, runScenario id ⟨"s-1", "staleness"⟩ .full "eval-harness" "eval-1"
        (freshSandbox []) (.answer {} :: gatedMoves "scale_service" "service_b") driftedThenClean =
          some (vs, record) ∧
      (vs.filter fun v => decide (v.node = .revalidate)).map
        (fun v => v.after.driftDetected.any Json.truthy) = [true, false] ∧
      record.driftDetected = some true ∧
      record.executedActions = [some "restart_service:service_b"] ∧ Exact vs record := by
  have hplay : (runScenario id ⟨"s-1", "staleness"⟩ .full "eval-harness" "eval-1"
      (freshSandbox []) (.answer {} :: gatedMoves "scale_service" "service_b")
      driftedThenClean).any (fun t =>
        decide ((t.1.filter fun v => decide (v.node = .revalidate)).map
          (fun v => v.after.driftDetected.any Json.truthy) = [true, false]) &&
        decide (t.2.driftDetected = some true) &&
        decide (t.2.executedActions = [some "restart_service:service_b"])) = true := by
    decide +kernel
  obtain ⟨⟨vs, record⟩, hplay, hcheck⟩ := (Option.any_eq_true _ _).mp hplay
  simp only [Bool.and_eq_true, decide_eq_true_eq] at hcheck
  obtain ⟨⟨hreports, hdrift⟩, hexecuted⟩ := hcheck
  exact ⟨vs, record, hplay, hreports, hdrift, hexecuted, verdict_exact id ⟨"s-1", "staleness"⟩
    .full "eval-harness" "eval-1" (freshSandbox [])
    (.answer {} :: gatedMoves "scale_service" "service_b") driftedThenClean hplay⟩

end DriftVerdict
