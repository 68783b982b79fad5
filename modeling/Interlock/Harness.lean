import Interlock.SharedLog

/-!
# The evaluation harness

`run_scenario` starts a run, approves it each time it is suspended, and summarises it in
one record. The record's lists of actions are read back from the audit log, its tiers from
the state that the run ended in, and its drift verdict is folded over the resumptions.
-/

namespace Harness

open PythonValues Tools RunState Nodes Graph Transitions Walks
open PlanningCycle (Move)
open DecisionHonoured (anyone)
open AuditRecords RecordedVisits SharedLog

/-! ### The harness -/

inductive AblationMode where
  | full
  | noDurability
  | noRevalidation
  deriving DecidableEq, Repr

/-- The entries of a scenario that its record depends on. -/
structure Scenario where
  id : String
  category : String

/-- `build_graph(cp, revalidate=(mode != "no_revalidation"))`. -/
def runtime (digest : String → String) (mode : AblationMode) : Runtime where
  digest := digest
  revalidate := decide (mode ≠ .noRevalidation)

/-- `"__interrupt__" in result`. -/
def suspended (c : Config) : Bool := decide (c.next = some .awaitApproval)

/-- One `ainvoke` visits node after node until the run ends or is suspended. A script says
what the outside answers, and what happens to the sandbox meanwhile; `none` is a node that
raises, or a script for another run. -/
def ainvoke (rt : Runtime) : List Move → Config → Option (List Visit × Config)
  | [], c => if c.next = none ∨ suspended c = true then some ([], c) else none
  | .answer answers :: rest, c =>
    match c.next, (step rt answers c).1 with
    | some node, .ok c' =>
      if node = .awaitApproval then none
      else (ainvoke rt rest c').map fun (vs, d) =>
        (⟨node, answers, c.state, c.world, c'.state, c'.world⟩ :: vs, d)
    | _, _ => none
  | .change f :: rest, c => ainvoke rt rest { c with world := f c.world }

/-- `{"decision": "approved", "approver_id": approver_id}`. -/
def harnessDecision (approverId : String) : Json :=
  .obj [("decision", .str "approved"), ("approver_id", .str approverId)]

/-- A suspension: what happens to the sandbox while the harness waits, the staleness changes
of the scenario among it, and the script from the approval on. -/
structure Wait where
  meanwhile : ToolContext → ToolContext := id
  clock : String := ""
  moves : List Move

/-- `bool(drift_detected_overall) or bool(result["drift_detected"])`, if there is one. -/
def foldDrift (overall : Option Bool) (result : AgentState) : Option Bool :=
  match result.driftDetected with
  | some drift => some (overall.getD false || drift.truthy)
  | none => overall

/-- `while "__interrupt__" in result`. -/
def resumeSuspended (rt : Runtime) (approverId : String) :
    List Wait → Config → Option Bool → Option (List Visit × Config × Option Bool)
  | [], c, overall => if suspended c = true then none else some ([], c, overall)
  | wait :: rest, c, overall =>
    let world := wait.meanwhile c.world
    let answers : Answers := { decision := harnessDecision approverId, clock := wait.clock }
    match decide (c.next = some .awaitApproval), (step rt answers { c with world := world }).1 with
    | true, .ok c' => do
      let (vs, result) ← ainvoke rt wait.moves c'
      let (later, d, total) ←
        resumeSuspended rt approverId rest result (foldDrift overall result.state)
      some (⟨.awaitApproval, answers, c.state, world, c'.state, c'.world⟩ :: (vs ++ later), d,
        total)
    | _, _ => none

/-- What `run_scenario` returns, but for its timings and its token counts. -/
structure RunRecord where
  runId : String
  scenarioId : String
  ablationMode : AblationMode
  finalState : Option Json
  proposedActions : List (Option String)
  riskTierLlm : Option String
  riskTierFinal : Option Json
  redundancyFloorApplied : Option Bool
  revalidationTriggered : Bool
  driftDetected : Option Bool
  stalenessInjectionApplied : Bool
  executedActions : List (Option String)
  verificationPassed : Option Json
  rollbackInvoked : Bool
  replanCycles : Json
  auditRecords : List AuditRecord

def recordsTo (s : State) (auditRecords : List AuditRecord) : List AuditRecord :=
  auditRecords.filter fun rec => decide (rec.toState = some s.value)

def runRecord (scenario : Scenario) (mode : AblationMode) (runId : String)
    (firstSuspension : Bool) (driftDetectedOverall : Option Bool) (result : AgentState)
    (auditRecords : List AuditRecord) : RunRecord where
  runId := runId
  scenarioId := scenario.id
  ablationMode := mode
  finalState := if result.finalState.any Json.truthy then result.finalState else result.status
  proposedActions := (recordsTo .actionProposed auditRecords).map (·.actionProposed)
  riskTierLlm := result.riskTierLlm
  riskTierFinal := result.riskTierFinal
  redundancyFloorApplied := result.redundancyFloorApplied
  revalidationTriggered := decide (mode ≠ .noRevalidation) && firstSuspension
  driftDetected := driftDetectedOverall
  stalenessInjectionApplied := firstSuspension && decide (scenario.category = "staleness")
  executedActions := ((recordsTo .verifying auditRecords).map (·.actionProposed)).filter
    fun action => action.any (· ≠ "")
  verificationPassed := result.verificationPassed
  rollbackInvoked := auditRecords.any fun rec => decide (rec.toState = some State.rollingBack.value)
  replanCycles := result.replanCycles.getD (.int 0)
  auditRecords := auditRecords

/-- `run_scenario` over a sandbox with its fault injected: the visits of the run, and the
record. -/
def runScenario (digest : String → String) (scenario : Scenario) (mode : AblationMode)
    (approverId runId : String) (world : ToolContext) (moves : List Move) (waits : List Wait) :
    Option (List Visit × RunRecord) := do
  let (first, c) ← ainvoke (runtime digest mode) moves (startWorkflow runId {} world)
  let (later, d, overall) ← resumeSuspended (runtime digest mode) approverId waits c none
  some (first ++ later, runRecord scenario mode runId (suspended c) overall d.state
    (getRun runId d.audit))

/-! ### A scenario's run is a run -/

section Inversion

variable {rt : Runtime} {moves : List Move} {c d : Config} {vs : List Visit}

theorem ainvoke_nil (h : ainvoke rt [] c = some (vs, d)) :
    vs = [] ∧ d = c ∧ (c.next = none ∨ suspended c = true) := by
  rw [ainvoke] at h
  split at h
  · rename_i hreturns
    cases h
    exact ⟨rfl, rfl, hreturns⟩
  · cases h

theorem ainvoke_answer {answers : Answers}
    (h : ainvoke rt (.answer answers :: moves) c = some (vs, d)) :
    ∃ node c' later, c.next = some node ∧ node ≠ .awaitApproval ∧ (step rt answers c).1 = .ok c' ∧
      ainvoke rt moves c' = some (later, d) ∧
      vs = ⟨node, answers, c.state, c.world, c'.state, c'.world⟩ :: later := by
  rw [ainvoke] at h
  split at h
  · rename_i node c' hnext hstep
    split at h
    · cases h
    · rename_i hnode
      obtain ⟨⟨later, d'⟩, hrest, heq⟩ := Option.map_eq_some_iff.mp h
      cases heq
      exact ⟨node, c', later, hnext, hnode, hstep, hrest, rfl⟩
  · cases h

theorem resumeSuspended_nil {approverId : String} {overall total : Option Bool}
    (h : resumeSuspended rt approverId [] c overall = some (vs, d, total)) :
    vs = [] ∧ d = c ∧ total = overall ∧ suspended c = false := by
  rw [resumeSuspended] at h
  split at h
  · cases h
  · rename_i hreturns
    cases h
    exact ⟨rfl, rfl, rfl, Bool.eq_false_iff.mpr hreturns⟩

/-- A resumption: the visit to `await_approval`, the rest of its `ainvoke`, and what follows. -/
theorem resumeSuspended_cons {approverId : String} {wait : Wait} {rest : List Wait}
    {overall total : Option Bool}
    (h : resumeSuspended rt approverId (wait :: rest) c overall = some (vs, d, total)) :
    ∃ v c' mid result later, v.node = .awaitApproval ∧
      v.answers.decision = harnessDecision approverId ∧ v.Led rt c'.next ∧
      c'.state = v.after ∧ v.before = c.state ∧
      (∀ {a past}, Trace (system rt anyone) a past c →
        ∃ past', Trace (system rt anyone) a past' c' ∧ visits past' = v :: visits past) ∧
      ainvoke rt wait.moves c' = some (mid, result) ∧
      resumeSuspended rt approverId rest result (foldDrift overall result.state) =
        some (later, d, total) ∧
      vs = v :: (mid ++ later) := by
  rw [resumeSuspended] at h
  split at h
  · rename_i c' hnext hstep
    obtain ⟨⟨mid, result⟩, hmid, h⟩ := Option.bind_eq_some_iff.mp h
    obtain ⟨⟨later, d', total'⟩, hlater, h⟩ := Option.bind_eq_some_iff.mp h
    cases h
    have hwaiting : { c with world := wait.meanwhile c.world }.next = some .awaitApproval :=
      of_decide_eq_true hnext
    have hled := step_ok hwaiting hstep
    refine ⟨_, c', mid, result, later, rfl, rfl, hled, rfl, rfl, ?_, hmid, hlater, rfl⟩
    intro a past run
    have hwaited : Trace (system rt anyone) a (.others c.world (wait.meanwhile c.world) :: past)
        { c with world := wait.meanwhile c.world } := run.snoc (.others trivial)
    exact ⟨_, hwaited.snoc (.visit hwaiting hstep), rfl⟩
  · cases h

theorem ainvoke_run {a : Config} {past : List Event} (run : Trace (system rt anyone) a past c)
    (h : ainvoke rt moves c = some (vs, d)) :
    ∃ past', Trace (system rt anyone) a past' d ∧ visits past' = vs.reverse ++ visits past := by
  induction moves generalizing c vs past with
  | nil =>
    obtain ⟨rfl, rfl, _⟩ := ainvoke_nil h
    exact ⟨past, run, rfl⟩
  | cons m rest ih =>
    cases m with
    | answer answers =>
      obtain ⟨node, c', later, hnext, _, hstep, hrest, rfl⟩ := ainvoke_answer h
      obtain ⟨past', run', hvisits⟩ := ih (run.snoc (.visit hnext hstep)) hrest
      refine ⟨past', run', ?_⟩
      rw [hvisits, List.reverse_cons, List.append_assoc]
      rfl
    | change f =>
      rw [ainvoke] at h
      obtain ⟨past', run', hvisits⟩ := ih (run.snoc (.others trivial)) h
      exact ⟨past', run', hvisits⟩

theorem resumeSuspended_run {approverId : String} {waits : List Wait} {overall total : Option Bool}
    {a : Config} {past : List Event} (run : Trace (system rt anyone) a past c)
    (h : resumeSuspended rt approverId waits c overall = some (vs, d, total)) :
    ∃ past', Trace (system rt anyone) a past' d ∧ visits past' = vs.reverse ++ visits past := by
  induction waits generalizing c vs past overall with
  | nil =>
    obtain ⟨rfl, rfl, _⟩ := resumeSuspended_nil h
    exact ⟨past, run, rfl⟩
  | cons wait rest ih =>
    obtain ⟨v, c', mid, result, later, _, _, _, _, _, hrun, hmid, hlater, rfl⟩ :=
      resumeSuspended_cons h
    obtain ⟨past₁, run₁, hvisits₁⟩ := hrun run
    obtain ⟨past₂, run₂, hvisits₂⟩ := ainvoke_run run₁ hmid
    obtain ⟨past₃, run₃, hvisits₃⟩ := ih run₂ hlater
    refine ⟨past₃, run₃, ?_⟩
    rw [hvisits₃, hvisits₂, hvisits₁]
    simp

/-- An `ainvoke` returns when the run has ended or is suspended. -/
theorem ainvoke_returns (h : ainvoke rt moves c = some (vs, d)) :
    d.next = none ∨ suspended d = true := by
  induction moves generalizing c vs with
  | nil =>
    obtain ⟨rfl, rfl, hreturns⟩ := ainvoke_nil h
    exact hreturns
  | cons m rest ih =>
    cases m with
    | answer answers =>
      obtain ⟨_, _, _, _, _, _, hrest, _⟩ := ainvoke_answer h
      exact ih hrest
    | change f =>
      rw [ainvoke] at h
      exact ih h

theorem resumeSuspended_returns {approverId : String} {waits : List Wait}
    {overall total : Option Bool} (hc : c.next = none ∨ suspended c = true)
    (h : resumeSuspended rt approverId waits c overall = some (vs, d, total)) : d.next = none := by
  induction waits generalizing c vs overall with
  | nil =>
    obtain ⟨rfl, rfl, _, hreturns⟩ := resumeSuspended_nil h
    exact hc.resolve_right (by simp [hreturns])
  | cons wait rest ih =>
    obtain ⟨_, _, _, _, _, _, _, _, _, _, _, hmid, hlater, _⟩ := resumeSuspended_cons h
    exact ih (ainvoke_returns hmid) hlater

end Inversion

/-- What a record of the harness is made from: a run that has ended, and its audit log. -/
structure Returned (digest : String → String) (scenario : Scenario) (mode : AblationMode)
    (runId : String) (world : ToolContext) (vs : List Visit) (record : RunRecord)
    (past : List Event) (d : Config) : Prop where
  run : Run (runtime digest mode) anyone runId {} world past d
  ended : d.next = none
  visits_eq : visits past = vs.reverse
  record_eq : ∃ firstSuspension overall,
    record = runRecord scenario mode runId firstSuspension overall d.state (getRun runId d.audit)

theorem returned_of_runScenario {digest : String → String} {scenario : Scenario}
    {mode : AblationMode} {approverId runId : String} {world : ToolContext} {moves : List Move}
    {waits : List Wait} {vs : List Visit} {record : RunRecord}
    (h : runScenario digest scenario mode approverId runId world moves waits = some (vs, record)) :
    ∃ past d, Returned digest scenario mode runId world vs record past d := by
  obtain ⟨⟨first, c⟩, hfirst, h⟩ := Option.bind_eq_some_iff.mp h
  obtain ⟨⟨later, d, overall⟩, hlater, h⟩ := Option.bind_eq_some_iff.mp h
  cases h
  obtain ⟨past₁, run₁, hvisits₁⟩ := ainvoke_run .start hfirst
  obtain ⟨past, run, hvisits⟩ := resumeSuspended_run run₁ hlater
  refine ⟨past, d, run, resumeSuspended_returns (ainvoke_returns hfirst) hlater, ?_, _, _, rfl⟩
  rw [hvisits, hvisits₁]
  simp [visits]

/-! ### Reading the log -/

/-- The status right after a visit; `await_approval` is only entered with its own. -/
def statusShown (node : Node) : State := (statusWritten node).getD .awaitingApproval

theorem value_injective : Function.Injective State.value := by
  intro s t h
  cases s <;> cases t <;> first | rfl | exact absurd h (by decide)

/-- What the records of a run are recognised by, after the visits `vs`. -/
structure Legible (runId : String) (vs : List Visit) (s : AgentState) (next : Option Node) :
    Prop where
  ownId : s.runId = some (.str runId)
  waiting : next = some .awaitApproval → s.status = some (.str State.awaitingApproval.value)
  ids : ∀ v ∈ vs, v.after.runId = some (.str runId)
  statuses : ∀ v ∈ vs, v.after.status = some (.str (statusShown v.node).value)

section Log

variable {rt : Runtime} {others : ToolContext → ToolContext → Prop} {runId : String}
variable {initialState : AgentState} {world : ToolContext} {past : List Event} {c : Config}
variable {v : Visit} {vs : List Visit} {next : Option Node} {log : List AuditRecord} {s : State}

theorem marked_before_waiting (h : v.Led rt (some .awaitApproval)) :
    v.node = .markAwaitingApproval := by
  have hedge := led_edge h
  generalize v.node = n at hedge ⊢
  cases hedge
  rfl

theorem legible_visit (h : Legible runId vs v.before (some v.node)) (hled : v.Led rt next) :
    Legible runId (v :: vs) v.after next := by
  have hid : v.after.runId = some (.str runId) := (led_kept hled).runId.trans h.ownId
  have hstatus : v.after.status = some (.str (statusShown v.node).value) := by
    rcases led_status hled with ⟨t, hwritten, ht⟩ | ⟨hawait, hkept⟩
    · rw [ht, statusShown, hwritten]
      rfl
    · rw [hkept, h.waiting (by rw [hawait]), hawait]
      rfl
  refine ⟨hid, ?_, ?_, ?_⟩
  · rintro rfl
    rw [hstatus, marked_before_waiting hled]
    rfl
  · exact List.forall_mem_cons.mpr ⟨hid, h.ids⟩
  · exact List.forall_mem_cons.mpr ⟨hstatus, h.statuses⟩

theorem run_legible (hid : initialState.runId.getD (.str runId) = .str runId)
    (run : Run rt others runId initialState world past c) :
    Legible runId (visits past) c.state c.next := by
  induction run with
  | start =>
    refine ⟨congrArg some hid, ?_, ?_, ?_⟩
    · exact fun h => nomatch h
    · exact fun _ h => nomatch h
    · exact fun _ h => nomatch h
  | snoc _ hs ih =>
    cases hs with
    | others _ => exact ih
    | visit hnext hstep =>
      rw [hnext] at ih
      exact legible_visit ih (step_ok hnext hstep)

theorem toState_iff {record : AuditRecord} (h : Tells record v)
    (hstatus : v.after.status = some (.str (statusShown v.node).value)) :
    record.toState = some s.value ↔ statusShown v.node = s := by
  rw [shown_iff h.toState, hstatus, Option.some.injEq, Json.str.injEq]
  exact value_injective.eq_iff

theorem recordsTo_tells (h : List.Forall₂ Tells log vs)
    (hstatus : ∀ v ∈ vs, v.after.status = some (.str (statusShown v.node).value)) :
    List.Forall₂ Tells (recordsTo s log)
      (vs.filter fun v => decide (statusShown v.node = s)) := by
  induction h with
  | nil => exact .nil
  | @cons record v _ _ hv _ ih =>
    obtain ⟨hfirst, hrest⟩ := List.forall_mem_cons.mp hstatus
    have hiff := toState_iff (s := s) hv hfirst
    by_cases hs : statusShown v.node = s
    · rw [recordsTo, List.filter_cons_of_pos (by simp [hiff, hs]),
        List.filter_cons_of_pos (by simp [hs])]
      exact .cons hv (ih hrest)
    · rw [recordsTo, List.filter_cons_of_neg (by simp [hiff, hs]),
        List.filter_cons_of_neg (by simp [hs])]
      exact ih hrest

theorem getRun_own (h : List.Forall₂ Tells log vs)
    (hids : ∀ v ∈ vs, v.after.runId = some (.str runId)) : getRun runId log = log := by
  induction h with
  | nil => rfl
  | cons hv _ ih =>
    obtain ⟨hfirst, hrest⟩ := List.forall_mem_cons.mp hids
    have hid := hv.runId
    rw [hfirst, Option.some.injEq, Json.str.injEq] at hid
    rw [getRun, List.filter_cons_of_pos (by simp [hid])]
    exact congrArg _ (ih hrest)

end Log

/-- The records of the run that the harness summarises are those of its visits. -/
theorem Returned.tells {digest : String → String} {scenario : Scenario} {mode : AblationMode}
    {runId : String} {world : ToolContext} {vs : List Visit} {record : RunRecord}
    {past : List Event} {d : Config}
    (h : Returned digest scenario mode runId world vs record past d) :
    getRun runId d.audit = d.audit ∧ ∀ s, List.Forall₂ Tells (recordsTo s d.audit)
      (vs.filter fun v => decide (statusShown v.node = s)) := by
  have hlegible := run_legible rfl h.run
  have htold := (run_recorded h.run).told
  rw [h.visits_eq, List.reverse_reverse] at htold
  have hvs : ∀ v, v ∈ visits past ↔ v ∈ vs := fun v => by rw [h.visits_eq, List.mem_reverse]
  refine ⟨getRun_own htold ?_, fun s => recordsTo_tells htold ?_⟩
  · exact fun v hv => hlegible.ids v ((hvs v).mpr hv)
  · exact fun v hv => hlegible.statuses v ((hvs v).mpr hv)

end Harness
