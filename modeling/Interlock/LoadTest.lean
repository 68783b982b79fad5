import Interlock.BoundedGather
import Interlock.Harness
import Interlock.ReturningCalls
import Interlock.StalenessChanges

/-!
# The load test

Many runs over one sandbox, all of which propose to restart the same service and wait for
their reviewer, and are then approved in one burst. A semaphore lets a fixed number of them
in at a time, and which of these visits its next node is open.
-/

namespace LoadTest

open Dictionary PythonValues MockService RecordsTable Tools DiagnosticSweep Fingerprint RiskPolicy
open Execution RunState Nodes Graph NodeRuns Transitions BoundedGather
open Harness (harnessDecision)
open StalenessChanges (buildSandbox)
open Crashes (auditable_merge)
open Dispatching (executeAction_miss)
open Effects (performRestartService_ok_iff)

/-! ### The test -/

/-- `f"load-{i}"`. -/
def runId (i : ℕ) : String := "load-" ++ toString i

/-- What `_LoadTestReasoner` and `_LoadTestRiskClassifier` answer, and the decision of
`_resume_one`. -/
def answers (clock : String) : Answers where
  summary := "load-test stub diagnosis"
  proposal := {
    tool := "restart_service"
    target := "service_a"
    parameters := some (.obj [])
    rationale := "load-test stub" }
  classification := {
    tier := "medium"
    rationale := "load-test stub, always medium so every run suspends" }
  decision := harnessDecision "load-test"
  clock := clock

/-- One `ainvoke`, under way once it has visited a node. -/
structure Invocation where
  state : AgentState
  next : Option Node
  begun : Bool := false

/-- `"__interrupt__" in r`. -/
def Invocation.interrupted (t : Invocation) : Bool := decide (t.next = some .awaitApproval)

/-- `r.get("final_state") == "COMPLETED"`. -/
def Invocation.completed (t : Invocation) : Bool :=
  t.state.finalState.any fun final => final.isStr "COMPLETED"

/-- Each `ainvoke` visits node after node until its run is interrupted or has ended; the
clock of the log lines goes on meanwhile. -/
def invocations (digest : String → String) (n : ℕ) : Work (Fin n) Invocation ToolContext where
  act _ t w t' w' := ∃ clock now c',
    (step { digest := digest } (answers clock)
      { state := t.state, next := t.next, world := { w with now := now } }).1 = .ok c' ∧
    t' = ⟨c'.state, c'.next, true⟩ ∧ w' = c'.world
  finished t := t.begun && (decide (t.next = none) || t.interrupted)

/-- `start_workflow(graph, run_id, {}, context)`. -/
def started (n : ℕ) (i : Fin n) : Invocation where
  state := (startWorkflow (runId i) {} (buildSandbox .empty [])).state
  next := some .diagnose

/-- `resume_workflow(graph, run_id, ...)` of the run where its first call left it. -/
def resumed {n : ℕ} (p : Pool (Fin n) Invocation ToolContext) (i : Fin n) : Invocation where
  state := (p.task i).state
  next := (p.task i).next

/-- What `_run` reports, but for its timings and the memory it measures. -/
structure LoadTestReport where
  n : ℕ
  concurrency : ℕ
  allSuspended : Bool
  suspendedCount : ℕ
  stateIntact : Bool
  completedCount : ℕ
  deriving DecidableEq, Repr

def countOf {n : ℕ} (p : Pool (Fin n) Invocation ToolContext) (check : Invocation → Bool) : ℕ :=
  (Finset.univ.filter fun i => check (p.task i) = true).card

def report {n : ℕ} (concurrency : ℕ) (results burst : Pool (Fin n) Invocation ToolContext) :
    LoadTestReport :=
  let suspendedCount := countOf results Invocation.interrupted
  let completedCount := countOf burst Invocation.completed
  { n := n
    concurrency := concurrency
    allSuspended := decide (suspendedCount = n)
    suspendedCount := suspendedCount
    stateIntact := decide (completedCount = n)
    completedCount := completedCount }

/-- A load test that has returned: every run started and back, then every run resumed and
back. -/
structure Tested (digest : String → String) (n concurrency : ℕ) (seedRecords : List Row)
    (results burst : Pool (Fin n) Invocation ToolContext) : Prop where
  first : ∃ past, Trace (pool (invocations digest n) concurrency)
    (gather (started n) (buildSandbox .empty seedRecords)) past results
  suspended : results.Gathered
  second : ∃ past, Trace (pool (invocations digest n) concurrency)
    (gather (resumed results) results.world) past burst
  returned : burst.Gathered

/-- A load test that is under way, in its first burst or in its second one, and the number of
steps that it has taken. -/
inductive Underway (digest : String → String) (n concurrency : ℕ) (seedRecords : List Row) :
    ℕ → Pool (Fin n) Invocation ToolContext → Prop where
  | first {past : List (Label (Fin n))} {p : Pool (Fin n) Invocation ToolContext}
      (run : Trace (pool (invocations digest n) concurrency)
        (gather (started n) (buildSandbox .empty seedRecords)) past p) :
      Underway digest n concurrency seedRecords past.length p
  | second {past later : List (Label (Fin n))} {results p : Pool (Fin n) Invocation ToolContext}
      (first : Trace (pool (invocations digest n) concurrency)
        (gather (started n) (buildSandbox .empty seedRecords)) past results)
      (suspended : results.Gathered)
      (run : Trace (pool (invocations digest n) concurrency)
        (gather (resumed results) results.world) later p) :
      Underway digest n concurrency seedRecords (past.length + later.length) p

/-! ### The way of each run -/

/-- `"restart_service:service_a"`. -/
def action : String := "restart_service" ++ ":" ++ "service_a"

def key (i : ℕ) : String := idempotencyKey (runId i) action

/-- The node after a node, if nothing goes wrong. -/
def onward : Node → Option Node
  | .diagnose => some .proposeAction
  | .proposeAction => some .classifyRisk
  | .classifyRisk => some .markAwaitingApproval
  | .markAwaitingApproval => some .awaitApproval
  | .awaitApproval => some .revalidate
  | .revalidate => some .prepareExecution
  | .prepareExecution => some .execute
  | .execute => some .verify
  | .verify => some .completed
  | _ => none

/-- The nodes on the way. -/
def way : List Node :=
  [.diagnose, .proposeAction, .classifyRisk, .markAwaitingApproval, .awaitApproval, .revalidate,
    .prepareExecution, .execute, .verify, .completed]

/-- `service_a` after `k` restarts. -/
def restarted (k : ℕ) : ServiceState := { createApp "service_a" false with restartCount := k }

/-- What a sweep sees of `service_a`, however often it has been restarted. -/
def Calm (obs : Observations) : Prop :=
  ∃ o, obs.services.get? "service_a" = some o ∧ o.health.status = "healthy" ∧
    o.metrics.memoryPct = baselineMemoryPct ∧ o.metrics.cpuPct = baselineCpuPct ∧
    o.metrics.errorRate = baselineErrorRate

def calmFields : List (String × CanonicalJson.FieldValue) :=
  [("status", .str "healthy"), ("memory_pct", .float baselineMemoryPct),
    ("cpu_pct", .float baselineCpuPct), ("error_rate", .float baselineErrorRate)]

/-- The fingerprint that every run of the test is anchored to. -/
def anchor (digest : String → String) : String := digest (CanonicalJson.dumps calmFields)

/-- What run `i` holds in its state on its way to `next`. What is only held at other nodes
needs no proof. -/
structure Staged (digest : String → String) (i : ℕ) (s : AgentState) (next : Option Node) :
    Prop where
  onWay : ∀ node, next = some node → node ∈ way
  runId : s.runId = some (.str (runId i))
  auditable : Auditable s
  swept : next ≠ some .diagnose →
    (∃ obs, s.observations = some obs ∧ Calm obs) ∧ ∃ d, s.diagnosis = some d
  proposed : next ≠ some .diagnose → next ≠ some .proposeAction →
    s.proposedAction = some (.str action) ∧ s.actionParameters = some (.obj []) ∧
      s.invalidProposalReason = some none ∧ s.stateFingerprint = some (some (anchor digest))
  tier : next = some .markAwaitingApproval ∨ next = some .awaitApproval →
    s.riskTierFinal = some (.str "medium") := by simp [onward]
  key : next = some .execute → s.idempotencyKey = some (.str (key i)) := by simp [onward]
  result : next = some .verify → ∃ result, s.executionResult = some result := by simp [onward]
  ended : next = none → s.finalState = some (.str "COMPLETED") := by simp [onward]

section Sweeps

variable {digest : String → String} {w : ToolContext} {obs : Observations} {k : ℕ}

theorem status_restarted (k : ℕ) : (restarted k).status = .healthy := by
  norm_num [ServiceState.status, restarted, createApp, baselineErrorRate, unhealthyErrorRate,
    baselineMemoryPct, baselineCpuPct, unhealthyThreshold, degradedThreshold, degradedErrorRate]

theorem restart_restarted (k : ℕ) : (restarted k).restart = restarted (k + 1) := by
  simp [ServiceState.restart, ServiceState.clearTransient, restarted, createApp]

theorem calm_of_sweep (ha : w.clients.get? "service_a" = some (restarted k))
    (h : gatherObservations w = .ok obs) : Calm obs := by
  obtain ⟨o, ho, hget⟩ := (gather_service h "service_a").1 (by decide)
  obtain ⟨s, metrics, hs, hmetrics, _, rfl⟩ := observeService_ok ho
  rw [ha, Option.some.injEq] at hs
  subst hs
  cases hmetrics
  refine ⟨_, hget, ?_, rfl, rfl, rfl⟩
  rw [shown, status_restarted]
  rfl

theorem action_split : splitColon action = .ok ("restart_service", "service_a") := rfl

theorem valid_of_calm (h : Calm obs) : validateProposal obs action = .ok none := by
  obtain ⟨o, ho, _⟩ := h
  rw [validateProposal, action_split]
  simp only [bind, Except.bind, pure, Except.pure, ho]
  rfl

theorem fingerprint_of_calm (h : Calm obs) :
    computeFingerprint digest obs action = .ok (anchor digest) := by
  obtain ⟨o, ho, hstatus, hmemory, hcpu, herror⟩ := h
  refine computeFingerprint_ok_iff.mpr ⟨_, _, calmFields, action_split, ?_, rfl⟩
  rw [relevantFields, if_pos (Or.inl rfl), serviceFields_load ho, hstatus, hmemory, hcpu, herror]
  rfl

/-- Medium stays medium, whatever the situation. -/
theorem medium_kept (situational : Option Situation) :
    applyPolicy "restart_service" "medium" situational = "medium" := by
  cases situational with
  | none => rfl
  | some s => simp [applyPolicy, forcedHighTools]

end Sweeps

/-! ### One visit -/

/-- What restarts of `service_a` have made of the sandbox. -/
structure Restarts (k : ℕ) (w : ToolContext) : Prop where
  registered : Registered w
  target : w.clients.get? "service_a" = some (restarted k)

/-- The sandbox after the restart of run `i`. -/
def afterRestart (k : ℕ) (i : ℕ) (o : Outcome) (w : ToolContext) : ToolContext :=
  { w.setClient "service_a" (restarted (k + 1)) with
    store := w.store.setdefault (key i) ((ToolCall.restartService "service_a").entry o) }

/-- A node of the way returns, and leads on; only an execution changes the sandbox. -/
structure Goes (digest : String → String) (i k : ℕ) (clock : String) (node : Node) (s : AgentState)
    (w : ToolContext) (update : Update) (w' : ToolContext) : Prop where
  run : (nodeFn { digest := digest } (answers clock) node s).run w = (.ok update, w')
  approver : IsText (writtenApprover update) := by exact isText_none
  decision : IsText (writtenDecision update) := by exact isText_none
  route : nextNode { digest := digest } node (s.merge update) = .ok (onward node)
  staged : Staged digest i (s.merge update) (onward node)
  still : node ≠ .execute → w' = w := by simp
  restarts : node = .execute → ∃ o, w' = afterRestart k i o w := by simp

section Visits

variable {digest : String → String} {i k : ℕ} {s : AgentState} {w : ToolContext}

theorem diagnose_goes (clock : String) (h : Staged digest i s (some .diagnose))
    (hw : Restarts k w) : ∃ update w', Goes digest i k clock .diagnose s w update w' := by
  obtain ⟨obs, hobs⟩ := gather_ok hw.registered
  exact ⟨_, _, {
    run := diagnose_run hobs
    route := rfl
    staged := {
      onWay := by simp [onward, way]
      runId := h.runId
      auditable := auditable_merge h.auditable _
      swept := fun _ => ⟨⟨obs, rfl, calm_of_sweep hw.target hobs⟩, _, rfl⟩
      proposed := fun _ hnext => absurd rfl hnext } }⟩

theorem propose_goes (clock : String) (h : Staged digest i s (some .proposeAction)) :
    ∃ update w', Goes digest i k clock .proposeAction s w update w' := by
  obtain ⟨⟨obs, hobs, hcalm⟩, d, hd⟩ := h.swept (by simp)
  have hvalid : validateProposal obs (answers clock).proposal.action = .ok none :=
    valid_of_calm hcalm
  have hfingerprint : computeFingerprint digest obs action = .ok (anchor digest) :=
    fingerprint_of_calm hcalm
  have hanchor : anchorProposal { digest := digest } obs (answers clock).proposal.action none =
      .ok (some (anchor digest)) := by
    rw [anchorProposal]
    exact congrArg (Except.map some) hfingerprint
  exact ⟨_, _, {
    run := propose_run hobs rfl hvalid hanchor
    route := rfl
    staged := {
      onWay := by simp [onward, way]
      runId := h.runId
      auditable := auditable_merge h.auditable _
      swept := fun _ => ⟨⟨obs, hobs, hcalm⟩, d, hd⟩
      proposed := fun _ _ => ⟨rfl, rfl, rfl, rfl⟩ } }⟩

theorem classify_goes (clock : String) (h : Staged digest i s (some .classifyRisk)) :
    ∃ update w', Goes digest i k clock .classifyRisk s w update w' := by
  obtain ⟨⟨obs, hobs, hcalm⟩, d, hd⟩ := h.swept (by simp)
  obtain ⟨haction, hproposed⟩ := h.proposed (by simp) (by simp)
  obtain ⟨situational, hsituational⟩ := situationalFeatures_total obs action_split
  have htier : applyPolicy "restart_service" (answers clock).classification.tier situational =
      "medium" := medium_kept situational
  obtain ⟨applied, hrun⟩ := classify_run { digest := digest } (answers clock) w haction hobs
    action_split hsituational htier
  exact ⟨_, _, {
    run := hrun
    route := rfl
    staged := {
      onWay := by simp [onward, way]
      runId := h.runId
      auditable := auditable_merge h.auditable _
      swept := fun _ => ⟨⟨obs, hobs, hcalm⟩, d, hd⟩
      proposed := fun _ _ => ⟨haction, hproposed⟩
      tier := fun _ => rfl } }⟩

theorem mark_goes (clock : String) (h : Staged digest i s (some .markAwaitingApproval)) :
    ∃ update w', Goes digest i k clock .markAwaitingApproval s w update w' :=
  ⟨_, _, {
    run := rfl
    route := rfl
    staged := {
      onWay := by simp [onward, way]
      runId := h.runId
      auditable := auditable_merge h.auditable _
      swept := fun _ => h.swept (by simp)
      proposed := fun _ _ => h.proposed (by simp) (by simp)
      tier := fun _ => h.tier (Or.inl rfl) } }⟩

theorem await_goes (clock : String) (h : Staged digest i s (some .awaitApproval)) :
    ∃ update w', Goes digest i k clock .awaitApproval s w update w' := by
  obtain ⟨hswept, d, hd⟩ := h.swept (by simp)
  obtain ⟨haction, hproposed⟩ := h.proposed (by simp) (by simp)
  exact ⟨_, _, {
    run := await_run h.runId hd haction (h.tier (Or.inr rfl)) rfl rfl rfl
    approver := isText_str _
    decision := isText_str _
    route := rfl
    staged := {
      onWay := by simp [onward, way]
      runId := h.runId
      auditable := auditable_merge h.auditable _
      swept := fun _ => ⟨hswept, d, hd⟩
      proposed := fun _ _ => ⟨haction, hproposed⟩ } }⟩

/-- However often the service has been restarted since, it shows what it showed at the
proposal, so that nobody's approval has gone stale. -/
theorem revalidate_goes (clock : String) (h : Staged digest i s (some .revalidate))
    (hw : Restarts k w) : ∃ update w', Goes digest i k clock .revalidate s w update w' := by
  obtain ⟨_, hdiagnosis⟩ := h.swept (by simp)
  obtain ⟨haction, hparameters, hreason, hstored⟩ := h.proposed (by simp) (by simp)
  obtain ⟨obs, hobs⟩ := gather_ok hw.registered
  have hcalm := calm_of_sweep hw.target hobs
  exact ⟨_, _, {
    run := revalidate_run haction hobs (fingerprint_of_calm hcalm) hstored
    route := by rw [revalidate_route, if_pos rfl]; rfl
    staged := {
      onWay := by simp [onward, way]
      runId := h.runId
      auditable := auditable_merge h.auditable _
      swept := fun _ => ⟨⟨obs, rfl, hcalm⟩, hdiagnosis⟩
      proposed := fun _ _ => ⟨haction, hparameters, hreason, rfl⟩ } }⟩

theorem prepare_goes (clock : String) (h : Staged digest i s (some .prepareExecution)) :
    ∃ update w', Goes digest i k clock .prepareExecution s w update w' := by
  have hproposed := h.proposed (by simp) (by simp)
  exact ⟨_, _, {
    run := prepare_run h.runId hproposed.1
    route := rfl
    staged := {
      onWay := by simp [onward, way]
      runId := h.runId
      auditable := auditable_merge h.auditable _
      swept := fun _ => h.swept (by simp)
      proposed := fun _ _ => hproposed
      key := fun _ => rfl } }⟩

theorem execute_goes (clock : String) (h : Staged digest i s (some .execute))
    (hw : Restarts k w) (hfree : w.store.get? (key i) = none) :
    ∃ update w', Goes digest i k clock .execute s w update w' := by
  obtain ⟨haction, hparameters, hproposed⟩ := h.proposed (by simp) (by simp)
  have hcall : dispatch action (parametersOf s) = .ok (.restartService "service_a") := by
    rw [parametersOf, hparameters, dispatch, action_split]
    rfl
  obtain ⟨o, hperform⟩ : ∃ o, (ToolCall.restartService "service_a").perform.run w =
      (.ok o, w.setClient "service_a" (restarted (k + 1))) := by
    rw [← restart_restarted]
    exact ⟨_, performRestartService_ok_iff.mpr ⟨_, hw.target, rfl, rfl⟩⟩
  have hexecuted := executeAction_miss hcall hfree hperform
  exact ⟨_, _, {
    run := execute_run haction (h.key rfl) hexecuted
    route := rfl
    staged := {
      onWay := by simp [onward, way]
      runId := h.runId
      auditable := auditable_merge h.auditable _
      swept := fun _ => h.swept (by simp)
      proposed := fun _ _ => ⟨haction, hparameters, hproposed⟩
      result := fun _ => ⟨_, rfl⟩ }
    restarts := fun _ => ⟨_, rfl⟩ }⟩

theorem verify_goes (clock : String) (h : Staged digest i s (some .verify)) (hw : Restarts k w) :
    ∃ update w', Goes digest i k clock .verify s w update w' := by
  have hproposed := h.proposed (by simp) (by simp)
  obtain ⟨result, hresult⟩ := h.result rfl
  have hpassed : verifyAction w action result = .ok true := by
    rw [verifyAction_service action_split (by decide) hw.target, status_restarted]
    rfl
  exact ⟨_, _, {
    run := verify_run hproposed.1 hresult hpassed
    route := rfl
    staged := {
      onWay := by simp [onward, way]
      runId := h.runId
      auditable := auditable_merge h.auditable _
      swept := fun _ => h.swept (by simp)
      proposed := fun _ _ => hproposed } }⟩

theorem completed_goes (clock : String) (h : Staged digest i s (some .completed)) :
    ∃ update w', Goes digest i k clock .completed s w update w' :=
  ⟨_, _, {
    run := rfl
    route := rfl
    staged := {
      onWay := by simp [onward]
      runId := h.runId
      auditable := auditable_merge h.auditable _
      swept := fun _ => h.swept (by simp)
      proposed := fun _ _ => h.proposed (by simp) (by simp)
      ended := fun _ => rfl } }⟩

/-- A run on its way returns from its next node, and stays on its way. -/
theorem node_goes {node : Node} (clock : String) (h : Staged digest i s (some node))
    (hw : Restarts k w) (hfree : node = .execute → w.store.get? (key i) = none) :
    ∃ update w', Goes digest i k clock node s w update w' := by
  have hnode := h.onWay node rfl
  cases node with
  | diagnose => exact diagnose_goes clock h hw
  | proposeAction => exact propose_goes clock h
  | classifyRisk => exact classify_goes clock h
  | markAwaitingApproval => exact mark_goes clock h
  | awaitApproval => exact await_goes clock h
  | revalidate => exact revalidate_goes clock h hw
  | prepareExecution => exact prepare_goes clock h
  | execute => exact execute_goes clock h hw (hfree rfl)
  | verify => exact verify_goes clock h hw
  | completed => exact completed_goes clock h
  | _ => simp [way] at hnode

end Visits

/-! ### Both calls of every run -/

/-- The first call of a run enters at its first node, the second one where the run waits. -/
inductive Call where
  | start
  | resume

def Call.entry : Call → Node
  | start => .diagnose
  | resume => .awaitApproval

/-- Where a run can be during a call. -/
def Call.span : Call → List (Option Node)
  | start => [some .diagnose, some .proposeAction, some .classifyRisk, some .markAwaitingApproval,
      some .awaitApproval]
  | resume => [some .awaitApproval, some .revalidate, some .prepareExecution, some .execute,
      some .verify, some .completed, none]

def rankOf (next : Option Node) : ℕ := (next.map ReturningCalls.rank).getD 0

/-- The run has restarted the service. -/
def executed (next : Option Node) : Bool :=
  decide (next = some .verify) || decide (next = some .completed) || decide (next = none)

theorem rank_onward {node : Node} (h : node ∈ way) : rankOf (onward node) < rankOf (some node) := by
  cases node with
  | replan => simp [way] at h
  | rollingBack => simp [way] at h
  | rolledBack => simp [way] at h
  | escalate => simp [way] at h
  | _ => decide

/-- A visit does not lead out of a call before the run waits, nor back to its entry. -/
theorem span_onward {call : Call} {node : Node} (h : some node ∈ call.span)
    (hgoes : node = .awaitApproval → call = .resume) :
    onward node ∈ call.span ∧ onward node ≠ some call.entry := by
  cases call with
  | start => cases node with
    | awaitApproval => cases hgoes rfl
    | _ => simp_all [Call.span, Call.entry, onward]
  | resume => cases node with
    | _ => simp_all [Call.span, Call.entry, onward]

theorem executed_onward {node : Node} (h : node ∈ way) :
    executed (onward node) = (executed (some node) || decide (node = .execute)) := by
  cases node with
  | replan => simp [way] at h
  | rollingBack => simp [way] at h
  | rolledBack => simp [way] at h
  | escalate => simp [way] at h
  | _ => decide

theorem key_injective : Function.Injective key := by
  intro i j h
  rw [key, key, idempotencyKey, idempotencyKey, String.append_left_inj, String.append_left_inj,
    runId, runId, String.append_right_inj] at h
  exact Nat.repr_injective h

/-- How many runs have restarted the service. -/
def executions {n : ℕ} (task : Fin n → Invocation) : ℕ :=
  (Finset.univ.filter fun i => executed (task i).next = true).card

/-- What holds of all runs and the sandbox throughout a call. -/
structure Kept (digest : String → String) {n : ℕ} (seedRecords : List Row) (call : Call)
    (task : Fin n → Invocation) (w : ToolContext) : Prop where
  staged : ∀ i : Fin n, Staged digest i (task i).state (task i).next
  span : ∀ i, (task i).next ∈ call.span
  begun : ∀ i, (task i).begun = true ↔ (task i).next ≠ some call.entry
  restarts : Restarts (executions task) w
  others : ∀ service, service ≠ "service_a" →
    w.clients.get? service = (buildSandbox .empty seedRecords).clients.get? service
  records : w.records = .init seedRecords
  ledger : ∀ k, k ∈ w.store.keys ↔ ∃ i : Fin n, executed (task i).next = true ∧ k = key i

section Calls

variable {digest : String → String} {n : ℕ} {seedRecords : List Row} {call : Call}
variable {task : Fin n → Invocation} {w : ToolContext} {i : Fin n}

/-- A run that is still out is about to visit a node. -/
theorem unfinished_next (h : Kept digest seedRecords call task w)
    (hunfinished : (invocations digest n).finished (task i) = false) :
    ∃ node, (task i).next = some node ∧ (node = .awaitApproval → call = .resume) := by
  have hspan := h.span i
  have hbegun := h.begun i
  simp only [invocations, Invocation.interrupted, Bool.and_eq_false_iff, Bool.or_eq_false_iff,
    decide_eq_false_iff_not] at hunfinished
  cases call with
  | start =>
    simp only [Call.span, List.mem_cons, List.not_mem_nil, or_false] at hspan
    rcases hspan with hnext | hnext | hnext | hnext | hnext
    all_goals simp_all [Call.entry]
  | resume =>
    cases hnext : (task i).next with
    | some node => exact ⟨node, rfl, fun _ => rfl⟩
    | none => simp_all [Call.entry]

/-- The visit that comes next returns, whatever the clocks show. -/
theorem call_goes (h : Kept digest seedRecords call task w) {node : Node} (clock now : String)
    (hnext : (task i).next = some node) :
    ∃ c' update, (step { digest := digest } (answers clock)
        { state := (task i).state, next := (task i).next, world := { w with now := now } }).1 =
          .ok c' ∧
      c'.state = (task i).state.merge update ∧ c'.next = onward node ∧
      Goes digest i (executions task) clock node (task i).state { w with now := now } update
        c'.world := by
  have hstaged := h.staged i
  rw [hnext] at hstaged
  have hfree : node = .execute → w.store.get? (key i) = none := by
    rintro rfl
    by_contra hentry
    have hkey := Dict.mem_keys.mpr (Option.isSome_iff_ne_none.mpr hentry)
    obtain ⟨j, hj, hsame⟩ := (h.ledger _).mp hkey
    rw [← Fin.ext (key_injective hsame), hnext] at hj
    cases hj
  obtain ⟨update, w', hgoes⟩ := node_goes (w := { w with now := now }) clock hstaged
    ⟨h.restarts.registered, h.restarts.target⟩ hfree
  obtain ⟨c', hstep, hstate, hnext', hworld⟩ := step_exists
    (c := { state := (task i).state, next := (task i).next, world := { w with now := now } })
    hnext hgoes.run ((auditRecord_ok_iff clock node).mpr
      ⟨hgoes.staged.auditable, hstaged.auditable.status, hgoes.approver, hgoes.decision⟩)
    hgoes.route
  subst hworld
  exact ⟨c', update, hstep, hstate, hnext', hgoes⟩

/-- A visit moves one run, and counts as an execution if it is one. -/
theorem executed_update {t : Invocation} {node : Node} (hway : node ∈ way)
    (hnext : (task i).next = some node) (ht : t.next = onward node) (j : Fin n) :
    executed (Function.update task i t j).next =
      (executed (task j).next || decide (j = i ∧ node = .execute)) := by
  by_cases hji : j = i
  · subst hji
    rw [Function.update_self, ht, hnext, executed_onward hway]
    simp
  · rw [Function.update_of_ne hji]
    simp [hji]

theorem executions_update {t : Invocation} {node : Node} (hway : node ∈ way)
    (hnext : (task i).next = some node) (ht : t.next = onward node) :
    executions (Function.update task i t) = executions task + if node = .execute then 1 else 0 := by
  simp only [executions, executed_update hway hnext ht]
  by_cases hexecute : node = .execute
  · subst hexecute
    have hinsert : (Finset.univ.filter fun j =>
        (executed (task j).next || decide (j = i ∧ Node.execute = .execute)) = true) =
          insert i (Finset.univ.filter fun j => executed (task j).next = true) := by
      ext j
      simp [or_comm]
    rw [hinsert, Finset.card_insert_of_notMem, if_pos rfl]
    simp [hnext, executed]
  · simp [hexecute]

/-- What a visit leaves of the sandbox. -/
theorem world_goes {k : ℕ} {clock now : String} {node : Node} {s : AgentState} {update : Update}
    {w' : ToolContext} (h : Goes digest i k clock node s { w with now := now } update w')
    (hw : Restarts k w) :
    Restarts (k + if node = .execute then 1 else 0) w' ∧
      (∀ service, service ≠ "service_a" →
        w'.clients.get? service = w.clients.get? service) ∧
      w'.records = w.records ∧
      ∀ x, x ∈ w'.store.keys ↔ x ∈ w.store.keys ∨ node = .execute ∧ x = key i := by
  by_cases hexecute : node = .execute
  · obtain ⟨o, rfl⟩ := h.restarts hexecute
    refine ⟨⟨?_, ?_⟩, fun service hservice => ?_, rfl, fun x => ?_⟩
    · exact registered_setClient (w := { w with now := now }) hw.registered hw.target rfl
        (List.cons_ne_nil _ _)
    · rw [if_pos hexecute]
      exact Dict.get?_set_self _ _ _
    · exact Dict.get?_set_ne _ _ hservice.symm
    · rw [Dict.mem_keys, Dict.mem_keys]
      simp only [afterRestart, Dict.get?_setdefault]
      by_cases hx : key i = x ∧ w.store.get? (key i) = none
      · rw [if_pos hx]
        exact iff_of_true rfl (Or.inr ⟨hexecute, hx.1.symm⟩)
      · rw [if_neg hx]
        refine ⟨Or.inl, fun hor => hor.elim id fun hkey => ?_⟩
        rw [hkey.2]
        exact Option.isSome_iff_ne_none.mpr fun hnone => hx ⟨hkey.2.symm, hnone⟩
  · rw [h.still hexecute]
    refine ⟨⟨hw.registered, ?_⟩, fun _ _ => rfl, rfl, fun x => by simp [hexecute]⟩
    simpa [hexecute] using hw.target

theorem kept_act {t : Invocation} {w' : ToolContext} (h : Kept digest seedRecords call task w)
    (hunfinished : (invocations digest n).finished (task i) = false)
    (hact : (invocations digest n).act i (task i) w t w') :
    Kept digest seedRecords call (Function.update task i t) w' ∧
      rankOf t.next < rankOf (task i).next := by
  obtain ⟨clock, now, c, hstep, ht, rfl⟩ := hact
  obtain ⟨node, hnext, hwaits⟩ := unfinished_next h hunfinished
  obtain ⟨c', update, hstep', hstate, hnext', hgoes⟩ := call_goes h clock now hnext
  rw [hstep, Except.ok.injEq] at hstep'
  subst hstep'
  have hway := (h.staged i).onWay node hnext
  have hspan := h.span i
  rw [hnext] at hspan
  obtain ⟨hspan', hentry⟩ := span_onward hspan hwaits
  obtain ⟨hrestarts, hothers, hrecords, hkeys⟩ := world_goes hgoes h.restarts
  have hnode : t.next = onward node := by rw [ht, hnext']
  refine ⟨⟨fun j => ?_, fun j => ?_, fun j => ?_, ?_, fun service hservice => ?_, ?_, fun x => ?_⟩,
    ?_⟩
  · by_cases hji : j = i
    · subst hji
      rw [Function.update_self, hnode, ht, hstate]
      exact hgoes.staged
    · rw [Function.update_of_ne hji]
      exact h.staged j
  · by_cases hji : j = i
    · subst hji
      rw [Function.update_self, hnode]
      exact hspan'
    · rw [Function.update_of_ne hji]
      exact h.span j
  · by_cases hji : j = i
    · subst hji
      rw [Function.update_self, hnode, ht]
      exact iff_of_true rfl hentry
    · rw [Function.update_of_ne hji]
      exact h.begun j
  · rw [executions_update hway hnext hnode]
    exact hrestarts
  · rw [hothers service hservice, h.others service hservice]
  · rw [hrecords, h.records]
  · rw [hkeys, h.ledger]
    simp only [executed_update hway hnext hnode, Bool.or_eq_true, decide_eq_true_eq]
    constructor
    · rintro (⟨j, hj, rfl⟩ | ⟨hexecute, rfl⟩)
      · exact ⟨j, Or.inl hj, rfl⟩
      · exact ⟨i, Or.inr ⟨rfl, hexecute⟩, rfl⟩
    · rintro ⟨j, hj | ⟨rfl, hexecute⟩, rfl⟩
      · exact Or.inl ⟨j, hj, rfl⟩
      · exact Or.inr ⟨hexecute, rfl⟩
  · rw [hnode, hnext]
    exact rank_onward hway

/-- Every `ainvoke` of the test gets shorter with every visit, and none is stuck. -/
theorem invocations_shorten (digest : String → String) (n : ℕ) (seedRecords : List Row)
    (call : Call) :
    Shortens (invocations digest n) (fun t => rankOf t.next) (Kept digest seedRecords call) where
  kept h hunfinished hact := (kept_act h hunfinished hact).1
  shorter h hunfinished hact := (kept_act h hunfinished hact).2
  goes_on {task w i} h hunfinished := by
    obtain ⟨node, hnext, _⟩ := unfinished_next h hunfinished
    obtain ⟨c', _, hstep, _⟩ := call_goes h "" w.now hnext
    exact ⟨_, _, "", w.now, c', hstep, rfl, rfl⟩

/-! ### The two bursts -/

theorem kept_started (digest : String → String) (n : ℕ) (seedRecords : List Row) :
    Kept digest seedRecords .start (started n) (buildSandbox .empty seedRecords) := by
  have hnone : executions (started n) = 0 := by simp [executions, started, executed]
  refine ⟨fun i => ?_, fun _ => by simp [started, Call.span],
    fun _ => by simp [started, Call.entry], ?_, fun _ _ => rfl, rfl, fun x => ?_⟩
  · refine ⟨by simp [started, way], rfl, ?_, by simp [started], by simp [started],
      by simp [started], by simp [started], by simp [started], by simp [started]⟩
    exact ⟨⟨_, rfl⟩, isText_none, isText_none, isText_none, isText_none⟩
  · rw [hnone]
    exact ⟨StalenessChanges.registered_buildSandbox _ _, rfl⟩
  · simp [started, executed, Dict.mem_keys, buildSandbox]

variable {p q : Pool (Fin n) Invocation ToolContext} {concurrency : ℕ}

/-- A gathered first burst has all of its runs waiting. -/
theorem waiting_of_gathered (h : Kept digest seedRecords .start p.task p.world)
    (hfinished : (invocations digest n).finished (p.task i) = true) :
    (p.task i).next = some .awaitApproval := by
  have hspan := h.span i
  simp only [invocations, Invocation.interrupted, Bool.and_eq_true, Bool.or_eq_true,
    decide_eq_true_eq] at hfinished
  rcases hfinished.2 with hnone | hawait
  · rw [hnone] at hspan
    simp [Call.span] at hspan
  · exact hawait

theorem ended_of_gathered (h : Kept digest seedRecords .resume p.task p.world)
    (hfinished : (invocations digest n).finished (p.task i) = true) :
    (p.task i).next = none := by
  have hbegun := h.begun i
  simp only [invocations, Invocation.interrupted, Bool.and_eq_true, Bool.or_eq_true,
    decide_eq_true_eq] at hfinished
  rcases hfinished.2 with hnone | hawait
  · exact hnone
  · exact absurd hawait (hbegun.mp hfinished.1)

/-- Where the first burst ended, the second one begins. -/
theorem kept_resumed (h : Kept digest seedRecords .start p.task p.world)
    (hwaiting : ∀ i, (p.task i).next = some .awaitApproval) :
    Kept digest seedRecords .resume (resumed p) p.world where
  staged i := h.staged i
  span i := by
    show (p.task i).next ∈ _
    rw [hwaiting i]
    simp [Call.span]
  begun i := by
    show false = true ↔ (p.task i).next ≠ _
    rw [hwaiting i]
    simp [Call.entry]
  restarts := h.restarts
  others := h.others
  records := h.records
  ledger := h.ledger

theorem countOf_all {check : Invocation → Bool} (h : ∀ i, check (p.task i) = true) :
    countOf p check = n := by
  rw [countOf, Finset.filter_true_of_mem fun i _ => h i, Finset.card_univ, Fintype.card_fin]

/-- What the first burst leaves. -/
theorem kept_results {past : List (Label (Fin n))}
    (run : Trace (pool (invocations digest n) concurrency)
      (gather (started n) (buildSandbox .empty seedRecords)) past p) :
    Kept digest seedRecords .start p.task p.world :=
  (steps_le (invocations_shorten digest n seedRecords .start)
    (kept_started digest n seedRecords) run).1

/-- What the second burst leaves, after a first one that has returned. -/
theorem kept_burst {past later : List (Label (Fin n))}
    (first : Trace (pool (invocations digest n) concurrency)
      (gather (started n) (buildSandbox .empty seedRecords)) past p) (hgathered : p.Gathered)
    (second : Trace (pool (invocations digest n) concurrency)
      (gather (resumed p) p.world) later q) :
    (∀ i, (p.task i).next = some .awaitApproval) ∧
      Kept digest seedRecords .resume q.task q.world := by
  have hwaiting : ∀ i, (p.task i).next = some .awaitApproval := fun i =>
    waiting_of_gathered (kept_results first) (returned_finished first (hgathered i))
  exact ⟨hwaiting, (steps_le (invocations_shorten digest n seedRecords .resume)
    (kept_resumed (kept_results first) hwaiting) second).1⟩

/-- However the visits of the runs fall, all of them are found suspended and then completed,
and each has restarted the service once, under a key of its own; nothing else has changed. -/
theorem load_test_intact (h : Tested digest n concurrency seedRecords p q) :
    report concurrency p q = {
      n := n
      concurrency := concurrency
      allSuspended := true
      suspendedCount := n
      stateIntact := true
      completedCount := n } ∧
    q.world.clients.get? "service_a" = some (restarted n) ∧
    (∀ service, service ≠ "service_a" →
      q.world.clients.get? service = (buildSandbox .empty seedRecords).clients.get? service) ∧
    q.world.records = .init seedRecords ∧
    q.world.store.keys.Perm ((List.range n).map key) := by
  obtain ⟨past, first⟩ := h.first
  obtain ⟨later, second⟩ := h.second
  obtain ⟨hwaiting, hkept⟩ := kept_burst first h.suspended second
  have hended : ∀ i, (q.task i).next = none := fun i =>
    ended_of_gathered hkept (returned_finished second (h.returned i))
  have hexecuted : ∀ i, executed (q.task i).next = true := fun i => by
    rw [hended i]
    rfl
  have hsuspended : countOf p Invocation.interrupted = n := countOf_all fun i => by
    simp [Invocation.interrupted, hwaiting i]
  have hcompleted : countOf q Invocation.completed = n := countOf_all fun i => by
    rw [Invocation.completed, (hkept.staged i).ended (hended i)]
    rfl
  have hcount : executions q.task = n := by
    rw [executions, Finset.filter_true_of_mem fun i _ => hexecuted i, Finset.card_univ,
      Fintype.card_fin]
  have htarget := hkept.restarts.target
  rw [hcount] at htarget
  refine ⟨by simp [report, hsuspended, hcompleted], htarget, hkept.others, hkept.records, ?_⟩
  refine (List.perm_ext_iff_of_nodup q.world.store.distinct
    (List.nodup_range.map key_injective)).mpr fun x => ?_
  calc x ∈ q.world.store.keys
      ↔ ∃ i : Fin n, executed (q.task i).next = true ∧ x = key i := hkept.ledger x
    _ ↔ ∃ i, i < n ∧ key i = x := by
      constructor
      · rintro ⟨i, _, rfl⟩
        exact ⟨i, i.isLt, rfl⟩
      · rintro ⟨i, hi, rfl⟩
        exact ⟨⟨i, hi⟩, hexecuted _, rfl⟩
    _ ↔ x ∈ (List.range n).map key := by simp

/-- From a pool whose second burst is still out, the test can be brought to its end. -/
theorem tested_of_second (hconcurrency : 0 < concurrency) {past later : List (Label (Fin n))}
    (first : Trace (pool (invocations digest n) concurrency)
      (gather (started n) (buildSandbox .empty seedRecords)) past p) (hgathered : p.Gathered)
    (second : Trace (pool (invocations digest n) concurrency)
      (gather (resumed p) p.world) later q) :
    ∃ more burst, Trace (pool (invocations digest n) concurrency) q more burst ∧
      Tested digest n concurrency seedRecords p burst := by
  obtain ⟨more, burst, hmore, hreturned⟩ :=
    can_gather (invocations_shorten digest n seedRecords .resume) hconcurrency
      (kept_burst first hgathered second).2
  exact ⟨more, burst, hmore, ⟨_, first⟩, hgathered, ⟨_, Trace.trans second hmore⟩, hreturned⟩

theorem can_test (digest : String → String) (n : ℕ) (seedRecords : List Row)
    (hconcurrency : 0 < concurrency) :
    ∃ results burst, Tested digest n concurrency seedRecords results burst := by
  obtain ⟨_, results, hmore, hgathered⟩ :=
    can_gather (invocations_shorten digest n seedRecords .start) hconcurrency
      (p := gather (started n) (buildSandbox .empty seedRecords))
      (kept_started digest n seedRecords)
  obtain ⟨_, burst, _, htested⟩ := tested_of_second hconcurrency hmore hgathered .start
  exact ⟨results, burst, htested⟩

theorem load_started (n : ℕ) (seedRecords : List Row) : load (fun t => rankOf t.next)
    (gather (started n) (buildSandbox .empty seedRecords)) = 16 * n := by
  simp [load, left, gather, started, rankOf, ReturningCalls.rank, mul_comm]

theorem load_resumed (hwaiting : ∀ i, (p.task i).next = some .awaitApproval) :
    load (fun t => rankOf t.next) (gather (resumed p) p.world) = 12 * n := by
  simp [load, left, gather, resumed, hwaiting, rankOf, ReturningCalls.rank, mul_comm]

/-- No visit of the test raises, no more calls than the semaphore allows are ever under way,
and wherever the test has got to, it can be brought to its end; it cannot go on forever. -/
theorem load_test_returns (hconcurrency : 0 < concurrency)
    {steps : ℕ} (h : Underway digest n concurrency seedRecords steps p) :
    p.inside.card ≤ concurrency ∧ steps ≤ 28 * n ∧
    (∀ i clock now, (p.task i).next ≠ none →
      ∃ c', (step { digest := digest } (answers clock) ⟨(p.task i).state, (p.task i).next,
        { p.world with now := now }, []⟩).1 = .ok c') ∧
    ∃ more results burst, Tested digest n concurrency seedRecords results burst ∧
      (Trace (pool (invocations digest n) concurrency) p more results ∨
        Trace (pool (invocations digest n) concurrency) p more burst) := by
  have hreturns : ∀ {call : Call}, Kept digest seedRecords call p.task p.world → ∀ i clock now,
      (p.task i).next ≠ none → ∃ c', (step { digest := digest } (answers clock)
        ⟨(p.task i).state, (p.task i).next, { p.world with now := now }, []⟩).1 = .ok c' := by
    intro call hkept i clock now hnext
    obtain ⟨node, hnode⟩ := Option.ne_none_iff_exists'.mp hnext
    obtain ⟨c', _, hstep, _⟩ := call_goes hkept clock now hnode
    exact ⟨c', hstep⟩
  cases h with
  | first run =>
    have hkept := kept_results run
    have hload := (steps_le (invocations_shorten digest n seedRecords .start)
      (kept_started digest n seedRecords) run).2
    rw [load_started] at hload
    obtain ⟨more, results, hmore, hgathered⟩ :=
      can_gather (invocations_shorten digest n seedRecords .start) hconcurrency hkept
    obtain ⟨_, burst, _, htested⟩ :=
      tested_of_second hconcurrency (Trace.trans run hmore) hgathered .start
    exact ⟨inside_le run, by omega, hreturns hkept, more, results, burst, htested, Or.inl hmore⟩
  | second first hgathered run =>
    obtain ⟨more, burst, hmore, htested⟩ := tested_of_second hconcurrency first hgathered run
    have hwaiting := (kept_burst first hgathered run).1
    have hfirst := (steps_le (invocations_shorten digest n seedRecords .start)
      (kept_started digest n seedRecords) first).2
    have hload := (steps_le (invocations_shorten digest n seedRecords .resume)
      (kept_resumed (kept_results first) hwaiting) run).2
    rw [load_started] at hfirst
    rw [load_resumed hwaiting] at hload
    exact ⟨inside_le run, by omega, hreturns (kept_burst first hgathered run).2, more, _, burst,
      htested, Or.inr hmore⟩

end Calls

/-- Two of three runs are inside the semaphore, and one of them has made its diagnosis. -/
theorem three_runs_return :
    ∃ p, Underway id 3 2 [] 3 p ∧ p.place 0 = .inside ∧ p.place 1 = .inside ∧
      p.place 2 = .waiting ∧ (p.task 0).next = some .proposeAction ∧
      p.inside.card ≤ 2 ∧ (∃ c', (step { digest := id } (answers "") ⟨(p.task 0).state,
        (p.task 0).next, { p.world with now := "" }, []⟩).1 = .ok c') ∧
      ∃ more results burst, Tested id 3 2 [] results burst ∧
        (Trace (pool (invocations id 3) 2) p more results ∨
          Trace (pool (invocations id 3) 2) p more burst) := by
  have hkept := kept_started id 3 []
  obtain ⟨c', _, hstep, _, hnext, _⟩ := call_goes hkept (i := 0) "" "" rfl
  let p₀ := gather (started 3) (buildSandbox .empty [])
  let p₁ := { p₀ with place := Function.update p₀.place 0 .inside }
  let p₂ := { p₁ with place := Function.update p₁.place 1 .inside }
  have h₁ : Step (invocations id 3) 2 p₀ (.entered 0) p₁ := .entered rfl (by decide)
  have h₂ : Step (invocations id 3) 2 p₁ (.entered 1) p₂ := .entered rfl (by decide)
  have h₃ : Step (invocations id 3) 2 p₂ (.worked 0) _ :=
    .worked rfl rfl ⟨"", "", c', hstep, rfl, rfl⟩
  have hunderway : Underway id 3 2 [] 3 _ := .first (((Trace.start.snoc h₁).snoc h₂).snoc h₃)
  obtain ⟨hinside, _, hreturns, hends⟩ := load_test_returns (by decide) hunderway
  have hplanning : (Function.update p₂.task 0 ⟨c'.state, c'.next, true⟩ 0).next =
      some .proposeAction := by
    rw [Function.update_self]
    exact hnext
  exact ⟨_, hunderway, rfl, rfl, rfl, hplanning, hinside,
    hreturns 0 "" "" (by rw [hplanning]; simp), hends⟩

theorem three_runs_intact :
    ∃ results burst, Tested id 3 1 [] results burst ∧
      (report 1 results burst).stateIntact = true ∧
      burst.world.clients.get? "service_a" = some (restarted 3) := by
  obtain ⟨results, burst, htested⟩ := can_test id 3 [] Nat.one_pos
  obtain ⟨hreport, hrestarted, _⟩ := load_test_intact htested
  exact ⟨results, burst, htested, by rw [hreport], hrestarted⟩

end LoadTest
