import Interlock.DurableRuns
import Interlock.Grouping
import Interlock.LoadTest
import Interlock.RedundancyFloor

/-!
# The chaos harness

Five trials kill an agent process, or let it exit, and hand its run to a second process that
finds what the first one has stored. The services keep running, and the database keeps its
checkpoints and its ledger. A process that starts a run again starts it from the diagnosis,
and the diagnosis sees what the killed process has done.
-/

namespace ChaosTrials

open Dictionary PythonValues MockService RecordsTable Tools DiagnosticSweep Fingerprint RiskPolicy
open Execution RunState Nodes Graph NodeRuns Transitions
open DurableRuns (startAgain)
open Crashes (auditable_merge)
open Dispatching (executeAction_miss)
open Effects (performRestartService_ok_iff)
open RedundancyFloor (situationOf situation_of_service)

/-! ### The agent process -/

/-- The names that `mark` is called with. -/
inductive Mark where
  | diagnosing
  | executing
  | rollingBack
  deriving DecidableEq

def Mark.node : Mark → Node
  | diagnosing => .diagnose
  | executing => .execute
  | rollingBack => .rollingBack

/-- The environment variables of a process, with their defaults. -/
structure Env where
  tool : String := "restart_service"
  target : String := "service_a"
  tier : String := "low"
  killAt : Option Mark := none

/-- What `_ScriptedReasoner` and `_ScriptedRiskClassifier` answer, and the decision that a
process is called with. -/
def Env.answers (env : Env) (decision : Json) (clock : String) : Answers where
  summary := "chaos stub diagnosis for " ++ env.target
  proposal := {
    tool := env.tool
    target := env.target
    parameters := some (.obj [])
    rationale := "chaos stub rationale" }
  classification := {
    tier := env.tier
    rationale := "chaos stub" }
  decision := decision
  clock := clock

/-- How a process ends: the harness kills it at its marker, or its call returns and it prints
where, or a node raises. One that is still running has not ended in the time it is given. -/
inductive Exit where
  | killed (c : Config)
  | printed (c : Config)
  | raised (c : Config)
  | running

/-- `audit_store.record`. -/
abbrev AuditStore : Type := AuditRecord → Except PyError Unit

/-- A store that takes every record, as `InMemoryAuditStore` does. -/
def Takes (store : AuditStore) : Prop := ∀ record, store record = .ok ()

/-- A value that is bound to a `TIMESTAMPTZ` parameter. -/
inductive TimestampParam where
  | text (s : String)
  | datetime (microseconds : ℤ)

/-- `PostgresAuditStore.record`, with the encoder that asyncpg has for such a parameter. -/
def postgresAuditStore (encode : TimestampParam → Except PyError Unit) : AuditStore :=
  fun record => encode (.text record.timestamp)

/-- What the processes share. -/
structure Context where
  digest : String → String
  auditStore : AuditStore

def Context.runtime (ctx : Context) : Runtime := { digest := ctx.digest }

section Process

variable (ctx : Context) (now : ℕ → String) (env : Env)

/-- The clock goes on between visits. -/
def tick (c : Config) : Config := { c with world := { c.world with now := now c.audit.length } }

/-- The marker of `diagnose` comes before everything else, that of the other nodes after their
side effect. -/
def atMarker (node : Node) (c : Config) : Exit :=
  if node = .diagnose then .killed c
  else
    match (nodeFn ctx.runtime (env.answers .null (now c.audit.length)) node c.state).run
      c.world with
    | (.ok _, world) => .killed { c with world := world }
    | (.error _, world) => .raised { c with world := world }

/-- One visit, and what the process does after it. The record of the visit is stored before
its checkpoint. -/
def visit (decision : Json) (c : Config) (after : Config → Exit) : Exit :=
  match step ctx.runtime (env.answers decision (now c.audit.length)) (tick now c) with
  | (.ok c', world) =>
    match c'.audit.getLast?.map ctx.auditStore with
    | some (.error _) => .raised { c with world := world }
    | _ => after c'
  | (.error _, world) => .raised { c with world := world }

/-- A process visits node after node until its run has ended or is interrupted. -/
def drive : ℕ → Config → Exit
  | 0, _ => .running
  | fuel + 1, c =>
    match c.next with
    | none => .printed c
    | some node =>
      if node = .awaitApproval then .printed c
      else if env.killAt.map Mark.node = some node then atMarker ctx now env node (tick now c)
      else visit ctx now env .null c (drive fuel)

/-- `python -m src.chaos.agent_process resume`. The decision is handed to the first visit,
whichever node that is; a run that has ended is left as it is. -/
def resume (fuel : ℕ) (decision : Json) (c : Config) : Exit :=
  match c.next with
  | none => .printed c
  | some _ => visit ctx now env decision c (drive ctx now env fuel)

end Process

/-! ### The trials -/

/-- `services.reset()`. -/
def reset (w : ToolContext) : ToolContext := { w with clients := w.clients.map ServiceState.reset }

/-- `result.get("status") == status`. -/
def hasStatus (status : State) (c : Config) : Bool :=
  c.state.status.any fun shown => shown.isStr status.value

/-- `services.get_metrics(service)["restart_count"]`. -/
def restartCount (service : String) (w : ToolContext) : Option Int :=
  (w.clients.get? service).map (·.restartCount)

def harnessDecision : Json :=
  .obj [("decision", .str "approved"), ("approver_id", .str "chaos-harness")]

/-- The verdict of a trial, and the services and the database as it leaves them. -/
structure Verdict where
  passed : Bool
  world : ToolContext

/-- What is left when a process ends. -/
def Exit.world (fallback : ToolContext) : Exit → ToolContext
  | .killed c | .printed c | .raised c => c.world
  | .running => fallback

/-- The clocks of the two processes of a trial. -/
structure Clocks where
  first : ℕ → String
  second : ℕ → String

section Trials

variable (ctx : Context) (now : Clocks) (fuel : ℕ) (runId : String)

/-- `_launch(["start", dsn, run_id], env)`, on a thread without a checkpoint. -/
def start (env : Env) (w : ToolContext) : Exit :=
  drive ctx now.first env fuel (startWorkflow runId {} w)

/-- The same command once more, on the thread that the first process has left. -/
def again (env : Env) (c : Config) : Exit :=
  drive ctx now.second env fuel (startAgain runId {} c)

/-- A second process is started, or resumes the run, and prints where it has got to. -/
def judged (w : ToolContext) (passed : Config → Bool) (exit : Exit) : Verdict :=
  match exit with
  | .printed c => ⟨passed c, c.world⟩
  | exit => ⟨false, exit.world w⟩

def duringDiagnosing (w : ToolContext) : Verdict :=
  match start ctx now fuel runId { killAt := some .diagnosing } (reset w) with
  | .killed c => judged c.world (hasStatus .completed) (again ctx now fuel runId {} c)
  | exit => ⟨false, exit.world (reset w)⟩

/-- The process exits without a word once it is interrupted. However it has ended, the run is
resumed then. -/
def immediatelyAfterInterrupt (w : ToolContext) : Verdict :=
  match start ctx now fuel runId { tier := "medium" } (reset w) with
  | .killed c | .printed c | .raised c =>
    judged c.world (hasStatus .completed) (resume ctx now.second {} fuel harnessDecision c)
  | .running => ⟨false, reset w⟩

def duringApprovalWait (w : ToolContext) : Verdict :=
  match start ctx now fuel runId { tier := "medium" } (reset w) with
  | .printed c =>
    if c.next = some .awaitApproval then
      judged c.world (hasStatus .completed) (resume ctx now.second {} fuel harnessDecision c)
    else ⟨false, c.world⟩
  | exit => ⟨false, exit.world (reset w)⟩

def midExecuting (w : ToolContext) : Verdict :=
  match start ctx now fuel runId { killAt := some .executing } (reset w) with
  | .killed c =>
    judged c.world (fun d => hasStatus .completed d &&
      decide (restartCount "service_a" d.world = restartCount "service_a" c.world))
      (again ctx now fuel runId {} c)
  | exit => ⟨false, exit.world (reset w)⟩

def duringRollingBack (w : ToolContext) : Verdict :=
  let full := injectFault "service_c" .diskFull .high (reset w)
  match start ctx now fuel runId { target := "service_c", killAt := some .rollingBack } full with
  | .killed c => judged c.world (fun d => hasStatus .escalated d || hasStatus .completed d)
      (again ctx now fuel runId { target := "service_c" } c)
  | exit => ⟨false, exit.world full⟩

end Trials

/-! ### The harness -/

inductive KillPoint where
  | duringDiagnosing
  | immediatelyAfterInterrupt
  | duringApprovalWait
  | midExecuting
  | duringRollingBack
  deriving DecidableEq

/-- `TRIALS`. -/
def trialFns : List KillPoint :=
  [.duringDiagnosing, .immediatelyAfterInterrupt, .duringApprovalWait, .midExecuting,
    .duringRollingBack]

namespace KillPoint

def name : KillPoint → String
  | duringDiagnosing => "during DIAGNOSING"
  | immediatelyAfterInterrupt => "immediately after interrupt() fires"
  | duringApprovalWait => "during the approval wait"
  | midExecuting => "mid-EXECUTING (idempotency)"
  | duringRollingBack => "during ROLLING_BACK"

/-- What the run ids of a trial begin with. -/
def runIds : KillPoint → String
  | duringDiagnosing => "chaos-diagnosing-"
  | immediatelyAfterInterrupt => "chaos-after-interrupt-"
  | duringApprovalWait => "chaos-approval-wait-"
  | midExecuting => "chaos-mid-executing-"
  | duringRollingBack => "chaos-rolling-back-"

/-- The service that a trial proposes to restart. -/
def target : KillPoint → String
  | duringRollingBack => "service_c"
  | _ => "service_a"

def trial (ctx : Context) (now : Clocks) (fuel : ℕ) (runId : String) (w : ToolContext) :
    KillPoint → Verdict
  | duringDiagnosing => ChaosTrials.duringDiagnosing ctx now fuel runId w
  | immediatelyAfterInterrupt => ChaosTrials.immediatelyAfterInterrupt ctx now fuel runId w
  | duringApprovalWait => ChaosTrials.duringApprovalWait ctx now fuel runId w
  | midExecuting => ChaosTrials.midExecuting ctx now fuel runId w
  | duringRollingBack => ChaosTrials.duringRollingBack ctx now fuel runId w

end KillPoint

structure KillPointResult where
  name : String
  passed : Bool
  deriving DecidableEq, Repr

section Harness

variable (ctx : Context) (now : ℕ → Clocks) (uuid : ℕ → String) (fuel : ℕ)

/-- `for _ in range(trials)`, from the `i`-th trial of the harness on. -/
def repeated (p : KillPoint) : ℕ → ℕ → ToolContext → List KillPointResult × ToolContext
  | 0, _, w => ([], w)
  | trials + 1, i, w =>
    let verdict := p.trial ctx (now i) fuel (p.runIds ++ uuid i) w
    let (results, w') := repeated p trials (i + 1) verdict.world
    (⟨p.name, verdict.passed⟩ :: results, w')

/-- `for trial_fn in TRIALS`. -/
def runTrials (trials : ℕ) : List KillPoint → ℕ → ToolContext → List KillPointResult × ToolContext
  | [], _, w => ([], w)
  | p :: rest, i, w =>
    let (results, w') := repeated ctx now uuid fuel p trials i w
    let (later, w'') := runTrials trials rest (i + trials) w'
    (results ++ later, w'')

/-- `run_harness(dsn, trials)`. -/
def runHarness (trials : ℕ) (w : ToolContext) : List KillPointResult :=
  (runTrials ctx now uuid fuel trials trialFns 0 w).1

end Harness

/-- `by_point` of the pass-rate table. -/
def byPoint (results : List KillPointResult) : Dict String (List Bool) :=
  results.foldl (fun d r => Grouping.append d r.name r.passed) .empty

/-- A line of the table, with the outcomes that passed and all of them. -/
structure PassRate where
  name : String
  rate : ℚ
  passed : ℕ
  total : ℕ
  deriving DecidableEq, Repr

/-- `pass_rate_table()`. -/
def passRateTable (results : List KillPointResult) : List PassRate :=
  (byPoint results).entries.map fun line =>
    { name := line.1
      rate := 100 * (line.2.count true : ℚ) / line.2.length
      passed := line.2.count true
      total := line.2.length }

/-- `main()`. -/
def exitCode (results : List KillPointResult) : ℕ :=
  if results.all (·.passed) then 0 else 1

/-! ### What the processes find -/

/-- `f"{tool}:{target}"`. -/
def action (target : String) : String := "restart_service" ++ ":" ++ target

/-- The target of a sandbox, in which all services of the registry stand. -/
structure Stands (target : String) (sv : ServiceState) (store : Dict String LedgerEntry)
    (w : ToolContext) : Prop where
  registered : Registered w
  known : target ∈ knownServices
  found : w.clients.get? target = some sv
  store_eq : w.store = store

/-- What a sweep sees of a service. -/
structure Sees (sv : ServiceState) (o : ServiceObservation) : Prop where
  status : o.health.status = sv.status.text
  memoryPct : o.metrics.memoryPct = sv.memoryPct
  cpuPct : o.metrics.cpuPct = sv.cpuPct
  errorRate : o.metrics.errorRate = sv.errorRate
  restartCount : o.metrics.restartCount = sv.restartCount
  replicas : o.metrics.replicas = sv.replicas

/-- The fingerprint of a service. -/
def anchor (digest : String → String) (sv : ServiceState) : String :=
  digest (CanonicalJson.dumps [("status", .str sv.status.text), ("memory_pct", .float sv.memoryPct),
    ("cpu_pct", .float sv.cpuPct), ("error_rate", .float sv.errorRate)])

section Sweeps

variable {digest : String → String} {target : String} {sv : ServiceState}
variable {store : Dict String LedgerEntry} {w : ToolContext} {obs : Observations}
variable {o : ServiceObservation}

theorem action_split (target : String) :
    splitColon (action target) = .ok ("restart_service", target) :=
  splitColon_exact target (by decide)

theorem Stands.tick (h : Stands target sv store w) (now : String) :
    Stands target sv store { w with now := now } := ⟨h.registered, h.known, h.found, h.store_eq⟩

theorem sweep (h : Stands target sv store w) :
    ∃ obs o, gatherObservations w = .ok obs ∧ obs.services.get? target = some o ∧ Sees sv o := by
  obtain ⟨obs, hobs⟩ := gather_ok h.registered
  obtain ⟨o, ho, hget⟩ := (gather_service hobs target).1 h.known
  obtain ⟨s, metrics, hs, hmetrics, _, rfl⟩ := observeService_ok ho
  rw [h.found, Option.some.injEq] at hs
  subst hs
  obtain ⟨data, hdata, hmetrics⟩ := except_bind_ok_iff.mp hmetrics
  obtain ⟨version, _, hdata⟩ := except_bind_ok_iff.mp hdata
  cases hdata
  cases hmetrics
  exact ⟨obs, _, hobs, hget, ⟨rfl, rfl, rfl, rfl, rfl, rfl⟩⟩

theorem valid_of_seen (ho : obs.services.get? target = some o) :
    validateProposal obs (action target) = .ok none := by
  rw [validateProposal, action_split]
  simp only [bind, Except.bind, pure, Except.pure, ho]
  rfl

theorem fingerprint_of_seen (ho : obs.services.get? target = some o) (h : Sees sv o) :
    computeFingerprint digest obs (action target) = .ok (anchor digest sv) := by
  refine computeFingerprint_ok_iff.mpr ⟨_, _, _, action_split target, ?_, rfl⟩
  rw [relevantFields, if_pos (Or.inl rfl), serviceFields_load ho, h.status, h.memoryPct, h.cpuPct,
    h.errorRate]

/-- The tier that the policy makes of the classifier's, for a service with one replica. -/
def finalTier (tier : String) (sv : ServiceState) : String :=
  if tier = "low" ∧ 1 ≤ sv.restartCount then "medium" else tier

theorem policy_of_seen (tier : String) (h : Sees sv o)
    (hsole : sv.replicas < minRedundantReplicas) :
    applyPolicy "restart_service" tier (some (situationOf o)) = finalTier tier sv := by
  have hfalse : decide (minRedundantReplicas ≤ o.metrics.replicas) = false := by
    rw [h.replicas, decide_eq_false_iff_not]
    omega
  have hforced : "restart_service" ∉ forcedHighTools := by decide
  simp only [applyPolicy, if_neg hforced, situationOf, hfalse, h.restartCount, true_and, finalTier]

end Sweeps

/-! ### One visit -/

section Visits

variable {ctx : Context} {now : ℕ → String} {env : Env} {decision : Json}
variable {runId target : String} {sv : ServiceState} {store : Dict String LedgerEntry}
variable {c : Config} {fuel : ℕ}

/-- What a node that returns and passes the audit makes of a checkpoint. -/
theorem visit_goes (htakes : Takes ctx.auditStore)
    {node : Node} {next : Option Node} {update : Update} {world : ToolContext}
    (hnext : c.next = some node)
    (hnode : (nodeFn ctx.runtime (env.answers decision (now c.audit.length)) node
      c.state).run (tick now c).world = (.ok update, world))
    (haudit : Auditable c.state)
    (hroute : nextNode ctx.runtime node (c.state.merge update) = .ok next)
    (happrover : IsText (writtenApprover update) := by exact isText_none)
    (hdecision : IsText (writtenDecision update) := by exact isText_none) :
    ∃ c', c'.state = c.state.merge update ∧ c'.next = next ∧ c'.world = world ∧
      ∀ after, visit ctx now env decision c after = after c' := by
  obtain ⟨c', hstep, hstate, hnext', hworld⟩ := step_exists (c := tick now c) hnext hnode
    ((auditRecord_ok_iff _ node).mpr
      ⟨auditable_merge haudit update, haudit.status, happrover, hdecision⟩) hroute
  refine ⟨c', hstate, hnext', hworld, fun after => ?_⟩
  unfold visit
  generalize step _ _ _ = r at hstep
  obtain ⟨r, w⟩ := r
  simp only at hstep
  subst hstep
  cases hlast : c'.audit.getLast? with
  | none => simp only [hlast, Option.map_none]
  | some record => simp only [hlast, Option.map_some, htakes record]

theorem drive_visit {node : Node} (hnext : c.next = some node) (hawait : node ≠ .awaitApproval)
    (hkill : env.killAt.map Mark.node ≠ some node) :
    drive ctx now env (fuel + 1) c = visit ctx now env .null c (drive ctx now env fuel) := by
  simp only [drive, hnext, if_neg hawait, if_neg hkill]

theorem killAt_of_node {mark : Mark} (h : env.killAt.map Mark.node = some mark.node) :
    env.killAt = some mark := by
  obtain ⟨other, hother, hnode⟩ := Option.map_eq_some_iff.mp h
  rw [hother]
  cases other <;> cases mark <;> first | rfl | cases hnode

/-- The other nodes have no marker. -/
theorem unmarked {node : Node} (h : node ∉ [Node.diagnose, .execute, .rollingBack]) :
    env.killAt.map Mark.node ≠ some node := by
  intro hmark
  obtain ⟨mark, _, rfl⟩ := Option.map_eq_some_iff.mp hmark
  cases mark <;> exact h (by decide)

/-- A node whose side effect is done is killed before its checkpoint. -/
theorem drive_killed {mark : Mark} {update : Update} {world : ToolContext}
    (hkill : env.killAt = some mark) (hmark : mark ≠ .diagnosing)
    (hnext : c.next = some mark.node)
    (hrun : (nodeFn ctx.runtime (env.answers .null (now c.audit.length)) mark.node
      c.state).run (tick now c).world = (.ok update, world)) :
    drive ctx now env (fuel + 1) c = .killed { c with world := world } := by
  have hdiagnose : mark.node ≠ .diagnose := by
    cases mark <;> first | decide | exact absurd rfl hmark
  have hawait : mark.node ≠ .awaitApproval := by cases mark <;> decide
  have hrun' : (nodeFn ctx.runtime (env.answers .null (now (tick now c).audit.length))
      mark.node (tick now c).state).run (tick now c).world = (.ok update, world) := hrun
  have hdrive : drive ctx now env (fuel + 1) c = atMarker ctx now env mark.node (tick now c) := by
    simp only [drive, hnext, if_neg hawait, hkill, Option.map_some, if_true]
  rw [hdrive, atMarker, if_neg hdiagnose, hrun']
  rfl

/-- A run that starts, or starts again, over a sandbox as it stands. -/
structure Entered (runId target : String) (sv : ServiceState) (store : Dict String LedgerEntry)
    (c : Config) : Prop where
  next : c.next = some .diagnose
  runId : c.state.runId = some (.str runId)
  auditable : Auditable c.state
  stands : Stands target sv store c.world

/-- A run with a proposal that is anchored to what its target shows. -/
structure Planned (ctx : Context) (runId target : String) (sv : ServiceState)
    (s : AgentState) : Prop where
  runId : s.runId = some (.str runId)
  auditable : Auditable s
  diagnosis : ∃ d, s.diagnosis = some d
  action : s.proposedAction = some (.str (action target))
  parameters : s.actionParameters = some (.obj [])
  anchored : s.stateFingerprint = some (some (anchor ctx.digest sv))

theorem Planned.merge {s : AgentState} (h : Planned ctx runId target sv s) (update : Update)
    (hrunId : (s.merge update).runId = s.runId := by rfl)
    (hdiagnosis : (s.merge update).diagnosis = s.diagnosis := by rfl)
    (haction : (s.merge update).proposedAction = s.proposedAction := by rfl)
    (hparameters : (s.merge update).actionParameters = s.actionParameters := by rfl)
    (hanchored : (s.merge update).stateFingerprint = s.stateFingerprint := by rfl) :
    Planned ctx runId target sv (s.merge update) :=
  ⟨by rw [hrunId]; exact h.runId, auditable_merge h.auditable update,
    by rw [hdiagnosis]; exact h.diagnosis, by rw [haction]; exact h.action,
    by rw [hparameters]; exact h.parameters, by rw [hanchored]; exact h.anchored⟩

/-- The observations at hand show the target. -/
def Seen (target : String) (sv : ServiceState) (s : AgentState) : Prop :=
  ∃ obs o, s.observations = some obs ∧ obs.services.get? target = some o ∧ Sees sv o

variable (now env decision)

theorem diagnosed (htakes : Takes ctx.auditStore) (h : Entered runId target sv store c) :
    ∃ c', (∀ after, visit ctx now env decision c after = after c') ∧
      c'.next = some .proposeAction ∧ c'.state.runId = some (.str runId) ∧ Auditable c'.state ∧
      Seen target sv c'.state ∧ (∃ d, c'.state.diagnosis = some d) ∧
      Stands target sv store c'.world := by
  have hstands := h.stands.tick (now c.audit.length)
  obtain ⟨obs, o, hobs, ho, hsees⟩ := sweep hstands
  obtain ⟨c', hstate, hnext, hworld, hvisit⟩ := visit_goes htakes h.next
    (diagnose_run (w := (tick now c).world) hobs) h.auditable rfl
  refine ⟨c', hvisit, hnext, ?_, ?_, ?_, ?_, ?_⟩
  · rw [hstate]
    exact h.runId
  · rw [hstate]
    exact auditable_merge h.auditable _
  · rw [hstate]
    exact ⟨obs, o, rfl, ho, hsees⟩
  · rw [hstate]
    exact ⟨_, rfl⟩
  · rw [hworld]
    exact hstands

theorem proposed (htakes : Takes ctx.auditStore)
    (hnext : c.next = some .proposeAction) (hrunId : c.state.runId = some (.str runId))
    (hauditable : Auditable c.state) (hseen : Seen target sv c.state)
    (hdiagnosis : ∃ d, c.state.diagnosis = some d) (hstands : Stands target sv store c.world)
    (htool : env.tool = "restart_service") (htarget : env.target = target) :
    ∃ c', (∀ after, visit ctx now env decision c after = after c') ∧
      c'.next = some .classifyRisk ∧ Planned ctx runId target sv c'.state ∧
      Seen target sv c'.state ∧ Stands target sv store c'.world := by
  obtain ⟨obs, o, hobs, ho, hsees⟩ := hseen
  have haction : (env.answers decision (now c.audit.length)).proposal.action = action target := by
    have hanswer : (env.answers decision (now c.audit.length)).proposal.action =
        env.tool ++ ":" ++ env.target := rfl
    rw [hanswer, htool, htarget, action]
  have hvalid := valid_of_seen ho
  have hfingerprint : computeFingerprint ctx.digest obs (action target) =
      .ok (anchor ctx.digest sv) := fingerprint_of_seen ho hsees
  have hanchor : anchorProposal ctx.runtime obs (action target) none =
      .ok (some (anchor ctx.digest sv)) := congrArg (Except.map some) hfingerprint
  obtain ⟨c', hstate, hnext', hworld, hvisit⟩ := visit_goes htakes hnext
    (propose_run hobs haction hvalid hanchor) hauditable rfl
  refine ⟨c', hvisit, hnext', ?_, ?_, ?_⟩
  · rw [hstate]
    exact ⟨hrunId, auditable_merge hauditable _, hdiagnosis, rfl, rfl, rfl⟩
  · rw [hstate]
    exact ⟨obs, o, hobs, ho, hsees⟩
  · rw [hworld]
    exact hstands.tick _

theorem classified (htakes : Takes ctx.auditStore) (hnext : c.next = some .classifyRisk)
    (hplanned : Planned ctx runId target sv c.state) (hseen : Seen target sv c.state)
    (hstands : Stands target sv store c.world) (hsole : sv.replicas < minRedundantReplicas) :
    ∃ c', (∀ after, visit ctx now env decision c after = after c') ∧
      Planned ctx runId target sv c'.state ∧ Stands target sv store c'.world ∧
      c'.state.riskTierFinal = some (.str (finalTier env.tier sv)) ∧
      c'.next = some (if finalTier env.tier sv = "low" then .prepareExecution
        else .markAwaitingApproval) := by
  obtain ⟨obs, o, hobs, ho, hsees⟩ := hseen
  have hsituational := situation_of_service (action_split target) (by decide) ho
  have htier : applyPolicy "restart_service"
      (env.answers decision (now c.audit.length)).classification.tier (some (situationOf o)) =
        finalTier env.tier sv := policy_of_seen env.tier hsees hsole
  obtain ⟨applied, hrun⟩ := classify_run ctx.runtime (env.answers decision (now c.audit.length))
    (tick now c).world hplanned.action hobs (action_split target) hsituational htier
  obtain ⟨c', hstate, hnext', hworld, hvisit⟩ :=
    visit_goes htakes hnext hrun hplanned.auditable classify_route
  refine ⟨c', hvisit, ?_, ?_, ?_, hnext'⟩
  · rw [hstate]
    exact hplanned.merge _
  · rw [hworld]
    exact hstands.tick _
  · rw [hstate]
    rfl

variable (fuel)

/-- From the diagnosis to the classification. -/
theorem plan (htakes : Takes ctx.auditStore)
    (h : Entered runId target sv store c) (htool : env.tool = "restart_service")
    (htarget : env.target = target) (hsole : sv.replicas < minRedundantReplicas)
    (hkill : env.killAt ≠ some .diagnosing) :
    ∃ c', drive ctx now env (fuel + 3) c = drive ctx now env fuel c' ∧
      Planned ctx runId target sv c'.state ∧ Stands target sv store c'.world ∧
      c'.state.riskTierFinal = some (.str (finalTier env.tier sv)) ∧
      c'.next = some (if finalTier env.tier sv = "low" then .prepareExecution
        else .markAwaitingApproval) := by
  have hdiagnose : env.killAt.map Mark.node ≠ some .diagnose := fun hmark =>
    hkill (killAt_of_node hmark)
  obtain ⟨c₁, hvisit₁, hnext₁, hrunId, hauditable, hseen, hdiagnosis, hstands⟩ :=
    diagnosed now env .null htakes h
  obtain ⟨c₂, hvisit₂, hnext₂, hplanned, hseen, hstands⟩ :=
    proposed now env .null htakes hnext₁ hrunId hauditable hseen hdiagnosis hstands htool htarget
  obtain ⟨c₃, hvisit₃, hdone⟩ :=
    classified now env .null htakes hnext₂ hplanned hseen hstands hsole
  refine ⟨c₃, ?_, hdone⟩
  rw [drive_visit h.next (by decide) hdiagnose, hvisit₁,
    drive_visit hnext₁ (by decide) (unmarked (by decide)), hvisit₂,
    drive_visit hnext₂ (by decide) (unmarked (by decide)), hvisit₃]

/-- A gated run waits for its reviewer, and the process prints that. -/
theorem waits (htakes : Takes ctx.auditStore)
    (hplanned : Planned ctx runId target sv c.state)
    (hnext : c.next = some .markAwaitingApproval) (hstands : Stands target sv store c.world) :
    ∃ c', drive ctx now env (fuel + 2) c = .printed c' ∧ c'.next = some .awaitApproval ∧
      Planned ctx runId target sv c'.state ∧ Stands target sv store c'.world ∧
      c'.state.status = some (.str State.awaitingApproval.value) ∧
      c'.state.riskTierFinal = c.state.riskTierFinal := by
  have hrun : (nodeFn ctx.runtime (env.answers .null (now c.audit.length))
      .markAwaitingApproval c.state).run (tick now c).world =
        (.ok [.status .awaitingApproval], (tick now c).world) := rfl
  obtain ⟨c', hstate, hnext', hworld, hvisit⟩ := visit_goes htakes hnext hrun hplanned.auditable rfl
  refine ⟨c', ?_, hnext', ?_, ?_, ?_, ?_⟩
  · rw [drive_visit hnext (by decide) (unmarked (by decide)), hvisit]
    simp only [drive, hnext', if_true]
  · rw [hstate]
    exact hplanned.merge _
  · rw [hworld]
    exact hstands.tick _
  · rw [hstate]
    rfl
  · rw [hstate]
    rfl

/-- The key of the run's action. -/
def key (runId target : String) : String := idempotencyKey runId (action target)

theorem prepared (htakes : Takes ctx.auditStore)
    (hplanned : Planned ctx runId target sv c.state)
    (hnext : c.next = some .prepareExecution) (hstands : Stands target sv store c.world) :
    ∃ c', drive ctx now env (fuel + 1) c = drive ctx now env fuel c' ∧
      c'.next = some .execute ∧ Planned ctx runId target sv c'.state ∧
      c'.state.idempotencyKey = some (.str (key runId target)) ∧
      Stands target sv store c'.world := by
  obtain ⟨c', hstate, hnext', hworld, hvisit⟩ := visit_goes htakes hnext
    (prepare_run hplanned.runId hplanned.action) hplanned.auditable rfl
  refine ⟨c', ?_, hnext', ?_, ?_, ?_⟩
  · rw [drive_visit hnext (by decide) (unmarked (by decide)), hvisit]
  · rw [hstate]
    exact hplanned.merge _
  · rw [hstate]
    rfl
  · rw [hworld]
    exact hstands.tick _

/-- The ledger after the restart. -/
def entered (store : Dict String LedgerEntry) (runId target : String) (o : Outcome) :
    Dict String LedgerEntry :=
  store.setdefault (key runId target) ((ToolCall.restartService target).entry o)

/-- The restart, on a key that is free. -/
theorem restart_run {w : ToolContext} (answers : Answers)
    (hplanned : Planned ctx runId target sv c.state)
    (hkey : c.state.idempotencyKey = some (.str (key runId target)))
    (hstands : Stands target sv store w) (hfree : store.get? (key runId target) = none) :
    ∃ o w', (nodeFn ctx.runtime answers .execute c.state).run w =
        (.ok [.status .executing, .executionResult o.result, .compensation o.compensation], w') ∧
      o.compensation = .noop "restart has no reversible side effect" ∧
      Stands target sv.restart (entered store runId target o) w' := by
  have hcall : dispatch (action target) (parametersOf c.state) =
      .ok (.restartService target) := by
    rw [parametersOf, hplanned.parameters, dispatch, action_split]
    rfl
  obtain ⟨o, hcompensation, hperform⟩ : ∃ o : Outcome,
      o.compensation = .noop "restart has no reversible side effect" ∧
      (ToolCall.restartService target).perform.run w = (.ok o, w.setClient target sv.restart) :=
    ⟨_, rfl, performRestartService_ok_iff.mpr ⟨_, hstands.found, rfl, rfl⟩⟩
  rw [← hstands.store_eq] at hfree
  have hexecuted := executeAction_miss hcall hfree hperform
  refine ⟨o, { w.setClient target sv.restart with store := entered w.store runId target o },
    execute_run hplanned.action hkey hexecuted, hcompensation, ?_, hstands.known, ?_, ?_⟩
  · obtain ⟨s, hs, _, hversions⟩ := hstands.registered target hstands.known
    rw [hstands.found, Option.some.injEq] at hs
    subst hs
    have hset : Registered (w.setClient target sv.restart) :=
      registered_setClient hstands.registered hstands.found rfl hversions
    exact hset
  · exact Dict.get?_set_self _ _ _
  · rw [← hstands.store_eq]

/-- The process is killed between the restart and its checkpoint. -/
theorem killed_executing (hplanned : Planned ctx runId target sv c.state)
    (hnext : c.next = some .execute) (hkill : env.killAt = some .executing)
    (hkey : c.state.idempotencyKey = some (.str (key runId target)))
    (hstands : Stands target sv store c.world) (hfree : store.get? (key runId target) = none) :
    ∃ o w, drive ctx now env (fuel + 1) c = .killed { c with world := w } ∧
      Stands target sv.restart (entered store runId target o) w := by
  obtain ⟨o, w, hrun, _, hstands'⟩ := restart_run (env.answers .null (now c.audit.length)) hplanned
    hkey (hstands.tick (now c.audit.length)) hfree
  exact ⟨o, w, drive_killed hkill (by decide) hnext hrun, hstands'⟩

/-- The restart is performed and checkpointed. -/
theorem executed (htakes : Takes ctx.auditStore)
    (hplanned : Planned ctx runId target sv c.state)
    (hnext : c.next = some .execute) (hkill : env.killAt ≠ some .executing)
    (hkey : c.state.idempotencyKey = some (.str (key runId target)))
    (hstands : Stands target sv store c.world) (hfree : store.get? (key runId target) = none) :
    ∃ c' o, drive ctx now env (fuel + 1) c = drive ctx now env fuel c' ∧
      c'.next = some .verify ∧ Planned ctx runId target sv c'.state ∧
      c'.state.executionResult = some o.result ∧
      c'.state.compensation = some (.noop "restart has no reversible side effect") ∧
      Stands target sv.restart (entered store runId target o) c'.world := by
  obtain ⟨o, w, hrun, hcompensation, hstands'⟩ := restart_run
    (env.answers .null (now c.audit.length)) hplanned hkey (hstands.tick (now c.audit.length)) hfree
  obtain ⟨c', hstate, hnext', hworld, hvisit⟩ := visit_goes htakes hnext hrun hplanned.auditable rfl
  have hunmarked : env.killAt.map Mark.node ≠ some .execute := fun hmark =>
    hkill (killAt_of_node hmark)
  refine ⟨c', o, ?_, hnext', ?_, ?_, ?_, ?_⟩
  · rw [drive_visit hnext (by decide) hunmarked, hvisit]
  · rw [hstate]
    exact hplanned.merge _
  · rw [hstate]
    rfl
  · rw [hstate]
    exact congrArg some hcompensation
  · rw [hworld]
    exact hstands'

/-- The verification asks whether the target is healthy. -/
theorem verified (htakes : Takes ctx.auditStore)
    {sv' : ServiceState} (hplanned : Planned ctx runId target sv c.state)
    (hnext : c.next = some .verify) (hresult : ∃ result, c.state.executionResult = some result)
    (hstands : Stands target sv' store c.world) :
    ∃ c', drive ctx now env (fuel + 1) c = drive ctx now env fuel c' ∧
      c'.next = some (if sv'.status.text = "healthy" then .completed else .rollingBack) ∧
      Planned ctx runId target sv c'.state ∧ c'.state.compensation = c.state.compensation ∧
      Stands target sv' store c'.world := by
  obtain ⟨result, hresult⟩ := hresult
  have hstands' := hstands.tick (now c.audit.length)
  have hpassed : verifyAction (tick now c).world (action target) result =
      .ok (sv'.status.text == "healthy") :=
    verifyAction_service (action_split target) (by decide) hstands'.found
  have hroute : nextNode ctx.runtime .verify (c.state.merge
      [.status .verifying, .verificationPassed (sv'.status.text == "healthy")]) =
      .ok (some (if sv'.status.text = "healthy" then .completed else .rollingBack)) := by
    simp only [verify_route, beq_iff_eq]
  obtain ⟨c', hstate, hnext', hworld, hvisit⟩ := visit_goes htakes hnext
    (verify_run hplanned.action hresult hpassed) hplanned.auditable hroute
  refine ⟨c', ?_, hnext', ?_, ?_, ?_⟩
  · rw [drive_visit hnext (by decide) (unmarked (by decide)), hvisit]
  · rw [hstate]
    exact hplanned.merge _
  · rw [hstate]
    rfl
  · rw [hworld]
    exact hstands'

/-- A run that has passed its verification ends, and the process prints that. -/
theorem completes (htakes : Takes ctx.auditStore)
    {sv' : ServiceState} (hplanned : Planned ctx runId target sv c.state)
    (hnext : c.next = some .completed) (hstands : Stands target sv' store c.world) :
    ∃ c', drive ctx now env (fuel + 2) c = .printed c' ∧
      c'.state.status = some (.str State.completed.value) ∧ Stands target sv' store c'.world := by
  have hrun : (nodeFn ctx.runtime (env.answers .null (now c.audit.length))
      .completed c.state).run (tick now c).world =
        (.ok [.status .completed, .finalState .completed], (tick now c).world) := rfl
  obtain ⟨c', hstate, hnext', hworld, hvisit⟩ := visit_goes htakes hnext hrun hplanned.auditable rfl
  refine ⟨c', ?_, ?_, ?_⟩
  · rw [drive_visit hnext (by decide) (unmarked (by decide)), hvisit]
    simp only [drive, hnext']
  · rw [hstate]
    rfl
  · rw [hworld]
    exact hstands.tick _

/-- There is nothing to compensate, and the process is killed before it says so. -/
theorem killed_rollingBack (ctx : Context) {sv' : ServiceState} (hnext : c.next = some .rollingBack)
    (hkill : env.killAt = some .rollingBack)
    (hcompensation : c.state.compensation = some (.noop "restart has no reversible side effect"))
    (hstands : Stands target sv' store c.world) :
    ∃ w, drive ctx now env (fuel + 1) c = .killed { c with world := w } ∧
      Stands target sv' store w := by
  have happlied : (applyCompensation (.noop "restart has no reversible side effect")).run
      (tick now c).world =
        (.ok (.notApplied "restart has no reversible side effect"), (tick now c).world) := rfl
  exact ⟨_, drive_killed hkill (by decide) hnext (rollingBack_run hcompensation happlied),
    hstands.tick (now c.audit.length)⟩

/-- The approved run is resumed, and finds its target as the proposal has left it. -/
theorem resumed (htakes : Takes ctx.auditStore)
    (hplanned : Planned ctx runId target sv c.state)
    (hnext : c.next = some .awaitApproval) (hstands : Stands target sv store c.world) {tier : Json}
    (htier : c.state.riskTierFinal = some tier) :
    ∃ c', resume ctx now env (fuel + 1) harnessDecision c = drive ctx now env fuel c' ∧
      c'.next = some .prepareExecution ∧ Planned ctx runId target sv c'.state ∧
      Stands target sv store c'.world := by
  obtain ⟨d, hd⟩ := hplanned.diagnosis
  have hawait : (nodeFn ctx.runtime (env.answers harnessDecision (now c.audit.length))
      .awaitApproval c.state).run (tick now c).world =
        (.ok [.approvalDecision (.str "approved"), .approverId (.str "chaos-harness")],
          (tick now c).world) :=
    await_run hplanned.runId hd hplanned.action htier rfl rfl rfl
  have happroved : nextNode ctx.runtime .awaitApproval (c.state.merge
      [.approvalDecision (.str "approved"), .approverId (.str "chaos-harness")]) =
      .ok (some .revalidate) := rfl
  obtain ⟨c₁, hstate₁, hnext₁, hworld₁, hvisit₁⟩ := visit_goes htakes hnext hawait
    hplanned.auditable happroved (isText_str _) (isText_str _)
  have hplanned₁ : Planned ctx runId target sv c₁.state := by
    rw [hstate₁]
    exact hplanned.merge _
  have hstands₁ : Stands target sv store c₁.world := by
    rw [hworld₁]
    exact hstands.tick _
  have hstands₂ := hstands₁.tick (now c₁.audit.length)
  obtain ⟨obs, o, hobs, ho, hsees⟩ := sweep hstands₂
  have hrun : (nodeFn ctx.runtime (env.answers .null (now c₁.audit.length)) .revalidate
      c₁.state).run (tick now c₁).world =
        (.ok (revalidateUpdate obs (anchor ctx.digest sv) (some (anchor ctx.digest sv))),
          (tick now c₁).world) :=
    revalidate_run hplanned₁.action hobs (fingerprint_of_seen ho hsees) hplanned₁.anchored
  obtain ⟨c₂, hstate₂, hnext₂, hworld₂, hvisit₂⟩ :=
    visit_goes htakes hnext₁ hrun hplanned₁.auditable revalidate_route
  rw [if_pos rfl] at hnext₂
  refine ⟨c₂, ?_, hnext₂, ?_, ?_⟩
  · rw [resume, hnext, hvisit₁, drive_visit hnext₁ (by decide) (unmarked (by decide)), hvisit₂]
  · rw [hstate₂]
    exact ⟨hplanned₁.runId, auditable_merge hplanned₁.auditable _, hplanned₁.diagnosis,
      hplanned₁.action, hplanned₁.parameters, rfl⟩
  · rw [hworld₂]
    exact hstands₂

end Visits

/-! ### One process -/

section Processes

variable {ctx : Context} {now : ℕ → String} {env : Env}
variable {runId target : String} {sv : ServiceState} {store : Dict String LedgerEntry}
variable {c : Config} {fuel : ℕ}

theorem entered_start (runId : String) {w : ToolContext} (h : Stands target sv store w) :
    Entered runId target sv store (startWorkflow runId {} w) :=
  ⟨rfl, rfl, ⟨⟨_, rfl⟩, isText_none, isText_none, isText_none, isText_none⟩, h⟩

theorem entered_again (runId : String) (haudit : Auditable c.state)
    (h : Stands target sv store c.world) :
    Entered runId target sv store (startAgain runId {} c) :=
  ⟨rfl, rfl, ⟨⟨_, rfl⟩, haudit.status, haudit.proposedAction, haudit.riskTier,
    haudit.idempotencyKey⟩, h⟩

variable (now env fuel)

/-- An action that is prepared and works completes its run. -/
theorem completes_prepared (htakes : Takes ctx.auditStore)
    (hplanned : Planned ctx runId target sv c.state)
    (hnext : c.next = some .prepareExecution) (hkill : env.killAt = none)
    (hstands : Stands target sv store c.world) (hfree : store.get? (key runId target) = none)
    (hworks : sv.restart.status.text = "healthy") :
    ∃ d o, drive ctx now env (fuel + 5) c = .printed d ∧
      d.state.status = some (.str State.completed.value) ∧
      Stands target sv.restart (entered store runId target o) d.world := by
  obtain ⟨c₁, hdrive₁, hnext₁, hplanned₁, hkey₁, hstands₁⟩ :=
    prepared now env (fuel + 4) htakes hplanned hnext hstands
  obtain ⟨c₂, o, hdrive₂, hnext₂, hplanned₂, hresult₂, _, hstands₂⟩ :=
    executed now env (fuel + 3) htakes hplanned₁ hnext₁ (by simp [hkill]) hkey₁ hstands₁ hfree
  obtain ⟨c₃, hdrive₃, hnext₃, hplanned₃, _, hstands₃⟩ :=
    verified now env (fuel + 2) htakes hplanned₂ hnext₂ ⟨_, hresult₂⟩ hstands₂
  rw [if_pos hworks] at hnext₃
  obtain ⟨d, hdrive₄, hstatus, hstands₄⟩ :=
    completes now env fuel htakes hplanned₃ hnext₃ hstands₃
  exact ⟨d, o, by rw [hdrive₁, hdrive₂, hdrive₃, hdrive₄], hstatus, hstands₄⟩

/-- A first restart of a service that it helps is low, and completes. -/
theorem process_completes (htakes : Takes ctx.auditStore) (h : Entered runId target sv store c)
    (htool : env.tool = "restart_service") (htarget : env.target = target)
    (hkill : env.killAt = none) (hsole : sv.replicas < minRedundantReplicas)
    (hlow : finalTier env.tier sv = "low") (hfree : store.get? (key runId target) = none)
    (hworks : sv.restart.status.text = "healthy") :
    ∃ d o, drive ctx now env (fuel + 8) c = .printed d ∧
      d.state.status = some (.str State.completed.value) ∧
      Stands target sv.restart (entered store runId target o) d.world := by
  obtain ⟨c₁, hdrive₁, hplanned, hstands, _, hnext⟩ :=
    plan now env (fuel + 5) htakes h htool htarget hsole (by simp [hkill])
  rw [if_pos hlow] at hnext
  obtain ⟨d, o, hdrive, hdone⟩ :=
    completes_prepared now env fuel htakes hplanned hnext hkill hstands hfree hworks
  exact ⟨d, o, by rw [hdrive₁, hdrive], hdone⟩

/-- A run whose tier is not low ends its process at the interrupt. -/
theorem process_waits (htakes : Takes ctx.auditStore) (h : Entered runId target sv store c)
    (htool : env.tool = "restart_service") (htarget : env.target = target)
    (hkill : env.killAt = none) (hsole : sv.replicas < minRedundantReplicas)
    (hgated : finalTier env.tier sv ≠ "low") :
    ∃ d, drive ctx now env (fuel + 5) c = .printed d ∧ d.next = some .awaitApproval ∧
      Planned ctx runId target sv d.state ∧ Stands target sv store d.world ∧
      d.state.status = some (.str State.awaitingApproval.value) ∧
      d.state.riskTierFinal = some (.str (finalTier env.tier sv)) := by
  obtain ⟨c₁, hdrive₁, hplanned, hstands, htier, hnext⟩ :=
    plan now env (fuel + 2) htakes h htool htarget hsole (by simp [hkill])
  rw [if_neg hgated] at hnext
  obtain ⟨d, hdrive, hnext', hplanned', hstands', hstatus, htier'⟩ :=
    waits now env fuel htakes hplanned hnext hstands
  exact ⟨d, by rw [hdrive₁, hdrive], hnext', hplanned', hstands', hstatus, htier'.trans htier⟩

end Processes

/-! ### Five verdicts -/

section Verdicts

variable {ctx : Context} {now : Clocks} {fuel : ℕ} {runId : String} {w : ToolContext}

theorem registered_reset (h : Registered w) : Registered (reset w) := by
  intro name hname
  obtain ⟨s, hs, hdisk, _⟩ := h name hname
  exact ⟨s.reset, by rw [reset, Dict.get?_map, hs]; rfl, hdisk, List.cons_ne_nil _ _⟩

/-- A service that nobody has restarted, and that has no second replica. -/
structure Fresh (sv : ServiceState) : Prop where
  sole : sv.replicas < minRedundantReplicas
  first : sv.restartCount = 0

theorem Fresh.low {sv : ServiceState} (h : Fresh sv) : finalTier "low" sv = "low" := by
  rw [finalTier, h.first]
  rfl

/-- The second time the floor is under it. -/
theorem Fresh.floored {sv : ServiceState} (h : Fresh sv) :
    finalTier "low" sv.restart ≠ "low" := by
  have hcount : sv.restart.restartCount = 1 := by
    rw [show sv.restart.restartCount = sv.restartCount + 1 from rfl, h.first]
    rfl
  rw [finalTier, hcount]
  decide

theorem fresh_reset (s : ServiceState) : Fresh s.reset :=
  ⟨show (baselineReplicas : Int) < minRedundantReplicas by decide, rfl⟩

theorem healthy_reset (s : ServiceState) : s.reset.restart.status.text = "healthy" := by
  have hstatus : s.reset.restart.status = .healthy := by
    cases hdisk : s.hasDisk <;>
      norm_num [ServiceState.status, ServiceState.restart, ServiceState.clearTransient,
        ServiceState.reset, hdisk, baselineErrorRate, unhealthyErrorRate, baselineMemoryPct,
        baselineCpuPct, baselineDiskPct, unhealthyThreshold, degradedThreshold, degradedErrorRate]
  rw [hstatus]
  rfl

theorem stands_reset (h : Registered w) (service : String) (hknown : service ∈ knownServices) :
    ∃ s : ServiceState, s.hasDisk = hasDisk service ∧
      Stands service s.reset w.store (reset w) := by
  obtain ⟨s, hs, hdisk, _⟩ := h service hknown
  exact ⟨s, hdisk, registered_reset h, hknown, by rw [reset, Dict.get?_map, hs]; rfl, rfl⟩

/-- A service with a full disk. -/
def filled (s : ServiceState) : ServiceState :=
  { s.reset with diskPct := rateMagnitude .high }.addFault .diskFull

theorem fresh_filled (s : ServiceState) : Fresh (filled s) := ⟨(fresh_reset s).sole, rfl⟩

/-- A restart leaves the disk full. -/
theorem unhealthy_filled {s : ServiceState} (hdisk : s.hasDisk = true) :
    (filled s).restart.status.text ≠ "healthy" := by
  have hstatus : (filled s).restart.status = .unhealthy := by
    norm_num [filled, ServiceState.status, ServiceState.restart, ServiceState.clearTransient,
      ServiceState.addFault, ServiceState.reset, hdisk, rateMagnitude, baselineErrorRate,
      unhealthyErrorRate, baselineMemoryPct, baselineCpuPct, unhealthyThreshold]
  rw [hstatus]
  decide

theorem stands_filled (h : Registered w) :
    ∃ s : ServiceState, s.hasDisk = true ∧ Stands "service_c" (filled s) w.store
      (injectFault "service_c" .diskFull .high (reset w)) := by
  obtain ⟨s, hdisk, hstands⟩ := stands_reset h "service_c" (by decide)
  have hfault : injectFault "service_c" .diskFull .high (reset w) =
      (reset w).setClient "service_c" (filled s) := by
    have hpost : (postFault .diskFull .high).run s.reset = (.ok (), filled s) := by
      have hreset : s.reset.hasDisk = true := hdisk
      simp only [postFault, ServiceState.applyFault, if_pos hreset]
      rfl
    rw [injectFault, run_post, ToolContext.client_ok_iff.mpr hstands.found]
    simp only [hpost]
  refine ⟨s, hdisk, ?_⟩
  rw [hfault]
  exact ⟨registered_setClient hstands.registered hstands.found rfl (List.cons_ne_nil _ _),
    hstands.known, Dict.get?_set_self _ _ _, rfl⟩

/-- All services still stand, and at most the run's own key is new in the ledger. -/
structure Leaves (runId target : String) (w w' : ToolContext) : Prop where
  registered : Registered w'
  ledger : ∀ k, k ≠ key runId target → w'.store.get? k = w.store.get? k

theorem leaves_of_entered {target : String} {sv : ServiceState} {o : Outcome} {w' : ToolContext}
    (h : Stands target sv (entered w.store runId target o) w') : Leaves runId target w w' :=
  ⟨h.registered, fun k hk => by
    rw [h.store_eq, entered, Dict.get?_setdefault]
    simp [Ne.symm hk]⟩

theorem hasStatus_of {c : Config} {status : RunState.State}
    (h : c.state.status = some (.str status.value)) (other : RunState.State) :
    hasStatus other c = decide (status = other) := by
  rw [hasStatus, h]
  cases status <;> cases other <;> decide

/-- What was killed before it did anything completes. -/
theorem duringDiagnosing_passes (htakes : Takes ctx.auditStore)
    (hw : Registered w) (hfuel : 8 ≤ fuel)
    (hfree : w.store.get? (key runId "service_a") = none) :
    (duringDiagnosing ctx now fuel runId w).passed = true ∧
      Leaves runId "service_a" w (duringDiagnosing ctx now fuel runId w).world := by
  obtain ⟨fuel, rfl⟩ := Nat.exists_eq_add_of_le' hfuel
  obtain ⟨s, _, hstands⟩ := stands_reset hw "service_a" (by decide)
  have hkilled : start ctx now (fuel + 8) runId { killAt := some .diagnosing } (reset w) =
      .killed (tick now.first (startWorkflow runId {} (reset w))) := rfl
  have hentered : Entered runId "service_a" s.reset w.store
      (startAgain runId {} (tick now.first (startWorkflow runId {} (reset w)))) :=
    entered_again runId (entered_start runId hstands).auditable (hstands.tick _)
  obtain ⟨d, o, hdrive, hstatus, hdone⟩ := process_completes now.second {} fuel htakes hentered
    rfl rfl rfl (fresh_reset s).sole (fresh_reset s).low hfree (healthy_reset s)
  have hagain : again ctx now (fuel + 8) runId {}
      (tick now.first (startWorkflow runId {} (reset w))) = .printed d := hdrive
  simp only [duringDiagnosing, hkilled, hagain, judged, hasStatus_of hstatus]
  exact ⟨rfl, leaves_of_entered hdone⟩

/-- The process that waits, and the one that is handed the approval. -/
theorem interrupted (now : Clocks) (fuel : ℕ) (htakes : Takes ctx.auditStore)
    (hw : Registered w) (hfree : w.store.get? (key runId "service_a") = none) :
    ∃ c d o sv, start ctx now (fuel + 8) runId { tier := "medium" } (reset w) = .printed c ∧
      c.next = some .awaitApproval ∧
      resume ctx now.second {} (fuel + 8) harnessDecision c = .printed d ∧
      d.state.status = some (.str RunState.State.completed.value) ∧
      Stands "service_a" sv (entered w.store runId "service_a" o) d.world := by
  obtain ⟨s, _, hstands⟩ := stands_reset hw "service_a" (by decide)
  obtain ⟨c, hstart, hnext, hplanned, hstands, _, htier⟩ := process_waits now.first
    { tier := "medium" } (fuel + 3) htakes (entered_start runId hstands) rfl rfl rfl
    (fresh_reset s).sole (by simp [finalTier])
  obtain ⟨c', hresume, hnext', hplanned', hstands'⟩ :=
    resumed now.second {} (fuel + 7) htakes hplanned hnext hstands htier
  obtain ⟨d, o, hdrive, hdone⟩ := completes_prepared now.second {} (fuel + 2) htakes hplanned'
    hnext' rfl hstands' hfree (healthy_reset s)
  exact ⟨c, d, o, _, hstart, hnext, by rw [hresume, hdrive], hdone⟩

theorem immediatelyAfterInterrupt_passes (htakes : Takes ctx.auditStore)
    (hw : Registered w) (hfuel : 8 ≤ fuel)
    (hfree : w.store.get? (key runId "service_a") = none) :
    (immediatelyAfterInterrupt ctx now fuel runId w).passed = true ∧
      Leaves runId "service_a" w (immediatelyAfterInterrupt ctx now fuel runId w).world := by
  obtain ⟨fuel, rfl⟩ := Nat.exists_eq_add_of_le' hfuel
  obtain ⟨c, d, o, sv, hstart, _, hresume, hstatus, hdone⟩ :=
    interrupted now fuel htakes hw hfree
  simp only [immediatelyAfterInterrupt, hstart, hresume, judged, hasStatus_of hstatus]
  exact ⟨rfl, leaves_of_entered hdone⟩

theorem duringApprovalWait_passes (htakes : Takes ctx.auditStore)
    (hw : Registered w) (hfuel : 8 ≤ fuel)
    (hfree : w.store.get? (key runId "service_a") = none) :
    (duringApprovalWait ctx now fuel runId w).passed = true ∧
      Leaves runId "service_a" w (duringApprovalWait ctx now fuel runId w).world := by
  obtain ⟨fuel, rfl⟩ := Nat.exists_eq_add_of_le' hfuel
  obtain ⟨c, d, o, sv, hstart, hnext, hresume, hstatus, hdone⟩ :=
    interrupted now fuel htakes hw hfree
  simp only [duringApprovalWait, hstart, hnext, if_true, hresume, judged, hasStatus_of hstatus]
  exact ⟨rfl, leaves_of_entered hdone⟩

/-- A run that has restarted its target is gated when it is started again. -/
theorem gated_again (now : Clocks) (fuel : ℕ) (runId : String) (env : Env)
    (htakes : Takes ctx.auditStore) {c : Config} {target : String} {sv : ServiceState}
    {store : Dict String LedgerEntry} (haudit : Auditable c.state)
    (hstands : Stands target sv.restart store c.world) (hfresh : Fresh sv)
    (htool : env.tool = "restart_service") (htarget : env.target = target)
    (htier : env.tier = "low") (hkill : env.killAt = none) :
    ∃ d, again ctx now (fuel + 8) runId env c = .printed d ∧
      d.state.status = some (.str RunState.State.awaitingApproval.value) ∧
      Stands target sv.restart store d.world := by
  obtain ⟨d, hagain, _, _, hstands', hstatus, _⟩ := process_waits now.second env (fuel + 3) htakes
    (entered_again runId haudit hstands) htool htarget hkill hfresh.sole
    (by rw [htier]; exact hfresh.floored)
  exact ⟨d, hagain, hstatus, hstands'⟩

/-- What was killed behind its restart is not completed: it is not restarted either. -/
theorem midExecuting_fails (htakes : Takes ctx.auditStore) (hw : Registered w) (hfuel : 8 ≤ fuel)
    (hfree : w.store.get? (key runId "service_a") = none) :
    (midExecuting ctx now fuel runId w).passed = false ∧
      Leaves runId "service_a" w (midExecuting ctx now fuel runId w).world := by
  obtain ⟨fuel, rfl⟩ := Nat.exists_eq_add_of_le' hfuel
  obtain ⟨s, _, hstands⟩ := stands_reset hw "service_a" (by decide)
  have hfresh := fresh_reset s
  let env : Env := { killAt := some .executing }
  obtain ⟨c₁, hdrive₁, hplanned₁, hstands₁, _, hnext₁⟩ := plan now.first env (fuel + 5) htakes
    (entered_start runId hstands) rfl rfl hfresh.sole (by decide)
  rw [if_pos hfresh.low] at hnext₁
  obtain ⟨c₂, hdrive₂, hnext₂, hplanned₂, hkey₂, hstands₂⟩ :=
    prepared now.first env (fuel + 4) htakes hplanned₁ hnext₁ hstands₁
  obtain ⟨o, w', hdrive₃, hstands₃⟩ :=
    killed_executing now.first env (fuel + 3) hplanned₂ hnext₂ rfl hkey₂ hstands₂ hfree
  have hkilled : start ctx now (fuel + 8) runId { killAt := some .executing } (reset w) =
      .killed { c₂ with world := w' } := hdrive₁.trans (hdrive₂.trans hdrive₃)
  obtain ⟨d, hagain, hstatus, hdone⟩ := gated_again now fuel runId {} htakes
    (c := { c₂ with world := w' }) hplanned₂.auditable hstands₃ hfresh rfl rfl rfl rfl
  simp only [midExecuting, hkilled, hagain, judged, hasStatus_of hstatus]
  exact ⟨rfl, leaves_of_entered hdone⟩

/-- What was killed in its rollback does not end either. -/
theorem duringRollingBack_fails (htakes : Takes ctx.auditStore)
    (hw : Registered w) (hfuel : 8 ≤ fuel)
    (hfree : w.store.get? (key runId "service_c") = none) :
    (duringRollingBack ctx now fuel runId w).passed = false ∧
      Leaves runId "service_c" w (duringRollingBack ctx now fuel runId w).world := by
  obtain ⟨fuel, rfl⟩ := Nat.exists_eq_add_of_le' hfuel
  obtain ⟨s, hdisk, hstands⟩ := stands_filled hw
  have hfresh := fresh_filled s
  let env : Env := { target := "service_c", killAt := some .rollingBack }
  obtain ⟨c₁, hdrive₁, hplanned₁, hstands₁, _, hnext₁⟩ := plan now.first env (fuel + 5) htakes
    (entered_start runId hstands) rfl rfl hfresh.sole (by decide)
  rw [if_pos hfresh.low] at hnext₁
  obtain ⟨c₂, hdrive₂, hnext₂, hplanned₂, hkey₂, hstands₂⟩ :=
    prepared now.first env (fuel + 4) htakes hplanned₁ hnext₁ hstands₁
  obtain ⟨c₃, o, hdrive₃, hnext₃, hplanned₃, hresult₃, hcompensation₃, hstands₃⟩ :=
    executed now.first env (fuel + 3) htakes hplanned₂ hnext₂ (by decide) hkey₂ hstands₂ hfree
  obtain ⟨c₄, hdrive₄, hnext₄, hplanned₄, hcompensation₄, hstands₄⟩ :=
    verified now.first env (fuel + 2) htakes hplanned₃ hnext₃ ⟨_, hresult₃⟩ hstands₃
  rw [if_neg (unhealthy_filled hdisk)] at hnext₄
  obtain ⟨w', hdrive₅, hstands₅⟩ := killed_rollingBack now.first env (fuel + 1) ctx hnext₄ rfl
    (hcompensation₄.trans hcompensation₃) hstands₄
  have hkilled : start ctx now (fuel + 8) runId env
      (injectFault "service_c" .diskFull .high (reset w)) = .killed { c₄ with world := w' } :=
    hdrive₁.trans (hdrive₂.trans (hdrive₃.trans (hdrive₄.trans hdrive₅)))
  obtain ⟨d, hagain, hstatus, hdone⟩ := gated_again now fuel runId { target := "service_c" } htakes
    (c := { c₄ with world := w' }) hplanned₄.auditable hstands₅ hfresh rfl rfl rfl rfl
  have hverdict : duringRollingBack ctx now (fuel + 8) runId w = ⟨false, d.world⟩ := by
    simp only [duringRollingBack]
    rw [hkilled]
    simp only [hagain, judged, hasStatus_of hstatus]
    rfl
  rw [hverdict]
  exact ⟨rfl, leaves_of_entered hdone⟩

end Verdicts

/-! ### All trials -/

section Trials

variable {ctx : Context} {now : ℕ → Clocks} {uuid : ℕ → String} {fuel : ℕ}

namespace KillPoint

/-- The points at which a killed run still completes. -/
def survived : KillPoint → Bool
  | duringDiagnosing | immediatelyAfterInterrupt | duringApprovalWait => true
  | midExecuting | duringRollingBack => false

theorem trial_verdict (htakes : Takes ctx.auditStore)
    (p : KillPoint) (now : Clocks) {runId : String} {w : ToolContext}
    (hw : Registered w) (hfuel : 8 ≤ fuel) (hfree : w.store.get? (key runId p.target) = none) :
    (p.trial ctx now fuel runId w).passed = p.survived ∧
      Leaves runId p.target w (p.trial ctx now fuel runId w).world := by
  cases p with
  | duringDiagnosing => exact duringDiagnosing_passes htakes hw hfuel hfree
  | immediatelyAfterInterrupt => exact immediatelyAfterInterrupt_passes htakes hw hfuel hfree
  | duringApprovalWait => exact duringApprovalWait_passes htakes hw hfuel hfree
  | midExecuting => exact midExecuting_fails htakes hw hfuel hfree
  | duringRollingBack => exact duringRollingBack_fails htakes hw hfuel hfree

/-- Two kinds of run ids differ in their first eight characters. -/
theorem runIds_inj {p q : KillPoint} {u v : String} (h : p.runIds ++ u = q.runIds ++ v) :
    p = q ∧ u = v := by
  have hfirst : p.runIds.toList.take 8 = q.runIds.toList.take 8 := by
    have hchars := congrArg (List.take 8 ∘ String.toList) h
    simp only [Function.comp_apply, String.toList_append] at hchars
    rwa [List.take_append_of_le_length (by cases p <;> decide),
      List.take_append_of_le_length (by cases q <;> decide)] at hchars
  have hsame : p = q := by
    cases p <;> cases q <;> first | rfl | exact absurd hfirst (by decide)
  subst hsame
  exact ⟨rfl, String.append_right_inj _ |>.mp h⟩

/-- The keys of two trials differ. -/
theorem key_inj {p q : KillPoint} {u v : String}
    (h : key (p.runIds ++ u) p.target = key (q.runIds ++ v) q.target) : u = v := by
  have hlength : (action p.target).toList.length = (action q.target).toList.length := by
    cases p <;> cases q <;> decide
  have hchars := congrArg String.toList h
  simp only [key, idempotencyKey, String.toList_append] at hchars
  obtain ⟨hleft, _⟩ := List.append_inj' hchars hlength
  obtain ⟨hids, _⟩ := List.append_inj' hleft rfl
  rw [← String.toList_append, ← String.toList_append, String.toList_inj] at hids
  exact (runIds_inj hids).2

end KillPoint

/-- No trial from the `i`-th on has been run on the database yet. -/
structure Ready (uuid : ℕ → String) (i : ℕ) (w : ToolContext) : Prop where
  registered : Registered w
  unused : ∀ (p : KillPoint) (j : ℕ), i ≤ j →
    w.store.get? (key (p.runIds ++ uuid j) p.target) = none

/-- A trial uses up its own run id. -/
theorem Ready.leaves {i : ℕ} {w w' : ToolContext} {p : KillPoint} (h : Ready uuid i w)
    (huuid : Function.Injective uuid) (hleaves : Leaves (p.runIds ++ uuid i) p.target w w') :
    Ready uuid (i + 1) w' := by
  refine ⟨hleaves.registered, fun q j hj => ?_⟩
  have hother : key (q.runIds ++ uuid j) q.target ≠ key (p.runIds ++ uuid i) p.target := by
    intro hkeys
    have hsame : j = i := huuid (KillPoint.key_inj hkeys)
    omega
  rw [hleaves.ledger _ hother]
  exact h.unused q j (by omega)

section Results

variable {passes : KillPoint → Bool} {I : ℕ → ToolContext → Prop}
variable (htrial : ∀ (p : KillPoint) (i : ℕ) (w : ToolContext), I i w →
  (p.trial ctx (now i) fuel (p.runIds ++ uuid i) w).passed = passes p ∧
    I (i + 1) (p.trial ctx (now i) fuel (p.runIds ++ uuid i) w).world)

include htrial

theorem repeated_results (p : KillPoint) (trials : ℕ) {i : ℕ} {w : ToolContext} (h : I i w) :
    (repeated ctx now uuid fuel p trials i w).1 = List.replicate trials ⟨p.name, passes p⟩ ∧
      I (i + trials) (repeated ctx now uuid fuel p trials i w).2 := by
  induction trials generalizing i w with
  | zero => exact ⟨rfl, h⟩
  | succ trials ih =>
    obtain ⟨hpassed, hkept⟩ := htrial p i w h
    obtain ⟨hresults, hlast⟩ := ih hkept
    refine ⟨?_, ?_⟩
    · simp only [repeated, hpassed, hresults, List.replicate_succ]
    · rw [show i + (trials + 1) = i + 1 + trials by omega]
      exact hlast

theorem runTrials_results (trials : ℕ) (points : List KillPoint) {i : ℕ} {w : ToolContext}
    (h : I i w) :
    (runTrials ctx now uuid fuel trials points i w).1 =
      points.flatMap fun p => List.replicate trials ⟨p.name, passes p⟩ := by
  induction points generalizing i w with
  | nil => rfl
  | cons p rest ih =>
    obtain ⟨hresults, hkept⟩ := repeated_results htrial p trials h
    simp only [runTrials, hresults, ih hkept, List.flatMap_cons]

end Results

/-- The outcomes of one point, after those of others. -/
theorem byPoint_replicate (d : Dict String (List Bool)) (name : String) (passed : Bool)
    (trials : ℕ) :
    (List.replicate (trials + 1) (⟨name, passed⟩ : KillPointResult)).foldl
        (fun d r => Grouping.append d r.name r.passed) d =
      d.set name ((d.get? name).getD [] ++ List.replicate (trials + 1) passed) := by
  induction trials generalizing d with
  | zero => rfl
  | succ trials ih =>
    rw [List.replicate_succ, List.foldl_cons, ih]
    simp only [Grouping.append, Dict.get?_set_self, Dict.set_set, Option.getD_some,
      List.append_assoc, List.singleton_append, ← List.replicate_succ]

/-- The lines of the table, from what each point has come to. -/
theorem table_of_results {trials : ℕ} (passes : KillPoint → Bool) (htrials : trials ≠ 0) :
    passRateTable (trialFns.flatMap fun p => List.replicate trials ⟨p.name, passes p⟩) =
      trialFns.map fun p =>
        ⟨p.name, if passes p then 100 else 0, if passes p then trials else 0, trials⟩ := by
  obtain ⟨trials, rfl⟩ := Nat.exists_eq_succ_of_ne_zero htrials
  have hpositive : (trials : ℚ) + 1 ≠ 0 := by positivity
  have hpoints : (byPoint (trialFns.flatMap fun p =>
      List.replicate (trials + 1) ⟨p.name, passes p⟩)).entries =
      trialFns.map fun p => (p.name, List.replicate (trials + 1) (passes p)) := by
    simp only [byPoint, trialFns, List.flatMap_cons, List.flatMap_nil, List.append_nil,
      List.foldl_append, byPoint_replicate]
    rfl
  rw [passRateTable, hpoints, List.map_map]
  refine List.map_congr_left fun p _ => ?_
  cases hpass : passes p <;> simp [hpass, List.count_replicate, hpositive]

theorem exitCode_of_failed {results : List KillPointResult} {r : KillPointResult}
    (hr : r ∈ results) (hfailed : r.passed = false) : exitCode results = 1 := by
  rw [exitCode, if_neg]
  intro hall
  rw [List.all_eq_true.mp hall r hr] at hfailed
  cases hfailed

/-- A node whose record is refused raises, and the run stays at its checkpoint. -/
theorem visit_refused (hrefuses : ∀ record, ∃ e, ctx.auditStore record = .error e)
    (now : ℕ → String) (env : Env) (decision : Json) (c : Config) (after : Config → Exit) :
    ∃ world, visit ctx now env decision c after = .raised { c with world := world } := by
  unfold visit
  cases hstep : step ctx.runtime (env.answers decision (now c.audit.length)) (tick now c) with
  | mk result world =>
    cases result with
    | error e => exact ⟨_, rfl⟩
    | ok c' =>
      cases hnext : c.next with
      | none =>
        rw [step, show (tick now c).next = none from hnext] at hstep
        cases hstep
      | some node =>
        obtain ⟨record, _, haudit⟩ := step_entered (c := tick now c) hnext (congrArg Prod.fst hstep)
        obtain ⟨e, he⟩ := hrefuses record
        have hlast : c'.audit.getLast? = some record := by rw [haudit, List.getLast?_concat]
        simp only [hlast, Option.map_some, he]
        exact ⟨_, rfl⟩

/-- No process gets behind its diagnosis then. -/
theorem drive_refused (hrefuses : ∀ record, ∃ e, ctx.auditStore record = .error e)
    {now : ℕ → String} {env : Env} {c : Config} (hnext : c.next = some .diagnose)
    (hkill : env.killAt.map Mark.node ≠ some .diagnose) :
    (∃ world, drive ctx now env fuel c = .raised { c with world := world }) ∨
      drive ctx now env fuel c = .running := by
  cases fuel with
  | zero => exact Or.inr rfl
  | succ fuel =>
    rw [drive_visit hnext (by decide) hkill]
    exact Or.inl (visit_refused hrefuses now env .null c _)

theorem trial_refused (hrefuses : ∀ record, ∃ e, ctx.auditStore record = .error e) (p : KillPoint)
    {now : Clocks} {runId : String} {w : ToolContext} :
    (p.trial ctx now fuel runId w).passed = false := by
  have hstart : ∀ (env : Env) (w : ToolContext), env.killAt.map Mark.node ≠ some .diagnose →
      (∃ world, start ctx now fuel runId env w =
        .raised { startWorkflow runId {} w with world := world }) ∨
        start ctx now fuel runId env w = .running :=
    fun env w hkill => drive_refused hrefuses rfl hkill
  cases p with
  | duringDiagnosing =>
    have hagain : ∀ c, (∃ world, again ctx now fuel runId {} c =
        .raised { startAgain runId {} c with world := world }) ∨
        again ctx now fuel runId {} c = .running :=
      fun c => drive_refused hrefuses rfl (by decide)
    simp only [KillPoint.trial, ChaosTrials.duringDiagnosing]
    split
    · rename_i c _
      obtain ⟨d, hd⟩ | hd := hagain c <;> simp only [hd, judged]
    · rfl
  | immediatelyAfterInterrupt =>
    obtain ⟨world, hd⟩ | hd := hstart { tier := "medium" } (reset w) (by decide)
    · -- the second process does not get behind the diagnosis either
      obtain ⟨_, hresumed⟩ := visit_refused hrefuses now.second {} harnessDecision
        { startWorkflow runId {} (reset w) with world := world }
        (drive ctx now.second {} fuel)
      simp only [KillPoint.trial, ChaosTrials.immediatelyAfterInterrupt, hd, resume,
        startWorkflow] at hresumed ⊢
      rw [hresumed]
      rfl
    · simp only [KillPoint.trial, ChaosTrials.immediatelyAfterInterrupt, hd]
  | duringApprovalWait =>
    obtain ⟨d, hd⟩ | hd := hstart { tier := "medium" } (reset w) (by decide) <;>
      simp only [KillPoint.trial, ChaosTrials.duringApprovalWait, hd]
  | midExecuting =>
    obtain ⟨d, hd⟩ | hd := hstart { killAt := some .executing } (reset w) (by decide) <;>
      simp only [KillPoint.trial, ChaosTrials.midExecuting, hd]
  | duringRollingBack =>
    obtain ⟨d, hd⟩ | hd := hstart { target := "service_c", killAt := some .rollingBack }
        (injectFault "service_c" .diskFull .high (reset w)) (by decide) <;>
      simp only [KillPoint.trial, ChaosTrials.duringRollingBack, hd]

/-- Without trials there is nothing to show, and nothing fails. -/
theorem harness_without_trials (ctx : Context) (now : ℕ → Clocks) (uuid : ℕ → String) (fuel : ℕ)
    (w : ToolContext) : runHarness ctx now uuid fuel 0 w = [] := rfl

/-- A process whose clock stands still. -/
def stopped : Clocks := ⟨fun _ => "t", fun _ => "t"⟩

/-- asyncpg's encoder. -/
def timestamptzEncode : TimestampParam → Except PyError Unit
  | .text _ => .error (.typeError "expected a datetime.date or datetime.datetime instance")
  | .datetime _ => .ok ()

end Trials

end ChaosTrials
