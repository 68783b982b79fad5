import Interlock.Compensations
import Interlock.DriftDetection

/-!
# Faults and completed runs

What a run does to a service only ever clears faults, so a fault that is still active
still reads as it was injected. Verification looks at the service's health alone, and so
lets pass exactly the faults whose reading stays below the thresholds.
-/

namespace FaultsCleared

open Dictionary PythonValues MockService Tools DiagnosticSweep Execution RunState Nodes Graph
open Transitions Walks PlanningCycle Effects Relation

/-! ### Readings -/

/-- The service reads as the fault was injected; an error rate may have got worse. -/
def Reads (rate : FaultRate) (s : ServiceState) : FaultType → Prop
  | .memoryLeak => s.memoryPct = rateMagnitude rate
  | .cpuSpike => s.cpuPct = rateMagnitude rate
  | .highErrorRate => degradedErrorRate ≤ s.errorRate
  | .serviceDown => s.forcedDown = true
  | .diskFull => s.hasDisk = true ∧ s.diskPct = rateMagnitude rate

/-- The faults that leave a service healthy when they are injected at the low rate. -/
def quietFaults : List FaultType := [.memoryLeak, .cpuSpike, .diskFull]

/-- A reading below the thresholds of the service's status. -/
def Quiet (fault : FaultType) (rate : FaultRate) : Prop := fault ∈ quietFaults ∧ rate = .low

theorem low_of_magnitude {rate : FaultRate} (h : rateMagnitude rate < degradedThreshold) :
    rate = .low := by
  cases rate with
  | low => rfl
  | medium | high => norm_num [rateMagnitude, degradedThreshold] at h

/-- What the status `healthy` says of the readings. -/
theorem readings_of_healthy {s : ServiceState} (h : s.status = .healthy) :
    s.forcedDown = false ∧ s.errorRate < degradedErrorRate ∧ s.memoryPct < degradedThreshold ∧
      s.cpuPct < degradedThreshold ∧ (s.hasDisk = true → s.diskPct < degradedThreshold) := by
  have hup : ¬ (s.forcedDown = true ∨ s.errorRate ≥ unhealthyErrorRate) := by
    intro hdown
    rw [ServiceState.status, if_pos hdown] at h
    cases h
  rw [ServiceState.status, if_neg hup] at h
  have hbusy : ¬ max (max s.memoryPct s.cpuPct) (if s.hasDisk then s.diskPct else 0) ≥
      unhealthyThreshold := by
    intro hworst
    simp only [if_pos hworst] at h
    cases h
  simp only [if_neg hbusy] at h
  have hcalm : ¬ (max (max s.memoryPct s.cpuPct) (if s.hasDisk then s.diskPct else 0) ≥
      degradedThreshold ∨ s.errorRate ≥ degradedErrorRate) := by
    intro hworst
    rw [if_pos hworst] at h
    cases h
  rw [not_or, ge_iff_le, ge_iff_le, not_le, not_le, max_lt_iff, max_lt_iff] at hcalm
  obtain ⟨⟨⟨hmemory, hcpu⟩, hdisk⟩, herror⟩ := hcalm
  refine ⟨?_, herror, hmemory, hcpu, ?_⟩
  · simpa using fun hdown => hup (Or.inl hdown)
  · intro hhas
    simpa only [if_pos hhas] using hdisk

/-- A fault that reads as injected on a healthy service is a quiet one. -/
theorem quiet_of_healthy {s : ServiceState} {fault : FaultType} {rate : FaultRate}
    (hs : s.status = .healthy) (hreads : Reads rate s fault) : Quiet fault rate := by
  obtain ⟨hup, herror, hmemory, hcpu, hdisk⟩ := readings_of_healthy hs
  cases fault with
  | memoryLeak =>
    rw [show s.memoryPct = _ from hreads] at hmemory
    exact ⟨by simp [quietFaults], low_of_magnitude hmemory⟩
  | cpuSpike =>
    rw [show s.cpuPct = _ from hreads] at hcpu
    exact ⟨by simp [quietFaults], low_of_magnitude hcpu⟩
  | highErrorRate => exact absurd herror (not_lt.mpr hreads)
  | serviceDown =>
    rw [show s.forcedDown = true from hreads] at hup
    cases hup
  | diskFull =>
    obtain ⟨hhas, hreads⟩ := hreads
    rw [hreads] at hdisk
    exact ⟨by simp [quietFaults], low_of_magnitude (hdisk hhas)⟩

/-! ### Injections -/

/-- Faults that were put on a service one after another, the latest first. -/
inductive Injected (service : String) (w : ToolContext) :
    List (FaultType × FaultRate) → ToolContext → Prop where
  | none : Injected service w [] w
  | inject {earlier : List (FaultType × FaultRate)} {v v' : ToolContext} {fault : FaultType}
      {rate : FaultRate} (before : Injected service w earlier v)
      (h : (post service (postFault fault rate)).run v = (.ok (), v')) :
      Injected service w ((fault, rate) :: earlier) v'

/-- The rate that the fault was last injected at. -/
def lastRate (injections : List (FaultType × FaultRate)) (fault : FaultType) : Option FaultRate :=
  injections.lookup fault

/-- Every active fault that was injected reads so. -/
def InForce (service : String) (injections : List (FaultType × FaultRate)) (w : ToolContext) : Prop :=
  ∀ s fault rate, w.clients.get? service = some s → fault ∈ s.activeFaults →
    lastRate injections fault = some rate → Reads rate s fault

section Injections

variable {service : String} {s s' : ServiceState} {fault other : FaultType} {rate : FaultRate}

theorem postFault_ok (h : (postFault fault rate).run s = (.ok (), s')) :
    s.applyFault fault rate = .ok s' := by
  simp only [postFault] at h
  cases hfault : s.applyFault fault rate with
  | error e =>
    rw [hfault] at h
    cases h
  | ok s₁ =>
    rw [hfault] at h
    cases h
    rfl

theorem reads_addFault {r : FaultRate} : Reads r (s.addFault fault) other ↔ Reads r s other := by
  rw [ServiceState.addFault]
  split
  · rfl
  · cases other <;> rfl

/-- The injected fault reads as it was injected. -/
theorem reads_applyFault (h : s.applyFault fault rate = .ok s') : Reads rate s' fault := by
  cases fault with
  | diskFull =>
    rw [ServiceState.applyFault] at h
    split at h
    · rename_i hdisk
      cases h
      exact reads_addFault.mpr ⟨hdisk, rfl⟩
    · cases h
  | memoryLeak | cpuSpike | serviceDown =>
    cases h
    exact reads_addFault.mpr rfl
  | highErrorRate =>
    cases h
    apply reads_addFault.mpr
    change degradedErrorRate ≤ rateErrorRate rate
    cases rate <;> norm_num [degradedErrorRate, rateErrorRate]

/-- The other faults read as before; a service that is down fails every request. -/
theorem applyFault_others {r : FaultRate} (h : s.applyFault fault rate = .ok s') (hne : other ≠ fault)
    (hactive : other ∈ s'.activeFaults) :
    other ∈ s.activeFaults ∧ (Reads r s other → Reads r s' other) := by
  cases fault with
  | diskFull =>
    rw [ServiceState.applyFault] at h
    split at h
    · cases h
      refine ⟨((mem_addFault _ _ _).mp hactive).resolve_right hne, fun hreads => reads_addFault.mpr ?_⟩
      cases other with
      | diskFull => exact absurd rfl hne
      | _ => exact hreads
    · cases h
  | memoryLeak | cpuSpike | highErrorRate =>
    cases h
    refine ⟨((mem_addFault _ _ _).mp hactive).resolve_right hne, fun hreads => reads_addFault.mpr ?_⟩
    cases other with
    | memoryLeak | cpuSpike | highErrorRate =>
      first
      | exact absurd rfl hne
      | exact hreads
    | _ => exact hreads
  | serviceDown =>
    cases h
    refine ⟨((mem_addFault _ _ _).mp hactive).resolve_right hne, fun hreads => reads_addFault.mpr ?_⟩
    cases other with
    | serviceDown => exact absurd rfl hne
    | highErrorRate =>
      change degradedErrorRate ≤ 1
      norm_num [degradedErrorRate]
    | _ => exact hreads

/-- After injections on a service without active faults, every active fault reads as it
was last injected. -/
theorem inForce_injected {w v : ToolContext} {injections : List (FaultType × FaultRate)}
    (h : Injected service w injections v) : InForce service injections v := by
  induction h with
  | none =>
    intro s fault rate _ _ hrate
    cases hrate
  | @inject earlier v v' fault rate before hpost ih =>
    obtain ⟨s, s', hs, hrun, rfl⟩ := post_ok_iff.mp hpost
    have happlied := postFault_ok hrun
    intro t other r ht hactive hrate
    rw [ToolContext.setClient_clients, Dict.get?_set, if_pos rfl] at ht
    cases ht
    by_cases hother : other = fault
    · subst hother
      rw [lastRate, List.lookup_cons_self] at hrate
      cases hrate
      exact reads_applyFault happlied
    · have hne : (other == fault) = false := by simpa using hother
      rw [lastRate, List.lookup_cons, hne] at hrate
      obtain ⟨hbefore, hkept⟩ := applyFault_others (r := r) happlied hother hactive
      exact hkept (ih s other r hs hbefore hrate)

end Injections

/-! ### What a run does to a service -/

/-- Faults are only cleared, and the others read as before. -/
def Tended (s s' : ServiceState) : Prop :=
  ∀ fault ∈ s'.activeFaults, fault ∈ s.activeFaults ∧
    ∀ rate, Reads rate s fault → Reads rate s' fault

theorem Tended.refl (s : ServiceState) : Tended s s :=
  fun _ hactive => ⟨hactive, fun _ hreads => hreads⟩

/-- An endpoint that tends the service when it answers. -/
def Tends {α : Type} (endpoint : Endpoint α) : Prop :=
  ∀ s a s', endpoint.run s = (.ok a, s') → Tended s s'

section Routes

/-- The transient faults go together with their readings. -/
theorem tended_clearTransient (s : ServiceState) : Tended s s.clearTransient := by
  intro fault hactive
  obtain ⟨hmem, hfull⟩ := List.mem_filter.mp hactive
  obtain rfl : fault = .diskFull := of_decide_eq_true hfull
  exact ⟨hmem, fun _ hreads => hreads⟩

theorem tends_restart : Tends postRestart := by
  intro s a s' h
  cases h
  exact tended_clearTransient _

theorem tends_scale (replicas : Int) : Tends (postScale replicas) := by
  intro s a s' h
  rw [postScale_run] at h
  cases h
  exact Tended.refl s

theorem tends_config (key : String) (value : Option String) : Tends (postConfig key value) := by
  intro s a s' h
  cases value with
  | none =>
    rw [postConfig_null] at h
    cases h
  | some value =>
    rw [postConfig_run] at h
    cases h
    exact Tended.refl s

theorem tends_rollback : Tends postRollback := by
  intro s a s' h
  obtain ⟨older, u, v, _, _, rfl⟩ := postRollback_ok_iff.mp h
  exact tended_clearTransient _

theorem tends_diskClean : Tends postDiskClean := by
  intro s a s' h
  obtain ⟨_, _, rfl⟩ := postDiskClean_ok_iff.mp h
  intro fault hactive
  obtain ⟨hmem, hne⟩ := List.mem_filter.mp hactive
  refine ⟨hmem, fun rate hreads => ?_⟩
  cases fault with
  | diskFull => simp at hne
  | _ => exact hreads

/-- A service that deploys has a version, so its answer is known. -/
theorem tends_deploy (version : String) : Tends (postDeploy version) := by
  intro s a s' h
  rcases List.eq_nil_or_concat s.versionHistory with hnone | ⟨older, u, hlast⟩
  · have hraises : (postDeploy version).run s = (.error (.valueError "list index out of range"), s) := by
      simp [postDeploy, ServiceState.deploy, ServiceState.deployedVersion, hnone, bind, Except.bind]
    rw [hraises] at h
    cases h
  · rw [List.concat_eq_append] at hlast
    rw [postDeploy_run hlast] at h
    cases h
    split
    · exact Tended.refl s
    · exact Tended.refl s

end Routes

/-- Every service that is there afterwards was there and was tended. -/
def TendedAll (w w' : ToolContext) : Prop :=
  ∀ service s', w'.clients.get? service = some s' →
    ∃ s, w.clients.get? service = some s ∧ Tended s s'

section Worlds

variable {w w' : ToolContext}

theorem tendedAll_of_clients (h : w'.clients = w.clients) : TendedAll w w' := by
  intro service s' hs
  rw [h] at hs
  exact ⟨s', hs, Tended.refl s'⟩

theorem tendedAll_post {α β : Type} {service : String} {endpoint : Endpoint α} {f : α → β} {b : β}
    (htends : Tends endpoint)
    (h : (post service endpoint >>= fun a => pure (f a)).run w = (.ok b, w')) : TendedAll w w' := by
  obtain ⟨s, a, s', hs, hrun, _, rfl⟩ := post_map_ok_iff.mp h
  intro other t ht
  rw [ToolContext.setClient_clients, Dict.get?_set] at ht
  split at ht
  · rename_i hsame
    subst hsame
    cases ht
    exact ⟨s, hs, htends s a s' hrun⟩
  · exact ⟨t, ht, Tended.refl t⟩

theorem tendedAll_perform {call : ToolCall} {outcome : Outcome}
    (h : call.perform.run w = (.ok outcome, w')) : TendedAll w w' := by
  cases call with
  | restartService service => exact tendedAll_post tends_restart h
  | scaleService service replicas => exact tendedAll_post (tends_scale replicas) h
  | deleteRecords kind ids =>
    cases h
    exact tendedAll_of_clients rfl
  | clearCache service => exact tendedAll_post tends_diskClean h
  | applyConfigChange service key value => exact tendedAll_post (tends_config key (some value)) h
  | rollbackDeployment service => exact tendedAll_post tends_rollback h

theorem tendedAll_execute {action key : String} {parameters : Json} {outcome : Outcome}
    (h : (executeAction action parameters key).run w = (.ok outcome, w')) : TendedAll w w' := by
  obtain ⟨call, m, _, hrun, _⟩ := executeAction_ok_iff.mp h
  rcases run_ok_cases hrun with ⟨_, _, _, _, rfl⟩ | ⟨_, _, performed, hperform, rfl⟩
  · exact tendedAll_of_clients rfl
  · have htended : TendedAll w performed := tendedAll_perform hperform
    exact htended

theorem tendedAll_compensate {compensation : Compensation} {result : RollbackResult}
    (h : (applyCompensation compensation).run w = (.ok result, w')) : TendedAll w w' := by
  cases compensation with
  | noop reason =>
    cases h
    exact tendedAll_of_clients rfl
  | scaleService service replicas => exact tendedAll_post (tends_scale replicas) h
  | applyConfigChange service key value => exact tendedAll_post (tends_config key value) h
  | deploy service version => exact tendedAll_post (tends_deploy version) h
  | reinsertRecords rows =>
    cases h
    exact tendedAll_of_clients rfl

/-- A visit only clears faults. -/
theorem tendedAll_of_led {rt : Runtime} {v : Visit} {next : Option Node} (h : v.Led rt next) :
    TendedAll v.worldBefore v.worldAfter := by
  by_cases hexecute : v.node = .execute
  · obtain ⟨_, _, _, _, _, hrun, _⟩ := led_execute h hexecute
    exact tendedAll_execute hrun
  by_cases hrollback : v.node = .rollingBack
  · obtain ⟨_, _, _, hrun, _⟩ := led_rollingBack h hrollback
    exact tendedAll_compensate hrun
  rw [(led_kept h).world hexecute hrollback]
  exact tendedAll_of_clients rfl

end Worlds

/-! ### Runs -/

/-- Others leave the service as it is. -/
def LeavesAlone (service : String) (w w' : ToolContext) : Prop :=
  w'.clients.get? service = w.clients.get? service

/-- An action of a tool that works on a service; `delete_records` names a kind of record. -/
def TargetsService (action service : String) : Prop :=
  ∃ tool, splitColon action = .ok (tool, service) ∧ tool ≠ "delete_records"

def lastExecution (vs : List Visit) : Option Visit :=
  vs.find? fun v => decide (v.node = .execute)

section Runs

variable {rt : Runtime} {service runId : String} {initialState : AgentState}
variable {w world : ToolContext} {injections : List (FaultType × FaultRate)}
variable {past : List Event} {c : Config}

theorem inForce_tended {v v' : ToolContext} (h : InForce service injections v)
    (htended : TendedAll v v') : InForce service injections v' := by
  intro s' fault rate hs' hactive hrate
  obtain ⟨s, hs, hkept⟩ := htended service s' hs'
  obtain ⟨hbefore, hreads⟩ := hkept fault hactive
  exact hreads rate (h s fault rate hs hbefore hrate)

theorem inForce_run (h : InForce service injections world)
    (run : Run rt (LeavesAlone service) runId initialState world past c) :
    InForce service injections c.world := by
  refine Trace.state_invariant (P := fun c : Config => InForce service injections c.world) h ?_ run
  intro b l c hb hs
  cases hs with
  | visit hnext hstep => exact inForce_tended hb (tendedAll_of_led (step_ok hnext hstep))
  | others halone =>
    intro s fault rate hs
    rw [halone] at hs
    exact hb s fault rate hs

/-- A verification that passes finds a healthy service. -/
theorem healthy_of_verified {ctx : ToolContext} {action : String} {result : ExecutionResult}
    {s : ServiceState} (htarget : TargetsService action service)
    (hs : ctx.clients.get? service = some s) (h : verifyAction ctx action result = .ok true) :
    s.status = .healthy := by
  obtain ⟨tool, hsplit, htool⟩ := htarget
  have hhealth : getServiceHealth ctx service = getHealth s := by
    rw [getServiceHealth, Tools.get, ToolContext.client_ok_iff.mpr hs]
    rfl
  rw [verifyAction, hsplit] at h
  change (if tool = "delete_records" then _ else _) = _ at h
  rw [if_neg htool, hhealth] at h
  change Except.ok (s.status.text == "healthy") = Except.ok true at h
  have htext : s.status.text = "healthy" := by simpa using Except.ok.inj h
  cases hstatus : s.status with
  | healthy => rfl
  | degraded | unhealthy =>
    rw [hstatus] at htext
    simp [HealthStatus.text] at htext

/-- What verification does about injected faults: one whose reading reaches a threshold
sends the run to `rolling_back`, and a completed run has left none but quiet ones. -/
structure Verified (rt : Runtime) (service : String) (injections : List (FaultType × FaultRate))
    (past : List Event) (c : Config) : Prop where
  caught : ∀ v ∈ visits past, v.node = .verify → ∀ action s fault rate,
    v.before.proposedAction = some (.str action) → TargetsService action service →
    v.worldBefore.clients.get? service = some s → fault ∈ s.activeFaults →
    lastRate injections fault = some rate → ¬ Quiet fault rate →
    v.after.verificationPassed = some (.bool false) ∧ v.Led rt (some .rollingBack)
  gone : c.next = none → c.state.status = some (.str State.completed.value) → ∀ exe action,
    lastExecution (visits past) = some exe →
    exe.before.proposedAction = some (.str action) → TargetsService action service →
    ∀ s fault rate, c.world.clients.get? service = some s →
      lastRate injections fault = some rate → fault ∈ s.activeFaults → Quiet fault rate

/-- A verification with a fault in force that is not quiet fails. -/
theorem caught_of_led {v : Visit} {next : Option Node} (hforce : InForce service injections v.worldBefore)
    (h : v.Led rt next) (hnode : v.node = .verify) {action : String} {s : ServiceState}
    {fault : FaultType} {rate : FaultRate} (haction : v.before.proposedAction = some (.str action))
    (htarget : TargetsService action service)
    (hs : v.worldBefore.clients.get? service = some s) (hactive : fault ∈ s.activeFaults)
    (hrate : lastRate injections fault = some rate) (hloud : ¬ Quiet fault rate) :
    v.after.verificationPassed = some (.bool false) ∧ next = some .rollingBack := by
  obtain ⟨_, action', result, passed, haction', _, hpassed, hafter⟩ := led_verify h hnode
  rw [haction] at haction'
  cases haction'
  have hmark : v.after.verificationPassed = some (.bool passed) := by rw [hafter]
  have hfailed : passed = false := by
    by_contra hne
    rw [Bool.not_eq_false] at hne
    subst hne
    exact hloud (quiet_of_healthy (healthy_of_verified htarget hs hpassed)
      (hforce s fault rate hs hactive hrate))
  subst hfailed
  refine ⟨hmark, ?_⟩
  have hedge := led_edge h
  rw [hnode] at hedge
  cases hedge with
  | failed _ _ => rfl
  | verified hd ht =>
    rw [hmark] at hd
    cases hd
    cases ht

theorem alone_of_steps {v v' : ToolContext} (h : ReflTransGen (LeavesAlone service) v v') :
    LeavesAlone service v v' := by
  induction h with
  | refl => rfl
  | tail _ hstep ih => exact hstep.trans ih

/-- A completed run ends with the execution and the verification of one action. -/
theorem walk_to_completed {vs : List Visit} {s : AgentState} {others : ToolContext → ToolContext → Prop}
    {v : ToolContext} (walk : Walk rt others initialState world vs s none v)
    (hstatus : s.status = some (.str State.completed.value)) :
    ∃ cmp ver exe older action result, vs = cmp :: ver :: exe :: older ∧ exe.node = .execute ∧
      cmp.node ≠ .execute ∧ ver.node ≠ .execute ∧
      exe.before.proposedAction = some (.str action) ∧
      verifyAction ver.worldBefore action result = .ok true ∧
      ReflTransGen others ver.worldBefore v := by
  obtain ⟨cmp, past, hcmp⟩ := walk_last walk (by simp)
  have hcompleted : cmp.node = .completed := by
    rcases to_end hcmp with hnode | hnode
    · exact hnode
    · obtain ⟨_, hafter⟩ := led_escalate hcmp.led hnode
      rw [hcmp.state_eq, hafter] at hstatus
      simp [State.value] at hstatus
  obtain ⟨u, hwalk, hothers⟩ := hcmp.earlier
  rw [hcompleted] at hwalk
  obtain ⟨ver, past', hver⟩ := walk_last hwalk (by simp)
  obtain ⟨hverify, d, hd, htruthy⟩ := to_completed hver
  obtain ⟨hkept, action, result, passed, haction, _, hpassed, hafter⟩ := led_verify hver.led hverify
  obtain ⟨u', hwalk', _⟩ := hver.earlier
  rw [hverify] at hwalk'
  obtain ⟨exe, older, hexe⟩ := walk_last hwalk' (by simp)
  have hexecute := to_verify hexe
  have hsame : exe.before.proposedAction = some (.str action) := by
    rw [← (led_kept hexe.led).proposedAction (by simp [hexecute]) (by simp [hexecute]),
      ← hexe.state_eq, haction]
  have hpass : passed = true := by
    rw [hafter] at hd
    cases hd
    exact htruthy
  refine ⟨cmp, ver, exe, older, action, result, ?_, hexecute, by simp [hcompleted],
    by simp [hverify], hsame, by rw [hpassed, hpass], ?_⟩
  · rw [hcmp.visits_eq, hver.visits_eq, hexe.visits_eq]
  · rw [hcmp.world_eq, (led_completed hcmp.led hcompleted).1, ← hkept, ← hver.world_eq]
    exact hothers

/-- On a service that only the run touches, faults whose reading reaches a threshold are
gone when the run completes, and until then verification fails. -/
theorem faults_cleared (hinjected : Injected service w injections world)
    (run : Run rt (LeavesAlone service) runId initialState world past c) :
    Verified rt service injections past c := by
  have hforce : ∀ {past c}, Run rt (LeavesAlone service) runId initialState world past c →
      InForce service injections c.world := inForce_run (inForce_injected hinjected)
  constructor
  · refine Trace.invariant (P := fun past _ => ∀ v ∈ visits past, v.node = .verify →
      ∀ action s fault rate, v.before.proposedAction = some (.str action) →
        TargetsService action service → v.worldBefore.clients.get? service = some s →
        fault ∈ s.activeFaults → lastRate injections fault = some rate → ¬ Quiet fault rate →
        v.after.verificationPassed = some (.bool false) ∧ v.Led rt (some .rollingBack))
      (by simp [visits]) ?_ run
    intro past b l c' hb hold hs
    cases hs with
    | others halone => exact hold
    | visit hnext hstep =>
      intro v hv hnode action s fault rate haction htarget hget hactive hrate hloud
      rcases List.mem_cons.mp hv with rfl | hv
      · have hled := step_ok hnext hstep
        obtain ⟨hfailed, hrolled⟩ :=
          caught_of_led (hforce hb) hled hnode haction htarget hget hactive hrate hloud
        rw [hrolled] at hled
        exact ⟨hfailed, hled⟩
      · exact hold v hv hnode action s fault rate haction htarget hget hactive hrate hloud
  · intro hend hstatus exe action hlast haction htarget s fault rate hs hrate hactive
    obtain ⟨u, walk, hothers⟩ := run_walk run
    rw [hend] at walk
    obtain ⟨cmp, ver, exe', older, action', result, hvisits, hexecute, hcmp, hver, haction', hpassed,
      hsince⟩ := walk_to_completed walk hstatus
    have hexe : exe' = exe := by simpa [lastExecution, hvisits, hexecute, hcmp, hver] using hlast
    subst hexe
    rw [haction] at haction'
    cases haction'
    have halone : LeavesAlone service ver.worldBefore c.world :=
      alone_of_steps (hsince.trans hothers)
    have hhealthy := healthy_of_verified htarget (halone.symm.trans hs) hpassed
    exact quiet_of_healthy hhealthy (hforce run s fault rate hs hactive hrate)

end Runs

/-- A spike at the low rate on a service that is then scaled. -/
def spiking : ToolContext := injectFault "service_b" .cpuSpike .low (freshSandbox [])

def scaleAndVerify : List Move :=
  .answer {} :: autonomousMoves "scale_service" "service_b" none ++ [.answer {}, .answer {}]

def hasFault (service : String) (fault : FaultType) (w : ToolContext) : Bool :=
  (w.clients.get? service).any fun s => decide (fault ∈ s.activeFaults)

/-- The scaling completes with the spike still active. -/
theorem completed_with_spike :
    ∃ past c exe, Run { digest := id } (LeavesAlone "service_b") "run-1" {} spiking past c ∧
      c.next = none ∧ c.state.status = some (.str "COMPLETED") ∧
      lastExecution (visits past) = some exe ∧
      exe.before.proposedAction = some (.str "scale_service:service_b") ∧
      hasFault "service_b" .cpuSpike c.world = true := by
  obtain ⟨v, past, c, hplay, hcheck⟩ := endsIn_spec
    (p := fun v past c => decide (c.next = none) && c.state.status.any (·.isStr "COMPLETED") &&
      (lastExecution (visits (.visit v :: past))).any
        (fun exe : Visit => exe.before.proposedAction.any (·.isStr "scale_service:service_b")) &&
      hasFault "service_b" .cpuSpike c.world)
    (show endsIn (play { digest := id } scaleAndVerify [] (startWorkflow "run-1" {} spiking)) _ =
      true by decide +kernel)
  rw [Bool.and_eq_true, Bool.and_eq_true, Bool.and_eq_true, decide_eq_true_eq,
    Json.any_isStr_iff, Option.any_eq_true] at hcheck
  obtain ⟨⟨⟨hnext, hstatus⟩, exe, hexe, haction⟩, hactive⟩ := hcheck
  have run : Run { digest := id } (LeavesAlone "service_b") "run-1" {} spiking (.visit v :: past) c :=
    play_trace (by simp [Allowed, scaleAndVerify, autonomousMoves]) .start hplay
  exact ⟨_, c, exe, run, hnext, hstatus, hexe, Json.any_isStr_iff.mp haction, hactive⟩

def leaking : ToolContext := injectFault "service_b" .memoryLeak .medium (freshSandbox [])

theorem injected_leaking : Injected "service_b" (freshSandbox []) [(.memoryLeak, .medium)] leaking :=
  .inject .none rfl

/-- The restart of a leaking service completes without the leak. -/
theorem leak_gone_when_completed :
    ∃ past c, Run { digest := id } (LeavesAlone "service_b") "run-1" {} leaking past c ∧
      c.next = none ∧ c.state.status = some (.str "COMPLETED") ∧
      ∀ s, c.world.clients.get? "service_b" = some s → .memoryLeak ∉ s.activeFaults := by
  obtain ⟨v, past, c, hplay, hcheck⟩ := endsIn_spec
    (p := fun v past c => decide (c.next = none) && c.state.status.any (·.isStr "COMPLETED") &&
      (lastExecution (visits (.visit v :: past))).any
        (fun exe : Visit => exe.before.proposedAction.any (·.isStr "restart_service:service_b")))
    (show endsIn (play { digest := id } (.answer {} ::
      autonomousMoves "restart_service" "service_b" none ++ [.answer {}, .answer {}]) []
      (startWorkflow "run-1" {} leaking)) _ = true by decide +kernel)
  rw [Bool.and_eq_true, Bool.and_eq_true, decide_eq_true_eq, Json.any_isStr_iff,
    Option.any_eq_true] at hcheck
  obtain ⟨⟨hnext, hstatus⟩, exe, hexe, haction⟩ := hcheck
  have run : Run { digest := id } (LeavesAlone "service_b") "run-1" {} leaking (.visit v :: past) c :=
    play_trace (by simp [Allowed, autonomousMoves]) .start hplay
  refine ⟨_, c, run, hnext, hstatus, ?_⟩
  intro s hs hactive
  have htarget : TargetsService "restart_service:service_b" "service_b" :=
    ⟨"restart_service", by decide +kernel, by decide⟩
  have hquiet := (faults_cleared injected_leaking run).gone hnext hstatus exe _ hexe
    (Json.any_isStr_iff.mp haction) htarget s .memoryLeak .medium hs rfl hactive
  exact absurd hquiet.2 (by decide)

end FaultsCleared
