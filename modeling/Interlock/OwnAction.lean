import Interlock.Effects
import Interlock.PlanningCycle

/-!
# Cycles that repeat an action

The key of an execution holds the run and the action, and neither the cycle nor
the parameters. A cycle that repeats an action is therefore answered from the
ledger, which is right only if performing the action would change nothing and
answer the same.
-/

namespace OwnAction

open Dictionary PythonValues MockService RecordsTable Tools DiagnosticSweep Execution RunState
open Nodes Graph Transitions Walks PlanningCycle Effects Relation

/-! ### Side effects that change nothing -/

section Unchanged

variable {service : String} {ctx : ToolContext} {s s' : ServiceState}

theorem setClient_unchanged_iff (h : ctx.clients.get? service = some s) :
    (ctx.setClient service s').clients = ctx.clients ↔ s' = s := by
  rw [ToolContext.setClient_clients, Dict.set_eq_self_iff, h, Option.some.injEq, eq_comm]

theorem restart_changes (s : ServiceState) : s.restart ≠ s := by
  intro h
  have hcount : s.restart.restartCount = s.restartCount + 1 := rfl
  rw [h] at hcount
  omega

theorem scaled_eq_iff {replicas : Int} : { s with replicas := replicas } = s ↔ s.replicas = replicas := by
  constructor
  · intro h
    exact (congrArg ServiceState.replicas h).symm
  · rintro rfl
    rfl

theorem configured_eq_iff {key value : String} :
    { s with config := s.config.set key value } = s ↔ s.config.get? key = some value := by
  rw [← Dict.set_eq_self_iff]
  constructor
  · exact congrArg ServiceState.config
  · intro h
    rw [h]

theorem cleaned_eq_iff :
    cleaned s = s ↔ s.diskPct = baselineDiskPct ∧ .diskFull ∉ s.activeFaults := by
  have hfilter : s.activeFaults.filter (· ≠ .diskFull) = s.activeFaults ↔
      .diskFull ∉ s.activeFaults := by
    rw [List.filter_eq_self]
    constructor
    · intro h hmem
      simpa using h _ hmem
    · intro h a ha
      rw [decide_eq_true_eq]
      rintro rfl
      exact h ha
  constructor
  · intro h
    exact ⟨(congrArg ServiceState.diskPct h).symm, hfilter.mp (congrArg ServiceState.activeFaults h)⟩
  · rintro ⟨hdisk, hfault⟩
    rw [cleaned, hfilter.mpr hfault, ← hdisk]

theorem rolled_back_changes {older : List String} {u v : String}
    (h : s.versionHistory = older ++ [u, v]) :
    { s with versionHistory := older ++ [u] }.clearTransient ≠ s := by
  intro heq
  have hversions := congrArg ServiceState.versionHistory heq
  rw [h] at hversions
  have hlength := congrArg List.length hversions
  simp [ServiceState.clearTransient] at hlength

theorem delete_unchanged_iff {t : RecordsRepository} {rows : List Row}
    (h : ∀ r ∈ rows, t.rows.get? r.id = some r) : t.delete (rows.map Row.id) = t ↔ rows = [] := by
  constructor
  · intro hsame
    by_contra hne
    obtain ⟨r, hr⟩ := List.exists_mem_of_ne_nil rows hne
    have hget := RecordsRepository.get?_delete t (rows.map Row.id) r.id
    rw [hsame, if_pos (List.mem_map_of_mem hr), h r hr] at hget
    cases hget
  · rintro rfl
    rfl

end Unchanged

/-- Performing the call would change no service and no record, and would answer
what the ledger has. -/
def Coincides (existing : LedgerEntry) (w : ToolContext) : ToolCall → Prop
  | .restartService _ => False
  | .rollbackDeployment _ => False
  | .scaleService service replicas => ∃ s, w.clients.get? service = some s ∧
      s.replicas = replicas ∧ existing.result = .scaled ⟨s.name, replicas, replicas⟩
  | .clearCache service => ∃ s, w.clients.get? service = some s ∧ s.hasDisk = true ∧
      s.diskPct = baselineDiskPct ∧ .diskFull ∉ s.activeFaults ∧
      existing.result = .diskCleaned ⟨s.name, baselineDiskPct⟩
  | .applyConfigChange service key value => ∃ s, w.clients.get? service = some s ∧
      s.config.get? key = some value ∧
      existing.result = .configured ⟨s.name, key, some value, value⟩
  | .deleteRecords kind ids => rowsToDelete w.records kind ids = [] ∧
      existing.result = .deleted kind [] 0

theorem coincides_iff {existing : LedgerEntry} {w : ToolContext} {call : ToolCall} :
    Coincides existing w call ↔ ∃ o performed, call.perform.run w = (.ok o, performed) ∧
      w.clients = performed.clients ∧ w.records = performed.records ∧
      existing.result = o.result := by
  cases call with
  | restartService service =>
    refine ⟨False.elim, ?_⟩
    rintro ⟨o, performed, hrun, hclients, _⟩
    obtain ⟨s, hs, _, rfl⟩ := performRestartService_ok_iff.mp hrun
    exact restart_changes s ((setClient_unchanged_iff hs).mp hclients.symm)
  | rollbackDeployment service =>
    refine ⟨False.elim, ?_⟩
    rintro ⟨o, performed, hrun, hclients, _⟩
    obtain ⟨s, older, u, v, hs, hversions, _, rfl⟩ := performRollbackDeployment_ok_iff.mp hrun
    exact rolled_back_changes hversions ((setClient_unchanged_iff hs).mp hclients.symm)
  | scaleService service replicas =>
    constructor
    · rintro ⟨s, hs, hreplicas, hresult⟩
      refine ⟨_, _, performScaleService_ok_iff.mpr ⟨s, hs, rfl, rfl⟩, ?_, rfl, ?_⟩
      · exact ((setClient_unchanged_iff hs).mpr (scaled_eq_iff.mpr hreplicas)).symm
      · rw [hresult, hreplicas]
    · rintro ⟨o, performed, hrun, hclients, _, hresult⟩
      obtain ⟨s, hs, rfl, rfl⟩ := performScaleService_ok_iff.mp hrun
      have hreplicas := scaled_eq_iff.mp ((setClient_unchanged_iff hs).mp hclients.symm)
      rw [hreplicas] at hresult
      exact ⟨s, hs, hreplicas, hresult⟩
  | clearCache service =>
    constructor
    · rintro ⟨s, hs, hdisk, hpct, hfault, hresult⟩
      refine ⟨_, _, performClearCache_ok_iff.mpr ⟨s, hs, hdisk, rfl, rfl⟩, ?_, rfl, hresult⟩
      exact ((setClient_unchanged_iff hs).mpr (cleaned_eq_iff.mpr ⟨hpct, hfault⟩)).symm
    · rintro ⟨o, performed, hrun, hclients, _, hresult⟩
      obtain ⟨s, hs, hdisk, rfl, rfl⟩ := performClearCache_ok_iff.mp hrun
      obtain ⟨hpct, hfault⟩ := cleaned_eq_iff.mp ((setClient_unchanged_iff hs).mp hclients.symm)
      exact ⟨s, hs, hdisk, hpct, hfault, hresult⟩
  | applyConfigChange service key value =>
    constructor
    · rintro ⟨s, hs, hvalue, hresult⟩
      refine ⟨_, _, performApplyConfigChange_ok_iff.mpr ⟨s, hs, rfl, rfl⟩, ?_, rfl, ?_⟩
      · exact ((setClient_unchanged_iff hs).mpr (configured_eq_iff.mpr hvalue)).symm
      · rw [hresult, hvalue]
    · rintro ⟨o, performed, hrun, hclients, _, hresult⟩
      obtain ⟨s, hs, rfl, rfl⟩ := performApplyConfigChange_ok_iff.mp hrun
      have hvalue := configured_eq_iff.mp ((setClient_unchanged_iff hs).mp hclients.symm)
      rw [hvalue] at hresult
      exact ⟨s, hs, hvalue, hresult⟩
  | deleteRecords kind ids =>
    have hstored : ∀ r ∈ rowsToDelete w.records kind ids, w.records.rows.get? r.id = some r :=
      fun r hr => stored_of_mem_rowsToDelete hr
    constructor
    · rintro ⟨hrows, hresult⟩
      refine ⟨_, _, performDeleteRecords_run kind ids w, rfl, ?_, ?_⟩
      · exact ((delete_unchanged_iff hstored).mpr hrows).symm
      · rw [hresult, hrows]
        rfl
    · rintro ⟨o, performed, hrun, _, hrecords, hresult⟩
      rw [ToolCall.perform, performDeleteRecords_run] at hrun
      cases hrun
      have hrows := (delete_unchanged_iff hstored).mp hrecords.symm
      rw [hrows] at hresult
      exact ⟨hrows, hresult⟩

/-! ### Executions of a run -/

/-- The environment after the execution is what performing the cycle's own action
once on the environment before it gives, and so is the answer. -/
def PerformsOwnAction (v : Visit) : Prop :=
  ∃ action call o performed, v.before.proposedAction = some (.str action) ∧
    dispatch action (parametersOf v.before) = .ok call ∧
    call.perform.run v.worldBefore = (.ok o, performed) ∧
    v.worldAfter.clients = performed.clients ∧ v.worldAfter.records = performed.records ∧
    v.after.executionResult = some o.result

/-- Nothing was recorded yet under the run and the action, or what was recorded is
what the action would do and answer now. -/
def FirstOrCoincides (v : Visit) : Prop :=
  ∃ runId action call, v.before.runId = some (.str runId) ∧
    v.before.proposedAction = some (.str action) ∧
    dispatch action (parametersOf v.before) = .ok call ∧
    ∀ existing, v.worldBefore.store.get? (idempotencyKey runId action) = some existing →
      Coincides existing v.worldBefore call

section Runs

variable {rt : Runtime} {others : ToolContext → ToolContext → Prop} {runId : String}
variable {initialState : AgentState} {world : ToolContext} {past : List Event} {c : Config}
variable {v : Visit}

/-- An execution runs under the key of its run and its action. -/
theorem execution_key (run : Run rt others runId initialState world (.visit v :: past) c)
    (hexecute : v.node = .execute) :
    ∃ runIdText action, v.before.runId = some (.str runIdText) ∧
      v.before.proposedAction = some (.str action) ∧
      v.before.idempotencyKey = some (.str (idempotencyKey runIdText action)) := by
  obtain ⟨_, _, _, b, hrun, hnext, hstate, _⟩ := run_visit_walk run
  obtain ⟨w, hwalk, _⟩ := run_walk hrun
  rw [hnext, hexecute, hstate] at hwalk
  obtain ⟨prep, older, hprep⟩ := walk_last hwalk (by simp)
  obtain ⟨_, runIdText, action, hrunId, haction, hafter⟩ :=
    led_prepareExecution hprep.led (to_execute hprep)
  refine ⟨runIdText, action, ?_, ?_, ?_⟩
  all_goals rw [hprep.state_eq, hafter]
  · exact hrunId
  · exact haction

/-- A cycle performs its own action exactly if its key is new to the ledger, or
the recorded answer coincides with what the action would do now. -/
theorem performs_own_action_iff
    (run : Run rt others runId initialState world (.visit v :: past) c)
    (hexecute : v.node = .execute) : PerformsOwnAction v ↔ FirstOrCoincides v := by
  obtain ⟨hled, _⟩ := run_visit_walk run
  obtain ⟨runIdText, action, hrunId, haction, hkey⟩ := execution_key run hexecute
  obtain ⟨action', key, outcome, haction', hkey', hexec, hafter⟩ := led_execute hled hexecute
  rw [haction] at haction'
  cases haction'
  rw [hkey] at hkey'
  cases hkey'
  obtain ⟨call, m, hcall, hrun, rfl⟩ := executeAction_ok_iff.mp hexec
  have hresult : v.after.executionResult = some m.outcome.result := by rw [hafter]
  constructor
  · rintro ⟨a, call', o, performed, ha, hcall', hperform, hclients, hrecords, ho⟩
    rw [haction] at ha
    cases ha
    rw [hcall] at hcall'
    cases hcall'
    refine ⟨runIdText, action, call, hrunId, haction, hcall, ?_⟩
    intro existing hexisting
    rcases run_ok_cases hrun with ⟨stored, hstored, _, houtcome, hworld⟩ | ⟨hmiss, _⟩
    · rw [hexisting] at hstored
      cases hstored
      rw [hworld] at hclients hrecords
      rw [hresult, houtcome, Option.some.injEq] at ho
      exact coincides_iff.mpr ⟨o, performed, hperform, hclients, hrecords, ho⟩
    · rw [hexisting] at hmiss
      cases hmiss
  · rintro ⟨r, a, call', hr, ha, hcall', hledger⟩
    rw [haction] at ha
    cases ha
    rw [hrunId] at hr
    cases hr
    rw [hcall] at hcall'
    cases hcall'
    rcases run_ok_cases hrun with ⟨stored, hstored, _, houtcome, hworld⟩ |
      ⟨_, _, performed, hperform, hworld⟩
    · obtain ⟨o, performed, hperform, hclients, hrecords, ho⟩ :=
        coincides_iff.mp (hledger stored hstored)
      refine ⟨action, call, o, performed, haction, hcall, hperform, ?_, ?_, ?_⟩
      · rw [hworld, hclients]
      · rw [hworld, hrecords]
      · rw [hresult, houtcome, ho]
    · exact ⟨action, call, m.outcome, performed, haction, hcall, hperform, by rw [hworld],
        by rw [hworld], hresult⟩

end Runs

/-! ### A repeated restart -/

/-- A full disk survives the restart, so the verification fails. -/
def fullDisk : ToolContext := injectFault "service_c" .diskFull .high (freshSandbox [])

def restarts (w : ToolContext) : Option Int :=
  (w.clients.get? "service_c").map ServiceState.restartCount

theorem performed_restart_counts {v : Visit} (h : PerformsOwnAction v)
    (haction : v.before.proposedAction = some (.str "restart_service:service_c")) :
    restarts v.worldAfter = (restarts v.worldBefore).map (· + 1) := by
  obtain ⟨action, call, o, performed, ha, hcall, hrun, hclients, _⟩ := h
  rw [haction] at ha
  cases ha
  have hdispatch : dispatch "restart_service:service_c" (parametersOf v.before) =
      .ok (.restartService "service_c") := rfl
  rw [hdispatch] at hcall
  cases hcall
  obtain ⟨s, hs, _, rfl⟩ := performRestartService_ok_iff.mp hrun
  simp only [restarts, hclients, ToolContext.setClient_clients, Dict.get?_set_self, hs,
    Option.map_some]
  rfl

def repeatedRestart : List Move :=
  .answer {} :: autonomousMoves "restart_service" "service_c" none ++ rollbackMoves ++
    autonomousMoves "restart_service" "service_c" none

/-- After a rollback the same restart is proposed, classified and executed again,
and the service is not restarted. -/
theorem repeated_restart_not_performed :
    ∃ past v c, Run { digest := id } (fun _ _ => False) "run-1" {} fullDisk (.visit v :: past) c ∧
      v.node = .execute ∧ ¬ PerformsOwnAction v := by
  obtain ⟨v, past, c, hplay, hcheck⟩ := endsIn_spec
    (p := fun v _ _ => decide (v.node = .execute) &&
      v.before.proposedAction.any (·.isStr "restart_service:service_c") &&
      decide (restarts v.worldAfter = some 1 ∧ restarts v.worldBefore = some 1))
    (show endsIn (play { digest := id } repeatedRestart [] (startWorkflow "run-1" {} fullDisk)) _ =
      true by decide +kernel)
  simp only [Bool.and_eq_true, decide_eq_true_eq] at hcheck
  obtain ⟨⟨hexecute, haction⟩, hafter, hbefore⟩ := hcheck
  refine ⟨past, v, c, play_trace (by simp [Allowed, repeatedRestart, autonomousMoves,
    rollbackMoves]) .start hplay, hexecute, ?_⟩
  intro hperforms
  have hcount := performed_restart_counts hperforms (Json.any_isStr_iff.mp haction)
  rw [hafter, hbefore] at hcount
  cases hcount

/-- The first restart of a run performs its own action. -/
theorem first_restart_performed :
    ∃ past v c, Run { digest := id } (fun _ _ => False) "run-1" {} fullDisk (.visit v :: past) c ∧
      v.node = .execute ∧ v.worldBefore.store.entries = [] ∧
      (PerformsOwnAction v ↔ FirstOrCoincides v) := by
  obtain ⟨v, past, c, hplay, hcheck⟩ := endsIn_spec
    (p := fun v _ _ => decide (v.node = .execute ∧ v.worldBefore.store.entries = []))
    (show endsIn (play { digest := id }
      (.answer {} :: autonomousMoves "restart_service" "service_c" none) []
      (startWorkflow "run-1" {} fullDisk)) _ = true by decide +kernel)
  obtain ⟨hexecute, hempty⟩ := of_decide_eq_true hcheck
  have run : Run { digest := id } (fun _ _ => False) "run-1" {} fullDisk (.visit v :: past) c :=
    play_trace (by simp [Allowed, autonomousMoves]) .start hplay
  exact ⟨past, v, c, run, hexecute, hempty, performs_own_action_iff run hexecute⟩

end OwnAction
