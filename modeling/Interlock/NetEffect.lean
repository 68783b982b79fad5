import Interlock.Compensations
import Interlock.OwnAction

/-!
# Rolled-back cycles

An execution that was answered from the ledger hands on the compensation of an
earlier one. Rolling back then writes what that earlier execution had found, which
need not be what this cycle found.
-/

namespace NetEffect

open Dictionary PythonValues MockService RecordsTable Tools DiagnosticSweep Execution RunState Nodes
open Graph Transitions Walks PlanningCycle Effects OwnAction ReachableSandbox Compensations Relation

/-! ### Runs stay in reachable sandboxes -/

section Reached

variable {rt : Runtime} {runId : String} {initialState : AgentState} {world : ToolContext}
variable {past : List Event} {c : Config} {v : Visit} {next : Option Node}

theorem reachable_of_led (hled : v.Led rt next) (h : Reachable v.worldBefore) :
    Reachable v.worldAfter := by
  by_cases hexecute : v.node = .execute
  · obtain ⟨action, key, outcome, _, _, hexec, _⟩ := led_execute hled hexecute
    obtain ⟨call, m, _, hrun, _⟩ := executeAction_ok_iff.mp hexec
    have hworld : v.worldAfter = ((call.run key).run v.worldBefore).2 := by rw [hrun]
    rw [hworld]
    exact h.step (.tool call key)
  · by_cases hrolling : v.node = .rollingBack
    · obtain ⟨compensation, result, _, hrun, _⟩ := led_rollingBack hled hrolling
      have hworld : v.worldAfter = ((applyCompensation compensation).run v.worldBefore).2 := by
        rw [hrun]
      rw [hworld]
      exact h.step (.compensate compensation)
    · rw [(led_kept hled).world hexecute hrolling]
      exact h

theorem reachable_of_run (hworld : Reachable world)
    (run : Run rt Operates runId initialState world past c) : Reachable c.world := by
  refine Trace.state_invariant (P := fun c => Reachable c.world) hworld ?_ run
  intro b l c hb hs
  cases hs with
  | visit hnext hstep => exact reachable_of_led (step_ok hnext hstep) hb
  | others h => exact hb.step h

end Reached

/-! ### What a recorded compensation leaves alone -/

/-- The row that inserting the rows in order leaves under an id. -/
def lastRow : List Row → Int → Option Row
  | [], _ => none
  | r :: rest, id => (lastRow rest id).or (if r.id = id then some r else none)

/-- Applying the compensation would not change the component of the call. -/
def Leaves (w : ToolContext) : Compensation → ToolCall → Prop
  | .scaleService service replicas, .scaleService target _ =>
    service = target → replicasOf w target = some replicas
  | .applyConfigChange service key value, .applyConfigChange target _ _ =>
    service = target → ∃ s, w.clients.get? target = some s ∧ s.config.get? key = value
  | .deploy service version, .rollbackDeployment target =>
    service = target → ∃ older, versionsOf w target = some (older ++ [version])
  | .reinsertRecords rows, .deleteRecords _ _ =>
    ∀ id r, lastRow rows id = some r → w.records.rows.get? id = some r
  | _, _ => True

section Leaving

variable {w w₂ : ToolContext} {service target : String} {s s' : ServiceState}

/-- The figure that the call changes is the same in both states of the service. -/
def SameFigure (service : String) (s s' : ServiceState) : ToolCall → Prop
  | .scaleService target _ => service = target → s'.replicas = s.replicas
  | .applyConfigChange target _ _ => service = target → s'.config = s.config
  | .rollbackDeployment target => service = target → s'.versionHistory = s.versionHistory
  | _ => True

theorem map_setClient_iff {β : Type} (f : ServiceState → β)
    (hs : w.clients.get? service = some s) :
    ((w.setClient service s').clients.get? target).map f = (w.clients.get? target).map f ↔
      (service = target → f s' = f s) := by
  rw [ToolContext.setClient_clients, Dict.get?_set]
  by_cases hsame : service = target
  · subst hsame
    simp [hs]
  · simp [hsame]

/-- Storing another state of one service. -/
theorem sameComponent_setClient_iff (hs : w.clients.get? service = some s) (call : ToolCall) :
    SameComponent w (w.setClient service s') call ↔ SameFigure service s s' call := by
  cases call with
  | scaleService target n => exact map_setClient_iff ServiceState.replicas hs
  | applyConfigChange target key value => exact map_setClient_iff ServiceState.config hs
  | rollbackDeployment target => exact map_setClient_iff ServiceState.versionHistory hs
  | deleteRecords kind ids => exact iff_of_true ⟨Dict.Agree.refl _, rfl⟩ trivial
  | restartService target => exact Iff.rfl
  | clearCache target => exact Iff.rfl

theorem get?_insertMany_lastRow (t : RecordsRepository) (rows : List Row) (k : Int) :
    (t.insertMany (rows.map Row.toNew)).rows.get? k = (lastRow rows k).or (t.rows.get? k) := by
  induction rows generalizing t with
  | nil => rfl
  | cons r rest ih =>
    change ((t.insertOne r.toNew).insertMany (rest.map Row.toNew)).rows.get? k = _
    rw [ih, RecordsRepository.get?_insertOne_row, lastRow]
    cases lastRow rest k with
    | some a => rfl
    | none => split <;> rfl

theorem lastRow_of_mem {rows : List Row} {r : Row} (h : r ∈ rows) :
    ∃ a, lastRow rows r.id = some a := by
  induction rows with
  | nil => cases h
  | cons b rest ih =>
    cases hlast : lastRow rest r.id with
    | some a => exact ⟨a, by rw [lastRow, hlast]; rfl⟩
    | none =>
      rcases List.mem_cons.mp h with rfl | h
      · exact ⟨r, by rw [lastRow, hlast, if_pos rfl]; rfl⟩
      · obtain ⟨a, ha⟩ := ih h
        rw [hlast] at ha
        cases ha

theorem reinsert_unchanged_iff (t : RecordsRepository) (rows : List Row) :
    ((t.insertMany (rows.map Row.toNew)).Agree t ∧
        (t.insertMany (rows.map Row.toNew)).nextId = t.nextId) ↔
      ∀ id r, lastRow rows id = some r → t.rows.get? id = some r := by
  constructor
  · rintro ⟨hagree, _⟩ id r hlast
    have hget := hagree id
    rw [get?_insertMany_lastRow, hlast] at hget
    exact hget.symm
  · intro h
    constructor
    · intro id
      rw [get?_insertMany_lastRow]
      cases hlast : lastRow rows id with
      | none => rfl
      | some r => exact (h id r hlast).symm
    · apply RecordsRepository.insertMany_nextId
      intro r hr
      obtain ⟨a, ha⟩ := lastRow_of_mem hr
      exact t.below r.id a (h r.id a ha)

section Kinds

variable {r : RollbackResult} {call : ToolCall}

theorem scale_leaves_iff {replicas : Int}
    (hrun : (applyCompensation (.scaleService service replicas)).run w = (.ok r, w₂)) :
    SameComponent w w₂ call ↔ Leaves w (.scaleService service replicas) call := by
  obtain ⟨s, hs, _, rfl⟩ := compensateScale_ok_iff.mp hrun
  rw [sameComponent_setClient_iff hs]
  cases call with
  | scaleService target n =>
    refine forall_congr' fun hsame => ?_
    subst hsame
    simp [replicasOf, hs, eq_comm]
  | _ => simp [SameFigure, Leaves]

theorem config_leaves_iff {key value : String}
    (hrun : (applyCompensation (.applyConfigChange service key (some value))).run w = (.ok r, w₂)) :
    SameComponent w w₂ call ↔ Leaves w (.applyConfigChange service key (some value)) call := by
  obtain ⟨s, hs, _, rfl⟩ := compensateConfig_ok_iff.mp hrun
  rw [sameComponent_setClient_iff hs]
  cases call with
  | applyConfigChange target k v =>
    refine forall_congr' fun hsame => ?_
    subst hsame
    simp [hs, Dict.set_eq_self_iff]
  | _ => simp [SameFigure, Leaves]

theorem deploy_leaves_iff {version : String} (hw : Versioned w)
    (hrun : (applyCompensation (.deploy service version)).run w = (.ok r, w₂)) :
    SameComponent w w₂ call ↔ Leaves w (.deploy service version) call := by
  obtain ⟨s, hs⟩ := compensateDeploy_client hrun
  obtain ⟨older, u, hlast⟩ := last_version (hw service s hs)
  rw [compensateDeploy_ok hs hlast] at hrun
  cases hrun
  rw [sameComponent_setClient_iff hs]
  cases call with
  | rollbackDeployment target =>
    refine forall_congr' fun hsame => ?_
    subst hsame
    by_cases hv : version = u
    · subst hv
      simp [deployed, versionsOf, hs, hlast]
    · simp [deployed, versionsOf, hs, hlast, hv, Ne.symm hv]
  | _ =>
    by_cases hv : version = u <;> simp [SameFigure, Leaves, deployed, hv]

/-- A compensation that returned changed the component of the call or left it alone. -/
theorem leaves_iff {compensation : Compensation} (hw : Versioned w)
    (hrun : (applyCompensation compensation).run w = (.ok r, w₂)) :
    SameComponent w w₂ call ↔ Leaves w compensation call := by
  cases compensation with
  | noop reason =>
    cases hrun
    cases call with
    | deleteRecords kind ids => exact iff_of_true ⟨Dict.Agree.refl _, rfl⟩ trivial
    | _ => simp [SameComponent, Leaves]
  | scaleService service replicas => exact scale_leaves_iff hrun
  | applyConfigChange service key value =>
    cases value with
    | none => exact absurd hrun (compensateConfig_null key)
    | some v => exact config_leaves_iff hrun
  | deploy service version => exact deploy_leaves_iff hw hrun
  | reinsertRecords rows =>
    rw [compensateReinsert_run] at hrun
    cases hrun
    cases call with
    | deleteRecords kind ids => exact reinsert_unchanged_iff w.records rows
    | _ => simp [SameComponent, Leaves, replicasOf, configOf, versionsOf]

end Kinds

end Leaving

/-! ### One rolled-back cycle -/

section Rollback

variable {rt : Runtime} {runId : String} {initialState : AgentState} {world : ToolContext}
variable {past : List Event} {c : Config} {ex ver rb : Visit}

/-- With nobody in between, a rollback starts from what its execution left. -/
theorem rolled_back_cycle
    (run : Run rt Operates runId initialState world (.visit rb :: .visit ver :: .visit ex :: past) c)
    (hrb : rb.node = .rollingBack) :
    (∃ next, rb.Led rt next) ∧ ex.node = .execute ∧ rb.worldBefore = ex.worldAfter ∧
      rb.before.compensation = ex.after.compensation ∧
      ∃ b, Run rt Operates runId initialState world (.visit ex :: past) b := by
  obtain ⟨hledRb, _, _, b₁, run₁, hnext₁, hstate₁, hworld₁⟩ := run_visit_walk run
  obtain ⟨hledVer, hafterVer, hworldVer, b₂, run₂, hnext₂, hstate₂, hworld₂⟩ := run_visit_walk run₁
  obtain ⟨hledEx, hafterEx, hworldEx, _⟩ := run_visit_walk run₂
  rw [hnext₁, hrb] at hledVer
  have hver : ver.node = .verify := by
    have hedge := led_edge hledVer
    generalize ver.node = n at hedge ⊢
    cases hedge
    rfl
  rw [hnext₂, hver] at hledEx
  have hex : ex.node = .execute := by
    have hedge := led_edge hledEx
    generalize ex.node = n at hedge ⊢
    cases hedge
    rfl
  obtain ⟨hkept, _, _, _, _, _, _, hafter⟩ := led_verify hledVer hver
  refine ⟨⟨_, hledRb⟩, hex, ?_, ?_, b₂, run₂⟩
  · rw [← hworld₁, hworldVer, hkept, ← hworld₂, hworldEx]
  · rw [← hstate₁, hafterVer, hafter, ← hafterEx, ← hstate₂]

/-- A rolled-back cycle leaves the component of its call as it was before the execution,
exactly if its key was new to the ledger or the recorded compensation would not
change that component. -/
theorem net_no_op_iff {action : String} {call : ToolCall} (hworld : Reachable world)
    (run : Run rt Operates runId initialState world (.visit rb :: .visit ver :: .visit ex :: past) c)
    (hrb : rb.node = .rollingBack) (haction : ex.before.proposedAction = some (.str action))
    (hcall : dispatch action (parametersOf ex.before) = .ok call) :
    SameComponent ex.worldBefore rb.worldAfter call ↔
      ∀ key existing, ex.before.idempotencyKey = some (.str key) →
        ex.worldBefore.store.get? key = some existing →
        Leaves ex.worldBefore existing.compensation call := by
  obtain ⟨⟨_, hledRb⟩, hex, hworldRb, hcompensation, b, run'⟩ := rolled_back_cycle run hrb
  obtain ⟨hledEx, _, _, b', run'', _, _, hbefore⟩ := run_visit_walk run'
  have hversioned : Versioned ex.worldBefore := by
    rw [← hbefore]
    exact versioned_of_reachable (reachable_of_run hworld run'')
  obtain ⟨action', key, outcome, haction', hkey, hexec, hafter⟩ := led_execute hledEx hex
  rw [haction] at haction'
  cases haction'
  obtain ⟨call', m, hcall', hrun, rfl⟩ := executeAction_ok_iff.mp hexec
  rw [hcall] at hcall'
  cases hcall'
  obtain ⟨compensation, result, hstored, hrolled, _⟩ := led_rollingBack hledRb hrb
  have hregistered : compensation = m.outcome.compensation := by
    rw [hcompensation, hafter] at hstored
    exact (Option.some.inj hstored).symm
  rw [hregistered, hworldRb] at hrolled
  rcases run_ok_cases hrun with ⟨existing, hexisting, _, houtcome, hsame⟩ |
    ⟨hmiss, _, performed, hperform, hperformed⟩
  · -- answered from the ledger: only the compensation acts
    rw [hsame, houtcome] at hrolled
    rw [leaves_iff hversioned hrolled]
    constructor
    · intro h key' existing' hkey' hexisting'
      rw [hkey] at hkey'
      cases hkey'
      rw [hexisting] at hexisting'
      cases hexisting'
      exact h
    · intro h
      exact h key existing hkey hexisting
  · rw [hperformed] at hrolled
    have hknown : ¬ NewKey ex.worldBefore call :=
      fun hnew => raises_of_newKey hperform hnew _ _ _ hrolled
    obtain ⟨r, w₂, hrestored, hcomponent⟩ := restores_of_performed hversioned hperform _ hknown
    rw [hrolled] at hrestored
    cases hrestored
    refine iff_of_true hcomponent ?_
    intro key' existing' hkey' hexisting'
    rw [hkey] at hkey'
    cases hkey'
    rw [hmiss] at hexisting'
    cases hexisting'

end Rollback

/-! ### A repeated scaling -/

/-- A leaking service stays unhealthy at whatever scale. -/
def leakingSandbox : ToolContext := injectFault "service_b" .memoryLeak .high (freshSandbox [])

theorem reachable_leakingSandbox : Reachable leakingSandbox :=
  (reachable_freshSandbox []).step (.request (.fault .memoryLeak .high) "service_b")

def scaleCycle : List Move :=
  autonomousMoves "scale_service" "service_b" none ++ [.answer {}, .answer {}]

/-- Another operator scales the service. -/
def operatorScales (replicas : Int) (w : ToolContext) : ToolContext :=
  ((post "service_b" (postScale replicas)).run w).2

/-- The execution behind a verification. -/
def executionBefore : List Event → Option Visit
  | .visit _ :: .visit ex :: _ => some ex
  | _ => none

theorem executionBefore_eq {past : List Event} {ex : Visit} (h : executionBefore past = some ex) :
    ∃ ver older, past = .visit ver :: .visit ex :: older := by
  unfold executionBefore at h
  split at h
  · cases h
    exact ⟨_, _, rfl⟩
  · cases h

def scaledInBetween : List Move :=
  .answer {} :: scaleCycle ++ [.answer {}, .answer {}, .change (operatorScales 4)] ++ scaleCycle

theorem allowed_scaledInBetween : Allowed Operates scaledInBetween := by
  intro m hm f hf w
  subst hf
  simp only [scaledInBetween, scaleCycle, autonomousMoves, List.cons_append, List.nil_append,
    List.mem_cons, List.not_mem_nil, or_false, Move.change.injEq, false_or,
    reduceCtorEq] at hm
  rw [hm]
  exact .request (.scale 4) "service_b"

/-- The second rollback undoes what another operator did between the cycles. -/
theorem operator_scaling_undone :
    ∃ past rb ver ex c, Run { digest := id } Operates "run-1" {} leakingSandbox
        (.visit rb :: .visit ver :: .visit ex :: past) c ∧
      rb.node = .rollingBack ∧
      ex.before.proposedAction = some (.str "scale_service:service_b") ∧
      dispatch "scale_service:service_b" (parametersOf ex.before) =
        .ok (.scaleService "service_b" 2) ∧
      ¬ SameComponent ex.worldBefore rb.worldAfter (.scaleService "service_b" 2) := by
  obtain ⟨rb, past, c, hplay, hcheck⟩ := endsIn_spec
    (p := fun rb past _ => decide (rb.node = .rollingBack) && (executionBefore past).any fun ex =>
      ex.before.proposedAction.any (·.isStr "scale_service:service_b") &&
      decide ((dispatch "scale_service:service_b" (parametersOf ex.before)).toOption =
        some (.scaleService "service_b" 2)) &&
      decide (replicasOf rb.worldAfter "service_b" = some 1 ∧
        replicasOf ex.worldBefore "service_b" = some 4))
    (show endsIn (play { digest := id } scaledInBetween []
      (startWorkflow "run-1" {} leakingSandbox)) _ = true by decide +kernel)
  have run : Run { digest := id } Operates "run-1" {} leakingSandbox (.visit rb :: past) c :=
    play_trace allowed_scaledInBetween .start hplay
  rw [Bool.and_eq_true, Option.any_eq_true] at hcheck
  obtain ⟨hrb, ex, hex, hcheck⟩ := hcheck
  obtain ⟨ver, older, rfl⟩ := executionBefore_eq hex
  simp only [Bool.and_eq_true, decide_eq_true_eq] at hcheck hrb
  obtain ⟨⟨haction, hcall⟩, hafter, hbefore⟩ := hcheck
  refine ⟨older, rb, ver, ex, c, run, hrb, Json.any_isStr_iff.mp haction,
    eq_ok_of_toOption hcall, ?_⟩
  intro hsame
  rw [SameComponent, hafter, hbefore] at hsame
  cases hsame

/-- The first cycle of the run is a net no-op. -/
theorem first_scaling_net_no_op :
    ∃ past rb ver ex c, Run { digest := id } Operates "run-1" {} leakingSandbox
        (.visit rb :: .visit ver :: .visit ex :: past) c ∧
      SameComponent ex.worldBefore rb.worldAfter (.scaleService "service_b" 2) := by
  obtain ⟨rb, past, c, hplay, hcheck⟩ := endsIn_spec
    (p := fun rb past _ => decide (rb.node = .rollingBack) && (executionBefore past).any fun ex =>
      ex.before.proposedAction.any (·.isStr "scale_service:service_b") &&
      decide ((dispatch "scale_service:service_b" (parametersOf ex.before)).toOption =
        some (.scaleService "service_b" 2)) && ex.worldBefore.store.entries.isEmpty)
    (show endsIn (play { digest := id } (.answer {} :: scaleCycle) []
      (startWorkflow "run-1" {} leakingSandbox)) _ = true by decide +kernel)
  have run : Run { digest := id } Operates "run-1" {} leakingSandbox (.visit rb :: past) c :=
    play_trace (by simp [Allowed, scaleCycle, autonomousMoves]) .start hplay
  rw [Bool.and_eq_true, Option.any_eq_true] at hcheck
  obtain ⟨hrb, ex, hex, hcheck⟩ := hcheck
  obtain ⟨ver, older, rfl⟩ := executionBefore_eq hex
  simp only [Bool.and_eq_true, decide_eq_true_eq, List.isEmpty_iff] at hcheck hrb
  obtain ⟨⟨haction, hcall⟩, hempty⟩ := hcheck
  refine ⟨older, rb, ver, ex, c, run, (net_no_op_iff reachable_leakingSandbox run hrb
    (Json.any_isStr_iff.mp haction) (eq_ok_of_toOption hcall)).mpr ?_⟩
  intro key existing _ hexisting
  rw [Dict.get?, hempty] at hexisting
  cases hexisting

end NetEffect
