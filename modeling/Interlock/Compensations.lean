import Interlock.ReachableSandbox

/-!
# Compensations

What a compensation does to the component that a tool changes, and whether the
compensation that an execution registered takes its change back.
-/

namespace Compensations

open Dictionary PythonValues MockService RecordsTable Tools DiagnosticSweep Execution Effects
open ReachableSandbox

/-! ### What each compensation does -/

section Specs

variable {ctx ctx' : ToolContext} {service : String} {r : RollbackResult}

theorem compensateScale_ok_iff {replicas : Int} :
    (applyCompensation (.scaleService service replicas)).run ctx = (.ok r, ctx') ↔
      ∃ s, ctx.clients.get? service = some s ∧ r = .scaled ⟨s.name, s.replicas, replicas⟩ ∧
        ctx' = ctx.setClient service { s with replicas := replicas } :=
  post_answered_ok_iff (postScale_run replicas)

theorem compensateConfig_ok_iff {key value : String} :
    (applyCompensation (.applyConfigChange service key (some value))).run ctx = (.ok r, ctx') ↔
      ∃ s, ctx.clients.get? service = some s ∧
        r = .configured ⟨s.name, key, s.config.get? key, value⟩ ∧
        ctx' = ctx.setClient service { s with config := s.config.set key value } :=
  post_answered_ok_iff (postConfig_run key value)

/-- Writing back the value of a key that had none is no request the service takes. -/
theorem compensateConfig_null (key : String) :
    (applyCompensation (.applyConfigChange service key none)).run ctx ≠ (.ok r, ctx') := by
  rw [applyCompensation, ne_eq, post_map_ok_iff]
  rintro ⟨s, a, s', _, he, _⟩
  rw [postConfig_null] at he
  cases he

/-- The service after deploying a version on a history that ends with `u`. -/
def deployed (s : ServiceState) (older : List String) (u version : String) : ServiceState :=
  if version = u then s else { s with versionHistory := older ++ [u, version] }

theorem compensateDeploy_ok {version : String} {s : ServiceState} {older : List String}
    {u : String} (hs : ctx.clients.get? service = some s)
    (hlast : s.versionHistory = older ++ [u]) :
    (applyCompensation (.deploy service version)).run ctx =
      (.ok (.deployed ⟨s.name, u, version⟩),
        ctx.setClient service (deployed s older u version)) := by
  rw [applyCompensation, post_map_ok_iff]
  exact ⟨s, _, _, hs, postDeploy_run hlast, rfl, rfl⟩

theorem compensateDeploy_client {version : String}
    (h : (applyCompensation (.deploy service version)).run ctx = (.ok r, ctx')) :
    ∃ s, ctx.clients.get? service = some s := by
  rw [applyCompensation, post_map_ok_iff] at h
  obtain ⟨s, _, _, hs, _⟩ := h
  exact ⟨s, hs⟩

theorem compensateReinsert_run (rows : List Row) (ctx : ToolContext) :
    (applyCompensation (.reinsertRecords rows)).run ctx =
      (.ok (.reinserted rows.length),
        { ctx with records := ctx.records.insertMany (rows.map Row.toNew) }) := rfl

end Specs

/-! ### The component a tool changes -/

def replicasOf (w : ToolContext) (service : String) : Option Int :=
  (w.clients.get? service).map ServiceState.replicas

def configOf (w : ToolContext) (service : String) : Option (Dict String String) :=
  (w.clients.get? service).map ServiceState.config

def versionsOf (w : ToolContext) (service : String) : Option (List String) :=
  (w.clients.get? service).map ServiceState.versionHistory

/-- The component that the call changes and that can be restored is the same in both
sandboxes; restarts and cleanups have none. -/
def SameComponent (w w' : ToolContext) : ToolCall → Prop
  | .scaleService service _ => replicasOf w' service = replicasOf w service
  | .applyConfigChange service _ _ => configOf w' service = configOf w service
  | .rollbackDeployment service => versionsOf w' service = versionsOf w service
  | .deleteRecords _ _ => w'.records.Agree w.records ∧ w'.records.nextId = w.records.nextId
  | .restartService _ => True
  | .clearCache _ => True

/-- The call writes a configuration key that the service does not have. -/
def NewKey (w : ToolContext) : ToolCall → Prop
  | .applyConfigChange service key _ =>
    ∃ s, w.clients.get? service = some s ∧ s.config.get? key = none
  | _ => False

section Restoring

variable {w w₁ : ToolContext} {call : ToolCall} {o : Outcome}

/-- Right after a side effect its compensation takes the change back, and cannot only
where the change was a new configuration key. -/
theorem restores_of_performed (hw : Versioned w) (hrun : call.perform.run w = (.ok o, w₁))
    (store : Dict String LedgerEntry) (hkey : ¬ NewKey w call) :
    ∃ r w₂, (applyCompensation o.compensation).run { w₁ with store := store } = (.ok r, w₂) ∧
      SameComponent w w₂ call := by
  cases call with
  | restartService service =>
    obtain ⟨s, _, rfl, _⟩ := performRestartService_ok_iff.mp hrun
    exact ⟨_, _, rfl, trivial⟩
  | clearCache service =>
    obtain ⟨s, _, _, rfl, _⟩ := performClearCache_ok_iff.mp hrun
    exact ⟨_, _, rfl, trivial⟩
  | scaleService service replicas =>
    obtain ⟨s, hs, rfl, rfl⟩ := performScaleService_ok_iff.mp hrun
    refine ⟨_, _, compensateScale_ok_iff.mpr ⟨_, Dict.get?_set_self _ _ _, rfl, rfl⟩, ?_⟩
    simp [SameComponent, replicasOf, hs]
  | applyConfigChange service key value =>
    obtain ⟨s, hs, rfl, rfl⟩ := performApplyConfigChange_ok_iff.mp hrun
    cases hold : s.config.get? key with
    | none => exact absurd ⟨s, hs, hold⟩ hkey
    | some old =>
      refine ⟨_, _, compensateConfig_ok_iff.mpr ⟨_, Dict.get?_set_self _ _ _, rfl, rfl⟩, ?_⟩
      simp [SameComponent, configOf, hs, Dict.set_restore value hold]
  | rollbackDeployment service =>
    obtain ⟨s, older, u, v, hs, hversions, rfl, rfl⟩ := performRollbackDeployment_ok_iff.mp hrun
    have hne : v ≠ u := by
      obtain ⟨_, hchain⟩ := hw service s hs
      rw [hversions, List.isChain_append_cons_cons] at hchain
      exact Ne.symm hchain.2.1
    have hpopped : ({ s with versionHistory := older ++ [u] }.clearTransient).versionHistory =
        older ++ [u] := rfl
    refine ⟨_, _, compensateDeploy_ok (Dict.get?_set_self _ _ _) hpopped, ?_⟩
    simp [SameComponent, versionsOf, hs, deployed, hne, hversions]
  | deleteRecords kind ids =>
    rw [ToolCall.perform, performDeleteRecords_run] at hrun
    cases hrun
    exact ⟨_, _, rfl,
      RecordsRepository.reinsert_deleted (fun r hr => stored_of_mem_rowsToDelete hr)⟩

/-- The compensation of a new configuration key always raises. -/
theorem raises_of_newKey (hrun : call.perform.run w = (.ok o, w₁)) (hkey : NewKey w call)
    (w' w₂ : ToolContext) (r : RollbackResult) :
    (applyCompensation o.compensation).run w' ≠ (.ok r, w₂) := by
  cases call with
  | applyConfigChange service key value =>
    obtain ⟨s, hs, rfl, _⟩ := performApplyConfigChange_ok_iff.mp hrun
    obtain ⟨s', hs', hnone⟩ := hkey
    rw [hs] at hs'
    cases hs'
    rw [hnone]
    exact compensateConfig_null key
  | _ => exact absurd hkey id

/-- The compensation that an execution registered succeeds right after it and restores
the component, exactly unless the execution wrote a configuration key that the
service did not have. -/
theorem compensation_restores_iff {key : String} {m : MutationResult} (hw : Reachable w)
    (hrun : (call.run key).run w = (.ok m, w₁)) (hfresh : m.idempotentReplay = false) :
    (∃ r w₂, (applyCompensation m.compensation).run w₁ = (.ok r, w₂) ∧ SameComponent w w₂ call) ↔
      ¬ NewKey w call := by
  rcases run_ok_cases hrun with ⟨_, _, hreplay, _⟩ | ⟨_, _, performed, hperform, rfl⟩
  · rw [hfresh] at hreplay
    cases hreplay
  · constructor
    · rintro ⟨r, w₂, hrestored, _⟩ hkey
      exact raises_of_newKey hperform hkey _ w₂ r hrestored
    · exact restores_of_performed (versioned_of_reachable hw) hperform _

end Restoring

def newFlag : ToolCall := .applyConfigChange "service_a" "feature_flag" "on"

/-- A key that the service never had is written, and its compensation raises. -/
theorem new_key_not_restored :
    ∃ m w₁, Reachable (freshSandbox []) ∧
      (newFlag.run "run-1").run (freshSandbox []) = (.ok m, w₁) ∧ m.idempotentReplay = false ∧
      (∀ reason, m.compensation ≠ .noop reason) ∧
      ¬ ∃ r w₂, (applyCompensation m.compensation).run w₁ = (.ok r, w₂) ∧
        SameComponent (freshSandbox []) w₂ newFlag := by
  refine ⟨_, _, reachable_freshSandbox [], rfl, rfl, ?_, ?_⟩
  · intro reason h
    cases h
  · rintro ⟨r, w₂, hrestored, _⟩
    exact compensateConfig_null "feature_flag" hrestored

/-- Scaling and its compensation leave the replicas as they were. -/
theorem scale_restored :
    ∃ m w₁, ((ToolCall.scaleService "service_a" 5).run "run-1").run (freshSandbox []) =
        (.ok m, w₁) ∧
      ∃ r w₂, (applyCompensation m.compensation).run w₁ = (.ok r, w₂) ∧
        SameComponent (freshSandbox []) w₂ (.scaleService "service_a" 5) :=
  ⟨_, _, rfl, (compensation_restores_iff (reachable_freshSandbox []) rfl rfl).mpr id⟩

end Compensations
