import Interlock.Effects
import Interlock.DiagnosticSweep

/-!
# Reachable sandboxes

Everything that changes a sandbox goes through the endpoints of its services, the
records repository, a tool or a compensation. Along all of it every service keeps
a version history that is not empty and never deploys one version twice in a row.
-/

namespace ReachableSandbox

open Dictionary PythonValues MockService RecordsTable Tools DiagnosticSweep Execution Effects Relation

/-- The endpoints that change a service. -/
inductive IsRoute : {α : Type} → Endpoint α → Prop where
  | restart : IsRoute postRestart
  | scale (replicas : Int) : IsRoute (postScale replicas)
  | config (key : String) (value : Option String) : IsRoute (postConfig key value)
  | rollback : IsRoute postRollback
  | deploy (version : String) : IsRoute (postDeploy version)
  | diskClean : IsRoute postDiskClean
  | fault (fault : FaultType) (rate : FaultRate) : IsRoute (postFault fault rate)
  | reset : IsRoute postReset

/-- One thing that an operator, an agent or the passing of time does to a sandbox. -/
inductive Operates : ToolContext → ToolContext → Prop where
  | request {α : Type} {w : ToolContext} {endpoint : Endpoint α} (h : IsRoute endpoint)
      (service : String) : Operates w ((post service endpoint).run w).2
  | insertRecords {w : ToolContext} (rows : List NewRow) :
      Operates w { w with records := w.records.insertMany rows }
  | deleteRecords {w : ToolContext} (ids : List Int) :
      Operates w { w with records := w.records.delete ids }
  | tool {w : ToolContext} (call : ToolCall) (key : String) : Operates w ((call.run key).run w).2
  | compensate {w : ToolContext} (c : Compensation) : Operates w ((applyCompensation c).run w).2
  | tick {w : ToolContext} (now : String) : Operates w { w with now := now }

/-- What operations make of a sandbox that was set up for a run. -/
def Reachable (w : ToolContext) : Prop :=
  ∃ rows, ReflTransGen Operates (freshSandbox rows) w

theorem reachable_freshSandbox (rows : List Row) : Reachable (freshSandbox rows) := ⟨rows, .refl⟩

theorem Reachable.step {w w' : ToolContext} (h : Reachable w) (hop : Operates w w') :
    Reachable w' := by
  obtain ⟨rows, hops⟩ := h
  exact ⟨rows, hops.tail hop⟩

/-! ### Version histories -/

/-- A deployed version, and no version deployed on top of itself. -/
def Versions (s : ServiceState) : Prop :=
  s.versionHistory ≠ [] ∧ s.versionHistory.IsChain (· ≠ ·)

def Versioned (w : ToolContext) : Prop :=
  ∀ service s, w.clients.get? service = some s → Versions s

section Routes

variable {s : ServiceState}

theorem versions_of_eq {s' : ServiceState} (h : Versions s)
    (heq : s'.versionHistory = s.versionHistory) : Versions s' := by
  rw [Versions, heq]
  exact h

theorem versions_rollback (h : Versions s) : Versions (postRollback.run s).2 := by
  cases hrun : postRollback.run s with
  | mk result s' =>
    cases result with
    | ok answer =>
      obtain ⟨older, u, v, hversions, _, rfl⟩ := postRollback_ok_iff.mp hrun
      obtain ⟨_, hchain⟩ := h
      rw [hversions, List.isChain_append_cons_cons] at hchain
      exact ⟨by simp [ServiceState.clearTransient], hchain.1⟩
    | error e =>
      rw [postRollback_raise hrun]
      exact h

theorem last_version (h : Versions s) : ∃ older u, s.versionHistory = older ++ [u] :=
  ⟨_, _, (List.dropLast_append_getLast h.1).symm⟩

theorem versions_deploy (h : Versions s) (version : String) :
    Versions ((postDeploy version).run s).2 := by
  obtain ⟨older, u, hlast⟩ := last_version h
  rw [postDeploy_run hlast]
  by_cases hv : version = u
  · rw [if_pos hv]
    exact h
  · rw [if_neg hv]
    obtain ⟨_, hchain⟩ := h
    rw [hlast] at hchain
    exact ⟨by simp, List.isChain_append_cons_cons.mpr ⟨hchain, Ne.symm hv, .singleton version⟩⟩

theorem versions_fault (h : Versions s) (fault : FaultType) (rate : FaultRate) :
    Versions ((postFault fault rate).run s).2 := by
  cases hfault : s.applyFault fault rate with
  | error e =>
    simp only [postFault, hfault, badRequest]
    exact h
  | ok s' =>
    simp only [postFault, hfault, badRequest]
    exact versions_of_eq h (applyFault_keeps hfault).2

theorem versions_clean (h : Versions s) : Versions (postDiskClean.run s).2 := by
  cases hrun : postDiskClean.run s with
  | mk result s' =>
    cases result with
    | ok answer =>
      obtain ⟨_, _, rfl⟩ := postDiskClean_ok_iff.mp hrun
      exact versions_of_eq h rfl
    | error e =>
      rw [postDiskClean_raise hrun]
      exact h

theorem versions_reset (s : ServiceState) : Versions s.reset := by
  constructor
  · simp [ServiceState.reset, baselineVersionHistory]
  · simp [ServiceState.reset, baselineVersionHistory]

/-- No endpoint empties a version history or deploys a version on itself. -/
theorem versions_route {α : Type} {endpoint : Endpoint α} (h : Versions s)
    (hroute : IsRoute endpoint) : Versions (endpoint.run s).2 := by
  cases hroute with
  | restart => exact versions_of_eq h rfl
  | scale replicas => exact versions_of_eq h rfl
  | config key value =>
    cases value with
    | none => exact h
    | some v => exact versions_of_eq h rfl
  | rollback => exact versions_rollback h
  | deploy version => exact versions_deploy h version
  | diskClean => exact versions_clean h
  | fault fault rate => exact versions_fault h fault rate
  | reset => exact versions_reset s

end Routes

/-! ### Operations keep them -/

section Operations

variable {w w' : ToolContext}

theorem versioned_setClient {service : String} {s : ServiceState} (h : Versioned w)
    (hs : Versions s) : Versioned (w.setClient service s) := by
  intro other t ht
  rw [ToolContext.setClient_clients, Dict.get?_set] at ht
  split at ht
  · cases ht
    exact hs
  · exact h other t ht

theorem versioned_post {α : Type} {endpoint : Endpoint α} (h : Versioned w)
    (hroute : IsRoute endpoint) (service : String) :
    Versioned ((post service endpoint).run w).2 := by
  rw [run_post]
  cases hc : w.client service with
  | error e => exact h
  | ok s =>
    exact versioned_setClient h
      (versions_route (h service s (ToolContext.client_ok_iff.mp hc)) hroute)

/-- Putting the answer of a request into a result changes nothing more. -/
theorem versioned_post_map {α β : Type} {endpoint : Endpoint α} (h : Versioned w)
    (hroute : IsRoute endpoint) (service : String) (f : α → β) :
    Versioned ((post service endpoint >>= fun a => pure (f a)).run w).2 := by
  have hpost := versioned_post h hroute service
  rw [Action.run_bind]
  cases hrun : (post service endpoint).run w with
  | mk result w' =>
    rw [hrun] at hpost
    cases result with
    | ok a => exact hpost
    | error e => exact hpost

theorem versioned_perform (h : Versioned w) (call : ToolCall) :
    Versioned (call.perform.run w).2 := by
  cases call with
  | restartService service => exact versioned_post_map h .restart service _
  | scaleService service replicas => exact versioned_post_map h (.scale replicas) service _
  | deleteRecords kind ids => exact h
  | clearCache service => exact versioned_post_map h .diskClean service _
  | applyConfigChange service key value =>
    exact versioned_post_map h (.config key (some value)) service _
  | rollbackDeployment service => exact versioned_post_map h .rollback service _

theorem versioned_run (h : Versioned w) (call : ToolCall) (key : String) :
    Versioned ((call.run key).run w).2 := by
  have hperform := versioned_perform h call
  rw [ToolCall.run_eq]
  cases hs : w.store.get? key with
  | some existing =>
    rw [runIdempotent_hit hs]
    exact h
  | none =>
    cases hp : call.perform.run w with
    | mk result performed =>
      rw [hp] at hperform
      cases result with
      | ok o =>
        rw [runIdempotent_miss hs hp]
        exact hperform
      | error e =>
        rw [runIdempotent_raise hs hp]
        exact hperform

theorem versioned_compensate (h : Versioned w) (c : Compensation) :
    Versioned ((applyCompensation c).run w).2 := by
  cases c with
  | noop reason => exact h
  | scaleService service replicas => exact versioned_post_map h (.scale replicas) service _
  | applyConfigChange service key value => exact versioned_post_map h (.config key value) service _
  | deploy service version => exact versioned_post_map h (.deploy version) service _
  | reinsertRecords rows => exact h

theorem versioned_operates (h : Versioned w) (hop : Operates w w') : Versioned w' := by
  cases hop with
  | request hroute service => exact versioned_post h hroute service
  | insertRecords rows => exact h
  | deleteRecords ids => exact h
  | tool call key => exact versioned_run h call key
  | compensate c => exact versioned_compensate h c
  | tick now => exact h

theorem versioned_freshSandbox (rows : List Row) : Versioned (freshSandbox rows) := by
  intro service s hs
  have hmem := Dict.mem_entries.mpr hs
  have hentries : (freshSandbox rows).clients.entries =
      [("service_a", createApp "service_a" false), ("service_b", createApp "service_b" false),
        ("service_c", createApp "service_c" true)] := rfl
  rw [hentries] at hmem
  have hbaseline : s.versionHistory = baselineVersionHistory := by
    simp only [List.mem_cons, Prod.mk.injEq, List.not_mem_nil, or_false] at hmem
    rcases hmem with ⟨_, rfl⟩ | ⟨_, rfl⟩ | ⟨_, rfl⟩ <;> rfl
  rw [Versions, hbaseline, baselineVersionHistory]
  simp

theorem versioned_of_reachable (h : Reachable w) : Versioned w := by
  obtain ⟨rows, hops⟩ := h
  induction hops with
  | refl => exact versioned_freshSandbox rows
  | tail _ hop ih => exact versioned_operates ih hop

end Operations

end ReachableSandbox
