import Interlock.MockService
import Interlock.RecordsTable

/-!
# Tools and the idempotency ledger

The sandbox as the tools reach it, the read-only tools, and the six mutating
tools. A mutating tool looks its key up in the ledger, performs its side effect
on a miss, and records the result together with the compensation it registers.
-/

namespace Tools

open Dictionary PythonValues MockService RecordsTable

/-- The validated input of a mutating tool, without its idempotency key. -/
inductive ToolCall where
  | restartService (service : String)
  | scaleService (service : String) (replicas : Int)
  | deleteRecords (kind : String) (ids : Option (List Int))
  | clearCache (service : String)
  | applyConfigChange (service key value : String)
  | rollbackDeployment (service : String)
  deriving DecidableEq, Repr

/-- The `result` dictionary of a mutating tool: the service's answer, or what
`delete_records` assembles. -/
inductive ExecutionResult where
  | restarted (answer : RestartResponse)
  | scaled (answer : ScaleResponse)
  | deleted (kind : String) (deletedIds : List Int) (deletedCount : Nat)
  | diskCleaned (answer : DiskResponse)
  | configured (answer : ConfigResponse)
  | rolledBack (answer : RollbackResponse)
  deriving DecidableEq, Repr

inductive Compensation where
  | noop (reason : String)
  | scaleService (service : String) (replicas : Int)
  | applyConfigChange (service key : String) (value : Option String)
  | deploy (service version : String)
  | reinsertRecords (rows : List Row)
  deriving DecidableEq, Repr

/-- What `perform` returns: `(result, compensation)`. -/
structure Outcome where
  result : ExecutionResult
  compensation : Compensation
  deriving DecidableEq, Repr

structure MutationResult where
  tool : String
  idempotencyKey : String
  idempotentReplay : Bool
  result : ExecutionResult
  compensation : Compensation
  deriving DecidableEq, Repr

def MutationResult.outcome (m : MutationResult) : Outcome := ⟨m.result, m.compensation⟩

structure LedgerEntry where
  toolName : String
  args : ToolCall
  result : ExecutionResult
  compensation : Compensation
  deriving DecidableEq, Repr

/-- The sandbox behind the tools; `now` is the clock of the log lines. -/
structure ToolContext where
  clients : Dict String ServiceState
  store : Dict String LedgerEntry := .empty
  records : RecordsRepository := .init []
  now : String := ""

namespace ToolContext

def setClient (ctx : ToolContext) (service : String) (s : ServiceState) : ToolContext :=
  { ctx with clients := ctx.clients.set service s }

@[simp] theorem setClient_store (ctx : ToolContext) (service : String) (s : ServiceState) :
    (ctx.setClient service s).store = ctx.store := rfl

@[simp] theorem setClient_records (ctx : ToolContext) (service : String) (s : ServiceState) :
    (ctx.setClient service s).records = ctx.records := rfl

@[simp] theorem setClient_clients (ctx : ToolContext) (service : String) (s : ServiceState) :
    (ctx.setClient service s).clients = ctx.clients.set service s := rfl

theorem setClient_self {ctx : ToolContext} {service : String} {s : ServiceState}
    (h : ctx.clients.get? service = some s) : ctx.setClient service s = ctx := by
  simp only [setClient, Dict.set_get?_self h]

/-- `ctx.client(service)`. -/
def client (ctx : ToolContext) (service : String) : Except PyError ServiceState :=
  match ctx.clients.get? service with
  | some s => .ok s
  | none =>
    let known := pyReprList (ctx.clients.keys.insertionSort (· ≤ ·))
    .error (.valueError (s!"unknown service {pyRepr service}; known: {known}"))

theorem client_ok_iff {ctx : ToolContext} {service : String} {s : ServiceState} :
    ctx.client service = .ok s ↔ ctx.clients.get? service = some s := by
  unfold client
  cases h : ctx.clients.get? service <;> simp

end ToolContext

/-- A POST to a service; `raise_for_status` turns a failed answer into a raise. -/
def post {α : Type} (service : String) (endpoint : Endpoint α) : Action ToolContext α := ⟨fun ctx =>
  match ctx.client service with
  | .error e => (.error e, ctx)
  | .ok s => ((endpoint.run s).1, ctx.setClient service (endpoint.run s).2)⟩

/-- A GET from a service. -/
def get {α : Type} (ctx : ToolContext) (service : String)
    (endpoint : ServiceState → Except PyError α) : Except PyError α := do
  endpoint (← ctx.client service)

theorem run_post {α : Type} (service : String) (endpoint : Endpoint α) (ctx : ToolContext) :
    (post service endpoint).run ctx = match ctx.client service with
      | .error e => (.error e, ctx)
      | .ok s => ((endpoint.run s).1, ctx.setClient service (endpoint.run s).2) := rfl

theorem post_ok_iff {α : Type} {service : String} {endpoint : Endpoint α} {a : α}
    {ctx ctx' : ToolContext} :
    (post service endpoint).run ctx = (.ok a, ctx') ↔
      ∃ s s', ctx.clients.get? service = some s ∧ endpoint.run s = (.ok a, s') ∧
        ctx' = ctx.setClient service s' := by
  rw [run_post]
  cases hc : ctx.client service with
  | error e =>
    constructor
    · intro h; cases h
    · rintro ⟨s, s', hs, _, _⟩
      rw [ToolContext.client_ok_iff.mpr hs] at hc
      cases hc
  | ok s =>
    have hs := ToolContext.client_ok_iff.mp hc
    constructor
    · intro h
      simp only [Prod.mk.injEq] at h
      exact ⟨s, (endpoint.run s).2, hs, Prod.ext h.1 rfl, h.2.symm⟩
    · rintro ⟨t, s', ht, he, rfl⟩
      have heq : s = t := Option.some.inj (hs.symm.trans ht)
      subst t
      simp only [he]

theorem post_error {α : Type} {service : String} {endpoint : Endpoint α} {e : PyError}
    {ctx ctx' : ToolContext} (h : (post service endpoint).run ctx = (.error e, ctx')) :
    ctx' = ctx ∨ ∃ s s', ctx.clients.get? service = some s ∧ endpoint.run s = (.error e, s') ∧
      ctx' = ctx.setClient service s' := by
  rw [run_post] at h
  cases hc : ctx.client service with
  | error e' =>
    rw [hc] at h
    cases h
    exact Or.inl rfl
  | ok s =>
    rw [hc] at h
    simp only [Prod.mk.injEq] at h
    exact Or.inr ⟨s, (endpoint.run s).2, ToolContext.client_ok_iff.mp hc, Prod.ext h.1 rfl,
      h.2.symm⟩

/-- What a fault injector does to a service; a fault it cannot take changes nothing. -/
def injectFault (service : String) (fault : FaultType) (rate : FaultRate) (ctx : ToolContext) :
    ToolContext :=
  ((post service (postFault fault rate)).run ctx).2

/-! ### Read-only tools -/

def getServiceHealth (ctx : ToolContext) (service : String) : Except PyError HealthResponse :=
  get ctx service getHealth

def readLogs (ctx : ToolContext) (service : String) (limit : Nat := 50) :
    Except PyError (List String) :=
  get ctx service (getLogs ctx.now limit)

def getMetrics (ctx : ToolContext) (service : String) : Except PyError MetricsResponse :=
  get ctx service MockService.getMetrics

def checkDiskUsage (ctx : ToolContext) (service : String) : Except PyError DiskResponse :=
  get ctx service getDisk

def queryDbReadonly (ctx : ToolContext) (kind : Option String := none) (limit : Nat := 50) :
    List Row :=
  ctx.records.getByKind kind limit

/-! ### The idempotency wrapper -/

/-- `ctx.store.get(idempotency_key)`. -/
def ledgerGet (key : String) : Action ToolContext (Option LedgerEntry) :=
  ⟨fun ctx => (.ok (ctx.store.get? key), ctx)⟩

/-- `ctx.store.record(...)`: the first entry under a key stays. -/
def ledgerRecord (key : String) (entry : LedgerEntry) : Action ToolContext Unit :=
  ⟨fun ctx => (.ok (), { ctx with store := ctx.store.setdefault key entry })⟩

def runIdempotent (toolName key : String) (args : ToolCall)
    (perform : Action ToolContext Outcome) : Action ToolContext MutationResult := do
  match ← ledgerGet key with
  | some existing =>
    return {
      tool := toolName
      idempotencyKey := key
      idempotentReplay := true
      result := existing.result
      compensation := existing.compensation }
  | none =>
    let outcome ← perform
    ledgerRecord key {
      toolName := toolName
      args := args
      result := outcome.result
      compensation := outcome.compensation }
    return {
      tool := toolName
      idempotencyKey := key
      idempotentReplay := false
      result := outcome.result
      compensation := outcome.compensation }

/-! ### What each tool performs -/

def performRestartService (service : String) : Action ToolContext Outcome := do
  let answer ← post service postRestart
  return ⟨.restarted answer, .noop "restart has no reversible side effect"⟩

def performScaleService (service : String) (replicas : Int) : Action ToolContext Outcome := do
  let answer ← post service (postScale replicas)
  return ⟨.scaled answer, .scaleService service answer.previousReplicas⟩

def rowsToDelete (records : RecordsRepository) (kind : String) : Option (List Int) → List Row
  | some ids => records.getByIds ids
  | none => records.getByKind (some kind) 1000000

def performDeleteRecords (kind : String) (ids : Option (List Int)) : Action ToolContext Outcome :=
  ⟨fun ctx =>
    let rows := rowsToDelete ctx.records kind ids
    let idsToDelete := rows.map Row.id
    (.ok ⟨.deleted kind idsToDelete idsToDelete.length, .reinsertRecords rows⟩,
      { ctx with records := ctx.records.delete idsToDelete })⟩

def performClearCache (service : String) : Action ToolContext Outcome := do
  let answer ← post service postDiskClean
  return ⟨.diskCleaned answer, .noop "cleared cache space cannot be restored"⟩

def performApplyConfigChange (service key value : String) : Action ToolContext Outcome := do
  let answer ← post service (postConfig key (some value))
  return ⟨.configured answer, .applyConfigChange service key answer.previousValue⟩

def performRollbackDeployment (service : String) : Action ToolContext Outcome := do
  let answer ← post service postRollback
  return ⟨.rolledBack answer, .deploy service answer.rolledBackFrom⟩

/-! ### The mutating tools -/

def restartService (service key : String) : Action ToolContext MutationResult :=
  runIdempotent "restart_service" key (.restartService service) (performRestartService service)

def scaleService (service : String) (replicas : Int) (key : String) :
    Action ToolContext MutationResult :=
  runIdempotent "scale_service" key (.scaleService service replicas)
    (performScaleService service replicas)

def deleteRecords (kind : String) (ids : Option (List Int)) (key : String) :
    Action ToolContext MutationResult :=
  runIdempotent "delete_records" key (.deleteRecords kind ids) (performDeleteRecords kind ids)

def clearCache (service key : String) : Action ToolContext MutationResult :=
  runIdempotent "clear_cache" key (.clearCache service) (performClearCache service)

def applyConfigChange (service configKey value key : String) :
    Action ToolContext MutationResult :=
  runIdempotent "apply_config_change" key (.applyConfigChange service configKey value)
    (performApplyConfigChange service configKey value)

def rollbackDeployment (service key : String) : Action ToolContext MutationResult :=
  runIdempotent "rollback_deployment" key (.rollbackDeployment service)
    (performRollbackDeployment service)

namespace ToolCall

def toolName : ToolCall → String
  | restartService _ => "restart_service"
  | scaleService _ _ => "scale_service"
  | deleteRecords _ _ => "delete_records"
  | clearCache _ => "clear_cache"
  | applyConfigChange _ _ _ => "apply_config_change"
  | rollbackDeployment _ => "rollback_deployment"

/-- The side effect of a call, without the ledger around it. -/
def perform : ToolCall → Action ToolContext Outcome
  | restartService service => performRestartService service
  | scaleService service replicas => performScaleService service replicas
  | deleteRecords kind ids => performDeleteRecords kind ids
  | clearCache service => performClearCache service
  | applyConfigChange service key value => performApplyConfigChange service key value
  | rollbackDeployment service => performRollbackDeployment service

/-- The tool a call belongs to, under an idempotency key. -/
def run (call : ToolCall) (key : String) : Action ToolContext MutationResult :=
  match call with
  | restartService service => Tools.restartService service key
  | scaleService service replicas => Tools.scaleService service replicas key
  | deleteRecords kind ids => Tools.deleteRecords kind ids key
  | clearCache service => Tools.clearCache service key
  | applyConfigChange service configKey value => Tools.applyConfigChange service configKey value key
  | rollbackDeployment service => Tools.rollbackDeployment service key

/-- The entry that the ledger keeps of a performed call. -/
def entry (call : ToolCall) (outcome : Outcome) : LedgerEntry :=
  ⟨call.toolName, call, outcome.result, outcome.compensation⟩

theorem run_eq (call : ToolCall) (key : String) :
    call.run key = runIdempotent call.toolName key call call.perform := by
  cases call <;> rfl

end ToolCall

/-! ### One lookup, at most one side effect, one record -/

section Ledger

variable {toolName key : String} {args : ToolCall} {perform : Action ToolContext Outcome}
variable {ctx ctx' : ToolContext}

theorem runIdempotent_hit {existing : LedgerEntry} (h : ctx.store.get? key = some existing) :
    (runIdempotent toolName key args perform).run ctx =
      (.ok ⟨toolName, key, true, existing.result, existing.compensation⟩, ctx) := by
  have hget : (ledgerGet key).run ctx = (.ok (some existing), ctx) := by simp only [ledgerGet, h]
  rw [runIdempotent, Action.run_bind_of_ok hget]
  rfl

theorem runIdempotent_miss {outcome : Outcome} (h : ctx.store.get? key = none)
    (hp : perform.run ctx = (.ok outcome, ctx')) :
    (runIdempotent toolName key args perform).run ctx =
      (.ok ⟨toolName, key, false, outcome.result, outcome.compensation⟩,
        { ctx' with store :=
            ctx'.store.setdefault key ⟨toolName, args, outcome.result, outcome.compensation⟩ }) := by
  have hget : (ledgerGet key).run ctx = (.ok none, ctx) := by simp only [ledgerGet, h]
  rw [runIdempotent, Action.run_bind_of_ok hget]
  simp only
  rw [Action.run_bind_of_ok hp]
  rfl

theorem runIdempotent_raise {e : PyError} (h : ctx.store.get? key = none)
    (hp : perform.run ctx = (.error e, ctx')) :
    (runIdempotent toolName key args perform).run ctx = (.error e, ctx') := by
  have hget : (ledgerGet key).run ctx = (.ok none, ctx) := by simp only [ledgerGet, h]
  rw [runIdempotent, Action.run_bind_of_ok hget]
  simp only
  rw [Action.run_bind_of_error hp]

/-- A side effect leaves the ledger alone, whether it returns or raises. -/
theorem perform_store {call : ToolCall} {r : Except PyError Outcome}
    (h : call.perform.run ctx = (r, ctx')) : ctx'.store = ctx.store := by
  have hpost : ∀ {α : Type} (service : String) (endpoint : Endpoint α) (f : α → Outcome),
      ((post service endpoint >>= fun a => pure (f a)).run ctx).2.store = ctx.store := by
    intro α service endpoint f
    rw [Action.run_bind, run_post]
    cases ctx.client service with
    | error e => rfl
    | ok s => cases hr : (endpoint.run s).1 <;> simp only [hr] <;> rfl
  have hworld : (call.perform.run ctx).2.store = ctx.store := by
    cases call with
    | restartService service => exact hpost service postRestart _
    | scaleService service replicas => exact hpost service (postScale replicas) _
    | deleteRecords kind ids => rfl
    | clearCache service => exact hpost service postDiskClean _
    | applyConfigChange service key value => exact hpost service (postConfig key (some value)) _
    | rollbackDeployment service => exact hpost service postRollback _
  rw [h] at hworld
  exact hworld

/-- A call that returns was answered from the ledger, or performed and recorded. -/
theorem run_ok_cases {call : ToolCall} {m : MutationResult}
    (h : (call.run key).run ctx = (.ok m, ctx')) :
    (∃ existing, ctx.store.get? key = some existing ∧ m.idempotentReplay = true ∧
      m.outcome = ⟨existing.result, existing.compensation⟩ ∧ ctx' = ctx) ∨
    (ctx.store.get? key = none ∧ m.idempotentReplay = false ∧
      ∃ performed, call.perform.run ctx = (.ok m.outcome, performed) ∧
        ctx' = { performed with
          store := performed.store.setdefault key (call.entry m.outcome) }) := by
  rw [ToolCall.run_eq] at h
  cases hs : ctx.store.get? key with
  | some existing =>
    rw [runIdempotent_hit hs] at h
    cases h
    exact Or.inl ⟨existing, rfl, rfl, rfl, rfl⟩
  | none =>
    cases hp : call.perform.run ctx with
    | mk r performed =>
      cases r with
      | error e =>
        rw [runIdempotent_raise hs hp] at h
        cases h
      | ok outcome =>
        rw [runIdempotent_miss hs hp] at h
        cases h
        exact Or.inr ⟨rfl, rfl, performed, rfl, rfl⟩

end Ledger

end Tools
