import Interlock.Tools

/-!
# Executing, verifying and compensating an action

A proposed action is dispatched to its tool with the parameters of the
proposal. Verification looks through the read-only tools alone, and a rollback
posts the compensation that the tool registered.
-/

namespace Execution

open Dictionary PythonValues MockService RecordsTable Tools

def defaultScaleReplicas : Int := 2

/-! ### Dispatch -/

/-- The tool input that `tool`, `target` and the parameters stand for. -/
def toolCall (tool target : String) (parameters : Json) : Except PyError ToolCall := do
  if tool = "restart_service" then return .restartService target
  else if tool = "scale_service" then
    let replicas := (← parameters.get "replicas").getD (.int defaultScaleReplicas)
    return .scaleService target (← asInt "ScaleServiceInput" "replicas" replicas)
  else if tool = "clear_cache" then return .clearCache target
  else if tool = "apply_config_change" then
    let key ← parameters.getItem "key"
    let value ← parameters.getItem "value"
    let key ← asStr "ApplyConfigChangeInput" "key" key
    return .applyConfigChange target key (← asStr "ApplyConfigChangeInput" "value" value)
  else if tool = "rollback_deployment" then return .rollbackDeployment target
  else if tool = "delete_records" then
    let ids ← parameters.get "ids"
    return .deleteRecords target (← asOptionalInts "DeleteRecordsInput" "ids" ids)
  else throw (.valueError s!"unknown tool {pyRepr tool}")

def dispatch (proposedAction : String) (parameters : Json) : Except PyError ToolCall := do
  let (tool, target) ← splitColon proposedAction
  toolCall tool target parameters

def executeAction (proposedAction : String) (parameters : Json) (idempotencyKey : String) :
    Action ToolContext Outcome := do
  let call ← Action.lift (dispatch proposedAction parameters)
  let outcome ← call.run idempotencyKey
  return outcome.outcome

/-- An execution that returns dispatched its action and called the tool. -/
theorem executeAction_ok_iff {proposedAction key : String} {parameters : Json} {o : Outcome}
    {w w' : ToolContext} :
    (executeAction proposedAction parameters key).run w = (.ok o, w') ↔
      ∃ call m, dispatch proposedAction parameters = .ok call ∧
        (call.run key).run w = (.ok m, w') ∧ o = m.outcome := by
  constructor
  · intro h
    obtain ⟨call, w₁, hcall, hrest⟩ := Action.run_bind_ok_iff.mp h
    rw [Action.run_lift, Prod.mk.injEq] at hcall
    obtain ⟨hcall, rfl⟩ := hcall
    obtain ⟨m, w₂, hrun, hpure⟩ := Action.run_bind_ok_iff.mp hrest
    cases hpure
    exact ⟨call, m, hcall, hrun, rfl⟩
  · rintro ⟨call, m, hcall, hrun, rfl⟩
    refine Action.run_bind_ok_iff.mpr ⟨call, w, ?_, ?_⟩
    · rw [Action.run_lift, hcall]
    · exact Action.run_bind_ok_iff.mpr ⟨m, w', hrun, rfl⟩

/-! ### Verification -/

/-- `execution_result.get("deleted_ids", [])`. -/
def deletedIds : ExecutionResult → List Int
  | .deleted _ ids _ => ids
  | _ => []

def verifyAction (ctx : ToolContext) (proposedAction : String) (executionResult : ExecutionResult) :
    Except PyError Bool := do
  let (tool, target) ← splitColon proposedAction
  if tool = "delete_records" then
    let deleted := deletedIds executionResult
    let remaining := queryDbReadonly ctx (some target) 1000000
    return deleted.isEmpty || !remaining.any (fun r => decide (r.id ∈ deleted))
  else
    let health ← getServiceHealth ctx target
    return health.status == "healthy"

/-! ### Compensation -/

inductive RollbackResult where
  | notApplied (reason : String)
  | scaled (answer : ScaleResponse)
  | configured (answer : ConfigResponse)
  | deployed (answer : DeployResponse)
  | reinserted (count : Nat)
  deriving DecidableEq, Repr

def applyCompensation : Compensation → Action ToolContext RollbackResult
  | .noop reason => pure (.notApplied reason)
  | .scaleService service replicas => do
    return .scaled (← post service (postScale replicas))
  | .applyConfigChange service key value => do
    return .configured (← post service (postConfig key value))
  | .deploy service version => do
    return .deployed (← post service (postDeploy version))
  | .reinsertRecords rows => ⟨fun ctx =>
    (.ok (.reinserted rows.length),
      { ctx with records := ctx.records.insertMany (rows.map Row.toNew) })⟩

end Execution
