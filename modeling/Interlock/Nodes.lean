import Interlock.Fingerprint
import Interlock.RiskPolicy
import Interlock.RunState

/-!
# The nodes of the state machine

Each node reads the persisted state and the sandbox, takes the answer of the
reasoner, the classifier or the reviewer where it asks one, and returns the
entries it writes.
-/

namespace Nodes

open Dictionary PythonValues MockService RecordsTable Tools DiagnosticSweep Fingerprint
open RiskPolicy Execution RunState

inductive Node where
  | diagnose
  | proposeAction
  | classifyRisk
  | markAwaitingApproval
  | awaitApproval
  | revalidate
  | prepareExecution
  | execute
  | verify
  | rollingBack
  | rolledBack
  | replan
  | escalate
  | completed
  deriving DecidableEq, Repr

/-- A reasoner's proposal; `parameters` may be absent. -/
structure Proposal where
  tool : String
  target : String
  parameters : Option Json := none
  rationale : String := ""

structure Classification where
  tier : String
  rationale : String := ""
  deriving DecidableEq, Repr

/-- What the outside answers if the next node asks: the summary of the reasoner's
diagnosis, its proposal, the classifier's tier, the value the run is resumed
with, and the clock of the audit record. -/
structure Answers where
  summary : String := ""
  proposal : Proposal := { tool := "", target := "" }
  classification : Classification := { tier := "" }
  decision : Json := .null
  clock : String := ""

/-- The values a node gets from its surroundings besides the sandbox. -/
structure Runtime where
  digest : String → String
  revalidate : Bool := true

def diagnose (summary : String) : Action ToolContext Update := do
  let observations ← Action.read gatherObservations
  return [.status .diagnosing, .observations observations, .diagnosis summary]

def Proposal.action (p : Proposal) : String := p.tool ++ ":" ++ p.target

/-- `None if invalid_reason else compute_fingerprint(observations, proposed_action)`. -/
def anchorProposal (rt : Runtime) (obs : Observations) (proposedAction : String) :
    Option String → Except PyError (Option String)
  | some _ => .ok none
  | none => (computeFingerprint rt.digest obs proposedAction).map some

def proposeAction (rt : Runtime) (proposal : Proposal) (state : AgentState) :
    Except PyError Update := do
  let observations ← required "observations" state.observations
  let proposedAction := proposal.action
  let invalidReason ← validateProposal observations proposedAction
  let fingerprint ← anchorProposal rt observations proposedAction invalidReason
  return [.status .actionProposed, .proposedAction proposedAction,
    .actionParameters (proposal.parameters.getD (.obj [])),
    .actionRationale proposal.rationale, .stateFingerprint fingerprint,
    .invalidProposalReason invalidReason]

/-- The truth value of an optional text under a key that may be absent. -/
def textTruthy : Option (Option String) → Bool
  | some (some text) => text != ""
  | _ => false

def routeAfterProposal (state : AgentState) : Node :=
  if textTruthy state.invalidProposalReason then .replan else .classifyRisk

def classifyRisk (result : Classification) (state : AgentState) : Except PyError Update := do
  let proposedAction ← requiredText "proposed_action" state.proposedAction
  let (tool, _) ← splitColon proposedAction
  let observations ← required "observations" state.observations
  let situational ← situationalFeatures observations proposedAction
  let finalTier := applyPolicy tool result.tier situational
  let floorApplied := decide (result.tier = "low" ∧ finalTier = "medium") &&
    situational.any (fun s => !s.hasRedundantReplica)
  return [.status .riskClassified, .riskTierLlm result.tier, .riskTierFinal finalTier,
    .riskRationale result.rationale, .redundancyFloorApplied floorApplied]

def routeAfterRiskClassification (state : AgentState) : Except PyError Node := do
  let tier ← required "risk_tier_final" state.riskTierFinal
  return if tier.isStr "low" then .prepareExecution else .markAwaitingApproval

def markAwaitingApproval : Update := [.status .awaitingApproval]

/-- What a suspended run shows to its reviewer. -/
structure InterruptPayload where
  runId : Json
  diagnosis : String
  proposedAction : Json
  riskTier : Json

def interruptPayload (state : AgentState) : Except PyError InterruptPayload := do
  return {
    runId := ← required "run_id" state.runId
    diagnosis := ← required "diagnosis" state.diagnosis
    proposedAction := ← required "proposed_action" state.proposedAction
    riskTier := ← required "risk_tier_final" state.riskTierFinal }

/-- The text of an edit, if the decision carries one; an edit that is no text
has no `split` to offer to the fingerprint. -/
def editedAction (decision : Json) : Except PyError (Option String) := do
  match ← decision.get "edited_action" with
  | none => return none
  | some edit =>
    if edit.truthy then
      match edit with
      | .str newAction => return some newAction
      | _ => throw (.attributeError "object has no attribute 'split'")
    else return none

def awaitApproval (rt : Runtime) (decision : Json) (state : AgentState) :
    Except PyError Update := do
  let _ ← interruptPayload state
  let decided ← decision.getItem "decision"
  let approver ← decision.get "approver_id"
  let update := [.approvalDecision decided, .approverId (approver.getD .null)]
  match ← editedAction decision with
  | none => return update
  | some newAction =>
    let observations ← required "observations" state.observations
    let fingerprint ← computeFingerprint rt.digest observations newAction
    return update ++ [.proposedAction newAction, .stateFingerprint (some fingerprint)]

def isGranted (decision : Json) : Bool := decision.isStr "approved" || decision.isStr "edited"

def routeAfterApproval (rt : Runtime) (state : AgentState) : Except PyError Node := do
  let decision ← required "approval_decision" state.approvalDecision
  if isGranted decision then return if rt.revalidate then .revalidate else .prepareExecution
  else if decision.isStr "rejected" then return .replan
  else return .escalate

def revalidate (rt : Runtime) (state : AgentState) : Action ToolContext Update := do
  let freshObservations ← Action.read gatherObservations
  Action.lift do
    let proposedAction ← requiredText "proposed_action" state.proposedAction
    let freshFingerprint ← computeFingerprint rt.digest freshObservations proposedAction
    let anchored ← required "state_fingerprint" state.stateFingerprint
    return [.status .revalidating, .observations freshObservations,
      .stateFingerprint (some freshFingerprint),
      .driftDetected (decide (some freshFingerprint ≠ anchored))]

def routeAfterRevalidation (state : AgentState) : Except PyError Node := do
  let drift ← required "drift_detected" state.driftDetected
  return if drift.truthy then .replan else .prepareExecution

def idempotencyKey (runId proposedAction : String) : String := runId ++ ":" ++ proposedAction

def prepareExecution (state : AgentState) : Except PyError Update := do
  let runId ← requiredText "run_id" state.runId
  let proposedAction ← requiredText "proposed_action" state.proposedAction
  return [.status .executing, .idempotencyKey (idempotencyKey runId proposedAction)]

/-- `state.get("action_parameters") or {}`. -/
def parametersOf (state : AgentState) : Json :=
  match state.actionParameters with
  | some parameters => if parameters.truthy then parameters else .obj []
  | none => .obj []

def execute (state : AgentState) : Action ToolContext Update := do
  let proposedAction ← Action.lift (requiredText "proposed_action" state.proposedAction)
  let key ← Action.lift (requiredText "idempotency_key" state.idempotencyKey)
  let outcome ← executeAction proposedAction (parametersOf state) key
  return [.status .executing, .executionResult outcome.result, .compensation outcome.compensation]

def verify (state : AgentState) : Action ToolContext Update := do
  let proposedAction ← Action.lift (requiredText "proposed_action" state.proposedAction)
  let result ← Action.lift (required "execution_result" state.executionResult)
  let passed ← Action.read fun ctx => verifyAction ctx proposedAction result
  return [.status .verifying, .verificationPassed passed]

def routeAfterVerification (state : AgentState) : Except PyError Node := do
  let passed ← required "verification_passed" state.verificationPassed
  return if passed.truthy then .completed else .rollingBack

def rollingBack (state : AgentState) : Action ToolContext Update := do
  let compensation ← Action.lift (required "compensation" state.compensation)
  let result ← applyCompensation compensation
  return [.status .rollingBack, .rollbackResult result]

def rolledBack : Update := [.status .rolledBack]

/-- An optional text inside an f-string. -/
def shownText : Option Json → String
  | some (.str s) => s
  | _ => "None"

def replanReason (state : AgentState) : String :=
  let action := shownText state.proposedAction
  match state.invalidProposalReason with
  | some (some reason) =>
    if reason ≠ "" then s!"{action} is not valid: {reason}; propose a real action instead"
    else laterReason state action
  | _ => laterReason state action
where
  laterReason (state : AgentState) (action : String) : String :=
    if state.approvalDecision.any (·.isStr "rejected") then
      s!"a human reviewer rejected the proposed action ({action}); propose a different one"
    else if state.driftDetected.any Json.truthy then
      "the environment changed since " ++ action ++
        " was proposed, invalidating that diagnosis's basis"
    else if state.verificationPassed.any Json.isFalse then
      s!"{action} was executed and rolled back because it did not fix the problem"
    else s!"{action} did not resolve the incident"

def replan (state : AgentState) : Except PyError Update := do
  let cycles ← (state.replanCycles.getD (.int 0)).addOne
  return [.status .replanning, .replanCycles cycles, .replanContext (replanReason state)]

def routeAfterReplan (state : AgentState) : Except PyError Node := do
  let cycles ← required "replan_cycles" state.replanCycles
  return if ← cycles.atLeast maxReplanCycles then .escalate else .proposeAction

def completed : Update := [.status .completed, .finalState .completed]

def escalate : Update := [.status .escalated, .finalState .escalated]

/-! ### What each node did when it returned -/

section Returned

variable {rt : Runtime} {state : AgentState} {update : Update} {w w' : ToolContext}

theorem diagnose_ok {summary : String} (h : (diagnose summary).run w = (.ok update, w')) :
    w' = w ∧ ∃ obs, gatherObservations w = .ok obs ∧
      update = [.status .diagnosing, .observations obs, .diagnosis summary] := by
  obtain ⟨obs, w₁, hread, hrest⟩ := Action.run_bind_ok_iff.mp h
  rw [Action.run_read, Prod.mk.injEq] at hread
  obtain ⟨hobs, rfl⟩ := hread
  cases hrest
  exact ⟨rfl, obs, hobs, rfl⟩

/-- A proposal is anchored to the observations at hand exactly if it is valid. -/
theorem proposeAction_ok {proposal : Proposal}
    (h : proposeAction rt proposal state = .ok update) :
    ∃ obs reason fingerprint, state.observations = some obs ∧
      validateProposal obs proposal.action = .ok reason ∧
      (reason = none → ∃ f, computeFingerprint rt.digest obs proposal.action = .ok f ∧
        fingerprint = some f) ∧
      update = [.status .actionProposed, .proposedAction proposal.action,
        .actionParameters (proposal.parameters.getD (.obj [])),
        .actionRationale proposal.rationale, .stateFingerprint fingerprint,
        .invalidProposalReason reason] := by
  obtain ⟨obs, hobs, hrest⟩ := except_bind_ok_iff.mp h
  obtain ⟨reason, hreason, hrest⟩ := except_bind_ok_iff.mp hrest
  obtain ⟨fingerprint, hfingerprint, hrest⟩ := except_bind_ok_iff.mp hrest
  cases hrest
  refine ⟨obs, reason, fingerprint, required_ok_iff.mp hobs, hreason, ?_, rfl⟩
  rintro rfl
  cases hf : computeFingerprint rt.digest obs proposal.action with
  | error e =>
    rw [anchorProposal, hf] at hfingerprint
    cases hfingerprint
  | ok f =>
    rw [anchorProposal, hf] at hfingerprint
    cases hfingerprint
    exact ⟨f, rfl, rfl⟩

theorem classifyRisk_ok {result : Classification}
    (h : classifyRisk result state = .ok update) :
    ∃ action tool target obs situational applied, state.proposedAction = some (.str action) ∧
      splitColon action = .ok (tool, target) ∧ state.observations = some obs ∧
      situationalFeatures obs action = .ok situational ∧
      update = [.status .riskClassified, .riskTierLlm result.tier,
        .riskTierFinal (applyPolicy tool result.tier situational),
        .riskRationale result.rationale, .redundancyFloorApplied applied] := by
  obtain ⟨action, haction, hrest⟩ := except_bind_ok_iff.mp h
  obtain ⟨⟨tool, target⟩, hsplit, hrest⟩ := except_bind_ok_iff.mp hrest
  obtain ⟨obs, hobs, hrest⟩ := except_bind_ok_iff.mp hrest
  obtain ⟨situational, hsituational, hrest⟩ := except_bind_ok_iff.mp hrest
  cases hrest
  exact ⟨action, tool, target, obs, situational, _, requiredText_ok_iff.mp haction, hsplit,
    required_ok_iff.mp hobs, hsituational, rfl⟩

/-- An edit replaces the action and anchors it again; without one only the
decision and the approver are written. -/
theorem awaitApproval_ok {decision : Json} (h : awaitApproval rt decision state = .ok update) :
    ∃ decided approver edit, decision.getItem "decision" = .ok decided ∧
      editedAction decision = .ok edit ∧
      ((edit = none ∧ update = [.approvalDecision decided, .approverId approver]) ∨
        ∃ newAction obs fingerprint, edit = some newAction ∧ state.observations = some obs ∧
          computeFingerprint rt.digest obs newAction = .ok fingerprint ∧
          update = [.approvalDecision decided, .approverId approver,
            .proposedAction newAction, .stateFingerprint (some fingerprint)]) := by
  obtain ⟨payload, _, hrest⟩ := except_bind_ok_iff.mp h
  obtain ⟨decided, hdecided, hrest⟩ := except_bind_ok_iff.mp hrest
  obtain ⟨approver, _, hrest⟩ := except_bind_ok_iff.mp hrest
  obtain ⟨edit, hedit, hrest⟩ := except_bind_ok_iff.mp hrest
  refine ⟨decided, approver.getD .null, edit, hdecided, hedit, ?_⟩
  cases edit with
  | none =>
    cases hrest
    exact Or.inl ⟨rfl, rfl⟩
  | some newAction =>
    obtain ⟨obs, hobs, hrest⟩ := except_bind_ok_iff.mp hrest
    obtain ⟨fingerprint, hfingerprint, hrest⟩ := except_bind_ok_iff.mp hrest
    cases hrest
    exact Or.inr ⟨newAction, obs, fingerprint, rfl, required_ok_iff.mp hobs, hfingerprint, rfl⟩

theorem revalidate_ok (h : (revalidate rt state).run w = (.ok update, w')) :
    w' = w ∧ ∃ obs action fingerprint anchored, gatherObservations w = .ok obs ∧
      state.proposedAction = some (.str action) ∧
      computeFingerprint rt.digest obs action = .ok fingerprint ∧
      state.stateFingerprint = some anchored ∧
      update = [.status .revalidating, .observations obs, .stateFingerprint (some fingerprint),
        .driftDetected (decide (some fingerprint ≠ anchored))] := by
  obtain ⟨obs, w₁, hread, hrest⟩ := Action.run_bind_ok_iff.mp h
  rw [Action.run_read, Prod.mk.injEq] at hread
  obtain ⟨hobs, rfl⟩ := hread
  rw [Action.run_lift, Prod.mk.injEq] at hrest
  obtain ⟨hrest, rfl⟩ := hrest
  obtain ⟨action, haction, hrest⟩ := except_bind_ok_iff.mp hrest
  obtain ⟨fingerprint, hfingerprint, hrest⟩ := except_bind_ok_iff.mp hrest
  obtain ⟨anchored, hanchored, hrest⟩ := except_bind_ok_iff.mp hrest
  cases hrest
  exact ⟨rfl, obs, action, fingerprint, anchored, hobs, requiredText_ok_iff.mp haction,
    hfingerprint, required_ok_iff.mp hanchored, rfl⟩

theorem prepareExecution_ok (h : prepareExecution state = .ok update) :
    ∃ runId action, state.runId = some (.str runId) ∧ state.proposedAction = some (.str action) ∧
      update = [.status .executing, .idempotencyKey (idempotencyKey runId action)] := by
  obtain ⟨runId, hrun, hrest⟩ := except_bind_ok_iff.mp h
  obtain ⟨action, haction, hrest⟩ := except_bind_ok_iff.mp hrest
  cases hrest
  exact ⟨runId, action, requiredText_ok_iff.mp hrun, requiredText_ok_iff.mp haction, rfl⟩

theorem execute_ok (h : (execute state).run w = (.ok update, w')) :
    ∃ action key outcome, state.proposedAction = some (.str action) ∧
      state.idempotencyKey = some (.str key) ∧
      (executeAction action (parametersOf state) key).run w = (.ok outcome, w') ∧
      update = [.status .executing, .executionResult outcome.result,
        .compensation outcome.compensation] := by
  obtain ⟨action, w₁, haction, hrest⟩ := Action.run_bind_ok_iff.mp h
  rw [Action.run_lift, Prod.mk.injEq] at haction
  obtain ⟨haction, rfl⟩ := haction
  obtain ⟨key, w₂, hkey, hrest⟩ := Action.run_bind_ok_iff.mp hrest
  rw [Action.run_lift, Prod.mk.injEq] at hkey
  obtain ⟨hkey, rfl⟩ := hkey
  obtain ⟨outcome, w₃, houtcome, hrest⟩ := Action.run_bind_ok_iff.mp hrest
  cases hrest
  exact ⟨action, key, outcome, requiredText_ok_iff.mp haction, requiredText_ok_iff.mp hkey,
    houtcome, rfl⟩

theorem verify_ok (h : (verify state).run w = (.ok update, w')) :
    w' = w ∧ ∃ action result passed, state.proposedAction = some (.str action) ∧
      state.executionResult = some result ∧ verifyAction w action result = .ok passed ∧
      update = [.status .verifying, .verificationPassed passed] := by
  obtain ⟨action, w₁, haction, hrest⟩ := Action.run_bind_ok_iff.mp h
  rw [Action.run_lift, Prod.mk.injEq] at haction
  obtain ⟨haction, rfl⟩ := haction
  obtain ⟨result, w₂, hresult, hrest⟩ := Action.run_bind_ok_iff.mp hrest
  rw [Action.run_lift, Prod.mk.injEq] at hresult
  obtain ⟨hresult, rfl⟩ := hresult
  obtain ⟨passed, w₃, hpassed, hrest⟩ := Action.run_bind_ok_iff.mp hrest
  rw [Action.run_read, Prod.mk.injEq] at hpassed
  obtain ⟨hpassed, rfl⟩ := hpassed
  cases hrest
  exact ⟨rfl, action, result, passed, requiredText_ok_iff.mp haction,
    required_ok_iff.mp hresult, hpassed, rfl⟩

theorem rollingBack_ok (h : (rollingBack state).run w = (.ok update, w')) :
    ∃ compensation result, state.compensation = some compensation ∧
      (applyCompensation compensation).run w = (.ok result, w') ∧
      update = [.status .rollingBack, .rollbackResult result] := by
  obtain ⟨compensation, w₁, hcompensation, hrest⟩ := Action.run_bind_ok_iff.mp h
  rw [Action.run_lift, Prod.mk.injEq] at hcompensation
  obtain ⟨hcompensation, rfl⟩ := hcompensation
  obtain ⟨result, w₂, hresult, hrest⟩ := Action.run_bind_ok_iff.mp hrest
  cases hrest
  exact ⟨compensation, result, required_ok_iff.mp hcompensation, hresult, rfl⟩

theorem replan_ok (h : replan state = .ok update) :
    ∃ cycles, (state.replanCycles.getD (.int 0)).addOne = .ok cycles ∧
      update = [.status .replanning, .replanCycles cycles, .replanContext (replanReason state)] := by
  obtain ⟨cycles, hcycles, hrest⟩ := except_bind_ok_iff.mp h
  cases hrest
  exact ⟨cycles, hcycles, rfl⟩

end Returned

end Nodes
