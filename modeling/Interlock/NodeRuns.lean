import Interlock.Graph

/-!
# Nodes that return

The inversion lemmas of the nodes say what a visit found, once it has returned. These go
the other way: what each node returns for what it finds, and where the graph goes on.
-/

namespace NodeRuns

open PythonValues MockService Tools DiagnosticSweep Fingerprint RiskPolicy Execution RunState Nodes Graph

section Nodes

variable {rt : Runtime} {answers : Answers} {s : AgentState} {w w' : ToolContext}
variable {obs : Observations} {action tool target : String}

theorem diagnose_run (hsweep : gatherObservations w = .ok obs) :
    (nodeFn rt answers .diagnose s).run w =
      (.ok [.status .diagnosing, .observations obs, .diagnosis answers.summary], w) := by
  simp only [nodeFn, diagnose, Action.run_bind, Action.run_read, hsweep, Action.run_pure]

theorem propose_run {reason fingerprint : Option String} (hobs : s.observations = some obs)
    (haction : answers.proposal.action = action)
    (hreason : validateProposal obs action = .ok reason)
    (hanchor : anchorProposal rt obs action reason = .ok fingerprint) :
    (nodeFn rt answers .proposeAction s).run w =
      (.ok [.status .actionProposed, .proposedAction action,
        .actionParameters (answers.proposal.parameters.getD (.obj [])),
        .actionRationale answers.proposal.rationale, .stateFingerprint fingerprint,
        .invalidProposalReason reason], w) := by
  subst haction
  simp only [nodeFn, Action.run_lift, proposeAction, hobs, required_some, bind, Except.bind,
    hreason, hanchor]
  rfl

theorem classify_run (rt : Runtime) (answers : Answers) (w : ToolContext)
    {situational : Option Situation} {tier : String}
    (haction : s.proposedAction = some (.str action)) (hobs : s.observations = some obs)
    (hsplit : splitColon action = .ok (tool, target))
    (hsituational : situationalFeatures obs action = .ok situational)
    (htier : applyPolicy tool answers.classification.tier situational = tier) :
    ∃ applied, (nodeFn rt answers .classifyRisk s).run w =
      (.ok [.status .riskClassified, .riskTierLlm answers.classification.tier, .riskTierFinal tier,
        .riskRationale answers.classification.rationale, .redundancyFloorApplied applied], w) := by
  subst htier
  simp only [nodeFn, Action.run_lift, classifyRisk, haction, hobs, requiredText_str,
    required_some, bind, Except.bind, hsplit, hsituational]
  exact ⟨_, rfl⟩

/-- A decision that edits nothing. -/
theorem await_run {runId shown tier decided approver : Json} {diagnosis : String}
    (hrunId : s.runId = some runId) (hdiagnosis : s.diagnosis = some diagnosis)
    (hshown : s.proposedAction = some shown) (htier : s.riskTierFinal = some tier)
    (hdecided : answers.decision.getItem "decision" = .ok decided)
    (happrover : answers.decision.get "approver_id" = .ok (some approver))
    (hedit : editedAction answers.decision = .ok none) :
    (nodeFn rt answers .awaitApproval s).run w =
      (.ok [.approvalDecision decided, .approverId approver], w) := by
  simp only [nodeFn, Action.run_lift, awaitApproval, interruptPayload, hrunId, hdiagnosis, hshown,
    htier, required_some, bind, Except.bind, pure, Except.pure, hdecided, happrover, hedit]
  rfl

/-- What a revalidation writes, for the sweep and the fingerprint it takes. -/
def revalidateUpdate (obs : Observations) (fingerprint : String) (anchored : Option String) :
    Update :=
  [.status .revalidating, .observations obs, .stateFingerprint (some fingerprint),
    .driftDetected (decide (some fingerprint ≠ anchored))]

/-- A revalidation returns whenever its sweep gives the action a fingerprint. -/
theorem revalidate_run {anchored : Option String} {fingerprint : String}
    (haction : s.proposedAction = some (.str action)) (hsweep : gatherObservations w = .ok obs)
    (hf : computeFingerprint rt.digest obs action = .ok fingerprint)
    (hstored : s.stateFingerprint = some anchored) :
    (revalidate rt s).run w = (.ok (revalidateUpdate obs fingerprint anchored), w) := by
  have hread : (Action.read gatherObservations : Action ToolContext Observations).run w =
      (.ok obs, w) := by rw [Action.run_read, hsweep]
  rw [revalidate, Action.run_bind_of_ok hread, Action.run_lift, haction, hstored]
  simp [bind, Except.bind, pure, Except.pure, hf, revalidateUpdate]

theorem prepare_run {runId : String} (hrunId : s.runId = some (.str runId))
    (haction : s.proposedAction = some (.str action)) :
    (nodeFn rt answers .prepareExecution s).run w =
      (.ok [.status .executing, .idempotencyKey (idempotencyKey runId action)], w) := by
  simp only [nodeFn, Action.run_lift, prepareExecution, hrunId, haction, requiredText_str, bind,
    Except.bind, pure, Except.pure]

theorem execute_run {key : String} {outcome : Outcome}
    (haction : s.proposedAction = some (.str action)) (hkey : s.idempotencyKey = some (.str key))
    (hexecuted : (executeAction action (parametersOf s) key).run w = (.ok outcome, w')) :
    (nodeFn rt answers .execute s).run w =
      (.ok [.status .executing, .executionResult outcome.result,
        .compensation outcome.compensation], w') := by
  simp only [nodeFn, execute, haction, hkey, requiredText_str, Action.run_bind, Action.run_lift,
    hexecuted, Action.run_pure]

theorem verify_run {result : ExecutionResult} {passed : Bool}
    (haction : s.proposedAction = some (.str action)) (hresult : s.executionResult = some result)
    (hpassed : verifyAction w action result = .ok passed) :
    (nodeFn rt answers .verify s).run w =
      (.ok [.status .verifying, .verificationPassed passed], w) := by
  simp only [nodeFn, verify, haction, hresult, requiredText_str, required_some, Action.run_bind,
    Action.run_lift, Action.run_read, hpassed, Action.run_pure]

theorem rollingBack_run {compensation : Compensation} {result : RollbackResult}
    (hcompensation : s.compensation = some compensation)
    (happlied : (applyCompensation compensation).run w = (.ok result, w')) :
    (nodeFn rt answers .rollingBack s).run w =
      (.ok [.status .rollingBack, .rollbackResult result], w') := by
  simp only [nodeFn, rollingBack, hcompensation, required_some, Action.run_bind, Action.run_lift,
    happlied, Action.run_pure]

theorem replan_run {cycles : Json} (hcycles : (s.replanCycles.getD (.int 0)).addOne = .ok cycles) :
    (nodeFn rt answers .replan s).run w =
      (.ok [.status .replanning, .replanCycles cycles, .replanContext (replanReason s)], w) := by
  simp only [nodeFn, Action.run_lift, replan, hcycles]
  rfl

/-- A verification of a service asks whether it is healthy. -/
theorem verifyAction_service {result : ExecutionResult} {t : ServiceState}
    (hsplit : splitColon action = .ok (tool, target)) (htool : tool ≠ "delete_records")
    (ht : w.clients.get? target = some t) :
    verifyAction w action result = .ok (t.status.text == "healthy") := by
  rw [verifyAction, hsplit]
  simp only [getServiceHealth, Tools.get, ToolContext.client_ok_iff.mpr ht, bind, Except.bind,
    getHealth, if_neg htool]
  rfl

end Nodes

section Routes

variable {rt : Runtime} {s : AgentState}

theorem classify_route {llm tier rationale : String} {applied : Bool} :
    nextNode rt .classifyRisk (s.merge [.status .riskClassified, .riskTierLlm llm,
      .riskTierFinal tier, .riskRationale rationale, .redundancyFloorApplied applied]) =
      .ok (some (if tier = "low" then .prepareExecution else .markAwaitingApproval)) := by
  by_cases hlow : tier = "low"
  · rw [hlow]
    rfl
  · have hfalse : (Json.str tier).isStr "low" = false := by simpa [Json.isStr] using hlow
    rw [if_neg hlow]
    simp only [nextNode, routeAfterRiskClassification, AgentState.merge, List.foldl,
      AgentState.write, required_some, bind, Except.bind, hfalse]
    rfl

/-- The action is sent back exactly if its fingerprint is not the stored one. -/
theorem revalidate_route {obs : Observations} {fingerprint : String} {anchored : Option String} :
    nextNode rt .revalidate (s.merge (revalidateUpdate obs fingerprint anchored)) =
      .ok (some (if some fingerprint = anchored then .prepareExecution else .replan)) := by
  by_cases hsame : some fingerprint = anchored
  · rw [if_pos hsame]
    simp [nextNode, routeAfterRevalidation, revalidateUpdate, AgentState.merge, AgentState.write,
      required_some, bind, Except.bind, hsame, Json.truthy, pure, Except.pure, Except.map]
  · rw [if_neg hsame]
    simp [nextNode, routeAfterRevalidation, revalidateUpdate, AgentState.merge, AgentState.write,
      required_some, bind, Except.bind, hsame, Json.truthy, pure, Except.pure, Except.map]

theorem verify_route {passed : Bool} :
    nextNode rt .verify (s.merge [.status .verifying, .verificationPassed passed]) =
      .ok (some (if passed then .completed else .rollingBack)) := by
  cases passed <;> rfl

end Routes

end NodeRuns
