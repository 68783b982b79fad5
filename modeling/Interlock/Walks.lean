import Interlock.Graph
import Mathlib.Logic.Relation

/-!
# Walks through the graph

The edges of the graph with the condition each one is taken under, the visits
of a run without what others do in between, and what the visit to each node
leaves behind. Inverting a walk edge by edge reconstructs a planning cycle.
-/

namespace Walks

open Dictionary PythonValues Tools DiagnosticSweep Fingerprint RiskPolicy Execution RunState Nodes
open Graph Transitions Relation

/-! ### Edges -/

/-- The edges out of a node, in the state its visit left. -/
inductive Edge (rt : Runtime) (s : AgentState) : Node → Option Node → Prop where
  | diagnosed : Edge rt s .diagnose (some .proposeAction)
  | invalid (h : textTruthy s.invalidProposalReason = true) :
      Edge rt s .proposeAction (some .replan)
  | proposed (h : textTruthy s.invalidProposalReason = false) :
      Edge rt s .proposeAction (some .classifyRisk)
  | low (h : s.riskTierFinal = some (.str "low")) : Edge rt s .classifyRisk (some .prepareExecution)
  | gated (h : s.riskTierFinal ≠ some (.str "low")) :
      Edge rt s .classifyRisk (some .markAwaitingApproval)
  | marked : Edge rt s .markAwaitingApproval (some .awaitApproval)
  | granted {d : Json} (hd : s.approvalDecision = some d) (h : isGranted d = true)
      (hrt : rt.revalidate = true) : Edge rt s .awaitApproval (some .revalidate)
  | grantedBlind {d : Json} (hd : s.approvalDecision = some d) (h : isGranted d = true)
      (hrt : rt.revalidate = false) : Edge rt s .awaitApproval (some .prepareExecution)
  | rejected {d : Json} (hd : s.approvalDecision = some d) (h : isGranted d = false)
      (hr : d.isStr "rejected" = true) : Edge rt s .awaitApproval (some .replan)
  | lapsed {d : Json} (hd : s.approvalDecision = some d) (h : isGranted d = false)
      (hr : d.isStr "rejected" = false) : Edge rt s .awaitApproval (some .escalate)
  | drifted {d : Json} (hd : s.driftDetected = some d) (h : d.truthy = true) :
      Edge rt s .revalidate (some .replan)
  | steady {d : Json} (hd : s.driftDetected = some d) (h : d.truthy = false) :
      Edge rt s .revalidate (some .prepareExecution)
  | prepared : Edge rt s .prepareExecution (some .execute)
  | executed : Edge rt s .execute (some .verify)
  | verified {d : Json} (hd : s.verificationPassed = some d) (h : d.truthy = true) :
      Edge rt s .verify (some .completed)
  | failed {d : Json} (hd : s.verificationPassed = some d) (h : d.truthy = false) :
      Edge rt s .verify (some .rollingBack)
  | compensated : Edge rt s .rollingBack (some .rolledBack)
  | undone : Edge rt s .rolledBack (some .replan)
  | replanned {cycles : Json} (hc : s.replanCycles = some cycles)
      (h : cycles.atLeast maxReplanCycles = .ok false) : Edge rt s .replan (some .proposeAction)
  | exhausted {cycles : Json} (hc : s.replanCycles = some cycles)
      (h : cycles.atLeast maxReplanCycles = .ok true) : Edge rt s .replan (some .escalate)
  | completed : Edge rt s .completed none
  | escalated : Edge rt s .escalate none

theorem map_some_ok {x : Except PyError Node} {next : Option Node}
    (h : x.map some = .ok next) : ∃ n, x = .ok n ∧ next = some n := by
  cases x with
  | error e => cases h
  | ok n =>
    cases h
    exact ⟨n, rfl, rfl⟩

theorem edge_of_nextNode {rt : Runtime} {node : Node} {s : AgentState} {next : Option Node}
    (h : nextNode rt node s = .ok next) : Edge rt s node next := by
  cases node with
  | diagnose => cases h; exact .diagnosed
  | proposeAction =>
    cases h
    cases hr : textTruthy s.invalidProposalReason with
    | true =>
      rw [routeAfterProposal, if_pos hr]
      exact .invalid hr
    | false =>
      rw [routeAfterProposal, if_neg (by simp [hr])]
      exact .proposed hr
  | classifyRisk =>
    obtain ⟨n, hn, rfl⟩ := map_some_ok h
    obtain ⟨tier, htier, hn⟩ := except_bind_ok_iff.mp hn
    rw [required_ok_iff] at htier
    cases hn
    by_cases hlow : tier.isStr "low" = true
    · rw [if_pos hlow]
      exact .low (by rw [htier, Json.isStr_iff.mp hlow])
    · rw [if_neg hlow]
      refine .gated ?_
      rw [htier]
      intro heq
      exact hlow (Json.isStr_iff.mpr (Option.some.inj heq))
  | markAwaitingApproval => cases h; exact .marked
  | awaitApproval =>
    obtain ⟨n, hn, rfl⟩ := map_some_ok h
    obtain ⟨d, hd, hn⟩ := except_bind_ok_iff.mp hn
    rw [required_ok_iff] at hd
    cases hg : isGranted d with
    | true =>
      simp only [hg, if_true] at hn
      cases hn
      cases hrt : rt.revalidate with
      | true => exact .granted hd hg hrt
      | false => exact .grantedBlind hd hg hrt
    | false =>
      cases hr : d.isStr "rejected" with
      | true =>
        simp only [hg, hr] at hn
        cases hn
        exact .rejected hd hg hr
      | false =>
        simp only [hg, hr] at hn
        cases hn
        exact .lapsed hd hg hr
  | revalidate =>
    obtain ⟨n, hn, rfl⟩ := map_some_ok h
    obtain ⟨d, hd, hn⟩ := except_bind_ok_iff.mp hn
    rw [required_ok_iff] at hd
    cases hn
    cases ht : d.truthy with
    | true => exact .drifted hd ht
    | false => exact .steady hd ht
  | prepareExecution => cases h; exact .prepared
  | execute => cases h; exact .executed
  | verify =>
    obtain ⟨n, hn, rfl⟩ := map_some_ok h
    obtain ⟨d, hd, hn⟩ := except_bind_ok_iff.mp hn
    rw [required_ok_iff] at hd
    cases hn
    cases ht : d.truthy with
    | true => exact .verified hd ht
    | false => exact .failed hd ht
  | rollingBack => cases h; exact .compensated
  | rolledBack => cases h; exact .undone
  | replan =>
    obtain ⟨n, hn, rfl⟩ := map_some_ok h
    obtain ⟨cycles, hc, hn⟩ := except_bind_ok_iff.mp hn
    rw [required_ok_iff] at hc
    obtain ⟨reached, hreached, hn⟩ := except_bind_ok_iff.mp hn
    cases hn
    cases reached with
    | true => exact .exhausted hc hreached
    | false => exact .replanned hc hreached
  | escalate => cases h; exact .escalated
  | completed => cases h; exact .completed

/-! ### What a visit leaves behind -/

section Left

variable {rt : Runtime} {v : Visit} {next : Option Node}

theorem led_edge (h : v.Led rt next) : Edge rt v.after v.node next := by
  obtain ⟨_, _, _, _, _, hroute⟩ := h
  exact edge_of_nextNode hroute

/-- The update behind a visit to a given node. -/
theorem led_update {node : Node} (h : v.Led rt next) (hnode : v.node = node) :
    ∃ update, (nodeFn rt v.answers node v.before).run v.worldBefore = (.ok update, v.worldAfter) ∧
      v.after = v.before.merge update := by
  obtain ⟨update, _, hfn, _, hmerge, _⟩ := h
  rw [hnode] at hfn
  exact ⟨update, hfn, hmerge⟩

theorem led_diagnose (h : v.Led rt next) (hnode : v.node = .diagnose) :
    v.worldAfter = v.worldBefore ∧ ∃ obs, gatherObservations v.worldBefore = .ok obs ∧
      v.after = { v.before with
        status := some (.str State.diagnosing.value)
        observations := some obs
        diagnosis := some v.answers.summary } := by
  obtain ⟨update, hfn, hafter⟩ := led_update h hnode
  obtain ⟨hworld, obs, hobs, rfl⟩ := diagnose_ok hfn
  exact ⟨hworld, obs, hobs, hafter⟩

theorem led_proposeAction (h : v.Led rt next) (hnode : v.node = .proposeAction) :
    v.worldAfter = v.worldBefore ∧ ∃ obs reason fingerprint, v.before.observations = some obs ∧
      validateProposal obs v.answers.proposal.action = .ok reason ∧
      (reason = none → ∃ f, computeFingerprint rt.digest obs v.answers.proposal.action = .ok f ∧
        fingerprint = some f) ∧
      v.after = { v.before with
        status := some (.str State.actionProposed.value)
        proposedAction := some (.str v.answers.proposal.action)
        actionParameters := some (v.answers.proposal.parameters.getD (.obj []))
        actionRationale := some v.answers.proposal.rationale
        stateFingerprint := some fingerprint
        invalidProposalReason := some reason } := by
  obtain ⟨update, hfn, hafter⟩ := led_update h hnode
  simp only [nodeFn, Action.run_lift, Prod.mk.injEq] at hfn
  obtain ⟨hfn, hworld⟩ := hfn
  obtain ⟨obs, reason, fingerprint, hobs, hreason, hanchor, rfl⟩ := proposeAction_ok hfn
  exact ⟨hworld.symm, obs, reason, fingerprint, hobs, hreason, hanchor, hafter⟩

theorem led_classifyRisk (h : v.Led rt next) (hnode : v.node = .classifyRisk) :
    v.worldAfter = v.worldBefore ∧ ∃ action tool target obs situational applied,
      v.before.proposedAction = some (.str action) ∧ splitColon action = .ok (tool, target) ∧
      v.before.observations = some obs ∧ situationalFeatures obs action = .ok situational ∧
      v.after = { v.before with
        status := some (.str State.riskClassified.value)
        riskTierLlm := some v.answers.classification.tier
        riskTierFinal := some (.str (applyPolicy tool v.answers.classification.tier situational))
        riskRationale := some v.answers.classification.rationale
        redundancyFloorApplied := some applied } := by
  obtain ⟨update, hfn, hafter⟩ := led_update h hnode
  simp only [nodeFn, Action.run_lift, Prod.mk.injEq] at hfn
  obtain ⟨hfn, hworld⟩ := hfn
  obtain ⟨action, tool, target, obs, situational, applied, haction, hsplit, hobs, hsit, rfl⟩ :=
    classifyRisk_ok hfn
  exact ⟨hworld.symm, action, tool, target, obs, situational, applied, haction, hsplit, hobs, hsit,
    hafter⟩

theorem led_markAwaitingApproval (h : v.Led rt next) (hnode : v.node = .markAwaitingApproval) :
    v.worldAfter = v.worldBefore ∧
      v.after = { v.before with status := some (.str State.awaitingApproval.value) } := by
  obtain ⟨update, hfn, hafter⟩ := led_update h hnode
  simp only [nodeFn, Action.run_pure, Prod.mk.injEq, Except.ok.injEq] at hfn
  obtain ⟨rfl, hworld⟩ := hfn
  exact ⟨hworld.symm, hafter⟩

theorem led_awaitApproval (h : v.Led rt next) (hnode : v.node = .awaitApproval) :
    v.worldAfter = v.worldBefore ∧ ∃ decided approver edit,
      v.answers.decision.getItem "decision" = .ok decided ∧
      editedAction v.answers.decision = .ok edit ∧
      ((edit = none ∧ v.after = { v.before with
          approvalDecision := some decided
          approverId := some approver }) ∨
        ∃ newAction obs fingerprint, edit = some newAction ∧ v.before.observations = some obs ∧
          computeFingerprint rt.digest obs newAction = .ok fingerprint ∧
          v.after = { v.before with
            approvalDecision := some decided
            approverId := some approver
            proposedAction := some (.str newAction)
            stateFingerprint := some (some fingerprint) }) := by
  obtain ⟨update, hfn, hafter⟩ := led_update h hnode
  simp only [nodeFn, Action.run_lift, Prod.mk.injEq] at hfn
  obtain ⟨hfn, hworld⟩ := hfn
  obtain ⟨decided, approver, edit, hdecided, hedit, hcases⟩ := awaitApproval_ok hfn
  refine ⟨hworld.symm, decided, approver, edit, hdecided, hedit, ?_⟩
  rcases hcases with ⟨hnone, rfl⟩ | ⟨newAction, obs, fingerprint, hsome, hobs, hf, rfl⟩
  · exact Or.inl ⟨hnone, hafter⟩
  · exact Or.inr ⟨newAction, obs, fingerprint, hsome, hobs, hf, hafter⟩

theorem led_revalidate (h : v.Led rt next) (hnode : v.node = .revalidate) :
    v.worldAfter = v.worldBefore ∧ ∃ obs action fingerprint anchored,
      gatherObservations v.worldBefore = .ok obs ∧ v.before.proposedAction = some (.str action) ∧
      computeFingerprint rt.digest obs action = .ok fingerprint ∧
      v.before.stateFingerprint = some anchored ∧
      v.after = { v.before with
        status := some (.str State.revalidating.value)
        observations := some obs
        stateFingerprint := some (some fingerprint)
        driftDetected := some (.bool (decide (some fingerprint ≠ anchored))) } := by
  obtain ⟨update, hfn, hafter⟩ := led_update h hnode
  obtain ⟨hworld, obs, action, fingerprint, anchored, hobs, haction, hf, hanchored, rfl⟩ :=
    revalidate_ok hfn
  exact ⟨hworld, obs, action, fingerprint, anchored, hobs, haction, hf, hanchored, hafter⟩

theorem led_prepareExecution (h : v.Led rt next) (hnode : v.node = .prepareExecution) :
    v.worldAfter = v.worldBefore ∧ ∃ runId action, v.before.runId = some (.str runId) ∧
      v.before.proposedAction = some (.str action) ∧
      v.after = { v.before with
        status := some (.str State.executing.value)
        idempotencyKey := some (.str (idempotencyKey runId action)) } := by
  obtain ⟨update, hfn, hafter⟩ := led_update h hnode
  simp only [nodeFn, Action.run_lift, Prod.mk.injEq] at hfn
  obtain ⟨hfn, hworld⟩ := hfn
  obtain ⟨runId, action, hrun, haction, rfl⟩ := prepareExecution_ok hfn
  exact ⟨hworld.symm, runId, action, hrun, haction, hafter⟩

theorem led_execute (h : v.Led rt next) (hnode : v.node = .execute) :
    ∃ action key outcome, v.before.proposedAction = some (.str action) ∧
      v.before.idempotencyKey = some (.str key) ∧
      (executeAction action (parametersOf v.before) key).run v.worldBefore =
        (.ok outcome, v.worldAfter) ∧
      v.after = { v.before with
        status := some (.str State.executing.value)
        executionResult := some outcome.result
        compensation := some outcome.compensation } := by
  obtain ⟨update, hfn, hafter⟩ := led_update h hnode
  obtain ⟨action, key, outcome, haction, hkey, hrun, rfl⟩ := execute_ok hfn
  exact ⟨action, key, outcome, haction, hkey, hrun, hafter⟩

theorem led_verify (h : v.Led rt next) (hnode : v.node = .verify) :
    v.worldAfter = v.worldBefore ∧ ∃ action result passed,
      v.before.proposedAction = some (.str action) ∧ v.before.executionResult = some result ∧
      verifyAction v.worldBefore action result = .ok passed ∧
      v.after = { v.before with
        status := some (.str State.verifying.value)
        verificationPassed := some (.bool passed) } := by
  obtain ⟨update, hfn, hafter⟩ := led_update h hnode
  obtain ⟨hworld, action, result, passed, haction, hresult, hpassed, rfl⟩ := verify_ok hfn
  exact ⟨hworld, action, result, passed, haction, hresult, hpassed, hafter⟩

theorem led_rollingBack (h : v.Led rt next) (hnode : v.node = .rollingBack) :
    ∃ compensation result, v.before.compensation = some compensation ∧
      (applyCompensation compensation).run v.worldBefore = (.ok result, v.worldAfter) ∧
      v.after = { v.before with
        status := some (.str State.rollingBack.value)
        rollbackResult := some result } := by
  obtain ⟨update, hfn, hafter⟩ := led_update h hnode
  obtain ⟨compensation, result, hcompensation, hrun, rfl⟩ := rollingBack_ok hfn
  exact ⟨compensation, result, hcompensation, hrun, hafter⟩

theorem led_rolledBack (h : v.Led rt next) (hnode : v.node = .rolledBack) :
    v.worldAfter = v.worldBefore ∧
      v.after = { v.before with status := some (.str State.rolledBack.value) } := by
  obtain ⟨update, hfn, hafter⟩ := led_update h hnode
  simp only [nodeFn, Action.run_pure, Prod.mk.injEq, Except.ok.injEq] at hfn
  obtain ⟨rfl, hworld⟩ := hfn
  exact ⟨hworld.symm, hafter⟩

theorem led_replan (h : v.Led rt next) (hnode : v.node = .replan) :
    v.worldAfter = v.worldBefore ∧ ∃ cycles,
      (v.before.replanCycles.getD (.int 0)).addOne = .ok cycles ∧
      v.after = { v.before with
        status := some (.str State.replanning.value)
        replanCycles := some cycles
        replanContext := some (.str (replanReason v.before)) } := by
  obtain ⟨update, hfn, hafter⟩ := led_update h hnode
  simp only [nodeFn, Action.run_lift, Prod.mk.injEq] at hfn
  obtain ⟨hfn, hworld⟩ := hfn
  obtain ⟨cycles, hcycles, rfl⟩ := replan_ok hfn
  exact ⟨hworld.symm, cycles, hcycles, hafter⟩

theorem led_escalate (h : v.Led rt next) (hnode : v.node = .escalate) :
    v.worldAfter = v.worldBefore ∧ v.after = { v.before with
      status := some (.str State.escalated.value)
      finalState := some (.str State.escalated.value) } := by
  obtain ⟨update, hfn, hafter⟩ := led_update h hnode
  simp only [nodeFn, Action.run_pure, Prod.mk.injEq, Except.ok.injEq] at hfn
  obtain ⟨rfl, hworld⟩ := hfn
  exact ⟨hworld.symm, hafter⟩

theorem led_completed (h : v.Led rt next) (hnode : v.node = .completed) :
    v.worldAfter = v.worldBefore ∧ v.after = { v.before with
      status := some (.str State.completed.value)
      finalState := some (.str State.completed.value) } := by
  obtain ⟨update, hfn, hafter⟩ := led_update h hnode
  simp only [nodeFn, Action.run_pure, Prod.mk.injEq, Except.ok.injEq] at hfn
  obtain ⟨rfl, hworld⟩ := hfn
  exact ⟨hworld.symm, hafter⟩

/-- Which nodes a visit must be to, to change an entry that later nodes read. -/
structure Kept (v : Visit) : Prop where
  runId : v.after.runId = v.before.runId
  observations : v.node ≠ .diagnose → v.node ≠ .revalidate →
    v.after.observations = v.before.observations
  diagnosis : v.node ≠ .diagnose → v.after.diagnosis = v.before.diagnosis
  proposedAction : v.node ≠ .proposeAction → v.node ≠ .awaitApproval →
    v.after.proposedAction = v.before.proposedAction
  actionParameters : v.node ≠ .proposeAction → v.after.actionParameters = v.before.actionParameters
  stateFingerprint : v.node ≠ .proposeAction → v.node ≠ .awaitApproval → v.node ≠ .revalidate →
    v.after.stateFingerprint = v.before.stateFingerprint
  world : v.node ≠ .execute → v.node ≠ .rollingBack → v.worldAfter = v.worldBefore

theorem led_kept (h : v.Led rt next) : Kept v := by
  cases hnode : v.node with
  | diagnose =>
    obtain ⟨hworld, _, _, hafter⟩ := led_diagnose h hnode
    constructor <;> simp [hafter, hnode, hworld]
  | proposeAction =>
    obtain ⟨hworld, _, _, _, _, _, _, hafter⟩ := led_proposeAction h hnode
    constructor <;> simp [hafter, hnode, hworld]
  | classifyRisk =>
    obtain ⟨hworld, _, _, _, _, _, _, _, _, _, _, hafter⟩ := led_classifyRisk h hnode
    constructor <;> simp [hafter, hworld]
  | markAwaitingApproval =>
    obtain ⟨hworld, hafter⟩ := led_markAwaitingApproval h hnode
    constructor <;> simp [hafter, hworld]
  | awaitApproval =>
    obtain ⟨hworld, _, _, _, _, _, ⟨_, hafter⟩ | ⟨_, _, _, _, _, _, hafter⟩⟩ :=
      led_awaitApproval h hnode
    · constructor <;> simp [hafter, hworld]
    · constructor <;> simp [hafter, hnode, hworld]
  | revalidate =>
    obtain ⟨hworld, _, _, _, _, _, _, _, _, hafter⟩ := led_revalidate h hnode
    constructor <;> simp [hafter, hnode, hworld]
  | prepareExecution =>
    obtain ⟨hworld, _, _, _, _, hafter⟩ := led_prepareExecution h hnode
    constructor <;> simp [hafter, hworld]
  | execute =>
    obtain ⟨_, _, _, _, _, _, hafter⟩ := led_execute h hnode
    constructor <;> simp [hafter, hnode]
  | verify =>
    obtain ⟨hworld, _, _, _, _, _, _, hafter⟩ := led_verify h hnode
    constructor <;> simp [hafter, hworld]
  | rollingBack =>
    obtain ⟨_, _, _, _, hafter⟩ := led_rollingBack h hnode
    constructor <;> simp [hafter, hnode]
  | rolledBack =>
    obtain ⟨hworld, hafter⟩ := led_rolledBack h hnode
    constructor <;> simp [hafter, hworld]
  | replan =>
    obtain ⟨hworld, _, _, hafter⟩ := led_replan h hnode
    constructor <;> simp [hafter, hworld]
  | escalate =>
    obtain ⟨hworld, hafter⟩ := led_escalate h hnode
    constructor <;> simp [hafter, hworld]
  | completed =>
    obtain ⟨hworld, hafter⟩ := led_completed h hnode
    constructor <;> simp [hafter, hworld]

/-- Which node writes each of the marks that a later replanning reads. -/
structure MarksKept (v : Visit) : Prop where
  invalidProposalReason : v.node ≠ .proposeAction →
    v.after.invalidProposalReason = v.before.invalidProposalReason
  approvalDecision : v.node ≠ .awaitApproval → v.after.approvalDecision = v.before.approvalDecision
  driftDetected : v.node ≠ .revalidate → v.after.driftDetected = v.before.driftDetected
  verificationPassed : v.node ≠ .verify → v.after.verificationPassed = v.before.verificationPassed
  replanCycles : v.node ≠ .replan → v.after.replanCycles = v.before.replanCycles

theorem led_marksKept (h : v.Led rt next) : MarksKept v := by
  cases hnode : v.node with
  | diagnose =>
    obtain ⟨_, _, _, hafter⟩ := led_diagnose h hnode
    constructor <;> simp [hafter]
  | proposeAction =>
    obtain ⟨_, _, _, _, _, _, _, hafter⟩ := led_proposeAction h hnode
    constructor <;> simp [hafter, hnode]
  | classifyRisk =>
    obtain ⟨_, _, _, _, _, _, _, _, _, _, _, hafter⟩ := led_classifyRisk h hnode
    constructor <;> simp [hafter]
  | markAwaitingApproval =>
    obtain ⟨_, hafter⟩ := led_markAwaitingApproval h hnode
    constructor <;> simp [hafter]
  | awaitApproval =>
    obtain ⟨_, _, _, _, _, _, ⟨_, hafter⟩ | ⟨_, _, _, _, _, _, hafter⟩⟩ := led_awaitApproval h hnode
    · constructor <;> simp [hafter, hnode]
    · constructor <;> simp [hafter, hnode]
  | revalidate =>
    obtain ⟨_, _, _, _, _, _, _, _, _, hafter⟩ := led_revalidate h hnode
    constructor <;> simp [hafter, hnode]
  | prepareExecution =>
    obtain ⟨_, _, _, _, _, hafter⟩ := led_prepareExecution h hnode
    constructor <;> simp [hafter]
  | execute =>
    obtain ⟨_, _, _, _, _, _, hafter⟩ := led_execute h hnode
    constructor <;> simp [hafter]
  | verify =>
    obtain ⟨_, _, _, _, _, _, _, hafter⟩ := led_verify h hnode
    constructor <;> simp [hafter, hnode]
  | rollingBack =>
    obtain ⟨_, _, _, _, hafter⟩ := led_rollingBack h hnode
    constructor <;> simp [hafter]
  | rolledBack =>
    obtain ⟨_, hafter⟩ := led_rolledBack h hnode
    constructor <;> simp [hafter]
  | replan =>
    obtain ⟨_, _, _, hafter⟩ := led_replan h hnode
    constructor <;> simp [hafter, hnode]
  | escalate =>
    obtain ⟨_, hafter⟩ := led_escalate h hnode
    constructor <;> simp [hafter]
  | completed =>
    obtain ⟨_, hafter⟩ := led_completed h hnode
    constructor <;> simp [hafter]

end Left

/-! ### Visits of a run -/

def visits (past : List Event) : List Visit :=
  past.filterMap fun
    | .visit v => some v
    | .others _ _ => none

def isPropose (v : Visit) : Bool := decide (v.node = .proposeAction)

/-- The visits of the current planning cycle: those after the latest proposal. -/
def cycle (past : List Event) : List Visit := since isPropose (visits past)

/-- The visits alone, with the world that the latest one left. -/
inductive Walk (rt : Runtime) (others : ToolContext → ToolContext → Prop)
    (initialState : AgentState) (world : ToolContext) :
    List Visit → AgentState → Option Node → ToolContext → Prop where
  | start : Walk rt others initialState world [] initialState (some .diagnose) world
  | visit {past : List Visit} {s : AgentState} {w : ToolContext} {v : Visit} {next : Option Node}
      (walk : Walk rt others initialState world past s (some v.node) w) (hbefore : v.before = s)
      (hworld : ReflTransGen others w v.worldBefore) (hled : v.Led rt next) :
      Walk rt others initialState world (v :: past) v.after next v.worldAfter

section Projection

variable {rt : Runtime} {others : ToolContext → ToolContext → Prop} {runId : String}
variable {initialState : AgentState} {world : ToolContext} {past : List Event} {c : Config}

/-- Dropping what others did leaves a walk that ends in the same checkpoint. -/
theorem run_walk (run : Run rt others runId initialState world past c) :
    ∃ w, Walk rt others (startWorkflow runId initialState world).state world (visits past)
      c.state c.next w ∧ ReflTransGen others w c.world := by
  induction run with
  | start => exact ⟨world, .start, .refl⟩
  | snoc _ hs ih =>
    obtain ⟨w, walk, hw⟩ := ih
    cases hs with
    | visit hnext hstep =>
      rw [hnext] at walk
      exact ⟨_, .visit walk rfl hw (step_ok hnext hstep), .refl⟩
    | others h => exact ⟨w, walk, hw.tail h⟩

/-- The walk that had led to the latest visit of a run. -/
theorem run_visit_walk {v : Visit}
    (run : Run rt others runId initialState world (.visit v :: past) c) :
    v.Led rt c.next ∧ c.state = v.after ∧ c.world = v.worldAfter ∧
      ∃ b, Run rt others runId initialState world past b ∧ b.next = some v.node ∧
        b.state = v.before ∧ b.world = v.worldBefore := by
  cases run with
  | snoc run hs =>
    cases hs with
    | visit hnext hstep => exact ⟨step_ok hnext hstep, rfl, rfl, _, run, hnext, rfl, rfl⟩

end Projection

end Walks
