import Interlock.Crashes
import Interlock.Policies
import Interlock.ReplanReasons
import Interlock.Service

/-!
# What an initial state can steer

A request may preset every entry of a run's state. Most entries are written before they are
read. The run id, the counted replans, the first context of the reasoner and the marks of
an earlier rejection or drift are read first: they are what two bodies must share to lead
to the same run.
-/

namespace InitialState

open Dictionary PythonValues MockService RecordsTable Tools DiagnosticSweep RiskPolicy
open Execution RunState Nodes Graph
open Walks Service Policies
open Crashes (auditable_merge)
open NodeRuns (replan_run)

/-! ### What is read first -/

/-- What a replanning still reads of earlier decisions and drifts. -/
inductive Leftover where
  | rejection
  | drift
  | nothing
  deriving DecidableEq, Repr

def leftover (s : AgentState) : Leftover :=
  if s.approvalDecision.any (·.isStr "rejected") then .rejection
  else if s.driftDetected.any Json.truthy then .drift
  else .nothing

/-- `state.get("replan_cycles", 0)`. -/
def replanCyclesOf (s : AgentState) : Json := s.replanCycles.getD (.int 0)

def replansTo : ℕ → Json → Except PyError Json
  | 0, cycles => .ok cycles
  | n + 1, cycles => do replansTo n (← cycles.addOne)

/-- Whether the replan after `n` further ones reaches the cap, if they can be counted. -/
def capReached (cycles : Json) (n : ℕ) : Option Bool :=
  (do (← replansTo (n + 1) cycles).atLeast maxReplanCycles).toOption

/-- The marks are the same, unless the first replan is the last. -/
def SameMarks (s t : AgentState) : Prop :=
  capReached (replanCyclesOf s) 0 = some false → leftover s = leftover t

/-- The entries that are read before any node has written them. -/
structure Shared (s t : AgentState) : Prop where
  runId : s.runId = t.runId
  cap : ∀ n, capReached (replanCyclesOf s) n = capReached (replanCyclesOf t) n
  context : replanContextOf s = replanContextOf t

/-- Either neither state lets a visit pass the audit wrapper, or both do and agree on what
is read first. -/
structure Alike (s t : AgentState) : Prop where
  auditable : Auditable s ↔ Auditable t
  shared : Auditable s → Shared s t
  marks : Auditable s → SameMarks s t

/-! ### What two runs share at each node -/

structure Diagnosed (s t : AgentState) : Prop extends Shared s t where
  observations : s.observations = t.observations
  diagnosis : s.diagnosis = t.diagnosis
  auditable : Auditable s
  auditable' : Auditable t

structure Proposed (s t : AgentState) : Prop extends Diagnosed s t where
  proposedAction : s.proposedAction = t.proposedAction
  actionParameters : s.actionParameters = t.actionParameters
  actionRationale : s.actionRationale = t.actionRationale
  stateFingerprint : s.stateFingerprint = t.stateFingerprint
  invalidProposalReason : s.invalidProposalReason = t.invalidProposalReason

/-- What the next node and the ones after it read is the same in both states. -/
def Known (s t : AgentState) : Option Node → Prop
  | none => True
  | some .diagnose => Alike s t
  | some .proposeAction => Diagnosed s t ∧ SameMarks s t
  | some .classifyRisk => Proposed s t ∧ SameMarks s t
  | some .markAwaitingApproval | some .awaitApproval | some .prepareExecution =>
    Proposed s t ∧ SameMarks s t ∧ s.riskTierFinal = t.riskTierFinal
  | some .revalidate => Proposed s t ∧ s.approvalDecision = t.approvalDecision ∧
    s.riskTierFinal = t.riskTierFinal
  | some .execute => Proposed s t ∧ SameMarks s t ∧ s.idempotencyKey = t.idempotencyKey
  | some .verify => Proposed s t ∧ SameMarks s t ∧ s.executionResult = t.executionResult ∧
    s.compensation = t.compensation
  | some .rollingBack => Proposed s t ∧ SameMarks s t ∧ s.compensation = t.compensation ∧
    s.verificationPassed = t.verificationPassed
  | some .rolledBack => Proposed s t ∧ SameMarks s t ∧
    s.verificationPassed = t.verificationPassed
  | some .replan => Proposed s t ∧ SameMarks s t ∧
    (capReached (replanCyclesOf s) 0 = some false → replanReason s = replanReason t)
  | some .escalate | some .completed => Auditable s ∧ Auditable t

section Congruence

variable {rt : Runtime} {s t : AgentState} {π : Policy} {decision : Json} {clock : String}
variable {w : ToolContext} {node : Node}

theorem auditable_of_known (h : Known s t (some node)) (hnode : node ≠ .diagnose) :
    Auditable s ∧ Auditable t := by
  cases node with
  | diagnose => exact absurd rfl hnode
  | escalate => exact h
  | completed => exact h
  | _ => exact ⟨h.1.auditable, h.1.auditable'⟩

theorem proposal_congr (h : Diagnosed s t) : π.proposal s = π.proposal t := by
  rw [Policy.proposal, Policy.proposal, h.observations, h.diagnosis, h.context]

theorem classification_congr (h : Proposed s t) : π.classification s = π.classification t := by
  rw [Policy.classification, Policy.classification, h.proposedAction, h.observations, h.diagnosis,
    h.actionRationale]

theorem payload_congr (h : Proposed s t) (htier : s.riskTierFinal = t.riskTierFinal) :
    interruptPayload s = interruptPayload t := by
  rw [interruptPayload, interruptPayload, h.runId, h.diagnosis, h.proposedAction, htier]

/-- Every node but `replan` does the same in both states. -/
theorem nodeFn_congr (h : Known s t (some node)) (hnode : node ≠ .replan) :
    nodeFn rt (π.answers node decision clock s w) node s =
      nodeFn rt (π.answers node decision clock t w) node t := by
  cases node with
  | diagnose => rfl
  | proposeAction =>
    simp only [nodeFn, Policy.answers, proposeAction]
    rw [proposal_congr h.1, h.1.observations]
  | classifyRisk =>
    change Action.lift (classifyRisk (π.classification s) s) =
      Action.lift (classifyRisk (π.classification t) t)
    rw [classification_congr h.1]
    simp only [classifyRisk, h.1.proposedAction, h.1.observations]
  | markAwaitingApproval => rfl
  | awaitApproval =>
    simp only [nodeFn, Policy.answers, awaitApproval]
    rw [payload_congr h.1 h.2.2, h.1.observations]
  | revalidate =>
    simp only [nodeFn, revalidate]
    rw [h.1.proposedAction, h.1.stateFingerprint]
  | prepareExecution =>
    simp only [nodeFn, prepareExecution]
    rw [h.1.runId, h.1.proposedAction]
  | execute =>
    simp only [nodeFn, execute, parametersOf]
    rw [h.1.proposedAction, h.2.2, h.1.actionParameters]
  | verify =>
    simp only [nodeFn, verify]
    rw [h.1.proposedAction, h.2.2.1]
  | rollingBack =>
    simp only [nodeFn, rollingBack]
    rw [h.2.2.1]
  | rolledBack => rfl
  | replan => exact absurd rfl hnode
  | escalate => rfl
  | completed => rfl

end Congruence

/-! ### Replans -/

section Replans

variable {s t : AgentState}

theorem laterReason_eq (s : AgentState) (action : String) :
    replanReason.laterReason s action = match leftover s with
      | .rejection =>
        s!"a human reviewer rejected the proposed action ({action}); propose a different one"
      | .drift => "the environment changed since " ++ action ++
          " was proposed, invalidating that diagnosis's basis"
      | .nothing => if s.verificationPassed.any Json.isFalse then
          s!"{action} was executed and rolled back because it did not fix the problem"
        else s!"{action} did not resolve the incident" := by
  unfold replanReason.laterReason leftover
  split
  · rfl
  · split <;> rfl

theorem laterReason_congr {action : String} (hleftover : leftover s = leftover t)
    (h : s.verificationPassed = t.verificationPassed ∨ leftover s ≠ .nothing) :
    replanReason.laterReason s action = replanReason.laterReason t action := by
  rw [laterReason_eq, laterReason_eq, ← hleftover]
  rcases h with hpassed | hmarked
  · rw [hpassed]
  · cases hl : leftover s with
    | nothing => exact absurd hl hmarked
    | _ => rfl

/-- The reason is that of the proposal if it is invalid, and else that of the marks. -/
theorem replanReason_congr (hproposed : Proposed s t)
    (h : textTruthy s.invalidProposalReason = false → leftover s = leftover t ∧
      (s.verificationPassed = t.verificationPassed ∨ leftover s ≠ .nothing)) :
    replanReason s = replanReason t := by
  cases hinvalid : textTruthy s.invalidProposalReason with
  | true =>
    obtain ⟨reason, hreason, hs⟩ := ReplanReasons.replanReason_invalid hinvalid
    rw [hproposed.invalidProposalReason] at hinvalid hreason
    obtain ⟨reason', hreason', ht⟩ := ReplanReasons.replanReason_invalid hinvalid
    rw [hreason, Option.some.injEq, Option.some.injEq] at hreason'
    rw [hs, ht, hproposed.proposedAction, hreason']
  | false =>
    obtain ⟨hleftover, hpassed⟩ := h hinvalid
    have hinvalid' : textTruthy t.invalidProposalReason = false := by
      rw [← hproposed.invalidProposalReason]
      exact hinvalid
    rw [ReplanReasons.replanReason_valid hinvalid, ReplanReasons.replanReason_valid hinvalid',
      hproposed.proposedAction]
    exact laterReason_congr hleftover hpassed

theorem leftover_rejected (h : s.approvalDecision.any (·.isStr "rejected") = true) :
    leftover s = .rejection := by
  rw [leftover, if_pos h]

theorem atLeast_of_addOne {j k : Json} (h : j.addOne = .ok k) :
    ∃ b, k.atLeast maxReplanCycles = .ok b := by
  cases j with
  | bool b => cases h; exact ⟨_, rfl⟩
  | int n => cases h; exact ⟨_, rfl⟩
  | float x => cases h; exact ⟨_, rfl⟩
  | nan => cases h; exact ⟨_, rfl⟩
  | infinity negative => cases h; exact ⟨_, rfl⟩
  | _ => cases h

/-- The count after one more replan. -/
theorem capReached_succ {j k : Json} (h : j.addOne = .ok k) (n : ℕ) :
    capReached j (n + 1) = capReached k n := by
  rw [capReached, capReached, replansTo, h]
  rfl

theorem capReached_zero {j k : Json} (h : j.addOne = .ok k) :
    capReached j 0 = (k.atLeast maxReplanCycles).toOption := by
  rw [capReached, replansTo, h]
  rfl

theorem capReached_raised {j : Json} {e : PyError} (h : j.addOne = .error e) (n : ℕ) :
    capReached j n = none := by
  rw [capReached, replansTo, h]
  rfl

/-- Two counts of which either both go on or both raise. -/
theorem counted_alike {j j' : Json} (h : ∀ n, capReached j n = capReached j' n) :
    (∃ e e', j.addOne = .error e ∧ j'.addOne = .error e') ∨
    ∃ k k', j.addOne = .ok k ∧ j'.addOne = .ok k' ∧
      k.atLeast maxReplanCycles = k'.atLeast maxReplanCycles ∧
      ∀ n, capReached k n = capReached k' n := by
  cases hj : j.addOne with
  | error e =>
    cases hj' : j'.addOne with
    | error e' => exact Or.inl ⟨e, e', rfl, rfl⟩
    | ok k' =>
      obtain ⟨b, hb⟩ := atLeast_of_addOne hj'
      have hzero := h 0
      rw [capReached_raised hj 0, capReached_zero hj', hb] at hzero
      cases hzero
  | ok k =>
    obtain ⟨b, hb⟩ := atLeast_of_addOne hj
    cases hj' : j'.addOne with
    | error e' =>
      have hzero := h 0
      rw [capReached_zero hj, capReached_raised hj' 0, hb] at hzero
      cases hzero
    | ok k' =>
      obtain ⟨b', hb'⟩ := atLeast_of_addOne hj'
      have hzero := h 0
      rw [capReached_zero hj, capReached_zero hj', hb, hb'] at hzero
      refine Or.inr ⟨k, k', rfl, rfl, ?_, ?_⟩
      · rw [hb, hb']
        cases hzero
        rfl
      · intro n
        rw [← capReached_succ hj, ← capReached_succ hj', h]

end Replans

/-! ### One visit -/

section Merged

variable {s t : AgentState}

/-- One update written to both states keeps what they share. -/
theorem Shared.merge (h : Shared s t) (update : Update) :
    Shared (s.merge update) (t.merge update) := by
  induction update generalizing s t with
  | nil => exact h
  | cons write rest ih =>
    apply ih
    cases write with
    | replanCycles cycles => exact ⟨h.runId, fun _ => rfl, h.context⟩
    | replanContext context => exact ⟨h.runId, h.cap, rfl⟩
    | _ => exact ⟨h.runId, h.cap, h.context⟩

theorem Diagnosed.merge (h : Diagnosed s t) (update : Update) :
    Diagnosed (s.merge update) (t.merge update) := by
  induction update generalizing s t with
  | nil => exact h
  | cons write rest ih =>
    apply ih
    have hs := auditable_merge h.auditable [write]
    have ht := auditable_merge h.auditable' [write]
    have hshared := h.toShared.merge [write]
    cases write with
    | observations observations => exact ⟨hshared, rfl, h.diagnosis, hs, ht⟩
    | diagnosis summary => exact ⟨hshared, h.observations, rfl, hs, ht⟩
    | _ => exact ⟨hshared, h.observations, h.diagnosis, hs, ht⟩

theorem Diagnosed.propose (h : Diagnosed s t) (proposal : Proposal)
    (fingerprint reason : Option String) :
    Proposed
      (s.merge [.status .actionProposed, .proposedAction proposal.action,
        .actionParameters (proposal.parameters.getD (.obj [])),
        .actionRationale proposal.rationale, .stateFingerprint fingerprint,
        .invalidProposalReason reason])
      (t.merge [.status .actionProposed, .proposedAction proposal.action,
        .actionParameters (proposal.parameters.getD (.obj [])),
        .actionRationale proposal.rationale, .stateFingerprint fingerprint,
        .invalidProposalReason reason]) :=
  ⟨h.merge _, rfl, rfl, rfl, rfl, rfl⟩

theorem Proposed.merge (h : Proposed s t) (update : Update) :
    Proposed (s.merge update) (t.merge update) := by
  induction update generalizing s t with
  | nil => exact h
  | cons write rest ih =>
    apply ih
    have hdiagnosed := h.toDiagnosed.merge [write]
    obtain ⟨_, haction, hparameters, hrationale, hfingerprint, hreason⟩ := h
    cases write with
    | proposedAction action =>
      exact ⟨hdiagnosed, rfl, hparameters, hrationale, hfingerprint, hreason⟩
    | actionParameters parameters =>
      exact ⟨hdiagnosed, haction, rfl, hrationale, hfingerprint, hreason⟩
    | actionRationale rationale =>
      exact ⟨hdiagnosed, haction, hparameters, rfl, hfingerprint, hreason⟩
    | stateFingerprint fingerprint =>
      exact ⟨hdiagnosed, haction, hparameters, hrationale, rfl, hreason⟩
    | invalidProposalReason reason =>
      exact ⟨hdiagnosed, haction, hparameters, hrationale, hfingerprint, rfl⟩
    | _ => exact ⟨hdiagnosed, haction, hparameters, hrationale, hfingerprint, hreason⟩

end Merged

section Visits

variable {rt : Runtime} {s t : AgentState} {answers : Answers} {w v : ToolContext}
variable {node : Node} {update : Update} {next : Option Node} {clock clock' : String}

/-- A router reads only what the node before it has written. -/
theorem routes_alike (hnode : node ≠ .replan)
    (h : (nodeFn rt answers node s).run w = (.ok update, v)) (t : AgentState) :
    nextNode rt node (s.merge update) = nextNode rt node (t.merge update) := by
  cases node with
  | proposeAction =>
    simp only [nodeFn, Action.run_lift, Prod.mk.injEq] at h
    obtain ⟨_, _, _, _, _, _, rfl⟩ := proposeAction_ok h.1
    rfl
  | classifyRisk =>
    simp only [nodeFn, Action.run_lift, Prod.mk.injEq] at h
    obtain ⟨_, _, _, _, _, _, _, _, _, _, rfl⟩ := classifyRisk_ok h.1
    rfl
  | awaitApproval =>
    simp only [nodeFn, Action.run_lift, Prod.mk.injEq] at h
    obtain ⟨_, _, _, _, _, ⟨_, rfl⟩ | ⟨_, _, _, _, _, _, rfl⟩⟩ := awaitApproval_ok h.1
    · rfl
    · rfl
  | revalidate =>
    obtain ⟨_, _, _, _, _, _, _, _, _, rfl⟩ := revalidate_ok h
    rfl
  | verify =>
    obtain ⟨_, _, _, _, _, _, _, rfl⟩ := verify_ok h
    rfl
  | replan => exact absurd rfl hnode
  | _ => rfl

/-- The wrapper lets both visits pass, or neither. -/
theorem records_alike (hs : Auditable s) (ht : Auditable t) {other : Update}
    (happrover : writtenApprover update = writtenApprover other)
    (hdecision : writtenDecision update = writtenDecision other) :
    (∃ record, auditRecord clock node s update = .ok record) ↔
      ∃ record, auditRecord clock' node t other = .ok record := by
  rw [auditRecord_ok_iff, auditRecord_ok_iff, happrover, hdecision]
  exact and_congr (iff_of_true (auditable_merge hs update) (auditable_merge ht other))
    (and_congr_left' (iff_of_true hs.status ht.status))

/-- The diagnosis passes the wrapper exactly if the state had passed it. -/
theorem recorded_diagnosis_iff {obs : Observations} {summary : String} :
    (∃ record, auditRecord clock .diagnose s
      [.status .diagnosing, .observations obs, .diagnosis summary] = .ok record) ↔
        Auditable s := by
  rw [auditRecord_ok_iff]
  constructor
  · rintro ⟨⟨hrunId, _, haction, htier, hkey⟩, hstatus, _, _⟩
    exact ⟨hrunId, hstatus, haction, htier, hkey⟩
  · intro h
    exact ⟨auditable_merge h _, h.status, isText_none, isText_none⟩

theorem leftover_congr {s t : AgentState} (hdecision : s.approvalDecision = t.approvalDecision)
    (hdrift : s.driftDetected = t.driftDetected) : leftover s = leftover t := by
  rw [leftover, leftover, hdecision, hdrift]

/-- A proposal that leads to a replan, by what the reason is then built from. -/
theorem known_replan (hproposed : Proposed s t) (hmarks : SameMarks s t)
    (h : textTruthy s.invalidProposalReason = false →
      s.verificationPassed = t.verificationPassed ∨ leftover s ≠ .nothing) :
    Known s t (some .replan) :=
  ⟨hproposed, hmarks, fun hfirst =>
    replanReason_congr hproposed fun hvalid => ⟨hmarks hfirst, h hvalid⟩⟩

/-- What a visit leaves known, if it is no replan. -/
theorem known_next (hrt : rt.revalidate = true) (hnode : node ≠ .replan)
    (h : Known s t (some node)) (hupdate : (nodeFn rt answers node s).run w = (.ok update, v))
    (hrecord : ∃ record, auditRecord clock node s update = .ok record)
    (hroute : nextNode rt node (s.merge update) = .ok next) :
    Known (s.merge update) (t.merge update) next := by
  have hedge := edge_of_nextNode hroute
  cases node with
  | diagnose =>
    obtain ⟨_, obs, _, rfl⟩ := diagnose_ok hupdate
    have hs := recorded_diagnosis_iff.mp hrecord
    have ht := h.auditable.mp hs
    cases hedge
    exact ⟨⟨(h.shared hs).merge _, rfl, rfl, auditable_merge hs _, auditable_merge ht _⟩,
      h.marks hs⟩
  | proposeAction =>
    simp only [nodeFn, Action.run_lift, Prod.mk.injEq] at hupdate
    obtain ⟨obs, reason, fingerprint, _, _, _, rfl⟩ := proposeAction_ok hupdate.1
    have hproposed := h.1.propose answers.proposal fingerprint reason
    cases hedge with
    | invalid hinvalid =>
      refine known_replan hproposed h.2 fun hvalid => ?_
      rw [hinvalid] at hvalid
      cases hvalid
    | proposed _ => exact ⟨hproposed, h.2⟩
  | classifyRisk =>
    simp only [nodeFn, Action.run_lift, Prod.mk.injEq] at hupdate
    obtain ⟨_, _, _, _, _, _, _, _, _, _, rfl⟩ := classifyRisk_ok hupdate.1
    cases hedge with
    | low _ => exact ⟨h.1.merge _, h.2, rfl⟩
    | gated _ => exact ⟨h.1.merge _, h.2, rfl⟩
  | markAwaitingApproval =>
    cases hupdate
    cases hedge
    exact ⟨h.1.merge _, h.2.1, h.2.2⟩
  | awaitApproval =>
    simp only [nodeFn, Action.run_lift, Prod.mk.injEq] at hupdate
    have hwritten : ∃ decided, (s.merge update).approvalDecision = some decided ∧
        (t.merge update).approvalDecision = some decided ∧
        (s.merge update).riskTierFinal = (t.merge update).riskTierFinal := by
      obtain ⟨decided, _, _, _, _, ⟨_, rfl⟩ | ⟨_, _, _, _, _, _, rfl⟩⟩ := awaitApproval_ok hupdate.1
      · exact ⟨decided, rfl, rfl, h.2.2⟩
      · exact ⟨decided, rfl, rfl, h.2.2⟩
    obtain ⟨decided, hs, ht, htier⟩ := hwritten
    have hproposed := h.1.merge update
    cases hedge with
    | granted _ _ _ => exact ⟨hproposed, hs.trans ht.symm, htier⟩
    | grantedBlind _ _ hblind =>
      rw [hrt] at hblind
      cases hblind
    | @rejected d hd _ hrejected =>
      rw [hs, Option.some.injEq] at hd
      subst hd
      have hleft : leftover (s.merge update) = .rejection :=
        leftover_rejected (by rw [hs]; exact hrejected)
      have hright : leftover (t.merge update) = .rejection :=
        leftover_rejected (by rw [ht]; exact hrejected)
      refine known_replan hproposed (fun _ => hleft.trans hright.symm) fun _ => Or.inr ?_
      rw [hleft]
      decide
    | lapsed _ _ _ => exact ⟨hproposed.auditable, hproposed.auditable'⟩
  | revalidate =>
    obtain ⟨_, _, _, _, _, _, _, _, _, hu⟩ := revalidate_ok hupdate
    have hproposed := h.1.merge update
    have hkept : (s.merge update).approvalDecision = (t.merge update).approvalDecision ∧
        (s.merge update).driftDetected = (t.merge update).driftDetected ∧
        (s.merge update).riskTierFinal = (t.merge update).riskTierFinal := by
      rw [hu]
      exact ⟨h.2.1, rfl, h.2.2⟩
    have hsame := leftover_congr hkept.1 hkept.2.1
    cases hedge with
    | @drifted d hd hdrift =>
      refine known_replan hproposed (fun _ => hsame) fun _ => Or.inr ?_
      rw [leftover, hd]
      simp only [Option.any_some, hdrift, if_true]
      split <;> decide
    | steady _ _ => exact ⟨hproposed, fun _ => hsame, hkept.2.2⟩
  | prepareExecution =>
    simp only [nodeFn, Action.run_lift, Prod.mk.injEq] at hupdate
    obtain ⟨_, _, _, _, rfl⟩ := prepareExecution_ok hupdate.1
    cases hedge
    exact ⟨h.1.merge _, h.2.1, rfl⟩
  | execute =>
    obtain ⟨_, _, _, _, _, _, rfl⟩ := execute_ok hupdate
    cases hedge
    exact ⟨h.1.merge _, h.2.1, rfl, rfl⟩
  | verify =>
    obtain ⟨_, _, _, _, _, _, _, rfl⟩ := verify_ok hupdate
    cases hedge with
    | verified _ _ => exact ⟨auditable_merge h.1.auditable _, auditable_merge h.1.auditable' _⟩
    | failed _ _ => exact ⟨h.1.merge _, h.2.1, h.2.2.2, rfl⟩
  | rollingBack =>
    obtain ⟨_, _, _, _, rfl⟩ := rollingBack_ok hupdate
    cases hedge
    exact ⟨h.1.merge _, h.2.1, h.2.2.2⟩
  | rolledBack =>
    cases hupdate
    cases hedge
    exact known_replan (h.1.merge rolledBack) h.2.1 fun _ => Or.inl h.2.2
  | replan => exact absurd rfl hnode
  | escalate =>
    cases hedge
    trivial
  | completed =>
    cases hedge
    trivial

end Visits

section Attempts

variable {rt : Runtime} {π : Policy} {c d : Config} {node : Node} {decision : Json}
variable {clock : String}

/-- Both attempts raise, or both visit the node and leave what the next one reads known. -/
inductive InStep (rt : Runtime) (node : Node) (a b : Answers) (c d : Config) (v : ToolContext) :
    Prop where
  | raised (hc : attempt rt a c = (none, { c with world := v }))
      (hd : attempt rt b d = (none, { d with world := v }))
  | visited {update other : Update} {next : Option Node} {log log' : List AuditRecord}
      (hc : attempt rt a c = (some ⟨node, a, c.state, c.world, c.state.merge update, v⟩,
        { state := c.state.merge update, next := next, world := v, audit := log }))
      (hd : attempt rt b d = (some ⟨node, b, d.state, d.world, d.state.merge other, v⟩,
        { state := d.state.merge other, next := next, world := v, audit := log' }))
      (hknown : Known (c.state.merge update) (d.state.merge other) next)

theorem replan_run_error {a : Answers} {e : PyError} {s : AgentState} {w : ToolContext}
    (h : (replanCyclesOf s).addOne = .error e) :
    (nodeFn rt a .replan s).run w = (.error e, w) := by
  simp only [nodeFn, Action.run_lift, replan]
  rw [show (s.replanCycles.getD (.int 0)).addOne = .error e from h]
  rfl

theorem replan_next {k : Json} {s : AgentState} {reason : String} :
    nextNode rt .replan
      (s.merge [.status .replanning, .replanCycles k, .replanContext reason]) =
        (k.atLeast maxReplanCycles).map fun capped =>
          some (if capped then .escalate else .proposeAction) := by
  change (routeAfterReplan _).map some = _
  rw [show routeAfterReplan (s.merge [.status .replanning, .replanCycles k,
      .replanContext reason]) =
    (do return if ← k.atLeast maxReplanCycles then Node.escalate else .proposeAction) from rfl]
  cases k.atLeast maxReplanCycles <;> rfl

theorem inStep_replan {a b : Answers} (hc : c.next = some .replan) (hd : d.next = some .replan)
    (hworld : c.world = d.world) (h : Known c.state d.state (some .replan)) :
    InStep rt .replan a b c d c.world := by
  obtain ⟨hproposed, hmarks, hreason⟩ := h
  rcases counted_alike hproposed.cap with ⟨e, e', hs, ht⟩ | ⟨k, k', hs, ht, hroute, hcap⟩
  · have hraise : (nodeFn rt b .replan d.state).run d.world = (.error e', c.world) := by
      rw [hworld]
      exact replan_run_error ht
    exact .raised (attempt_raised hc (replan_run_error hs)) (attempt_raised hd hraise)
  · have hupdate : (nodeFn rt a .replan c.state).run c.world = (.ok [.status .replanning,
        .replanCycles k, .replanContext (replanReason c.state)], c.world) := replan_run hs
    have hother : (nodeFn rt b .replan d.state).run d.world = (.ok [.status .replanning,
        .replanCycles k', .replanContext (replanReason d.state)], c.world) := by
      rw [hworld]
      exact replan_run ht
    have hmatched : Matched rt .replan a b c d c.world c.world := by
      refine .returned hupdate hother (records_alike hproposed.auditable hproposed.auditable' rfl rfl) ?_
      rw [replan_next, replan_next, hroute]
    cases paired_of_matched hc hd hmatched with
    | raised hc' hd' => exact .raised hc' hd'
    | @visited _ _ next _ _ hupdate' hother' _ hroute' _ hc' hd' =>
      rw [hupdate] at hupdate'
      rw [hother] at hother'
      cases hupdate'
      cases hother'
      refine .visited hc' hd' ?_
      have hs' := auditable_merge hproposed.auditable
        [.status .replanning, .replanCycles k, .replanContext (replanReason c.state)]
      have ht' := auditable_merge hproposed.auditable'
        [.status .replanning, .replanCycles k', .replanContext (replanReason d.state)]
      rw [replan_next] at hroute'
      cases hbound : k.atLeast maxReplanCycles with
      | error e =>
        rw [hbound] at hroute'
        cases hroute'
      | ok capped =>
        rw [hbound] at hroute'
        cases hroute'
        cases capped with
        | true => exact ⟨hs', ht'⟩
        | false =>
          have hfirst : capReached (replanCyclesOf c.state) 0 = some false := by
            rw [capReached_zero hs, hbound]
            rfl
          refine ⟨⟨⟨hproposed.runId, hcap, ?_⟩, hproposed.observations, hproposed.diagnosis,
            hs', ht'⟩, fun _ => hmarks hfirst⟩
          exact congrArg Json.str (hreason hfirst)

/-- One attempt each, from two states that agree on what the next node reads. -/
theorem inStep (hrt : rt.revalidate = true) (hc : c.next = some node) (hd : d.next = some node)
    (hworld : c.world = d.world) (h : Known c.state d.state (some node)) :
    ∃ v, InStep rt node (π.answers node decision clock c.state c.world)
      (π.answers node decision clock d.state d.world) c d v := by
  by_cases hnode : node = .replan
  · subst hnode
    exact ⟨c.world, inStep_replan hc hd hworld h⟩
  · have hsame : nodeFn rt (π.answers node decision clock c.state c.world) node c.state =
        nodeFn rt (π.answers node decision clock d.state d.world) node d.state := by
      rw [← hworld]
      exact nodeFn_congr h hnode
    cases hrun : (nodeFn rt (π.answers node decision clock c.state c.world) node c.state).run
        c.world with
    | mk result v =>
      have hrun' := hrun
      rw [hsame, hworld] at hrun'
      refine ⟨v, ?_⟩
      cases result with
      | error e => exact .raised (attempt_raised hc hrun) (attempt_raised hd hrun')
      | ok update =>
        have hrecords : (∃ record, auditRecord (π.answers node decision clock c.state c.world).clock
              node c.state update = .ok record) ↔
            ∃ record, auditRecord (π.answers node decision clock d.state d.world).clock
              node d.state update = .ok record := by
          by_cases hdiagnose : node = .diagnose
          · subst hdiagnose
            obtain ⟨_, obs, _, rfl⟩ := diagnose_ok hrun
            rw [recorded_diagnosis_iff, recorded_diagnosis_iff]
            exact h.auditable
          · have hauditable := auditable_of_known h hdiagnose
            exact records_alike hauditable.1 hauditable.2 rfl rfl
        have hmatched := Matched.returned hrun hrun' hrecords (routes_alike hnode hrun d.state)
        cases paired_of_matched hc hd hmatched with
        | raised hc' hd' => exact .raised hc' hd'
        | visited hupdate hother hrecord hroute _ hc' hd' =>
          rw [hrun] at hupdate
          rw [hrun'] at hother
          cases hupdate
          cases hother
          exact .visited hc' hd' (known_next hrt hnode h hrun hrecord hroute)

end Attempts

/-! ### Runs in the same surroundings -/

/-- What two runs are given alike: the reasoner and the classifier, the decisions in their
order, the clock, and what others do to the sandbox before each attempt. -/
structure Surroundings where
  digest : String → String
  policy : Policy
  decision : ℕ → Json
  clock : ℕ → String
  others : ℕ → ToolContext → ToolContext

namespace Surroundings

variable (e : Surroundings)

/-- What is answered in attempt `n`, when `k` decisions have been asked for. -/
def answers (n k : ℕ) (c : Config) : Answers :=
  match c.next with
  | some node => e.policy.answers node (e.decision k) (e.clock n) c.state c.world
  | none => {}

def entered (n : ℕ) (c : Config) : Config := { c with world := e.others n c.world }

def turn (n k : ℕ) (c : Config) : Option Visit × Config :=
  attempt { digest := e.digest } (e.answers n k (e.entered n c)) (e.entered n c)

def asked (k : ℕ) (c : Config) : ℕ := if c.next = some .awaitApproval then k + 1 else k

/-- The visits of `m` attempts. -/
def drive : ℕ → ℕ → ℕ → Config → List Visit
  | 0, _, _, _ => []
  | m + 1, n, k, c =>
    (e.turn n k c).1.toList ++ drive m (n + 1) (asked k c) (e.turn n k c).2

end Surroundings

/-- What is seen of a visit: the node, what the reasoner is told, which action is executed
with which parameters, and what becomes of the services and the records. -/
structure Seen where
  node : Node
  replanContext : Option Json
  executed : Option (Option Json × Json)
  clients : Dict String ServiceState
  records : RecordsRepository

def seen (v : Visit) : Seen where
  node := v.node
  replanContext := if v.node = .proposeAction then some (replanContextOf v.before) else none
  executed :=
    if v.node = .execute then some (v.before.proposedAction, parametersOf v.before) else none
  clients := v.worldAfter.clients
  records := v.worldAfter.records

def replans (vs : List Visit) : ℕ := vs.countP fun v => decide (v.node = .replan)

section Driven

variable {e : Surroundings}

theorem seen_congr {node : Node} {a b : Answers} {s s' t t' : AgentState} {w w' v : ToolContext}
    (h : Known s t (some node)) : seen ⟨node, a, s, w, s', v⟩ = seen ⟨node, b, t, w', t', v⟩ := by
  have hcontext : (if node = .proposeAction then some (replanContextOf s) else none) =
      if node = .proposeAction then some (replanContextOf t) else none := by
    split
    · rename_i hnode
      subst hnode
      rw [h.1.context]
    · rfl
  have hexecuted : (if node = .execute then some (s.proposedAction, parametersOf s) else none) =
      if node = .execute then some (t.proposedAction, parametersOf t) else none := by
    split
    · rename_i hnode
      subst hnode
      rw [parametersOf, parametersOf, h.1.proposedAction, h.1.actionParameters]
    · rfl
  simp only [seen]
  rw [hcontext, hexecuted]

theorem turn_none {c : Config} {n k : ℕ} (hnext : c.next = none) :
    e.turn n k c = (none, e.entered n c) :=
  attempt_none hnext

theorem turn_at {c : Config} {n k : ℕ} {node : Node} (hnext : c.next = some node) :
    e.turn n k c = attempt { digest := e.digest } (e.policy.answers node (e.decision k) (e.clock n)
      (e.entered n c).state (e.entered n c).world) (e.entered n c) := by
  simp only [Surroundings.turn, Surroundings.answers]
  rw [show (e.entered n c).next = some node from hnext]

/-- One turn each: what is seen is the same, and so is what the next node reads. -/
theorem turn_alike {c d : Config} (n k : ℕ) (hnext : c.next = d.next)
    (hworld : c.world = d.world) (h : Known c.state d.state c.next) :
    (e.turn n k c).1.toList.map seen = (e.turn n k d).1.toList.map seen ∧
      (e.turn n k c).2.next = (e.turn n k d).2.next ∧
      (e.turn n k c).2.world = (e.turn n k d).2.world ∧
      Known (e.turn n k c).2.state (e.turn n k d).2.state (e.turn n k c).2.next := by
  have hentered : (e.entered n c).world = (e.entered n d).world := by
    simp only [Surroundings.entered]
    rw [hworld]
  rcases Option.eq_none_or_eq_some c.next with hc | ⟨node, hc⟩
  · rw [turn_none hc, turn_none (hnext ▸ hc)]
    exact ⟨rfl, hnext, hentered, h⟩
  · have hd := hnext ▸ hc
    rw [hc] at h
    rw [turn_at hc, turn_at hd]
    obtain ⟨v, hstep⟩ : ∃ v, InStep { digest := e.digest } node
        (e.policy.answers node (e.decision k) (e.clock n) (e.entered n c).state (e.entered n c).world)
        (e.policy.answers node (e.decision k) (e.clock n) (e.entered n d).state (e.entered n d).world)
        (e.entered n c) (e.entered n d) v := inStep rfl hc hd hentered h
    cases hstep with
    | raised hleft hright =>
      rw [hleft, hright]
      refine ⟨rfl, hnext, rfl, ?_⟩
      rw [show ({ e.entered n c with world := v } : Config).next = some node from hc]
      exact h
    | visited hleft hright hknown =>
      rw [hleft, hright]
      exact ⟨congrArg (fun x => [x]) (seen_congr h), rfl, rfl, hknown⟩

/-- Two runs that agree on what the next node reads are seen alike from then on. -/
theorem drive_alike {c d : Config} {m n k : ℕ} (hnext : c.next = d.next)
    (hworld : c.world = d.world) (h : Known c.state d.state c.next) :
    (e.drive m n k c).map seen = (e.drive m n k d).map seen := by
  induction m generalizing n k c d with
  | zero => rfl
  | succ m ih =>
    obtain ⟨hseen, hnext', hworld', hknown⟩ := turn_alike (e := e) n k hnext hworld h
    rw [Surroundings.drive, Surroundings.drive, List.map_append, List.map_append, hseen,
      Surroundings.asked, Surroundings.asked, hnext, ih hnext' hworld' hknown]

end Driven

end InitialState
