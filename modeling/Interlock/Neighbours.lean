import Interlock.AuditRecords
import Interlock.OneService
import Interlock.Policies
import Interlock.SoundRuns

/-!
# Runs that keep to one service

A run whose reasoner looks at one service only and proposes actions on it. Two of its
attempts at a node, in sandboxes that agree on the service and with states that agree but
for what was observed of other services, go the same way and leave both alike.
-/

namespace Neighbours

open Dictionary PythonValues MockService Tools DiagnosticSweep Fingerprint RiskPolicy Execution
open RunState Nodes Graph Transitions Walks Suspension Policies LocalReadings OneService
open SoundRuns (swept_after)
open EditedActions (registered_of_valid)
open AuditRecords (led_tagsKept)

/-- A run with a service of its own, and the decisions that its reviewers give in order. -/
structure Member where
  runId : String
  service : String
  policy : Policy
  decision : ℕ → Json

namespace Member

variable (m : Member)

/-- The texts of the proposals that a run may make. -/
def Action (action : String) : Prop := ∃ tool ∈ serviceTools, action = tool ++ ":" ++ m.service

/-- The ledger keys of a run. -/
def Key (key : String) : Prop :=
  m.service ∈ knownServices ∧ ∃ action, m.Action action ∧ key = idempotencyKey m.runId action

/-- Neither the reasoner nor the reviewers look beyond the service or act beyond it. The
classifier is given nothing but the action and what a sweep says of its target. -/
structure Confined : Prop where
  diagnose : ∀ obs obs', reading m.service obs = reading m.service obs' →
    m.policy.diagnose obs = m.policy.diagnose obs'
  propose : ∀ obs obs' diagnosis context, reading m.service obs = reading m.service obs' →
    m.policy.propose obs diagnosis context = m.policy.propose obs' diagnosis context
  proposes : ∀ obs diagnosis context, (m.policy.propose obs diagnosis context).tool ∈ serviceTools ∧
    (m.policy.propose obs diagnosis context).target = m.service
  unedited : ∀ k action, editedAction (m.decision k) ≠ .ok (some action)

end Member

/-! ### States that agree -/

/-- States that differ in their observations only, and there in other services only. -/
structure Like (service : String) (s t : AgentState) : Prop where
  rest : t = { s with observations := t.observations }
  readings : s.observations.map (reading service) = t.observations.map (reading service)

theorem Like.refl (service : String) (s : AgentState) : Like service s s := ⟨rfl, rfl⟩

inductive WriteLike (service : String) : Write → Write → Prop where
  | same {write : Write} : WriteLike service write write
  | observations {obs obs' : Observations} (h : reading service obs = reading service obs') :
      WriteLike service (.observations obs) (.observations obs')

def UpdateLike (service : String) : Update → Update → Prop := List.Forall₂ (WriteLike service)

theorem UpdateLike.refl (service : String) (update : Update) : UpdateLike service update update := by
  induction update with
  | nil => exact .nil
  | cons write rest ih => exact .cons .same ih

section Like

variable {service : String} {s t : AgentState} {update other : Update}

theorem Like.merge (h : Like service s t) (hu : UpdateLike service update other) :
    Like service (s.merge update) (t.merge other) := by
  induction hu generalizing s t with
  | nil => exact h
  | @cons write write' _ _ hwrite _ ih =>
    apply ih
    obtain ⟨hrest, hreadings⟩ := h
    cases hwrite with
    | observations hobs =>
      refine ⟨?_, congrArg some hobs⟩
      rw [hrest]
      rfl
    | same =>
      rw [hrest]
      cases write with
      | observations obs => exact ⟨rfl, rfl⟩
      | _ => exact ⟨rfl, hreadings⟩

theorem written_like (hu : UpdateLike service update other) :
    writtenApprover update = writtenApprover other ∧
      writtenDecision update = writtenDecision other := by
  induction hu with
  | nil => exact ⟨rfl, rfl⟩
  | @cons write write' rest rest' hwrite _ ih =>
    cases hwrite with
    | observations _ => exact ih
    | same =>
      obtain ⟨happrover, hdecision⟩ := ih
      constructor
      · rw [writtenApprover, writtenApprover, List.findSome?_cons, List.findSome?_cons]
        rw [writtenApprover, writtenApprover] at happrover
        rw [happrover]
      · rw [writtenDecision, writtenDecision, List.findSome?_cons, List.findSome?_cons]
        rw [writtenDecision, writtenDecision] at hdecision
        rw [hdecision]

theorem auditable_like (h : Like service s t) : Auditable s ↔ Auditable t := by
  rw [h.rest]
  constructor
  · rintro ⟨hrunId, hstatus, haction, htier, hkey⟩
    exact ⟨hrunId, hstatus, haction, htier, hkey⟩
  · rintro ⟨hrunId, hstatus, haction, htier, hkey⟩
    exact ⟨hrunId, hstatus, haction, htier, hkey⟩

theorem records_like (h : Like service s t) (hu : UpdateLike service update other)
    (clock clock' : String) (node : Node) :
    (∃ record, auditRecord clock node s update = .ok record) ↔
      ∃ record, auditRecord clock' node t other = .ok record := by
  have hstatus : s.status = t.status := by rw [h.rest]
  rw [auditRecord_ok_iff, auditRecord_ok_iff, auditable_like (h.merge hu), hstatus,
    (written_like hu).1, (written_like hu).2]

theorem routes_like (h : Like service s t) (rt : Runtime) (node : Node) :
    nextNode rt node s = nextNode rt node t := by
  rw [h.rest]
  cases node <;> rfl

end Like

/-! ### What a run owns -/

/-- The nodes from an accepted proposal to its execution. -/
def planned : List Node :=
  [.classifyRisk, .markAwaitingApproval, .awaitApproval, .revalidate, .prepareExecution]

/-- The state of a run between two nodes speaks of its own service only. -/
structure Owns (m : Member) (s : AgentState) (next : Option Node) : Prop where
  runId : s.runId = some (.str m.runId)
  swept : next ≠ some .diagnose → Swept s
  diagnosed : next ≠ some .diagnose → ∃ diagnosis, s.diagnosis = some diagnosis
  action : ∀ j, s.proposedAction = some j → ∃ action, j = .str action ∧ m.Action action
  key : ∀ j, s.idempotencyKey = some j → ∃ key, j = .str key ∧ m.Key key
  compensation : ∀ c, s.compensation = some c → Own m.service c
  known : ∀ node ∈ planned, next = some node → m.service ∈ knownServices

/-- What the ledger holds under the keys of a run compensates its own service. -/
def OwnsEntries (m : Member) (w : ToolContext) : Prop :=
  ∀ key entry, m.Key key → w.store.get? key = some entry → Own m.service entry.compensation

/-- The results of a node in two sandboxes. -/
inductive Alongside (service : String) : Except PyError Update → Except PyError Update → Prop where
  | raised {e e' : PyError} : Alongside service (.error e) (.error e')
  | returned {update other : Update} (h : UpdateLike service update other) :
      Alongside service (.ok update) (.ok other)

theorem Alongside.refl (service : String) (x : Except PyError Update) : Alongside service x x := by
  cases x with
  | error e => exact .raised
  | ok update => exact .returned (.refl service update)

section Nodes

variable {rt : Runtime} {m : Member} {s t : AgentState} {observations : Option Observations}
variable {node : Node} {v w : ToolContext} {clock clock' : String} {k : ℕ}

/-- Two runs of a node, each in its own sandbox. -/
def Twice (m : Member) (x y : Action ToolContext Update) (v w : ToolContext) : Prop :=
  ∃ r r' v' w', x.run v = (r, v') ∧ y.run w = (r', w') ∧ Alongside m.service r r' ∧
    Abreast m.service m.Key v w v' w'

theorem twice_lift {x y : Except PyError Update} (h : Alongside m.service x y) :
    Twice m (Action.lift x) (Action.lift y) v w :=
  ⟨x, y, v, w, rfl, rfl, h, .still⟩

theorem Member.Action.split {action : String} (h : m.Action action) :
    ∃ tool, tool ≠ "delete_records" ∧ splitColon action = .ok (tool, m.service) := by
  obtain ⟨tool, htool, rfl⟩ := h
  exact ⟨tool, (serviceTools_mem htool).2, splitColon_tool htool m.service⟩

theorem twice_diagnose (hm : m.Confined) (h : Agree m.service m.Key v w) :
    Twice m (diagnose (m.policy.diagnosis v)) (diagnose (m.policy.diagnosis w)) v w := by
  have hrun : ∀ (u : ToolContext) (obs : Observations), gatherObservations u = .ok obs →
      (diagnose (m.policy.diagnosis u)).run u = (.ok [.status .diagnosing, .observations obs,
        .diagnosis (m.policy.diagnose obs)], u) := by
    intro u obs hobs
    have hread : (Action.read gatherObservations : Action ToolContext Observations).run u =
        (.ok obs, u) := by rw [Action.run_read, hobs]
    rw [diagnose, Action.run_bind_of_ok hread, Policy.diagnosis, hobs]
    rfl
  have hraise : ∀ (u : ToolContext) (e : PyError), gatherObservations u = .error e →
      (diagnose (m.policy.diagnosis u)).run u = (.error e, u) := by
    intro u e he
    have hread : (Action.read gatherObservations : Action ToolContext Observations).run u =
        (.error e, u) := by rw [Action.run_read, he]
    exact Action.run_bind_of_error hread
  cases hv : gatherObservations v with
  | error e =>
    cases hw : gatherObservations w with
    | error e' => exact ⟨_, _, _, _, hraise v e hv, hraise w e' hw, .raised, .still⟩
    | ok obs' =>
      obtain ⟨obs, hobs⟩ := h.sweeps.mpr ⟨obs', hw⟩
      rw [hv] at hobs
      cases hobs
  | ok obs =>
    obtain ⟨obs', hw⟩ := h.sweeps.mp ⟨obs, hv⟩
    have hreading := reading_gather hv hw h.client
    refine ⟨_, _, _, _, hrun v obs hv, hrun w obs' hw, .returned ?_, .still⟩
    rw [hm.diagnose obs obs' hreading]
    exact .cons .same (.cons (.observations hreading) (.cons .same .nil))

theorem proposal_like (hm : m.Confined) {obs obs' : Observations} {d : String}
    (hobs : s.observations = some obs) (hdiagnosis : s.diagnosis = some d)
    (hreading : reading m.service obs = reading m.service obs') :
    m.policy.proposal s = m.policy.proposal { s with observations := some obs' } ∧
      m.Action (m.policy.proposal s).action := by
  have hproposal : m.policy.proposal s = m.policy.propose obs d (replanContextOf s) := by
    rw [Policy.proposal, hobs, hdiagnosis]
  have hother : m.policy.proposal { s with observations := some obs' } =
      m.policy.propose obs' d (replanContextOf s) := by
    simp only [Policy.proposal, hdiagnosis]
    rfl
  obtain ⟨htool, htarget⟩ := hm.proposes obs d (replanContextOf s)
  refine ⟨?_, _, htool, ?_⟩
  · rw [hproposal, hother, hm.propose obs obs' d _ hreading]
  · rw [hproposal, Proposal.action, htarget]

theorem proposeAction_like {obs obs' : Observations} {proposal : Proposal}
    (hobs : s.observations = some obs) (haction : m.Action proposal.action)
    (hreading : reading m.service obs = reading m.service obs') :
    proposeAction rt proposal s = proposeAction rt proposal { s with observations := some obs' } := by
  obtain ⟨tool, htool, hsplit⟩ := haction.split
  have hanchor : anchorProposal rt obs proposal.action = anchorProposal rt obs' proposal.action := by
    funext reason
    cases reason with
    | some text => rfl
    | none =>
      rw [anchorProposal, anchorProposal,
        computeFingerprint_reading rt.digest hsplit htool hreading]
  simp only [proposeAction, hobs, required_some, bind, Except.bind,
    validateProposal_reading hsplit htool hreading, hanchor]

theorem classification_like {obs obs' : Observations} {action : String}
    (hobs : s.observations = some obs) (hproposed : s.proposedAction = some (.str action))
    (haction : m.Action action) (hreading : reading m.service obs = reading m.service obs') :
    m.policy.classification s = m.policy.classification { s with observations := some obs' } ∧
      ∀ c, classifyRisk c s = classifyRisk c { s with observations := some obs' } := by
  obtain ⟨tool, htool, hsplit⟩ := haction.split
  have hsituational := situationalFeatures_reading hsplit htool hreading
  constructor
  · rw [Policy.classification, Policy.classification, hproposed, hobs]
    cases s.diagnosis with
    | none => rfl
    | some diagnosis => simp only [hsituational]
  · intro c
    simp only [classifyRisk, hproposed, hobs, requiredText_str, required_some, bind, Except.bind,
      hsituational]

theorem awaitApproval_like {decision : Json}
    (h : ∀ action, editedAction decision ≠ .ok (some action)) :
    awaitApproval rt decision s = awaitApproval rt decision { s with observations := observations } := by
  simp only [awaitApproval, interruptPayload]
  cases hedit : editedAction decision with
  | error e => rfl
  | ok edit =>
    cases edit with
    | none => rfl
    | some action => exact absurd hedit (h action)

theorem twice_revalidate (hs : Owns m s (some .revalidate)) (h : Agree m.service m.Key v w)
    (haction : t.proposedAction = s.proposedAction)
    (hanchor : t.stateFingerprint = s.stateFingerprint) :
    Twice m (revalidate rt s) (revalidate rt t) v w := by
  have hrun : ∀ (t : AgentState) (u : ToolContext) (obs : Observations),
      gatherObservations u = .ok obs → (revalidate rt t).run u = (do
        let proposedAction ← requiredText "proposed_action" t.proposedAction
        let freshFingerprint ← computeFingerprint rt.digest obs proposedAction
        let anchored ← required "state_fingerprint" t.stateFingerprint
        return [.status .revalidating, .observations obs, .stateFingerprint (some freshFingerprint),
          .driftDetected (decide (some freshFingerprint ≠ anchored))], u) := by
    intro t u obs hobs
    have hread : (Action.read gatherObservations : Action ToolContext Observations).run u =
        (.ok obs, u) := by rw [Action.run_read, hobs]
    rw [revalidate, Action.run_bind_of_ok hread]
    rfl
  have hraise : ∀ (t : AgentState) (u : ToolContext) (e : PyError),
      gatherObservations u = .error e → (revalidate rt t).run u = (.error e, u) := by
    intro t u e he
    have hread : (Action.read gatherObservations : Action ToolContext Observations).run u =
        (.error e, u) := by rw [Action.run_read, he]
    exact Action.run_bind_of_error hread
  cases hv : gatherObservations v with
  | error e =>
    cases hw : gatherObservations w with
    | error e' => exact ⟨_, _, _, _, hraise s v e hv, hraise t w e' hw, .raised, .still⟩
    | ok obs' =>
      obtain ⟨obs, hobs⟩ := h.sweeps.mpr ⟨obs', hw⟩
      rw [hv] at hobs
      cases hobs
  | ok obs =>
    obtain ⟨obs', hw⟩ := h.sweeps.mp ⟨obs, hv⟩
    have hreading := reading_gather hv hw h.client
    refine ⟨_, _, _, _, hrun s v obs hv, hrun t w obs' hw, ?_, .still⟩
    rw [haction, hanchor]
    cases hproposed : s.proposedAction with
    | none => exact .raised
    | some j =>
      obtain ⟨action, rfl, haction⟩ := hs.action j hproposed
      obtain ⟨tool, htool, hsplit⟩ := haction.split
      simp only [requiredText_str, bind, Except.bind,
        computeFingerprint_reading rt.digest hsplit htool hreading]
      cases computeFingerprint rt.digest obs' action with
      | error e => exact .raised
      | ok fingerprint =>
        cases s.stateFingerprint with
        | none => exact .raised
        | some anchored =>
          exact .returned (.cons .same (.cons (.observations hreading) (UpdateLike.refl _ _)))

theorem twice_execute (hs : Owns m s (some .execute)) (h : Agree m.service m.Key v w)
    (hentries : OwnsEntries m v) (haction : t.proposedAction = s.proposedAction)
    (hkey : t.idempotencyKey = s.idempotencyKey)
    (hparameters : t.actionParameters = s.actionParameters) :
    Twice m (execute s) (execute t) v w := by
  have hbody : ∀ (a : AgentState) (u : ToolContext), a.proposedAction = s.proposedAction →
      a.idempotencyKey = s.idempotencyKey → a.actionParameters = s.actionParameters →
        (execute a).run u = (execute s).run u := by
    intro a u haction hkey hparameters
    simp only [execute, parametersOf, haction, hkey, hparameters]
  have hright := hbody t w haction hkey hparameters
  cases hproposed : s.proposedAction with
  | none =>
    have hraise : ∀ u, (execute s).run u = (.error (.keyError "proposed_action"), u) := by
      intro u
      apply Action.run_bind_of_error
      rw [Action.run_lift, hproposed]
      rfl
    exact ⟨_, _, _, _, hraise v, hright.trans (hraise w), .raised, .still⟩
  | some j =>
    obtain ⟨action, rfl, hown⟩ := hs.action j hproposed
    cases hstored : s.idempotencyKey with
    | none =>
      have hraise : ∀ u, (execute s).run u = (.error (.keyError "idempotency_key"), u) := by
        intro u
        have hlift : (Action.lift (requiredText "proposed_action" s.proposedAction) :
            Action ToolContext String).run u = (.ok action, u) := by
          rw [Action.run_lift, hproposed, requiredText_str]
        rw [execute, Action.run_bind_of_ok hlift]
        apply Action.run_bind_of_error
        rw [Action.run_lift, hstored]
        rfl
      exact ⟨_, _, _, _, hraise v, hright.trans (hraise w), .raised, .still⟩
    | some i =>
      obtain ⟨key, rfl, hkeyed⟩ := hs.key i hstored
      obtain ⟨tool, htool, hsplit⟩ := hown.split
      have hrun : ∀ u, (execute s).run u = (executeAction action (parametersOf s) key >>= fun o =>
          pure [.status .executing, .executionResult o.result,
            .compensation o.compensation]).run u := by
        intro u
        rw [execute, hproposed, hstored, Action.run_bind, Action.run_lift]
        simp only [requiredText_str, Action.run_bind, Action.run_lift]
      generalize parametersOf s = given at hrun
      obtain ⟨r, r', v', w', hv, hw, hsame, habreast, _⟩ :=
        execution_abreast hsplit htool hkeyed h hentries
      have hleft := hrun v
      rw [hrun w] at hright
      cases hsame with
      | raised =>
        rw [Action.run_bind_of_error hv] at hleft
        rw [Action.run_bind_of_error hw] at hright
        exact ⟨_, _, _, _, hleft, hright, .raised, habreast⟩
      | @returned o =>
        rw [Action.run_bind_of_ok hv, Action.run_pure] at hleft
        rw [Action.run_bind_of_ok hw, Action.run_pure] at hright
        exact ⟨_, _, _, _, hleft, hright, .refl _ _, habreast⟩

theorem twice_verify (hs : Owns m s (some .verify)) (h : Agree m.service m.Key v w)
    (haction : t.proposedAction = s.proposedAction)
    (hresult : t.executionResult = s.executionResult) :
    Twice m (verify s) (verify t) v w := by
  have hsame : ∀ u, (verify t).run u = (verify s).run u := by
    intro u
    simp only [verify, haction, hresult]
  cases hproposed : s.proposedAction with
  | none =>
    have hraise : ∀ u, (verify s).run u = (.error (.keyError "proposed_action"), u) := by
      intro u
      apply Action.run_bind_of_error
      rw [Action.run_lift, hproposed]
      rfl
    exact ⟨_, _, _, _, hraise v, (hsame w).trans (hraise w), .raised, .still⟩
  | some j =>
    obtain ⟨action, rfl, hown⟩ := hs.action j hproposed
    obtain ⟨tool, htool, hsplit⟩ := hown.split
    have hlift : ∀ u, (Action.lift (requiredText "proposed_action" s.proposedAction) :
        Action ToolContext String).run u = (.ok action, u) := by
      intro u
      rw [Action.run_lift, hproposed, requiredText_str]
    cases hexecuted : s.executionResult with
    | none =>
      have hraise : ∀ u, (verify s).run u = (.error (.keyError "execution_result"), u) := by
        intro u
        rw [verify, Action.run_bind_of_ok (hlift u)]
        apply Action.run_bind_of_error
        rw [Action.run_lift, hexecuted]
        rfl
      exact ⟨_, _, _, _, hraise v, (hsame w).trans (hraise w), .raised, .still⟩
    | some result =>
      have hrun : ∀ u, (verify s).run u = ((verifyAction u action result).map fun passed =>
          [.status .verifying, .verificationPassed passed], u) := by
        intro u
        rw [verify, Action.run_bind_of_ok (hlift u), hexecuted, Action.run_bind, Action.run_lift]
        simp only [required_some, Action.run_bind, Action.run_read]
        cases verifyAction u action result with
        | error e => rfl
        | ok passed => rfl
      refine ⟨_, _, _, _, hrun v, (hsame w).trans (hrun w), ?_, .still⟩
      have hverdict : Same (verifyAction v action result) (verifyAction w action result) :=
        verifyAction_client hsplit htool h.client
      generalize verifyAction v action result = x at hverdict ⊢
      generalize verifyAction w action result = y at hverdict ⊢
      cases hverdict with
      | raised => exact .raised
      | returned => exact .refl _ _

theorem twice_rollingBack (hs : Owns m s (some .rollingBack)) (h : Agree m.service m.Key v w)
    (hcompensation : t.compensation = s.compensation) :
    Twice m (rollingBack s) (rollingBack t) v w := by
  have hsame : ∀ u, (rollingBack t).run u = (rollingBack s).run u := by
    intro u
    simp only [rollingBack, hcompensation]
  cases hregistered : s.compensation with
  | none =>
    have hraise : ∀ u, (rollingBack s).run u = (.error (.keyError "compensation"), u) := by
      intro u
      apply Action.run_bind_of_error
      rw [Action.run_lift, hregistered]
      rfl
    exact ⟨_, _, _, _, hraise v, (hsame w).trans (hraise w), .raised, .still⟩
  | some c =>
    have hlift : ∀ u, (Action.lift (required "compensation" s.compensation) :
        Action ToolContext Compensation).run u = (.ok c, u) := by
      intro u
      rw [Action.run_lift, hregistered, required_some]
    have hrun : ∀ u, (rollingBack s).run u = (applyCompensation c >>= fun result =>
        pure [.status .rollingBack, .rollbackResult result]).run u := by
      intro u
      rw [rollingBack, Action.run_bind_of_ok (hlift u)]
    obtain ⟨r, r', v', w', hv, hw, hresults, habreast⟩ :=
      compensation_abreast (hs.compensation c hregistered) h
    have hleft := hrun v
    have hright := (hsame w).trans (hrun w)
    cases hresults with
    | raised =>
      rw [Action.run_bind_of_error hv] at hleft
      rw [Action.run_bind_of_error hw] at hright
      exact ⟨_, _, _, _, hleft, hright, .raised, habreast⟩
    | returned =>
      rw [Action.run_bind_of_ok hv, Action.run_pure] at hleft
      rw [Action.run_bind_of_ok hw, Action.run_pure] at hright
      exact ⟨_, _, _, _, hleft, hright, .refl _ _, habreast⟩

/-- Every node goes the same way in both sandboxes. -/
theorem twice_nodeFn (hm : m.Confined) (hs : Owns m s (some node)) (hlike : Like m.service s t)
    (h : Agree m.service m.Key v w) (hentries : OwnsEntries m v) :
    Twice m (nodeFn rt (m.policy.answers node (m.decision k) clock s v) node s)
      (nodeFn rt (m.policy.answers node (m.decision k) clock' t w) node t) v w := by
  obtain ⟨hrest, hreadings⟩ := hlike
  generalize t.observations = observations at hrest hreadings
  subst hrest
  cases node with
  | diagnose => exact twice_diagnose hm h
  | proposeAction =>
    obtain ⟨_, obs, _, hobs⟩ := hs.swept (by decide)
    obtain ⟨d, hdiagnosis⟩ := hs.diagnosed (by decide)
    rw [hobs] at hreadings
    cases observations with
    | none => cases hreadings
    | some obs' =>
      have hreading := Option.some.inj hreadings
      obtain ⟨hproposal, haction⟩ := proposal_like hm hobs hdiagnosis hreading
      simp only [nodeFn, Policy.answers]
      rw [← hproposal, ← proposeAction_like hobs haction hreading]
      exact twice_lift (.refl _ _)
  | classifyRisk =>
    obtain ⟨_, obs, _, hobs⟩ := hs.swept (by decide)
    rw [hobs] at hreadings
    cases observations with
    | none => cases hreadings
    | some obs' =>
      simp only [nodeFn, Policy.answers]
      cases hproposed : s.proposedAction with
      | none =>
        refine twice_lift ?_
        have hraise : ∀ (c : Classification) (a : AgentState), a.proposedAction = none →
            classifyRisk c a = .error (.keyError "proposed_action") := by
          intro c a ha
          rw [classifyRisk, ha]
          rfl
        rw [hraise _ s hproposed, hraise _ _ rfl]
        exact .raised
      | some j =>
        obtain ⟨action, rfl, haction⟩ := hs.action j hproposed
        obtain ⟨hclassification, hclassify⟩ :=
          classification_like hobs hproposed haction (Option.some.inj hreadings)
        rw [hproposed] at hclassification hclassify
        rw [← hclassification, ← hclassify]
        exact twice_lift (.refl _ _)
  | markAwaitingApproval => exact ⟨_, _, _, _, rfl, rfl, .refl _ _, .still⟩
  | awaitApproval =>
    refine twice_lift ?_
    have hsame : awaitApproval rt (m.decision k) s =
        awaitApproval rt (m.decision k) { s with observations := observations } :=
      awaitApproval_like (hm.unedited k)
    rw [Policy.answers, Policy.answers, ← hsame]
    exact .refl _ _
  | revalidate => exact twice_revalidate hs h rfl rfl
  | prepareExecution => exact twice_lift (.refl _ _)
  | execute => exact twice_execute hs h hentries rfl rfl rfl
  | verify => exact twice_verify hs h rfl rfl
  | rollingBack => exact twice_rollingBack hs h rfl
  | rolledBack => exact ⟨_, _, _, _, rfl, rfl, .refl _ _, .still⟩
  | replan => exact twice_lift (.refl _ _)
  | escalate => exact ⟨_, _, _, _, rfl, rfl, .refl _ _, .still⟩
  | completed => exact ⟨_, _, _, _, rfl, rfl, .refl _ _, .still⟩

end Nodes

/-! ### One visit -/

section Visits

variable {rt : Runtime} {m : Member} {v : Visit} {next : Option Node} {clock : String} {k : ℕ}

theorem compensation_kept (h : v.Led rt next) (hexecute : v.node ≠ .execute) :
    v.after.compensation = v.before.compensation := by
  cases hnode : v.node with
  | diagnose =>
    obtain ⟨_, _, _, hafter⟩ := led_diagnose h hnode
    rw [hafter]
  | proposeAction =>
    obtain ⟨_, _, _, _, _, _, _, hafter⟩ := led_proposeAction h hnode
    rw [hafter]
  | classifyRisk =>
    obtain ⟨_, _, _, _, _, _, _, _, _, _, _, hafter⟩ := led_classifyRisk h hnode
    rw [hafter]
  | markAwaitingApproval =>
    obtain ⟨_, hafter⟩ := led_markAwaitingApproval h hnode
    rw [hafter]
  | awaitApproval =>
    obtain ⟨_, _, _, _, _, _, ⟨_, hafter⟩ | ⟨_, _, _, _, _, _, hafter⟩⟩ := led_awaitApproval h hnode
    · rw [hafter]
    · rw [hafter]
  | revalidate =>
    obtain ⟨_, _, _, _, _, _, _, _, _, hafter⟩ := led_revalidate h hnode
    rw [hafter]
  | prepareExecution =>
    obtain ⟨_, _, _, _, _, hafter⟩ := led_prepareExecution h hnode
    rw [hafter]
  | execute => exact absurd hnode hexecute
  | verify =>
    obtain ⟨_, _, _, _, _, _, _, hafter⟩ := led_verify h hnode
    rw [hafter]
  | rollingBack =>
    obtain ⟨_, _, _, _, hafter⟩ := led_rollingBack h hnode
    rw [hafter]
  | rolledBack =>
    obtain ⟨_, hafter⟩ := led_rolledBack h hnode
    rw [hafter]
  | replan =>
    obtain ⟨_, _, _, hafter⟩ := led_replan h hnode
    rw [hafter]
  | escalate =>
    obtain ⟨_, hafter⟩ := led_escalate h hnode
    rw [hafter]
  | completed =>
    obtain ⟨_, hafter⟩ := led_completed h hnode
    rw [hafter]

/-- A planned node follows another one, or the proposal that was accepted. -/
theorem edge_to_planned {s : AgentState} {node next : Node} (h : Edge rt s node (some next))
    (hplanned : next ∈ planned) :
    node ∈ planned ∨ node = .proposeAction ∧ textTruthy s.invalidProposalReason = false := by
  cases h with
  | proposed hvalid => exact Or.inr ⟨rfl, hvalid⟩
  | low _ => exact Or.inl (by decide)
  | gated _ => exact Or.inl (by decide)
  | marked => exact Or.inl (by decide)
  | granted _ _ _ => exact Or.inl (by decide)
  | grantedBlind _ _ _ => exact Or.inl (by decide)
  | steady _ _ => exact Or.inl (by decide)
  | _ => exact absurd hplanned (by decide)

/-- A proposal that is accepted has its service in the registry. -/
theorem known_of_accepted (h : v.Led rt next) (hnode : v.node = .proposeAction)
    (hswept : Swept v.before) (haction : m.Action v.answers.proposal.action)
    (hvalid : textTruthy v.after.invalidProposalReason = false) : m.service ∈ knownServices := by
  obtain ⟨w, obs, hsweep, hobs⟩ := hswept
  obtain ⟨_, obs', reason, fingerprint, hobs', hreason, _, hafter⟩ := led_proposeAction h hnode
  rw [hobs] at hobs'
  cases hobs'
  rw [hafter] at hvalid
  cases reason with
  | some text =>
    have hempty : text = "" := by simpa [textTruthy] using hvalid
    exact absurd hempty (validateProposal_reason hreason)
  | none =>
    obtain ⟨tool, target, hsplit, _, hknown, _⟩ := registered_of_valid hsweep hreason
    obtain ⟨tool', htool, hsplit'⟩ := haction.split
    rw [hsplit] at hsplit'
    cases hsplit'
    exact hknown htool

/-- A visit leaves a state that speaks of the run's own service again. -/
theorem owns_after (hm : m.Confined) (h : v.Led rt next)
    (hanswers : v.answers =
      m.policy.answers v.node (m.decision k) clock v.before v.worldBefore)
    (hs : Owns m v.before (some v.node)) (hentries : OwnsEntries m v.worldBefore) :
    Owns m v.after next := by
  have hswept : v.node ≠ .diagnose → Swept v.before := fun hne =>
    hs.swept fun hsome => hne (Option.some.inj hsome)
  have hproposes : v.node = .proposeAction → m.Action v.answers.proposal.action := by
    intro hnode
    obtain ⟨_, obs, _, hobs⟩ := hswept (by rw [hnode]; decide)
    obtain ⟨d, hdiagnosis⟩ := hs.diagnosed (by rw [hnode]; decide)
    rw [hanswers, hnode]
    exact (proposal_like (s := v.before) hm hobs hdiagnosis rfl).2
  refine ⟨?_, ?_, ?_, ?_, ?_, ?_, ?_⟩
  · rw [(led_kept h).runId]
    exact hs.runId
  · exact fun _ => swept_after h hswept
  · intro _
    by_cases hdiagnose : v.node = .diagnose
    · obtain ⟨_, _, _, hafter⟩ := led_diagnose h hdiagnose
      exact ⟨_, by rw [hafter]⟩
    · rw [(led_kept h).diagnosis hdiagnose]
      exact hs.diagnosed fun hsome => hdiagnose (Option.some.inj hsome)
  · intro j hj
    by_cases hpropose : v.node = .proposeAction
    · obtain ⟨_, _, _, _, _, _, _, hafter⟩ := led_proposeAction h hpropose
      rw [hafter, Option.some.injEq] at hj
      exact ⟨_, hj.symm, hproposes hpropose⟩
    · by_cases hawait : v.node = .awaitApproval
      · obtain ⟨_, _, _, edit, _, hedit, ⟨_, hafter⟩ | ⟨_, _, _, hsome, _⟩⟩ :=
          led_awaitApproval h hawait
        · rw [hafter] at hj
          exact hs.action j hj
        · rw [hanswers, hawait, hsome] at hedit
          exact absurd hedit (hm.unedited k _)
      · rw [(led_kept h).proposedAction hpropose hawait] at hj
        exact hs.action j hj
  · intro j hj
    by_cases hprepare : v.node = .prepareExecution
    · obtain ⟨_, runId, action, hrunId, haction, hafter⟩ := led_prepareExecution h hprepare
      rw [hs.runId, Option.some.injEq, Json.str.injEq] at hrunId
      obtain ⟨action', hsame, hown⟩ := hs.action _ haction
      cases hsame
      rw [hafter, Option.some.injEq] at hj
      refine ⟨_, hj.symm, hs.known .prepareExecution (by decide) (by rw [hprepare]), action, hown, ?_⟩
      rw [hrunId]
    · rw [(led_tagsKept h).key hprepare] at hj
      exact hs.key j hj
  · intro c hc
    by_cases hexecute : v.node = .execute
    · obtain ⟨action, key, outcome, haction, hkey, hrun, hafter⟩ := led_execute h hexecute
      obtain ⟨action', hsame, hown⟩ := hs.action _ haction
      cases hsame
      obtain ⟨key', hsame, hkeyed⟩ := hs.key _ hkey
      cases hsame
      obtain ⟨tool, htool, hsplit⟩ := hown.split
      obtain ⟨r, _, _, _, hrun', _, _, _, hcompensation⟩ := execution_abreast hsplit htool hkeyed
        (.refl v.worldBefore) hentries
      rw [hrun] at hrun'
      cases hrun'
      rw [hafter, Option.some.injEq] at hc
      rw [← hc]
      exact hcompensation outcome rfl
    · rw [compensation_kept h hexecute] at hc
      exact hs.compensation c hc
  · rintro node hplanned rfl
    rcases edge_to_planned (led_edge h) hplanned with hbefore | ⟨hpropose, hvalid⟩
    · exact hs.known v.node hbefore rfl
    · exact known_of_accepted h hpropose (hswept (by rw [hpropose]; decide)) (hproposes hpropose)
        hvalid

end Visits

/-! ### One attempt -/

/-- Two attempts that both raise, or both visit the node, and leave alike what they found
alike. -/
inductive Level (m : Member) (rt : Runtime) (node : Node) (a b : Answers) (c d : Config) : Prop where
  | raised {v w : ToolContext} (hc : attempt rt a c = (none, { c with world := v }))
      (hd : attempt rt b d = (none, { d with world := w }))
      (h : Abreast m.service m.Key c.world d.world v w)
  | visited {c' d' : Config}
      (hc : attempt rt a c = (some ⟨node, a, c.state, c.world, c'.state, c'.world⟩, c'))
      (hd : attempt rt b d = (some ⟨node, b, d.state, d.world, d'.state, d'.world⟩, d'))
      (hnext : c'.next = d'.next) (hlike : Like m.service c'.state d'.state)
      (h : Abreast m.service m.Key c.world d.world c'.world d'.world)

section Attempts

variable {rt : Runtime} {m : Member} {node : Node} {c d : Config} {clock clock' : String} {k : ℕ}

theorem level_attempts (hm : m.Confined) (hc : c.next = some node) (hd : d.next = some node)
    (hs : Owns m c.state (some node)) (hlike : Like m.service c.state d.state)
    (h : Agree m.service m.Key c.world d.world) (hentries : OwnsEntries m c.world) :
    Level m rt node (m.policy.answers node (m.decision k) clock c.state c.world)
      (m.policy.answers node (m.decision k) clock' d.state d.world) c d := by
  obtain ⟨r, r', v, w, hv, hw, halong, habreast⟩ :=
    twice_nodeFn hm hs hlike h hentries
  cases halong with
  | raised => exact .raised (attempt_raised hc hv) (attempt_raised hd hw) habreast
  | @returned update other hu =>
    have hmerged := hlike.merge hu
    have hmatched := Matched.returned hv hw (records_like hlike hu _ _ node)
      (routes_like hmerged rt node)
    cases paired_of_matched hc hd hmatched with
    | raised hc' hd' => exact .raised hc' hd' habreast
    | @visited _ _ next log log' hupdate hother _ _ _ hc' hd' =>
      rw [hv] at hupdate
      rw [hw] at hother
      cases hupdate
      cases hother
      exact @Level.visited m rt node _ _ c d ⟨c.state.merge update, next, v, log⟩
        ⟨d.state.merge other, next, w, log'⟩ hc' hd' rfl hmerged habreast

/-- An attempt touches nothing but the run's own service and its own keys, and leaves a
state of its own. -/
theorem attempt_kept (hm : m.Confined) (hc : c.next = some node)
    (hs : Owns m c.state (some node)) (hentries : OwnsEntries m c.world) :
    Kept m.service m.Key c.world (attempt rt
        (m.policy.answers node (m.decision k) clock c.state c.world) c).2.world ∧
      Owns m (attempt rt (m.policy.answers node (m.decision k) clock c.state c.world) c).2.state
        (attempt rt (m.policy.answers node (m.decision k) clock c.state c.world) c).2.next := by
  have hlevel : Level m rt node (m.policy.answers node (m.decision k) clock c.state c.world)
      (m.policy.answers node (m.decision k) clock c.state c.world) c c :=
    level_attempts hm hc hc hs (.refl _ _) (.refl _) hentries
  have hcases := @attempt_cases rt
    (m.policy.answers node (m.decision k) clock c.state c.world) node c hc
  rcases hcases with ⟨w, hraised⟩ | ⟨c', hvisited, hled⟩
  · cases hlevel with
    | raised hc' _ habreast =>
      rw [hc']
      refine ⟨habreast.kept, ?_⟩
      rw [show ({ c with world := _ } : Config).next = some node from hc]
      exact hs
    | visited hc' _ _ _ _ =>
      rw [hraised] at hc'
      cases hc'
  · cases hlevel with
    | raised hc' _ _ =>
      rw [hvisited] at hc'
      cases hc'
    | visited hc' _ _ _ habreast =>
      rw [hvisited] at hc'
      obtain ⟨_, rfl⟩ := Prod.mk.inj hc'
      rw [hvisited]
      exact ⟨habreast.kept, owns_after hm hled rfl hs hentries⟩

end Attempts

end Neighbours
