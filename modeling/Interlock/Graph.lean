import Interlock.Nodes
import Interlock.Transitions

/-!
# The compiled graph

Edges and routers of the state machine, the audit wrapper around every node,
and runs: visits to nodes, interleaved with what other operators do to the
sandbox. A run is suspended while its next node is `await_approval`, whose visit
takes the value the run is resumed with.
-/

namespace Graph

open Dictionary PythonValues Tools RunState Nodes Transitions

/-! ### Audit records -/

inductive Actor where
  | agent
  | human
  | system
  deriving DecidableEq, Repr

structure AuditRecord where
  runId : String
  timestamp : String
  fromState : Option String
  toState : Option String
  actor : Actor
  actionProposed : Option String
  riskTier : Option String
  approverId : Option String
  decision : Option String
  idempotencyKey : Option String
  rationale : Option String
  deriving DecidableEq, Repr

/-- `update.get("approver_id")`. -/
def writtenApprover (update : Update) : Option Json :=
  update.findSome? fun
    | .approverId approver => some approver
    | _ => none

def writtenDecision (update : Update) : Option Json :=
  update.findSome? fun
    | .approvalDecision decision => some decision
    | _ => none

def writtenActionRationale (update : Update) : Option String :=
  update.findSome? fun
    | .actionRationale rationale => some rationale
    | _ => none

def writtenRiskRationale (update : Update) : Option String :=
  update.findSome? fun
    | .riskRationale rationale => some rationale
    | _ => none

def writtenReplanContext (update : Update) : Option String :=
  update.findSome? fun
    | .replanContext context => some context
    | _ => none

/-- `a or b` for texts that may be absent. -/
def orText (a b : Option String) : Option String :=
  match a with
  | some text => if text ≠ "" then a else b
  | none => b

def nodeActor : Node → Update → Actor
  | .awaitApproval, update =>
    if (writtenDecision update).any (·.isStr "timeout") then .system else .human
  | .markAwaitingApproval, _ => .system
  | .rolledBack, _ => .system
  | .escalate, _ => .system
  | .completed, _ => .system
  | _, _ => .agent

/-- The record of one transition; a field that is no text fails validation. -/
def auditRecord (clock : String) (node : Node) (state : AgentState) (update : Update) :
    Except PyError AuditRecord := do
  let merged := state.merge update
  let runId ← required "run_id" merged.runId
  return {
    runId := ← asStr "AuditRecord" "run_id" runId
    timestamp := clock
    fromState := ← asOptionalStr "AuditRecord" "from_state" state.status
    toState := ← asOptionalStr "AuditRecord" "to_state" merged.status
    actor := nodeActor node update
    actionProposed := ← asOptionalStr "AuditRecord" "action_proposed" merged.proposedAction
    riskTier := ← asOptionalStr "AuditRecord" "risk_tier" merged.riskTierFinal
    approverId := ← asOptionalStr "AuditRecord" "approver_id" (writtenApprover update)
    decision := ← asOptionalStr "AuditRecord" "decision" (writtenDecision update)
    idempotencyKey := ← asOptionalStr "AuditRecord" "idempotency_key" merged.idempotencyKey
    rationale := orText (orText (writtenActionRationale update) (writtenRiskRationale update))
      (writtenReplanContext update) }

/-! ### Nodes and edges -/

def nodeFn (rt : Runtime) (answers : Answers) (node : Node) (state : AgentState) :
    Action ToolContext Update :=
  match node with
  | .diagnose => diagnose answers.summary
  | .proposeAction => Action.lift (proposeAction rt answers.proposal state)
  | .classifyRisk => Action.lift (classifyRisk answers.classification state)
  | .markAwaitingApproval => pure markAwaitingApproval
  | .awaitApproval => Action.lift (awaitApproval rt answers.decision state)
  | .revalidate => revalidate rt state
  | .prepareExecution => Action.lift (prepareExecution state)
  | .execute => execute state
  | .verify => verify state
  | .rollingBack => rollingBack state
  | .rolledBack => pure rolledBack
  | .replan => Action.lift (replan state)
  | .escalate => pure escalate
  | .completed => pure completed

/-- `with_audit(name, fn)`. -/
def withAudit (rt : Runtime) (answers : Answers) (node : Node) (state : AgentState) :
    Action ToolContext (Update × AuditRecord) := do
  let update ← nodeFn rt answers node state
  let record ← Action.lift (auditRecord answers.clock node state update)
  return (update, record)

/-- The edge out of a node; `none` is the end of the graph. -/
def nextNode (rt : Runtime) (node : Node) (state : AgentState) : Except PyError (Option Node) :=
  match node with
  | .diagnose => .ok (some .proposeAction)
  | .proposeAction => .ok (some (routeAfterProposal state))
  | .classifyRisk => (routeAfterRiskClassification state).map some
  | .markAwaitingApproval => .ok (some .awaitApproval)
  | .awaitApproval => (routeAfterApproval rt state).map some
  | .revalidate => (routeAfterRevalidation state).map some
  | .prepareExecution => .ok (some .execute)
  | .execute => .ok (some .verify)
  | .verify => (routeAfterVerification state).map some
  | .rollingBack => .ok (some .rolledBack)
  | .rolledBack => .ok (some .replan)
  | .replan => (routeAfterReplan state).map some
  | .completed => .ok none
  | .escalate => .ok none

/-! ### Runs -/

/-- A checkpointed run over the sandbox, with the audit records so far. -/
structure Config where
  state : AgentState
  next : Option Node
  world : ToolContext
  audit : List AuditRecord := []

/-- `{"run_id": run_id, **initial_state}`, about to enter the graph. -/
def startWorkflow (runId : String) (initialState : AgentState) (world : ToolContext) : Config :=
  { state := { initialState with runId := some (initialState.runId.getD (.str runId)) }
    next := some .diagnose
    world := world }

def enter (rt : Runtime) (answers : Answers) (node : Node) (c : Config) :
    Action ToolContext (AgentState × Option Node × AuditRecord) := do
  let (update, record) ← withAudit rt answers node c.state
  let state := c.state.merge update
  let next ← Action.lift (nextNode rt node state)
  return (state, next, record)

/-- One visit to the next node. A node that raises leaves the checkpoint as it
was; the world it reached comes along. -/
def step (rt : Runtime) (answers : Answers) (c : Config) : Except PyError Config × ToolContext :=
  match c.next with
  | none => (.error (.valueError "the run has ended"), c.world)
  | some node =>
    match (enter rt answers node c).run c.world with
    | (.ok (state, next, record), world) =>
      (.ok { state := state, next := next, world := world, audit := c.audit ++ [record] }, world)
    | (.error e, world) => (.error e, world)

structure Visit where
  node : Node
  answers : Answers
  before : AgentState
  worldBefore : ToolContext
  after : AgentState
  worldAfter : ToolContext

inductive Event where
  | visit (v : Visit)
  | others (before after : ToolContext)

/-- Steps of a run, and changes that others make to the sandbox in between. -/
inductive Step (rt : Runtime) (others : ToolContext → ToolContext → Prop) :
    Config → Event → Config → Prop where
  | visit {c c' : Config} {node : Node} {answers : Answers} (hnext : c.next = some node)
      (hstep : (step rt answers c).1 = .ok c') :
      Step rt others c (.visit ⟨node, answers, c.state, c.world, c'.state, c'.world⟩) c'
  | others {c : Config} {world : ToolContext} (h : others c.world world) :
      Step rt others c (.others c.world world) { c with world := world }

def system (rt : Runtime) (others : ToolContext → ToolContext → Prop) : System Config Event :=
  ⟨Step rt others⟩

/-- The runs that `start_workflow` begins. -/
def Run (rt : Runtime) (others : ToolContext → ToolContext → Prop) (runId : String)
    (initialState : AgentState) (world : ToolContext) : List Event → Config → Prop :=
  Trace (system rt others) (startWorkflow runId initialState world)

/-! ### One visit -/

/-- What a visit did and where it led. -/
def Visit.Led (rt : Runtime) (v : Visit) (next : Option Node) : Prop :=
  ∃ update record, (nodeFn rt v.answers v.node v.before).run v.worldBefore =
      (.ok update, v.worldAfter) ∧
    auditRecord v.answers.clock v.node v.before update = .ok record ∧
    v.after = v.before.merge update ∧ nextNode rt v.node v.after = .ok next

theorem enter_ok_iff {rt : Runtime} {answers : Answers} {node : Node} {c : Config}
    {state : AgentState} {next : Option Node} {record : AuditRecord} {world : ToolContext} :
    (enter rt answers node c).run c.world = (.ok (state, next, record), world) ↔
      ∃ update, (nodeFn rt answers node c.state).run c.world = (.ok update, world) ∧
        auditRecord answers.clock node c.state update = .ok record ∧
        state = c.state.merge update ∧ nextNode rt node state = .ok next := by
  constructor
  · intro h
    obtain ⟨⟨update, r⟩, w₁, haudit, hrest⟩ := Action.run_bind_ok_iff.mp h
    obtain ⟨u, w₂, hnode, hrecord⟩ := Action.run_bind_ok_iff.mp haudit
    obtain ⟨r', w₃, hlift, hpure⟩ := Action.run_bind_ok_iff.mp hrecord
    cases hpure
    rw [Action.run_lift, Prod.mk.injEq] at hlift
    obtain ⟨hvalid, rfl⟩ := hlift
    obtain ⟨n, w₄, hlift, hpure⟩ := Action.run_bind_ok_iff.mp hrest
    cases hpure
    rw [Action.run_lift, Prod.mk.injEq] at hlift
    obtain ⟨hroute, rfl⟩ := hlift
    exact ⟨update, hnode, hvalid, rfl, hroute⟩
  · rintro ⟨update, hnode, hvalid, rfl, hroute⟩
    refine Action.run_bind_ok_iff.mpr ⟨(update, record), world, ?_, ?_⟩
    · refine Action.run_bind_ok_iff.mpr ⟨update, world, hnode, ?_⟩
      refine Action.run_bind_ok_iff.mpr ⟨record, world, ?_, rfl⟩
      rw [Action.run_lift, hvalid]
    · refine Action.run_bind_ok_iff.mpr ⟨next, world, ?_, rfl⟩
      rw [Action.run_lift, hroute]

/-- The fields of a record that was made. -/
theorem auditRecord_fields {clock : String} {node : Node} {state : AgentState} {update : Update}
    {record : AuditRecord} (h : auditRecord clock node state update = .ok record) :
    (state.merge update).runId = some (.str record.runId) ∧ record.timestamp = clock ∧
      asOptionalStr "AuditRecord" "from_state" state.status = .ok record.fromState ∧
      asOptionalStr "AuditRecord" "to_state" (state.merge update).status = .ok record.toState ∧
      record.actor = nodeActor node update ∧
      asOptionalStr "AuditRecord" "action_proposed" (state.merge update).proposedAction =
        .ok record.actionProposed ∧
      asOptionalStr "AuditRecord" "risk_tier" (state.merge update).riskTierFinal =
        .ok record.riskTier ∧
      asOptionalStr "AuditRecord" "approver_id" (writtenApprover update) = .ok record.approverId ∧
      asOptionalStr "AuditRecord" "decision" (writtenDecision update) = .ok record.decision ∧
      asOptionalStr "AuditRecord" "idempotency_key" (state.merge update).idempotencyKey =
        .ok record.idempotencyKey := by
  obtain ⟨runId, hrunId, h⟩ := except_bind_ok_iff.mp h
  obtain ⟨text, htext, h⟩ := except_bind_ok_iff.mp h
  obtain ⟨fromState, hfrom, h⟩ := except_bind_ok_iff.mp h
  obtain ⟨toState, hto, h⟩ := except_bind_ok_iff.mp h
  obtain ⟨action, haction, h⟩ := except_bind_ok_iff.mp h
  obtain ⟨tier, htier, h⟩ := except_bind_ok_iff.mp h
  obtain ⟨approver, happrover, h⟩ := except_bind_ok_iff.mp h
  obtain ⟨decision, hdecision, h⟩ := except_bind_ok_iff.mp h
  obtain ⟨key, hkey, h⟩ := except_bind_ok_iff.mp h
  cases h
  have hstr : runId = .str text := by
    cases runId with
    | str t =>
      cases htext
      rfl
    | _ => cases htext
  subst hstr
  exact ⟨required_ok_iff.mp hrunId, rfl, hfrom, hto, rfl, haction, htier, happrover, hdecision,
    hkey⟩

/-- A step that returns entered its node and appended the record. -/
theorem step_entered {rt : Runtime} {answers : Answers} {node : Node} {c c' : Config}
    (hnext : c.next = some node) (h : (step rt answers c).1 = .ok c') :
    ∃ record, (enter rt answers node c).run c.world =
        (.ok (c'.state, c'.next, record), c'.world) ∧ c'.audit = c.audit ++ [record] := by
  simp only [step, hnext] at h
  cases hrun : (enter rt answers node c).run c.world with
  | mk result world =>
    cases result with
    | error e =>
      rw [hrun] at h
      cases h
    | ok triple =>
      obtain ⟨state, next, record⟩ := triple
      rw [hrun] at h
      cases h
      exact ⟨record, rfl, rfl⟩

/-- Inversion of one step of the graph. -/
theorem step_ok {rt : Runtime} {answers : Answers} {node : Node} {c c' : Config}
    (hnext : c.next = some node) (h : (step rt answers c).1 = .ok c') :
    Visit.Led rt ⟨node, answers, c.state, c.world, c'.state, c'.world⟩ c'.next := by
  obtain ⟨record, henter, _⟩ := step_entered hnext h
  obtain ⟨update, hnode, hvalid, hmerge, hroute⟩ := enter_ok_iff.mp henter
  exact ⟨update, record, hnode, hvalid, hmerge, hroute⟩

/-! ### When a visit returns -/

/-- A JSON value that a field `str | None` accepts. -/
def IsText (x : Option Json) : Prop := ∀ j, x = some j → j = .null ∨ ∃ t, j = .str t

theorem isText_none : IsText none := by
  intro j h
  cases h

theorem isText_null : IsText (some .null) := by
  intro j h
  exact Or.inl (Option.some.inj h).symm

theorem isText_str (t : String) : IsText (some (.str t)) := by
  intro j h
  exact Or.inr ⟨t, (Option.some.inj h).symm⟩

theorem asOptionalStr_ok_iff (model field : String) {x : Option Json} :
    (∃ t, asOptionalStr model field x = .ok t) ↔ IsText x := by
  cases x with
  | none => exact ⟨fun _ => isText_none, fun _ => ⟨none, rfl⟩⟩
  | some j =>
    cases j with
    | null => exact ⟨fun _ => isText_null, fun _ => ⟨none, rfl⟩⟩
    | str t => exact ⟨fun _ => isText_str t, fun _ => ⟨some t, rfl⟩⟩
    | _ =>
      constructor
      · rintro ⟨t, ht⟩
        cases ht
      · intro h
        rcases h _ rfl with hnull | ⟨t, ht⟩
        · cases hnull
        · cases ht

/-- The entries that every audit record reads have the types it declares. -/
structure Auditable (s : AgentState) : Prop where
  runId : ∃ t, s.runId = some (.str t)
  status : IsText s.status
  proposedAction : IsText s.proposedAction
  riskTier : IsText s.riskTierFinal
  idempotencyKey : IsText s.idempotencyKey

/-- The audit wrapper lets a visit pass exactly if the entries it reads are texts. -/
theorem auditRecord_ok_iff (clock : String) (node : Node) {state : AgentState} {update : Update} :
    (∃ record, auditRecord clock node state update = .ok record) ↔
      Auditable (state.merge update) ∧ IsText state.status ∧ IsText (writtenApprover update) ∧
        IsText (writtenDecision update) := by
  constructor
  · rintro ⟨record, h⟩
    obtain ⟨hrunId, _, hfrom, hto, _, haction, htier, happrover, hdecision, hkey⟩ :=
      auditRecord_fields h
    exact ⟨⟨⟨_, hrunId⟩, (asOptionalStr_ok_iff _ _).mp ⟨_, hto⟩, (asOptionalStr_ok_iff _ _).mp ⟨_, haction⟩,
      (asOptionalStr_ok_iff _ _).mp ⟨_, htier⟩, (asOptionalStr_ok_iff _ _).mp ⟨_, hkey⟩⟩,
      (asOptionalStr_ok_iff _ _).mp ⟨_, hfrom⟩, (asOptionalStr_ok_iff _ _).mp ⟨_, happrover⟩,
      (asOptionalStr_ok_iff _ _).mp ⟨_, hdecision⟩⟩
  · rintro ⟨⟨⟨text, hrunId⟩, hto, haction, htier, hkey⟩, hfrom, happrover, hdecision⟩
    obtain ⟨fromState, hfrom⟩ := (asOptionalStr_ok_iff "AuditRecord" "from_state").mpr hfrom
    obtain ⟨toState, hto⟩ := (asOptionalStr_ok_iff "AuditRecord" "to_state").mpr hto
    obtain ⟨action, haction⟩ := (asOptionalStr_ok_iff "AuditRecord" "action_proposed").mpr haction
    obtain ⟨tier, htier⟩ := (asOptionalStr_ok_iff "AuditRecord" "risk_tier").mpr htier
    obtain ⟨approver, happrover⟩ := (asOptionalStr_ok_iff "AuditRecord" "approver_id").mpr happrover
    obtain ⟨decision, hdecision⟩ := (asOptionalStr_ok_iff "AuditRecord" "decision").mpr hdecision
    obtain ⟨key, hkey⟩ := (asOptionalStr_ok_iff "AuditRecord" "idempotency_key").mpr hkey
    refine ⟨⟨text, clock, fromState, toState, nodeActor node update, action, tier, approver,
      decision, key, orText (orText (writtenActionRationale update) (writtenRiskRationale update))
        (writtenReplanContext update)⟩, ?_⟩
    rw [auditRecord, hrunId, hfrom, hto, haction, htier, happrover, hdecision, hkey]
    rfl

theorem step_exists {rt : Runtime} {answers : Answers} {node : Node} {c : Config}
    {update : Update} {next : Option Node} {world : ToolContext} (hnext : c.next = some node)
    (hnode : (nodeFn rt answers node c.state).run c.world = (.ok update, world))
    (haudit : ∃ record, auditRecord answers.clock node c.state update = .ok record)
    (hroute : nextNode rt node (c.state.merge update) = .ok next) :
    ∃ c', (step rt answers c).1 = .ok c' ∧ c'.state = c.state.merge update ∧ c'.next = next ∧
      c'.world = world := by
  obtain ⟨record, hrecord⟩ := haudit
  have henter := enter_ok_iff.mpr ⟨update, hnode, hrecord, rfl, hroute⟩
  refine ⟨⟨c.state.merge update, next, world, c.audit ++ [record]⟩, ?_, rfl, rfl, rfl⟩
  simp only [step, hnext, henter]

/-- A node that raises raises out of the step. -/
theorem step_error {rt : Runtime} {answers : Answers} {node : Node} {c : Config} {e : PyError}
    (world : ToolContext) (hnext : c.next = some node)
    (hnode : (nodeFn rt answers node c.state).run c.world = (.error e, world)) :
    (step rt answers c).1 = .error e := by
  have henter : (enter rt answers node c).run c.world = (.error e, world) :=
    Action.run_bind_of_error (Action.run_bind_of_error hnode)
  simp only [step, hnext, henter]

end Graph
