import Interlock.Isolation

/-!
# Runs that are killed

A visit takes several steps: the effects of its node, of which an execution has two, then
the audit record, then the checkpoint. The process may be killed between any two of them.
A kill loses what the process held in memory; the checkpoint, the sandbox with its ledger
and the audit log stay, and the run goes on from what they hold.
-/

namespace DurableRuns

open Dictionary PythonValues Tools DiagnosticSweep Execution RunState Nodes Graph Transitions
open Isolation (applyCompensation_store)
open Service (overlay)

/-! ### Phases of a visit -/

/-- How far the visit to the next node has come. -/
inductive Phase where
  | idle
  | performed (answers : Answers) (call : ToolCall) (key : String) (outcome : Outcome)
  | acted (answers : Answers) (update : Update)
  | recorded (update : Update)

/-- What is stored of a run, and what the process working on it holds. -/
structure Durable extends Config where
  phase : Phase := .idle

/-- The update at hand. -/
def updateAtHand : Phase → Option Update
  | .acted _ update => some update
  | .recorded update => some update
  | _ => none

/-- A node has acted once it has the update it returns. -/
inductive Label where
  | performed (action : String) (outcome : Outcome)
  | acted (node : Node) (before : AgentState) (update : Update)
  | recorded (record : AuditRecord)
  | checkpointed (after : AgentState)
  | killed (lost : Phase)
  | others

def isKill : Label → Bool
  | .killed _ => true
  | _ => false

/-- The update that `execute` returns. -/
def executed (outcome : Outcome) : Update :=
  [.status .executing, .executionResult outcome.result, .compensation outcome.compensation]

/-- The ledger has the outcome of the execution at hand. -/
def Entered (d : Durable) : Prop :=
  ∃ key entry, d.state.idempotencyKey = some (.str key) ∧ d.world.store.get? key = some entry

inductive Step (rt : Runtime) (others : ToolContext → ToolContext → Prop)
    (recover : Config → Config) : Durable → Label → Durable → Prop where
  | performed {d : Durable} {answers : Answers} {action key : String} {call : ToolCall}
      {outcome : Outcome} {world : ToolContext} (hnext : d.next = some .execute)
      (hidle : d.phase = .idle) (haction : d.state.proposedAction = some (.str action))
      (hkey : d.state.idempotencyKey = some (.str key))
      (hcall : dispatch action (parametersOf d.state) = .ok call)
      (hfree : d.world.store.get? key = none)
      (hperform : call.perform.run d.world = (.ok outcome, world)) :
      Step rt others recover d (.performed action outcome)
        { d with world := world, phase := .performed answers call key outcome }
  | entered {d : Durable} {answers : Answers} {key : String} {call : ToolCall} {outcome : Outcome}
      (hphase : d.phase = .performed answers call key outcome) :
      Step rt others recover d (.acted .execute d.state (executed outcome))
        { d with
          world := { d.world with
            store := d.world.store.setdefault key (call.entry outcome) }
          phase := .acted answers (executed outcome) }
  | acted {d : Durable} {node : Node} {answers : Answers} {update : Update} {world : ToolContext}
      (hnext : d.next = some node) (hidle : d.phase = .idle)
      (hentered : node = .execute → Entered d)
      (hnode : (nodeFn rt answers node d.state).run d.world = (.ok update, world)) :
      Step rt others recover d (.acted node d.state update)
        { d with world := world, phase := .acted answers update }
  | recorded {d : Durable} {node : Node} {answers : Answers} {update : Update}
      {record : AuditRecord} (hnext : d.next = some node) (hphase : d.phase = .acted answers update)
      (hrecord : auditRecord answers.clock node d.state update = .ok record) :
      Step rt others recover d (.recorded record)
        { d with audit := d.audit ++ [record], phase := .recorded update }
  | checkpointed {d : Durable} {node : Node} {update : Update} {next : Option Node}
      (hnext : d.next = some node) (hphase : d.phase = .recorded update)
      (hroute : nextNode rt node (d.state.merge update) = .ok next) :
      Step rt others recover d (.checkpointed (d.state.merge update))
        { d with state := d.state.merge update, next := next, phase := .idle }
  | killed {d : Durable} :
      Step rt others recover d (.killed d.phase) { toConfig := recover d.toConfig }
  | others {d : Durable} {world : ToolContext} (h : others d.world world) :
      Step rt others recover d .others { d with world := world }

def durable (rt : Runtime) (others : ToolContext → ToolContext → Prop)
    (recover : Config → Config) : System Durable Label :=
  ⟨Step rt others recover⟩

def begun (runId : String) (initialState : AgentState) (world : ToolContext) : Durable :=
  { toConfig := startWorkflow runId initialState world }

/-! ### Recovery -/

/-- The graph is driven on from its checkpoint: the node that has none is rerun. -/
def rerun (c : Config) : Config := c

/-- `start_workflow` again on the same thread: new input enters at the start, and the
values of the channels stay. -/
def startAgain (runId : String) (initialState : AgentState) (c : Config) : Config :=
  { c with
    state := overlay c.state (startWorkflow runId initialState c.world).state
    next := some .diagnose }

/-! ### What a node does before its checkpoint -/

/-- Every node but `await_approval` writes the status, and the entries of an execution
belong to few nodes. -/
structure Acts (node : Node) (state : AgentState) (update : Update) (w w' : ToolContext) :
    Prop where
  status : (∃ s : State, (state.merge update).status = some (.str s.value)) ∨
    node = .awaitApproval ∧ (state.merge update).status = state.status
  runId : (state.merge update).runId = state.runId
  proposedAction : node ≠ .proposeAction → node ≠ .awaitApproval →
    (state.merge update).proposedAction = state.proposedAction
  compensation : node ≠ .execute → (state.merge update).compensation = state.compensation
  store : node ≠ .execute → w'.store = w.store

theorem acts {rt : Runtime} {answers : Answers} {node : Node} {state : AgentState}
    {update : Update} {w w' : ToolContext}
    (h : (nodeFn rt answers node state).run w = (.ok update, w')) :
    Acts node state update w w' := by
  cases node with
  | diagnose =>
    obtain ⟨rfl, _, _, rfl⟩ := diagnose_ok h
    exact ⟨Or.inl ⟨_, rfl⟩, rfl, fun _ _ => rfl, fun _ => rfl, fun _ => rfl⟩
  | proposeAction =>
    simp only [nodeFn, Action.run_lift, Prod.mk.injEq] at h
    obtain ⟨h, rfl⟩ := h
    obtain ⟨_, _, _, _, _, _, rfl⟩ := proposeAction_ok h
    exact ⟨Or.inl ⟨_, rfl⟩, rfl, fun hne => absurd rfl hne, fun _ => rfl, fun _ => rfl⟩
  | classifyRisk =>
    simp only [nodeFn, Action.run_lift, Prod.mk.injEq] at h
    obtain ⟨h, rfl⟩ := h
    obtain ⟨_, _, _, _, _, _, _, _, _, _, rfl⟩ := classifyRisk_ok h
    exact ⟨Or.inl ⟨_, rfl⟩, rfl, fun _ _ => rfl, fun _ => rfl, fun _ => rfl⟩
  | markAwaitingApproval =>
    cases h
    exact ⟨Or.inl ⟨_, rfl⟩, rfl, fun _ _ => rfl, fun _ => rfl, fun _ => rfl⟩
  | awaitApproval =>
    simp only [nodeFn, Action.run_lift, Prod.mk.injEq] at h
    obtain ⟨h, rfl⟩ := h
    obtain ⟨_, _, _, _, _, ⟨_, rfl⟩ | ⟨_, _, _, _, _, _, rfl⟩⟩ := awaitApproval_ok h
    · exact ⟨Or.inr ⟨rfl, rfl⟩, rfl, fun _ _ => rfl, fun _ => rfl, fun _ => rfl⟩
    · exact ⟨Or.inr ⟨rfl, rfl⟩, rfl, fun _ hne => absurd rfl hne, fun _ => rfl, fun _ => rfl⟩
  | revalidate =>
    obtain ⟨rfl, _, _, _, _, _, _, _, _, rfl⟩ := revalidate_ok h
    exact ⟨Or.inl ⟨_, rfl⟩, rfl, fun _ _ => rfl, fun _ => rfl, fun _ => rfl⟩
  | prepareExecution =>
    simp only [nodeFn, Action.run_lift, Prod.mk.injEq] at h
    obtain ⟨h, rfl⟩ := h
    obtain ⟨_, _, _, _, rfl⟩ := prepareExecution_ok h
    exact ⟨Or.inl ⟨_, rfl⟩, rfl, fun _ _ => rfl, fun _ => rfl, fun _ => rfl⟩
  | execute =>
    obtain ⟨_, _, _, _, _, _, rfl⟩ := execute_ok h
    exact ⟨Or.inl ⟨_, rfl⟩, rfl, fun _ _ => rfl, fun hne => absurd rfl hne, fun hne => absurd rfl hne⟩
  | verify =>
    obtain ⟨rfl, _, _, _, _, _, _, rfl⟩ := verify_ok h
    exact ⟨Or.inl ⟨_, rfl⟩, rfl, fun _ _ => rfl, fun _ => rfl, fun _ => rfl⟩
  | rollingBack =>
    obtain ⟨_, _, _, hrun, rfl⟩ := rollingBack_ok h
    exact ⟨Or.inl ⟨_, rfl⟩, rfl, fun _ _ => rfl, fun _ => rfl, fun _ => applyCompensation_store hrun⟩
  | rolledBack =>
    cases h
    exact ⟨Or.inl ⟨_, rfl⟩, rfl, fun _ _ => rfl, fun _ => rfl, fun _ => rfl⟩
  | replan =>
    simp only [nodeFn, Action.run_lift, Prod.mk.injEq] at h
    obtain ⟨h, rfl⟩ := h
    obtain ⟨_, _, rfl⟩ := replan_ok h
    exact ⟨Or.inl ⟨_, rfl⟩, rfl, fun _ _ => rfl, fun _ => rfl, fun _ => rfl⟩
  | escalate =>
    cases h
    exact ⟨Or.inl ⟨_, rfl⟩, rfl, fun _ _ => rfl, fun _ => rfl, fun _ => rfl⟩
  | completed =>
    cases h
    exact ⟨Or.inl ⟨_, rfl⟩, rfl, fun _ _ => rfl, fun _ => rfl, fun _ => rfl⟩

/-! ### Scripts -/

inductive Move where
  | perform (answers : Answers)
  | act (answers : Answers)
  | record
  | checkpoint
  | kill

def entered (d : Durable) : Bool :=
  match d.state.idempotencyKey with
  | some (.str key) => (d.world.store.get? key).isSome
  | _ => false

theorem entered_spec {d : Durable} (h : entered d = true) : Entered d := by
  rw [entered] at h
  split at h
  · rename_i key hkey
    obtain ⟨entry, hentry⟩ := Option.isSome_iff_exists.mp h
    exact ⟨key, entry, hkey, hentry⟩
  · cases h

/-- The step that a move of a script stands for, if it can be taken. -/
def moved (rt : Runtime) (recover : Config → Config) (d : Durable) : Move → Option (Label × Durable)
  | .perform answers =>
    match d.next, d.phase, d.state.proposedAction, d.state.idempotencyKey with
    | some .execute, .idle, some (.str action), some (.str key) =>
      match dispatch action (parametersOf d.state), d.world.store.get? key with
      | .ok call, none =>
        match call.perform.run d.world with
        | (.ok outcome, world) => some (.performed action outcome,
            { d with world := world, phase := .performed answers call key outcome })
        | _ => none
      | _, _ => none
    | _, _, _, _ => none
  | .act answers =>
    match d.next, d.phase with
    | some .execute, .performed answers call key outcome =>
      some (.acted .execute d.state (executed outcome),
        { d with
          world := { d.world with store := d.world.store.setdefault key (call.entry outcome) }
          phase := .acted answers (executed outcome) })
    | some node, .idle =>
      match (nodeFn rt answers node d.state).run d.world with
      | (.ok update, world) =>
        if node = .execute ∧ entered d = false then none
        else some (.acted node d.state update,
          { d with world := world, phase := .acted answers update })
      | _ => none
    | _, _ => none
  | .record =>
    match d.next, d.phase with
    | some node, .acted answers update =>
      match auditRecord answers.clock node d.state update with
      | .ok record => some (.recorded record,
          { d with audit := d.audit ++ [record], phase := .recorded update })
      | .error _ => none
    | _, _ => none
  | .checkpoint =>
    match d.next, d.phase with
    | some node, .recorded update =>
      match nextNode rt node (d.state.merge update) with
      | .ok next => some (.checkpointed (d.state.merge update),
          { d with state := d.state.merge update, next := next, phase := .idle })
      | .error _ => none
    | _, _ => none
  | .kill => some (.killed d.phase, { toConfig := recover d.toConfig })

theorem step_of_moved {rt : Runtime} {others : ToolContext → ToolContext → Prop}
    {recover : Config → Config} {d d' : Durable} {m : Move} {l : Label}
    (h : moved rt recover d m = some (l, d')) : Step rt others recover d l d' := by
  cases m with
  | perform answers =>
    simp only [moved] at h
    split at h
    · rename_i action key hnext hidle haction hkey
      split at h
      · rename_i call hcall hfree
        split at h
        · rename_i outcome world hperform
          cases h
          exact .performed hnext hidle haction hkey hcall hfree hperform
        · cases h
      · cases h
    · cases h
  | act answers =>
    simp only [moved] at h
    split at h
    · rename_i hphase
      cases h
      exact .entered hphase
    · rename_i node hnext hidle
      split at h
      · rename_i update world hnode
        split at h
        · cases h
        · rename_i hentered
          cases h
          refine .acted hnext hidle (fun hexecute => entered_spec ?_) hnode
          simpa [hexecute] using hentered
      · cases h
    · cases h
  | record =>
    simp only [moved] at h
    split at h
    · rename_i hnext hphase
      split at h
      · rename_i hrecord
        cases h
        exact .recorded hnext hphase hrecord
      · cases h
    · cases h
  | checkpoint =>
    simp only [moved] at h
    split at h
    · rename_i hnext hphase
      split at h
      · rename_i hroute
        cases h
        exact .checkpointed hnext hphase hroute
      · cases h
    · cases h
  | kill =>
    cases h
    exact .killed

def play (rt : Runtime) (recover : Config → Config) :
    List Move → List Label → Durable → Option (List Label × Durable) :=
  enact (moved rt recover)

theorem play_trace {rt : Runtime} {others : ToolContext → ToolContext → Prop}
    {recover : Config → Config} {a d d' : Durable} {moves : List Move} {past labels : List Label}
    (run : Trace (durable rt others recover) a past d)
    (h : play rt recover moves past d = some (labels, d')) :
    Trace (durable rt others recover) a labels d' :=
  enact_trace (fun _ _ _ _ _ => step_of_moved) run h

/-- One service leaks memory. -/
def leaking : ToolContext := injectFault "service_c" .memoryLeak .high (freshSandbox [])

/-- One visit that nothing interrupts. -/
def whole (answers : Answers) : List Move := [.act answers, .record, .checkpoint]

/-- A visit to `execute` that performs its action. -/
def wholeExecution (answers : Answers) : List Move :=
  [.perform answers, .act answers, .record, .checkpoint]

end DurableRuns
