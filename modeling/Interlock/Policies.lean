import Interlock.Walks

/-!
# Reasoners and classifiers as functions

The reasoner and the classifier as functions of what they are asked, and one attempt to
visit the next node with their answers: a visit, or a raise that leaves the checkpoint as
it was.
-/

namespace Policies

open PythonValues Tools DiagnosticSweep RiskPolicy RunState Nodes Graph

/-- `state.get("replan_context")`. -/
def replanContextOf (s : AgentState) : Json := s.replanContext.getD .null

structure Policy where
  diagnose : Observations → String
  propose : Observations → String → Json → Proposal
  classify : String → String → Option String → Option Situation → Classification

namespace Policy

variable (π : Policy)

def diagnosis (w : ToolContext) : String :=
  match gatherObservations w with
  | .ok observations => π.diagnose observations
  | .error _ => ""

def proposal (s : AgentState) : Proposal :=
  match s.observations, s.diagnosis with
  | some observations, some diagnosis =>
    π.propose observations diagnosis (replanContextOf s)
  | _, _ => { tool := "", target := "" }

def classification (s : AgentState) : Classification :=
  match s.proposedAction, s.observations, s.diagnosis with
  | some (.str action), some observations, some diagnosis =>
    match situationalFeatures observations action with
    | .ok situational => π.classify action diagnosis s.actionRationale situational
    | .error _ => { tier := "" }
  | _, _, _ => { tier := "" }

/-- What the outside answers at a node, if the reviewer's next decision is `decision`. -/
def answers (node : Node) (decision : Json) (clock : String) (s : AgentState) (w : ToolContext) :
    Answers :=
  match node with
  | .diagnose => { summary := π.diagnosis w, clock := clock }
  | .proposeAction => { proposal := π.proposal s, clock := clock }
  | .classifyRisk => { classification := π.classification s, clock := clock }
  | .awaitApproval => { decision := decision, clock := clock }
  | _ => { clock := clock }

end Policy

/-! ### Attempts -/

/-- An attempt to visit the next node; after a raise the node is up again. -/
def attempt (rt : Runtime) (answers : Answers) (c : Config) : Option Visit × Config :=
  match c.next, step rt answers c with
  | some node, (.ok c', _) => (some ⟨node, answers, c.state, c.world, c'.state, c'.world⟩, c')
  | some _, (.error _, world) => (none, { c with world := world })
  | none, _ => (none, c)

section Attempts

variable {rt : Runtime} {answers : Answers} {node : Node} {c : Config} {world : ToolContext}

theorem attempt_none (hnext : c.next = none) : attempt rt answers c = (none, c) := by
  rw [attempt, hnext]

theorem attempt_of_enter {e : PyError} (hnext : c.next = some node)
    (h : (enter rt answers node c).run c.world = (.error e, world)) :
    attempt rt answers c = (none, { c with world := world }) := by
  simp only [attempt, step, hnext, h]

theorem attempt_raised {e : PyError} (hnext : c.next = some node)
    (hnode : (nodeFn rt answers node c.state).run c.world = (.error e, world)) :
    attempt rt answers c = (none, { c with world := world }) :=
  attempt_of_enter hnext (Action.run_bind_of_error (Action.run_bind_of_error hnode))

theorem attempt_unrecorded {update : Update} (hnext : c.next = some node)
    (hnode : (nodeFn rt answers node c.state).run c.world = (.ok update, world))
    (hrecord : ¬ ∃ record, auditRecord answers.clock node c.state update = .ok record) :
    attempt rt answers c = (none, { c with world := world }) := by
  cases haudit : auditRecord answers.clock node c.state update with
  | ok record => exact absurd ⟨record, haudit⟩ hrecord
  | error e =>
    have hwrapped : (withAudit rt answers node c.state).run c.world = (.error e, world) := by
      rw [withAudit, Action.run_bind_of_ok hnode]
      apply Action.run_bind_of_error
      rw [Action.run_lift, haudit]
    exact attempt_of_enter hnext (Action.run_bind_of_error hwrapped)

theorem attempt_visited {update : Update} {next : Option Node} (hnext : c.next = some node)
    (hnode : (nodeFn rt answers node c.state).run c.world = (.ok update, world))
    (hrecord : ∃ record, auditRecord answers.clock node c.state update = .ok record)
    (hroute : nextNode rt node (c.state.merge update) = .ok next) :
    ∃ audit, attempt rt answers c =
      (some ⟨node, answers, c.state, c.world, c.state.merge update, world⟩,
        { state := c.state.merge update, next := next, world := world, audit := audit }) := by
  obtain ⟨record, hrecord⟩ := hrecord
  have henter := enter_ok_iff.mpr ⟨update, hnode, hrecord, rfl, hroute⟩
  exact ⟨c.audit ++ [record], by simp only [attempt, step, hnext, henter]⟩

theorem attempt_unrouted {update : Update} {e : PyError} (hnext : c.next = some node)
    (hnode : (nodeFn rt answers node c.state).run c.world = (.ok update, world))
    (hroute : nextNode rt node (c.state.merge update) = .error e) :
    attempt rt answers c = (none, { c with world := world }) := by
  cases haudit : auditRecord answers.clock node c.state update with
  | error e' =>
    apply attempt_unrecorded hnext hnode
    rintro ⟨record, hrecord⟩
    rw [haudit] at hrecord
    cases hrecord
  | ok record =>
    have hwrapped : (withAudit rt answers node c.state).run c.world = (.ok (update, record), world) := by
      rw [withAudit, Action.run_bind_of_ok hnode]
      have hlift : (Action.lift (auditRecord answers.clock node c.state update)).run world =
          (.ok record, world) := by rw [Action.run_lift, haudit]
      rw [Action.run_bind_of_ok hlift]
      rfl
    refine attempt_of_enter (e := e) hnext ?_
    rw [enter, Action.run_bind_of_ok hwrapped]
    apply Action.run_bind_of_error
    rw [Action.run_lift, hroute]

/-- An attempt raises, or it is a visit that leads on. -/
theorem attempt_cases (hnext : c.next = some node) :
    (∃ world, attempt rt answers c = (none, { c with world := world })) ∨
      ∃ c', attempt rt answers c =
          (some ⟨node, answers, c.state, c.world, c'.state, c'.world⟩, c') ∧
        Visit.Led rt ⟨node, answers, c.state, c.world, c'.state, c'.world⟩ c'.next := by
  cases hstep : step rt answers c with
  | mk result world =>
    cases result with
    | error e =>
      refine Or.inl ⟨world, ?_⟩
      rw [attempt, hnext, hstep]
    | ok c' =>
      refine Or.inr ⟨c', ?_, step_ok hnext (congrArg Prod.fst hstep)⟩
      rw [attempt, hnext, hstep]

end Attempts

/-! ### Two runs at one node -/

/-- Two attempts at a node that both raise, or both lead on to the same node. -/
inductive Paired (rt : Runtime) (node : Node) (a b : Answers) (c d : Config) (v w : ToolContext) :
    Prop where
  | raised (hc : attempt rt a c = (none, { c with world := v }))
      (hd : attempt rt b d = (none, { d with world := w }))
  | visited {update other : Update} {next : Option Node} {log log' : List AuditRecord}
      (hupdate : (nodeFn rt a node c.state).run c.world = (.ok update, v))
      (hother : (nodeFn rt b node d.state).run d.world = (.ok other, w))
      (hrecord : ∃ record, auditRecord a.clock node c.state update = .ok record)
      (hroute : nextNode rt node (c.state.merge update) = .ok next)
      (hroute' : nextNode rt node (d.state.merge other) = .ok next)
      (hc : attempt rt a c = (some ⟨node, a, c.state, c.world, c.state.merge update, v⟩,
        { state := c.state.merge update, next := next, world := v, audit := log }))
      (hd : attempt rt b d = (some ⟨node, b, d.state, d.world, d.state.merge other, w⟩,
        { state := d.state.merge other, next := next, world := w, audit := log' }))

/-- The nodes themselves both raise, or return updates that are recorded alike and routed
alike. -/
inductive Matched (rt : Runtime) (node : Node) (a b : Answers) (c d : Config) (v w : ToolContext) :
    Prop where
  | raised {e e' : PyError} (hc : (nodeFn rt a node c.state).run c.world = (.error e, v))
      (hd : (nodeFn rt b node d.state).run d.world = (.error e', w))
  | returned {update other : Update}
      (hupdate : (nodeFn rt a node c.state).run c.world = (.ok update, v))
      (hother : (nodeFn rt b node d.state).run d.world = (.ok other, w))
      (hrecords : (∃ record, auditRecord a.clock node c.state update = .ok record) ↔
        ∃ record, auditRecord b.clock node d.state other = .ok record)
      (hroutes : nextNode rt node (c.state.merge update) = nextNode rt node (d.state.merge other))

theorem paired_of_matched {rt : Runtime} {node : Node} {a b : Answers} {c d : Config}
    {v w : ToolContext} (hc : c.next = some node) (hd : d.next = some node)
    (h : Matched rt node a b c d v w) : Paired rt node a b c d v w := by
  cases h with
  | raised hc' hd' => exact .raised (attempt_raised hc hc') (attempt_raised hd hd')
  | @returned update other hupdate hother hrecords hroutes =>
    by_cases hrecord : ∃ record, auditRecord a.clock node c.state update = .ok record
    · have hrecord' := hrecords.mp hrecord
      cases hroute : nextNode rt node (c.state.merge update) with
      | error e =>
        have hroute' := hroutes.symm.trans hroute
        exact .raised (attempt_unrouted hc hupdate hroute) (attempt_unrouted hd hother hroute')
      | ok next =>
        have hroute' := hroutes.symm.trans hroute
        obtain ⟨log, hvisit⟩ := attempt_visited hc hupdate hrecord hroute
        obtain ⟨log', hvisit'⟩ := attempt_visited hd hother hrecord' hroute'
        exact .visited hupdate hother hrecord hroute hroute' hvisit hvisit'
    · have hrecord' := mt hrecords.mpr hrecord
      exact .raised (attempt_unrecorded hc hupdate hrecord) (attempt_unrecorded hd hother hrecord')

end Policies
