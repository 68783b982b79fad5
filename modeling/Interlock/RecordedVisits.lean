import Interlock.AuditChain

/-!
# Visits and their records

Each visit of a run writes one record, and the records of consecutive visits go on where
the one before has ended. What a record shows of its visit is read off the visit alone.
-/

namespace RecordedVisits

open PythonValues Tools RunState Nodes Graph Transitions Walks
open AuditRecords AuditChain

/-! ### What a record tells -/

/-- The status that a node writes; `await_approval` writes none. -/
def statusWritten : Node → Option State
  | .diagnose => some .diagnosing
  | .proposeAction => some .actionProposed
  | .classifyRisk => some .riskClassified
  | .markAwaitingApproval => some .awaitingApproval
  | .awaitApproval => none
  | .revalidate => some .revalidating
  | .prepareExecution => some .executing
  | .execute => some .executing
  | .verify => some .verifying
  | .rollingBack => some .rollingBack
  | .rolledBack => some .rolledBack
  | .replan => some .replanning
  | .escalate => some .escalated
  | .completed => some .completed

/-- The decision that a run was resumed with, as far as it is a text. -/
def takenDecision (v : Visit) : Option String :=
  match v.answers.decision.getItem "decision" with
  | .ok (.str decision) => some decision
  | _ => none

/-- The decision and the actor in the record of a visit. -/
def told (v : Visit) : Option String × Actor :=
  match v.node with
  | .awaitApproval =>
    (takenDecision v, if takenDecision v = some "timeout" then .system else .human)
  | node => (none, nodeActor node [])

structure Tells (record : AuditRecord) (v : Visit) : Prop extends Shows record v where
  told : (record.decision, record.actor) = RecordedVisits.told v

section Visits

variable {rt : Runtime} {v : Visit} {next : Option Node} {record : AuditRecord}

theorem led_status (h : v.Led rt next) :
    (∃ s, statusWritten v.node = some s ∧ v.after.status = some (.str s.value)) ∨
      v.node = .awaitApproval ∧ v.after.status = v.before.status := by
  cases hnode : v.node with
  | diagnose =>
    obtain ⟨_, _, _, hafter⟩ := led_diagnose h hnode
    exact Or.inl ⟨_, rfl, by rw [hafter]⟩
  | proposeAction =>
    obtain ⟨_, _, _, _, _, _, _, hafter⟩ := led_proposeAction h hnode
    exact Or.inl ⟨_, rfl, by rw [hafter]⟩
  | classifyRisk =>
    obtain ⟨_, _, _, _, _, _, _, _, _, _, _, hafter⟩ := led_classifyRisk h hnode
    exact Or.inl ⟨_, rfl, by rw [hafter]⟩
  | markAwaitingApproval =>
    obtain ⟨_, hafter⟩ := led_markAwaitingApproval h hnode
    exact Or.inl ⟨_, rfl, by rw [hafter]⟩
  | awaitApproval =>
    obtain ⟨_, _, _, _, _, _, ⟨_, hafter⟩ | ⟨_, _, _, _, _, _, hafter⟩⟩ := led_awaitApproval h hnode
    · exact Or.inr ⟨rfl, by rw [hafter]⟩
    · exact Or.inr ⟨rfl, by rw [hafter]⟩
  | revalidate =>
    obtain ⟨_, _, _, _, _, _, _, _, _, hafter⟩ := led_revalidate h hnode
    exact Or.inl ⟨_, rfl, by rw [hafter]⟩
  | prepareExecution =>
    obtain ⟨_, _, _, _, _, hafter⟩ := led_prepareExecution h hnode
    exact Or.inl ⟨_, rfl, by rw [hafter]⟩
  | execute =>
    obtain ⟨_, _, _, _, _, _, hafter⟩ := led_execute h hnode
    exact Or.inl ⟨_, rfl, by rw [hafter]⟩
  | verify =>
    obtain ⟨_, _, _, _, _, _, _, hafter⟩ := led_verify h hnode
    exact Or.inl ⟨_, rfl, by rw [hafter]⟩
  | rollingBack =>
    obtain ⟨_, _, _, _, hafter⟩ := led_rollingBack h hnode
    exact Or.inl ⟨_, rfl, by rw [hafter]⟩
  | rolledBack =>
    obtain ⟨_, hafter⟩ := led_rolledBack h hnode
    exact Or.inl ⟨_, rfl, by rw [hafter]⟩
  | replan =>
    obtain ⟨_, _, _, hafter⟩ := led_replan h hnode
    exact Or.inl ⟨_, rfl, by rw [hafter]⟩
  | escalate =>
    obtain ⟨_, hafter⟩ := led_escalate h hnode
    exact Or.inl ⟨_, rfl, by rw [hafter]⟩
  | completed =>
    obtain ⟨_, hafter⟩ := led_completed h hnode
    exact Or.inl ⟨_, rfl, by rw [hafter]⟩

/-- Only `await_approval` writes a decision, the one it was resumed with. -/
theorem writtenDecision_cases {answers : Answers} {node : Node} {state : AgentState}
    {update : Update} {w w' : ToolContext}
    (h : (nodeFn rt answers node state).run w = (.ok update, w')) :
    node ≠ .awaitApproval ∧ writtenDecision update = none ∨
      node = .awaitApproval ∧ ∃ decided, answers.decision.getItem "decision" = .ok decided ∧
        writtenDecision update = some decided := by
  cases node with
  | diagnose =>
    obtain ⟨_, _, _, rfl⟩ := diagnose_ok h
    exact Or.inl ⟨by decide, rfl⟩
  | proposeAction =>
    simp only [nodeFn, Action.run_lift, Prod.mk.injEq] at h
    obtain ⟨_, _, _, _, _, _, rfl⟩ := proposeAction_ok h.1
    exact Or.inl ⟨by decide, rfl⟩
  | classifyRisk =>
    simp only [nodeFn, Action.run_lift, Prod.mk.injEq] at h
    obtain ⟨_, _, _, _, _, _, _, _, _, _, rfl⟩ := classifyRisk_ok h.1
    exact Or.inl ⟨by decide, rfl⟩
  | markAwaitingApproval =>
    cases h
    exact Or.inl ⟨by decide, rfl⟩
  | awaitApproval =>
    simp only [nodeFn, Action.run_lift, Prod.mk.injEq] at h
    obtain ⟨decided, _, _, hdecided, _, ⟨_, rfl⟩ | ⟨_, _, _, _, _, _, rfl⟩⟩ := awaitApproval_ok h.1
    · exact Or.inr ⟨rfl, decided, hdecided, rfl⟩
    · exact Or.inr ⟨rfl, decided, hdecided, rfl⟩
  | revalidate =>
    obtain ⟨_, _, _, _, _, _, _, _, _, rfl⟩ := revalidate_ok h
    exact Or.inl ⟨by decide, rfl⟩
  | prepareExecution =>
    simp only [nodeFn, Action.run_lift, Prod.mk.injEq] at h
    obtain ⟨_, _, _, _, rfl⟩ := prepareExecution_ok h.1
    exact Or.inl ⟨by decide, rfl⟩
  | execute =>
    obtain ⟨_, _, _, _, _, _, rfl⟩ := execute_ok h
    exact Or.inl ⟨by decide, rfl⟩
  | verify =>
    obtain ⟨_, _, _, _, _, _, _, rfl⟩ := verify_ok h
    exact Or.inl ⟨by decide, rfl⟩
  | rollingBack =>
    obtain ⟨_, _, _, _, rfl⟩ := rollingBack_ok h
    exact Or.inl ⟨by decide, rfl⟩
  | rolledBack =>
    cases h
    exact Or.inl ⟨by decide, rfl⟩
  | replan =>
    simp only [nodeFn, Action.run_lift, Prod.mk.injEq] at h
    obtain ⟨_, _, rfl⟩ := replan_ok h.1
    exact Or.inl ⟨by decide, rfl⟩
  | escalate =>
    cases h
    exact Or.inl ⟨by decide, rfl⟩
  | completed =>
    cases h
    exact Or.inl ⟨by decide, rfl⟩

/-- A visit's record shows the decision that the visit was resumed with, and who made it. -/
theorem told_of_auditRecord {update : Update}
    (hnode : (nodeFn rt v.answers v.node v.before).run v.worldBefore = (.ok update, v.worldAfter))
    (h : auditRecord v.answers.clock v.node v.before update = .ok record) :
    (record.decision, record.actor) = told v := by
  obtain ⟨_, _, _, _, hactor, _, _, _, hdecision, _⟩ := auditRecord_fields h
  rcases writtenDecision_cases hnode with ⟨hother, hnone⟩ | ⟨hawait, decided, hdecided, hsome⟩
  · rw [hnone] at hdecision
    rw [hactor, ← Except.ok.inj hdecision, told]
    cases hv : v.node with
    | awaitApproval => exact absurd hv hother
    | _ => rfl
  · have htaken : record.decision = takenDecision v := by
      rw [hsome] at hdecision
      rw [takenDecision, hdecided]
      cases decided with
      | str t => exact (Except.ok.inj hdecision).symm
      | null => exact (Except.ok.inj hdecision).symm
      | _ => cases hdecision
    have hwho : nodeActor v.node update =
        if takenDecision v = some "timeout" then .system else .human := by
      rw [hawait, nodeActor, hsome, takenDecision, hdecided]
      cases decided with
      | str t => simp [Json.isStr]
      | _ => rfl
    rw [hactor, htaken, hwho, told, hawait]

end Visits

/-- A visit appends its record. -/
theorem step_record {rt : Runtime} {answers : Answers} {node : Node} {c c' : Config}
    (hnext : c.next = some node) (h : (step rt answers c).1 = .ok c') :
    ∃ record, c'.audit = c.audit ++ [record] ∧
      Tells record ⟨node, answers, c.state, c.world, c'.state, c'.world⟩ := by
  obtain ⟨record, henter, haudit⟩ := step_entered hnext h
  obtain ⟨update, hnode, hvalid, hmerge, _⟩ := enter_ok_iff.mp henter
  have hshows : Shows record ⟨node, answers, c.state, c.world, c'.state, c'.world⟩ :=
    shows_of_auditRecord hmerge hvalid
  have htold : (record.decision, record.actor) =
      told ⟨node, answers, c.state, c.world, c'.state, c'.world⟩ := told_of_auditRecord hnode hvalid
  exact ⟨record, haudit, hshows, htold⟩

/-! ### The log of consecutive visits -/

/-- The log of the visits so far, of which the latest stand first. -/
structure Recorded (vs : List Visit) (log : List AuditRecord) (s : AgentState)
    (next : Option Node) : Prop where
  status : next ≠ some .diagnose → Shown s.status
  told : List.Forall₂ Tells log vs.reverse
  states : toStates log = vs.reverse.map fun v => v.after.status
  shown : ∀ status ∈ toStates log, Shown status
  chain : log.IsChain Follows
  last : ∀ record, log.getLast? = some record → record.toState.map Json.str = s.status

theorem recorded_nil {s : AgentState} : Recorded [] [] s (some .diagnose) := by
  refine ⟨fun h => absurd rfl h, .nil, rfl, ?_, List.isChain_nil, ?_⟩
  · exact fun _ h => nomatch h
  · exact fun _ h => nomatch h

section Log

variable {rt : Runtime} {v : Visit} {vs : List Visit} {next : Option Node} {record : AuditRecord}
variable {log : List AuditRecord}

theorem shown_after (h : v.Led rt next) (hstatus : v.node ≠ .diagnose → Shown v.before.status) :
    Shown v.after.status := by
  rcases led_status h with ⟨s, _, hs⟩ | ⟨hawait, hkept⟩
  · rw [hs]
    exact shown_value s
  · rw [hkept]
    apply hstatus
    rw [hawait]
    decide

/-- A visit adds its record to the log. -/
theorem recorded_visit (h : Recorded vs log v.before (some v.node)) (hled : v.Led rt next)
    (hrecord : Tells record v) : Recorded (v :: vs) (log ++ [record]) v.after next := by
  have hshown : Shown v.after.status :=
    shown_after hled fun hne => h.status fun heq => hne (Option.some.inj heq)
  have hstates : toStates (log ++ [record]) = toStates log ++ [v.after.status] :=
    toStates_append hshown hrecord.toShows
  refine ⟨fun _ => hshown, ?_, ?_, ?_, ?_, ?_⟩
  · rw [List.reverse_cons]
    exact List.rel_append h.told (.cons hrecord .nil)
  · rw [hstates, h.states, List.reverse_cons, List.map_append]
    rfl
  · intro status hstatus
    rw [hstates, List.mem_append, List.mem_singleton] at hstatus
    rcases hstatus with hstatus | rfl
    · exact h.shown status hstatus
    · exact hshown
  · exact chain_append h.shown h.chain h.last hrecord.toShows
  · intro r hr
    rw [List.getLast?_concat] at hr
    cases hr
    exact toState_eq hshown hrecord.toState

end Log

/-- The log of a run that is not killed. -/
theorem run_recorded {rt : Runtime} {others : ToolContext → ToolContext → Prop} {runId : String}
    {initialState : AgentState} {world : ToolContext} {past : List Event} {c : Config}
    (run : Run rt others runId initialState world past c) :
    Recorded (visits past) c.audit c.state c.next := by
  induction run with
  | start => exact recorded_nil
  | snoc _ hs ih =>
    cases hs with
    | others _ => exact ih
    | visit hnext hstep =>
      obtain ⟨record, haudit, htells⟩ := step_record hnext hstep
      rw [hnext] at ih
      rw [haudit]
      exact recorded_visit ih (step_ok hnext hstep) htells

end RecordedVisits
