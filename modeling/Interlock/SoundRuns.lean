import Interlock.EditedActions

/-!
# What a run knows at each of its nodes

Between its nodes a run whose reviewers edit nothing always has the entries that the next
node subscripts, and its action stays a valid proposal. This needs a sandbox that
answers, and a ledger whose compensations have somebody to post to.
-/

namespace SoundRuns

open Dictionary PythonValues MockService RecordsTable Tools DiagnosticSweep Fingerprint Execution
open Effects RunState Nodes Graph Transitions Walks PlanningCycle Suspension Dispatching EditedActions

/-! ### Sandboxes that answer -/

/-- The service that a compensation posts to is in the registry. -/
def Addressed : Compensation → Prop
  | .scaleService service _ => service ∈ knownServices
  | .applyConfigChange service _ _ => service ∈ knownServices
  | .deploy service _ => service ∈ knownServices
  | _ => True

structure Answering (w : ToolContext) : Prop where
  registered : Registered w
  ledger : ∀ key entry, w.store.get? key = some entry → Addressed entry.compensation

/-- Others may turn the sandbox into any other one that answers. -/
def answering (_ w : ToolContext) : Prop := Answering w

theorem answering_freshSandbox : Answering (freshSandbox []) := by
  refine ⟨registered_freshSandbox, ?_⟩
  intro key entry h
  cases h

section Operations

variable {w w' : ToolContext} {service action key : String} {s s' : ServiceState}
variable {parameters : Json} {call : ToolCall} {o : Outcome}

theorem versions_nonempty (h : Registered w) (hknown : service ∈ knownServices)
    (hs : w.clients.get? service = some s) : s.versionHistory ≠ [] := by
  obtain ⟨t, ht, _, hversions⟩ := h service hknown
  rw [hs] at ht
  cases ht
  exact hversions

/-- The side effect of a call leaves the registry as it was, and registers a compensation
for the service it was for. -/
theorem registered_perform (h : Registered w)
    (hknown : call.toolName ≠ "delete_records" → callTarget call ∈ knownServices)
    (hp : call.perform.run w = (.ok o, w')) :
    Registered w' ∧ w'.store = w.store ∧ Addressed o.compensation := by
  cases call with
  | restartService service =>
    obtain ⟨s, hs, rfl, rfl⟩ := performRestartService_ok_iff.mp hp
    have hversions := versions_nonempty h (hknown (by simp [ToolCall.toolName])) hs
    exact ⟨registered_setClient h hs rfl hversions, rfl, trivial⟩
  | scaleService service replicas =>
    obtain ⟨s, hs, rfl, rfl⟩ := performScaleService_ok_iff.mp hp
    have hversions := versions_nonempty h (hknown (by simp [ToolCall.toolName])) hs
    exact ⟨registered_setClient h hs rfl hversions, rfl, hknown (by simp [ToolCall.toolName])⟩
  | deleteRecords kind ids =>
    have hrun : (performDeleteRecords kind ids).run w = (.ok o, w') := hp
    rw [performDeleteRecords_run] at hrun
    cases hrun
    exact ⟨h, rfl, trivial⟩
  | clearCache service =>
    obtain ⟨s, hs, _, rfl, rfl⟩ := performClearCache_ok_iff.mp hp
    have hversions := versions_nonempty h (hknown (by simp [ToolCall.toolName])) hs
    exact ⟨registered_setClient h hs rfl hversions, rfl, trivial⟩
  | applyConfigChange service configKey value =>
    obtain ⟨s, hs, rfl, rfl⟩ := performApplyConfigChange_ok_iff.mp hp
    have hversions := versions_nonempty h (hknown (by simp [ToolCall.toolName])) hs
    exact ⟨registered_setClient h hs rfl hversions, rfl, hknown (by simp [ToolCall.toolName])⟩
  | rollbackDeployment service =>
    obtain ⟨s, older, u, v, hs, _, rfl, rfl⟩ := performRollbackDeployment_ok_iff.mp hp
    exact ⟨registered_setClient h hs rfl (by simp [ServiceState.clearTransient]), rfl,
      hknown (by simp [ToolCall.toolName])⟩

/-- What is known of an action since its proposal was accepted. -/
def Valid (action : String) : Prop :=
  ∃ w obs, gatherObservations w = .ok obs ∧ validateProposal obs action = .ok none

theorem target_known (h : Valid action) (hcall : dispatch action parameters = .ok call) :
    call.toolName ≠ "delete_records" → callTarget call ∈ knownServices := by
  obtain ⟨w, obs, hsweep, hvalid⟩ := h
  obtain ⟨tool, target, hsplit, _, hservice, _⟩ := registered_of_valid hsweep hvalid
  rw [dispatch_of_split hsplit] at hcall
  obtain ⟨htool, htarget⟩ := named_by_call hcall
  rw [htool, htarget]
  exact hservice

theorem answering_execute (h : Answering w) (hvalid : Valid action)
    (hrun : (executeAction action parameters key).run w = (.ok o, w')) :
    Answering w' ∧ Addressed o.compensation := by
  obtain ⟨call, _, hcall, _⟩ := executeAction_ok_iff.mp hrun
  cases hs : w.store.get? key with
  | some existing =>
    rw [executeAction_hit hcall hs] at hrun
    cases hrun
    exact ⟨h, h.ledger key existing hs⟩
  | none =>
    cases hp : call.perform.run w with
    | mk result w₁ =>
      cases result with
      | error e =>
        rw [executeAction_refused hcall hs hp] at hrun
        cases hrun
      | ok o₁ =>
        rw [executeAction_miss hcall hs hp] at hrun
        cases hrun
        obtain ⟨hregistered, hstore, haddressed⟩ :=
          registered_perform h.registered (target_known hvalid hcall) hp
        refine ⟨⟨hregistered, ?_⟩, haddressed⟩
        intro k entry hentry
        have hget : (w₁.store.setdefault key (call.entry o)).get? k = some entry := hentry
        rw [Dict.get?_setdefault] at hget
        split at hget
        · cases hget
          exact haddressed
        · rw [hstore] at hget
          exact h.ledger k entry hget

theorem answering_compensate {c : Compensation} {r : RollbackResult} (h : Answering w)
    (hc : Addressed c) (hrun : (applyCompensation c).run w = (.ok r, w')) : Answering w' := by
  cases c with
  | noop reason =>
    cases hrun
    exact h
  | scaleService service replicas =>
    obtain ⟨s, _, s', hs, he, _, rfl⟩ := post_map_ok_iff.mp hrun
    rw [postScale_run] at he
    cases he
    have hversions := versions_nonempty h.registered hc hs
    exact ⟨registered_setClient h.registered hs rfl hversions, h.ledger⟩
  | applyConfigChange service configKey value =>
    obtain ⟨s, _, s', hs, he, _, rfl⟩ := post_map_ok_iff.mp hrun
    have hversions := versions_nonempty h.registered hc hs
    cases value with
    | none => cases he
    | some v =>
      rw [postConfig_run] at he
      cases he
      exact ⟨registered_setClient h.registered hs rfl hversions, h.ledger⟩
  | deploy service version =>
    obtain ⟨s, _, s', hs, he, _, rfl⟩ := post_map_ok_iff.mp hrun
    have hversions := versions_nonempty h.registered hc hs
    rw [postDeploy_run (List.dropLast_append_getLast hversions).symm] at he
    obtain ⟨_, rfl⟩ := Prod.mk.inj he
    refine ⟨registered_setClient h.registered hs ?_ ?_, h.ledger⟩
    · split <;> rfl
    · split
      · exact hversions
      · simp
  | reinsertRecords rows =>
    cases hrun
    exact ⟨h.registered, h.ledger⟩

end Operations

/-! ### States between two nodes -/

/-- What the state of a run holds when its next node is `next`. -/
structure Sound (s : AgentState) (next : Option Node) : Prop where
  auditable : Auditable s
  cycles : s.replanCycles = none ∨ ∃ n, s.replanCycles = some (.int n)
  swept : next ≠ some .diagnose → Swept s
  acted : ∀ node, next = some node → node ∈ acting →
    ∃ action anchored, s.proposedAction = some (.str action) ∧ Valid action ∧
      s.stateFingerprint = some anchored
  key : next = some .execute → ∃ key, s.idempotencyKey = some (.str key)
  result : next = some .verify → ∃ result, s.executionResult = some result
  compensation : next = some .verify ∨ next = some .rollingBack →
    ∃ c, s.compensation = some c ∧ Addressed c
  ended : next = none → s.finalState = some (.str State.completed.value) ∨
    s.finalState = some (.str State.escalated.value)

/-- The entries of an initial state that audit records and the cycle counter read have
the types that the state declares. -/
structure WellTyped (s : AgentState) : Prop where
  runId : s.runId = none ∨ ∃ t, s.runId = some (.str t)
  status : IsText s.status
  proposedAction : IsText s.proposedAction
  riskTier : IsText s.riskTierFinal
  idempotencyKey : IsText s.idempotencyKey
  cycles : s.replanCycles = none ∨ ∃ n, s.replanCycles = some (.int n)

/-- The reviewer edits nothing. -/
def Unedited (v : Visit) : Prop :=
  v.node = .awaitApproval → editedAction v.answers.decision = .ok none

theorem sound_start {s : AgentState} (h : WellTyped s) (runId : String) (w : ToolContext) :
    Sound (startWorkflow runId s w).state (startWorkflow runId s w).next := by
  refine ⟨⟨?_, h.status, h.proposedAction, h.riskTier, h.idempotencyKey⟩, h.cycles, ?_, ?_, ?_, ?_,
    ?_, ?_⟩
  · rcases h.runId with hnone | ⟨t, ht⟩
    · exact ⟨runId, by simp [startWorkflow, hnone]⟩
    · exact ⟨t, by simp [startWorkflow, ht]⟩
  · intro hdiagnose
    exact absurd rfl hdiagnose
  · intro node hnode hacting
    cases hnode
    simp [acting] at hacting
  all_goals
    intro hnext
    simp [startWorkflow] at hnext

section Visits

variable {rt : Runtime} {v : Visit} {next : Option Node}

theorem cycles_after (hled : v.Led rt next)
    (h : v.before.replanCycles = none ∨ ∃ n, v.before.replanCycles = some (.int n)) :
    v.after.replanCycles = none ∨ ∃ n, v.after.replanCycles = some (.int n) := by
  by_cases hreplan : v.node = .replan
  · obtain ⟨_, cycles, hcycles, hafter⟩ := led_replan hled hreplan
    rw [hafter]
    rcases h with hnone | ⟨n, hn⟩
    · rw [hnone] at hcycles
      cases hcycles
      exact Or.inr ⟨_, rfl⟩
    · rw [hn] at hcycles
      cases hcycles
      exact Or.inr ⟨_, rfl⟩
  · rw [(led_marksKept hled).replanCycles hreplan]
    exact h

theorem swept_after (hled : v.Led rt next) (h : v.node ≠ .diagnose → Swept v.before) :
    Swept v.after := by
  by_cases hdiagnose : v.node = .diagnose
  · obtain ⟨_, obs, hobs, hafter⟩ := led_diagnose hled hdiagnose
    exact ⟨v.worldBefore, obs, hobs, by rw [hafter]⟩
  · by_cases hrevalidate : v.node = .revalidate
    · obtain ⟨_, fresh, _, _, _, hfresh, _, _, _, hafter⟩ := led_revalidate hled hrevalidate
      exact ⟨v.worldBefore, fresh, hfresh, by rw [hafter]⟩
    · obtain ⟨w, obs, hsweep, hobs⟩ := h hdiagnose
      exact ⟨w, obs, hsweep, by rw [(led_kept hled).observations hdiagnose hrevalidate, hobs]⟩

/-- An accepted proposal stays the action of its cycle, unless a reviewer edits it. -/
theorem acted_after (hled : v.Led rt next) (hunedited : Unedited v)
    (h : Sound v.before (some v.node)) {node : Node} (hnext : next = some node)
    (hnode : node ∈ acting) :
    ∃ action anchored, v.after.proposedAction = some (.str action) ∧ Valid action ∧
      v.after.stateFingerprint = some anchored := by
  subst hnext
  rcases edge_to_acting (led_edge hled) hnode with ⟨hpropose, hrouted⟩ | hacting
  · obtain ⟨w, obs, hsweep, hobs⟩ := h.swept (by rw [hpropose]; simp)
    have hvalid := Anchoring.valid_of_routed hled hpropose hrouted
    obtain ⟨_, obs', reason, fingerprint, hobs', hreason, _, hafter⟩ :=
      led_proposeAction hled hpropose
    rw [hobs] at hobs'
    cases hobs'
    rw [hafter] at hvalid
    have hnone : reason = none := by simpa using hvalid
    rw [hnone] at hreason
    exact ⟨_, fingerprint, by rw [hafter], ⟨w, obs, hsweep, hreason⟩, by rw [hafter]⟩
  · obtain ⟨action, anchored, haction, hvalid, hstored⟩ := h.acted v.node rfl hacting
    have hpropose : v.node ≠ .proposeAction := by
      intro hnode
      rw [hnode] at hacting
      simp [acting] at hacting
    by_cases hawait : v.node = .awaitApproval
    · obtain ⟨_, decided, approver, edit, _, hedit, hcases⟩ := led_awaitApproval hled hawait
      rw [hunedited hawait] at hedit
      cases hedit
      rcases hcases with ⟨_, hafter⟩ | ⟨_, _, _, hsome, _⟩
      · rw [hafter]
        exact ⟨action, anchored, haction, hvalid, hstored⟩
      · cases hsome
    · rw [(led_kept hled).proposedAction hpropose hawait]
      by_cases hrevalidate : v.node = .revalidate
      · obtain ⟨_, _, _, fingerprint, _, _, _, _, _, hafter⟩ := led_revalidate hled hrevalidate
        exact ⟨action, some fingerprint, haction, hvalid, by rw [hafter]⟩
      · rw [(led_kept hled).stateFingerprint hpropose hawait hrevalidate]
        exact ⟨action, anchored, haction, hvalid, hstored⟩

/-- Only an execution registers a compensation, and a failed verification keeps it. -/
theorem compensation_after (hled : v.Led rt next) (h : Sound v.before (some v.node))
    (hworld : Answering v.worldBefore) (hnext : next = some .verify ∨ next = some .rollingBack) :
    ∃ c, v.after.compensation = some c ∧ Addressed c := by
  have hedge := led_edge hled
  rcases hnext with rfl | rfl
  · have hexecute : v.node = .execute := by
      generalize v.node = n at hedge
      cases hedge
      rfl
    obtain ⟨action, _, haction, hvalid, _⟩ := h.acted _ rfl (by rw [hexecute]; simp [acting])
    obtain ⟨action', key, outcome, haction', _, hrun, hafter⟩ := led_execute hled hexecute
    rw [haction] at haction'
    cases haction'
    exact ⟨outcome.compensation, by rw [hafter], (answering_execute hworld hvalid hrun).2⟩
  · have hverify : v.node = .verify := by
      generalize v.node = n at hedge
      cases hedge
      rfl
    obtain ⟨c, hc, haddressed⟩ := h.compensation (Or.inl (by rw [hverify]))
    obtain ⟨_, _, _, _, _, _, _, hafter⟩ := led_verify hled hverify
    exact ⟨c, by rw [hafter]; exact hc, haddressed⟩

/-- Each visit leaves what the next node needs. -/
theorem sound_visit (hled : v.Led rt next) (hunedited : Unedited v)
    (h : Sound v.before (some v.node)) (hworld : Answering v.worldBefore) :
    Sound v.after next := by
  have hedge := led_edge hled
  refine ⟨auditable_of_led hled, cycles_after hled h.cycles, ?_, ?_, ?_, ?_,
    compensation_after hled h hworld, ?_⟩
  · intro _
    exact swept_after hled (fun hdiagnose => h.swept (by simpa using hdiagnose))
  · intro node hnext hnode
    exact acted_after hled hunedited h hnext hnode
  · rintro rfl
    exact key_before_execute hled
  · rintro rfl
    have hexecute : v.node = .execute := by
      generalize v.node = n at hedge
      cases hedge
      rfl
    obtain ⟨_, _, outcome, _, _, _, hafter⟩ := led_execute hled hexecute
    exact ⟨outcome.result, by rw [hafter]⟩
  · rintro rfl
    cases hnode : v.node with
    | completed =>
      obtain ⟨_, hafter⟩ := led_completed hled hnode
      exact Or.inl (by rw [hafter])
    | escalate =>
      obtain ⟨_, hafter⟩ := led_escalate hled hnode
      exact Or.inr (by rw [hafter])
    | _ =>
      rw [hnode] at hedge
      cases hedge

/-- The run's own visits leave a sandbox that answers. -/
theorem answering_visit (hled : v.Led rt next) (h : Sound v.before (some v.node))
    (hworld : Answering v.worldBefore) : Answering v.worldAfter := by
  by_cases hexecute : v.node = .execute
  · obtain ⟨action, _, haction, hvalid, _⟩ := h.acted _ rfl (by rw [hexecute]; simp [acting])
    obtain ⟨action', key, outcome, haction', _, hrun, _⟩ := led_execute hled hexecute
    rw [haction] at haction'
    cases haction'
    exact (answering_execute hworld hvalid hrun).1
  · by_cases hrolling : v.node = .rollingBack
    · obtain ⟨c, hc, haddressed⟩ := h.compensation (Or.inr (by rw [hrolling]))
      obtain ⟨c', result, hc', hrun, _⟩ := led_rollingBack hled hrolling
      rw [hc] at hc'
      cases hc'
      exact answering_compensate hworld haddressed hrun
    · rw [(led_kept hled).world hexecute hrolling]
      exact hworld

end Visits

/-- A run without edits is sound wherever it stands, in a sandbox that answers. -/
theorem sound_run {rt : Runtime} {runId : String} {initialState : AgentState}
    {world : ToolContext} {past : List Event} {c : Config} (hinitial : WellTyped initialState)
    (hworld : Answering world) (run : Run rt answering runId initialState world past c)
    (hunedited : ∀ v ∈ visits past, Unedited v) : Sound c.state c.next ∧ Answering c.world := by
  induction run with
  | start => exact ⟨sound_start hinitial runId world, hworld⟩
  | snoc run hs ih =>
    cases hs with
    | visit hnext hstep =>
      obtain ⟨hsound, hanswers⟩ := ih (fun v hv => hunedited v (List.mem_cons_of_mem _ hv))
      have hled := step_ok hnext hstep
      rw [hnext] at hsound
      exact ⟨sound_visit hled (hunedited _ List.mem_cons_self) hsound hanswers,
        answering_visit hled hsound hanswers⟩
    | others h => exact ⟨(ih hunedited).1, h⟩

end SoundRuns
