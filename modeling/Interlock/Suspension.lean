import Interlock.Anchoring
import Interlock.NodeRuns

/-!
# Suspended runs

What holds of every run that waits for its reviewer, and what resuming it with a
decision of the API does: the visit to `await_approval`, and from a granted
decision on, the way to the execution if the sandbox shows what it showed before.
-/

namespace Suspension

open Dictionary PythonValues Tools DiagnosticSweep Fingerprint RiskPolicy Execution RunState Nodes
open Graph Transitions Walks PlanningCycle Anchoring NodeRuns Relation

/-! ### Decisions -/

inductive Verdict where
  | approved
  | edited
  | rejected
  | timeout
  deriving DecidableEq, Repr

def Verdict.text : Verdict → String
  | approved => "approved"
  | edited => "edited"
  | rejected => "rejected"
  | timeout => "timeout"

structure DecisionRequest where
  decision : Verdict
  approverId : Option String := none
  editedAction : Option String := none
  deriving DecidableEq, Repr

def optionalText : Option String → Json
  | some text => .str text
  | none => .null

/-- The value that `submit_decision` resumes the run with. -/
def DecisionRequest.resume (d : DecisionRequest) : Json :=
  .obj [("decision", .str d.decision.text), ("approver_id", optionalText d.approverId),
    ("edited_action", optionalText d.editedAction)]

/-- The edit that the node sees: an empty text counts as none. -/
def DecisionRequest.edit (d : DecisionRequest) : Option String :=
  match d.editedAction with
  | some text => if text = "" then none else some text
  | none => none

theorem resume_decision (d : DecisionRequest) :
    d.resume.getItem "decision" = .ok (.str d.decision.text) := rfl

theorem resume_approver (d : DecisionRequest) :
    d.resume.get "approver_id" = .ok (some (optionalText d.approverId)) := rfl

theorem resume_edit (d : DecisionRequest) : editedAction d.resume = .ok d.edit := by
  have hget : d.resume.get "edited_action" = .ok (some (optionalText d.editedAction)) := rfl
  rw [editedAction, hget]
  cases he : d.editedAction with
  | none => simp [DecisionRequest.edit, he, optionalText, Json.truthy, bind, Except.bind, pure,
      Except.pure]
  | some text =>
    by_cases hempty : text = ""
    · simp [DecisionRequest.edit, he, optionalText, Json.truthy, hempty, bind, Except.bind, pure,
        Except.pure]
    · simp [DecisionRequest.edit, he, optionalText, Json.truthy, hempty, bind, Except.bind, pure,
        Except.pure]

theorem isGranted_text {d : Verdict} :
    isGranted (.str d.text) = true ↔ d = .approved ∨ d = .edited := by
  cases d <;> simp [isGranted, Json.isStr, Verdict.text]

/-! ### The state of a suspended run -/

/-- Observations come from a sweep of some sandbox. -/
def Swept (s : AgentState) : Prop :=
  ∃ w obs, gatherObservations w = .ok obs ∧ s.observations = some obs

section Runs

variable {rt : Runtime} {others : ToolContext → ToolContext → Prop} {runId : String}
variable {initialState : AgentState} {world w : ToolContext} {vs : List Visit} {s : AgentState}
variable {next : Option Node} {past : List Event} {c : Config}

/-- After the first diagnosis the observations in the state are the sweep of one of
the visits, and the state has a diagnosis. -/
theorem walk_swept (walk : Walk rt others initialState world vs s next w) :
    (vs = [] ∧ next = some .diagnose) ∨
      ((∃ u ∈ vs, ∃ obs, gatherObservations u.worldBefore = .ok obs ∧ s.observations = some obs) ∧
        ∃ summary, s.diagnosis = some summary) := by
  induction walk with
  | start => exact Or.inl ⟨rfl, rfl⟩
  | @visit past s w v next walk hbefore hworld hled ih =>
    subst hbefore
    apply Or.inr
    have hkept := led_kept hled
    by_cases hdiagnose : v.node = .diagnose
    · obtain ⟨_, obs, hobs, hafter⟩ := led_diagnose hled hdiagnose
      rw [hafter]
      exact ⟨⟨v, List.mem_cons_self, obs, hobs, rfl⟩, _, rfl⟩
    · obtain ⟨⟨u, hu, obs, hobs, hstored⟩, summary, hsummary⟩ := ih.resolve_left (by
        rintro ⟨_, hnext⟩
        exact hdiagnose (Option.some.inj hnext))
      refine ⟨?_, summary, by rw [hkept.diagnosis hdiagnose, hsummary]⟩
      by_cases hrevalidate : v.node = .revalidate
      · obtain ⟨_, fresh, _, _, _, hfresh, _, _, _, hafter⟩ := led_revalidate hled hrevalidate
        rw [hafter]
        exact ⟨v, List.mem_cons_self, fresh, hfresh, rfl⟩
      · exact ⟨u, List.mem_cons_of_mem v hu, obs, hobs,
          by rw [hkept.observations hdiagnose hrevalidate, hstored]⟩

/-- The audit record of the latest visit checked the entries that all records read. -/
theorem walk_auditable (walk : Walk rt others initialState world vs s next w) (h : vs ≠ []) :
    Auditable s := by
  cases walk with
  | start => exact absurd rfl h
  | visit walk hbefore hworld hled =>
    obtain ⟨update, record, _, hrecord, hmerge, _⟩ := hled
    rw [hmerge]
    exact ((auditRecord_ok_iff _ _).mp ⟨record, hrecord⟩).1

/-- What a run that waits for its reviewer has in its state. -/
structure Suspended (rt : Runtime) (s : AgentState) : Prop where
  anchored : Anchored rt s
  swept : Swept s
  auditable : Auditable s
  diagnosis : ∃ summary, s.diagnosis = some summary
  riskTier : ∃ tier, s.riskTierFinal = some (.str tier)

theorem suspended_of_walk
    (walk : Walk rt others initialState world vs s (some .awaitApproval) w) : Suspended rt s := by
  obtain ⟨mrk, cls, prop, older, hvs, hmrk, hcls, hprop, _, hrouted⟩ := walk_to_approval walk
  have hne : vs ≠ [] := by rw [hvs]; simp
  obtain ⟨⟨u, _, obs, hsweep, hobs⟩, hdiagnosis⟩ :=
    (walk_swept walk).resolve_left (fun h => hne h.1)
  have hswept : Swept s := ⟨u.worldBefore, obs, hsweep, hobs⟩
  have haudit := walk_auditable walk hne
  rw [hvs] at walk
  obtain ⟨hs, _, hledMrk, _⟩ := walk_cons walk
  obtain ⟨hmrkBefore, _, hwalk⟩ := walk_cons_cons walk
  obtain ⟨_, _, hledCls, _⟩ := walk_cons hwalk
  obtain ⟨_, _, hwalk'⟩ := walk_cons_cons hwalk
  obtain ⟨_, _, hledProp, _⟩ := walk_cons hwalk'
  have hanchored := anchored_of_proposal hledProp hprop (valid_of_routed hledProp hprop hrouted)
  obtain ⟨haction, hobs, hf⟩ := kept_until_approval walk hmrk hcls
  obtain ⟨_, hmrkAfter⟩ := led_markAwaitingApproval hledMrk hmrk
  obtain ⟨_, _, tool, _, _, situational, _, _, _, _, _, hclsAfter⟩ := led_classifyRisk hledCls hcls
  refine ⟨hanchored.congr hobs haction hf, hswept, haudit, hdiagnosis,
    applyPolicy tool cls.answers.classification.tier situational, ?_⟩
  rw [hs, hmrkAfter, hmrkBefore, hclsAfter]

theorem suspended_of_run (run : Run rt others runId initialState world past c)
    (hnext : c.next = some .awaitApproval) : Suspended rt c.state := by
  obtain ⟨w, hwalk, _⟩ := run_walk run
  rw [hnext] at hwalk
  exact suspended_of_walk hwalk

end Runs

/-! ### Resuming -/

section Resume

variable {rt : Runtime} {s : AgentState}

theorem payload_of_suspended (h : Suspended rt s) :
    ∃ payload, interruptPayload s = .ok payload ∧ s.proposedAction = some payload.proposedAction := by
  obtain ⟨_, action, _, _, haction, _⟩ := h.anchored
  obtain ⟨runId, hrunId⟩ := h.auditable.runId
  obtain ⟨summary, hsummary⟩ := h.diagnosis
  obtain ⟨tier, htier⟩ := h.riskTier
  refine ⟨⟨.str runId, summary, .str action, .str tier⟩, ?_, haction⟩
  rw [interruptPayload, hrunId, hsummary, haction, htier]
  rfl

/-- What resuming with a decision writes, an edit with its new fingerprint. -/
def resumeUpdate (d : DecisionRequest) (fingerprint : String) : Update :=
  [.approvalDecision (.str d.decision.text), .approverId (optionalText d.approverId)] ++
    match d.edit with
    | none => []
    | some newAction => [.proposedAction newAction, .stateFingerprint (some fingerprint)]

/-- The action that a resumed run goes on with. -/
def resumedAction (d : DecisionRequest) (shown : String) : String := d.edit.getD shown

theorem awaitApproval_resume (h : Suspended rt s) (d : DecisionRequest) :
    awaitApproval rt d.resume s =
      match d.edit with
      | none => .ok (resumeUpdate d "")
      | some newAction => do
        let observations ← required "observations" s.observations
        let fingerprint ← computeFingerprint rt.digest observations newAction
        return resumeUpdate d fingerprint := by
  obtain ⟨payload, hpayload, _⟩ := payload_of_suspended h
  rw [awaitApproval, hpayload, resume_decision, resume_approver, resume_edit]
  cases hedit : d.edit with
  | none => simp only [resumeUpdate, hedit]; rfl
  | some newAction => simp only [resumeUpdate, hedit]; rfl

section Update

variable {obs : Observations} {shown fingerprint : String} (d : DecisionRequest)

theorem resume_ok (h : Suspended rt s) (hobs : s.observations = some obs)
    (hf : computeFingerprint rt.digest obs (resumedAction d shown) = .ok fingerprint) :
    awaitApproval rt d.resume s = .ok (resumeUpdate d fingerprint) := by
  rw [awaitApproval_resume h]
  cases hedit : d.edit with
  | none => simp only [resumeUpdate, hedit]
  | some newAction =>
    rw [resumedAction, hedit, Option.getD_some] at hf
    simp only [hobs, required_some, bind, Except.bind, hf]
    rfl

/-- The resumed state has the resumed action, anchored like before. -/
theorem resumed_state (h : Suspended rt s) (hobs : s.observations = some obs)
    (hshown : s.proposedAction = some (.str shown))
    (hf : computeFingerprint rt.digest obs (resumedAction d shown) = .ok fingerprint) :
    (s.merge (resumeUpdate d fingerprint)).proposedAction =
        some (.str (resumedAction d shown)) ∧
      (s.merge (resumeUpdate d fingerprint)).observations = some obs ∧
      (s.merge (resumeUpdate d fingerprint)).stateFingerprint = some (some fingerprint) ∧
      (s.merge (resumeUpdate d fingerprint)).approvalDecision = some (.str d.decision.text) ∧
      Auditable (s.merge (resumeUpdate d fingerprint)) := by
  cases hedit : d.edit with
  | none =>
    obtain ⟨obs', action', f', hobs', haction', hf', hstored⟩ := h.anchored
    rw [hobs] at hobs'
    cases hobs'
    rw [hshown] at haction'
    cases haction'
    rw [resumedAction, hedit, Option.getD_none, hf'] at hf
    cases hf
    rw [resumeUpdate, resumedAction, hedit]
    exact ⟨hshown, hobs, hstored, rfl, h.auditable.runId, h.auditable.status,
      h.auditable.proposedAction, h.auditable.riskTier, h.auditable.idempotencyKey⟩
  | some newAction =>
    rw [resumeUpdate, resumedAction, hedit]
    exact ⟨rfl, hobs, rfl, rfl, h.auditable.runId, h.auditable.status, isText_str newAction,
      h.auditable.riskTier, h.auditable.idempotencyKey⟩

theorem resume_texts : IsText (writtenApprover (resumeUpdate d fingerprint)) ∧
    IsText (writtenDecision (resumeUpdate d fingerprint)) := by
  constructor
  · cases happrover : d.approverId with
    | none =>
      have hwritten : writtenApprover (resumeUpdate d fingerprint) = some .null := by
        simp [writtenApprover, resumeUpdate, happrover, optionalText]
      rw [hwritten]
      exact isText_null
    | some t =>
      have hwritten : writtenApprover (resumeUpdate d fingerprint) = some (.str t) := by
        simp [writtenApprover, resumeUpdate, happrover, optionalText]
      rw [hwritten]
      exact isText_str t
  · exact isText_str d.decision.text

/-- Resuming with a decision returns whenever the fingerprint of the action that the
run goes on with can be computed. -/
theorem resume_step {c : Config} {next : Node} (hnext : c.next = some .awaitApproval)
    (h : Suspended rt c.state) (hobs : c.state.observations = some obs)
    (hshown : c.state.proposedAction = some (.str shown))
    (hf : computeFingerprint rt.digest obs (resumedAction d shown) = .ok fingerprint)
    (hroute : ∀ t : AgentState, t.approvalDecision = some (.str d.decision.text) →
      routeAfterApproval rt t = .ok next) :
    ∃ c₁, (step rt { decision := d.resume } c).1 = .ok c₁ ∧ c₁.next = some next ∧
      c₁.world = c.world ∧ c₁.state = c.state.merge (resumeUpdate d fingerprint) := by
  obtain ⟨_, _, _, hdecision, hauditable⟩ := resumed_state d h hobs hshown hf
  have hfn : (nodeFn rt { decision := d.resume } .awaitApproval c.state).run c.world =
      (.ok (resumeUpdate d fingerprint), c.world) := by
    change (Action.lift (awaitApproval rt d.resume c.state)).run c.world = _
    rw [Action.run_lift, resume_ok d h hobs hf]
  have haudit := (auditRecord_ok_iff "" .awaitApproval).mpr
    ⟨hauditable, h.auditable.status, (resume_texts d).1, (resume_texts d).2⟩
  have hedge : nextNode rt .awaitApproval (c.state.merge (resumeUpdate d fingerprint)) =
      .ok (some next) := by
    change (routeAfterApproval rt _).map some = _
    rw [hroute _ hdecision]
    rfl
  obtain ⟨c₁, hstep, hstate, hnext₁, hworld⟩ := step_exists hnext hfn haudit hedge
  exact ⟨c₁, hstep, hnext₁, hworld, hstate⟩

end Update

/-! ### From the resumption to the execution -/

section Onward

variable {c : Config} {obs : Observations} {action fingerprint : String}

theorem prepare_step (hnext : c.next = some .prepareExecution) (h : Auditable c.state)
    (haction : c.state.proposedAction = some (.str action)) :
    ∃ c', (step rt {} c).1 = .ok c' ∧ c'.next = some .execute ∧
      c'.state.proposedAction = some (.str action) := by
  obtain ⟨runId, hrunId⟩ := h.runId
  have hfn : (nodeFn rt {} .prepareExecution c.state).run c.world =
      (.ok [.status .executing, .idempotencyKey (idempotencyKey runId action)], c.world) :=
    prepare_run hrunId haction
  have hauditable : Auditable (c.state.merge [.status .executing,
      .idempotencyKey (idempotencyKey runId action)]) :=
    ⟨h.runId, isText_str _, h.proposedAction, h.riskTier, isText_str _⟩
  have haudit := (auditRecord_ok_iff "" .prepareExecution).mpr
    ⟨hauditable, h.status, isText_none, isText_none⟩
  obtain ⟨c', hstep, hstate, hnext', _⟩ := step_exists hnext hfn haudit rfl
  exact ⟨c', hstep, hnext', by rw [hstate]; exact haction⟩

/-- A revalidation returns whenever its sweep gives the action a fingerprint, and
sends the action back exactly if that is not the stored one. -/
theorem revalidate_returns {anchored : Option String} (answers : Answers)
    (hnext : c.next = some .revalidate) (h : Auditable c.state)
    (haction : c.state.proposedAction = some (.str action))
    (hsweep : gatherObservations c.world = .ok obs)
    (hf : computeFingerprint rt.digest obs action = .ok fingerprint)
    (hstored : c.state.stateFingerprint = some anchored) :
    ∃ c', (step rt answers c).1 = .ok c' ∧
      c'.next = some (if some fingerprint = anchored then .prepareExecution else .replan) ∧
      c'.state = c.state.merge (revalidateUpdate obs fingerprint anchored) := by
  have hfn : (nodeFn rt answers .revalidate c.state).run c.world =
      (.ok (revalidateUpdate obs fingerprint anchored), c.world) :=
    revalidate_run haction hsweep hf hstored
  have hauditable : Auditable (c.state.merge (revalidateUpdate obs fingerprint anchored)) :=
    ⟨h.runId, isText_str _, h.proposedAction, h.riskTier, h.idempotencyKey⟩
  have haudit := (auditRecord_ok_iff answers.clock .revalidate).mpr
    ⟨hauditable, h.status, isText_none, isText_none⟩
  obtain ⟨c', hstep, hstate, hnext', _⟩ := step_exists hnext hfn haudit revalidate_route
  exact ⟨c', hstep, hnext', hstate⟩

/-- A sweep that gives the stored fingerprint again reports no drift. -/
theorem revalidate_step (hnext : c.next = some .revalidate) (h : Auditable c.state)
    (haction : c.state.proposedAction = some (.str action))
    (hsweep : gatherObservations c.world = .ok obs)
    (hf : computeFingerprint rt.digest obs action = .ok fingerprint)
    (hstored : c.state.stateFingerprint = some (some fingerprint)) :
    ∃ c', (step rt {} c).1 = .ok c' ∧ c'.next = some .prepareExecution ∧ Auditable c'.state ∧
      c'.state.proposedAction = some (.str action) := by
  obtain ⟨c', hstep, hnext', hstate⟩ :=
    revalidate_returns {} hnext h haction hsweep hf hstored
  rw [if_pos rfl] at hnext'
  refine ⟨c', hstep, hnext', ?_, ?_⟩
  · rw [hstate]
    exact ⟨h.runId, isText_str _, h.proposedAction, h.riskTier, h.idempotencyKey⟩
  · rw [hstate]
    exact haction

/-- A granted decision leads to the execution of the action it goes on with, if the
sandbox shows again what it showed before. -/
theorem granted_reaches_execution {shown : String} (d : DecisionRequest)
    (hnext : c.next = some .awaitApproval) (h : Suspended rt c.state)
    (hobs : c.state.observations = some obs) (hshown : c.state.proposedAction = some (.str shown))
    (hf : computeFingerprint rt.digest obs (resumedAction d shown) = .ok fingerprint)
    (hgrant : isGranted (.str d.decision.text) = true) :
    ∃ c₁ later c', (step rt { decision := d.resume } c).1 = .ok c₁ ∧
      Trace (system rt fun _ _ => True) c₁ later c' ∧
      (∀ v ∈ visits later, v.node ≠ .proposeAction) ∧ c'.next = some .execute ∧
      c'.state.proposedAction = some (.str (resumedAction d shown)) := by
  obtain ⟨haction, hkept, hstored, _, hauditable⟩ := resumed_state d h hobs hshown hf
  have hroute : ∀ t : AgentState, t.approvalDecision = some (.str d.decision.text) →
      routeAfterApproval rt t = .ok (if rt.revalidate then .revalidate else .prepareExecution) := by
    intro t ht
    rw [routeAfterApproval, ht]
    simp [bind, Except.bind, pure, Except.pure, hgrant]
  obtain ⟨c₁, hstep, hnext₁, hworld, hstate⟩ := resume_step d hnext h hobs hshown hf hroute
  rw [← hstate] at haction hstored hauditable
  cases hrt : rt.revalidate with
  | false =>
    rw [hrt] at hnext₁
    obtain ⟨c', hprepare, hexecute, haction'⟩ := prepare_step hnext₁ hauditable haction
    refine ⟨c₁, _, c', hstep, .snoc .start (Step.visit hnext₁ hprepare), ?_, hexecute, haction'⟩
    intro v hv
    rw [List.mem_singleton.mp hv]
    exact fun hnode => by cases hnode
  | true =>
    rw [hrt] at hnext₁
    obtain ⟨w₀, obs', hsweep, hobs'⟩ := h.swept
    rw [hobs] at hobs'
    cases hobs'
    -- somebody restores the sandbox that the action was anchored on
    obtain ⟨c₂, hrevalidate, hnext₂, hauditable₂, haction₂⟩ :=
      revalidate_step (c := { c₁ with world := w₀ }) hnext₁ hauditable haction hsweep hf hstored
    obtain ⟨c', hprepare, hexecute, haction'⟩ := prepare_step hnext₂ hauditable₂ haction₂
    have restored : Trace (system rt fun _ _ => True) c₁ _ { c₁ with world := w₀ } :=
      .snoc .start (Step.others trivial)
    refine ⟨c₁, _, c', hstep, (restored.snoc (Step.visit hnext₁ hrevalidate)).snoc
      (Step.visit hnext₂ hprepare), ?_, hexecute, haction'⟩
    intro v hv
    rcases List.mem_cons.mp hv with rfl | hv
    · exact fun hnode => by cases hnode
    · rw [List.mem_singleton.mp hv]
      exact fun hnode => by cases hnode

end Onward

end Resume

end Suspension
