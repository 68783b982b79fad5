import Interlock.DecisionHonoured
import Interlock.Dispatching

/-!
# Edited actions

An edit enters behind the check that a proposal passes. It meets the look-ups of
the fingerprint, the parameters of the proposal it replaces, and the client of its
target. Which edits get through safely, for each verdict they come with.
-/

namespace EditedActions

open Dictionary PythonValues MockService Tools DiagnosticSweep Fingerprint Execution RunState Nodes
open Graph Transitions Walks PlanningCycle Anchoring Suspension DecisionHonoured Dispatching

/-- An edit that brings its run into no trouble. Resuming with it returns; in the rest
of the cycle it is revalidated and executed without raising in any registered
sandbox, unless the service refuses; it executes only if it is a valid proposal;
and it executes with no entry of the parameters that came with another action. -/
structure EditSafe (rt : Runtime) (c : Config) (d : DecisionRequest) (edit : String) : Prop where
  resumes : ∃ c₁, (step rt { decision := d.resume } c).1 = .ok c₁
  revalidates : ∀ c₁ c' answers, (step rt { decision := d.resume } c).1 = .ok c₁ →
    InCycle rt c₁ c' → Registered c'.world → c'.next = some .revalidate →
    ∃ c'', (step rt answers c').1 = .ok c''
  executes : ∀ c₁ c' answers, (step rt { decision := d.resume } c).1 = .ok c₁ →
    InCycle rt c₁ c' → Registered c'.world → c'.next = some .execute →
    Answered (step rt answers c').1
  valid : ∀ c₁ c' obs reason, (step rt { decision := d.resume } c).1 = .ok c₁ →
    InCycle rt c₁ c' → c'.next = some .execute → c.state.observations = some obs →
    validateProposal obs edit ≠ .ok (some reason)
  ownParameters : ∀ c₁ c' key, (step rt { decision := d.resume } c).1 = .ok c₁ →
    InCycle rt c₁ c' → c'.next = some .execute → ¬ Uses edit (parametersOf c'.state) key

/-- A granted edit is a valid proposal whose tool finds no entry of its own in the
parameters; an edit that comes with another verdict has a fingerprint. -/
def Applicable (s : AgentState) (d : DecisionRequest) (edit : String) : Prop :=
  match d.decision with
  | .approved | .edited => ∃ obs tool target, s.observations = some obs ∧
      validateProposal obs edit = .ok none ∧ splitColon edit = .ok (tool, target) ∧
      Parameterless tool (parametersOf s)
  | .rejected | .timeout => ¬ Ungrounded s edit

/-! ### Validity is the same for every sweep -/

theorem sweep_disk {w : ToolContext} {obs : Observations} (h : gatherObservations w = .ok obs)
    (service : String) :
    (obs.services.get? service).map (fun o => o.disk.isSome) =
      if service ∈ knownServices then some (hasDisk service) else none := by
  obtain ⟨hin, hout⟩ := gather_service h service
  by_cases hknown : service ∈ knownServices
  · obtain ⟨o, hobserve, hget⟩ := hin hknown
    obtain ⟨s, metrics, _, _, _, rfl⟩ := observeService_ok hobserve
    rw [hget, if_pos hknown]
    cases hd : hasDisk service <;> simp [shown, hd]
  · rw [hout hknown, if_neg hknown]
    rfl

/-- The services and their disks are those of the registry, whoever looks. -/
theorem validateProposal_sweep {w w' : ToolContext} {obs obs' : Observations}
    (h : gatherObservations w = .ok obs) (h' : gatherObservations w' = .ok obs')
    (action : String) : validateProposal obs action = validateProposal obs' action := by
  unfold validateProposal
  cases hsplit : splitColon action with
  | error e => rfl
  | ok parts =>
    obtain ⟨tool, target⟩ := parts
    have hsame := (sweep_disk h target).trans (sweep_disk h' target).symm
    cases ho : obs.services.get? target with
    | none =>
      cases ho' : obs'.services.get? target with
      | none => simp [bind, Except.bind, ho, ho']
      | some o' => simp [ho, ho'] at hsame
    | some o =>
      cases ho' : obs'.services.get? target with
      | none => simp [ho, ho'] at hsame
      | some o' =>
        have hdisk : (o.disk = none) = (o'.disk = none) := by
          simp only [ho, ho', Option.map_some, Option.some.injEq] at hsame
          rw [← Option.not_isSome_iff_eq_none, ← Option.not_isSome_iff_eq_none, hsame]
        simp [bind, Except.bind, ho, ho', hdisk]

/-- The check of a proposal raises on no action with a colon. -/
theorem validateProposal_total (obs : Observations) {action : String} {parts : String × String}
    (hsplit : splitColon action = .ok parts) :
    ∃ reason, validateProposal obs action = .ok reason := by
  unfold validateProposal
  rw [hsplit]
  simp only [bind, Except.bind, pure, Except.pure]
  split
  · exact ⟨_, rfl⟩
  · split
    · split <;> exact ⟨_, rfl⟩
    · split
      · exact ⟨_, rfl⟩
      · split <;> exact ⟨_, rfl⟩

/-- What a valid action's target is in the registry. -/
theorem registered_of_valid {w : ToolContext} {obs : Observations} {action : String}
    (h : gatherObservations w = .ok obs) (hvalid : validateProposal obs action = .ok none) :
    ∃ tool target, splitColon action = .ok (tool, target) ∧ tool ∈ knownTools ∧
      (tool ≠ "delete_records" → target ∈ knownServices) ∧
      (tool = "clear_cache" → hasDisk target = true) := by
  obtain ⟨tool, target, hsplit, htool, _, hservice⟩ := validateProposal_none hvalid
  have hknown : tool ≠ "delete_records" → target ∈ knownServices := by
    intro hdelete
    obtain ⟨o, ho, _⟩ := hservice hdelete
    by_contra hunknown
    rw [(gather_service h target).2 hunknown] at ho
    cases ho
  refine ⟨tool, target, hsplit, htool, hknown, ?_⟩
  rintro rfl
  obtain ⟨o, ho, hdisk⟩ := hservice (by decide)
  have hsame := sweep_disk h target
  rw [ho, if_pos (hknown (by decide)), Option.map_some, hdisk rfl, Option.some.injEq] at hsame
  exact hsame.symm

/-! ### What the rest of the cycle carries -/

/-- The edit, its parameters and its anchor on the way to the execution. -/
structure Carried (action : String) (parameters : Option Json) (next : Option Node)
    (s : AgentState) : Prop where
  past : PastDecision next
  auditable : Auditable s
  proposedAction : s.proposedAction = some (.str action)
  actionParameters : s.actionParameters = parameters
  stateFingerprint : ∃ anchored, s.stateFingerprint = some anchored
  key : next = some .execute → ∃ key, s.idempotencyKey = some (.str key)

section Carrying

variable {rt : Runtime} {v : Visit} {next : Option Node} {action : String}
variable {parameters : Option Json} {c c' c₁ : Config} {d : DecisionRequest}

theorem auditable_of_led (h : v.Led rt next) : Auditable v.after := by
  obtain ⟨update, record, _, hrecord, hmerge, _⟩ := h
  rw [hmerge]
  exact ((auditRecord_ok_iff _ _).mp ⟨record, hrecord⟩).1

theorem key_before_execute (h : v.Led rt (some .execute)) :
    ∃ key, v.after.idempotencyKey = some (.str key) := by
  have hedge := led_edge h
  cases hnode : v.node with
  | prepareExecution =>
    obtain ⟨_, runId, action, _, _, hafter⟩ := led_prepareExecution h hnode
    exact ⟨_, by rw [hafter]⟩
  | _ =>
    rw [hnode] at hedge
    cases hedge

theorem carried_step (hled : v.Led rt next) (hpropose : v.node ≠ .proposeAction)
    (h : Carried action parameters (some v.node) v.before) :
    Carried action parameters next v.after := by
  have hkept := led_kept hled
  have hawait : v.node ≠ .awaitApproval := fun hnode => h.past.2.2.2 (by rw [hnode])
  obtain ⟨hpast, haction⟩ := past_decision_step hled hpropose ⟨h.past, h.proposedAction⟩
  refine ⟨hpast, auditable_of_led hled, haction,
    (hkept.actionParameters hpropose).trans h.actionParameters, ?_, ?_⟩
  · by_cases hrevalidate : v.node = .revalidate
    · obtain ⟨_, _, _, fingerprint, _, _, _, _, _, hafter⟩ := led_revalidate hled hrevalidate
      exact ⟨some fingerprint, by rw [hafter]⟩
    · rw [hkept.stateFingerprint hpropose hawait hrevalidate]
      exact h.stateFingerprint
  · rintro rfl
    exact key_before_execute hled

theorem carried_of_resumed {edit : String} (hnext : c.next = some .awaitApproval)
    (hstep : (step rt { decision := d.resume } c).1 = .ok c₁) (hedit : d.edit = some edit) :
    Carried edit c.state.actionParameters c₁.next c₁.state := by
  have hled := step_ok hnext hstep
  obtain ⟨_, hreplaced, hgranted, hdenied⟩ := resumed hnext hstep
  have hpast : PastDecision c₁.next := by
    by_cases hverdict : d.decision = .approved ∨ d.decision = .edited
    · exact hgranted hverdict
    · exact (hdenied hverdict).past_decision
  refine ⟨hpast, auditable_of_led hled, (hreplaced edit hedit).1,
    (led_kept hled).actionParameters (by simp), ?_, ?_⟩
  · obtain ⟨_, _, _, edit', _, hedit', hcases⟩ := led_awaitApproval hled rfl
    rw [resume_edit, hedit] at hedit'
    cases hedit'
    rcases hcases with ⟨hnone, _⟩ | ⟨_, _, f, _, _, _, hafter⟩
    · cases hnone
    · exact ⟨some f, congrArg AgentState.stateFingerprint hafter⟩
  · intro hexecute
    have hedge := led_edge hled
    rw [hexecute] at hedge
    cases hedge

theorem carried_in_cycle {edit : String} (hnext : c.next = some .awaitApproval)
    (hstep : (step rt { decision := d.resume } c).1 = .ok c₁) (hedit : d.edit = some edit)
    (hcycle : InCycle rt c₁ c') : Carried edit c.state.actionParameters c'.next c'.state :=
  in_cycle (P := Carried edit c.state.actionParameters) carried_step hcycle
    (carried_of_resumed hnext hstep hedit)

theorem parametersOf_congr {s t : AgentState} (h : s.actionParameters = t.actionParameters) :
    parametersOf s = parametersOf t := by
  rw [parametersOf, parametersOf, h]

end Carrying

/-! ### The execution of an edit -/

section Executing

variable (rt : Runtime) {c : Config} {action key : String}

theorem run_execute {s : AgentState} {w : ToolContext}
    (haction : s.proposedAction = some (.str action)) (hkey : s.idempotencyKey = some (.str key)) :
    (execute s).run w = (do
      let outcome ← executeAction action (parametersOf s) key
      return [.status .executing, .executionResult outcome.result,
        .compensation outcome.compensation] : Action ToolContext Update).run w := by
  rw [execute, haction, hkey]
  rfl

theorem execute_raises (answers : Answers) {e : PyError} (hnext : c.next = some .execute)
    (haction : c.state.proposedAction = some (.str action))
    (hkey : c.state.idempotencyKey = some (.str key))
    (hdispatch : dispatch action (parametersOf c.state) = .error e) :
    (step rt answers c).1 = .error e := by
  refine step_error c.world hnext ?_
  change (execute c.state).run c.world = _
  rw [run_execute haction hkey, executeAction, hdispatch]
  rfl

/-- A visit to the execution returns if the execution does. -/
theorem execute_returns (answers : Answers) {outcome : Outcome} {w : ToolContext}
    (hnext : c.next = some .execute) (h : Auditable c.state)
    (haction : c.state.proposedAction = some (.str action))
    (hkey : c.state.idempotencyKey = some (.str key))
    (hrun : (executeAction action (parametersOf c.state) key).run c.world = (.ok outcome, w)) :
    ∃ c', (step rt answers c).1 = .ok c' := by
  have hfn : (nodeFn rt answers .execute c.state).run c.world =
      (.ok [.status .executing, .executionResult outcome.result,
        .compensation outcome.compensation], w) := NodeRuns.execute_run haction hkey hrun
  have hauditable : Auditable (c.state.merge [.status .executing,
      .executionResult outcome.result, .compensation outcome.compensation]) :=
    ⟨h.runId, isText_str _, h.proposedAction, h.riskTier, h.idempotencyKey⟩
  have haudit := (auditRecord_ok_iff answers.clock .execute).mpr
    ⟨hauditable, h.status, isText_none, isText_none⟩
  obtain ⟨c', hstep, _⟩ := step_exists hnext hfn haudit rfl
  exact ⟨c', hstep⟩

theorem execute_answered (answers : Answers) {call : ToolCall} (hnext : c.next = some .execute)
    (h : Auditable c.state) (haction : c.state.proposedAction = some (.str action))
    (hkey : c.state.idempotencyKey = some (.str key))
    (hcall : dispatch action (parametersOf c.state) = .ok call)
    (hrun : Answered ((call.run key).run c.world).1) : Answered (step rt answers c).1 := by
  cases hresult : (call.run key).run c.world with
  | mk result w =>
    rw [hresult] at hrun
    rcases hrun with ⟨m, hm⟩ | ⟨status, hrefused⟩
    · cases hm
      have hexecute := executeAction_ok_iff.mpr ⟨call, m, hcall, hresult, rfl⟩
      exact Or.inl (execute_returns rt answers hnext h haction hkey hexecute)
    · cases hrefused
      refine Or.inr ⟨status, step_error w hnext ?_⟩
      change (execute c.state).run c.world = _
      rw [run_execute haction hkey, executeAction, hcall]
      have hraise : (call.run key >>= fun m => pure m.outcome : Action ToolContext Outcome).run
          c.world = (.error (.httpStatusError status), w) := Action.run_bind_of_error hresult
      exact Action.run_bind_of_error hraise

end Executing

/-! ### Safe edits -/

/-- Each verdict has one way out of the approval. -/
theorem route_of_verdict (rt : Runtime) (verdict : Verdict) :
    ∃ next, ∀ t : AgentState, t.approvalDecision = some (.str verdict.text) →
      routeAfterApproval rt t = .ok next := by
  cases verdict with
  | approved | edited =>
    refine ⟨if rt.revalidate then .revalidate else .prepareExecution, ?_⟩
    intro t ht
    rw [routeAfterApproval, ht]
    rfl
  | rejected =>
    refine ⟨.replan, ?_⟩
    intro t ht
    rw [routeAfterApproval, ht]
    rfl
  | timeout =>
    refine ⟨.escalate, ?_⟩
    intro t ht
    rw [routeAfterApproval, ht]
    rfl

section Safety

variable {rt : Runtime} {c : Config} {d : DecisionRequest} {edit : String}

theorem resumes_of_grounded (hs : Suspended rt c.state) (hnext : c.next = some .awaitApproval)
    (hedit : d.edit = some edit) (h : ¬ Ungrounded c.state edit) :
    ∃ c₁, (step rt { decision := d.resume } c).1 = .ok c₁ := by
  obtain ⟨obs, shown, _, hobs, hshown, _⟩ := hs.anchored
  obtain ⟨f, hf⟩ := grounded_fingerprint rt hobs h
  have hresumed : resumedAction d shown = edit := by rw [resumedAction, hedit]; rfl
  rw [← hresumed] at hf
  obtain ⟨next, hroute⟩ := route_of_verdict rt d.decision
  obtain ⟨c₁, hstep, _⟩ := resume_step d hnext hs hobs hshown hf hroute
  exact ⟨c₁, hstep⟩

theorem grounded_of_valid {s : AgentState} {obs : Observations}
    (hobs : s.observations = some obs) (hvalid : validateProposal obs edit = .ok none) :
    ¬ Ungrounded s edit := by
  obtain ⟨_, hf⟩ := computeFingerprint_of_valid id hvalid
  obtain ⟨tool, target, fields, hsplit, hfields, _⟩ := computeFingerprint_ok_iff.mp hf
  exact fun h => h obs tool target fields hobs hsplit hfields

/-- A verdict that executes nothing only has to get past the fingerprint. -/
theorem safe_of_denied (hs : Suspended rt c.state) (hnext : c.next = some .awaitApproval)
    (hedit : d.edit = some edit) (hdenied : ¬ (d.decision = .approved ∨ d.decision = .edited))
    (h : ¬ Ungrounded c.state edit) : EditSafe rt c d edit := by
  have hdown : ∀ c₁ c', (step rt { decision := d.resume } c).1 = .ok c₁ → InCycle rt c₁ c' →
      TurnedDown c'.next := by
    intro c₁ c' hstep hcycle
    exact in_cycle (P := fun n _ => TurnedDown n) turned_down_step hcycle
      ((resumed hnext hstep).2.2.2 hdenied)
  refine ⟨resumes_of_grounded hs hnext hedit h, ?_, ?_, ?_, ?_⟩
  · intro c₁ c' answers hstep hcycle _ hrevalidate
    have htd := hdown c₁ c' hstep hcycle
    rw [hrevalidate] at htd
    simp [TurnedDown] at htd
  · intro c₁ c' answers hstep hcycle _ hexecute
    exact absurd hexecute (hdown c₁ c' hstep hcycle).not_execute
  · intro c₁ c' obs reason hstep hcycle hexecute
    exact absurd hexecute (hdown c₁ c' hstep hcycle).not_execute
  · intro c₁ c' key hstep hcycle hexecute
    exact absurd hexecute (hdown c₁ c' hstep hcycle).not_execute

/-- A granted edit that is a valid proposal without parameters is safe. -/
theorem safe_of_granted {obs : Observations} {tool target : String} (hs : Suspended rt c.state)
    (hnext : c.next = some .awaitApproval) (hedit : d.edit = some edit)
    (hobs : c.state.observations = some obs) (hvalid : validateProposal obs edit = .ok none)
    (hsplit : splitColon edit = .ok (tool, target))
    (hparams : Parameterless tool (parametersOf c.state)) : EditSafe rt c d edit := by
  obtain ⟨w₀, obs', hsweep, hobs'⟩ := hs.swept
  rw [hobs] at hobs'
  cases hobs'
  have hcarried : ∀ {c₁ c'}, (step rt { decision := d.resume } c).1 = .ok c₁ →
      InCycle rt c₁ c' → Carried edit c.state.actionParameters c'.next c'.state :=
    fun hstep hcycle => carried_in_cycle hnext hstep hedit hcycle
  refine ⟨resumes_of_grounded hs hnext hedit (grounded_of_valid hobs hvalid), ?_, ?_, ?_, ?_⟩
  · intro c₁ c' answers hstep hcycle hregistered hrevalidate
    have hc := hcarried hstep hcycle
    obtain ⟨fresh, hfresh⟩ := gather_ok hregistered
    rw [validateProposal_sweep hsweep hfresh] at hvalid
    obtain ⟨f, hf⟩ := computeFingerprint_of_valid rt.digest hvalid
    obtain ⟨anchored, hstored⟩ := hc.stateFingerprint
    obtain ⟨c'', hstep', _⟩ :=
      revalidate_returns answers hrevalidate hc.auditable hc.proposedAction hfresh hf hstored
    exact ⟨c'', hstep'⟩
  · intro c₁ c' answers hstep hcycle hregistered hexecute
    have hc := hcarried hstep hcycle
    obtain ⟨tool', target', hsplit', htool, hservice, hdisk⟩ := registered_of_valid hsweep hvalid
    rw [hsplit] at hsplit'
    cases hsplit'
    rw [← parametersOf_congr hc.actionParameters] at hparams
    obtain ⟨call, hcall, hanswered⟩ :=
      perform_answered hregistered htool hservice hdisk hparams
    obtain ⟨key, hkey⟩ := hc.key hexecute
    exact execute_answered rt answers hexecute hc.auditable hc.proposedAction hkey
      ((dispatch_of_split hsplit _).trans hcall) (run_answered hanswered)
  · intro c₁ c' obs' reason _ _ _ hobs'
    rw [hobs] at hobs'
    cases hobs'
    rw [hvalid]
    exact fun h => by cases h
  · intro c₁ c' key hstep hcycle _
    have hc := hcarried hstep hcycle
    rw [parametersOf_congr hc.actionParameters]
    exact not_uses_of_parameterless hsplit hparams key

theorem safe_of_applicable (hs : Suspended rt c.state) (hnext : c.next = some .awaitApproval)
    (hedit : d.edit = some edit) (h : Applicable c.state d edit) : EditSafe rt c d edit := by
  cases hdecision : d.decision with
  | approved | edited =>
    simp only [Applicable, hdecision] at h
    obtain ⟨obs, tool, target, hobs, hvalid, hsplit, hparams⟩ := h
    exact safe_of_granted hs hnext hedit hobs hvalid hsplit hparams
  | rejected | timeout =>
    simp only [Applicable, hdecision] at h
    exact safe_of_denied hs hnext hedit (by simp [hdecision]) h

theorem validateProposal_grounded {s : AgentState} {obs : Observations}
    (hobs : s.observations = some obs) (h : ¬ Ungrounded s edit) :
    ∃ tool target reason, splitColon edit = .ok (tool, target) ∧
      validateProposal obs edit = .ok reason := by
  obtain ⟨f, hf⟩ := grounded_fingerprint { digest := id } hobs h
  obtain ⟨tool, target, _, hsplit, _⟩ := computeFingerprint_ok_iff.mp hf
  obtain ⟨reason, hreason⟩ := validateProposal_total obs hsplit
  exact ⟨tool, target, reason, hsplit, hreason⟩

theorem registered_freshSandbox : Registered (freshSandbox []) := by
  intro service hservice
  simp only [knownServices, serviceRoles, List.map_cons, List.map_nil, List.mem_cons,
    List.not_mem_nil, or_false] at hservice
  rcases hservice with rfl | rfl | rfl
  · exact ⟨createApp "service_a" false, rfl, rfl, by decide⟩
  · exact ⟨createApp "service_b" false, rfl, rfl, by decide⟩
  · exact ⟨createApp "service_c" true, rfl, rfl, by decide⟩

/-- A granted edit reaches its execution, in whatever sandbox. -/
theorem granted_edit_executes (hs : Suspended rt c.state) (hnext : c.next = some .awaitApproval)
    (hedit : d.edit = some edit) (hgrounded : ¬ Ungrounded c.state edit)
    (hgranted : d.decision = .approved ∨ d.decision = .edited) (w : ToolContext) :
    ∃ c₁ c', (step rt { decision := d.resume } c).1 = .ok c₁ ∧ InCycle rt c₁ c' ∧
      c'.next = some .execute ∧ c'.world = w := by
  obtain ⟨obs, shown, _, hobs, hshown, _⟩ := hs.anchored
  obtain ⟨f, hf⟩ := grounded_fingerprint rt hobs hgrounded
  have hresumed : resumedAction d shown = edit := by rw [resumedAction, hedit]; rfl
  rw [← hresumed] at hf
  obtain ⟨c₁, later, c', hstep, run, hlater, hexecute, _⟩ :=
    granted_reaches_execution d hnext hs hobs hshown hf (isGranted_text.mpr hgranted)
  have changed : Trace (system rt anyone) c₁ (.others c'.world w :: later) { c' with world := w } :=
    run.snoc (Step.others trivial)
  exact ⟨c₁, _, hstep, ⟨_, changed, hlater⟩, hexecute, rfl⟩

theorem granted_of_safe (hs : Suspended rt c.state) (hnext : c.next = some .awaitApproval)
    (hedit : d.edit = some edit) (hgranted : d.decision = .approved ∨ d.decision = .edited)
    (hgrounded : ¬ Ungrounded c.state edit) (h : EditSafe rt c d edit) :
    ∃ obs tool target, c.state.observations = some obs ∧
      validateProposal obs edit = .ok none ∧ splitColon edit = .ok (tool, target) ∧
      Parameterless tool (parametersOf c.state) := by
  obtain ⟨obs, _, _, hobs, _⟩ := hs.anchored
  obtain ⟨tool, target, reason, hsplit, hreason⟩ := validateProposal_grounded hobs hgrounded
  obtain ⟨c₁, c', hstep, hcycle, hexecute, hworld⟩ :=
    granted_edit_executes hs hnext hedit hgrounded hgranted (freshSandbox [])
  have hvalid : reason = none := by
    cases reason with
    | none => rfl
    | some text => exact absurd hreason (h.valid c₁ c' obs text hstep hcycle hexecute hobs)
  rw [hvalid] at hreason
  refine ⟨obs, tool, target, hobs, hreason, hsplit, ?_⟩
  have hc := carried_in_cycle hnext hstep hedit hcycle
  rw [← parametersOf_congr hc.actionParameters]
  obtain ⟨key, hkey⟩ := hc.key hexecute
  have hregistered : Registered c'.world := by
    rw [hworld]
    exact registered_freshSandbox
  cases hcall : dispatch edit (parametersOf c'.state) with
  | error e =>
    have hraise := execute_raises rt {} hexecute hc.proposedAction hkey hcall
    have hanswered := h.executes c₁ c' {} hstep hcycle hregistered hexecute
    rw [hraise] at hanswered
    rcases hanswered with ⟨_, hok⟩ | ⟨status, hrefused⟩
    · cases hok
    · cases hrefused
      rw [dispatch_of_split hsplit] at hcall
      exact absurd hcall (notRefused_toolCall tool target _ status)
  | ok call =>
    by_contra hnot
    obtain ⟨used, huses⟩ := uses_of_call hsplit hcall hnot
    exact h.ownParameters c₁ c' used hstep hcycle hexecute huses

theorem applicable_of_safe (hs : Suspended rt c.state) (hnext : c.next = some .awaitApproval)
    (hedit : d.edit = some edit) (h : EditSafe rt c d edit) : Applicable c.state d edit := by
  obtain ⟨c₁, hstep⟩ := h.resumes
  have hgrounded := ((resumed hnext hstep).2.1 edit hedit).2
  cases hdecision : d.decision with
  | approved | edited =>
    simp only [Applicable, hdecision]
    exact granted_of_safe hs hnext hedit (by simp [hdecision]) hgrounded h
  | rejected | timeout =>
    simp only [Applicable, hdecision]
    exact hgrounded

end Safety

section Runs

variable {rt : Runtime} {runId : String} {initialState : AgentState} {world : ToolContext}
variable {past : List Event} {c : Config} {d : DecisionRequest} {edit : String}

/-- The edits of a suspended run that are safe under their verdict. -/
theorem edit_safe_iff (run : Run rt anyone runId initialState world past c)
    (hnext : c.next = some .awaitApproval) (hedit : d.edit = some edit) :
    EditSafe rt c d edit ↔ Applicable c.state d edit :=
  have hs := suspended_of_run run hnext
  ⟨applicable_of_safe hs hnext hedit, safe_of_applicable hs hnext hedit⟩

end Runs

def editedTo (action : String) : DecisionRequest :=
  { decision := .edited, editedAction := some action }

/-- A mistyped service raises out of the resumption. -/
theorem unknown_service_not_safe :
    ∃ past c, Run { digest := id } anyone "run-1" {} (freshSandbox []) past c ∧
      c.next = some .awaitApproval ∧
      ¬ EditSafe { digest := id } c (editedTo "restart_service:service_z")
        "restart_service:service_z" := by
  obtain ⟨v, past, c, hplay, hcheck⟩ := endsIn_spec
    (p := fun _ _ c => decide (c.next = some .awaitApproval) &&
      (step { digest := id } { decision := (editedTo "restart_service:service_z").resume }
        c).1.toOption.isNone)
    (show endsIn (play { digest := id } scaleToApprove []
      (startWorkflow "run-1" {} (freshSandbox []))) _ = true by decide +kernel)
  simp only [Bool.and_eq_true, decide_eq_true_eq] at hcheck
  obtain ⟨hnext, hraises⟩ := hcheck
  refine ⟨_, c, play_trace (by simp [Allowed, scaleToApprove]) .start hplay, hnext, ?_⟩
  intro h
  obtain ⟨c₁, hstep⟩ := h.resumes
  rw [hstep] at hraises
  cases hraises

/-- The scaling edited to a restart is safe. -/
theorem edit_to_restart_safe :
    ∃ past c, Run { digest := id } anyone "run-1" {} (freshSandbox []) past c ∧
      c.next = some .awaitApproval ∧
      EditSafe { digest := id } c (editedTo "restart_service:service_b")
        "restart_service:service_b" := by
  obtain ⟨v, past, c, hplay, hcheck⟩ := endsIn_spec
    (p := fun _ _ c => decide (c.next = some .awaitApproval) &&
      c.state.observations.any (fun obs =>
        decide ((validateProposal obs "restart_service:service_b").toOption = some none)))
    (show endsIn (play { digest := id } scaleToApprove []
      (startWorkflow "run-1" {} (freshSandbox []))) _ = true by decide +kernel)
  simp only [Bool.and_eq_true, decide_eq_true_eq] at hcheck
  obtain ⟨hnext, hchecked⟩ := hcheck
  have run : Run { digest := id } anyone "run-1" {} (freshSandbox []) (.visit v :: past) c :=
    play_trace (by simp [Allowed, scaleToApprove]) .start hplay
  refine ⟨_, c, run, hnext, (edit_safe_iff run hnext rfl).mpr ?_⟩
  obtain ⟨obs, hobs, hvalid⟩ := (Option.any_eq_true _ _).mp hchecked
  have hnone : validateProposal obs "restart_service:service_b" = .ok none := by
    cases hv : validateProposal obs "restart_service:service_b" with
    | error e =>
      rw [hv] at hvalid
      simp [Except.toOption] at hvalid
    | ok reason =>
      rw [hv] at hvalid
      simp only [Except.toOption, Option.some.injEq, decide_eq_true_eq] at hvalid
      rw [hvalid]
  exact ⟨obs, "restart_service", "service_b", hobs, hnone, rfl, by decide,
    fun h => absurd h (by decide), fun h => absurd h (by decide)⟩

end EditedActions
