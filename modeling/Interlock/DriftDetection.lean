import Interlock.DecisionHonoured

/-!
# Drift during a suspension

A revalidation compares its sweep with the fingerprint of the snapshot in the state,
which `diagnose` or an earlier `revalidate` took. What the snapshot missed before the
run was suspended counts as drift too, the run's own executions included.
-/

namespace DriftDetection

open Dictionary PythonValues MockService Tools DiagnosticSweep CanonicalJson Fingerprint Execution
open RunState Nodes Graph Transitions Walks PlanningCycle Anchoring Suspension DecisionHonoured
open NodeRuns (revalidateUpdate)

/-- The fields that the action depends on, in given observations. -/
def observedFields (obs : Observations) (action : String) :
    Except PyError (List (String × FieldValue)) := do
  let (tool, target) ← splitColon action
  relevantFields obs tool target

/-- The fields that the action depends on, in the sandbox itself. -/
def currentFields (w : ToolContext) (action : String) :
    Except PyError (List (String × FieldValue)) := do
  observedFields (← gatherObservations w) action

/-- Whenever the approved action of the suspended run `c` is revalidated, in whatever
sandbox, drift is reported exactly if the action's fields are not those of the
sandbox `suspended`, in which the run was suspended. -/
def ExactDrift (rt : Runtime) (c : Config) (suspended : ToolContext) : Prop :=
  ∀ (d : DecisionRequest) c₁ w answers c₂ action, d.decision = .approved → d.edit = none →
    (step rt { decision := d.resume } c).1 = .ok c₁ →
    (step rt answers { c₁ with world := w }).1 = .ok c₂ →
    c.state.proposedAction = some (.str action) →
    (c₂.state.driftDetected = some (.bool true) ↔
      currentFields w action ≠ currentFields suspended action)

/-- The snapshot in the state shows the action's fields as the sandbox has them. -/
def UpToDate (s : AgentState) (w : ToolContext) : Prop :=
  ∃ obs action, s.observations = some obs ∧ s.proposedAction = some (.str action) ∧
    observedFields obs action = currentFields w action

theorem currentFields_eq {w : ToolContext} {obs : Observations}
    (h : gatherObservations w = .ok obs) (action : String) :
    currentFields w action = observedFields obs action := by
  rw [currentFields, h]
  rfl

/-- Without collisions, an action has one fingerprint in two sweeps exactly if it has the
same fields in both. -/
theorem fingerprints_agree_iff {digest : String → String} (hdigest : Function.Injective digest)
    {obs later : Observations} {action f laterF : String}
    (h : computeFingerprint digest obs action = .ok f)
    (hlater : computeFingerprint digest later action = .ok laterF) :
    f = laterF ↔ observedFields obs action = observedFields later action := by
  obtain ⟨tool, target, fields, hsplit, hfields, rfl⟩ := computeFingerprint_ok_iff.mp h
  obtain ⟨tool', target', laterFields, hsplit', hlaterFields, rfl⟩ :=
    computeFingerprint_ok_iff.mp hlater
  rw [hsplit] at hsplit'
  cases hsplit'
  have hobserved : ∀ o, observedFields o action = relevantFields o tool target := by
    intro o
    rw [observedFields, hsplit]
    rfl
  rw [fingerprint_eq_iff hdigest hfields hlaterFields, hobserved, hobserved, hfields, hlaterFields,
    Except.ok.injEq]

section Suspended

variable {rt : Runtime} {c c₁ c₂ : Config} {d : DecisionRequest}

/-- An approval without an edit leaves the action and its anchor as they are. -/
theorem approved_led {v : Visit} {next : Option Node} (hrt : rt.revalidate = true) (h : v.Led rt next)
    (hnode : v.node = .awaitApproval) {d : DecisionRequest} (happroved : d.decision = .approved)
    (hedit : d.edit = none) (hdecision : v.answers.decision = d.resume) :
    next = some .revalidate ∧ v.after.proposedAction = v.before.proposedAction ∧
      v.after.stateFingerprint = v.before.stateFingerprint ∧ v.worldAfter = v.worldBefore := by
  obtain ⟨hworld, decided, approver, edit, hdecided, hedit', hcases⟩ := led_awaitApproval h hnode
  rw [hdecision, resume_decision, happroved] at hdecided
  cases hdecided
  rw [hdecision, resume_edit, hedit] at hedit'
  cases hedit'
  rcases hcases with ⟨_, hafter⟩ | ⟨_, _, _, hsome, _⟩
  · have hgiven : v.after.approvalDecision = some (.str Verdict.approved.text) := by rw [hafter]
    refine ⟨?_, by rw [hafter], by rw [hafter], hworld⟩
    have hedge := led_edge h
    rw [hnode] at hedge
    cases hedge with
    | granted _ _ _ => rfl
    | grantedBlind _ _ hblind =>
      rw [hrt] at hblind
      cases hblind
    | rejected hd hdenied _ | lapsed hd hdenied _ =>
      rw [hgiven] at hd
      cases hd
      cases hdenied
  · cases hsome

/-- An unedited approval only writes the decision, and leads to the revalidation. -/
theorem unedited_approval (hrt : rt.revalidate = true) (hnext : c.next = some .awaitApproval)
    (happroved : d.decision = .approved) (hedit : d.edit = none)
    (hstep : (step rt { decision := d.resume } c).1 = .ok c₁) :
    c₁.next = some .revalidate ∧ c₁.state.proposedAction = c.state.proposedAction ∧
      c₁.state.stateFingerprint = c.state.stateFingerprint := by
  have hled := step_ok hnext hstep
  obtain ⟨hrevalidate, haction, hf, _⟩ := approved_led hrt hled rfl happroved hedit rfl
  exact ⟨hrevalidate, haction, hf⟩

theorem exact_of_upToDate {suspended : ToolContext} (hdigest : Function.Injective rt.digest)
    (hrt : rt.revalidate = true) (hs : Suspended rt c.state) (hnext : c.next = some .awaitApproval)
    (h : UpToDate c.state suspended) : ExactDrift rt c suspended := by
  intro d c₁ w answers c₂ action happroved hedit hstep hrevalidate haction
  obtain ⟨obs, action', hobs, haction', hfields⟩ := h
  rw [haction] at haction'
  cases haction'
  obtain ⟨obs', action', f, hobs', haction', hf, hstored⟩ := hs.anchored
  rw [hobs] at hobs'
  cases hobs'
  rw [haction] at haction'
  cases haction'
  obtain ⟨hnext₁, haction₁, hstored₁⟩ := unedited_approval hrt hnext happroved hedit hstep
  have hled := step_ok (c := { c₁ with world := w }) hnext₁ hrevalidate
  obtain ⟨_, fresh, swept, g, anchored, hfresh, hswept, hg, hanchored, hafter⟩ :=
    led_revalidate hled rfl
  have hsame := hswept.symm.trans (haction₁.trans haction)
  cases hsame
  have hdrift : c₂.state.driftDetected = some (.bool (decide (some g ≠ anchored))) :=
    congrArg AgentState.driftDetected hafter
  have hanchor : anchored = some f :=
    Option.some.inj (hanchored.symm.trans (hstored₁.trans hstored))
  rw [hdrift, hanchor, ← hfields, currentFields_eq hfresh, Option.some.injEq, Json.bool.injEq,
    decide_eq_true_eq, ne_eq, Option.some.injEq, fingerprints_agree_iff hdigest hg hf]

/-- Somebody who restores the sandbox of the snapshot makes the revalidation report
no drift. -/
theorem upToDate_of_exact {suspended : ToolContext} (hrt : rt.revalidate = true)
    (hs : Suspended rt c.state) (hnext : c.next = some .awaitApproval)
    (h : ExactDrift rt c suspended) : UpToDate c.state suspended := by
  obtain ⟨obs, action, f, hobs, haction, hf, hstored⟩ := hs.anchored
  obtain ⟨w₀, obs', hsweep, hobs'⟩ := hs.swept
  rw [hobs] at hobs'
  cases hobs'
  have hroute : ∀ t : AgentState, t.approvalDecision = some (.str Verdict.approved.text) →
      routeAfterApproval rt t = .ok .revalidate := by
    intro t ht
    rw [routeAfterApproval, ht, hrt]
    rfl
  obtain ⟨c₁, hstep, _, _, hstate⟩ :=
    resume_step { decision := .approved } hnext hs hobs haction hf hroute
  obtain ⟨hnext₁, haction₁, hstored₁⟩ := unedited_approval hrt hnext rfl rfl hstep
  have hauditable := (resumed_state { decision := .approved } hs hobs haction hf).2.2.2.2
  rw [← hstate] at hauditable
  obtain ⟨c₂, hrevalidate, _, hafter⟩ := revalidate_returns (c := { c₁ with world := w₀ }) {} hnext₁
    hauditable (haction₁.trans haction) hsweep hf (hstored₁.trans hstored)
  have hdrift : c₂.state.driftDetected = some (.bool false) := by
    rw [hafter]
    simp [AgentState.merge, revalidateUpdate, AgentState.write]
  have hexact := h { decision := .approved } c₁ w₀ {} c₂ action rfl rfl hstep hrevalidate haction
  refine ⟨obs, action, hobs, haction, ?_⟩
  by_contra hdiffers
  rw [← currentFields_eq hsweep] at hdiffers
  have htrue := hexact.mpr hdiffers
  rw [hdrift] at htrue
  cases htrue

end Suspended

section Runs

variable {rt : Runtime} {runId : String} {initialState : AgentState} {world : ToolContext}
variable {past : List Event} {c : Config} {mrk : Visit} {older : List Visit}

/-- The latest visit of a suspended run is the one that suspended it. -/
theorem suspended_by_mark (run : Run rt anyone runId initialState world past c)
    (hnext : c.next = some .awaitApproval) :
    ∃ mrk older, visits past = mrk :: older ∧ mrk.node = .markAwaitingApproval := by
  obtain ⟨w, hwalk, _⟩ := run_walk run
  rw [hnext] at hwalk
  obtain ⟨mrk, cls, prop, older, hvs, hmrk, _⟩ := walk_to_approval hwalk
  exact ⟨mrk, cls :: prop :: older, hvs, hmrk⟩

/-- The revalidation of an unedited approval tells exactly whether the action's
fields changed since the run was suspended, if and only if the snapshot in the
state showed those fields as they were when it was suspended. -/
theorem exact_drift_iff (hdigest : Function.Injective rt.digest) (hrt : rt.revalidate = true)
    (run : Run rt anyone runId initialState world past c) (hnext : c.next = some .awaitApproval) :
    ∃ mrk older, visits past = mrk :: older ∧ mrk.node = .markAwaitingApproval ∧
      (ExactDrift rt c mrk.worldBefore ↔ UpToDate c.state mrk.worldBefore) := by
  have hs := suspended_of_run run hnext
  obtain ⟨mrk, older, hvs, hmrk⟩ := suspended_by_mark run hnext
  exact ⟨mrk, older, hvs, hmrk, upToDate_of_exact hrt hs hnext,
    exact_of_upToDate hdigest hrt hs hnext⟩

end Runs

/-! ### A snapshot from before the run's own restart -/

/-- A restart clears the leak and leaves the disk full. -/
def leakingAndFull : ToolContext :=
  injectFault "service_c" .memoryLeak .high (injectFault "service_c" .diskFull .high
    (freshSandbox []))

/-- From the second proposal of a run to the revalidation of its approval. -/
def approvedMoves (tool target : String) : List Move :=
  [.answer { proposal := { tool := tool, target := target } },
    .answer { classification := { tier := "medium" } }, .answer {},
    .answer { decision := ({ decision := .approved } : DecisionRequest).resume }, .answer {}]

def scaleAfterRestart : List Move :=
  .answer {} :: autonomousMoves "restart_service" "service_c" none ++ rollbackMoves ++
    approvedMoves "scale_service" "service_c"

/-- Nobody else touches the sandbox, and the approved scaling is sent back for drift: the
run's own restart came after its only snapshot. -/
theorem own_restart_is_drift :
    ∃ past v c mrk, Run { digest := id } (fun _ _ => False) "run-1" {} leakingAndFull
        (.visit v :: past) c ∧
      v.node = .revalidate ∧ mrk ∈ cycle past ∧ mrk.node = .markAwaitingApproval ∧
      v.before.proposedAction = some (.str "scale_service:service_c") ∧
      v.before.approvalDecision = some (.str "approved") ∧
      v.after.driftDetected = some (.bool true) ∧
      currentFields v.worldBefore "scale_service:service_c" =
        currentFields mrk.worldBefore "scale_service:service_c" := by
  obtain ⟨v, past, c, hplay, hcheck⟩ := endsIn_spec
    (p := fun v past _ => decide (v.node = .revalidate) &&
      v.before.proposedAction.any (·.isStr "scale_service:service_c") &&
      v.before.approvalDecision.any (·.isStr "approved") &&
      v.after.driftDetected.any Json.truthy &&
      (cycle past).any fun mrk => decide (mrk.node = .markAwaitingApproval) &&
        decide ((currentFields v.worldBefore "scale_service:service_c").toOption =
          (currentFields mrk.worldBefore "scale_service:service_c").toOption) &&
        (currentFields v.worldBefore "scale_service:service_c").toOption.isSome)
    (show endsIn (play { digest := id } scaleAfterRestart []
      (startWorkflow "run-1" {} leakingAndFull)) _ = true by decide +kernel)
  simp only [Bool.and_eq_true, decide_eq_true_eq, List.any_eq_true] at hcheck
  obtain ⟨⟨⟨⟨hnode, haction⟩, hdecision⟩, hdrift⟩, mrk, hmem, ⟨hmrk, hsame⟩, hok⟩ := hcheck
  have run : Run { digest := id } (fun _ _ => False) "run-1" {} leakingAndFull (.visit v :: past) c :=
    play_trace (by simp [Allowed, scaleAfterRestart, autonomousMoves, rollbackMoves,
      approvedMoves]) .start hplay
  have hreported : v.after.driftDetected = some (.bool true) := by
    obtain ⟨hled, _⟩ := run_visit_walk run
    obtain ⟨_, _, _, f, anchored, _, _, _, _, hafter⟩ := led_revalidate hled hnode
    rw [hafter] at hdrift ⊢
    exact congrArg (fun b => some (Json.bool b)) hdrift
  exact ⟨past, v, c, mrk, run, hnode, hmem, hmrk, Json.any_isStr_iff.mp haction,
    Json.any_isStr_iff.mp hdecision, hreported, eq_of_toOption hsame hok⟩

/-- In the first cycle of a run that nobody touches the snapshot is up to date. -/
theorem first_approval_exact :
    ∃ past c mrk, Run { digest := id } anyone "run-1" {} (freshSandbox []) past c ∧
      mrk ∈ visits past ∧ mrk.node = .markAwaitingApproval ∧
      ExactDrift { digest := id } c mrk.worldBefore := by
  obtain ⟨v, past, c, hplay, hcheck⟩ := endsIn_spec
    (p := fun v _ c => decide (c.next = some .awaitApproval) &&
      c.state.proposedAction.any (·.isStr "scale_service:service_b") &&
      c.state.observations.any (fun obs =>
        decide ((observedFields obs "scale_service:service_b").toOption =
          (currentFields v.worldBefore "scale_service:service_b").toOption) &&
        (observedFields obs "scale_service:service_b").toOption.isSome))
    (show endsIn (play { digest := id } scaleToApprove []
      (startWorkflow "run-1" {} (freshSandbox []))) _ = true by decide +kernel)
  simp only [Bool.and_eq_true, decide_eq_true_eq, Option.any_eq_true] at hcheck
  obtain ⟨⟨hnext, haction⟩, obs, hobs, hsame, hok⟩ := hcheck
  have run : Run { digest := id } anyone "run-1" {} (freshSandbox []) (.visit v :: past) c :=
    play_trace (by simp [Allowed, scaleToApprove]) .start hplay
  obtain ⟨mrk, older, hvs, hmrk, hiff⟩ := exact_drift_iff Function.injective_id rfl run hnext
  have hmark : mrk = v := (List.cons.inj hvs).1.symm
  subst hmark
  refine ⟨_, c, mrk, run, List.mem_cons_self, hmrk, hiff.mpr ?_⟩
  obtain ⟨j, hj, hstr⟩ := haction
  rw [Json.isStr_iff.mp hstr] at hj
  exact ⟨obs, _, hobs, hj, eq_of_toOption hsame hok⟩

end DriftDetection
