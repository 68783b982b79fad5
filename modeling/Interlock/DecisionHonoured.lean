import Interlock.Suspension

/-!
# What a decision lets run

A decision names a verdict and may carry an edit, and the two are read in different
places: the node replaces the action whenever there is an edit, the router looks at
the verdict alone. A decision is honoured if the rest of its cycle runs what the
verdict says.
-/

namespace DecisionHonoured

open Dictionary PythonValues Tools DiagnosticSweep Fingerprint Execution RunState Nodes
open Graph Transitions Walks PlanningCycle Anchoring Suspension

/-- Others may do anything to the sandbox. -/
def anyone : ToolContext → ToolContext → Prop := fun _ _ => True

/-- The run went on from `c` to `c'` without proposing again. -/
def InCycle (rt : Runtime) (c c' : Config) : Prop :=
  ∃ later, Trace (system rt anyone) c later c' ∧ ∀ v ∈ visits later, v.node ≠ .proposeAction

/-- What the verdict says about the rest of the cycle after the resumption in `c₁`,
for a reviewer who was shown the action `shown`. -/
def Obeyed (rt : Runtime) (c₁ : Config) (shown : Json) (d : DecisionRequest) : Prop :=
  match d.decision with
  | .approved => ∀ c', InCycle rt c₁ c' → c'.next = some .execute →
      c'.state.proposedAction = some shown
  | .edited => ∀ c', InCycle rt c₁ c' → c'.next = some .execute →
      ∃ edit, d.editedAction = some edit ∧ c'.state.proposedAction = some (.str edit)
  | .rejected | .timeout => ∀ c', InCycle rt c₁ c' →
      c'.next ≠ some .execute ∧ c'.state.proposedAction = some shown

/-- However the suspended run `c` is resumed with `d`, the verdict is obeyed. -/
def Honoured (rt : Runtime) (c : Config) (shown : Json) (d : DecisionRequest) : Prop :=
  ∀ c₁, (step rt { decision := d.resume } c).1 = .ok c₁ → Obeyed rt c₁ shown d

/-- The look-ups of the action's fields in the last sweep raise. -/
def Ungrounded (s : AgentState) (action : String) : Prop :=
  ∀ obs tool target fields, s.observations = some obs → splitColon action = .ok (tool, target) →
    relevantFields obs tool target ≠ .ok fields

/-- An `edited` decision brings an edit; every other one brings none, or one that
is the shown action again, or one that the node cannot anchor. -/
def Coherent (s : AgentState) (shown : Json) (d : DecisionRequest) : Prop :=
  match d.decision with
  | .edited => d.edit ≠ none
  | _ => ∀ edit, d.edit = some edit → shown = .str edit ∨ Ungrounded s edit

/-! ### The rest of a cycle -/

theorem InCycle.refl (rt : Runtime) (c : Config) : InCycle rt c c := ⟨[], .start, by simp [visits]⟩

section Cycle

variable {rt : Runtime} {c c' : Config} {v : Visit} {next : Option Node}

/-- What every visit but a proposal preserves holds in the rest of the cycle. -/
theorem in_cycle {P : Option Node → AgentState → Prop}
    (preserved : ∀ {v : Visit} {next : Option Node}, v.Led rt next → v.node ≠ .proposeAction →
      P (some v.node) v.before → P next v.after)
    (h : InCycle rt c c') (initial : P c.next c.state) : P c'.next c'.state := by
  obtain ⟨later, run, hlater⟩ := h
  induction run with
  | start => exact initial
  | snoc run hs ih =>
    cases hs with
    | visit hnext hstep =>
      have hbefore := ih (fun v hv => hlater v (List.mem_cons_of_mem _ hv))
      rw [hnext] at hbefore
      exact preserved (step_ok hnext hstep) (hlater _ List.mem_cons_self) hbefore
    | others _ => exact ih hlater

/-- Past the decision no node of the cycle replaces the action. -/
def PastDecision (next : Option Node) : Prop :=
  next ≠ some .diagnose ∧ next ≠ some .classifyRisk ∧ next ≠ some .markAwaitingApproval ∧
    next ≠ some .awaitApproval

theorem PastDecision.led (hled : v.Led rt next) (hpropose : v.node ≠ .proposeAction)
    (hpast : PastDecision (some v.node)) : PastDecision next := by
  have hedge := led_edge hled
  generalize v.node = n at hedge hpast hpropose
  cases hedge <;> simp_all [PastDecision]

theorem PastDecision.not_await {node : Node} (h : PastDecision (some node)) :
    node ≠ .awaitApproval := fun hnode => h.2.2.2 (by rw [hnode])

theorem past_decision_step {shown : Json} (hled : v.Led rt next) (hpropose : v.node ≠ .proposeAction)
    (h : PastDecision (some v.node) ∧ v.before.proposedAction = some shown) :
    PastDecision next ∧ v.after.proposedAction = some shown := by
  obtain ⟨hpast, haction⟩ := h
  exact ⟨hpast.led hled hpropose,
    ((led_kept hled).proposedAction hpropose hpast.not_await).trans haction⟩

/-- A cycle that was turned down ends without an execution. -/
def TurnedDown (next : Option Node) : Prop :=
  next = some .replan ∨ next = some .escalate ∨ next = some .proposeAction ∨ next = none

theorem turned_down_step (hled : v.Led rt next) (hpropose : v.node ≠ .proposeAction)
    (h : TurnedDown (some v.node)) : TurnedDown next := by
  have hedge := led_edge hled
  generalize v.node = n at hedge h hpropose
  cases hedge <;> simp_all [TurnedDown]

theorem TurnedDown.past_decision (h : TurnedDown next) : PastDecision next := by
  rcases h with rfl | rfl | rfl | rfl <;> simp [PastDecision]

theorem TurnedDown.not_execute (h : TurnedDown next) : next ≠ some .execute := by
  rcases h with rfl | rfl | rfl | rfl <;> simp

/-- The action stays for the rest of the cycle. -/
theorem action_in_cycle {shown : Json} (h : InCycle rt c c') (hpast : PastDecision c.next)
    (haction : c.state.proposedAction = some shown) : c'.state.proposedAction = some shown :=
  (in_cycle (P := fun n s => PastDecision n ∧ s.proposedAction = some shown) past_decision_step h
    ⟨hpast, haction⟩).2

theorem no_execution_in_cycle (h : InCycle rt c c') (hdown : TurnedDown c.next) :
    c'.next ≠ some .execute :=
  (in_cycle (P := fun n _ => TurnedDown n) turned_down_step h hdown).not_execute

end Cycle

/-! ### The resumption -/

section Resumption

variable {rt : Runtime} {c c₁ : Config} {d : DecisionRequest}

/-- Resuming replaces the action by the edit, whatever the verdict is, and goes the
way of the verdict, whether there is an edit or not. -/
theorem led_resumed {v : Visit} {next : Option Node} (hled : v.Led rt next)
    (hnode : v.node = .awaitApproval) (hd : v.answers.decision = d.resume) :
    (d.edit = none → v.after.proposedAction = v.before.proposedAction) ∧
    (∀ edit, d.edit = some edit →
      v.after.proposedAction = some (.str edit) ∧ ¬ Ungrounded v.before edit) ∧
    (d.decision = .approved ∨ d.decision = .edited → PastDecision next) ∧
    (¬ (d.decision = .approved ∨ d.decision = .edited) → TurnedDown next) := by
  have hedge := led_edge hled
  rw [hnode] at hedge
  obtain ⟨_, decided, approver, edit, hdecided, hedit, hcases⟩ := led_awaitApproval hled hnode
  rw [hd, resume_decision] at hdecided
  cases hdecided
  rw [hd, resume_edit] at hedit
  cases hedit
  have hdecision : v.after.approvalDecision = some (.str d.decision.text) := by
    rcases hcases with ⟨_, hafter⟩ | ⟨_, _, _, _, _, _, hafter⟩ <;> rw [hafter]
  refine ⟨?_, ?_, ?_, ?_⟩
  · intro hnone
    rcases hcases with ⟨_, hafter⟩ | ⟨_, _, _, hsome, _⟩
    · rw [hafter]
    · rw [hnone] at hsome
      cases hsome
  · intro edit hsome
    rcases hcases with ⟨hnone, _⟩ | ⟨newAction, obs, f, hnew, hobs, hf, hafter⟩
    · rw [hsome] at hnone
      cases hnone
    · rw [hsome] at hnew
      cases hnew
      obtain ⟨tool, target, fields, hsplit, hfields, _⟩ := computeFingerprint_ok_iff.mp hf
      exact ⟨by rw [hafter], fun h => h obs tool target fields hobs hsplit hfields⟩
  · intro hgranted
    cases hedge with
    | granted _ _ _ => simp [PastDecision]
    | grantedBlind _ _ _ => simp [PastDecision]
    | rejected hd hnot _ =>
      rw [hdecision] at hd
      cases hd
      rw [isGranted_text.mpr hgranted] at hnot
      cases hnot
    | lapsed hd hnot _ =>
      rw [hdecision] at hd
      cases hd
      rw [isGranted_text.mpr hgranted] at hnot
      cases hnot
  · intro hdenied
    cases hedge with
    | granted hd hgranted _ =>
      rw [hdecision] at hd
      cases hd
      exact absurd (isGranted_text.mp hgranted) hdenied
    | grantedBlind hd hgranted _ =>
      rw [hdecision] at hd
      cases hd
      exact absurd (isGranted_text.mp hgranted) hdenied
    | rejected _ _ _ => exact Or.inl rfl
    | lapsed _ _ _ => exact Or.inr (Or.inl rfl)

theorem resumed (hnext : c.next = some .awaitApproval)
    (hstep : (step rt { decision := d.resume } c).1 = .ok c₁) :
    (d.edit = none → c₁.state.proposedAction = c.state.proposedAction) ∧
    (∀ edit, d.edit = some edit →
      c₁.state.proposedAction = some (.str edit) ∧ ¬ Ungrounded c.state edit) ∧
    (d.decision = .approved ∨ d.decision = .edited → PastDecision c₁.next) ∧
    (¬ (d.decision = .approved ∨ d.decision = .edited) → TurnedDown c₁.next) :=
  led_resumed (step_ok hnext hstep) rfl rfl

end Resumption

/-! ### Honoured decisions -/

theorem edit_eq_none {d : DecisionRequest} {edit : String} (h : d.edit = none)
    (hedit : d.editedAction = some edit) : edit = "" := by
  rw [DecisionRequest.edit, hedit] at h
  by_contra hne
  simp [hne] at h

theorem editedAction_of_edit {d : DecisionRequest} {edit : String} (h : d.edit = some edit) :
    d.editedAction = some edit := by
  cases he : d.editedAction with
  | none =>
    rw [DecisionRequest.edit, he] at h
    cases h
  | some text =>
    rw [DecisionRequest.edit, he] at h
    simp only at h
    split at h
    · cases h
    · exact h

section Decisions

variable {rt : Runtime} {c : Config} {shown : Json} {d : DecisionRequest}

theorem honoured_of_coherent (hnext : c.next = some .awaitApproval)
    (hshown : c.state.proposedAction = some shown) (h : Coherent c.state shown d) :
    Honoured rt c shown d := by
  intro c₁ hstep
  obtain ⟨hkept, hreplaced, hgranted, hdenied⟩ := resumed hnext hstep
  have hsame : (∀ edit, d.edit = some edit → shown = .str edit ∨ Ungrounded c.state edit) →
      c₁.state.proposedAction = some shown := by
    intro hedits
    cases hedit : d.edit with
    | none => rw [hkept hedit, hshown]
    | some edit =>
      obtain ⟨haction, hgrounded⟩ := hreplaced edit hedit
      rcases hedits edit hedit with hsame | hungrounded
      · rw [haction, hsame]
      · exact absurd hungrounded hgrounded
  cases hdecision : d.decision with
  | approved =>
    simp only [Coherent, hdecision] at h
    simp only [Obeyed, hdecision]
    intro c' hcycle _
    exact action_in_cycle hcycle (hgranted (Or.inl hdecision)) (hsame h)
  | edited =>
    simp only [Coherent, hdecision] at h
    simp only [Obeyed, hdecision]
    intro c' hcycle _
    obtain ⟨edit, hedit⟩ := Option.ne_none_iff_exists'.mp h
    obtain ⟨haction, _⟩ := hreplaced edit hedit
    exact ⟨edit, editedAction_of_edit hedit,
      action_in_cycle hcycle (hgranted (Or.inr hdecision)) haction⟩
  | rejected =>
    simp only [Coherent, hdecision] at h
    simp only [Obeyed, hdecision]
    intro c' hcycle
    have hdown := hdenied (by simp [hdecision])
    exact ⟨no_execution_in_cycle hcycle hdown,
      action_in_cycle hcycle hdown.past_decision (hsame h)⟩
  | timeout =>
    simp only [Coherent, hdecision] at h
    simp only [Obeyed, hdecision]
    intro c' hcycle
    have hdown := hdenied (by simp [hdecision])
    exact ⟨no_execution_in_cycle hcycle hdown,
      action_in_cycle hcycle hdown.past_decision (hsame h)⟩

theorem splitColon_ne_empty {action : String} {parts : String × String}
    (h : splitColon action = .ok parts) : action ≠ "" := by
  rintro rfl
  cases h

theorem grounded_fingerprint (rt : Runtime) {s : AgentState} {obs : Observations} {action : String}
    (hobs : s.observations = some obs) (h : ¬ Ungrounded s action) :
    ∃ fingerprint, computeFingerprint rt.digest obs action = .ok fingerprint := by
  simp only [Ungrounded, not_forall, not_not] at h
  obtain ⟨obs', tool, target, fields, hobs', hsplit, hfields⟩ := h
  rw [hobs] at hobs'
  cases hobs'
  exact ⟨_, computeFingerprint_ok_iff.mpr ⟨tool, target, fields, hsplit, hfields, rfl⟩⟩

/-- A verdict that leaves the action alone comes without an edit that replaces it. -/
theorem edit_of_unchanged {obs : Observations} {action : String} (next : Node)
    (hs : Suspended rt c.state) (hnext : c.next = some .awaitApproval)
    (hobs : c.state.observations = some obs) (hshown : c.state.proposedAction = some (.str action))
    (hroute : ∀ t : AgentState, t.approvalDecision = some (.str d.decision.text) →
      routeAfterApproval rt t = .ok next)
    (h : ∀ c₁, (step rt { decision := d.resume } c).1 = .ok c₁ →
      c₁.state.proposedAction = some (.str action)) :
    ∀ edit, d.edit = some edit → Json.str action = .str edit ∨ Ungrounded c.state edit := by
  intro edit hedit
  by_contra hnot
  obtain ⟨hother, hgrounded⟩ := not_or.mp hnot
  obtain ⟨f, hf⟩ := grounded_fingerprint rt hobs hgrounded
  have hresumed : resumedAction d action = edit := by rw [resumedAction, hedit]; rfl
  rw [← hresumed] at hf
  obtain ⟨c₁, hstep, _⟩ := resume_step d hnext hs hobs hshown hf hroute
  obtain ⟨_, hreplaced, _⟩ := resumed hnext hstep
  have haction := (hreplaced edit hedit).1
  rw [h c₁ hstep] at haction
  exact hother (Option.some.inj haction)

theorem coherent_of_honoured (hs : Suspended rt c.state) (hnext : c.next = some .awaitApproval)
    (hshown : c.state.proposedAction = some shown) (h : Honoured rt c shown d) :
    Coherent c.state shown d := by
  obtain ⟨obs, action, fingerprint, hobs, haction, hf, _⟩ := hs.anchored
  rw [hshown, Option.some.injEq] at haction
  subst haction
  cases hdecision : d.decision with
  | edited =>
    simp only [Coherent, hdecision]
    intro hnone
    -- the shown action runs although the verdict says that it was edited
    have hf' : computeFingerprint rt.digest obs (resumedAction d action) = .ok fingerprint := by
      rw [resumedAction, hnone]
      exact hf
    obtain ⟨c₁, later, c', hstep, run, hcycle, hexecute, hran⟩ :=
      granted_reaches_execution d hnext hs hobs hshown hf' (isGranted_text.mpr (Or.inr hdecision))
    have hobeyed := h c₁ hstep
    simp only [Obeyed, hdecision] at hobeyed
    obtain ⟨edit, hedit, hedited⟩ := hobeyed c' ⟨later, run, hcycle⟩ hexecute
    rw [resumedAction, hnone, Option.getD_none, hedited, edit_eq_none hnone hedit] at hran
    cases hran
    obtain ⟨_, _, _, hsplit, _⟩ := computeFingerprint_ok_iff.mp hf
    exact splitColon_ne_empty hsplit rfl
  | approved =>
    simp only [Coherent, hdecision]
    intro edit hedit
    by_contra hnot
    obtain ⟨hother, hgrounded⟩ := not_or.mp hnot
    obtain ⟨f, hf'⟩ := grounded_fingerprint rt hobs hgrounded
    have hresumed : resumedAction d action = edit := by rw [resumedAction, hedit]; rfl
    rw [← hresumed] at hf'
    obtain ⟨c₁, later, c', hstep, run, hcycle, hexecute, hran⟩ :=
      granted_reaches_execution d hnext hs hobs hshown hf' (isGranted_text.mpr (Or.inl hdecision))
    have hobeyed := h c₁ hstep
    simp only [Obeyed, hdecision] at hobeyed
    rw [hobeyed c' ⟨later, run, hcycle⟩ hexecute, hresumed] at hran
    exact hother (Option.some.inj hran)
  | rejected =>
    simp only [Coherent, hdecision]
    refine edit_of_unchanged .replan hs hnext hobs hshown ?_ ?_
    · intro t ht
      rw [routeAfterApproval, ht, hdecision]
      rfl
    · intro c₁ hstep
      have hobeyed := h c₁ hstep
      simp only [Obeyed, hdecision] at hobeyed
      exact (hobeyed c₁ (InCycle.refl rt c₁)).2
  | timeout =>
    simp only [Coherent, hdecision]
    refine edit_of_unchanged .escalate hs hnext hobs hshown ?_ ?_
    · intro t ht
      rw [routeAfterApproval, ht, hdecision]
      rfl
    · intro c₁ hstep
      have hobeyed := h c₁ hstep
      simp only [Obeyed, hdecision] at hobeyed
      exact (hobeyed c₁ (InCycle.refl rt c₁)).2

end Decisions

section Runs

variable {rt : Runtime} {runId : String} {initialState : AgentState} {world : ToolContext}
variable {past : List Event} {c : Config}

/-- A suspended run shows an action to its reviewer, and honours exactly the coherent
decisions. -/
theorem honoured_iff (run : Run rt anyone runId initialState world past c)
    (hnext : c.next = some .awaitApproval) :
    ∃ payload, interruptPayload c.state = .ok payload ∧
      ∀ d, Honoured rt c payload.proposedAction d ↔ Coherent c.state payload.proposedAction d := by
  have hs := suspended_of_run run hnext
  obtain ⟨payload, hpayload, hshown⟩ := payload_of_suspended hs
  exact ⟨payload, hpayload, fun d =>
    ⟨coherent_of_honoured hs hnext hshown, honoured_of_coherent hnext hshown⟩⟩

end Runs

/-- A scaling that waits for its reviewer. -/
def scaleToApprove : List Move :=
  [.answer {}, .answer { proposal := { tool := "scale_service", target := "service_b" } },
    .answer { classification := { tier := "medium" } }, .answer {}]

def approvedRestart : DecisionRequest :=
  { decision := .approved, editedAction := some "restart_service:service_a" }

/-- The scaling is approved, and a restart of another service runs. -/
theorem approved_restart_not_honoured :
    ∃ past c payload, Run { digest := id } anyone "run-1" {} (freshSandbox []) past c ∧
      c.next = some .awaitApproval ∧ interruptPayload c.state = .ok payload ∧
      ¬ Honoured { digest := id } c payload.proposedAction approvedRestart := by
  obtain ⟨v, past, c, hplay, hcheck⟩ := endsIn_spec
    (p := fun _ _ c => decide (c.next = some .awaitApproval) &&
      c.state.proposedAction.any (·.isStr "scale_service:service_b") &&
      c.state.observations.any
        (fun obs => (relevantFields obs "restart_service" "service_a").toOption.isSome))
    (show endsIn (play { digest := id } scaleToApprove []
      (startWorkflow "run-1" {} (freshSandbox []))) _ = true by decide +kernel)
  simp only [Bool.and_eq_true, decide_eq_true_eq] at hcheck
  obtain ⟨⟨hnext, haction⟩, hgrounded⟩ := hcheck
  have run : Run { digest := id } anyone "run-1" {} (freshSandbox []) (.visit v :: past) c :=
    play_trace (by simp [Allowed, scaleToApprove]) .start hplay
  have hs := suspended_of_run run hnext
  obtain ⟨payload, hpayload, hshown⟩ := payload_of_suspended hs
  refine ⟨_, c, payload, run, hnext, hpayload, ?_⟩
  intro hhonoured
  rcases coherent_of_honoured hs hnext hshown hhonoured "restart_service:service_a" rfl with
    hsame | hungrounded
  · rw [Json.any_isStr_iff.mp haction, hsame] at hshown
    simp at hshown
  · obtain ⟨obs, hobs, hfields⟩ := (Option.any_eq_true _ _).mp hgrounded
    cases hf : relevantFields obs "restart_service" "service_a" with
    | error e =>
      rw [hf] at hfields
      cases hfields
    | ok fields => exact hungrounded obs _ _ fields hobs rfl hf

/-- Approving the scaling without an edit runs the scaling. -/
theorem plain_approval_honoured :
    ∃ past c payload, Run { digest := id } anyone "run-1" {} (freshSandbox []) past c ∧
      c.next = some .awaitApproval ∧ interruptPayload c.state = .ok payload ∧
      Honoured { digest := id } c payload.proposedAction { decision := .approved } := by
  obtain ⟨v, past, c, hplay, hcheck⟩ := endsIn_spec
    (p := fun _ _ c => decide (c.next = some .awaitApproval))
    (show endsIn (play { digest := id } scaleToApprove []
      (startWorkflow "run-1" {} (freshSandbox []))) _ = true by decide +kernel)
  have hnext := of_decide_eq_true hcheck
  have run : Run { digest := id } anyone "run-1" {} (freshSandbox []) (.visit v :: past) c :=
    play_trace (by simp [Allowed, scaleToApprove]) .start hplay
  obtain ⟨payload, hpayload, hiff⟩ := honoured_iff run hnext
  refine ⟨_, c, payload, run, hnext, hpayload, (hiff _).mpr ?_⟩
  intro edit hedit
  cases hedit

end DecisionHonoured
