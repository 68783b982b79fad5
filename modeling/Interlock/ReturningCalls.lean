import Interlock.Crashes

/-!
# Calls that return

A call of the graph visits node after node until the run waits for its reviewer or has
ended. Every visit leaves less ahead of it, so a call that nothing raises in comes to
its end.
-/

namespace ReturningCalls

open Dictionary PythonValues MockService Tools DiagnosticSweep Fingerprint Execution RunState Nodes
open Graph Transitions Walks PlanningCycle Anchoring Suspension EditedActions SoundRuns Crashes

/-- What a call meets: the answers to its visits, and what others do before each of them. They
leave services and a ledger that answer. -/
structure Course where
  answers : ℕ → Answers
  others : ℕ → ToolContext → ToolContext
  answering : ∀ n w, Answering w → Answering (others n w)

namespace Course

/-- The run at its visit `n`, after the others. -/
def met (k : Course) (n : ℕ) (c : Config) : Config := { c with world := k.others n c.world }

/-- A call from `c` on, after at most `n` visits; it stops before the reviewer and at the end. -/
def call (k : Course) (rt : Runtime) (c : Config) : ℕ → Except PyError Config
  | 0 => .ok c
  | n + 1 => do
    let b ← call k rt c n
    if b.next = some .awaitApproval ∨ b.next = none then return b
    else (step rt (k.answers n) (k.met n b)).1

end Course

/-- The run waits for its reviewer, or is completed or escalated. -/
def Settled (c : Config) : Prop :=
  c.next = some .awaitApproval ∨ c.next = none ∧
    (c.state.finalState = some (.str State.completed.value) ∨
      c.state.finalState = some (.str State.escalated.value))

/-- The call from `c` on returns, with a run that has settled. -/
def Returns (rt : Runtime) (k : Course) (c : Config) : Prop :=
  ∃ n b, k.call rt c n = .ok b ∧ Settled b

/-- No visit of the call is one of those that raise. -/
def Unharmed (rt : Runtime) (k : Course) (c : Config) : Prop :=
  ∀ n b, k.call rt c n = .ok b → ¬ Crashing (k.met n b)

/-- How many nodes are still ahead in a cycle, at most. -/
def rank : Node → Nat
  | .diagnose => 14
  | .proposeAction => 13
  | .classifyRisk => 12
  | .markAwaitingApproval => 11
  | .awaitApproval => 10
  | .revalidate => 9
  | .prepareExecution => 8
  | .execute => 7
  | .verify => 6
  | .rollingBack => 5
  | .rolledBack => 4
  | .replan => 3
  | .escalate => 2
  | .completed => 1

def cyclesOf (s : AgentState) : Int :=
  match s.replanCycles with
  | some (.int n) => n
  | _ => 0

/-- The cycles that are left weigh more than the nodes of one. -/
def remaining (s : AgentState) (next : Option Node) : Nat :=
  15 * (maxReplanCycles - cyclesOf s).toNat + (next.map rank).getD 0

theorem rank_edge {rt : Runtime} {s : AgentState} {node : Node} {next : Option Node}
    (h : Edge rt s node next) (hreplan : node ≠ .replan) : (next.map rank).getD 0 < rank node := by
  cases h with
  | replanned _ _ | exhausted _ _ => exact absurd rfl hreplan
  | _ => decide

theorem remaining_visit {rt : Runtime} {v : Visit} {next : Option Node} (hled : v.Led rt next)
    (hcycles : v.before.replanCycles = none ∨ ∃ n, v.before.replanCycles = some (.int n)) :
    remaining v.after next < remaining v.before (some v.node) := by
  have hedge := led_edge hled
  by_cases hreplan : v.node = .replan
  · obtain ⟨_, cycles, hcount, hafter⟩ := led_replan hled hreplan
    have hnext : cycles = .int (cyclesOf v.before + 1) := by
      rcases hcycles with hnone | ⟨n, hn⟩
      · rw [hnone] at hcount
        cases hcount
        simp [cyclesOf, hnone]
      · rw [hn] at hcount
        cases hcount
        simp [cyclesOf, hn]
    have hcycled : v.after.replanCycles = some (.int (cyclesOf v.before + 1)) := by
      rw [hafter, hnext]
    have hcounted : cyclesOf v.after = cyclesOf v.before + 1 := by simp [cyclesOf, hcycled]
    rw [hreplan] at hedge ⊢
    cases hedge with
    | replanned hc hleft =>
      rw [hcycled] at hc
      cases hc
      have hbelow : ¬ maxReplanCycles ≤ cyclesOf v.before + 1 := of_decide_eq_false (Except.ok.inj hleft)
      simp only [remaining, hcounted, Option.map_some, Option.getD_some, rank]
      omega
    | exhausted hc _ =>
      simp only [remaining, hcounted, Option.map_some, Option.getD_some, rank]
      omega
  · have hrank := rank_edge hedge hreplan
    have hcounted : cyclesOf v.after = cyclesOf v.before := by
      rw [cyclesOf, (led_marksKept hled).replanCycles hreplan, cyclesOf]
    simp only [remaining, hcounted, Option.map_some, Option.getD_some] at hrank ⊢
    omega

section Calls

variable {rt : Runtime} {k : Course} {b c : Config} {n m : ℕ} {node : Node}

/-- One more visit of a call. -/
theorem call_visit (h : k.call rt c n = .ok b) (hnext : b.next = some node)
    (hawait : node ≠ .awaitApproval) :
    k.call rt c (n + 1) = (step rt (k.answers n) (k.met n b)).1 := by
  have hgoes : ¬ (b.next = some .awaitApproval ∨ b.next = none) := by
    rw [hnext]
    simpa using hawait
  rw [Course.call, h]
  exact if_neg hgoes

/-- A call that has stopped stays where it is. -/
theorem call_stopped (h : k.call rt c n = .ok b)
    (hstopped : b.next = some .awaitApproval ∨ b.next = none) (hle : n ≤ m) :
    k.call rt c m = .ok b := by
  induction hle with
  | refl => exact h
  | step _ ih =>
    rw [Course.call, ih]
    exact if_pos hstopped

/-- A call that has raised does not return. -/
theorem call_raised {e : PyError} (h : k.call rt c n = .error e) (hle : n ≤ m) :
    k.call rt c m = .error e := by
  induction hle with
  | refl => exact h
  | step _ ih =>
    rw [Course.call, ih]
    rfl

theorem Settled.stopped (h : Settled b) : b.next = some .awaitApproval ∨ b.next = none :=
  h.imp_right And.left

theorem not_returns_of_raised {e : PyError} (h : k.call rt c n = .error e) :
    ¬ Returns rt k c := by
  rintro ⟨m, b, hb, hsettled⟩
  rcases le_total m n with hle | hle
  · rw [call_stopped hb hsettled.stopped hle] at h
    cases h
  · rw [call_raised h hle] at hb
    cases hb

/-- A call keeps a run sound. -/
theorem sound_call (hs : Sound c.state c.next) (hw : Answering c.world)
    (h : k.call rt c n = .ok b) : Sound b.state b.next ∧ Answering b.world := by
  induction n generalizing b with
  | zero =>
    cases h
    exact ⟨hs, hw⟩
  | succ n ih =>
    obtain ⟨a, ha, hstep⟩ := except_bind_ok_iff.mp h
    obtain ⟨hsound, hanswers⟩ := ih ha
    cases hnext : a.next with
    | none =>
      rw [if_pos (Or.inr hnext)] at hstep
      cases hstep
      exact ⟨hsound, hanswers⟩
    | some node =>
      by_cases hawait : node = .awaitApproval
      · rw [if_pos (Or.inl (by rw [hnext, hawait]))] at hstep
        cases hstep
        exact ⟨hsound, hanswers⟩
      · rw [← call_visit ha hnext hawait, h] at hstep
        have hled := step_ok (c := k.met n a) hnext (call_visit ha hnext hawait ▸ h)
        rw [hnext] at hsound
        have hmet := k.answering n _ hanswers
        exact ⟨sound_visit hled (fun hreviewed => absurd hreviewed hawait) hsound hmet,
          answering_visit hled hsound hmet⟩

/-- A visit that crashes makes the call raise. -/
theorem not_returns_of_crashing (hs : Sound c.state c.next) (hw : Answering c.world)
    (h : k.call rt c n = .ok b) (hcrash : Crashing (k.met n b)) : ¬ Returns rt k c := by
  obtain ⟨hsound, hanswers⟩ := sound_call hs hw h
  have hgoes : ∃ node, b.next = some node ∧ node ≠ .awaitApproval := by
    rcases hcrash with ⟨hexecute, _⟩ | ⟨hrolling, _⟩
    · exact ⟨.execute, hexecute, by decide⟩
    · exact ⟨.rollingBack, hrolling, by decide⟩
  obtain ⟨node, hnext, hawait⟩ := hgoes
  have hreturns : (∃ c', (step rt (k.answers n) (k.met n b)).1 = .ok c') ↔
      ¬ Crashing (k.met n b) :=
    visit_returns_iff (k.answers n) hnext hawait hsound (k.answering n _ hanswers)
  cases hstep : (step rt (k.answers n) (k.met n b)).1 with
  | error e => exact not_returns_of_raised ((call_visit h hnext hawait).trans hstep)
  | ok c' => exact absurd hcrash (hreturns.mp ⟨c', hstep⟩)

/-- By induction on what is left of the call: it returns from every visit that does not
crash, to a state with less left. -/
theorem returns_of_unharmed (hs : Sound c.state c.next) (hw : Answering c.world)
    (hunharmed : Unharmed rt k c) (h : k.call rt c n = .ok b) : Returns rt k c := by
  generalize hleft : remaining b.state b.next = left
  induction left using Nat.strong_induction_on generalizing n b with
  | h left ih =>
    obtain ⟨hsound, hanswers⟩ := sound_call hs hw h
    cases hnext : b.next with
    | none => exact ⟨n, b, h, Or.inr ⟨hnext, hsound.ended hnext⟩⟩
    | some node =>
      by_cases hawait : node = .awaitApproval
      · exact ⟨n, b, h, Or.inl (by rw [hnext, hawait])⟩
      · obtain ⟨c', hstep⟩ := (visit_returns_iff (c := k.met n b) (k.answers n) hnext hawait
          hsound (k.answering n _ hanswers)).mpr (hunharmed n b h)
        have hless : remaining c'.state c'.next < left := by
          rw [← hleft, hnext]
          exact remaining_visit (step_ok (c := k.met n b) hnext hstep) hsound.cycles
        exact ih _ hless ((call_visit h hnext hawait).trans hstep) rfl

theorem returns_iff (hs : Sound c.state c.next) (hw : Answering c.world) :
    Returns rt k c ↔ Unharmed rt k c :=
  ⟨fun h _ _ hb hcrash => not_returns_of_crashing hs hw hb hcrash h,
    fun h => returns_of_unharmed hs hw h (n := 0) rfl⟩

end Calls

section Runs

variable {rt : Runtime} {runId : String} {initialState : AgentState} {world : ToolContext}
variable {past : List Event} {c : Config}

/-- In a run without edits, a call from any state on, whatever it meets, returns with a run
that has settled if and only if none of its visits is one of those that raise; and resuming a
run that waits with an unedited decision returns, into such a call. -/
theorem calls_return_iff (hinitial : WellTyped initialState) (hworld : Answering world)
    (run : Run rt answering runId initialState world past c)
    (hunedited : ∀ v ∈ visits past, Unedited v) :
    (∀ k, Returns rt k c ↔ Unharmed rt k c) ∧
      (c.next = some .awaitApproval → ∀ d : DecisionRequest, d.edit = none →
        ∃ c₁, (step rt { decision := d.resume } c).1 = .ok c₁ ∧
          ∀ k, Returns rt k c₁ ↔ Unharmed rt k c₁) := by
  obtain ⟨hsound, hanswers⟩ := sound_run hinitial hworld run hunedited
  refine ⟨fun _ => returns_iff hsound hanswers, ?_⟩
  intro hnext d hedit
  have hs := suspended_of_run run hnext
  obtain ⟨obs, shown, f, hobs, hshown, hf, _⟩ := hs.anchored
  have hresumed : resumedAction d shown = shown := by rw [resumedAction, hedit]; rfl
  obtain ⟨next, hroute⟩ := route_of_verdict rt d.decision
  obtain ⟨c₁, hstep, _⟩ := resume_step d hnext hs hobs hshown (by rw [hresumed]; exact hf) hroute
  have resumed : Run rt answering runId initialState world _ c₁ := run.snoc (Step.visit hnext hstep)
  obtain ⟨hsound₁, hanswers₁⟩ := sound_run hinitial hworld resumed (by
    intro v hv
    rcases List.mem_cons.mp hv with rfl | hv
    · intro _
      rw [resume_edit, hedit]
    · exact hunedited v hv)
  exact ⟨c₁, hstep, fun _ => returns_iff hsound₁ hanswers₁⟩

end Runs

theorem wellTyped_empty : WellTyped {} :=
  ⟨Or.inl rfl, isText_none, isText_none, isText_none, isText_none, Or.inl rfl⟩

/-- Everyone else leaves the sandbox alone, and every visit is answered alike. -/
def uniform (answers : Answers) : Course where
  answers := fun _ => answers
  others := fun _ w => w
  answering := fun _ _ h => h

/-- The reasoner's parameters decode to a list, and the execution asks it for `replicas`. -/
def listed : Course := uniform {
  proposal := { tool := "scale_service", target := "service_b", parameters := some (.arr [.int 3]) }
  classification := { tier := "low" } }

theorem list_parameters_crash :
    (∃ e, listed.call { digest := id } (startWorkflow "run-1" {} (freshSandbox [])) 5 =
        .error e) ∧
      ¬ Returns { digest := id } listed (startWorkflow "run-1" {} (freshSandbox [])) := by
  have hnone : (listed.call { digest := id } (startWorkflow "run-1" {} (freshSandbox []))
      5).toOption.isNone = true := by decide +kernel
  cases hcall : listed.call { digest := id } (startWorkflow "run-1" {} (freshSandbox [])) 5 with
  | ok b =>
    rw [hcall] at hnone
    cases hnone
  | error e => exact ⟨⟨e, rfl⟩, not_returns_of_raised hcall⟩

/-- A suspended scaling is approved and completes, so that nothing in this call crashes. -/
theorem approval_returns :
    ∃ past c c₁, Run { digest := id } answering "run-1" {} (freshSandbox []) past c ∧
      (step { digest := id } { decision := ({ decision := .approved } : DecisionRequest).resume }
        c).1 = .ok c₁ ∧
      Returns { digest := id } (uniform {}) c₁ ∧ Unharmed { digest := id } (uniform {}) c₁ := by
  obtain ⟨v, past, c, hplay, hcheck⟩ := endsIn_spec
    (p := fun v past c => decide (c.next = some .awaitApproval) &&
      (visits (.visit v :: past)).all (fun u => decide (u.node ≠ .awaitApproval)) &&
      (step { digest := id } { decision := ({ decision := .approved } : DecisionRequest).resume }
        c).1.toOption.any (fun c₁ : Config =>
          ((uniform {}).call { digest := id } c₁ 5).toOption.any (fun b : Config =>
            decide (b.next = none) &&
              b.state.finalState.any (·.isStr State.completed.value))))
    (show endsIn (play { digest := id } DecisionHonoured.scaleToApprove []
      (startWorkflow "run-1" {} (freshSandbox []))) _ = true by decide +kernel)
  simp only [Bool.and_eq_true, decide_eq_true_eq, List.all_eq_true] at hcheck
  obtain ⟨⟨hnext, hpast⟩, hcompletes⟩ := hcheck
  have run : Run { digest := id } answering "run-1" {} (freshSandbox []) (.visit v :: past) c :=
    play_trace (by simp [Allowed, DecisionHonoured.scaleToApprove]) .start hplay
  obtain ⟨_, hresumes⟩ := calls_return_iff wellTyped_empty answering_freshSandbox run
    (fun u hu hawait => absurd hawait (hpast u hu))
  obtain ⟨c₁, hstep, hiff⟩ := hresumes hnext { decision := .approved } rfl
  obtain ⟨c₂, hc₂, hends⟩ := (Option.any_eq_true _ _).mp hcompletes
  rw [hstep] at hc₂
  cases hc₂
  obtain ⟨b, hb, hended⟩ := (Option.any_eq_true _ _).mp hends
  rw [Bool.and_eq_true, decide_eq_true_eq, Json.any_isStr_iff] at hended
  have hreturns : Returns { digest := id } (uniform {}) c₁ :=
    ⟨5, b, eq_ok_of_toOption hb, Or.inr ⟨hended.1, Or.inl hended.2⟩⟩
  exact ⟨_, c, c₁, run, hstep, hreturns, (hiff _).mp hreturns⟩

end ReturningCalls
