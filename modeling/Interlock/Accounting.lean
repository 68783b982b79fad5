import Interlock.DriftDetection

/-!
# Executions and their rollbacks

Every rollback settles the execution two visits before it. So a run never has more than
one execution unsettled, none while it waits for an approval, and ends with one exactly
if the last verification passed.
-/

namespace Accounting

open Dictionary PythonValues Tools Execution RunState Nodes Graph Transitions Walks PlanningCycle
open DriftDetection (leakingAndFull)

/-! ### Settling an execution -/

/-- `ver` asked whether what `exe` executed has worked, and was answered `passed`. -/
structure Verified (exe ver : Visit) (outcome : Outcome) (passed : Bool) : Prop where
  execute : exe.node = .execute
  verify : ver.node = .verify
  answered : ∃ action key, exe.before.proposedAction = some (.str action) ∧
    exe.before.idempotencyKey = some (.str key) ∧
    (executeAction action (parametersOf exe.before) key).run exe.worldBefore =
      (.ok outcome, exe.worldAfter) ∧
    verifyAction ver.worldBefore action outcome.result = .ok passed
  written : ver.after.verificationPassed = some (.bool passed)

/-- `rb` applied the compensation that `exe` returned, after `ver` had answered false. -/
def Undoes (rb ver exe : Visit) : Prop :=
  rb.node = .rollingBack ∧ ∃ outcome, Verified exe ver outcome false ∧
    ∃ result, (applyCompensation outcome.compensation).run rb.worldBefore =
      (.ok result, rb.worldAfter)

/-- The last verification passed, for the last executed action. -/
def LastPassed (vs : List Visit) : Prop :=
  ∃ later ver exe older outcome, vs = later ++ ver :: exe :: older ∧
    Verified exe ver outcome true ∧ ∀ v ∈ later, v.node ≠ .execute ∧ v.node ≠ .verify

def visitsTo (node : Node) (vs : List Visit) : Nat := vs.countP fun v => decide (v.node = node)

theorem visitsTo_cons (node : Node) (v : Visit) (vs : List Visit) :
    visitsTo node (v :: vs) = visitsTo node vs + if v.node = node then 1 else 0 := by
  simp [visitsTo, List.countP_cons]

/-- The books of a run that stands in `c` after the visits `vs`. -/
structure Accounted (vs : List Visit) (c : Config) : Prop where
  rollbacks : ∀ later rb older, vs = later ++ rb :: older → rb.node = .rollingBack →
    ∃ ver exe older', older = ver :: exe :: older' ∧ Undoes rb ver exe
  suspended : c.next = some .awaitApproval →
    ∀ later exe older, vs = later ++ exe :: older → exe.node = .execute →
      ∃ later' rb ver, later = later' ++ [rb, ver] ∧ Undoes rb ver exe
  ended : c.next = none → c.state.status = c.state.finalState ∧
    ((c.state.finalState = some (.str State.completed.value) ∧ LastPassed vs ∧
        visitsTo .execute vs = visitsTo .rollingBack vs + 1) ∨
      (c.state.finalState = some (.str State.escalated.value) ∧ ¬ LastPassed vs ∧
        visitsTo .execute vs = visitsTo .rollingBack vs))

section Settled

variable {rt : Runtime} {others : ToolContext → ToolContext → Prop} {initialState : AgentState}
variable {world w : ToolContext} {vs past : List Visit} {s : AgentState} {next : Option Node}
variable {v rb ver : Visit}

/-- A verification is of the execution that the run made just before it. -/
theorem verified_of_walk (walk : Walk rt others initialState world (ver :: past) s next w)
    (hver : ver.node = .verify) :
    ∃ exe older outcome passed, past = exe :: older ∧ Verified exe ver outcome passed ∧
      ver.after.compensation = some outcome.compensation := by
  obtain ⟨_, _, hled, u, hwalk, _⟩ := walk_cons walk
  rw [hver] at hwalk
  obtain ⟨exe, older, hlast⟩ := walk_last hwalk (by simp)
  have hexe := to_verify hlast
  obtain ⟨action, key, outcome, haction, hkey, hrun, hafter⟩ := led_execute hlast.led hexe
  obtain ⟨_, action', result, passed, haction', hresult, hpassed, hverified⟩ := led_verify hled hver
  rw [hlast.state_eq, hafter] at haction' hresult
  have hsame := Option.some.inj (haction.symm.trans haction')
  cases hsame
  have hanswer := Option.some.inj hresult
  subst hanswer
  have hwritten : ver.after.verificationPassed = some (.bool passed) := by rw [hverified]
  refine ⟨exe, older, outcome, passed, hlast.visits_eq,
    ⟨hexe, hver, ⟨action, key, haction, hkey, hrun, hpassed⟩, hwritten⟩, ?_⟩
  rw [hverified, hlast.state_eq, hafter]

/-- A rollback undoes the execution that the verification before it was about. -/
theorem undone_of_walk (walk : Walk rt others initialState world (rb :: past) s next w)
    (hrb : rb.node = .rollingBack) :
    ∃ ver exe older, past = ver :: exe :: older ∧ Undoes rb ver exe := by
  obtain ⟨_, _, hled, u, hwalk, _⟩ := walk_cons walk
  rw [hrb] at hwalk
  obtain ⟨ver, older, hlast⟩ := walk_last hwalk (by simp)
  obtain ⟨hver, d, hd, hfalse⟩ := to_rollingBack hlast
  rw [hlast.visits_eq] at hwalk
  obtain ⟨exe, older', outcome, passed, holder, hverified, hcompensation⟩ :=
    verified_of_walk hwalk hver
  obtain ⟨compensation, result, hc, hrun, _⟩ := led_rollingBack hled hrb
  rw [hlast.state_eq, hcompensation] at hc
  cases hc
  rw [hverified.written] at hd
  cases hd
  have hnot : passed = false := hfalse
  subst hnot
  exact ⟨ver, exe, older', by rw [hlast.visits_eq, holder], hrb, outcome, hverified, result, hrun⟩

/-- After an execution a walk verifies it, then completes or rolls it back. -/
theorem settled_of_walk {later : List Visit} {exe : Visit} {older : List Visit}
    (walk : Walk rt others initialState world (later ++ exe :: older) s next w)
    (hexe : exe.node = .execute) (hverify : next ≠ some .verify)
    (hrolling : next ≠ some .rollingBack) (hcompleted : next ≠ some .completed) :
    ∃ later' u ver, later = later' ++ [u, ver] ∧ ver.node = .verify ∧
      (u.node = .completed ∨ u.node = .rollingBack) := by
  rcases walk_successor walk with ⟨_, hled⟩ | ⟨later₁, ver, rfl, hled⟩
  · have hedge := led_edge hled
    rw [hexe] at hedge
    cases hedge
    exact absurd rfl hverify
  · have hver : ver.node = .verify := by
      have hedge := led_edge hled
      rw [hexe] at hedge
      generalize ver.node = n at hedge ⊢
      cases hedge
      rfl
    rw [List.append_assoc, List.singleton_append] at walk
    rcases walk_successor walk with ⟨_, hled⟩ | ⟨later₂, u, rfl, hled⟩
    · have hedge := led_edge hled
      rw [hver] at hedge
      cases hedge with
      | verified _ _ => exact absurd rfl hcompleted
      | failed _ _ => exact absurd rfl hrolling
    · refine ⟨later₂, u, ver, by simp, hver, ?_⟩
      have hedge := led_edge hled
      rw [hver] at hedge
      generalize u.node = n at hedge ⊢
      cases hedge with
      | verified _ _ => exact Or.inl rfl
      | failed _ _ => exact Or.inr rfl

/-- Nothing follows a completion. -/
theorem ended_of_completed {later older : List Visit}
    (walk : Walk rt others initialState world (later ++ v :: older) s next w)
    (hv : v.node = .completed) : later = [] ∧ next = none := by
  rcases walk_successor walk with ⟨hnil, hled⟩ | ⟨_, u, _, hled⟩
  · refine ⟨hnil, ?_⟩
    have hedge := led_edge hled
    rw [hv] at hedge
    cases hedge
    rfl
  · have hedge := led_edge hled
    rw [hv] at hedge
    cases hedge

/-- A verification that passed completes the run. -/
theorem completed_of_passed {later older : List Visit} {exe : Visit} {outcome : Outcome}
    (walk : Walk rt others initialState world (later ++ ver :: older) s none w)
    (h : Verified exe ver outcome true) : ∃ u, later = [u] ∧ u.node = .completed := by
  rcases walk_successor walk with ⟨_, hled⟩ | ⟨later', u, rfl, hled⟩
  · have hedge := led_edge hled
    rw [h.verify] at hedge
    cases hedge
  · have hu : u.node = .completed := by
      have hedge := led_edge hled
      rw [h.verify] at hedge
      generalize u.node = n at hedge ⊢
      cases hedge with
      | verified _ _ => rfl
      | failed hd hfalse =>
        rw [h.written] at hd
        cases hd
        cases hfalse
    rw [List.append_assoc, List.singleton_append] at walk
    obtain ⟨rfl, _⟩ := ended_of_completed walk hu
    exact ⟨u, rfl, hu⟩

end Settled

/-! ### The balance -/

/-- Executions that no rollback has settled, by where the run goes next. -/
def unsettled : Option Node → Nat
  | some .verify | some .rollingBack | some .completed => 1
  | _ => 0

section Balance

variable {rt : Runtime} {others : ToolContext → ToolContext → Prop} {initialState : AgentState}
variable {world w : ToolContext} {vs : List Visit} {s : AgentState} {next : Option Node}

/-- One edge moves the balance by what its node does. -/
theorem unsettled_edge {node : Node} (h : Edge rt s node next) (hnext : next ≠ none) :
    unsettled (some node) + (if node = .execute then 1 else 0) =
      unsettled next + if node = .rollingBack then 1 else 0 := by
  cases h with
  | completed | escalated => exact absurd rfl hnext
  | _ => rfl

theorem balance (walk : Walk rt others initialState world vs s next w) (hnext : next ≠ none) :
    visitsTo .execute vs = visitsTo .rollingBack vs + unsettled next := by
  induction walk with
  | start => rfl
  | visit _ _ _ hled ih =>
    have hpast := ih (by simp)
    have hedge := unsettled_edge (led_edge hled) hnext
    rw [visitsTo_cons, visitsTo_cons]
    omega

/-- The books of a run that has ended. -/
theorem balance_at_end (walk : Walk rt others initialState world vs s none w) :
    s.status = s.finalState ∧
      ((s.finalState = some (.str State.completed.value) ∧ LastPassed vs ∧
          visitsTo .execute vs = visitsTo .rollingBack vs + 1) ∨
        (s.finalState = some (.str State.escalated.value) ∧ ¬ LastPassed vs ∧
          visitsTo .execute vs = visitsTo .rollingBack vs)) := by
  obtain ⟨v, past, hv⟩ := walk_last walk (by simp)
  obtain ⟨u, hwalk, _⟩ := hv.earlier
  have hcount := balance hwalk (by simp)
  rcases to_end hv with hcompleted | hescalate
  · rw [hcompleted] at hwalk hcount
    obtain ⟨ver, older, hver⟩ := walk_last hwalk (by simp)
    obtain ⟨hverify, d, hd, htrue⟩ := to_completed hver
    rw [hver.visits_eq] at hwalk
    obtain ⟨exe, older', outcome, passed, holder, hverified, _⟩ := verified_of_walk hwalk hverify
    rw [hverified.written] at hd
    cases hd
    have hyes : passed = true := htrue
    subst hyes
    obtain ⟨_, hafter⟩ := led_completed hv.led hcompleted
    refine ⟨by rw [hv.state_eq, hafter], Or.inl ⟨by rw [hv.state_eq, hafter], ?_, ?_⟩⟩
    · refine ⟨[v], ver, exe, older', outcome, ?_, hverified, ?_⟩
      · rw [hv.visits_eq, hver.visits_eq, holder]
        rfl
      · intro x hx
        rw [List.mem_singleton.mp hx, hcompleted]
        exact ⟨by decide, by decide⟩
    · rw [hv.visits_eq, visitsTo_cons, visitsTo_cons, hcompleted]
      simpa [unsettled] using hcount
  · obtain ⟨_, hafter⟩ := led_escalate hv.led hescalate
    refine ⟨by rw [hv.state_eq, hafter], Or.inr ⟨by rw [hv.state_eq, hafter], ?_, ?_⟩⟩
    · rintro ⟨later, ver, exe, older, outcome, hvs, hverified, _⟩
      rw [hvs] at walk
      obtain ⟨u, rfl, hu⟩ := completed_of_passed walk hverified
      rw [hv.visits_eq] at hvs
      obtain ⟨rfl, _⟩ := List.cons.inj hvs
      rw [hescalate] at hu
      cases hu
    · rw [hescalate] at hcount
      rw [hv.visits_eq, visitsTo_cons, visitsTo_cons, hescalate]
      simpa [unsettled] using hcount

end Balance

/-! ### Whole runs -/

section Runs

variable {rt : Runtime} {others : ToolContext → ToolContext → Prop} {runId : String}
variable {initialState : AgentState} {world : ToolContext} {past : List Event} {c : Config}

/-- Every rollback undoes the execution just before it, every execution before a
suspension has been undone, and the run ends with one execution that stays exactly if
the last verification passed. -/
theorem executions_accounted (run : Run rt others runId initialState world past c) :
    Accounted (visits past) c := by
  obtain ⟨w, walk, _⟩ := run_walk run
  refine ⟨?_, ?_, ?_⟩
  · intro later rb older hvs hrb
    rw [hvs] at walk
    obtain ⟨_, _, _, hwalk⟩ := walk_split walk
    exact undone_of_walk hwalk hrb
  · intro hnext later exe older hvs hexe
    rw [hvs, hnext] at walk
    obtain ⟨later', u, ver, rfl, hver, hu⟩ :=
      settled_of_walk walk hexe (by simp) (by simp) (by simp)
    rw [List.append_assoc, List.cons_append, List.singleton_append] at walk
    have hrb : u.node = .rollingBack := by
      rcases hu with hcompleted | hrb
      · cases (ended_of_completed walk hcompleted).2
      · exact hrb
    obtain ⟨_, _, _, hwalk⟩ := walk_split walk
    obtain ⟨ver', exe', older', hpast, hundoes⟩ := undone_of_walk hwalk hrb
    cases hpast
    exact ⟨later', u, ver, rfl, hundoes⟩
  · intro hnext
    rw [hnext] at walk
    exact balance_at_end walk

end Runs

/-- The first action fails and is rolled back, the second one works. -/
def restartThenClear : List Move :=
  .answer {} :: autonomousMoves "restart_service" "service_c" none ++ rollbackMoves ++
    autonomousMoves "clear_cache" "service_c" none ++ [.answer {}, .answer {}]

theorem restart_then_clear_accounted :
    ∃ past c, Run { digest := id } (fun _ _ => False) "run-1" {} leakingAndFull past c ∧
      c.next = none ∧ c.state.finalState = some (.str "COMPLETED") ∧
      visitsTo .execute (visits past) = 2 ∧ visitsTo .rollingBack (visits past) = 1 ∧
      Accounted (visits past) c := by
  obtain ⟨v, past, c, hplay, hcheck⟩ := endsIn_spec
    (p := fun v past c => decide (c.next = none) &&
      c.state.finalState.any (·.isStr "COMPLETED") &&
      decide (visitsTo .execute (visits (.visit v :: past)) = 2) &&
      decide (visitsTo .rollingBack (visits (.visit v :: past)) = 1))
    (show endsIn (play { digest := id } restartThenClear []
      (startWorkflow "run-1" {} leakingAndFull)) _ = true by decide +kernel)
  simp only [Bool.and_eq_true, decide_eq_true_eq] at hcheck
  obtain ⟨⟨⟨hnext, hfinal⟩, hexecuted⟩, hrolled⟩ := hcheck
  have run : Run { digest := id } (fun _ _ => False) "run-1" {} leakingAndFull (.visit v :: past) c :=
    play_trace (by simp [Allowed, restartThenClear, autonomousMoves, rollbackMoves]) .start hplay
  exact ⟨_, c, run, hnext, Json.any_isStr_iff.mp hfinal, hexecuted, hrolled,
    executions_accounted run⟩

end Accounting
