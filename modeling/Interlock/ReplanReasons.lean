import Interlock.Accounting

/-!
# Explanations of a replanning

A replanning explains itself from marks in the state. The proposal of the current cycle
always writes its own mark, but a decision and a drift of an earlier cycle stay there,
and are taken for the cause when a later cycle is rolled back.
-/

namespace ReplanReasons

open Dictionary PythonValues Tools DiagnosticSweep Fingerprint Execution RunState Nodes Graph
open Transitions Walks PlanningCycle Accounting
open Suspension DriftDetection

/-- The message of the edge from the visit `u` to a replanning. -/
def edgeMessage (u : Visit) : String :=
  let action := shownText u.after.proposedAction
  match u.node with
  | .proposeAction =>
    let reason := match u.after.invalidProposalReason with
      | some (some reason) => reason
      | _ => "None"
    s!"{action} is not valid: {reason}; propose a real action instead"
  | .awaitApproval =>
    s!"a human reviewer rejected the proposed action ({action}); propose a different one"
  | .revalidate =>
    "the environment changed since " ++ action ++
      " was proposed, invalidating that diagnosis's basis"
  | _ => s!"{action} was executed and rolled back because it did not fix the problem"

/-- The state still carries a rejection or a drift. -/
def Overshadowed (s : AgentState) : Prop :=
  s.approvalDecision = some (.str "rejected") ∨ ∃ d, s.driftDetected = some d ∧ d.truthy = true

/-! ### The marks of the current cycle -/

section Marks

variable {rt : Runtime} {others : ToolContext → ToolContext → Prop} {initialState : AgentState}
variable {world w : ToolContext} {vs past : List Visit} {s : AgentState} {next : Option Node}
variable {v u : Visit}

/-- A cycle acts on a valid proposal only, and nothing in it forgets that. -/
theorem valid_while_acting (walk : Walk rt others initialState world vs s next w) {m : Node}
    (hnext : next = some m) (hm : m ∈ acting) : textTruthy s.invalidProposalReason = false := by
  induction walk generalizing m with
  | start =>
    cases hnext
    simp [acting] at hm
  | @visit past s w v next _ hbefore _ hled ih =>
    subst hnext
    rcases edge_to_acting (led_edge hled) hm with ⟨_, hvalid⟩ | hacting
    · exact hvalid
    · have hpropose : v.node ≠ .proposeAction := by
        intro h
        rw [h] at hacting
        simp [acting] at hacting
      rw [(led_marksKept hled).invalidProposalReason hpropose, hbefore]
      exact ih rfl hacting

theorem to_replan (h : LastVisit rt others initialState world vs s (some .replan) w v past) :
    (v.node = .proposeAction ∧ textTruthy v.after.invalidProposalReason = true) ∨
    (v.node = .awaitApproval ∧ ∃ d, v.after.approvalDecision = some d ∧
      d.isStr "rejected" = true) ∨
    (v.node = .revalidate ∧ ∃ d, v.after.driftDetected = some d ∧ d.truthy = true) ∨
    v.node = .rolledBack := by
  have hedge := led_edge h.led
  generalize v.node = n at hedge ⊢
  cases hedge with
  | invalid hinvalid => exact Or.inl ⟨rfl, hinvalid⟩
  | rejected hd _ hr => exact Or.inr (Or.inl ⟨rfl, _, hd, hr⟩)
  | drifted hd ht => exact Or.inr (Or.inr (Or.inl ⟨rfl, _, hd, ht⟩))
  | undone => exact Or.inr (Or.inr (Or.inr rfl))

theorem not_rejected_of_granted {d : Json} (h : isGranted d = true) :
    d.isStr "rejected" = false := by
  rw [isGranted, Bool.or_eq_true, Json.isStr_iff, Json.isStr_iff] at h
  rcases h with rfl | rfl
  · decide
  · decide

theorem to_rolledBack
    (h : LastVisit rt others initialState world vs s (some .rolledBack) w v past) :
    v.node = .rollingBack := by
  have hedge := led_edge h.led
  generalize v.node = n at hedge ⊢
  cases hedge
  rfl

/-- After a revalidation the decision in the state is the one that led to it. -/
theorem granted_at_revalidation
    (walk : Walk rt others initialState world vs s (some .revalidate) w) :
    ∃ d, s.approvalDecision = some d ∧ isGranted d = true := by
  obtain ⟨awt, past, hlast⟩ := walk_last walk (by simp)
  obtain ⟨_, _, d, hd, hgranted⟩ := to_revalidate hlast
  exact ⟨d, by rw [hlast.state_eq, hd], hgranted⟩

/-- After a rollback the state says that the verification failed. -/
theorem failed_at_rolledBack (walk : Walk rt others initialState world vs s (some .rolledBack) w) :
    s.verificationPassed = some (.bool false) := by
  obtain ⟨rb, past, hlast⟩ := walk_last walk (by simp)
  have hrb := to_rolledBack hlast
  rw [hlast.visits_eq] at walk
  obtain ⟨ver, exe, older, hpast, _, outcome, hverified, _⟩ := undone_of_walk walk hrb
  rw [hpast] at walk
  obtain ⟨hbefore, _⟩ := walk_cons_cons walk
  rw [hlast.state_eq, (led_marksKept hlast.led).verificationPassed (by simp [hrb]), hbefore,
    hverified.written]

end Marks

/-! ### What the marks are read as -/

section Read

variable {s : AgentState}

theorem replanReason_valid (h : textTruthy s.invalidProposalReason = false) :
    replanReason s = replanReason.laterReason s (shownText s.proposedAction) := by
  unfold replanReason
  cases hr : s.invalidProposalReason with
  | none => rfl
  | some reason =>
    cases reason with
    | none => rfl
    | some text =>
      rw [hr] at h
      have hempty : ¬ text ≠ "" := by simpa [textTruthy] using h
      simp only [if_neg hempty]

theorem replanReason_invalid (h : textTruthy s.invalidProposalReason = true) :
    ∃ reason, s.invalidProposalReason = some (some reason) ∧ replanReason s =
      s!"{shownText s.proposedAction} is not valid: {reason}; propose a real action instead" := by
  unfold replanReason
  cases hr : s.invalidProposalReason with
  | none => rw [hr] at h; cases h
  | some reason =>
    cases reason with
    | none => rw [hr] at h; cases h
    | some text =>
      rw [hr] at h
      have hne : text ≠ "" := by simpa [textTruthy] using h
      exact ⟨text, rfl, if_pos hne⟩

/-- Texts that end differently are different. -/
theorem append_ne_append {a b : String} {m n : Char} (ha : a.toList.getLast? = some m)
    (hb : b.toList.getLast? = some n) (hne : m ≠ n) (x y : String) : x ++ a ≠ y ++ b := by
  intro h
  have hlast := congrArg (fun t => t.toList.getLast?) h
  simp only [String.toList_append, List.getLast?_append, ha, hb, Option.some_or,
    Option.some.injEq] at hlast
  exact hne hlast

theorem rejection_ne_failure (action : String) :
    s!"a human reviewer rejected the proposed action ({action}); propose a different one" ≠
      s!"{action} was executed and rolled back because it did not fix the problem" :=
  append_ne_append (a := "); propose a different one")
    (b := " was executed and rolled back because it did not fix the problem")
    (m := 'e') (n := 'm') (by decide) (by decide) (by decide) _ _

theorem drift_ne_failure (action : String) :
    "the environment changed since " ++ action ++
        " was proposed, invalidating that diagnosis's basis" ≠
      s!"{action} was executed and rolled back because it did not fix the problem" :=
  append_ne_append (a := " was proposed, invalidating that diagnosis's basis")
    (b := " was executed and rolled back because it did not fix the problem")
    (m := 's') (n := 'm') (by decide) (by decide) (by decide) _ _

/-- A failed verification is named exactly if nothing in the state overshadows it. -/
theorem laterReason_failed_iff (hfailed : s.verificationPassed = some (.bool false))
    (action : String) :
    replanReason.laterReason s action =
        s!"{action} was executed and rolled back because it did not fix the problem" ↔
      ¬ Overshadowed s := by
  rw [replanReason.laterReason, Overshadowed]
  by_cases hrejected : s.approvalDecision.any (·.isStr "rejected") = true
  · rw [if_pos hrejected]
    rw [Json.any_isStr_iff] at hrejected
    simp only [hrejected, true_or, not_true_eq_false, iff_false]
    exact rejection_ne_failure action
  · rw [if_neg hrejected]
    rw [Json.any_isStr_iff] at hrejected
    by_cases hdrift : s.driftDetected.any Json.truthy = true
    · rw [if_pos hdrift]
      have hmark := (Option.any_eq_true _ _).mp hdrift
      refine iff_of_false (drift_ne_failure action) ?_
      exact fun h => h (Or.inr hmark)
    · rw [if_neg hdrift, hfailed]
      refine iff_of_true rfl ?_
      rintro (h | h)
      · exact hrejected h
      · exact hdrift ((Option.any_eq_true _ _).mpr h)

end Read

/-! ### Every replanning of a run -/

section Runs

variable {rt : Runtime} {others : ToolContext → ToolContext → Prop} {runId : String}
variable {initialState : AgentState} {world : ToolContext} {past : List Event} {c : Config}
variable {later older : List Visit} {rp : Visit}

/-- A replanning is explained by the edge that led to it, exactly unless the run rolled
an execution back while the state still carried a rejection or a drift. -/
theorem explanation_names_cause_iff (run : Run rt others runId initialState world past c)
    (hvs : visits past = later ++ rp :: older) (hrp : rp.node = .replan) :
    ∃ u older', older = u :: older' ∧
      (rp.after.replanContext = some (.str (edgeMessage u)) ↔
        (u.node = .rolledBack → ¬ Overshadowed rp.before)) := by
  obtain ⟨w, walk, _⟩ := run_walk run
  rw [hvs] at walk
  obtain ⟨_, _, _, hwalk⟩ := walk_split walk
  obtain ⟨_, _, hled, _, hpast, _⟩ := walk_cons hwalk
  rw [hrp] at hpast
  obtain ⟨u, older', hlast⟩ := walk_last hpast (by simp)
  obtain ⟨_, _, _, hafter⟩ := led_replan hled hrp
  have hcontext : rp.after.replanContext = some (.str (replanReason rp.before)) := by rw [hafter]
  refine ⟨u, older', hlast.visits_eq, ?_⟩
  rw [hcontext, Option.some.injEq, Json.str.injEq, hlast.state_eq]
  obtain ⟨w', hwalk', _⟩ := hlast.earlier
  rcases to_replan hlast with ⟨hu, hinvalid⟩ | ⟨hu, d, hd, hrejected⟩ | ⟨hu, d, hd, hdrift⟩ | hu
  · obtain ⟨reason, hreason, heq⟩ := replanReason_invalid hinvalid
    simp [heq, edgeMessage, hu, hreason]
  · rw [hu] at hwalk'
    have hkept := (led_marksKept hlast.led).invalidProposalReason (by simp [hu])
    have hvalid := valid_while_acting hwalk' rfl (by simp [acting])
    rw [← hkept] at hvalid
    rw [Json.isStr_iff] at hrejected
    simp [replanReason_valid hvalid, replanReason.laterReason, edgeMessage, hu, hd, hrejected,
      Json.isStr]
  · rw [hu] at hwalk'
    have hmarks := led_marksKept hlast.led
    have hvalid := valid_while_acting hwalk' rfl (by simp [acting])
    rw [← hmarks.invalidProposalReason (by simp [hu])] at hvalid
    obtain ⟨g, hg, hgranted⟩ := granted_at_revalidation hwalk'
    rw [← hmarks.approvalDecision (by simp [hu])] at hg
    have hnot := not_rejected_of_granted hgranted
    simp [replanReason_valid hvalid, replanReason.laterReason, edgeMessage, hu, hg, hnot, hd, hdrift]
  · rw [hu] at hwalk'
    have hmarks := led_marksKept hlast.led
    have hvalid := valid_while_acting hwalk' rfl (by simp [acting])
    rw [← hmarks.invalidProposalReason (by simp [hu])] at hvalid
    have hfailed := failed_at_rolledBack hwalk'
    rw [← hmarks.verificationPassed (by simp [hu])] at hfailed
    rw [replanReason_valid hvalid]
    simp only [edgeMessage, hu, true_imp_iff]
    exact laterReason_failed_iff hfailed _

end Runs

/-- A rejected scaling, then a restart that does not help. -/
def rejectedThenFailed : List Move :=
  .answer {} :: (approvedMoves "scale_service" "service_c").take 3 ++
    [.answer { decision := ({ decision := .rejected } : DecisionRequest).resume }, .answer {}] ++
    autonomousMoves "restart_service" "service_c" none ++ rollbackMoves

/-- The restart ran and was rolled back, and the reasoner is told that a reviewer had
rejected it. -/
theorem rollback_explained_as_rejection :
    ∃ past rp u older c, Run { digest := id } (fun _ _ => False) "run-1" {} leakingAndFull past c ∧
      visits past = rp :: u :: older ∧ rp.node = .replan ∧ u.node = .rolledBack ∧
      rp.after.replanContext = some (.str ("a human reviewer rejected the proposed action " ++
        "(restart_service:service_c); propose a different one")) ∧
      rp.after.replanContext ≠ some (.str (edgeMessage u)) := by
  obtain ⟨v, past, c, hplay, hcheck⟩ := endsIn_spec
    (p := fun v past _ => decide (v.node = .replan) &&
      v.after.replanContext.any (·.isStr ("a human reviewer rejected the proposed action " ++
        "(restart_service:service_c); propose a different one")) &&
      (visits past).head?.any fun u : Visit => decide (u.node = .rolledBack) &&
        !v.after.replanContext.any (·.isStr (edgeMessage u)))
    (show endsIn (play { digest := id } rejectedThenFailed []
      (startWorkflow "run-1" {} leakingAndFull)) _ = true by decide +kernel)
  simp only [Bool.and_eq_true, decide_eq_true_eq, Bool.not_eq_true', Option.any_eq_true] at hcheck
  obtain ⟨⟨hnode, hcontext⟩, u, hhead, hu, hdiffers⟩ := hcheck
  have run : Run { digest := id } (fun _ _ => False) "run-1" {} leakingAndFull (.visit v :: past) c :=
    play_trace (by simp [Allowed, rejectedThenFailed, autonomousMoves, rollbackMoves,
      approvedMoves]) .start hplay
  obtain ⟨older, holder⟩ := List.head?_eq_some_iff.mp hhead
  have hvisits : visits (.visit v :: past) = v :: u :: older := congrArg (v :: ·) holder
  rw [← Option.any_eq_true, Json.any_isStr_iff] at hcontext
  refine ⟨_, v, u, older, c, run, hvisits, hnode, hu, hcontext, ?_⟩
  intro hsame
  rw [Json.any_isStr_iff.mpr hsame] at hdiffers
  cases hdiffers

/-- Without an earlier cycle the failed restart is named. -/
theorem first_failure_explained :
    ∃ past rp u older c, Run { digest := id } (fun _ _ => False) "run-1" {} leakingAndFull past c ∧
      visits past = rp :: u :: older ∧ u.node = .rolledBack ∧
      rp.after.replanContext = some (.str (edgeMessage u)) := by
  obtain ⟨v, past, c, hplay, hcheck⟩ := endsIn_spec
    (p := fun v past _ => decide (v.node = .replan) && v.before.approvalDecision.isNone &&
      v.before.driftDetected.isNone &&
      (visits past).head?.any fun u : Visit => decide (u.node = .rolledBack))
    (show endsIn (play { digest := id } (.answer {} ::
      autonomousMoves "restart_service" "service_c" none ++ rollbackMoves) []
      (startWorkflow "run-1" {} leakingAndFull)) _ = true by decide +kernel)
  simp only [Bool.and_eq_true, decide_eq_true_eq, Option.isNone_iff_eq_none,
    Option.any_eq_true] at hcheck
  obtain ⟨⟨⟨hnode, hdecision⟩, hdrift⟩, u, hhead, hu⟩ := hcheck
  have run : Run { digest := id } (fun _ _ => False) "run-1" {} leakingAndFull (.visit v :: past) c :=
    play_trace (by simp [Allowed, autonomousMoves, rollbackMoves]) .start hplay
  obtain ⟨older, holder⟩ := List.head?_eq_some_iff.mp hhead
  have hvisits : visits (.visit v :: past) = [] ++ v :: u :: older := congrArg (v :: ·) holder
  obtain ⟨u', older', hcons, hiff⟩ := explanation_names_cause_iff run hvisits hnode
  cases hcons
  refine ⟨_, v, u, older, c, run, hvisits, hu, hiff.mpr ?_⟩
  rintro _ (hrejected | ⟨d, hd, _⟩)
  · rw [hdecision] at hrejected
    cases hrejected
  · rw [hdrift] at hd
    cases hd

end ReplanReasons
