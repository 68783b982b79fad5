import Interlock.PlanningCycle

/-!
# The approval gate

Every execution comes out of a planning cycle that either classified exactly
the executed action as low, or was granted by its reviewer.
-/

namespace ApprovalGate

open Dictionary PythonValues Tools DiagnosticSweep Fingerprint RiskPolicy Execution RunState Nodes
open Graph Transitions Walks PlanningCycle Relation

/-- The reviewer's value of a visit to `await_approval` is `approved` or `edited`. -/
def Granted (v : Visit) : Prop :=
  ∃ d, v.answers.decision.getItem "decision" = .ok d ∧ (d = .str "approved" ∨ d = .str "edited")

theorem isGranted_iff {d : Json} :
    isGranted d = true ↔ d = .str "approved" ∨ d = .str "edited" := by
  simp [isGranted, Json.isStr_iff]

/-- What the router reads after `await_approval` is the reviewer's value. -/
theorem granted_of_after {rt : Runtime} {v : Visit} {next : Option Node} {d : Json}
    (hled : v.Led rt next) (hnode : v.node = .awaitApproval)
    (hd : v.after.approvalDecision = some d) (h : isGranted d = true) : Granted v := by
  obtain ⟨_, decided, _, _, hdecided, _, hcases⟩ := led_awaitApproval hled hnode
  have hafter : v.after.approvalDecision = some decided := by
    rcases hcases with ⟨_, hafter⟩ | ⟨_, _, _, _, _, _, hafter⟩
    · rw [hafter]
    · rw [hafter]
  rw [hd] at hafter
  cases hafter
  exact ⟨d, hdecided, isGranted_iff.mp h⟩

/-- `classify_risk` gave this action the final tier low, and its tool is none of
those that are always high. -/
def ClassifiedLow (k : Visit) (action : String) : Prop :=
  k.node = .classifyRisk ∧ k.before.proposedAction = some (.str action) ∧
    k.after.riskTierFinal = some (.str "low") ∧
    ∃ tool target, splitColon action = .ok (tool, target) ∧ tool ≠ "delete_records" ∧
      tool ≠ "rollback_deployment"

theorem classifiedLow_of_after {rt : Runtime} {k : Visit} {next : Option Node}
    (hled : k.Led rt next) (hnode : k.node = .classifyRisk)
    (hlow : k.after.riskTierFinal = some (.str "low")) :
    ∃ action, ClassifiedLow k action ∧ k.after.proposedAction = some (.str action) := by
  obtain ⟨_, action, tool, target, obs, situational, applied, haction, hsplit, _, _, hafter⟩ :=
    led_classifyRisk hled hnode
  have htier : applyPolicy tool k.answers.classification.tier situational = "low" := by
    rw [hafter] at hlow
    simpa using hlow
  obtain ⟨htool, _⟩ := applyPolicy_low htier
  simp only [forcedHighTools, List.mem_cons, List.not_mem_nil, or_false, not_or] at htool
  refine ⟨action, ⟨hnode, haction, hlow, tool, target, hsplit, htool.1, htool.2⟩, ?_⟩
  rw [hafter]
  exact haction

section Gate

variable {rt : Runtime} {others : ToolContext → ToolContext → Prop} {runId : String}
variable {initialState : AgentState} {world : ToolContext} {past : List Event} {c : Config}
variable {v : Visit}

/-- What opens the gate for an execution: its cycle has a proposal, every reviewer's
value in it is a grant, and it holds a low classification of the executed action
or a granted approval. -/
def Gated (past : List Event) (v : Visit) : Prop :=
  (∃ p ∈ visits past, p.node = .proposeAction) ∧
  (∀ a ∈ cycle past, a.node = .awaitApproval → Granted a) ∧
  ((∃ k ∈ cycle past, ∃ action, ClassifiedLow k action ∧
      v.before.proposedAction = some (.str action)) ∨
    ∃ a ∈ cycle past, a.node = .awaitApproval ∧ Granted a)

/-- However a run starts, whatever the reasoner, the classifier, the reviewers and
other operators do, with or without revalidation: nothing executes past the gate. -/
theorem execution_is_gated
    (run : Run rt others runId initialState world (.visit v :: past) c)
    (hexecute : v.node = .execute) : Gated past v := by
  obtain ⟨_, _, _, b, hrun, hnext, hstate, _⟩ := run_visit_walk run
  obtain ⟨w, hwalk, _⟩ := run_walk hrun
  rw [hnext, hexecute, hstate] at hwalk
  obtain ⟨prep, hprep, hroute⟩ := walk_to_execution hwalk
  rcases hroute with ⟨cls, prop, older, hvs, hcls, hprop, hlow⟩ |
    ⟨rev, awt, mrk, cls, prop, older, hvs, hrev, hawt, hmrk, hcls, hprop, _, ⟨d, hd, hgrant⟩, _⟩ |
    ⟨awt, mrk, cls, prop, older, hvs, hawt, hmrk, hcls, hprop, _, d, hd, hgrant⟩
  · have hrecent : ∀ u ∈ [prep, cls], u.node ≠ .proposeAction := by simp [hprep, hcls]
    have hcycle : cycle past = [prep, cls] := cycle_eq hvs hprop hrecent
    rw [hvs] at hwalk
    obtain ⟨hlast, _, hled, _⟩ := walk_cons hwalk
    obtain ⟨hlink, _, hwalk'⟩ := walk_cons_cons hwalk
    obtain ⟨_, _, hledCls, _⟩ := walk_cons hwalk'
    obtain ⟨action, hclassified, haction⟩ := classifiedLow_of_after hledCls hcls hlow
    obtain ⟨_, _, _, _, _, hafter⟩ := led_prepareExecution hled hprep
    refine ⟨⟨prop, by simp [hvs], hprop⟩, ?_, Or.inl ⟨cls, by simp [hcycle], action, hclassified, ?_⟩⟩
    · intro a ha hnode
      rw [hcycle] at ha
      rcases List.mem_cons.mp ha with rfl | ha
      · rw [hprep] at hnode
        cases hnode
      · rw [List.mem_singleton.mp ha, hcls] at hnode
        cases hnode
    · rw [hlast, hafter, ← haction, ← hlink]
  · have hrecent : ∀ u ∈ [prep, rev, awt, mrk, cls], u.node ≠ .proposeAction := by
      simp [hprep, hrev, hawt, hmrk, hcls]
    have hcycle : cycle past = [prep, rev, awt, mrk, cls] := cycle_eq hvs hprop hrecent
    rw [hvs] at hwalk
    obtain ⟨_, _, hwalk'⟩ := walk_cons_cons hwalk
    obtain ⟨_, _, hwalk''⟩ := walk_cons_cons hwalk'
    obtain ⟨_, _, hledAwt, _⟩ := walk_cons hwalk''
    have hgranted : Granted awt := granted_of_after hledAwt hawt hd hgrant
    refine ⟨⟨prop, by simp [hvs], hprop⟩, ?_, Or.inr ⟨awt, by simp [hcycle], hawt, hgranted⟩⟩
    intro a ha hnode
    simp only [hcycle, List.mem_cons, List.not_mem_nil, or_false] at ha
    rcases ha with rfl | rfl | rfl | rfl | rfl
    · rw [hprep] at hnode; cases hnode
    · rw [hrev] at hnode; cases hnode
    · exact hgranted
    · rw [hmrk] at hnode; cases hnode
    · rw [hcls] at hnode; cases hnode
  · have hrecent : ∀ u ∈ [prep, awt, mrk, cls], u.node ≠ .proposeAction := by
      simp [hprep, hawt, hmrk, hcls]
    have hcycle : cycle past = [prep, awt, mrk, cls] := cycle_eq hvs hprop hrecent
    rw [hvs] at hwalk
    obtain ⟨_, _, hwalk'⟩ := walk_cons_cons hwalk
    obtain ⟨_, _, hledAwt, _⟩ := walk_cons hwalk'
    have hgranted : Granted awt := granted_of_after hledAwt hawt hd hgrant
    refine ⟨⟨prop, by simp [hvs], hprop⟩, ?_, Or.inr ⟨awt, by simp [hcycle], hawt, hgranted⟩⟩
    intro a ha hnode
    simp only [hcycle, List.mem_cons, List.not_mem_nil, or_false] at ha
    rcases ha with rfl | rfl | rfl | rfl
    · rw [hprep] at hnode; cases hnode
    · exact hgranted
    · rw [hmrk] at hnode; cases hnode
    · rw [hcls] at hnode; cases hnode

end Gate

/-- A restart that was classified low executes without a reviewer. -/
theorem execution_is_gated_restart :
    ∃ past v c, Run { digest := id } (fun _ _ => True) "run-1" {} (freshSandbox [])
      (.visit v :: past) c ∧ v.node = .execute ∧ Gated past v := by
  obtain ⟨v, past, c, hplay, hnode⟩ := endsIn_spec (p := fun v _ _ => decide (v.node = .execute))
    (show endsIn (play { digest := id }
      (.answer {} :: autonomousMoves "restart_service" "service_a" none) []
      (startWorkflow "run-1" {} (freshSandbox []))) _ = true by decide +kernel)
  have run : Run { digest := id } (fun _ _ => True) "run-1" {} (freshSandbox [])
      (.visit v :: past) c := play_trace (fun _ _ _ _ _ => trivial) .start hplay
  have hexecute : v.node = .execute := of_decide_eq_true hnode
  exact ⟨past, v, c, run, hexecute, execution_is_gated run hexecute⟩

end ApprovalGate
