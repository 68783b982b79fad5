import Interlock.DriftVerdict

/-!
# The tier of a record

A record takes its actions from the audit log and its tier from the state that the run ended
in. The two belong together exactly if the last proposal was classified: an invalid proposal
is replanned without one, and leaves the tier of an earlier proposal in place.
-/

namespace ClassifiedProposals

open PythonValues Tools DiagnosticSweep Fingerprint RunState Nodes Graph Transitions Walks
open PlanningCycle (Move autonomousMoves rollbackMoves)
open RecordedVisits SharedLog Harness DriftVerdict
open DriftDetection (leakingAndFull)

/-- `text.split(":", 1)[0]`. -/
def beforeColon (text : String) : String :=
  match cutAtColon text.toList with
  | some (left, _) => String.ofList left
  | none => text

/-- The tool that `risk_classification_precision_recall_f1_by_tool` counts a record for. -/
def attributedTool (record : RunRecord) : Option String :=
  record.proposedActions.getLast?.join.map beforeColon

/-- The tier is what the classifier returned for the last of the proposed actions, and the
record is counted for its tool. -/
def TierOfLast (vs : List Visit) (record : RunRecord) (tier : String) : Prop :=
  ∃ k ∈ since isPropose vs.reverse, ∃ action tool target, k.node = .classifyRisk ∧
    k.answers.classification.tier = tier ∧ k.before.proposedAction = some (.str action) ∧
    record.proposedActions.getLast? = some (some action) ∧
    splitColon action = .ok (tool, target) ∧ attributedTool record = some tool

/-- A proposal that passes `validate_proposal` against the observations it was made from. -/
def Accepted (p : Visit) : Prop :=
  ∃ obs, p.before.observations = some obs ∧
    validateProposal obs p.answers.proposal.action = .ok none

/-- The last proposal of the run is accepted, or none is. -/
def LastAcceptedOrNone (vs : List Visit) : Prop :=
  (∃ p, vs.reverse.find? isPropose = some p ∧ Accepted p) ∨
    ∀ p ∈ vs, p.node = .proposeAction → ¬ Accepted p

theorem beforeColon_of_split {action tool target : String}
    (h : splitColon action = .ok (tool, target)) : beforeColon action = tool := by
  unfold splitColon at h
  cases hcut : cutAtColon action.toList with
  | none =>
    rw [hcut] at h
    cases h
  | some parts =>
    obtain ⟨left, right⟩ := parts
    rw [hcut] at h
    cases h
    simp only [beforeColon, hcut]

/-! ### Proposals and their classifications -/

section Step

variable {rt : Runtime} {v : Visit} {vs : List Visit} {next : Option Node}

/-- Exactly the accepted proposals go on to `classify_risk`. -/
theorem accepted_iff (hled : v.Led rt next) (hnode : v.node = .proposeAction) :
    Accepted v ↔ next = some .classifyRisk := by
  obtain ⟨_, obs, reason, _, hobs, hreason, _, hafter⟩ := led_proposeAction hled hnode
  have hedge := led_edge hled
  rw [hnode] at hedge
  have haccepted : Accepted v ↔ reason = none := by
    constructor
    · rintro ⟨obs', hobs', hvalid⟩
      rw [hobs] at hobs'
      cases hobs'
      rw [hreason] at hvalid
      exact Except.ok.inj hvalid
    · rintro rfl
      exact ⟨obs, hobs, hreason⟩
  rw [haccepted]
  cases hedge with
  | invalid h =>
    constructor
    · rintro rfl
      rw [hafter] at h
      cases h
    · exact fun hnext => nomatch hnext
  | proposed h =>
    constructor
    · exact fun _ => rfl
    · intro _
      have hnone := Anchoring.valid_of_routed hled hnode h
      rw [hafter] at hnone
      exact Option.some.inj hnone

theorem classified_after_proposal (hled : v.Led rt (some .classifyRisk)) :
    v.node = .proposeAction := by
  have hedge := led_edge hled
  generalize v.node = n at hedge ⊢
  cases hedge
  rfl

/-- Where the classifications of a run stand, of which the latest visits stand first. -/
structure Tiers (vs : List Visit) (s : AgentState) (next : Option Node) : Prop where
  pending : next = some .classifyRisk → ∃ p, vs.find? isPropose = some p ∧ Accepted p ∧
    s.proposedAction = p.after.proposedAction
  classified : next ≠ some .classifyRisk → ∀ p, vs.find? isPropose = some p → Accepted p →
    ∃ k ∈ since isPropose vs, k.node = .classifyRisk ∧
      s.riskTierLlm = some k.answers.classification.tier ∧
      k.before.proposedAction = p.after.proposedAction
  refused : ∀ p, vs.find? isPropose = some p → ¬ Accepted p →
    ∀ k ∈ since isPropose vs, k.node ≠ .classifyRisk
  untiered : s.riskTierLlm = none ↔ ∀ k ∈ vs, k.node ≠ .classifyRisk
  answered : next ≠ some .classifyRisk →
    ((∃ p ∈ vs, p.node = .proposeAction ∧ Accepted p) ↔ ∃ k ∈ vs, k.node = .classifyRisk)

theorem led_tier (hled : v.Led rt next) (hnode : v.node ≠ .classifyRisk) :
    v.after.riskTierLlm = v.before.riskTierLlm := by
  cases hv : v.node with
  | diagnose =>
    obtain ⟨_, _, _, hafter⟩ := led_diagnose hled hv
    rw [hafter]
  | proposeAction =>
    obtain ⟨_, _, _, _, _, _, _, hafter⟩ := led_proposeAction hled hv
    rw [hafter]
  | classifyRisk => exact absurd hv hnode
  | markAwaitingApproval =>
    obtain ⟨_, hafter⟩ := led_markAwaitingApproval hled hv
    rw [hafter]
  | awaitApproval =>
    obtain ⟨_, _, _, _, _, _, ⟨_, hafter⟩ | ⟨_, _, _, _, _, _, hafter⟩⟩ := led_awaitApproval hled hv
    · rw [hafter]
    · rw [hafter]
  | revalidate =>
    obtain ⟨_, _, _, _, _, _, _, _, _, hafter⟩ := led_revalidate hled hv
    rw [hafter]
  | prepareExecution =>
    obtain ⟨_, _, _, _, _, hafter⟩ := led_prepareExecution hled hv
    rw [hafter]
  | execute =>
    obtain ⟨_, _, _, _, _, _, hafter⟩ := led_execute hled hv
    rw [hafter]
  | verify =>
    obtain ⟨_, _, _, _, _, _, _, hafter⟩ := led_verify hled hv
    rw [hafter]
  | rollingBack =>
    obtain ⟨_, _, _, _, hafter⟩ := led_rollingBack hled hv
    rw [hafter]
  | rolledBack =>
    obtain ⟨_, hafter⟩ := led_rolledBack hled hv
    rw [hafter]
  | replan =>
    obtain ⟨_, _, _, hafter⟩ := led_replan hled hv
    rw [hafter]
  | escalate =>
    obtain ⟨_, hafter⟩ := led_escalate hled hv
    rw [hafter]
  | completed =>
    obtain ⟨_, hafter⟩ := led_completed hled hv
    rw [hafter]

theorem tiers_propose (h : Tiers vs v.before (some v.node)) (hled : v.Led rt next)
    (hnode : v.node = .proposeAction) : Tiers (v :: vs) v.after next := by
  have hp : isPropose v = true := decide_eq_true hnode
  have hfind : (v :: vs).find? isPropose = some v := List.find?_cons_of_pos hp
  have hsince : since isPropose (v :: vs) = [] := since_cons_of hp
  have hkept : v.after.riskTierLlm = v.before.riskTierLlm := led_tier hled (by simp [hnode])
  have hbefore := h.answered (by simp [hnode])
  refine ⟨?_, ?_, ?_, ?_, ?_⟩
  · intro hnext
    exact ⟨v, hfind, (accepted_iff hled hnode).mpr hnext, rfl⟩
  · intro hnext p hlast hp
    rw [hfind] at hlast
    cases hlast
    exact absurd ((accepted_iff hled hnode).mp hp) hnext
  · intro _ _ _ k hk
    rw [hsince] at hk
    exact (List.not_mem_nil hk).elim
  · rw [hkept, h.untiered]
    simp [hnode]
  · intro hnext
    have hv : ¬ Accepted v := fun hv => hnext ((accepted_iff hled hnode).mp hv)
    simp only [List.exists_mem_cons_iff, hnode, true_and, hv, false_or, reduceCtorEq, hbefore]

theorem tiers_classify (h : Tiers vs v.before (some v.node)) (hled : v.Led rt next)
    (hnode : v.node = .classifyRisk) : Tiers (v :: vs) v.after next := by
  have hp : isPropose v = false := by simp [isPropose, hnode]
  have hfind : (v :: vs).find? isPropose = vs.find? isPropose :=
    List.find?_cons_of_neg (by simp [hp])
  have hsince : since isPropose (v :: vs) = v :: since isPropose vs := since_cons_of_not hp
  obtain ⟨p, hlast, haccepted, haction⟩ := h.pending (by rw [hnode])
  obtain ⟨_, _, _, _, _, _, _, _, _, _, _, hafter⟩ := led_classifyRisk hled hnode
  have htier : v.after.riskTierLlm = some v.answers.classification.tier := by rw [hafter]
  have hnext : next ≠ some .classifyRisk := by
    rintro rfl
    rw [classified_after_proposal hled] at hnode
    cases hnode
  refine ⟨fun heq => absurd heq hnext, ?_, ?_, ?_, ?_⟩
  · intro _ q hq _
    rw [hfind, hlast] at hq
    cases hq
    rw [hsince]
    exact ⟨v, List.mem_cons_self, hnode, htier, haction⟩
  · intro q hq hrefused
    rw [hfind, hlast] at hq
    cases hq
    exact absurd haccepted hrefused
  · simp [htier, hnode]
  · intro _
    constructor
    · exact fun _ => ⟨v, List.mem_cons_self, hnode⟩
    · intro _
      have hnode' : isPropose p = true := List.find?_some hlast
      exact ⟨p, List.mem_cons_of_mem v (List.mem_of_find?_eq_some hlast),
        of_decide_eq_true hnode', haccepted⟩

theorem tiers_other (h : Tiers vs v.before (some v.node)) (hled : v.Led rt next)
    (hpropose : v.node ≠ .proposeAction) (hclassify : v.node ≠ .classifyRisk) :
    Tiers (v :: vs) v.after next := by
  have hp : isPropose v = false := by simp [isPropose, hpropose]
  have hfind : (v :: vs).find? isPropose = vs.find? isPropose :=
    List.find?_cons_of_neg (by simp [hp])
  have hsince : since isPropose (v :: vs) = v :: since isPropose vs := since_cons_of_not hp
  have hkept : v.after.riskTierLlm = v.before.riskTierLlm := led_tier hled hclassify
  have hnext : next ≠ some .classifyRisk := by
    rintro rfl
    exact hpropose (classified_after_proposal hled)
  have hbefore : some v.node ≠ some .classifyRisk := by simpa using hclassify
  refine ⟨fun heq => absurd heq hnext, ?_, ?_, ?_, ?_⟩
  · intro _ p hlast hp
    rw [hfind] at hlast
    obtain ⟨k, hk, hnode, htier, haction⟩ := h.classified hbefore p hlast hp
    rw [hsince]
    exact ⟨k, List.mem_cons_of_mem v hk, hnode, hkept.trans htier, haction⟩
  · intro p hlast hp
    rw [hfind] at hlast
    rw [hsince]
    exact List.forall_mem_cons.mpr ⟨hclassify, h.refused p hlast hp⟩
  · rw [hkept, h.untiered]
    simp [hclassify]
  · intro _
    have hsame := h.answered hbefore
    simp only [List.exists_mem_cons_iff, hpropose, hclassify, false_and, false_or, hsame]

end Step

theorem run_tiers {rt : Runtime} {others : ToolContext → ToolContext → Prop} {runId : String}
    {initialState : AgentState} {world : ToolContext} {past : List Event} {c : Config}
    (hinitial : initialState.riskTierLlm = none)
    (run : Run rt others runId initialState world past c) :
    Tiers (visits past) c.state c.next := by
  induction run with
  | start =>
    refine ⟨?_, ?_, ?_, ?_, ?_⟩
    · exact fun h => nomatch h
    · exact fun _ _ h => nomatch h
    · exact fun _ h => nomatch h
    · exact iff_of_true hinitial fun _ h => nomatch h
    · intro _
      simp [visits]
  | snoc _ hs ih =>
    cases hs with
    | others _ => exact ih
    | @visit _ node answers hnext hstep =>
      rw [hnext] at ih
      have hled := step_ok hnext hstep
      by_cases hpropose : node = .proposeAction
      · exact tiers_propose ih hled hpropose
      · by_cases hclassify : node = .classifyRisk
        · exact tiers_classify ih hled hclassify
        · exact tiers_other ih hled hpropose hclassify

/-! ### The record -/

theorem statusShown_actionProposed {node : Node} :
    statusShown node = .actionProposed ↔ node = .proposeAction := by
  cases node <;> decide

/-- The last of the proposed actions is that of the last proposal. -/
theorem last_proposed {log : List Graph.AuditRecord} {us : List Visit} {p : Visit} {action : String}
    (h : List.Forall₂ Tells log us) (hlast : us.getLast? = some p)
    (haction : p.after.proposedAction = some (.str action)) :
    (log.map (·.actionProposed)).getLast? = some (some action) := by
  induction h with
  | nil => cases hlast
  | cons hu hrest ih =>
    cases hrest with
    | nil =>
      cases hlast
      exact congrArg some ((AuditRecords.shown_iff hu.action).mpr haction)
    | cons _ _ =>
      rw [List.getLast?_cons_cons] at hlast
      rw [List.map_cons, List.map_cons, List.getLast?_cons_cons, ← List.map_cons]
      exact ih hlast

theorem last_of_filter {vs : List Visit} {p : Visit} (h : vs.reverse.find? isPropose = some p) :
    (vs.filter fun v => decide (v.node = .proposeAction)).getLast? = some p := by
  rw [← h, List.getLast?_eq_head?_reverse, ← List.filter_reverse, List.head?_filter]
  rfl

section Record

variable {digest : String → String} {scenario : Scenario} {mode : AblationMode}
variable {runId : String} {world : ToolContext} {vs : List Visit} {record : RunRecord}
variable {past : List Event} {d : Config}

theorem recorded_tier (h : Returned digest scenario mode runId world vs record past d) :
    record.riskTierLlm = d.state.riskTierLlm := by
  obtain ⟨_, _, rfl⟩ := h.record_eq
  rfl

theorem recorded_tiers (h : Returned digest scenario mode runId world vs record past d) :
    Tiers vs.reverse d.state none := by
  rw [← h.visits_eq, ← h.ended]
  exact run_tiers rfl h.run

theorem recorded_last (h : Returned digest scenario mode runId world vs record past d) {p : Visit}
    {action : String} (hlast : vs.reverse.find? isPropose = some p)
    (haction : p.after.proposedAction = some (.str action)) :
    record.proposedActions.getLast? = some (some action) := by
  obtain ⟨hown, htells⟩ := h.tells
  have hproposals := htells .actionProposed
  simp only [statusShown_actionProposed] at hproposals
  obtain ⟨_, _, rfl⟩ := h.record_eq
  rw [runRecord, hown]
  exact last_proposed hproposals (last_of_filter hlast) haction

/-- The tier is that of the last proposal, if it was accepted. -/
theorem tierOfLast_of_accepted (h : Returned digest scenario mode runId world vs record past d)
    {p : Visit} (hlast : vs.reverse.find? isPropose = some p) (hp : Accepted p) {tier : String}
    (htier : record.riskTierLlm = some tier) : TierOfLast vs record tier := by
  obtain ⟨k, hk, hnode, hgiven, hsame⟩ :=
    (recorded_tiers h).classified (by simp) p hlast hp
  have hmem : k ∈ visits past := by
    rw [h.visits_eq]
    exact mem_of_mem_since hk
  obtain ⟨next, hled⟩ := led_of_run h.run k hmem
  obtain ⟨_, action, tool, target, _, _, _, haction, hsplit, _⟩ := led_classifyRisk hled hnode
  rw [recorded_tier h, hgiven] at htier
  have hactions : record.proposedActions.getLast? = some (some action) :=
    recorded_last h hlast (hsame.symm.trans haction)
  refine ⟨k, hk, action, tool, target, hnode, Option.some.inj htier, haction, hactions, hsplit, ?_⟩
  rw [attributedTool, hactions]
  exact congrArg some (beforeColon_of_split hsplit)

theorem unclassified_iff (h : Returned digest scenario mode runId world vs record past d) :
    record.riskTierLlm = none ↔ ∀ p ∈ vs, p.node = .proposeAction → ¬ Accepted p := by
  have hanswered := (recorded_tiers h).answered (by simp)
  rw [recorded_tier h, (recorded_tiers h).untiered]
  constructor
  · intro hnone p hp hnode haccepted
    obtain ⟨k, hk, hclassify⟩ := hanswered.mp ⟨p, List.mem_reverse.mpr hp, hnode, haccepted⟩
    exact hnone k hk hclassify
  · intro hnone k hk hclassify
    obtain ⟨p, hp, hnode, haccepted⟩ := hanswered.mpr ⟨k, hk, hclassify⟩
    exact hnone p (List.mem_reverse.mp hp) hnode haccepted

end Record

/-- Whatever the reasoner and the classifier answer, the recorded tier is that of the last
proposed action exactly if the last proposal is accepted, or none is. -/
theorem tier_of_last_iff (digest : String → String) (scenario : Scenario) (mode : AblationMode)
    (approverId runId : String) (world : ToolContext) (moves : List Move) (waits : List Wait)
    {vs : List Visit} {record : RunRecord}
    (h : runScenario digest scenario mode approverId runId world moves waits = some (vs, record)) :
    (∀ tier, record.riskTierLlm = some tier → TierOfLast vs record tier) ↔
      LastAcceptedOrNone vs := by
  obtain ⟨past, d, hreturned⟩ := returned_of_runScenario h
  constructor
  · intro hbelongs
    cases hlast : vs.reverse.find? isPropose with
    | none =>
      refine Or.inr fun p hp hnode => ?_
      have hnot := List.find?_eq_none.mp hlast p (List.mem_reverse.mpr hp)
      exact absurd (decide_eq_true hnode) hnot
    | some p =>
      by_cases hp : Accepted p
      · exact Or.inl ⟨p, hlast, hp⟩
      · refine Or.inr ((unclassified_iff hreturned).mp ?_)
        by_contra htier
        obtain ⟨tier, htier⟩ := Option.ne_none_iff_exists'.mp htier
        obtain ⟨k, hk, _, _, _, hnode, _⟩ := hbelongs tier htier
        exact (recorded_tiers hreturned).refused p hlast hp k hk hnode
  · rintro (⟨p, hlast, hp⟩ | hnone)
    · exact fun tier htier => tierOfLast_of_accepted hreturned hlast hp htier
    · intro tier htier
      rw [(unclassified_iff hreturned).mpr hnone] at htier
      cases htier

/-! ### A tier that outlives its proposal -/

def reboot : Proposal := { tool := "reboot_host", target := "service_c" }

/-- The restart of a service with a full disk is rolled back, and then the reasoner
proposes what no tool can do. -/
def thenInvalid : List Move :=
  .answer {} :: autonomousMoves "restart_service" "service_c" none ++ rollbackMoves ++
    [.answer { proposal := reboot }, .answer {}, .answer { proposal := reboot }, .answer {},
      .answer {}]

/-- The tier of the restart is counted for a tool that was never classified. -/
theorem tier_of_unclassified :
    ∃ vs record, runScenario id ⟨"s-1", "clear"⟩ .full "eval-harness" "eval-1" leakingAndFull
        thenInvalid [] = some (vs, record) ∧
      record.riskTierLlm = some "low" ∧
      record.proposedActions = [some "restart_service:service_c", some "reboot_host:service_c",
        some "reboot_host:service_c"] ∧
      attributedTool record = some "reboot_host" ∧ ¬ TierOfLast vs record "low" := by
  have hplay : (runScenario id ⟨"s-1", "clear"⟩ .full "eval-harness" "eval-1" leakingAndFull
      thenInvalid []).any (fun t => decide (t.2.riskTierLlm = some "low") &&
        decide (t.2.proposedActions = [some "restart_service:service_c",
          some "reboot_host:service_c", some "reboot_host:service_c"]) &&
        decide (attributedTool t.2 = some "reboot_host") &&
        (since isPropose t.1.reverse).all fun k => decide (k.node ≠ .classifyRisk)) = true := by
    decide +kernel
  obtain ⟨⟨vs, record⟩, hplay, hcheck⟩ := (Option.any_eq_true _ _).mp hplay
  simp only [Bool.and_eq_true, decide_eq_true_eq, List.all_eq_true] at hcheck
  obtain ⟨⟨⟨htier, hproposed⟩, htool⟩, hnone⟩ := hcheck
  refine ⟨vs, record, hplay, htier, hproposed, htool, ?_⟩
  rintro ⟨k, hk, _, _, _, hnode, _⟩
  exact hnone k hk hnode

/-- A run that replans an invalid proposal and then restarts a service. -/
def invalidThenRestart : List Move :=
  .answer {} :: .answer { proposal := reboot } :: .answer {} ::
    gatedMoves "restart_service" "service_b"

def approvedRestart : Wait :=
  { moves := [.answer {}, .answer {}, .answer {}, .answer {}, .answer {}] }

theorem tier_of_restart :
    ∃ vs record, runScenario id ⟨"s-2", "clear"⟩ .full "eval-harness" "eval-2"
        (injectFault "service_b" .memoryLeak .high (freshSandbox [])) invalidThenRestart
        [approvedRestart] = some (vs, record) ∧
      record.riskTierLlm = some "medium" ∧ attributedTool record = some "restart_service" ∧
      TierOfLast vs record "medium" := by
  have hplay : (runScenario id ⟨"s-2", "clear"⟩ .full "eval-harness" "eval-2"
      (injectFault "service_b" .memoryLeak .high (freshSandbox [])) invalidThenRestart
      [approvedRestart]).any (fun t => decide (t.2.riskTierLlm = some "medium") &&
        decide (attributedTool t.2 = some "restart_service") &&
        (t.1.reverse.find? isPropose).any fun p => p.before.observations.any fun obs =>
          decide ((validateProposal obs p.answers.proposal.action).toOption = some none)) =
        true := by
    decide +kernel
  obtain ⟨⟨vs, record⟩, hplay, hcheck⟩ := (Option.any_eq_true _ _).mp hplay
  simp only [Bool.and_eq_true, decide_eq_true_eq, Option.any_eq_true] at hcheck
  obtain ⟨⟨htier, htool⟩, p, hlast, obs, hobs, hvalid⟩ := hcheck
  have haccepted : LastAcceptedOrNone vs :=
    Or.inl ⟨p, hlast, obs, hobs, eq_ok_of_toOption hvalid⟩
  exact ⟨vs, record, hplay, htier, htool, (tier_of_last_iff id ⟨"s-2", "clear"⟩ .full
    "eval-harness" "eval-2" (injectFault "service_b" .memoryLeak .high (freshSandbox []))
    invalidThenRestart [approvedRestart] hplay).mpr haccepted "medium" htier⟩

end ClassifiedProposals
