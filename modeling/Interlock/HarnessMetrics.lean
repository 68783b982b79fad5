import Interlock.Accounting
import Interlock.Metrics
import Interlock.Percentiles

/-!
# The metrics of the harness

The metrics read whatever rows they are given, and the harness writes rows of its own. Over
rows that `run_scenario` has written some of the metrics are constants, and others are sums of
simpler counts: the gate is never missed, every rollback ends in a final state, every log is
complete, and a tier is overridden either by the redundancy floor or by force.
-/

namespace HarnessMetrics

open PythonValues Tools DiagnosticSweep RiskPolicy RunState Nodes Graph Transitions Walks
open PlanningCycle (Move)
open DriftDetection (leakingAndFull)
open RecordedVisits AuditChain Harness DriftVerdict ClassifiedProposals Metrics

/-! ### Rows -/

/-- `approval_wait_seconds` after the suspensions of a run. -/
def approvalWaitSeconds (simulatedApprovalWaitSeconds : ℚ) (waits : List Wait) : Option ℚ :=
  waits.foldl (fun waited _ => some (waited.getD 0 + simulatedApprovalWaitSeconds)) none

/-- What `run_scenario` measures of a run. -/
structure Measured where
  resumeElapsedMs : ℚ
  totalTokens : Int
  llmCalls : Int
  wallClockSeconds : ℚ
  computeActive : ℚ

/-- A value that is compared with texts. -/
def asText : Json → Option String
  | .str text => some text
  | _ => none

theorem bind_asText_eq {x : Option Json} {text : String} :
    x.bind asText = some text ↔ x = some (.str text) := by
  cases x with
  | none => simp
  | some j => cases j <;> simp [asText]

/-- The row of `runs.jsonl` of a run that was suspended `waits.length` times. -/
def row (simulatedApprovalWaitSeconds : ℚ) (waits : List Wait) (measured : Measured)
    (record : RunRecord) : RunRow where
  scenarioId := record.scenarioId
  finalState := record.finalState.bind asText
  proposedActions := record.proposedActions.filterMap id
  executedActions := record.executedActions.filterMap id
  riskTierLlm := record.riskTierLlm
  riskTierFinal := record.riskTierFinal.bind asText
  redundancyFloorApplied := record.redundancyFloorApplied.getD false
  approvalWaitSeconds := approvalWaitSeconds simulatedApprovalWaitSeconds waits
  timeToResumeMs := if waits.isEmpty then none else some measured.resumeElapsedMs
  driftDetected := decide (record.driftDetected = some true)
  verificationPassed := record.verificationPassed.any Json.truthy
  rollbackInvoked := record.rollbackInvoked
  totalTokens := measured.totalTokens
  llmCalls := measured.llmCalls
  wallClockSeconds := measured.wallClockSeconds
  computeSecondsActive := measured.computeActive
  auditRecords := record.auditRecords

/-- A row that `run_scenario` has written, under clocks that do not go back. -/
def Written (digest : String → String) (mode : AblationMode) (r : RunRow) : Prop :=
  ∃ scenario approverId runId world moves waits vs record seconds measured,
    runScenario digest scenario mode approverId runId world moves waits = some (vs, record) ∧
      Stamped record.auditRecords ∧ r = row seconds waits measured record

/-- `_pct` of all out of `n`. -/
def full (n : ℕ) : Option ℚ := if n = 0 then none else some 100

theorem pct_full (n : ℕ) : pct n n = full n := by
  unfold pct full
  split
  · rfl
  · next hn =>
    rw [div_self (Nat.cast_ne_zero.mpr hn), one_mul]

/-- The percentage of the rows with `p` that have `q` as well, where all of them have. -/
theorem pct_filter_full {rows : List RunRow} {p q : RunRow → Bool}
    (h : ∀ r ∈ rows, p r = true → q r = true) :
    pct ((rows.filter p).countP q) (rows.filter p).length = full (rows.countP p) := by
  have hall : (rows.filter p).countP q = (rows.filter p).length := by
    refine List.countP_eq_length.mpr fun r hr => ?_
    obtain ⟨hmem, hp⟩ := List.mem_filter.mp hr
    exact h r hmem hp
  rw [hall, pct_full, List.countP_eq_length_filter]

/-! ### Overrides -/

/-- The tiers of a classification: the policy keeps the classifier's, floors it, or forces
it high. -/
structure Overridden (llm final : String) (floor : Bool) : Prop where
  floored : floor = true ↔ llm = "low" ∧ final = "medium"
  kept : floor = false → final = "high" ∨ final = llm

/-- The policy forces a tool high, floors the tier of a service without a redundant replica,
or keeps the tier. -/
theorem applyPolicy_cases (tool llm : String) (situational : Option Situation) :
    applyPolicy tool llm situational = "high" ∨
      (llm = "low" ∧ applyPolicy tool llm situational = "medium" ∧
        (situational.any fun s => !s.hasRedundantReplica) = true) ∨
      applyPolicy tool llm situational = llm := by
  unfold applyPolicy
  by_cases hforced : tool ∈ forcedHighTools
  · rw [if_pos hforced]
    exact Or.inl rfl
  · rw [if_neg hforced]
    cases situational with
    | none => exact Or.inr (Or.inr rfl)
    | some s =>
      by_cases hfloor : llm = "low" ∧ s.hasRedundantReplica = false ∧ 1 ≤ s.restartCountThisRun
      · refine Or.inr (Or.inl ⟨hfloor.1, if_pos hfloor, ?_⟩)
        rw [Option.any_some, hfloor.2.1]
        rfl
      · exact Or.inr (Or.inr (if_neg hfloor))

/-- The flag of the floor is set exactly where the floor was the reason. -/
theorem overridden_of_policy (tool llm : String) (situational : Option Situation) :
    Overridden llm (applyPolicy tool llm situational)
      (decide (llm = "low" ∧ applyPolicy tool llm situational = "medium") &&
        situational.any fun s => !s.hasRedundantReplica) := by
  obtain hhigh | ⟨rfl, hmedium, hsole⟩ | hkept := applyPolicy_cases tool llm situational
  · rw [hhigh]
    exact ⟨by simp, fun _ => Or.inl rfl⟩
  · rw [hmedium, hsole]
    exact ⟨by simp, fun h => nomatch h⟩
  · rw [hkept]
    refine ⟨?_, fun _ => Or.inr rfl⟩
    have hnever : ¬ (llm = "low" ∧ llm = "medium") := by
      rintro ⟨rfl, h⟩
      exact absurd h (by decide)
    simp [hnever]

/-- The entries that the latest classification has left. -/
def Classified (s : AgentState) : Prop :=
  (s.riskTierLlm = none ∧ s.riskTierFinal = none ∧ s.redundancyFloorApplied = none) ∨
    ∃ llm final floor, s.riskTierLlm = some llm ∧ s.riskTierFinal = some (.str final) ∧
      s.redundancyFloorApplied = some floor ∧ Overridden llm final floor

/-- A classification leaves its entries. -/
theorem classified_of_led {rt : Runtime} {v : Visit} {next : Option Node} (hled : v.Led rt next)
    (hnode : v.node = .classifyRisk) : Classified v.after := by
  obtain ⟨update, hfn, hafter⟩ := led_update hled hnode
  simp only [nodeFn, Action.run_lift, Prod.mk.injEq] at hfn
  obtain ⟨action, _, hrest⟩ := except_bind_ok_iff.mp hfn.1
  obtain ⟨⟨tool, _⟩, _, hrest⟩ := except_bind_ok_iff.mp hrest
  obtain ⟨_, _, hrest⟩ := except_bind_ok_iff.mp hrest
  obtain ⟨situational, _, hrest⟩ := except_bind_ok_iff.mp hrest
  cases hrest
  rw [hafter]
  exact Or.inr ⟨_, _, _, rfl, rfl, rfl, overridden_of_policy tool _ situational⟩

/-- Only `classify_risk` writes these entries. -/
theorem classified_kept {rt : Runtime} {v : Visit} {next : Option Node} (hled : v.Led rt next)
    (hnode : v.node ≠ .classifyRisk) :
    v.after.riskTierLlm = v.before.riskTierLlm ∧
      v.after.riskTierFinal = v.before.riskTierFinal ∧
      v.after.redundancyFloorApplied = v.before.redundancyFloorApplied := by
  cases hv : v.node with
  | diagnose =>
    obtain ⟨_, _, _, hafter⟩ := led_diagnose hled hv
    rw [hafter]
    exact ⟨rfl, rfl, rfl⟩
  | proposeAction =>
    obtain ⟨_, _, _, _, _, _, _, hafter⟩ := led_proposeAction hled hv
    rw [hafter]
    exact ⟨rfl, rfl, rfl⟩
  | classifyRisk => exact absurd hv hnode
  | markAwaitingApproval =>
    obtain ⟨_, hafter⟩ := led_markAwaitingApproval hled hv
    rw [hafter]
    exact ⟨rfl, rfl, rfl⟩
  | awaitApproval =>
    obtain ⟨_, _, _, _, _, _, ⟨_, hafter⟩ | ⟨_, _, _, _, _, _, hafter⟩⟩ := led_awaitApproval hled hv
    all_goals
      rw [hafter]
      exact ⟨rfl, rfl, rfl⟩
  | revalidate =>
    obtain ⟨_, _, _, _, _, _, _, _, _, hafter⟩ := led_revalidate hled hv
    rw [hafter]
    exact ⟨rfl, rfl, rfl⟩
  | prepareExecution =>
    obtain ⟨_, _, _, _, _, hafter⟩ := led_prepareExecution hled hv
    rw [hafter]
    exact ⟨rfl, rfl, rfl⟩
  | execute =>
    obtain ⟨_, _, _, _, _, _, hafter⟩ := led_execute hled hv
    rw [hafter]
    exact ⟨rfl, rfl, rfl⟩
  | verify =>
    obtain ⟨_, _, _, _, _, _, _, hafter⟩ := led_verify hled hv
    rw [hafter]
    exact ⟨rfl, rfl, rfl⟩
  | rollingBack =>
    obtain ⟨_, _, _, _, hafter⟩ := led_rollingBack hled hv
    rw [hafter]
    exact ⟨rfl, rfl, rfl⟩
  | rolledBack =>
    obtain ⟨_, hafter⟩ := led_rolledBack hled hv
    rw [hafter]
    exact ⟨rfl, rfl, rfl⟩
  | replan =>
    obtain ⟨_, _, _, hafter⟩ := led_replan hled hv
    rw [hafter]
    exact ⟨rfl, rfl, rfl⟩
  | escalate =>
    obtain ⟨_, hafter⟩ := led_escalate hled hv
    rw [hafter]
    exact ⟨rfl, rfl, rfl⟩
  | completed =>
    obtain ⟨_, hafter⟩ := led_completed hled hv
    rw [hafter]
    exact ⟨rfl, rfl, rfl⟩

/-! ### What a run adds up to -/

/-- What the metrics rely on, of a run that stands before `next` after the visits `vs`. -/
structure Summed (vs : List Visit) (s : AgentState) (next : Option Node) : Prop where
  classified : Classified s
  asked : ∀ tier, s.riskTierFinal = some (.str tier) → tier ≠ "low" →
    next = some .markAwaitingApproval ∨ next = some .awaitApproval ∨
      ∃ v ∈ vs, v.node = .awaitApproval
  passed : next = some .completed → s.verificationPassed.any Json.truthy = true
  final : next = none →
    (s.finalState = some (.str State.completed.value) ∧
      s.verificationPassed.any Json.truthy = true) ∨
      s.finalState = some (.str State.escalated.value)

section Sums

variable {rt : Runtime} {v : Visit} {vs : List Visit} {next : Option Node}

/-- A tier above low leads to the reviewer. -/
theorem asked_visit (h : Summed vs v.before (some v.node)) (hled : v.Led rt next) {tier : String}
    (htier : v.after.riskTierFinal = some (.str tier)) (hgated : tier ≠ "low") :
    next = some .markAwaitingApproval ∨ next = some .awaitApproval ∨
      ∃ u ∈ v :: vs, u.node = .awaitApproval := by
  have hedge := led_edge hled
  by_cases hclassify : v.node = .classifyRisk
  · rw [hclassify] at hedge
    cases hedge with
    | low hlow =>
      rw [htier] at hlow
      cases hlow
      exact absurd rfl hgated
    | gated _ => exact Or.inl rfl
  · rw [(classified_kept hled hclassify).2.1] at htier
    obtain hmark | hawait | ⟨u, hu, hnode⟩ := h.asked tier htier hgated
    · rw [Option.some.inj hmark] at hedge
      cases hedge
      exact Or.inr (Or.inl rfl)
    · exact Or.inr (Or.inr ⟨v, List.mem_cons_self, Option.some.inj hawait⟩)
    · exact Or.inr (Or.inr ⟨u, List.mem_cons_of_mem v hu, hnode⟩)

theorem summed_visit (h : Summed vs v.before (some v.node)) (hled : v.Led rt next) :
    Summed (v :: vs) v.after next := by
  have hedge := led_edge hled
  refine ⟨?_, fun tier => asked_visit h hled, ?_, ?_⟩
  · by_cases hclassify : v.node = .classifyRisk
    · exact classified_of_led hled hclassify
    · obtain ⟨hllm, hfinal, hfloor⟩ := classified_kept hled hclassify
      unfold Classified
      rw [hllm, hfinal, hfloor]
      exact h.classified
  · rintro rfl
    generalize hnode : v.node = node at hedge
    cases hedge with
    | verified hd htrue =>
      rw [hd]
      exact htrue
  · rintro rfl
    generalize hnode : v.node = node at hedge
    cases hedge with
    | completed =>
      obtain ⟨_, hafter⟩ := led_completed hled hnode
      rw [hafter]
      exact Or.inl ⟨rfl, h.passed (by rw [hnode])⟩
    | escalated =>
      obtain ⟨_, hafter⟩ := led_escalate hled hnode
      rw [hafter]
      exact Or.inr rfl

theorem run_summed {others : ToolContext → ToolContext → Prop} {runId : String}
    {world : ToolContext} {past : List Event} {c : Config}
    (run : Run rt others runId {} world past c) : Summed (visits past) c.state c.next := by
  induction run with
  | start =>
    refine ⟨Or.inl ⟨rfl, rfl, rfl⟩, ?_, ?_, ?_⟩
    · exact fun _ h => nomatch h
    · exact fun h => nomatch h
    · exact fun h => nomatch h
  | snoc _ hs ih =>
    cases hs with
    | others _ => exact ih
    | visit hnext hstep =>
      rw [hnext] at ih
      exact summed_visit ih (step_ok hnext hstep)

end Sums

/-! ### One row -/

/-- The tier of a row is not low. -/
def gated (r : RunRow) : Bool :=
  r.riskTierFinal == some "medium" || r.riskTierFinal == some "high"

/-- The tier of a row was not high for the classifier. -/
def forcedHigh (r : RunRow) : Bool :=
  r.riskTierFinal == some "high" && r.riskTierLlm != some "high"

/-- What holds of each row that the harness writes. -/
structure Sound (r : RunRow) : Prop where
  gate : gated r = true → r.approvalWaitSeconds.isSome = true
  overridden : (r.riskTierLlm != r.riskTierFinal) = (r.redundancyFloorApplied || forcedHigh r)
  once : ¬ (r.redundancyFloorApplied = true ∧ forcedHigh r = true)
  ended : (r.finalState = some "COMPLETED" ∧ r.verificationPassed = true) ∨
    r.finalState = some "ESCALATED"
  logged : isCompleteChain r.auditRecords = true
  resumed : r.timeToResumeMs.isSome = r.approvalWaitSeconds.isSome

theorem approvalWaitSeconds_isSome (seconds : ℚ) (waits : List Wait) :
    (approvalWaitSeconds seconds waits).isSome = !waits.isEmpty := by
  induction waits using List.reverseRecOn with
  | nil => rfl
  | append_singleton waits wait _ =>
    rw [approvalWaitSeconds, List.foldl_append]
    simp

/-- An `ainvoke` stops before the reviewer. -/
theorem ainvoke_unasked {rt : Runtime} {moves : List Move} {c d : Config} {vs : List Visit}
    (h : ainvoke rt moves c = some (vs, d)) : ∀ v ∈ vs, v.node ≠ .awaitApproval := by
  induction moves generalizing c vs with
  | nil =>
    obtain ⟨rfl, _⟩ := ainvoke_nil h
    exact fun _ hv => nomatch hv
  | cons move rest ih =>
    cases move with
    | change f => exact ih h
    | answer answers =>
      obtain ⟨node, _, later, _, hnode, _, hrest, rfl⟩ := ainvoke_answer h
      intro v hv
      obtain rfl | hv := List.mem_cons.mp hv
      · exact hnode
      · exact ih hrest v hv

section Rows

variable {digest : String → String} {scenario : Scenario} {mode : AblationMode}
variable {approverId runId : String} {world : ToolContext} {moves : List Move}
variable {waits : List Wait} {vs : List Visit} {record : RunRecord}

/-- Without a suspension nobody was asked. -/
theorem waits_of_asked
    (h : runScenario digest scenario mode approverId runId world moves waits = some (vs, record))
    (hasked : ∃ v ∈ vs, v.node = .awaitApproval) : waits ≠ [] := by
  rintro rfl
  obtain ⟨⟨first, c⟩, hfirst, h⟩ := Option.bind_eq_some_iff.mp h
  obtain ⟨⟨later, d, overall⟩, hlater, h⟩ := Option.bind_eq_some_iff.mp h
  cases h
  obtain ⟨rfl, _⟩ := resumeSuspended_nil hlater
  obtain ⟨v, hv, hnode⟩ := hasked
  rw [List.append_nil] at hv
  exact ainvoke_unasked hfirst v hv hnode

/-- The tiers of a row. -/
theorem row_overridden {s : AgentState} (h : Classified s) {r : RunRow}
    (hllm : r.riskTierLlm = s.riskTierLlm) (hfinal : r.riskTierFinal = s.riskTierFinal.bind asText)
    (hfloor : r.redundancyFloorApplied = s.redundancyFloorApplied.getD false) :
    (r.riskTierLlm != r.riskTierFinal) = (r.redundancyFloorApplied || forcedHigh r) ∧
      ¬ (r.redundancyFloorApplied = true ∧ forcedHigh r = true) := by
  unfold forcedHigh
  rw [hllm, hfinal, hfloor]
  obtain ⟨hllm, hfinal, hfloor⟩ | ⟨llm, final, floor, hllm, hfinal, hfloor, hover⟩ := h
  · rw [hllm, hfinal, hfloor]
    exact ⟨rfl, by decide⟩
  · rw [hllm, hfinal, hfloor]
    simp only [Option.bind_some, asText, Option.getD_some]
    cases floor with
    | true =>
      obtain ⟨rfl, rfl⟩ := hover.floored.mp rfl
      exact ⟨by decide, by decide⟩
    | false =>
      refine ⟨?_, fun h => nomatch h.1⟩
      obtain rfl | rfl := hover.kept rfl
      · simp
      · simp

theorem sound_row
    (h : runScenario digest scenario mode approverId runId world moves waits = some (vs, record))
    (hstamped : Stamped record.auditRecords) (seconds : ℚ) (measured : Measured) :
    Sound (row seconds waits measured record) := by
  obtain ⟨past, d, hreturned⟩ := returned_of_runScenario h
  have hsum := run_summed hreturned.run
  have hown := hreturned.tells.1
  have hasked := waits_of_asked h
  obtain ⟨firstSuspension, overall, hrecord⟩ := hreturned.record_eq
  rw [hown] at hrecord
  rw [hreturned.visits_eq, hreturned.ended] at hsum
  obtain ⟨hover, honce⟩ := row_overridden (r := row seconds waits measured record) hsum.classified
    (by rw [hrecord]; rfl) (by rw [hrecord]; rfl) (by rw [hrecord]; rfl)
  refine ⟨?_, hover, honce, ?_, ?_, ?_⟩
  · intro hgated
    have htier : ∃ tier, d.state.riskTierFinal = some (.str tier) ∧ tier ≠ "low" := by
      simp only [gated, row, hrecord, runRecord, Bool.or_eq_true, beq_iff_eq, bind_asText_eq]
        at hgated
      obtain hmedium | hhigh := hgated
      · exact ⟨"medium", hmedium, by decide⟩
      · exact ⟨"high", hhigh, by decide⟩
    obtain ⟨tier, htier, hlow⟩ := htier
    obtain hmark | hawait | ⟨v, hv, hnode⟩ := hsum.asked tier htier hlow
    · cases hmark
    · cases hawait
    · have hwaits : waits ≠ [] := hasked ⟨v, List.mem_reverse.mp hv, hnode⟩
      rw [row, approvalWaitSeconds_isSome, Bool.not_eq_true', List.isEmpty_eq_false_iff]
      exact hwaits
  · have hshown : ∀ s : RunState.State, d.state.finalState = some (.str s.value) →
        (row seconds waits measured record).finalState = some s.value := by
      intro s hs
      rw [hrecord, row, runRecord, hs, if_pos (by cases s <;> rfl)]
      rfl
    obtain ⟨hcompleted, hpassed⟩ | hescalated := hsum.final rfl
    · refine Or.inl ⟨hshown .completed hcompleted, ?_⟩
      rw [hrecord]
      exact hpassed
    · exact Or.inr (hshown .escalated hescalated)
  · rw [hrecord] at hstamped
    have hchain := (run_recorded hreturned.run).chain
    rw [hrecord]
    exact (isCompleteChain_iff hstamped).mpr hchain
  · rw [row, approvalWaitSeconds_isSome]
    cases waits <;> rfl

end Rows

/-! ### The suite -/

/-- As `numpy.percentile` is documented, it interpolates linearly between the two values next to
the rank. -/
def Linear (percentile : Percentile) : Prop :=
  ∀ values q, values ≠ [] → 0 ≤ q → q ≤ 100 →
    percentile.value values q = Percentiles.percentile values q

def linear : Percentile := ⟨Percentiles.percentile, Percentiles.percentile_sorted⟩

/-- What the metrics of a suite of the harness's own rows can be. -/
structure Scores (rows : List RunRow) (m : AllMetrics) : Prop where
  gate : m.approvalGateCompliance = full (rows.countP gated)
  rollback : m.rollbackSuccessRate = full (rows.countP (·.rollbackInvoked))
  audit : m.auditCompleteness = full rows.length
  overrides : m.policyOverrideRate =
    pct (rows.countP (·.redundancyFloorApplied) + rows.countP forcedHigh) rows.length
  remediation : m.remediationSuccessRate =
    pct (rows.countP fun r => r.finalState == some "COMPLETED") rows.length
  ended : (rows.countP fun r => r.finalState == some "COMPLETED") +
    (rows.countP fun r => r.finalState == some "ESCALATED") = rows.length
  resumed : ∀ r ∈ rows, gated r = true → r.timeToResumeMs.isSome = true
  resumes : m.timeToResumeMs.n = rows.countP (·.approvalWaitSeconds.isSome)

theorem countP_or {p q : RunRow → Bool} {rows : List RunRow}
    (h : ∀ r ∈ rows, ¬ (p r = true ∧ q r = true)) :
    rows.countP (fun r => p r || q r) = rows.countP p + rows.countP q := by
  induction rows with
  | nil => rfl
  | cons r rest ih =>
    have hrest := ih fun u hu => h u (List.mem_cons_of_mem r hu)
    have hr := h r List.mem_cons_self
    simp only [List.countP_cons, hrest]
    cases hp : p r <;> cases hq : q r
    · simp
    · simp
      omega
    · simp
      omega
    · exact absurd ⟨hp, hq⟩ hr

/-- The resume times are those of the suspended runs. -/
theorem timeToResume_n (percentile : Percentile) {rows : List RunRow}
    (h : ∀ r ∈ rows, Sound r) :
    (timeToResume percentile rows).n = rows.countP (·.approvalWaitSeconds.isSome) := by
  have hlength : (rows.filterMap (·.timeToResumeMs)).length =
      rows.countP (·.approvalWaitSeconds.isSome) := by
    rw [List.length_filterMap_eq_countP]
    exact List.countP_congr fun r hr => by rw [(h r hr).resumed]
  unfold timeToResume
  rw [← hlength]
  cases rows.filterMap (·.timeToResumeMs) <;> rfl

theorem scores_of_sound (percentile : Percentile) (scenarios : List ScenarioRow)
    {rows : List RunRow} (h : ∀ r ∈ rows, Sound r) :
    Scores rows (computeAllMetrics percentile rows scenarios) := by
  refine ⟨?_, ?_, ?_, ?_, ?_, ?_, ?_, timeToResume_n percentile h⟩
  · exact pct_filter_full (p := gated) fun r hr => (h r hr).gate
  · refine pct_filter_full (p := (·.rollbackInvoked)) fun r hr _ => ?_
    obtain ⟨hcompleted, _⟩ | hescalated := (h r hr).ended
    · simp [hcompleted]
    · simp [hescalated]
  · have hall : rows.countP (fun r => isCompleteChain r.auditRecords) = rows.length :=
      List.countP_eq_length.mpr fun r hr => (h r hr).logged
    calc pct (rows.countP fun r => isCompleteChain r.auditRecords) rows.length
        = pct rows.length rows.length := by rw [hall]
      _ = full rows.length := pct_full rows.length
  · calc pct (rows.countP fun r => r.riskTierLlm != r.riskTierFinal) rows.length
        = pct (rows.countP fun r => r.redundancyFloorApplied || forcedHigh r) rows.length := by
          rw [List.countP_congr fun r hr => by rw [(h r hr).overridden]]
      _ = pct (rows.countP (·.redundancyFloorApplied) + rows.countP forcedHigh) rows.length := by
          rw [countP_or fun r hr => (h r hr).once]
  · have hcount : (rows.countP fun r => r.finalState == some "COMPLETED" && r.verificationPassed) =
        rows.countP fun r => r.finalState == some "COMPLETED" := by
      refine List.countP_congr fun r hr => ?_
      obtain ⟨_, hpassed⟩ | hescalated := (h r hr).ended
      · simp [hpassed]
      · simp [hescalated]
    exact congrArg (pct · rows.length) hcount
  · rw [← countP_or]
    · refine List.countP_eq_length.mpr fun r hr => ?_
      obtain ⟨hcompleted, _⟩ | hescalated := (h r hr).ended
      · simp [hcompleted]
      · simp [hescalated]
    · rintro r hr ⟨hcompleted, hescalated⟩
      rw [beq_iff_eq] at hcompleted hescalated
      rw [hcompleted] at hescalated
      exact absurd hescalated (by decide)
  · intro r hr hgated
    rw [(h r hr).resumed]
    exact (h r hr).gate hgated

/-- Whatever the reasoner, the classifier and the sandbox do, the metrics that promise
something of the machine itself are constants of the harness's rows: the gate is always
complied with, a rollback always ends in a final state, the logs are always complete, a
completed run is always a verified one, and every override is a floor or a force. -/
theorem harness_scores (digest : String → String) (percentile : Percentile)
    (scenarios : List ScenarioRow) {rows : List RunRow}
    (h : ∀ r ∈ rows, ∃ mode, Written digest mode r) :
    Scores rows (computeAllMetrics percentile rows scenarios) := by
  refine scores_of_sound percentile scenarios fun r hr => ?_
  obtain ⟨mode, scenario, approverId, runId, world, moves, waits, vs, record, seconds, measured,
    hrun, hstamped, rfl⟩ := h r hr
  exact sound_row hrun hstamped seconds measured

/-- A failing restart that a reviewer approves, its rollback, and a restart of another
service that the classifier calls low. -/
def restartedThenLow : List Wait :=
  [{ moves := [.answer {}, .answer {}, .answer {}, .answer {}, .answer {}, .answer {},
        .answer {}] ++
      [.answer { proposal := { tool := "clear_cache", target := "service_c" } },
        .answer { classification := { tier := "low" } }, .answer {}, .answer {}, .answer {},
        .answer {}] }]

def measured : Measured :=
  { resumeElapsedMs := 40, totalTokens := 900, llmCalls := 5, wallClockSeconds := 3,
    computeActive := 1 }

/-- A suite of two runs: one is rolled back and completes at a low tier, the other one
completes after its approval. -/
theorem two_runs_score :
    ∃ rolledBack approved, Scores [rolledBack, approved]
        (computeAllMetrics linear [rolledBack, approved] []) ∧
      rolledBack.rollbackInvoked = true ∧ gated approved = true := by
  have hfirst : (runScenario id ⟨"s-1", "clear"⟩ .full "eval-harness" "eval-1" leakingAndFull
      (.answer {} :: gatedMoves "restart_service" "service_c") restartedThenLow).any (fun t =>
        t.2.rollbackInvoked && decide (Stamped t.2.auditRecords)) = true := by
    decide +kernel
  have hsecond : (runScenario id ⟨"s-2", "clear"⟩ .full "eval-harness" "eval-2"
      (injectFault "service_b" .memoryLeak .high (freshSandbox [])) invalidThenRestart
      [approvedRestart]).any (fun t => gated (row 2 [approvedRestart] measured t.2) &&
        decide (Stamped t.2.auditRecords)) = true := by
    decide +kernel
  obtain ⟨⟨vs, record⟩, hfirst, hcheck⟩ := (Option.any_eq_true _ _).mp hfirst
  obtain ⟨⟨vs', record'⟩, hsecond, hcheck'⟩ := (Option.any_eq_true _ _).mp hsecond
  simp only [Bool.and_eq_true, decide_eq_true_eq] at hcheck hcheck'
  refine ⟨row 2 restartedThenLow measured record, row 2 [approvedRestart] measured record',
    harness_scores id linear [] ?_, hcheck.1, hcheck'.1⟩
  intro r hr
  simp only [List.mem_cons, List.not_mem_nil, or_false] at hr
  obtain rfl | rfl := hr
  · exact ⟨.full, _, _, _, _, _, _, _, _, _, _, hfirst, hcheck.2, rfl⟩
  · exact ⟨.full, _, _, _, _, _, _, _, _, _, _, hsecond, hcheck'.2, rfl⟩

/-! ### Resume times -/

/-- The three percentiles grow, and stay between two measured times. -/
structure Ordered (rows : List RunRow) (times : ResumeTimes) : Prop where
  n_eq : times.n = rows.countP (·.timeToResumeMs.isSome)
  ordered : ∃ p50 p95 p99, times.p50 = some p50 ∧ times.p95 = some p95 ∧ times.p99 = some p99 ∧
    p50 ≤ p95 ∧ p95 ≤ p99 ∧
    ∃ a ∈ rows.filterMap (·.timeToResumeMs), ∃ b ∈ rows.filterMap (·.timeToResumeMs),
      a ≤ p50 ∧ p99 ≤ b

/-- In whatever order and number the rows come, the resume times of a suite are reported in
order and within what was measured. -/
theorem resume_times_ordered {percentile : Percentile} (hlinear : Linear percentile)
    {rows : List RunRow} (h : ∃ r ∈ rows, r.timeToResumeMs.isSome = true) :
    Ordered rows (timeToResume percentile rows) := by
  have hne : rows.filterMap (·.timeToResumeMs) ≠ [] := by
    obtain ⟨r, hr, htime⟩ := h
    obtain ⟨time, htime⟩ := Option.isSome_iff_exists.mp htime
    exact List.ne_nil_of_mem (List.mem_filterMap.mpr ⟨r, hr, htime⟩)
  obtain ⟨a, ha, _, _, hlow, _⟩ := Percentiles.percentile_between hne (q := (50 : ℚ)) (by norm_num)
  obtain ⟨_, _, b, hb, _, hhigh⟩ := Percentiles.percentile_between hne (q := (99 : ℚ)) (by norm_num)
  have hvalue : ∀ q : ℚ, 0 ≤ q → q ≤ 100 →
      percentile.value (rows.filterMap (·.timeToResumeMs)) q =
        Percentiles.percentile (rows.filterMap (·.timeToResumeMs)) q :=
    fun q => hlinear _ q hne
  have hreported : timeToResume percentile rows =
      { p50 := some (Percentiles.percentile (rows.filterMap (·.timeToResumeMs)) 50)
        p95 := some (Percentiles.percentile (rows.filterMap (·.timeToResumeMs)) 95)
        p99 := some (Percentiles.percentile (rows.filterMap (·.timeToResumeMs)) 99)
        n := (rows.filterMap (·.timeToResumeMs)).length } := by
    rw [← hvalue 50 (by norm_num) (by norm_num), ← hvalue 95 (by norm_num) (by norm_num),
      ← hvalue 99 (by norm_num) (by norm_num)]
    exact if_neg (by rwa [List.isEmpty_iff])
  rw [hreported]
  refine ⟨List.length_filterMap_eq_countP, _, _, _, rfl, rfl, rfl, ?_, ?_, a, ha, b, hb, hlow,
    hhigh⟩
  · exact Percentiles.percentile_mono _ (by norm_num) (by norm_num)
  · exact Percentiles.percentile_mono _ (by norm_num) (by norm_num)

/-- The row of a run that was resumed after so many milliseconds. -/
def resumedAfter (milliseconds : ℚ) : RunRow :=
  { scenarioId := "s-1", finalState := some "COMPLETED", proposedActions := [],
    executedActions := [], riskTierLlm := none, riskTierFinal := none,
    redundancyFloorApplied := false, approvalWaitSeconds := some 2,
    timeToResumeMs := some milliseconds, driftDetected := false, verificationPassed := true,
    rollbackInvoked := false, totalTokens := 900, llmCalls := 5, wallClockSeconds := 3,
    computeSecondsActive := 1, auditRecords := [] }

theorem two_resume_times :
    timeToResume linear [resumedAfter 40, resumedAfter 10] =
        { p50 := some 25, p95 := some (77 / 2), p99 := some (397 / 10), n := 2 } ∧
      Ordered [resumedAfter 40, resumedAfter 10]
        (timeToResume linear [resumedAfter 40, resumedAfter 10]) :=
  ⟨by decide +kernel,
    resume_times_ordered (fun _ _ _ _ _ => rfl) ⟨_, List.mem_cons_self, rfl⟩⟩

end HarnessMetrics
