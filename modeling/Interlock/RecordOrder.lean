import Interlock.RiskClassification

/-!
# Metrics and the order of the records

A metric counts records, adds them up or sorts what it takes of them, so that it comes out
the same over the same records in another order. Only the samples of the idle ratio stand
in the order of their records.
-/

namespace RecordOrder

open Dictionary Grouping Metrics RiskClassification

/-- The same metrics, but for the order of the samples and of the tools. -/
structure SameMetrics (m m' : AllMetrics) : Prop where
  average : m.computeIdleRatio.average = m'.computeIdleRatio.average
  samples : m.computeIdleRatio.samples.Perm m'.computeIdleRatio.samples
  byTool : ∀ tool, m.riskClassificationByTool.get? tool = m'.riskClassificationByTool.get? tool
  others : m' = { m with
    computeIdleRatio := m'.computeIdleRatio
    riskClassificationByTool := m'.riskClassificationByTool }

section Shares

variable {runs runs' : List RunRow} {scenarios : List ScenarioRow}

/-- A share of all records. -/
theorem share_perm (h : runs.Perm runs') (p : RunRow → Bool) :
    pct (runs.countP p) runs.length = pct (runs'.countP p) runs'.length := by
  rw [h.countP_eq, h.length_eq]

/-- A share of some of them. -/
theorem share_of_perm (h : runs.Perm runs') (p q : RunRow → Bool) :
    pct ((runs.filter q).countP p) (runs.filter q).length =
      pct ((runs'.filter q).countP p) (runs'.filter q).length :=
  share_perm (h.filter q) p

theorem unsafeActionPreventionRate_perm (h : runs.Perm runs') :
    unsafeActionPreventionRate runs scenarios = unsafeActionPreventionRate runs' scenarios := by
  have hoverall := share_perm h (safe (indexScenarios scenarios))
  have htrap := share_of_perm h (safe (indexScenarios scenarios))
    (hasCategory (indexScenarios scenarios) "trap")
  have hcount := (h.filter (hasCategory (indexScenarios scenarios) "trap")).length_eq
  simp only [unsafeActionPreventionRate, SafetyRates.mk.injEq]
  exact ⟨hoverall, htrap, h.length_eq, hcount⟩

theorem stalenessDetectionRate_perm (h : runs.Perm runs') :
    stalenessDetectionRate runs scenarios = stalenessDetectionRate runs' scenarios := by
  have hstale := share_of_perm h (·.driftDetected)
    (hasCategory (indexScenarios scenarios) "staleness")
  have hother := share_of_perm h (·.driftDetected)
    (fun r => !hasCategory (indexScenarios scenarios) "staleness" r)
  simp only [stalenessDetectionRate, hstale, hother]

end Shares

section Scores

variable {runs runs' : List RunRow} (scenarios : List ScenarioRow)

theorem riskScores_eq (runs : List RunRow) :
    riskScores runs scenarios =
      { perClass := classScores (counts (pairs scenarios runs))
        confusionMatrix := counts (pairs scenarios runs)
        totalClassified := (pairs scenarios runs).length } := by
  rw [← confusionMatrix_eq, ← totalClassified_eq]
  rfl

theorem riskScores_perm (h : runs.Perm runs') :
    riskScores runs scenarios = riskScores runs' scenarios := by
  have hpairs : (pairs scenarios runs).Perm (pairs scenarios runs') :=
    h.filterMap (classified (indexScenarios scenarios))
  have hcounts : counts (pairs scenarios runs) = counts (pairs scenarios runs') := by
    funext actual predicted
    exact hpairs.count_eq (actual, predicted)
  rw [riskScores_eq, riskScores_eq, hcounts, hpairs.length_eq]

/-- The records of a tool are the same ones, so that its scores are the same. -/
theorem riskScoresByTool_perm (h : runs.Perm runs') (tool : String) :
    (riskScoresByTool runs scenarios).get? tool = (riskScoresByTool runs' scenarios).get? tool := by
  have hgroup := h.filter fun r => decide (lastTool r = some tool)
  rw [riskScoresByTool, riskScoresByTool, Dict.get?_map, Dict.get?_map, get?_groups, get?_groups]
  by_cases hnone : runs.filter (fun r => decide (lastTool r = some tool)) = []
  · have hnone' : runs'.filter (fun r => decide (lastTool r = some tool)) = [] := by
      rw [hnone] at hgroup
      exact hgroup.symm.eq_nil
    rw [if_pos hnone, if_pos hnone']
  · have hsome : runs'.filter (fun r => decide (lastTool r = some tool)) ≠ [] := by
      intro hnil
      rw [hnil] at hgroup
      exact hnone hgroup.eq_nil
    rw [if_neg hnone, if_neg hsome, Option.map_some, Option.map_some,
      riskScores_perm scenarios hgroup]

end Scores

section Samples

variable {runs runs' : List RunRow}

theorem idleSamples_perm (h : runs.Perm runs') :
    (computeIdleRatio runs).samples.Perm (computeIdleRatio runs').samples :=
  h.filterMap idleSample

theorem isEmpty_perm {α : Type} {l l' : List α} (h : l.Perm l') : l.isEmpty = l'.isEmpty := by
  rw [Bool.eq_iff_iff, List.isEmpty_iff_length_eq_zero, List.isEmpty_iff_length_eq_zero,
    h.length_eq]

theorem idleAverage_perm (h : runs.Perm runs') :
    (computeIdleRatio runs).average = (computeIdleRatio runs').average := by
  have hsamples := h.filterMap idleSample
  have hsum := (hsamples.map IdleSample.idleRatio).sum_eq
  simp only [computeIdleRatio, isEmpty_perm hsamples, hsum, hsamples.length_eq]

theorem percentile_perm (percentile : Percentile) {values values' : List ℚ}
    (h : values.Perm values') (q : ℚ) : percentile.value values q = percentile.value values' q := by
  have hsorted : values.insertionSort (· ≤ ·) = values'.insertionSort (· ≤ ·) := by
    have hperm : (values.insertionSort (· ≤ ·)).Perm (values'.insertionSort (· ≤ ·)) :=
      (List.perm_insertionSort _ values).trans (h.trans (List.perm_insertionSort _ values').symm)
    exact hperm.eq_of_pairwise' (List.pairwise_insertionSort _ values)
      (List.pairwise_insertionSort _ values')
  rw [← percentile.sorted values, ← percentile.sorted values', hsorted]

theorem timeToResume_perm (percentile : Percentile) (h : runs.Perm runs') :
    timeToResume percentile runs = timeToResume percentile runs' := by
  have hvalues := h.filterMap (·.timeToResumeMs)
  simp only [timeToResume, isEmpty_perm hvalues, percentile_perm percentile hvalues,
    hvalues.length_eq]

theorem costPerRun_perm (h : runs.Perm runs') : costPerRun runs = costPerRun runs' := by
  have htokens := (h.map RunRow.totalTokens).sum_eq
  have hcalls := (h.map RunRow.llmCalls).sum_eq
  simp only [costPerRun, isEmpty_perm h, htokens, hcalls, h.length_eq]

end Samples

/-- Records in another order are read alike, or one of them is not read in either. -/
theorem mapM_perm {α β : Type} (read : α → Option β) {l l' : List α} (h : l.Perm l') :
    Option.Rel List.Perm (l.mapM read) (l'.mapM read) := by
  induction h with
  | nil => exact .some .nil
  | @cons a l l' _ ih =>
    rw [List.mapM_cons, List.mapM_cons]
    generalize l.mapM read = rows, l'.mapM read = rows' at ih ⊢
    cases read a with
    | none => exact .none
    | some b =>
      cases ih with
      | some hperm => exact .some (hperm.cons b)
      | none => exact .none
  | swap a a' l =>
    rw [List.mapM_cons, List.mapM_cons, List.mapM_cons, List.mapM_cons]
    cases read a with
    | none => cases read a' <;> exact .none
    | some b =>
      cases read a' with
      | none => exact .none
      | some b' =>
        cases l.mapM read with
        | none => exact .none
        | some bs => exact .some (.swap b b' bs)
  | @trans l l' l'' _ _ ih ih' =>
    generalize l.mapM read = rows, l'.mapM read = rows', l''.mapM read = rows'' at ih ih' ⊢
    cases ih with
    | some hperm =>
      cases ih' with
      | some hperm' => exact .some (hperm.trans hperm')
    | none =>
      cases ih' with
      | none => exact .none

/-- The metrics do not depend on the order of the records. -/
theorem sameMetrics_of_perm (percentile : Percentile) (scenarios : List ScenarioRow)
    {runs runs' : List RunRow} (h : runs.Perm runs') :
    SameMetrics (computeAllMetrics percentile runs scenarios)
      (computeAllMetrics percentile runs' scenarios) where
  average := idleAverage_perm h
  samples := idleSamples_perm h
  byTool := riskScoresByTool_perm scenarios h
  others := by
    simp only [computeAllMetrics, AllMetrics.mk.injEq, true_and]
    refine ⟨unsafeActionPreventionRate_perm h.symm, share_of_perm h.symm _ _,
      riskScores_perm scenarios h.symm, share_perm h.symm _, share_perm h.symm _,
      timeToResume_perm percentile h.symm, stalenessDetectionRate_perm h.symm,
      share_perm h.symm _, share_perm h.symm _, share_of_perm h.symm _ _, share_perm h.symm _,
      costPerRun_perm h.symm, h.symm.length_eq⟩

end RecordOrder
