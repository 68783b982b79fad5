import Interlock.Metrics

/-!
# Scores of the risk classification

Every run with a proposed action is counted for one tool, so the matrices of the tools add
up to the matrix of these runs. A class has a precision when it was predicted at all and a
recall when it occurred, and its F1 score lies between them.
-/

namespace RiskClassification

open Dictionary Grouping Metrics

/-! ### Cells -/

def row (confusion : Confusion) (actual : Tier) : ℕ := (tiers.map fun p => confusion actual p).sum

def column (confusion : Confusion) (predicted : Tier) : ℕ :=
  (tiers.map fun a => confusion a predicted).sum

/-- The sum of all nine cells. -/
def total (confusion : Confusion) : ℕ := (tiers.map (row confusion)).sum

/-- How often each pair occurs. -/
def counts (pairs : List (Tier × Tier)) : Confusion := fun actual predicted =>
  pairs.count (actual, predicted)

section Cells

variable {byId : Dict String ScenarioRow} {scenarios : List ScenarioRow}

theorem increment_apply (confusion : Confusion) (pair : Tier × Tier) (actual predicted : Tier) :
    confusion.increment pair actual predicted =
      confusion actual predicted + if (actual, predicted) = pair then 1 else 0 := by
  rw [Confusion.increment]
  split <;> rfl

/-- The loop counts the classified pairs and keeps them. -/
theorem tally_foldl (runs : List RunRow) (tally : Tally) :
    runs.foldl (Tally.count byId) tally =
      { confusion := fun actual predicted => tally.confusion actual predicted +
          counts (runs.filterMap (classified byId)) actual predicted
        pairs := tally.pairs ++ runs.filterMap (classified byId) } := by
  induction runs generalizing tally with
  | nil => simp [counts]
  | cons r rest ih =>
    rw [List.foldl_cons, ih]
    cases hpair : classified byId r with
    | none => simp only [Tally.count, hpair, List.filterMap_cons]
    | some pair =>
      simp only [Tally.count, hpair, List.filterMap_cons, List.append_assoc, List.singleton_append,
        Tally.mk.injEq, and_true]
      funext actual predicted
      rw [increment_apply, counts, counts, List.count_cons]
      by_cases hsame : (actual, predicted) = pair
      · subst hsame
        simp
        omega
      · simp [hsame, Ne.symm hsame]

/-- The pairs of the runs that are classified. -/
def pairs (scenarios : List ScenarioRow) (runs : List RunRow) : List (Tier × Tier) :=
  runs.filterMap (classified (indexScenarios scenarios))

theorem confusionMatrix_eq (runs : List RunRow) :
    (riskScores runs scenarios).confusionMatrix = counts (pairs scenarios runs) := by
  rw [riskScores, tally_foldl]
  funext actual predicted
  exact Nat.zero_add _

theorem totalClassified_eq (runs : List RunRow) :
    (riskScores runs scenarios).totalClassified = (pairs scenarios runs).length := by
  rw [riskScores, tally_foldl]
  rfl

theorem perClass_eq (runs : List RunRow) :
    (riskScores runs scenarios).perClass = classScores (counts (pairs scenarios runs)) := by
  rw [← confusionMatrix_eq]
  rfl

/-- Every pair is in one of the nine cells. -/
theorem total_counts (pairs : List (Tier × Tier)) : total (counts pairs) = pairs.length := by
  induction pairs with
  | nil => rfl
  | cons pair rest ih =>
    rw [List.length_cons, ← ih]
    obtain ⟨actual, predicted⟩ := pair
    simp only [total, row, tiers, counts, List.map_cons, List.map_nil, List.sum_cons, List.sum_nil,
      List.count_cons]
    cases actual <;> cases predicted <;> simp <;> omega

end Cells

/-! ### Scores of a class -/

section Classes

theorem pct_none_iff {numerator denominator : ℕ} :
    pct numerator denominator = none ↔ denominator = 0 := by
  rw [pct]
  split <;> simp_all

theorem pct_nonneg {numerator denominator : ℕ} {x : ℚ} (h : pct numerator denominator = some x) :
    0 ≤ x := by
  rw [pct] at h
  split at h
  · cases h
  · cases h
    positivity

/-- True and false positives make up the column, true positives and false negatives the row. -/
theorem others_add (confusion : Confusion) (tier : Tier) :
    confusion tier tier + ((tiers.filter (· ≠ tier)).map fun other => confusion other tier).sum =
        column confusion tier ∧
      confusion tier tier + ((tiers.filter (· ≠ tier)).map fun other => confusion tier other).sum =
        row confusion tier := by
  cases tier <;> simp [tiers, column, row] <;> omega

/-- The harmonic mean of two numbers lies between them. -/
theorem harmonic_between {p r : ℚ} (hp : 0 ≤ p) (hr : 0 ≤ r) (hsum : 0 < p + r) :
    min p r ≤ 2 * p * r / (p + r) ∧ 2 * p * r / (p + r) ≤ max p r := by
  rw [le_div_iff₀ hsum, div_le_iff₀ hsum]
  rcases le_total p r with hle | hle
  · rw [min_eq_left hle, max_eq_right hle]
    constructor
    · nlinarith
    · nlinarith
  · rw [min_eq_right hle, max_eq_left hle]
    constructor
    · nlinarith
    · nlinarith

theorem f1Score_between {precision recallRate : Option ℚ} {f1 : ℚ}
    (hprecision : ∀ p, precision = some p → 0 ≤ p) (hrecall : ∀ r, recallRate = some r → 0 ≤ r)
    (h : f1Score precision recallRate = some f1) :
    ∃ p r, precision = some p ∧ recallRate = some r ∧ min p r ≤ f1 ∧ f1 ≤ max p r := by
  cases precision with
  | none => cases h
  | some p =>
    cases recallRate with
    | none => cases h
    | some r =>
      rw [f1Score] at h
      split at h
      · rename_i hsum
        cases h
        exact ⟨p, r, rfl, rfl, harmonic_between (hprecision p rfl) (hrecall r rfl) hsum⟩
      · cases h

end Classes

/-- What the scores of a class are to the matrix. -/
structure Coherent (s : RiskScores) : Prop where
  total : s.totalClassified = total s.confusionMatrix
  precision : ∀ tier, (s.perClass tier).precision = none ↔ column s.confusionMatrix tier = 0
  recallRate : ∀ tier, (s.perClass tier).recallRate = none ↔ row s.confusionMatrix tier = 0
  f1 : ∀ tier f1, (s.perClass tier).f1 = some f1 →
    ∃ precision recallRate, (s.perClass tier).precision = some precision ∧
      (s.perClass tier).recallRate = some recallRate ∧
      min precision recallRate ≤ f1 ∧ f1 ≤ max precision recallRate

theorem coherent (runs : List RunRow) (scenarios : List ScenarioRow) :
    Coherent (riskScores runs scenarios) where
  total := by rw [totalClassified_eq, confusionMatrix_eq, total_counts]
  precision := by
    intro tier
    rw [perClass_eq, confusionMatrix_eq, ← (others_add _ tier).1]
    exact pct_none_iff
  recallRate := by
    intro tier
    rw [perClass_eq, confusionMatrix_eq, ← (others_add _ tier).2]
    exact pct_none_iff
  f1 := by
    intro tier f1 h
    rw [perClass_eq] at h ⊢
    exact f1Score_between (fun _ => pct_nonneg) (fun _ => pct_nonneg) h

/-- The matrices of the tools add up to the matrix of the runs with a proposed action, and
so do the totals; every result is coherent. -/
theorem tools_decompose (runs : List RunRow) (scenarios : List ScenarioRow) :
    (∀ actual predicted,
      ((riskScoresByTool runs scenarios).values.map (·.confusionMatrix actual predicted)).sum =
        (riskScores (runs.filter fun r => !r.proposedActions.isEmpty) scenarios).confusionMatrix
          actual predicted) ∧
      ((riskScoresByTool runs scenarios).values.map (·.totalClassified)).sum =
        (riskScores (runs.filter fun r => !r.proposedActions.isEmpty) scenarios).totalClassified ∧
      Coherent (riskScores runs scenarios) ∧
      ∀ s ∈ (riskScoresByTool runs scenarios).values, Coherent s := by
  have hattributed : (fun r : RunRow => (lastTool r).isSome) =
      fun r => !r.proposedActions.isEmpty := by
    funext r
    rw [lastTool, Option.isSome_map, Bool.eq_iff_iff, List.getLast?_isSome]
    simp
  rw [riskScoresByTool, Dict.values_map]
  refine ⟨?_, ?_, coherent runs scenarios, ?_⟩
  · intro actual predicted
    rw [List.map_map, ← hattributed, confusionMatrix_eq]
    have hsum := sum_groups (fun runs => counts (pairs scenarios runs) actual predicted) rfl
      (fun l m => by rw [pairs, List.filterMap_append, counts, List.count_append]; rfl)
      lastTool runs
    simpa only [Function.comp_def, confusionMatrix_eq] using hsum
  · rw [List.map_map, ← hattributed, totalClassified_eq]
    have hsum := sum_groups (fun runs => (pairs scenarios runs).length) rfl
      (fun l m => by rw [pairs, List.filterMap_append, List.length_append]; rfl) lastTool runs
    simpa only [Function.comp_def, totalClassified_eq] using hsum
  · intro s hs
    obtain ⟨toolRuns, _, rfl⟩ := List.mem_map.mp hs
    exact coherent toolRuns scenarios

end RiskClassification
