import Interlock.DiagnosticSweep

/-!
# Deterministic risk overrides

The situation of an action's target as the last sweep saw it, and the two
overrides of the classifier's tier: tools that are always high, and the floor
under repeated actions on a service without a redundant replica.
-/

namespace RiskPolicy

open Dictionary PythonValues Tools DiagnosticSweep

def forcedHighTools : List String := ["delete_records", "rollback_deployment"]

def minRedundantReplicas : Int := 2

structure Situation where
  replicas : Int
  restartCountThisRun : Int
  errorRate : ℚ
  memoryPct : ℚ
  cpuPct : ℚ
  diskPct : Option ℚ
  hasRedundantReplica : Bool
  deriving DecidableEq, Repr

def situationalFeatures (obs : Observations) (proposedAction : String) :
    Except PyError (Option Situation) := do
  let (tool, target) ← splitColon proposedAction
  if tool = "delete_records" then return none
  match obs.services.get? target with
  | none => return none
  | some o =>
    return some {
      replicas := o.metrics.replicas
      restartCountThisRun := o.metrics.restartCount
      errorRate := o.metrics.errorRate
      memoryPct := o.metrics.memoryPct
      cpuPct := o.metrics.cpuPct
      diskPct := o.metrics.diskPct
      hasRedundantReplica := decide (minRedundantReplicas ≤ o.metrics.replicas) }

/-- A look-up that misses its service gives no situation, and raises nothing. -/
theorem situationalFeatures_total (obs : Observations) {action : String}
    {parts : String × String} (hsplit : splitColon action = .ok parts) :
    ∃ situational, situationalFeatures obs action = .ok situational := by
  unfold situationalFeatures
  rw [hsplit]
  simp only [bind, Except.bind, pure, Except.pure]
  split
  · exact ⟨_, rfl⟩
  · split <;> exact ⟨_, rfl⟩

def applyPolicy (tool llmTier : String) (situational : Option Situation) : String :=
  if tool ∈ forcedHighTools then "high"
  else
    match situational with
    | some s =>
      if llmTier = "low" ∧ s.hasRedundantReplica = false ∧ 1 ≤ s.restartCountThisRun then "medium"
      else llmTier
    | none => llmTier

/-- A final tier of low was low already, for a tool that is not forced high. -/
theorem applyPolicy_low {tool llmTier : String} {situational : Option Situation}
    (h : applyPolicy tool llmTier situational = "low") :
    tool ∉ forcedHighTools ∧ llmTier = "low" := by
  unfold applyPolicy at h
  by_cases htool : tool ∈ forcedHighTools
  · rw [if_pos htool] at h
    exact absurd h (by decide)
  · refine ⟨htool, ?_⟩
    rw [if_neg htool] at h
    cases situational with
    | none => exact h
    | some s =>
      simp only at h
      split at h
      · exact absurd h (by decide)
      · exact h

/-- The tiers the policy gives to a service without a redundant replica. -/
theorem applyPolicy_low_iff {tool llmTier : String} {s : Situation}
    (hsole : s.hasRedundantReplica = false) :
    applyPolicy tool llmTier (some s) = "low" ↔
      tool ∉ forcedHighTools ∧ llmTier = "low" ∧ s.restartCountThisRun < 1 := by
  constructor
  · intro h
    obtain ⟨htool, hlow⟩ := applyPolicy_low h
    refine ⟨htool, hlow, ?_⟩
    by_contra hcount
    have hfloor : llmTier = "low" ∧ s.hasRedundantReplica = false ∧ 1 ≤ s.restartCountThisRun :=
      ⟨hlow, hsole, by omega⟩
    simp only [applyPolicy, if_neg htool, if_pos hfloor] at h
    exact absurd h (by decide)
  · rintro ⟨htool, hlow, hcount⟩
    have hfloor : ¬ (llmTier = "low" ∧ s.hasRedundantReplica = false ∧
        1 ≤ s.restartCountThisRun) := by
      rintro ⟨_, _, hle⟩
      omega
    rw [applyPolicy, if_neg htool]
    exact (if_neg hfloor).trans hlow

end RiskPolicy
