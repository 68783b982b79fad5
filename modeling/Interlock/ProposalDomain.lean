import Interlock.Dispatching
import Interlock.RiskPolicy

/-!
# The domain of a proposal

Every stage after `validate_proposal` splits the action again and looks its target up again,
without a check of its own. The validation accepts exactly the actions for which none of these
look-ups raises, and the deletions of a known kind.
-/

namespace ProposalDomain

open Dictionary PythonValues MockService Tools DiagnosticSweep Fingerprint RiskPolicy Execution
open Dispatching

/-! ### The look-ups -/

/-- The look-ups of a tool in a sweep find what they are after. -/
def Grounded (obs : Observations) (tool target : String) : Prop :=
  tool ≠ "delete_records" → ∃ o, obs.services.get? target = some o ∧
    (tool = "clear_cache" → o.disk.isSome = true)

section LookUps

variable {obs : Observations} {action tool target : String}

theorem relevantFields_ok_iff :
    (∃ fields, relevantFields obs tool target = .ok fields) ↔
      tool ∈ knownTools ∧ Grounded obs tool target := by
  constructor
  · rintro ⟨fields, h⟩
    have hservice : ∀ {names}, serviceFields obs target names = .ok fields →
        ∃ o, obs.services.get? target = some o := by
      intro names hfields
      obtain ⟨o, ho, _⟩ := except_bind_ok_iff.mp hfields
      exact ⟨o, subscript_ok_iff.mp ho⟩
    unfold relevantFields at h
    split at h
    · rename_i hload
      obtain ⟨o, ho⟩ := hservice h
      rcases hload with rfl | rfl
      · exact ⟨by decide, fun _ => ⟨o, ho, fun hclear => absurd hclear (by decide)⟩⟩
      · exact ⟨by decide, fun _ => ⟨o, ho, fun hclear => absurd hclear (by decide)⟩⟩
    · split at h
      · rename_i hclear
        subst hclear
        obtain ⟨o, ho, h⟩ := except_bind_ok_iff.mp h
        refine ⟨by decide, fun _ => ⟨o, subscript_ok_iff.mp ho, fun _ => ?_⟩⟩
        cases hdisk : o.disk with
        | none =>
          rw [hdisk] at h
          cases h
        | some disk => rfl
      · split at h
        · rename_i hrollback
          subst hrollback
          obtain ⟨o, ho⟩ := hservice h
          exact ⟨by decide, fun _ => ⟨o, ho, fun hclear => absurd hclear (by decide)⟩⟩
        · split at h
          · rename_i hconfig
            subst hconfig
            obtain ⟨o, ho⟩ := hservice h
            exact ⟨by decide, fun _ => ⟨o, ho, fun hclear => absurd hclear (by decide)⟩⟩
          · split at h
            · rename_i hdelete
              subst hdelete
              exact ⟨by decide, fun hother => absurd rfl hother⟩
            · cases h
  · rintro ⟨htool, hgrounded⟩
    exact relevantFields_of_known htool hgrounded

theorem computeFingerprint_returns_iff {digest : String → String}
    (hsplit : splitColon action = .ok (tool, target)) :
    (∃ f, computeFingerprint digest obs action = .ok f) ↔
      tool ∈ knownTools ∧ Grounded obs tool target := by
  rw [← relevantFields_ok_iff]
  constructor
  · rintro ⟨f, h⟩
    obtain ⟨tool', target', fields, hsplit', hfields, _⟩ := computeFingerprint_ok_iff.mp h
    rw [hsplit] at hsplit'
    cases hsplit'
    exact ⟨fields, hfields⟩
  · rintro ⟨fields, h⟩
    exact ⟨_, computeFingerprint_ok_iff.mpr ⟨tool, target, fields, hsplit, h, rfl⟩⟩

theorem validateProposal_none_iff (hsplit : splitColon action = .ok (tool, target)) :
    validateProposal obs action = .ok none ↔
      (tool ∈ knownTools ∧ Grounded obs tool target) ∧
        (tool = "delete_records" → target ∈ recordKinds) := by
  constructor
  · intro h
    obtain ⟨tool', target', hsplit', htool, hkind, hservice⟩ := validateProposal_none h
    rw [hsplit] at hsplit'
    cases hsplit'
    exact ⟨⟨htool, hservice⟩, hkind⟩
  · rintro ⟨⟨htool, hgrounded⟩, hkind⟩
    unfold validateProposal
    simp only [hsplit, bind, Except.bind, not_not.mpr htool, if_false]
    by_cases hdelete : tool = "delete_records"
    · simp only [if_pos hdelete, not_not.mpr (hkind hdelete), if_false]
      rfl
    · obtain ⟨o, ho, hdisk⟩ := hgrounded hdelete
      have hsurface : ¬ (tool = "clear_cache" ∧ o.disk = none) := by
        rintro ⟨hclear, hnone⟩
        rw [hnone] at hdisk
        exact absurd (hdisk hclear) (by decide)
      simp only [if_neg hdelete, ho, if_neg hsurface]
      rfl

end LookUps

/-! ### The branches of a dispatch -/

/-- The branches of `execute_action`, as the tool inputs that they build. -/
def branches : List (String × (String → Json → Except PyError ToolCall)) :=
  [("restart_service", fun target _ => .ok (.restartService target)),
    ("scale_service", fun target parameters => do
      let replicas := (← parameters.get "replicas").getD (.int defaultScaleReplicas)
      return .scaleService target (← asInt "ScaleServiceInput" "replicas" replicas)),
    ("clear_cache", fun target _ => .ok (.clearCache target)),
    ("apply_config_change", fun target parameters => do
      let key ← parameters.getItem "key"
      let value ← parameters.getItem "value"
      let key ← asStr "ApplyConfigChangeInput" "key" key
      return .applyConfigChange target key (← asStr "ApplyConfigChangeInput" "value" value)),
    ("rollback_deployment", fun target _ => .ok (.rollbackDeployment target)),
    ("delete_records", fun target parameters => do
      let ids ← parameters.get "ids"
      return .deleteRecords target (← asOptionalInts "DeleteRecordsInput" "ids" ids))]

theorem branch_of_known {tool : String} (h : tool ∈ knownTools) :
    ∃ branch, (tool, branch) ∈ branches ∧
      ∀ target parameters, toolCall tool target parameters = branch target parameters := by
  simp only [knownTools, List.mem_cons, List.not_mem_nil, or_false] at h
  rcases h with rfl | rfl | rfl | rfl | rfl | rfl
  · exact ⟨_, .head _, fun _ _ => rfl⟩
  · exact ⟨_, .tail _ (.head _), toolCall_scale⟩
  · exact ⟨_, .tail _ (.tail _ (.tail _ (.tail _ (.tail _ (.head _))))), toolCall_delete⟩
  · exact ⟨_, .tail _ (.tail _ (.head _)), fun _ _ => rfl⟩
  · exact ⟨_, .tail _ (.tail _ (.tail _ (.head _))), toolCall_config⟩
  · exact ⟨_, .tail _ (.tail _ (.tail _ (.tail _ (.head _)))), fun _ _ => rfl⟩

/-- What the stages after a validation rely on. -/
structure Admitted (w : ToolContext) (obs : Observations) (action tool target : String) :
    Prop where
  situated : ∃ situation, situationalFeatures obs action = .ok situation
  dispatched : ∃ branch, (tool, branch) ∈ branches ∧
    ∀ parameters, dispatch action parameters = branch target parameters
  known : ∀ parameters message, dispatch action parameters ≠ .error (.valueError message)
  client : tool ≠ "delete_records" → ∃ s, w.client target = .ok s

/-- `validate_proposal` accepts exactly what has a fingerprint and deletes no unknown kind,
and whatever it accepts is in the domain of all later stages. -/
theorem validateProposal_domain (digest : String → String) {w : ToolContext} {obs : Observations}
    (h : gatherObservations w = .ok obs) (tool target : String) :
    ∃ parsedTool parsedTarget,
      splitColon (tool ++ ":" ++ target) = .ok (parsedTool, parsedTarget) ∧
      (validateProposal obs (tool ++ ":" ++ target) = .ok none ↔
        (∃ f, computeFingerprint digest obs (tool ++ ":" ++ target) = .ok f) ∧
          (parsedTool = "delete_records" → parsedTarget ∈ recordKinds)) ∧
      (validateProposal obs (tool ++ ":" ++ target) = .ok none →
        Admitted w obs (tool ++ ":" ++ target) parsedTool parsedTarget) := by
  obtain ⟨⟨parsedTool, parsedTarget⟩, hsplit⟩ := splitColon_join tool target
  refine ⟨parsedTool, parsedTarget, hsplit, ?_, ?_⟩
  · rw [validateProposal_none_iff hsplit, computeFingerprint_returns_iff hsplit]
  · intro hvalid
    obtain ⟨⟨htool, hgrounded⟩, _⟩ := (validateProposal_none_iff hsplit).mp hvalid
    obtain ⟨branch, hbranch, hcall⟩ := branch_of_known htool
    refine ⟨situationalFeatures_total obs hsplit, ⟨branch, hbranch, ?_⟩, ?_, ?_⟩
    · intro parameters
      rw [dispatch_of_split hsplit, hcall]
    · intro parameters message hraise
      rw [dispatch_of_split hsplit] at hraise
      cases reads_toolCall htool parsedTarget parameters _ hraise
    · intro hdelete
      obtain ⟨o, ho, _⟩ := hgrounded hdelete
      have hknown : parsedTarget ∈ knownServices := by
        by_contra hunknown
        rw [(gather_service h parsedTarget).2 hunknown] at ho
        cases ho
      obtain ⟨o', hobserved, _⟩ := (gather_service h parsedTarget).1 hknown
      obtain ⟨s, _, hs, _⟩ := observeService_ok hobserved
      exact ⟨s, ToolContext.client_ok_iff.mpr hs⟩

/-- A sweep of the fresh sandbox admits the restart of a service. -/
theorem restart_admitted :
    ∃ obs, gatherObservations (freshSandbox []) = .ok obs ∧
      Admitted (freshSandbox []) obs "restart_service:service_a" "restart_service" "service_a" := by
  have hcheck : (gatherObservations (freshSandbox [])).toOption.any (fun obs =>
      decide ((validateProposal obs "restart_service:service_a").toOption = some none)) = true := by
    decide +kernel
  cases hsweep : gatherObservations (freshSandbox []) with
  | error e =>
    rw [hsweep] at hcheck
    cases hcheck
  | ok obs =>
    rw [hsweep] at hcheck
    obtain ⟨tool, target, hsplit, _, hadmitted⟩ :=
      validateProposal_domain id hsweep "restart_service" "service_a"
    have hparts : splitColon ("restart_service" ++ ":" ++ "service_a") =
        .ok ("restart_service", "service_a") := splitColon_exact "service_a" (by decide)
    rw [hparts] at hsplit
    cases hsplit
    exact ⟨obs, rfl, hadmitted (eq_ok_of_toOption (of_decide_eq_true hcheck))⟩

end ProposalDomain
