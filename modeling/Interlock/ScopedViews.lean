import Interlock.LocalReadings
import Mathlib.Data.Multiset.Basic
import Mathlib.Data.Set.Function

/-!
# How fine a fingerprint is

What an action may depend on in a sweep, as its tool scopes it. If the digest keeps the texts
apart that occur, then two sweeps have the same fingerprint for an action exactly if they have
the same view in its scope: nothing outside counts as drift, and everything inside does.
-/

namespace ScopedViews

open Dictionary PythonValues MockService RecordsTable Tools DiagnosticSweep Fingerprint
open CanonicalJson LocalReadings EditedActions

/-- What a tool depends on. -/
inductive View where
  | load (status : String) (memoryPct cpuPct errorRate : ℚ)
  | disk (usedPct : ℚ)
  | version (status deployedVersion : String)
  | status (status : String)
  | rows (ids : Multiset Int)
  deriving DecidableEq

/-- The ids of the rows of a kind, each as often as it occurs. -/
def idsOfKind (kind : String) (obs : Observations) : Multiset Int :=
  ↑((obs.records.filter fun r => r.kind == kind).map Row.id)

/-- The view of a sweep in the scope of an action. -/
def scopedView (obs : Observations) (tool target : String) : Option View :=
  if tool = "delete_records" then some (.rows (idsOfKind target obs))
  else
    (obs.services.get? target).bind fun o =>
      if tool = "clear_cache" then o.disk.map fun disk => .disk disk.usedPct
      else if tool = "rollback_deployment" then
        some (.version o.health.status o.metrics.deployedVersion)
      else if tool = "apply_config_change" then some (.status o.health.status)
      else some (.load o.health.status o.metrics.memoryPct o.metrics.cpuPct o.metrics.errorRate)

/-- The canonical texts that occur in any of the sweeps. -/
def texts (sweeps : Set Observations) : Set String :=
  {text | ∃ obs ∈ sweeps, ∃ tool target fields,
    relevantFields obs tool target = .ok fields ∧ text = dumps fields}

/-- Nothing in the scope of the action differs; other services, rows of other kinds, the logs
and the order of rows and keys may. -/
def SameInScope (o₁ o₂ : Observations) (tool target : String) : Prop :=
  if tool = "delete_records" then
    (o₁.records.filter fun r => r.kind == target).Perm (o₂.records.filter fun r => r.kind == target)
  else reading target o₁ = reading target o₂

section Views

variable {o₁ o₂ : Observations} {tool target : String}

theorem insertionSort_eq_iff {l m : List Int} :
    l.insertionSort (· ≤ ·) = m.insertionSort (· ≤ ·) ↔ (l : Multiset Int) = m := by
  rw [Multiset.coe_eq_coe]
  constructor
  · intro h
    have hl := List.perm_insertionSort (· ≤ ·) l
    rw [h] at hl
    exact hl.symm.trans (List.perm_insertionSort (· ≤ ·) m)
  · intro h
    have hsame : (l.insertionSort (· ≤ ·)).Perm (m.insertionSort (· ≤ ·)) :=
      (List.perm_insertionSort _ l).trans (h.trans (List.perm_insertionSort _ m).symm)
    exact hsame.eq_of_pairwise (fun a b _ _ => le_antisymm) (List.pairwise_insertionSort _ l)
      (List.pairwise_insertionSort _ m)

theorem relevantFields_delete (obs : Observations) (target : String) :
    relevantFields obs "delete_records" target = .ok [("kind", .str target),
      ("ids", .ints (((obs.records.filter (fun r => r.kind == target)).map Row.id).insertionSort
        (· ≤ ·)))] := rfl

/-- The fields that are hashed tell as much as the view. -/
theorem fields_eq_iff_view {f₁ f₂ : List (String × FieldValue)}
    (h₁ : relevantFields o₁ tool target = .ok f₁) (h₂ : relevantFields o₂ tool target = .ok f₂)
    (htool : tool ∈ knownTools)
    (hs₁ : tool ≠ "delete_records" → ∃ o, o₁.services.get? target = some o ∧
      (tool = "clear_cache" → o.disk.isSome = true))
    (hs₂ : tool ≠ "delete_records" → ∃ o, o₂.services.get? target = some o ∧
      (tool = "clear_cache" → o.disk.isSome = true)) :
    f₁ = f₂ ↔ scopedView o₁ tool target = scopedView o₂ tool target := by
  by_cases hdelete : tool = "delete_records"
  · subst hdelete
    rw [relevantFields_delete] at h₁ h₂
    cases h₁
    cases h₂
    simp only [scopedView, if_true, idsOfKind, Option.some.injEq, View.rows.injEq,
      ← insertionSort_eq_iff, List.cons.injEq, Prod.mk.injEq, FieldValue.ints.injEq, true_and,
      and_true]
  · obtain ⟨p, hp, hdisk⟩ := hs₁ hdelete
    obtain ⟨q, hq, hdisk'⟩ := hs₂ hdelete
    simp only [knownTools, List.mem_cons, List.not_mem_nil, or_false] at htool
    rcases htool with rfl | rfl | rfl | rfl | rfl | rfl
    · have hf₁ := serviceFields_load hp
      have hf₂ := serviceFields_load hq
      cases hf₁.symm.trans h₁
      cases hf₂.symm.trans h₂
      simp [scopedView, hp, hq]
    · have hf₁ := serviceFields_load hp
      have hf₂ := serviceFields_load hq
      cases hf₁.symm.trans h₁
      cases hf₂.symm.trans h₂
      simp [scopedView, hp, hq]
    · exact absurd rfl hdelete
    · obtain ⟨d, hd⟩ := Option.isSome_iff_exists.mp (hdisk rfl)
      obtain ⟨d', hd'⟩ := Option.isSome_iff_exists.mp (hdisk' rfl)
      have hf₁ := relevantFields_disk hp hd
      have hf₂ := relevantFields_disk hq hd'
      cases hf₁.symm.trans h₁
      cases hf₂.symm.trans h₂
      simp [scopedView, hp, hq, hd, hd']
    · have hf₁ := serviceFields_status hp
      have hf₂ := serviceFields_status hq
      cases hf₁.symm.trans h₁
      cases hf₂.symm.trans h₂
      simp [scopedView, hp, hq]
    · have hf₁ := serviceFields_version hp
      have hf₂ := serviceFields_version hq
      cases hf₁.symm.trans h₁
      cases hf₂.symm.trans h₂
      simp [scopedView, hp, hq]

theorem scopedView_same (h : SameInScope o₁ o₂ tool target) :
    scopedView o₁ tool target = scopedView o₂ tool target := by
  unfold SameInScope at h
  split at h
  · rename_i hdelete
    have hids : idsOfKind target o₁ = idsOfKind target o₂ :=
      Multiset.coe_eq_coe.mpr (h.map Row.id)
    rw [scopedView, scopedView, if_pos hdelete, if_pos hdelete, hids]
  · rename_i hdelete
    rw [scopedView, scopedView, if_neg hdelete, if_neg hdelete]
    rcases reading_cases h with ⟨hnone, hnone'⟩ | ⟨p, q, hp, hq, hhealth, hmetrics, hdisk⟩
    · rw [hnone, hnone']
    · rw [hp, hq]
      simp only [Option.bind_some, hhealth, hmetrics, hdisk]

end Views

/-- Without collisions among the texts that occur, an accepted action has the same
fingerprint in two sweeps exactly if the sweeps have the same view in its scope. -/
theorem fingerprint_eq_iff_view (digest : String → String) {sweeps : Set Observations}
    (hsweeps : ∀ obs ∈ sweeps, ∃ w, gatherObservations w = .ok obs)
    (hdigest : Set.InjOn digest (texts sweeps)) {action tool target : String}
    (hsplit : splitColon action = .ok (tool, target)) {o₁ o₂ : Observations} (h₁ : o₁ ∈ sweeps)
    (h₂ : o₂ ∈ sweeps) (hvalid : validateProposal o₁ action = .ok none) :
    (computeFingerprint digest o₁ action = computeFingerprint digest o₂ action ↔
      scopedView o₁ tool target = scopedView o₂ tool target) ∧
    (SameInScope o₁ o₂ tool target →
      computeFingerprint digest o₁ action = computeFingerprint digest o₂ action) := by
  obtain ⟨w₁, hw₁⟩ := hsweeps o₁ h₁
  obtain ⟨w₂, hw₂⟩ := hsweeps o₂ h₂
  have hvalid₂ : validateProposal o₂ action = .ok none :=
    (validateProposal_sweep hw₁ hw₂ action).symm.trans hvalid
  obtain ⟨tool₁, target₁, hsplit₁, htool, _, hs₁⟩ := validateProposal_none hvalid
  obtain ⟨tool₂, target₂, hsplit₂, _, _, hs₂⟩ := validateProposal_none hvalid₂
  rw [hsplit] at hsplit₁ hsplit₂
  cases hsplit₁
  cases hsplit₂
  obtain ⟨f₁, hf₁⟩ := relevantFields_of_known htool hs₁
  obtain ⟨f₂, hf₂⟩ := relevantFields_of_known htool hs₂
  have hc₁ : computeFingerprint digest o₁ action = .ok (digest (dumps f₁)) :=
    computeFingerprint_ok_iff.mpr ⟨tool, target, f₁, hsplit, hf₁, rfl⟩
  have hc₂ : computeFingerprint digest o₂ action = .ok (digest (dumps f₂)) :=
    computeFingerprint_ok_iff.mpr ⟨tool, target, f₂, hsplit, hf₂, rfl⟩
  have htext₁ : dumps f₁ ∈ texts sweeps := ⟨o₁, h₁, tool, target, f₁, hf₁, rfl⟩
  have htext₂ : dumps f₂ ∈ texts sweeps := ⟨o₂, h₂, tool, target, f₂, hf₂, rfl⟩
  have hiff : computeFingerprint digest o₁ action = computeFingerprint digest o₂ action ↔
      scopedView o₁ tool target = scopedView o₂ tool target := by
    rw [hc₁, hc₂, Except.ok.injEq, hdigest.eq_iff htext₁ htext₂, dumps_eq_iff hf₁ hf₂,
      fields_eq_iff_view hf₁ hf₂ htool hs₁ hs₂]
  exact ⟨hiff, fun hsame => hiff.mpr (scopedView_same hsame)⟩

/-- A fault of one service is drift for its own restart, and none for another's. -/
theorem fault_is_drift_in_scope :
    ∃ o₁ o₂, gatherObservations (freshSandbox []) = .ok o₁ ∧
      gatherObservations (injectFault "service_b" .memoryLeak .high (freshSandbox [])) = .ok o₂ ∧
      computeFingerprint id o₁ "restart_service:service_a" =
        computeFingerprint id o₂ "restart_service:service_a" ∧
      computeFingerprint id o₁ "restart_service:service_b" ≠
        computeFingerprint id o₂ "restart_service:service_b" := by
  have hcheck : (gatherObservations (freshSandbox [])).toOption.any (fun o₁ =>
      (gatherObservations (injectFault "service_b" .memoryLeak .high
        (freshSandbox []))).toOption.any fun o₂ =>
          decide ((validateProposal o₁ "restart_service:service_a").toOption = some none) &&
          decide ((validateProposal o₁ "restart_service:service_b").toOption = some none) &&
          decide (scopedView o₁ "restart_service" "service_a" =
            scopedView o₂ "restart_service" "service_a") &&
          !decide (scopedView o₁ "restart_service" "service_b" =
            scopedView o₂ "restart_service" "service_b")) = true := by
    decide +kernel
  cases h₁ : gatherObservations (freshSandbox []) with
  | error e =>
    rw [h₁] at hcheck
    cases hcheck
  | ok o₁ =>
    cases h₂ : gatherObservations (injectFault "service_b" .memoryLeak .high (freshSandbox [])) with
    | error e =>
      rw [h₁, h₂] at hcheck
      cases hcheck
    | ok o₂ =>
      rw [h₁, h₂] at hcheck
      obtain ⟨hcheck, hdiffer⟩ := Bool.and_eq_true_iff.mp hcheck
      simp only [Bool.and_eq_true, decide_eq_true_eq, Bool.not_eq_true',
        decide_eq_false_iff_not] at hcheck hdiffer
      obtain ⟨⟨hvalid, hvalid'⟩, hsame⟩ := hcheck
      have hsweeps : ∀ obs ∈ ({o₁, o₂} : Set Observations), ∃ w, gatherObservations w = .ok obs := by
        rintro obs (rfl | rfl)
        · exact ⟨_, h₁⟩
        · exact ⟨_, h₂⟩
      have hdigest : Set.InjOn id (texts {o₁, o₂}) := Function.injective_id.injOn
      have hsplit : ∀ service, splitColon ("restart_service" ++ ":" ++ service) =
          .ok ("restart_service", service) := splitColon_tool (by decide)
      obtain ⟨hiff, _⟩ := fingerprint_eq_iff_view id hsweeps hdigest (hsplit "service_a")
        (Or.inl rfl) (Or.inr rfl) (eq_ok_of_toOption hvalid)
      obtain ⟨hiff', _⟩ := fingerprint_eq_iff_view id hsweeps hdigest (hsplit "service_b")
        (Or.inl rfl) (Or.inr rfl) (eq_ok_of_toOption hvalid')
      exact ⟨o₁, o₂, rfl, rfl, hiff.mpr hsame, fun heq => hdiffer (hiff'.mp heq)⟩

end ScopedViews
