import Interlock.Compensations
import Interlock.Dispatching
import Interlock.DriftDetection

/-!
# What a steady revalidation says about the effect

The fingerprint holds what the sweep shows of the symptoms. What a tool overwrites
beyond that, and so what its compensation restores, can have changed without drift:
the replicas, a configuration value, the versions below the deployed one.
-/

namespace ApprovedEffects

open Dictionary PythonValues MockService Tools DiagnosticSweep Fingerprint Execution Effects
open RunState Nodes Dispatching ReachableSandbox Compensations Suspension DriftDetection Relation
open NodeRuns (revalidateUpdate revalidate_run)

/-! ### The effect of an execution -/

/-- A request of somebody else to a service, answered or refused. -/
def ByOthers (w w' : ToolContext) : Prop :=
  ∃ (α : Type) (endpoint : Endpoint α) (service : String), IsRoute endpoint ∧
    w' = ((post service endpoint).run w).2

/-- A valid action was anchored to a sweep of `w`, and revalidated in `w'` without drift. -/
structure Steady (rt : Runtime) (st : AgentState) (action : String) (w w' : ToolContext) :
    Prop where
  proposed : st.proposedAction = some (.str action)
  anchored : ∃ obs f, gatherObservations w = .ok obs ∧ validateProposal obs action = .ok none ∧
    computeFingerprint rt.digest obs action = .ok f ∧ st.stateFingerprint = some (some f)
  revalidated : ∃ update w'', (revalidate rt st).run w' = (.ok update, w'') ∧
    .driftDetected false ∈ update

/-- The compensation that an execution registers; one that raises registers none. -/
def registered (action : String) (parameters : Json) (key : String) (w : ToolContext) :
    Option Compensation :=
  ((executeAction action parameters key).run w).1.toOption.map Outcome.compensation

def deployedVersion (w : ToolContext) (service : String) : Option String :=
  (versionsOf w service).bind List.getLast?

/-- The version below the deployed one. -/
def previousVersion (w : ToolContext) (service : String) : Option String :=
  (versionsOf w service).bind fun versions => versions.dropLast.getLast?

def configValue (w : ToolContext) (service key : String) : Option String :=
  (configOf w service).bind fun config => config.get? key

/-- Executed in `w'`, the action registers the compensation that it would have
registered in `w`, and a rollback lands on the version it would have landed on. -/
structure SameEffect (action : String) (parameters : Json) (key : String)
    (w w' : ToolContext) : Prop where
  compensation : registered action parameters key w' = registered action parameters key w
  version : ∀ service, dispatch action parameters = .ok (.rollbackDeployment service) →
    deployedVersion ((executeAction action parameters key).run w').2 service =
      deployedVersion ((executeAction action parameters key).run w).2 service

/-- What the call overwrites and no fingerprint of it holds is the same. -/
def UnhashedAgree (w w' : ToolContext) : ToolCall → Prop
  | .scaleService service _ => replicasOf w' service = replicasOf w service
  | .applyConfigChange service key _ => configValue w' service key = configValue w service key
  | .rollbackDeployment service => previousVersion w' service = previousVersion w service
  | _ => True

section Executions

variable {action : String} {parameters : Json} {key : String} {w w₁ : ToolContext}
variable {call : ToolCall} {o : Outcome}

theorem registered_of_performed (hcall : dispatch action parameters = .ok call)
    (h : w.store.get? key = none) (hp : call.perform.run w = (.ok o, w₁)) :
    registered action parameters key w = some o.compensation := by
  rw [registered, executeAction_miss hcall h hp]
  rfl

end Executions

/-! ### What others and sweeps leave in place -/

section Sweeps

variable {target : String} {w w' : ToolContext}

theorem store_post {α : Type} (service : String) (endpoint : Endpoint α) (w : ToolContext) :
    ((post service endpoint).run w).2.store = w.store := by
  rw [run_post]
  cases w.client service <;> rfl

theorem store_of_others (h : ReflTransGen ByOthers w w') : w'.store = w.store := by
  induction h with
  | refl => rfl
  | tail _ hop ih =>
    obtain ⟨α, endpoint, service, _, rfl⟩ := hop
    rw [store_post, ih]

/-- A swept service shows its deployed version and, where it has to, a disk. -/
theorem swept_service {obs : Observations} (h : gatherObservations w = .ok obs)
    (hknown : target ∈ knownServices) :
    ∃ s o, w.clients.get? target = some s ∧ obs.services.get? target = some o ∧
      s.deployedVersion = .ok o.metrics.deployedVersion ∧
      (hasDisk target = true → s.hasDisk = true) ∧ (o.disk.isSome = hasDisk target) := by
  obtain ⟨o, ho, hget⟩ := (gather_service h target).1 hknown
  obtain ⟨s, metrics, hs, hm, hdisk, rfl⟩ := observeService_ok ho
  refine ⟨s, _, hs, hget, ?_, hdisk, ?_⟩
  · obtain ⟨m, hmetrics, hfields⟩ := except_bind_ok_iff.mp hm
    obtain ⟨v, hv, hmade⟩ := except_bind_ok_iff.mp hmetrics
    cases hmade
    cases hfields
    exact hv
  · rw [shown]
    split <;> simp_all

theorem getLast?_of_deployed {s : ServiceState} {v : String} (h : s.deployedVersion = .ok v) :
    s.versionHistory.getLast? = some v := by
  unfold ServiceState.deployedVersion at h
  split at h
  · rename_i u hu
    cases h
    exact hu
  · cases h

theorem known_of_swept {obs : Observations} {o : ServiceObservation}
    (h : gatherObservations w = .ok obs) (ho : obs.services.get? target = some o) :
    target ∈ knownServices := by
  by_contra hnot
  rw [(gather_service h target).2 hnot] at ho
  cases ho

end Sweeps

/-! ### Tool by tool -/

section Tools

variable {action target key : String} {parameters : Json} {w w' : ToolContext} {call : ToolCall}
variable {s s' : ServiceState}

theorem toolCall_scale_ok (h : toolCall "scale_service" target parameters = .ok call) :
    ∃ replicas, call = .scaleService target replicas := by
  rw [toolCall_scale] at h
  obtain ⟨_, _, h⟩ := except_bind_ok_iff.mp h
  obtain ⟨replicas, _, h⟩ := except_bind_ok_iff.mp h
  cases h
  exact ⟨replicas, rfl⟩

theorem toolCall_config_ok (h : toolCall "apply_config_change" target parameters = .ok call) :
    ∃ configKey value, call = .applyConfigChange target configKey value := by
  rw [toolCall_config] at h
  obtain ⟨_, _, h⟩ := except_bind_ok_iff.mp h
  obtain ⟨_, _, h⟩ := except_bind_ok_iff.mp h
  obtain ⟨configKey, _, h⟩ := except_bind_ok_iff.mp h
  obtain ⟨value, _, h⟩ := except_bind_ok_iff.mp h
  cases h
  exact ⟨configKey, value, rfl⟩

theorem toolCall_rollback_ok {tool service : String}
    (h : toolCall tool target parameters = .ok (.rollbackDeployment service)) :
    tool = "rollback_deployment" ∧ service = target := by
  obtain ⟨htool, htarget⟩ := named_by_call h
  exact ⟨htool.symm, htarget⟩

/-- Apart from rollbacks the effect in question is the registered compensation. -/
theorem sameEffect_iff_registered (hcall : dispatch action parameters = .ok call)
    (hnot : ∀ service, call ≠ .rollbackDeployment service) :
    SameEffect action parameters key w w' ↔
      registered action parameters key w' = registered action parameters key w := by
  constructor
  · exact fun h => h.compensation
  · intro h
    refine ⟨h, ?_⟩
    intro service hrollback
    rw [hcall] at hrollback
    exact absurd (Except.ok.inj hrollback) (hnot service)

theorem sameEffect_of_performed {o o' : Outcome} {w₁ w₁' : ToolContext}
    (hcall : dispatch action parameters = .ok call)
    (hnot : ∀ service, call ≠ .rollbackDeployment service) (hs : w.store.get? key = none)
    (hs' : w'.store.get? key = none) (hp : call.perform.run w = (.ok o, w₁))
    (hp' : call.perform.run w' = (.ok o', w₁')) :
    SameEffect action parameters key w w' ↔ o'.compensation = o.compensation := by
  rw [sameEffect_iff_registered hcall hnot, registered_of_performed hcall hs hp,
    registered_of_performed hcall hs' hp', Option.some.injEq]

theorem versionsOf_setClient (s : ServiceState) (store : Dict String LedgerEntry) :
    versionsOf { w.setClient target s with store := store } target = some s.versionHistory := by
  simp [versionsOf]

/-- The compensation of a rollback deploys the version it left, and the rollback lands
on the one below; with nothing below it raises and changes nothing. -/
theorem rollback_effect (hcall : dispatch action parameters = .ok (.rollbackDeployment target))
    (hclient : w.clients.get? target = some s) (hs : w.store.get? key = none) :
    (previousVersion w target = none ∧ registered action parameters key w = none ∧
      deployedVersion ((executeAction action parameters key).run w).2 target =
        deployedVersion w target) ∨
    ∃ u v, previousVersion w target = some u ∧ deployedVersion w target = some v ∧
      registered action parameters key w = some (.deploy target v) ∧
      deployedVersion ((executeAction action parameters key).run w).2 target = some u := by
  have hversions : versionsOf w target = some s.versionHistory := by
    rw [versionsOf, hclient]
    rfl
  by_cases hshort : s.versionHistory.length < 2
  · have hp : (performRollbackDeployment target).run w =
        (.error (.httpStatusError 400), w) := by
      have hpost : (post target postRollback).run w = (.error (.httpStatusError 400), w) := by
        rw [run_post, ToolContext.client_ok_iff.mpr hclient]
        simp only [postRollback_short hshort, ToolContext.setClient_self hclient]
      rw [performRollbackDeployment, Action.run_bind_of_error hpost]
    have hrun := executeAction_refused hcall hs hp
    refine Or.inl ⟨?_, ?_, ?_⟩
    · have hnone : s.versionHistory.dropLast = [] := by
        rw [← List.length_eq_zero_iff, List.length_dropLast]
        omega
      rw [previousVersion, hversions, Option.bind_some, hnone]
      rfl
    · rw [registered, hrun]
      rfl
    · rw [hrun]
  · obtain ⟨older, u, v, hsplit⟩ := two_versions (not_lt.mp hshort)
    have hp := performRollbackDeployment_ok_iff.mpr ⟨s, older, u, v, hclient, hsplit, rfl, rfl⟩
    refine Or.inr ⟨u, v, ?_, ?_, registered_of_performed hcall hs hp, ?_⟩
    · rw [previousVersion, hversions, hsplit]
      simp
    · rw [deployedVersion, hversions, hsplit]
      simp
    · rw [executeAction_miss hcall hs hp, deployedVersion, versionsOf_setClient]
      simp [ServiceState.clearTransient]

/-- Two rollbacks from the same deployed version have the same effect exactly if they land
on the same version. -/
theorem rollback_effect_iff (hcall : dispatch action parameters = .ok (.rollbackDeployment target))
    (hclient : w.clients.get? target = some s) (hclient' : w'.clients.get? target = some s')
    (hs : w.store.get? key = none) (hs' : w'.store.get? key = none)
    (hdeployed : deployedVersion w' target = deployedVersion w target) :
    SameEffect action parameters key w w' ↔
      previousVersion w' target = previousVersion w target := by
  have hservice : ∀ service, dispatch action parameters = .ok (.rollbackDeployment service) →
      service = target := by
    intro service h
    rw [hcall] at h
    cases h
    rfl
  rcases rollback_effect hcall hclient hs with ⟨hnone, hreg, hland⟩ | ⟨u, v, hsome, hv, hreg, hland⟩
  · rcases rollback_effect hcall hclient' hs' with ⟨hnone', hreg', hland'⟩ |
      ⟨u', v', hsome', hv', hreg', hland'⟩
    · rw [hnone, hnone']
      refine iff_of_true ⟨by rw [hreg, hreg'], ?_⟩ rfl
      intro service h
      rw [hservice service h, hland, hland', hdeployed]
    · rw [hnone, hsome']
      refine iff_of_false (fun h => ?_) (by simp)
      have hsame := h.compensation
      rw [hreg, hreg'] at hsame
      cases hsame
  · rcases rollback_effect hcall hclient' hs' with ⟨hnone', hreg', hland'⟩ |
      ⟨u', v', hsome', hv', hreg', hland'⟩
    · rw [hnone', hsome]
      refine iff_of_false (fun h => ?_) (by simp)
      have hsame := h.compensation
      rw [hreg, hreg'] at hsame
      cases hsame
    · rw [hsome, hsome']
      constructor
      · intro h
        have hversion := h.version target hcall
        rw [hland, hland'] at hversion
        exact hversion
      · intro hu
        refine ⟨?_, ?_⟩
        · rw [hv, hv'] at hdeployed
          rw [hreg, hreg', Option.some.inj hdeployed]
        · intro service h
          rw [hservice service h, hland, hland', hu]

end Tools

/-! ### No drift, same effect -/

section Steady

variable {rt : Runtime} {st : AgentState} {w w' : ToolContext} {obs : Observations}
variable {action target key : String} {parameters : Json}

/-- Without drift a rollback finds the version deployed that the proposal saw. -/
theorem deployed_of_steady {fresh : Observations} (hsweep : gatherObservations w = .ok obs)
    (hfresh : gatherObservations w' = .ok fresh) (hknown : target ∈ knownServices)
    (hsplit : splitColon action = .ok ("rollback_deployment", target))
    (hfields : observedFields fresh action = observedFields obs action) :
    deployedVersion w' target = deployedVersion w target := by
  obtain ⟨s, o, hs, ho, hv, _⟩ := swept_service hsweep hknown
  obtain ⟨s', o', hs', ho', hv', _⟩ := swept_service hfresh hknown
  have hshown : ∀ {x : Observations} {y : ServiceObservation},
      x.services.get? target = some y → observedFields x action =
        .ok [("status", .str y.health.status), ("deployed_version", .str y.metrics.deployedVersion)] := by
    intro x y hy
    rw [observedFields, hsplit]
    exact serviceFields_version hy
  rw [hshown ho, hshown ho'] at hfields
  have hsame : o'.metrics.deployedVersion = o.metrics.deployedVersion := by
    simpa using (List.cons.inj (List.cons.inj (Except.ok.inj hfields)).2).1
  rw [deployedVersion, deployedVersion, versionsOf, versionsOf, hs, hs']
  simp only [Option.map_some, Option.bind_some]
  rw [getLast?_of_deployed hv, getLast?_of_deployed hv', hsame]

/-- Performed rather than replayed, the effect is the same exactly if what the call
overwrites unhashed is the same. -/
theorem sameEffect_iff_unhashed {fresh : Observations} {call : ToolCall}
    (hsweep : gatherObservations w = .ok obs) (hfresh : gatherObservations w' = .ok fresh)
    (hvalid : validateProposal obs action = .ok none)
    (hservice : ∀ target, splitColon action ≠ .ok ("delete_records", target))
    (hfields : observedFields fresh action = observedFields obs action)
    (hcall : dispatch action parameters = .ok call) (hs : w.store.get? key = none)
    (hs' : w'.store.get? key = none) :
    SameEffect action parameters key w w' ↔ UnhashedAgree w w' call := by
  obtain ⟨tool, target, hsplit, htool, _, hgrounded⟩ := validateProposal_none hvalid
  have hdelete : tool ≠ "delete_records" := by
    rintro rfl
    exact hservice target hsplit
  obtain ⟨o, ho, hclear⟩ := hgrounded hdelete
  have hknown := known_of_swept hsweep ho
  obtain ⟨s, _, hclient, ho', _, hdisk, hshown⟩ := swept_service hsweep hknown
  obtain ⟨s', _, hclient', _, _, hdisk', _⟩ := swept_service hfresh hknown
  rw [ho] at ho'
  cases ho'
  have hcalled := hcall
  rw [dispatch_of_split hsplit] at hcalled
  simp only [knownTools, List.mem_cons, List.not_mem_nil, or_false] at htool
  rcases htool with rfl | rfl | rfl | rfl | rfl | rfl
  · cases hcalled
    have hp := performRestartService_ok_iff.mpr ⟨s, hclient, rfl, rfl⟩
    have hp' := performRestartService_ok_iff.mpr ⟨s', hclient', rfl, rfl⟩
    rw [sameEffect_of_performed hcall (by simp) hs hs' hp hp']
    exact iff_of_true rfl trivial
  · obtain ⟨replicas, rfl⟩ := toolCall_scale_ok hcalled
    have hp : ∀ {x t}, x.clients.get? target = some t → ∃ x₁,
        (performScaleService target replicas).run x =
          (.ok ⟨.scaled ⟨t.name, t.replicas, replicas⟩, .scaleService target t.replicas⟩, x₁) :=
      fun h => ⟨_, performScaleService_ok_iff.mpr ⟨_, h, rfl, rfl⟩⟩
    obtain ⟨w₁, hp₁⟩ := hp hclient
    obtain ⟨w₂, hp₂⟩ := hp hclient'
    rw [sameEffect_of_performed hcall (by simp) hs hs' hp₁ hp₂]
    simp [UnhashedAgree, replicasOf, hclient, hclient']
  · exact absurd rfl hdelete
  · cases hcalled
    have hd : hasDisk target = true := by rw [← hshown]; exact hclear rfl
    have hp := performClearCache_ok_iff.mpr ⟨s, hclient, hdisk hd, rfl, rfl⟩
    have hp' := performClearCache_ok_iff.mpr ⟨s', hclient', hdisk' hd, rfl, rfl⟩
    rw [sameEffect_of_performed hcall (by simp) hs hs' hp hp']
    exact iff_of_true rfl trivial
  · obtain ⟨configKey, value, rfl⟩ := toolCall_config_ok hcalled
    have hp : ∀ {x t}, x.clients.get? target = some t → ∃ x₁,
        (performApplyConfigChange target configKey value).run x =
          (.ok ⟨.configured ⟨t.name, configKey, t.config.get? configKey, value⟩,
            .applyConfigChange target configKey (t.config.get? configKey)⟩, x₁) :=
      fun h => ⟨_, performApplyConfigChange_ok_iff.mpr ⟨_, h, rfl, rfl⟩⟩
    obtain ⟨w₁, hp₁⟩ := hp hclient
    obtain ⟨w₂, hp₂⟩ := hp hclient'
    rw [sameEffect_of_performed hcall (by simp) hs hs' hp₁ hp₂]
    simp [UnhashedAgree, configValue, configOf, hclient, hclient']
  · cases hcalled
    exact rollback_effect_iff hcall hclient hclient' hs hs'
      (deployed_of_steady hsweep hfresh hknown hsplit hfields)

/-- A replay returns the recorded outcome and changes nothing. -/
theorem sameEffect_of_replay {call : ToolCall} {existing : LedgerEntry}
    (hcall : dispatch action parameters = .ok call) (hs : w.store.get? key = some existing)
    (hs' : w'.store.get? key = some existing)
    (hdeployed : ∀ service, call = .rollbackDeployment service →
      deployedVersion w' service = deployedVersion w service) :
    SameEffect action parameters key w w' := by
  have hrun := executeAction_hit hcall hs
  have hrun' := executeAction_hit hcall hs'
  refine ⟨by rw [registered, registered, hrun, hrun'], ?_⟩
  intro service h
  rw [hcall] at h
  rw [hrun, hrun']
  exact hdeployed service (Except.ok.inj h)

/-- Revalidated without drift, a service-targeting action has the effect that it would have
had on the sandbox it was proposed for, exactly if a call that the ledger does not
replay finds the unhashed part of its component unchanged: the replicas, the value of
the configuration key, the version below the deployed one. -/
theorem effect_unchanged_iff (hdigest : Function.Injective rt.digest)
    (hservice : ∀ target, splitColon action ≠ .ok ("delete_records", target))
    (hothers : ReflTransGen ByOthers w w') (h : Steady rt st action w w') (parameters : Json)
    (key : String) :
    SameEffect action parameters key w w' ↔
      ∀ call, dispatch action parameters = .ok call → w.store.get? key = none →
        UnhashedAgree w w' call := by
  obtain ⟨obs, f, hsweep, hvalid, hanchor, hstored⟩ := h.anchored
  obtain ⟨_, _, hrun, hsteady⟩ := h.revalidated
  obtain ⟨_, fresh, action', g, anchored, hfresh, haction, hg, hanchored, rfl⟩ :=
    revalidate_ok hrun
  rw [h.proposed] at haction
  cases haction
  rw [hstored] at hanchored
  cases hanchored
  have hsame : g = f := by
    by_contra hne
    simp [hne] at hsteady
  have hfields := (fingerprints_agree_iff hdigest hg hanchor).mp hsame
  have hstore := store_of_others hothers
  cases hcall : dispatch action parameters with
  | error e =>
    refine iff_of_true ?_ (fun _ h => by cases h)
    refine ⟨by rw [registered, registered, executeAction_undispatched hcall,
      executeAction_undispatched hcall], ?_⟩
    intro service h
    rw [hcall] at h
    cases h
  | ok call =>
    cases hs : w.store.get? key with
    | some existing =>
      refine iff_of_true ?_ (fun _ _ h => by cases h)
      refine sameEffect_of_replay hcall hs (by rw [hstore, hs]) ?_
      rintro service rfl
      obtain ⟨tool, target, hsplit, _, _, hgrounded⟩ := validateProposal_none hvalid
      rw [dispatch_of_split hsplit] at hcall
      obtain ⟨rfl, rfl⟩ := toolCall_rollback_ok hcall
      obtain ⟨o, ho, _⟩ := hgrounded (by decide)
      exact deployed_of_steady hsweep hfresh (known_of_swept hsweep ho) hsplit hfields
    | none =>
      have hs' : w'.store.get? key = none := by rw [hstore, hs]
      rw [sameEffect_iff_unhashed hsweep hfresh hvalid hservice hfields hcall hs hs']
      exact ⟨fun h _ heq _ => by cases heq; exact h, fun h => h call rfl rfl⟩

end Steady

/-! ### A value that the fingerprint does not hold -/

/-- Somebody else has turned the log level of `service_a` up. -/
def debugging : ToolContext :=
  ((post "service_a" (postConfig "log_level" (some "debug"))).run (freshSandbox [])).2

def quieter : Json := .obj [("key", .str "log_level"), ("value", .str "warning")]

/-- A sweep, the check of the proposal and its fingerprint, as one computation. -/
def anchoredOn (w : ToolContext) (action : String) : Except PyError (Option String × String) := do
  let obs ← gatherObservations w
  return (← validateProposal obs action, ← computeFingerprint id obs action)

theorem anchoredOn_ok {w : ToolContext} {action f : String} {reason : Option String}
    (h : anchoredOn w action = .ok (reason, f)) :
    ∃ obs, gatherObservations w = .ok obs ∧ validateProposal obs action = .ok reason ∧
      computeFingerprint id obs action = .ok f := by
  obtain ⟨obs, hobs, h⟩ := except_bind_ok_iff.mp h
  obtain ⟨reason', hreason, h⟩ := except_bind_ok_iff.mp h
  obtain ⟨f', hf, h⟩ := except_bind_ok_iff.mp h
  cases h
  exact ⟨obs, hobs, hreason, hf⟩

theorem steady_of_anchored {w w' : ToolContext} {action : String}
    (h : (anchoredOn w action).toOption = (anchoredOn w' action).toOption)
    (hvalid : (anchoredOn w action).toOption.any (fun p => p.1.isNone) = true) :
    ∃ st, Steady { digest := id } st action w w' := by
  obtain ⟨⟨reason, f⟩, hsome, hnone⟩ := (Option.any_eq_true _ _).mp hvalid
  have hreason : reason = none := Option.isNone_iff_eq_none.mp hnone
  subst hreason
  have hok : ∀ {x : ToolContext}, (anchoredOn x action).toOption = some (none, f) →
      anchoredOn x action = .ok (none, f) := by
    intro x hx
    exact eq_ok_of_toOption hx
  obtain ⟨obs, hsweep, hchecked, hf⟩ := anchoredOn_ok (hok hsome)
  obtain ⟨fresh, hfresh, _, hg⟩ := anchoredOn_ok (hok (h.symm.trans hsome))
  refine ⟨{ proposedAction := some (.str action), stateFingerprint := some (some f) }, rfl,
    ⟨obs, f, hsweep, hchecked, hf, rfl⟩, _, _, revalidate_run rfl hfresh hg rfl, ?_⟩
  simp [revalidateUpdate]

theorem config_action_steady :
    ∃ st, Steady { digest := id } st "apply_config_change:service_a" (freshSandbox []) debugging :=
  steady_of_anchored (by decide +kernel) (by decide +kernel)

/-- The change of the log level drifts nowhere, and the compensation of the approved one
restores another level than the proposal would have had restored. -/
theorem config_compensation_differs :
    ∃ st, ReflTransGen ByOthers (freshSandbox []) debugging ∧
      Steady { digest := id } st "apply_config_change:service_a" (freshSandbox []) debugging ∧
      ¬ SameEffect "apply_config_change:service_a" quieter "run-1:apply_config_change:service_a"
        (freshSandbox []) debugging := by
  obtain ⟨st, hst⟩ := config_action_steady
  refine ⟨st, .single ⟨_, _, "service_a", .config "log_level" (some "debug"), rfl⟩, hst, ?_⟩
  intro h
  have hregistered := h.compensation
  have hdiffers : registered "apply_config_change:service_a" quieter
      "run-1:apply_config_change:service_a" debugging ≠
      registered "apply_config_change:service_a" quieter
        "run-1:apply_config_change:service_a" (freshSandbox []) := by decide +kernel
  exact hdiffers hregistered

/-- A restart of the same service has the effect that was approved. -/
theorem restart_effect_unchanged :
    ∃ st, Steady { digest := id } st "restart_service:service_a" (freshSandbox []) debugging ∧
      SameEffect "restart_service:service_a" (.obj []) "run-1:restart_service:service_a"
        (freshSandbox []) debugging := by
  obtain ⟨st, hst⟩ : ∃ st, Steady { digest := id } st "restart_service:service_a"
      (freshSandbox []) debugging := steady_of_anchored (by decide +kernel) (by decide +kernel)
  refine ⟨st, hst, (effect_unchanged_iff Function.injective_id ?_
    (.single ⟨_, _, "service_a", .config "log_level" (some "debug"), rfl⟩) hst _ _).mpr ?_⟩
  · intro target h
    have hsplit : splitColon "restart_service:service_a" = .ok ("restart_service", "service_a") := rfl
    simp [hsplit] at h
  · intro call hcall _
    cases hcall
    trivial

end ApprovedEffects
