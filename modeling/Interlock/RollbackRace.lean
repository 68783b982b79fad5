import Interlock.ApprovedEffects
import Interlock.Fleets

/-!
# Rollbacks that race

Runs wait with the same rollback of one service, each anchored to the same deployed
version. A revalidation protects against what happened before it, and nothing is held
between it and the execution: the release is rolled back once as long as a run
revalidates only while no other is on its way to execute.
-/

namespace RollbackRace

open Dictionary PythonValues MockService Tools DiagnosticSweep Fingerprint Execution Effects
open RunState Nodes Graph Transitions Walks Suspension DecisionHonoured DriftDetection
open ReachableSandbox Compensations ApprovedEffects Fleets

/-! ### Approved rollbacks -/

/-- The sweep in the state saw this version of the service. -/
def Saw (service version : String) (s : AgentState) : Prop :=
  ∃ obs o, s.observations = some obs ∧ obs.services.get? service = some o ∧
    o.metrics.deployedVersion = version

/-- A run that waits for the approval of the action, and was anchored to a sweep that saw
the version. -/
structure Approvable (rt : Runtime) (action service version : String) (run : Standing) : Prop where
  reached : ∃ runId initialState world past c, Run rt anyone runId initialState world past c ∧
    c.state = run.state ∧ c.next = run.next
  waits : run.next = some .awaitApproval
  action : run.state.proposedAction = some (.str action)
  saw : Saw service version run.state

/-- The steps of an approval: the decision, which approves the action as it is, the
revalidation, the preparation and the execution. -/
def Approving {ι : Type} (l : ι × Visit) : Prop :=
  l.2.node ∈ [Node.awaitApproval, .revalidate, .prepareExecution, .execute] ∧
    (l.2.node = .awaitApproval → ∃ d : DecisionRequest, d.decision = .approved ∧ d.edit = none ∧
      l.2.answers.decision = d.resume)

/-- Revalidated and not executed yet. -/
def OnItsWay (run : Standing) : Prop :=
  run.next = some .prepareExecution ∨ run.next = some .execute

/-- A run revalidates only while no other is on its way to execute. -/
def InTurns {ι : Type} (f : Fleet ι) (l : ι × Visit) : Prop :=
  l.2.node = .revalidate → ∀ j, j ≠ l.1 → ¬ OnItsWay (f.runs j)

/-- An execution that is not answered from the ledger. -/
def performs (v : Visit) : Bool :=
  decide (v.node = .execute) && v.before.idempotencyKey.any fun key =>
    match key with
    | .str text => (v.worldBefore.store.get? text).isNone
    | _ => false

/-- At most one run performs its rollback; whoever revalidates after it finds drift and
replans; and the service is at most one version behind. -/
structure RolledBackOnce {ι : Type} (rt : Runtime) (service : String) (start : ToolContext)
    (past : List (ι × Visit)) (f : Fleet ι) : Prop where
  once : (past.filter fun l => performs l.2).length ≤ 1
  drift : Along (fun earlier l => l.2.node = .revalidate → (∃ k ∈ earlier, performs k.2 = true) →
    l.2.after.driftDetected = some (.bool true) ∧ l.2.Led rt (some .replan)) past
  versions : versionsOf f.world service = versionsOf start service ∨
    versionsOf f.world service = (versionsOf start service).map List.dropLast

/-! ### One run -/

section Runs

variable {rt : Runtime} {action service version : String}

/-- The action, anchored to a sweep that saw the version. -/
def AnchoredAt (rt : Runtime) (action service version : String) (s : AgentState) : Prop :=
  s.proposedAction = some (.str action) ∧ ∃ obs o f, obs.services.get? service = some o ∧
    o.metrics.deployedVersion = version ∧ computeFingerprint rt.digest obs action = .ok f ∧
    s.stateFingerprint = some (some f)

theorem Approvable.anchored {run : Standing} (h : Approvable rt action service version run) :
    AnchoredAt rt action service version run.state := by
  obtain ⟨runId, initialState, world, past, c, hrun, hstate, hnext⟩ := h.reached
  have hs := suspended_of_run hrun (hnext.trans h.waits)
  rw [hstate] at hs
  obtain ⟨obs, action', f, hobs, haction, hf, hstored⟩ := hs.anchored
  rw [h.action] at haction
  cases haction
  obtain ⟨obs', o, hobs', ho, hversion⟩ := h.saw
  rw [hobs] at hobs'
  cases hobs'
  exact ⟨h.action, obs, o, f, ho, hversion, hf, hstored⟩

theorem AnchoredAt.congr {s t : AgentState} (h : AnchoredAt rt action service version s)
    (haction : t.proposedAction = s.proposedAction)
    (hf : t.stateFingerprint = s.stateFingerprint) : AnchoredAt rt action service version t := by
  obtain ⟨hs, obs, o, f, ho, hversion, hcompute, hstored⟩ := h
  exact ⟨haction.trans hs, obs, o, f, ho, hversion, hcompute, hf.trans hstored⟩

variable {v : Visit} {next : Option Node}

theorem observed_version {obs : Observations} {o : ServiceObservation}
    (hsplit : splitColon action = .ok ("rollback_deployment", service))
    (ho : obs.services.get? service = some o) :
    observedFields obs action =
      .ok [("status", .str o.health.status), ("deployed_version", .str o.metrics.deployedVersion)] := by
  rw [observedFields, hsplit]
  exact serviceFields_version ho

/-- A fingerprint of a rollback comes from a sweep that saw the service. -/
theorem seen_of_fingerprint {obs : Observations} {f : String}
    (hsplit : splitColon action = .ok ("rollback_deployment", service))
    (h : computeFingerprint rt.digest obs action = .ok f) :
    ∃ o, obs.services.get? service = some o := by
  obtain ⟨tool, target, fields, hsplit', hfields, _⟩ := computeFingerprint_ok_iff.mp h
  rw [hsplit] at hsplit'
  cases hsplit'
  change serviceFields obs service ["status", "deployed_version"] = _ at hfields
  obtain ⟨o, ho, _⟩ := except_bind_ok_iff.mp hfields
  exact ⟨o, subscript_ok_iff.mp ho⟩

/-- A revalidation lets the rollback go on only at the version it was anchored to, and
reports drift at any other. -/
theorem revalidated (hdigest : Function.Injective rt.digest)
    (hsplit : splitColon action = .ok ("rollback_deployment", service)) (h : v.Led rt next)
    (hnode : v.node = .revalidate) (hanchored : AnchoredAt rt action service version v.before) :
    v.after.proposedAction = some (.str action) ∧ v.worldAfter = v.worldBefore ∧
      ((next = some .prepareExecution ∧ deployedVersion v.worldBefore service = some version) ∨
        (next = some .replan ∧ v.after.driftDetected = some (.bool true))) := by
  obtain ⟨haction, obs, o, f, ho, hversion, hf, hstored⟩ := hanchored
  obtain ⟨hworld, fresh, action', g, anchored, hfresh, haction', hg, hanchor, hafter⟩ :=
    led_revalidate h hnode
  rw [haction] at haction'
  cases haction'
  rw [hstored] at hanchor
  cases hanchor
  have hmark : v.after.driftDetected = some (.bool (decide (some g ≠ some f))) := by rw [hafter]
  refine ⟨by rw [hafter]; exact haction, hworld, ?_⟩
  have hedge := led_edge h
  rw [hnode] at hedge
  cases hedge with
  | drifted hd htruthy =>
    rw [hmark] at hd
    cases hd
    have hdrift : decide (some g ≠ some f) = true := htruthy
    exact Or.inr ⟨rfl, by rw [hmark, hdrift]⟩
  | steady hd hfalse =>
    rw [hmark] at hd
    cases hd
    have hsteady : decide (some g ≠ some f) = false := hfalse
    rw [decide_eq_false_iff_not, not_not, Option.some.injEq] at hsteady
    obtain ⟨o', ho'⟩ := seen_of_fingerprint hsplit hg
    have hfields := (fingerprints_agree_iff hdigest hg hf).mp hsteady
    rw [observed_version hsplit ho', observed_version hsplit ho] at hfields
    have hsame : o'.metrics.deployedVersion = o.metrics.deployedVersion := by
      simpa using (List.cons.inj (List.cons.inj (Except.ok.inj hfields)).2).1
    obtain ⟨s, o'', hs, ho'', hdeployed, _⟩ := swept_service hfresh (known_of_swept hfresh ho')
    rw [ho'] at ho''
    cases ho''
    refine Or.inl ⟨rfl, ?_⟩
    rw [deployedVersion, versionsOf, hs, Option.map_some, Option.bind_some,
      getLast?_of_deployed hdeployed, hsame, hversion]

theorem performs_of_ne (h : v.node ≠ .execute) : performs v = false := by
  simp [performs, h]

/-- An execution of the rollback is answered from the ledger and changes nothing, or pops
the deployed version. -/
theorem executed (hsplit : splitColon action = .ok ("rollback_deployment", service))
    (h : v.Led rt next) (hnode : v.node = .execute)
    (haction : v.before.proposedAction = some (.str action)) :
    next = some .verify ∧ ((performs v = false ∧ v.worldAfter = v.worldBefore) ∨
      (performs v = true ∧ ∃ older u deployed,
        versionsOf v.worldBefore service = some (older ++ [u, deployed]) ∧
        versionsOf v.worldAfter service = some (older ++ [u]))) := by
  have hnext : next = some .verify := by
    have hedge := led_edge h
    rw [hnode] at hedge
    cases hedge
    rfl
  obtain ⟨action', key, outcome, haction', hkey, hrun, _⟩ := led_execute h hnode
  rw [haction] at haction'
  cases haction'
  obtain ⟨call, m, hcall, hcalled, _⟩ := executeAction_ok_iff.mp hrun
  rw [Dispatching.dispatch_of_split hsplit] at hcall
  cases hcall
  refine ⟨hnext, ?_⟩
  rcases run_ok_cases hcalled with ⟨existing, hget, _, _, hworld⟩ | ⟨hget, _, performed, hperform, hworld⟩
  · exact Or.inl ⟨by simp [performs, hkey, hget], hworld⟩
  · obtain ⟨s, older, u, deployed, hs, hversions, _, rfl⟩ :=
      performRollbackDeployment_ok_iff.mp hperform
    refine Or.inr ⟨by simp [performs, hnode, hkey, hget], older, u, deployed, ?_, ?_⟩
    · rw [versionsOf, hs, Option.map_some, hversions]
    · rw [hworld, versionsOf_setClient]
      rfl

end Runs

/-! ### The fleet -/

section Fleet

variable {ι : Type} {rt : Runtime} {action service version : String} {start : ToolContext}
variable {past : List (ι × Visit)} {f f' : Fleet ι} {i : ι} {v : Visit} {next : Option Node}

/-- Nobody has performed the rollback, or one run has and the version is another. -/
inductive Count (service version : String) (start : ToolContext) (past : List (ι × Visit))
    (f : Fleet ι) : Prop where
  | before (hnone : (past.filter fun l => performs l.2) = [])
      (hversions : versionsOf f.world service = versionsOf start service)
  | after (hone : (past.filter fun l => performs l.2).length = 1)
      (hnobody : ∀ i, ¬ OnItsWay (f.runs i))
      (hversions : versionsOf f.world service = (versionsOf start service).map List.dropLast)
      (hother : deployedVersion f.world service ≠ some version)

/-- Runs that wait are anchored to the version, and the one that is on its way finds it
deployed. -/
structure Guarded (rt : Runtime) (action service version : String) (start : ToolContext)
    (past : List (ι × Visit)) (f : Fleet ι) : Prop where
  anchored : ∀ i, (f.runs i).next = some .awaitApproval ∨ (f.runs i).next = some .revalidate →
    AnchoredAt rt action service version (f.runs i).state
  going : ∀ i, OnItsWay (f.runs i) → (f.runs i).state.proposedAction = some (.str action) ∧
    deployedVersion f.world service = some version
  alone : ∀ i j, OnItsWay (f.runs i) → OnItsWay (f.runs j) → i = j
  count : Count service version start past f

theorem Count.performed (h : Count service version start past f) :
    (past.filter fun l => performs l.2).length ≤ 1 ∧
      (versionsOf f.world service = versionsOf start service ∨
        versionsOf f.world service = (versionsOf start service).map List.dropLast) := by
  cases h with
  | before hnone hversions => exact ⟨by simp [hnone], Or.inl hversions⟩
  | after hone _ hversions _ => exact ⟨hone.le, Or.inr hversions⟩

/-- A visit that performs nothing and changes nothing keeps the count. -/
theorem Count.idle (h : Count service version start past f) (hidle : performs v = false)
    (hworld : f'.world = f.world)
    (hnobody : (∀ j, ¬ OnItsWay (f.runs j)) → deployedVersion f.world service ≠ some version →
      ∀ j, ¬ OnItsWay (f'.runs j)) : Count service version start ((i, v) :: past) f' := by
  have hfilter : (((i, v) :: past).filter fun l => performs l.2) = past.filter fun l => performs l.2 := by
    simp [hidle]
  cases h with
  | before hnone hversions => exact .before (hfilter.trans hnone) (by rw [hworld, hversions])
  | after hone hnobody' hversions hother =>
    exact .after (by rw [hfilter, hone]) (hnobody hnobody' hother) (by rw [hworld, hversions])
      (by rw [hworld]; exact hother)

/-- A popped version that was deployed on another one leaves another one deployed. -/
theorem version_popped {w w' : ToolContext} {older : List String} {u deployed : String}
    (hversioned : Versioned start) (hsame : versionsOf w service = versionsOf start service)
    (hw : versionsOf w service = some (older ++ [u, deployed]))
    (hw' : versionsOf w' service = some (older ++ [u])) :
    versionsOf w' service = (versionsOf start service).map List.dropLast ∧
      deployedVersion w' service ≠ deployedVersion w service := by
  constructor
  · rw [← hsame, hw, hw', Option.map_some, List.dropLast_append_cons]
    rfl
  · rw [hsame] at hw
    obtain ⟨s, hs, hhistory⟩ := Option.map_eq_some_iff.mp hw
    have hchain := (hversioned service s hs).2
    rw [hhistory, List.isChain_append_cons_cons] at hchain
    rw [deployedVersion, deployedVersion, hsame, hw, hw']
    simpa using hchain.2.1

theorem guarded_start {f : Fleet ι} (h : ∀ i, Approvable rt action service version (f.runs i)) :
    Guarded rt action service version f.world [] f where
  anchored := fun i _ => (h i).anchored
  going := by
    rintro i (hway | hway)
    · rw [(h i).waits] at hway
      cases hway
    · rw [(h i).waits] at hway
      cases hway
  alone := by
    rintro i j (hway | hway)
    · rw [(h i).waits] at hway
      cases hway
    · rw [(h i).waits] at hway
      cases hway
  count := .before rfl rfl

/-- The invariant after a visit, from what it says of the run that made it. -/
theorem Guarded.moved (h : Guarded rt action service version start past f)
    (hmoves : Moves rt f i v next f')
    (hanchored : next = some .awaitApproval ∨ next = some .revalidate →
      AnchoredAt rt action service version v.after)
    (hgoing : OnItsWay ⟨v.after, next⟩ → v.after.proposedAction = some (.str action) ∧
      deployedVersion f'.world service = some version)
    (hrest : ∀ j, j ≠ i → OnItsWay (f.runs j) → f'.world = f.world)
    (halone : OnItsWay ⟨v.after, next⟩ → ∀ j, j ≠ i → ¬ OnItsWay (f.runs j))
    (hcount : Count service version start ((i, v) :: past) f') :
    Guarded rt action service version start ((i, v) :: past) f' where
  anchored := by
    intro j hj
    by_cases hji : j = i
    · subst hji
      rw [hmoves.after] at hj ⊢
      exact hanchored hj
    · rw [hmoves.others j hji] at hj ⊢
      exact h.anchored j hj
  going := by
    intro j hj
    by_cases hji : j = i
    · subst hji
      rw [hmoves.after] at hj ⊢
      exact hgoing hj
    · rw [hmoves.others j hji] at hj ⊢
      rw [hrest j hji hj]
      exact h.going j hj
  alone := by
    intro j k hj hk
    by_cases hji : j = i
    · subst hji
      by_contra hkj
      rw [hmoves.others k (Ne.symm hkj)] at hk
      rw [hmoves.after] at hj
      exact halone hj k (Ne.symm hkj) hk
    · rw [hmoves.others j hji] at hj
      by_cases hki : k = i
      · subst hki
        rw [hmoves.after] at hk
        exact absurd hj (halone hk j hji)
      · rw [hmoves.others k hki] at hk
        exact h.alone j k hj hk
  count := hcount

/-- When the run that moved is not on its way and no other was, nobody is. -/
theorem nobody_moved (hmoves : Moves rt f i v next f') (hout : ¬ OnItsWay ⟨v.after, next⟩)
    (hothers : ∀ j, j ≠ i → ¬ OnItsWay (f.runs j)) : ∀ j, ¬ OnItsWay (f'.runs j) := by
  intro j
  by_cases hji : j = i
  · subst hji
    rw [hmoves.after]
    exact hout
  · rw [hmoves.others j hji]
    exact hothers j hji

theorem guarded_approved (hrt : rt.revalidate = true)
    (h : Guarded rt action service version start past f) (hmoves : Moves rt f i v next f')
    (hnode : v.node = .awaitApproval) {d : DecisionRequest} (happroved : d.decision = .approved)
    (hedit : d.edit = none) (hdecision : v.answers.decision = d.resume) :
    Guarded rt action service version start ((i, v) :: past) f' := by
  obtain ⟨rfl, haction, hf, hsame⟩ := approved_led hrt hmoves.led hnode happroved hedit hdecision
  have hanchored := h.anchored i (Or.inl (by rw [hmoves.at_node, hnode]))
  rw [← hmoves.before] at hanchored
  have hout : ¬ OnItsWay ⟨v.after, some .revalidate⟩ := by simp [OnItsWay]
  refine h.moved hmoves (fun _ => hanchored.congr haction hf) (fun hway => absurd hway hout)
    (fun _ _ _ => hmoves.still hsame) (fun hway => absurd hway hout) ?_
  exact h.count.idle (performs_of_ne (by simp [hnode])) (hmoves.still hsame)
    fun hnobody _ => nobody_moved hmoves hout fun j _ => hnobody j

/-- Once the rollback was performed, a revalidation finds drift. -/
theorem guarded_revalidated (hdigest : Function.Injective rt.digest)
    (hsplit : splitColon action = .ok ("rollback_deployment", service))
    (h : Guarded rt action service version start past f) (hmoves : Moves rt f i v next f')
    (hnode : v.node = .revalidate) (hturns : ∀ j, j ≠ i → ¬ OnItsWay (f.runs j)) :
    Guarded rt action service version start ((i, v) :: past) f' ∧
      ((∃ k ∈ past, performs k.2 = true) →
        v.after.driftDetected = some (.bool true) ∧ v.Led rt (some .replan)) := by
  have hanchored := h.anchored i (Or.inr (by rw [hmoves.at_node, hnode]))
  rw [← hmoves.before] at hanchored
  obtain ⟨haction, hsame, hcases⟩ := revalidated hdigest hsplit hmoves.led hnode hanchored
  have hstill := hmoves.still hsame
  have hidle := performs_of_ne (v := v) (by simp [hnode])
  rw [hmoves.worldBefore] at hcases
  rcases hcases with ⟨rfl, hdeployed⟩ | ⟨rfl, hdrift⟩
  · constructor
    · refine h.moved hmoves (by simp) (fun _ => ⟨haction, ?_⟩) (fun _ _ _ => hstill)
        (fun _ => hturns) (h.count.idle hidle hstill fun _ hother => absurd hdeployed hother)
      rw [hstill]
      exact hdeployed
    · rintro ⟨k, hk, hperforms⟩
      cases h.count with
      | before hnone _ =>
        have hmem : k ∈ past.filter fun l => performs l.2 := List.mem_filter.mpr ⟨hk, hperforms⟩
        rw [hnone] at hmem
        cases hmem
      | after _ _ _ hother => exact absurd hdeployed hother
  · have hout : ¬ OnItsWay ⟨v.after, some .replan⟩ := by simp [OnItsWay]
    refine ⟨?_, fun _ => ⟨hdrift, hmoves.led⟩⟩
    exact h.moved hmoves (by simp) (fun hway => absurd hway hout) (fun _ _ _ => hstill)
      (fun hway => absurd hway hout)
      (h.count.idle hidle hstill fun hnobody _ => nobody_moved hmoves hout fun j _ => hnobody j)

theorem guarded_prepared (h : Guarded rt action service version start past f)
    (hmoves : Moves rt f i v next f') (hnode : v.node = .prepareExecution) :
    Guarded rt action service version start ((i, v) :: past) f' := by
  have hway : OnItsWay (f.runs i) := Or.inl (by rw [hmoves.at_node, hnode])
  obtain ⟨haction, hdeployed⟩ := h.going i hway
  rw [← hmoves.before] at haction
  obtain ⟨hsame, _, _, _, _, hafter⟩ := led_prepareExecution hmoves.led hnode
  have hstill := hmoves.still hsame
  have hedge := led_edge hmoves.led
  rw [hnode] at hedge
  cases hedge with
  | prepared =>
    refine h.moved hmoves (by simp) (fun _ => ⟨by rw [hafter]; exact haction, ?_⟩)
      (fun _ _ _ => hstill) (fun _ j hji hj => hji (h.alone j i hj hway)) ?_
    · rw [hstill]
      exact hdeployed
    · exact h.count.idle (performs_of_ne (by simp [hnode])) hstill
        fun hnobody _ => absurd hway (hnobody i)

/-- The run that executes is the only one on its way, at the version it was anchored to. -/
theorem guarded_executed (hsplit : splitColon action = .ok ("rollback_deployment", service))
    (hversioned : Versioned start) (h : Guarded rt action service version start past f)
    (hmoves : Moves rt f i v next f') (hnode : v.node = .execute) :
    Guarded rt action service version start ((i, v) :: past) f' := by
  have hway : OnItsWay (f.runs i) := Or.inr (by rw [hmoves.at_node, hnode])
  obtain ⟨haction, hdeployed⟩ := h.going i hway
  rw [← hmoves.before] at haction
  obtain ⟨rfl, hcases⟩ := executed hsplit hmoves.led hnode haction
  have hout : ¬ OnItsWay ⟨v.after, some .verify⟩ := by simp [OnItsWay]
  have hothers : ∀ j, j ≠ i → ¬ OnItsWay (f.runs j) := fun j hji hj => hji (h.alone j i hj hway)
  refine h.moved hmoves (by simp) (fun hi => absurd hi hout)
    (fun j hji hj => absurd hj (hothers j hji)) (fun hi => absurd hi hout) ?_
  rcases hcases with ⟨hidle, hsame⟩ | ⟨hperforms, older, u, deployed, hversions, hpopped⟩
  · exact h.count.idle hidle (hmoves.still hsame) fun hnobody _ => absurd hway (hnobody i)
  · cases h.count with
    | after _ hnobody _ _ => exact absurd hway (hnobody i)
    | before hnone hunchanged =>
      rw [hmoves.worldBefore] at hversions
      rw [← hmoves.world] at hpopped
      obtain ⟨hdropped, hother⟩ := version_popped hversioned hunchanged hversions hpopped
      refine .after ?_ (nobody_moved hmoves hout hothers) hdropped ?_
      · simp only [List.filter_cons, hperforms, if_true, hnone]
        rfl
      · rw [← hdeployed]
        exact hother

variable [DecidableEq ι]

theorem guarded_step (hdigest : Function.Injective rt.digest) (hrt : rt.revalidate = true)
    (hsplit : splitColon action = .ok ("rollback_deployment", service))
    (hversioned : Versioned start) (h : Guarded rt action service version start past f)
    (hs : Fleets.Step rt f (i, v) f') (happroving : Approving (i, v)) (hturns : InTurns f (i, v)) :
    Guarded rt action service version start ((i, v) :: past) f' ∧
      (v.node = .revalidate → (∃ k ∈ past, performs k.2 = true) →
        v.after.driftDetected = some (.bool true) ∧ v.Led rt (some .replan)) := by
  obtain ⟨next, hmoves⟩ := moves_of_step hs
  obtain ⟨hnode, hdecided⟩ := happroving
  have hnot : ∀ {node : Node}, v.node = node → node ≠ .revalidate → v.node = .revalidate → False := by
    rintro _ rfl hne hrevalidate
    exact hne hrevalidate
  simp only [List.mem_cons, List.not_mem_nil, or_false] at hnode
  rcases hnode with hnode | hnode | hnode | hnode
  · obtain ⟨d, happroved, hedit, hdecision⟩ := hdecided hnode
    exact ⟨guarded_approved hrt h hmoves hnode happroved hedit hdecision,
      fun hrevalidate => (hnot hnode (by decide) hrevalidate).elim⟩
  · obtain ⟨hguarded, hdrift⟩ :=
      guarded_revalidated hdigest hsplit h hmoves hnode (hturns hnode)
    exact ⟨hguarded, fun _ => hdrift⟩
  · exact ⟨guarded_prepared h hmoves hnode,
      fun hrevalidate => (hnot hnode (by decide) hrevalidate).elim⟩
  · exact ⟨guarded_executed hsplit hversioned h hmoves hnode,
      fun hrevalidate => (hnot hnode (by decide) hrevalidate).elim⟩

/-- Any number of runs that wait with the same rollback, each anchored to the version: in
any order of their steps in which a run revalidates only while no other is on its way to
execute, the release is rolled back once. -/
theorem rolled_back_once (hdigest : Function.Injective rt.digest) (hrt : rt.revalidate = true)
    (hsplit : splitColon action = .ok ("rollback_deployment", service)) {f₀ : Fleet ι}
    (hworld : Reachable f₀.world) (hstart : ∀ i, Approvable rt action service version (f₀.runs i))
    (run : Trace ((fleet ι rt).restrict fun f l => Approving l ∧ InTurns f l) f₀ past f) :
    RolledBackOnce rt service f₀.world past f := by
  have hinv : Guarded rt action service version f₀.world past f ∧
      Along (fun earlier l => l.2.node = .revalidate → (∃ k ∈ earlier, performs k.2 = true) →
        l.2.after.driftDetected = some (.bool true) ∧ l.2.Led rt (some .replan)) past := by
    refine Trace.invariant (P := fun past f => Guarded rt action service version f₀.world past f ∧
      Along (fun earlier l => l.2.node = .revalidate → (∃ k ∈ earlier, performs k.2 = true) →
        l.2.after.driftDetected = some (.bool true) ∧ l.2.Led rt (some .replan)) past)
      ⟨guarded_start hstart, trivial⟩ ?_ run
    rintro past b ⟨i, v⟩ c _ ⟨hguarded, halong⟩ ⟨⟨happroving, hturns⟩, hs⟩
    obtain ⟨hguarded', hdrift⟩ := guarded_step hdigest hrt hsplit (versioned_of_reachable hworld)
      hguarded hs happroving hturns
    exact ⟨hguarded', hdrift, halong⟩
  obtain ⟨honce, hversions⟩ := hinv.1.count.performed
  exact ⟨honce, hinv.2, hversions⟩

end Fleet

/-! ### Two runs -/

/-- From the start of a run to its wait for approval. -/
def rollbackMoves (service : String) : List PlanningCycle.Move :=
  [.answer {}, .answer { proposal := { tool := "rollback_deployment", target := service } },
    .answer { classification := { tier := "high" } }, .answer {}]

/-- Where a run on a fresh sandbox stands when it waits for the approval of a rollback. -/
def waiting (runId : String) : Standing :=
  match PlanningCycle.play { digest := id } (rollbackMoves "service_a") []
      (startWorkflow runId {} (freshSandbox [])) with
  | some (_, c) => ⟨c.state, c.next⟩
  | none => ⟨{}, none⟩

/-- The check that a run waits with the rollback of the version. -/
def waits (runId : String) : Bool :=
  (PlanningCycle.play { digest := id } (rollbackMoves "service_a") []
    (startWorkflow runId {} (freshSandbox []))).any fun t : List Event × Config =>
      decide (t.2.next = some .awaitApproval) &&
        t.2.state.proposedAction.any (·.isStr "rollback_deployment:service_a") &&
        t.2.state.observations.any fun obs : Observations =>
          (obs.services.get? "service_a").any fun o : ServiceObservation =>
            decide (o.metrics.deployedVersion = "v1.2.0")

theorem approvable_waiting {runId : String} (h : waits runId = true) :
    Approvable { digest := id } "rollback_deployment:service_a" "service_a" "v1.2.0"
      (waiting runId) := by
  obtain ⟨⟨past, c⟩, hplay, hcheck⟩ := (Option.any_eq_true _ _).mp h
  simp only [Bool.and_eq_true, decide_eq_true_eq] at hcheck
  obtain ⟨⟨hnext, haction⟩, hsaw⟩ := hcheck
  obtain ⟨obs, hobs, hsaw⟩ := (Option.any_eq_true _ _).mp hsaw
  obtain ⟨o, ho, hversion⟩ := (Option.any_eq_true _ _).mp hsaw
  have hstanding : waiting runId = ⟨c.state, c.next⟩ := by
    rw [waiting, hplay]
  have run : Run { digest := id } anyone runId {} (freshSandbox []) past c :=
    PlanningCycle.play_trace (by simp [PlanningCycle.Allowed, rollbackMoves]) .start hplay
  rw [hstanding]
  exact ⟨⟨runId, {}, freshSandbox [], past, c, run, rfl, rfl⟩, hnext, Json.any_isStr_iff.mp haction,
    obs, o, hobs, ho, of_decide_eq_true hversion⟩

/-- Two runs that wait with the same rollback. -/
def twoRollbacks : Fleet Bool where
  runs := fun second => waiting (if second then "run-2" else "run-1")
  world := freshSandbox []

theorem approvable_twoRollbacks (second : Bool) :
    Approvable { digest := id } "rollback_deployment:service_a" "service_a" "v1.2.0"
      (twoRollbacks.runs second) := by
  cases second with
  | false => exact approvable_waiting (show waits "run-1" = true by decide +kernel)
  | true => exact approvable_waiting (show waits "run-2" = true by decide +kernel)

/-- Every visit is given the approval, which only the interrupt asks for. -/
def approvals (order : List Bool) : List (Bool × Answers) :=
  order.map fun i => (i, { decision := ({ decision := .approved } : DecisionRequest).resume })

def approvingNode (l : Bool × Visit) : Bool :=
  decide (l.2.node ∈ [Node.awaitApproval, .revalidate, .prepareExecution, .execute])

theorem approving_of_check {order : List Bool} {i : Bool} {v : Visit} (h : approvingNode (i, v) = true)
    (hanswers : ∃ m ∈ approvals order, v.answers = m.2) : Approving (i, v) := by
  refine ⟨of_decide_eq_true h, fun _ => ⟨{ decision := .approved }, rfl, rfl, ?_⟩⟩
  obtain ⟨m, hm, hv⟩ := hanswers
  obtain ⟨i, _, rfl⟩ := List.mem_map.mp hm
  rw [hv]

/-- Both runs revalidate before either executes, and the service ends two versions behind. -/
theorem both_roll_back :
    ∃ past f, Trace ((fleet Bool { digest := id }).restrict fun _ l => Approving l)
        twoRollbacks past f ∧ versionsOf f.world "service_a" = some ["v1.0.0"] ∧
      (past.filter fun l => performs l.2).length = 2 ∧
      ¬ RolledBackOnce { digest := id } "service_a" twoRollbacks.world past f := by
  obtain ⟨past, f, hplay, hcheck⟩ := played_spec
    (p := fun past (f : Fleet Bool) => decide (versionsOf f.world "service_a" = some ["v1.0.0"]) &&
      decide ((past.filter fun l : Bool × Visit => performs l.2).length = 2))
    (show played (Fleets.play { digest := id } (fun _ l => approvingNode l)
      (approvals [false, true, false, true, false, true, false, true]) [] twoRollbacks) _ = true by
        decide +kernel)
  simp only [Bool.and_eq_true, decide_eq_true_eq] at hcheck
  obtain ⟨hversions, htwice⟩ := hcheck
  refine ⟨past, f, Fleets.play_trace (fun _ _ _ => approving_of_check) .start hplay, hversions,
    htwice, ?_⟩
  intro honce
  have hle := honce.once
  rw [htwice] at hle
  omega

def inTurns (f : Fleet Bool) (l : Bool × Visit) : Bool :=
  decide (l.2.node ≠ .revalidate) || decide ((f.runs !l.1).next ∉
    [some .prepareExecution, some .execute])

theorem inTurns_of_check {f : Fleet Bool} {l : Bool × Visit} (h : inTurns f l = true) :
    InTurns f l := by
  intro hnode j hj hway
  obtain rfl : j = !l.1 := by
    rw [Bool.eq_not]
    exact hj
  simp only [inTurns, hnode, ne_eq, not_true_eq_false, decide_false, Bool.false_or,
    decide_eq_true_eq] at h
  rcases hway with hway | hway
  · exact h (by rw [hway]; simp)
  · exact h (by rw [hway]; simp)

/-- The second run revalidates after the first has executed, and replans. -/
theorem second_replans :
    ∃ past f, Trace ((fleet Bool { digest := id }).restrict fun f l => Approving l ∧ InTurns f l)
        twoRollbacks past f ∧ (f.runs true).next = some .replan ∧
      versionsOf f.world "service_a" = some ["v1.0.0", "v1.1.0"] ∧
      RolledBackOnce { digest := id } "service_a" twoRollbacks.world past f := by
  obtain ⟨past, f, hplay, hcheck⟩ := played_spec
    (p := fun _ (f : Fleet Bool) => decide ((f.runs true).next = some .replan) &&
      decide (versionsOf f.world "service_a" = some ["v1.0.0", "v1.1.0"]))
    (show played (Fleets.play { digest := id } (fun f l => approvingNode l && inTurns f l)
      (approvals [false, true, false, false, false, true]) [] twoRollbacks) _ = true by
        decide +kernel)
  simp only [Bool.and_eq_true, decide_eq_true_eq] at hcheck
  have run : Trace ((fleet Bool { digest := id }).restrict fun f l => Approving l ∧ InTurns f l)
      twoRollbacks past f := by
    refine Fleets.play_trace ?_ .start hplay
    intro f i v hpassed hanswers
    obtain ⟨happroving, hturns⟩ := Bool.and_eq_true_iff.mp hpassed
    exact ⟨approving_of_check happroving hanswers, inTurns_of_check hturns⟩
  exact ⟨past, f, run, hcheck.1, hcheck.2, rolled_back_once Function.injective_id rfl
    (by decide +kernel) (reachable_freshSandbox []) approvable_twoRollbacks run⟩

end RollbackRace
