import Interlock.ApprovalGate
import Interlock.Suspension

/-!
# The redundancy floor over a run

The floor under repeated actions on a sole instance counts restarts in the snapshot
of the state. The snapshot can be older than the run's own executions, and not
every execution restarts.
-/

namespace RedundancyFloor

open Dictionary PythonValues MockService Tools DiagnosticSweep Fingerprint RiskPolicy Execution
open RunState Nodes Graph Transitions Walks PlanningCycle Anchoring ApprovalGate Suspension Relation

/-- The proposed action is one on this service. -/
def ActsOn (service : String) (s : AgentState) : Prop :=
  ∃ action tool, s.proposedAction = some (.str action) ∧
    splitColon action = .ok (tool, service) ∧ tool ≠ "delete_records"

/-- The service has no redundant replica. -/
def Sole (service : String) (w : ToolContext) : Prop :=
  ∀ s, w.clients.get? service = some s → s.replicas < minRedundantReplicas

/-- Some visit executed an action on the service. -/
def Executed (service : String) (vs : List Visit) : Prop :=
  ∃ e ∈ vs, e.node = .execute ∧ ActsOn service e.before

/-- After an execution on the service nothing on it is classified low, and nothing on
it executes again without a granted approval. -/
structure FloorHolds (service : String) (vs : List Visit) : Prop where
  classified : ∀ later k older, vs = later ++ k :: older → k.node = .classifyRisk →
    ActsOn service k.before → Executed service older → k.after.riskTierFinal ≠ some (.str "low")
  gated : ∀ later v older, vs = later ++ v :: older → v.node = .execute →
    ActsOn service v.before → Executed service older →
    ∃ a ∈ since isPropose older, a.node = .awaitApproval ∧ Granted a

/-- The tool is always high, the classifier does not answer low, or the snapshot
already shows a restart. -/
def Covered (service : String) (k : Visit) : Prop :=
  ∃ action tool obs o, k.before.proposedAction = some (.str action) ∧
    splitColon action = .ok (tool, service) ∧ k.before.observations = some obs ∧
    obs.services.get? service = some o ∧
    (tool ∈ forcedHighTools ∨ k.answers.classification.tier ≠ "low" ∨ 1 ≤ o.metrics.restartCount)

/-! ### One classification -/

section Classification

variable {rt : Runtime} {others : ToolContext → ToolContext → Prop} {initialState : AgentState}
variable {world w : ToolContext} {vs older : List Visit} {s : AgentState} {next : Option Node}
variable {k : Visit} {service : String}

/-- What is about to be classified is valid in the observations at hand. -/
theorem valid_at_classification
    (walk : Walk rt others initialState world vs s (some .classifyRisk) w) :
    ∃ obs action, s.observations = some obs ∧ s.proposedAction = some (.str action) ∧
      validateProposal obs action = .ok none := by
  obtain ⟨prop, past, hprop⟩ := walk_last walk (by simp)
  obtain ⟨hpropose, hrouted⟩ := to_classifyRisk hprop
  have hvalid := valid_of_routed hprop.led hpropose hrouted
  obtain ⟨_, obs, reason, _, hobs, hreason, _, hafter⟩ := led_proposeAction hprop.led hpropose
  rw [hafter] at hvalid
  have hnone : reason = none := by simpa using hvalid
  rw [hprop.state_eq, hafter]
  exact ⟨obs, _, hobs, rfl, by rw [hreason, hnone]⟩

/-- The snapshot of a service comes from a sandbox that some visit found. -/
theorem snapshot_replicas {o : ServiceObservation} {obs : Observations}
    (walk : Walk rt others initialState world vs s next w) (hne : vs ≠ [])
    (hsole : ∀ u ∈ vs, Sole service u.worldBefore) (hobs : s.observations = some obs)
    (ho : obs.services.get? service = some o) : o.metrics.replicas < minRedundantReplicas := by
  obtain ⟨⟨u, hu, obs', hsweep, hobs'⟩, _⟩ := (walk_swept walk).resolve_left (fun h => hne h.1)
  rw [hobs] at hobs'
  cases hobs'
  obtain ⟨hin, hout⟩ := gather_service hsweep service
  have hknown : service ∈ knownServices := by
    by_contra hunknown
    rw [hout hunknown] at ho
    cases ho
  obtain ⟨o', hobserve, ho'⟩ := hin hknown
  rw [ho] at ho'
  cases ho'
  obtain ⟨st, metrics, hst, hmetrics, _, rfl⟩ := observeService_ok hobserve
  obtain ⟨m, hm, hpure⟩ := except_bind_ok_iff.mp hmetrics
  obtain ⟨version, _, hm⟩ := except_bind_ok_iff.mp hm
  cases hm
  cases hpure
  exact hsole u hu st hst

/-- The situation that one service's observation gives. -/
def situationOf (o : ServiceObservation) : Situation :=
  { replicas := o.metrics.replicas
    restartCountThisRun := o.metrics.restartCount
    errorRate := o.metrics.errorRate
    memoryPct := o.metrics.memoryPct
    cpuPct := o.metrics.cpuPct
    diskPct := o.metrics.diskPct
    hasRedundantReplica := decide (minRedundantReplicas ≤ o.metrics.replicas) }

theorem situation_of_service {obs : Observations} {action tool : String} {o : ServiceObservation}
    (hsplit : splitColon action = .ok (tool, service)) (hdelete : tool ≠ "delete_records")
    (ho : obs.services.get? service = some o) :
    situationalFeatures obs action = .ok (some (situationOf o)) := by
  rw [situationalFeatures, hsplit]
  simp [bind, Except.bind, pure, Except.pure, hdelete, ho, situationOf]

/-- The tier of an action on a sole instance, read off the snapshot. -/
theorem not_low_iff (walk : Walk rt others initialState world (k :: older) s next w)
    (hk : k.node = .classifyRisk) (hacts : ActsOn service k.before)
    (hsole : ∀ u ∈ older, Sole service u.worldBefore) :
    k.after.riskTierFinal ≠ some (.str "low") ↔ Covered service k := by
  obtain ⟨_, _, hled, u, hwalk, _⟩ := walk_cons walk
  rw [hk] at hwalk
  obtain ⟨obs, action, hobs, haction, hvalid⟩ := valid_at_classification hwalk
  obtain ⟨action', tool, haction', hsplit, hdelete⟩ := hacts
  rw [haction] at haction'
  cases haction'
  obtain ⟨tool', target, hsplit', _, _, hservice⟩ := validateProposal_none hvalid
  rw [hsplit] at hsplit'
  cases hsplit'
  obtain ⟨o, ho, _⟩ := hservice hdelete
  have hne : older ≠ [] := by
    rintro rfl
    cases hwalk
  have hreplicas := snapshot_replicas hwalk hne hsole hobs ho
  obtain ⟨_, action', tool', target', obs', situational, applied, haction', hsplit', hobs', hsit,
    hafter⟩ := led_classifyRisk hled hk
  rw [haction] at haction'
  cases haction'
  rw [hsplit] at hsplit'
  cases hsplit'
  rw [hobs] at hobs'
  cases hobs'
  rw [situation_of_service hsplit hdelete ho] at hsit
  cases hsit
  have htier : k.after.riskTierFinal =
      some (.str (applyPolicy tool k.answers.classification.tier (some (situationOf o)))) := by
    rw [hafter]
  have hredundant : (situationOf o).hasRedundantReplica = false :=
    decide_eq_false (not_le.mpr hreplicas)
  rw [htier, ne_eq, Option.some.injEq, Json.str.injEq, applyPolicy_low_iff hredundant]
  constructor
  · intro h
    refine ⟨action, tool, obs, o, haction, hsplit, hobs, ho, ?_⟩
    by_contra hnot
    obtain ⟨htool, hrest⟩ := not_or.mp hnot
    obtain ⟨hlow, hcount⟩ := not_or.mp hrest
    exact h ⟨htool, not_not.mp hlow, not_le.mp hcount⟩
  · rintro ⟨action', tool', obs', o', haction', hsplit', hobs', ho', hcases⟩ ⟨htool, hlow, hcount⟩
    rw [haction] at haction'
    cases haction'
    rw [hsplit] at hsplit'
    cases hsplit'
    rw [hobs] at hobs'
    cases hobs'
    rw [ho] at ho'
    cases ho'
    rcases hcases with hforced | hother | hrestarted
    · exact htool hforced
    · exact hother hlow
    · exact absurd hrestarted (not_le.mpr hcount)

end Classification

/-! ### Whole runs -/

section Runs

variable {rt : Runtime} {others : ToolContext → ToolContext → Prop} {runId : String}
variable {initialState : AgentState} {world w : ToolContext} {vs older : List Visit}
variable {s : AgentState} {next : Option Node} {v : Visit} {service : String}

/-- A cycle that executes without an approval classified the executed action low. -/
theorem low_or_approved (walk : Walk rt others initialState world older s (some .execute) w) :
    (∃ prep cls prop rest, older = prep :: cls :: prop :: rest ∧ prep.node = .prepareExecution ∧
      cls.node = .classifyRisk ∧ prop.node = .proposeAction ∧
      cls.after.riskTierFinal = some (.str "low") ∧
      s.proposedAction = cls.before.proposedAction) ∨
    ∃ a ∈ since isPropose older, a.node = .awaitApproval ∧ Granted a := by
  obtain ⟨prep, hprep, hroute⟩ := walk_to_execution walk
  rcases hroute with ⟨cls, prop, rest, hvs, hcls, hprop, hlow⟩ |
    ⟨rev, awt, mrk, cls, prop, rest, hvs, hrev, hawt, _, _, _, _, ⟨d, hd, hgrant⟩, _⟩ |
    ⟨awt, mrk, cls, prop, rest, hvs, hawt, _, _, _, _, d, hd, hgrant⟩
  · refine Or.inl ⟨prep, cls, prop, rest, hvs, hprep, hcls, hprop, hlow, ?_⟩
    rw [hvs] at walk
    obtain ⟨hlast, _, hledPrep, _⟩ := walk_cons walk
    obtain ⟨hprepBefore, _, hwalk⟩ := walk_cons_cons walk
    obtain ⟨_, _, hledCls, _⟩ := walk_cons hwalk
    rw [hlast, (led_kept hledPrep).proposedAction (by simp [hprep]) (by simp [hprep]), hprepBefore,
      (led_kept hledCls).proposedAction (by simp [hcls]) (by simp [hcls])]
  · rw [hvs] at walk
    obtain ⟨_, _, hwalk⟩ := walk_cons_cons walk
    obtain ⟨_, _, hwalk⟩ := walk_cons_cons hwalk
    obtain ⟨_, _, hled, _⟩ := walk_cons hwalk
    refine Or.inr ⟨awt, ?_, hawt, granted_of_after hled hawt hd hgrant⟩
    rw [hvs, since_propose_cons (by simp [hprep]), since_propose_cons (by simp [hrev]),
      since_propose_cons (by simp [hawt])]
    simp
  · rw [hvs] at walk
    obtain ⟨_, _, hwalk⟩ := walk_cons_cons walk
    obtain ⟨_, _, hled, _⟩ := walk_cons hwalk
    refine Or.inr ⟨awt, ?_, hawt, granted_of_after hled hawt hd hgrant⟩
    rw [hvs, since_propose_cons (by simp [hprep]), since_propose_cons (by simp [hawt])]
    simp

/-- If no repeated action is classified low, none executes without approval. -/
theorem gated_of_classified (walk : Walk rt others initialState world vs s next w)
    (h : ∀ later k older, vs = later ++ k :: older → k.node = .classifyRisk →
      ActsOn service k.before → Executed service older → k.after.riskTierFinal ≠ some (.str "low")) :
    FloorHolds service vs := by
  refine ⟨h, ?_⟩
  intro later v older hvs hexecute hacts hexecuted
  rw [hvs] at walk
  obtain ⟨_, _, _, hsplit⟩ := walk_split walk
  obtain ⟨_, _, _, _, hwalk, _⟩ := walk_cons hsplit
  rw [hexecute] at hwalk
  rcases low_or_approved hwalk with ⟨prep, cls, prop, rest, holder, hprep, hcls, hprop, hlow,
    hsame⟩ | happroved
  · -- the earlier execution came before this cycle's classification
    obtain ⟨e, he, hnode, heacts⟩ := hexecuted
    have hearlier : Executed service (prop :: rest) := by
      rw [holder] at he
      rcases List.mem_cons.mp he with rfl | he
      · rw [hprep] at hnode
        cases hnode
      · rcases List.mem_cons.mp he with rfl | he
        · rw [hcls] at hnode
          cases hnode
        · exact ⟨e, he, hnode, heacts⟩
    obtain ⟨action, tool, haction, hsplit, hdelete⟩ := hacts
    refine absurd hlow (h (later ++ [v, prep]) cls (prop :: rest) ?_ hcls
      ⟨action, tool, hsame.symm.trans haction, hsplit, hdelete⟩ hearlier)
    rw [hvs, holder]
    simp
  · exact happroved

/-- Over a run in which the service stays a sole instance, the floor holds exactly if
every classification after an execution on it is covered. -/
theorem floor_holds_iff {past : List Event} {c : Config}
    (run : Run rt others runId initialState world past c)
    (hsole : ∀ v ∈ visits past, Sole service v.worldBefore) :
    FloorHolds service (visits past) ↔
      ∀ later k older, visits past = later ++ k :: older → k.node = .classifyRisk →
        ActsOn service k.before → Executed service older → Covered service k := by
  obtain ⟨w, hwalk, _⟩ := run_walk run
  have hclassification : ∀ later k older, visits past = later ++ k :: older →
      k.node = .classifyRisk → ActsOn service k.before →
      (k.after.riskTierFinal ≠ some (.str "low") ↔ Covered service k) := by
    intro later k older hvs hk hacts
    rw [hvs] at hwalk hsole
    obtain ⟨_, _, _, hwalk⟩ := walk_split hwalk
    exact not_low_iff hwalk hk hacts (fun u hu => hsole u (by simp [hu]))
  constructor
  · intro h later k older hvs hk hacts hexecuted
    exact (hclassification later k older hvs hk hacts).mp
      (h.classified later k older hvs hk hacts hexecuted)
  · intro h
    refine gated_of_classified hwalk ?_
    intro later k older hvs hk hacts hexecuted
    exact (hclassification later k older hvs hk hacts).mpr
      (h later k older hvs hk hacts hexecuted)

end Runs

/-! ### A repeated attempt after a restart -/

/-- The restart leaves the disk full, which the stale snapshot still shows together
with no restart at all. -/
def cacheAfterRestart : List Move :=
  .answer {} :: autonomousMoves "restart_service" "service_c" none ++ rollbackMoves ++
    autonomousMoves "clear_cache" "service_c" none

/-- A full disk survives the restart, so the verification fails. -/
def sickSandbox : ToolContext := injectFault "service_c" .diskFull .high (freshSandbox [])

/-- Every visit found the service without a redundant replica. -/
def soleThroughout (service : String) (vs : List Visit) : Bool :=
  vs.all fun u => (u.worldBefore.clients.get? service).all fun s =>
    decide (s.replicas < minRedundantReplicas)

theorem sole_of_throughout {service : String} {vs : List Visit}
    (h : soleThroughout service vs = true) : ∀ u ∈ vs, Sole service u.worldBefore := by
  intro u hu s hs
  have hall := List.all_eq_true.mp h u hu
  rw [hs] at hall
  exact of_decide_eq_true hall

/-- The second action on a sole instance is classified low and executes without
anybody's approval. -/
theorem repeated_attempt_not_floored :
    ∃ past c, Run { digest := id } (fun _ _ => False) "run-1" {} sickSandbox past c ∧
      (∀ u ∈ visits past, Sole "service_c" u.worldBefore) ∧
      ¬ FloorHolds "service_c" (visits past) := by
  obtain ⟨v, past, c, hplay, hcheck⟩ := endsIn_spec
    (p := fun v past _ => decide (v.node = .execute) &&
      v.before.proposedAction.any (·.isStr "clear_cache:service_c") &&
      soleThroughout "service_c" (v :: visits past) &&
      (visits past).any (fun e => decide (e.node = .execute) &&
        e.before.proposedAction.any (·.isStr "restart_service:service_c")) &&
      (cycle past).all fun a => decide (a.node ≠ .awaitApproval))
    (show endsIn (play { digest := id } cacheAfterRestart []
      (startWorkflow "run-1" {} sickSandbox)) _ = true by decide +kernel)
  simp only [Bool.and_eq_true, decide_eq_true_eq, List.any_eq_true, List.all_eq_true] at hcheck
  obtain ⟨⟨⟨⟨hexecute, haction⟩, hsole⟩, e, he, hnode, hrestarted⟩, hunapproved⟩ := hcheck
  refine ⟨.visit v :: past, c, play_trace (by simp [Allowed, cacheAfterRestart, autonomousMoves,
    rollbackMoves]) .start hplay, sole_of_throughout hsole, ?_⟩
  intro h
  have hacts : ActsOn "service_c" v.before :=
    ⟨_, "clear_cache", Json.any_isStr_iff.mp haction, rfl, by decide⟩
  have hexecuted : Executed "service_c" (visits past) :=
    ⟨e, he, hnode, _, "restart_service", Json.any_isStr_iff.mp hrestarted, rfl, by decide⟩
  obtain ⟨a, ha, hawait, _⟩ := h.gated [] v (visits past) rfl hexecute hacts hexecuted
  exact hunapproved a ha hawait

/-- The second action is called medium, approved and executed. -/
def approvedAfterRestart : List Move :=
  .answer {} :: autonomousMoves "restart_service" "service_c" none ++ rollbackMoves ++
    [.answer { proposal := { tool := "clear_cache", target := "service_c" } },
      .answer { classification := { tier := "medium" } }, .answer {},
      .answer { decision := ({ decision := .approved } : DecisionRequest).resume }, .answer {},
      .answer {}, .answer {}]

/-- A classification of a cleared cache that is not called low, with the service in the sweep. -/
def calledHigher (k : Visit) : Bool :=
  k.before.proposedAction.any (·.isStr "clear_cache:service_c") &&
    k.before.observations.any (fun obs => (obs.services.get? "service_c").isSome) &&
    decide (k.answers.classification.tier ≠ "low")

theorem covered_of_calledHigher {k : Visit} (h : calledHigher k = true) :
    Covered "service_c" k := by
  simp only [calledHigher, Bool.and_eq_true, decide_eq_true_eq] at h
  obtain ⟨⟨haction, hobserved⟩, hhigher⟩ := h
  obtain ⟨obs, hobs, hservice⟩ := (Option.any_eq_true _ _).mp hobserved
  obtain ⟨o, ho⟩ := Option.isSome_iff_exists.mp hservice
  exact ⟨_, "clear_cache", obs, o, Json.any_isStr_iff.mp haction, rfl, hobs, ho,
    Or.inr (Or.inl hhigher)⟩

/-- A classification after an execution is one of those. -/
def calledHigherAgain : List Visit → Bool
  | [] => true
  | k :: older => !decide (k.node = .classifyRisk) || calledHigher k ||
      older.all fun e => decide (e.node ≠ .execute)

/-- The second action on the sole instance is classified and executes, with an approval. -/
theorem floor_of_approved_repetition :
    ∃ v past c, Run { digest := id } (fun _ _ => False) "run-1" {} sickSandbox
        (.visit v :: past) c ∧
      v.node = .execute ∧ ActsOn "service_c" v.before ∧ Executed "service_c" (visits past) ∧
      FloorHolds "service_c" (v :: visits past) := by
  obtain ⟨v, past, c, hplay, hcheck⟩ := endsIn_spec
    (p := fun v past _ => decide (v.node = .execute) &&
      v.before.proposedAction.any (·.isStr "clear_cache:service_c") &&
      soleThroughout "service_c" (v :: visits past) &&
      (visits past).any (fun e => decide (e.node = .execute) &&
        e.before.proposedAction.any (·.isStr "restart_service:service_c")) &&
      (v :: visits past).tails.all calledHigherAgain)
    (show endsIn (play { digest := id } approvedAfterRestart []
      (startWorkflow "run-1" {} sickSandbox)) _ = true by decide +kernel)
  simp only [Bool.and_eq_true, decide_eq_true_eq, List.any_eq_true] at hcheck
  obtain ⟨⟨⟨⟨hexecute, haction⟩, hsole⟩, e, he, hnode, hrestarted⟩, hcovered⟩ := hcheck
  have run : Run { digest := id } (fun _ _ => False) "run-1" {} sickSandbox (.visit v :: past) c :=
    play_trace (by simp [Allowed, approvedAfterRestart, autonomousMoves, rollbackMoves]) .start
      hplay
  refine ⟨v, past, c, run, hexecute, ⟨_, "clear_cache", Json.any_isStr_iff.mp haction, rfl,
    by decide⟩, ⟨e, he, hnode, _, "restart_service", Json.any_isStr_iff.mp hrestarted, rfl,
    by decide⟩, (floor_holds_iff run (sole_of_throughout hsole)).mpr ?_⟩
  rintro later k older hvs hk _ ⟨earlier, hearlier, hexecuted, _⟩
  have htail := List.all_eq_true.mp hcovered (k :: older)
    ((List.mem_tails _ _).mpr ⟨later, hvs.symm⟩)
  simp only [calledHigherAgain, Bool.or_eq_true, Bool.not_eq_true', decide_eq_false_iff_not,
    List.all_eq_true, decide_eq_true_eq] at htail
  rcases htail with (hother | hhigher) | hfirst
  · exact absurd hk hother
  · exact covered_of_calledHigher hhigher
  · exact absurd hexecuted (hfirst earlier hearlier)

end RedundancyFloor
