import Interlock.HeuristicAgent

/-!
# Runs of the agent without a language model

An unattended run goes through its rounds: it asks, executes and ends as they say, and leaves
the services as they say.
-/

namespace HeuristicRuns

open Dictionary PythonValues MockService RecordsTable Tools DiagnosticSweep Fingerprint RiskPolicy
open Execution RunState Nodes Graph NodeRuns Policies InitialState
open HeuristicAgent hiding diagnose
open WorstSignal hiding proposeAction
open CanonicalJson (FieldValue)
open Crashes (auditable_merge)
open Dispatching (executeAction_hit executeAction_miss)
open Effects (cleaned performRestartService_ok_iff performClearCache_ok_iff)
open Harness (harnessDecision)
open RedundancyFloor (situationOf situation_of_service)

/-! ### Attempts in a row -/

/-- Where `m` attempts lead. -/
def after (e : Surroundings) : ℕ → ℕ → ℕ → Config → Config
  | 0, _, _, c => c
  | m + 1, n, k, c => after e m (n + 1) (Surroundings.asked k c) (e.turn n k c).2

/-- A run, with the attempts and the decisions so far. -/
structure Position where
  attempts : ℕ
  decisions : ℕ
  config : Config

namespace Position

def drive (p : Position) (e : Surroundings) (m : ℕ) : List Visit :=
  e.drive m p.attempts p.decisions p.config

def after (p : Position) (e : Surroundings) (m : ℕ) : Config :=
  HeuristicRuns.after e m p.attempts p.decisions p.config

def turn (p : Position) (e : Surroundings) : Option Visit × Config :=
  e.turn p.attempts p.decisions p.config

/-- The position after an attempt that led to `c`. -/
def onto (p : Position) (c : Config) : Position :=
  ⟨p.attempts + 1, Surroundings.asked p.decisions p.config, c⟩

end Position

inductive Path (e : Surroundings) : Position → List Visit → Position → Prop where
  | stay (p : Position) : Path e p [] p
  | visit {p q : Position} {v : Visit} {vs : List Visit} {c : Config}
      (h : p.turn e = (some v, c)) (rest : Path e (p.onto c) vs q) : Path e p (v :: vs) q

/-- A path with these deeds. -/
def Leads (e : Surroundings) (p : Position) (ds : List Deed) (q : Position) : Prop :=
  ∃ vs, Path e p vs q ∧ deeds vs = ds

section Paths

variable {e : Surroundings} {p q r : Position} {vs us : List Visit} {ds es : List Deed}

theorem Path.trans (first : Path e p vs q) (second : Path e q us r) : Path e p (vs ++ us) r := by
  induction first with
  | stay => exact second
  | visit h _ ih => exact .visit h (ih second)

theorem Leads.trans (first : Leads e p ds q) (second : Leads e q es r) :
    Leads e p (ds ++ es) r := by
  obtain ⟨vs, hpath, rfl⟩ := first
  obtain ⟨us, hpath', rfl⟩ := second
  exact ⟨vs ++ us, hpath.trans hpath', List.flatMap_append⟩

/-- Enough attempts go along a path. -/
theorem Path.drive (path : Path e p vs q) :
    ∃ m, ∀ n, p.drive e (m + n) = vs ++ q.drive e n ∧ p.after e (m + n) = q.after e n := by
  induction path with
  | stay p => exact ⟨0, fun n => by rw [Nat.zero_add]; exact ⟨rfl, rfl⟩⟩
  | @visit p q v vs c h _ ih =>
    obtain ⟨m, hm⟩ := ih
    refine ⟨m + 1, fun n => ?_⟩
    obtain ⟨hdrive, hafter⟩ := hm n
    have hturn : e.turn p.attempts p.decisions p.config = (some v, c) := h
    rw [Nat.add_right_comm]
    constructor
    · rw [Position.drive, Surroundings.drive, hturn]
      exact congrArg (v :: ·) hdrive
    · rw [Position.after, HeuristicRuns.after, hturn]
      exact hafter

/-- A run that has ended stays as it is, but for what others do. -/
theorem ended (he : Unattended e) {c : Config} (hnext : c.next = none) (m n k : ℕ) :
    e.drive m n k c = [] ∧
      ∃ now, after e m n k c = { c with world := { c.world with now := now } } := by
  induction m generalizing n k c with
  | zero => exact ⟨rfl, c.world.now, rfl⟩
  | succ m ih =>
    obtain ⟨now, hnow⟩ := he.others n c.world
    have hturn := turn_none (e := e) (n := n) (k := k) hnext
    rw [Surroundings.drive, HeuristicRuns.after, hturn]
    obtain ⟨hdrive, later, hafter⟩ := ih (c := e.entered n c) hnext (n + 1)
      (Surroundings.asked k c)
    refine ⟨hdrive, later, ?_⟩
    rw [hafter, Surroundings.entered, hnow]

end Paths

/-! ### What a sweep tells of the target -/

section Sweeps

variable {digest : String → String} {seen : Dict String ServiceState} {x : Signal}
variable {s t : ServiceState} {w : ToolContext} {obs : Observations}

/-- The fields that the action is fingerprinted by. -/
def fieldsOf (x : Signal) (s : ServiceState) : List (String × FieldValue) :=
  if x.2.1 = "disk_pct" then [("disk_pct", .float s.diskPct)]
  else [("status", .str s.status.text), ("memory_pct", .float s.memoryPct),
    ("cpu_pct", .float s.cpuPct), ("error_rate", .float s.errorRate)]

def anchor (digest : String → String) (x : Signal) (s : ServiceState) : String :=
  digest (CanonicalJson.dumps (fieldsOf x s))

theorem action_split (x : Signal) : splitColon (action x) = .ok (tool x, x.1) := by
  unfold action
  by_cases hdisk : x.2.1 = "disk_pct"
  · rw [tool, if_pos hdisk]
    exact splitColon_exact x.1 (by decide)
  · rw [tool, if_neg hdisk]
    exact splitColon_exact x.1 (by decide)

theorem tool_not_delete (x : Signal) : tool x ≠ "delete_records" := by
  unfold tool
  split <;> decide

/-- What the sweep has of a service. -/
structure Shows (name : String) (s : ServiceState) (o : ServiceObservation) : Prop where
  status : o.health.status = s.status.text
  memoryPct : o.metrics.memoryPct = s.memoryPct
  cpuPct : o.metrics.cpuPct = s.cpuPct
  errorRate : o.metrics.errorRate = s.errorRate
  restartCount : o.metrics.restartCount = s.restartCount
  replicas : o.metrics.replicas = s.replicas
  disk : hasDisk name = true → o.disk = some ⟨s.name, s.diskPct⟩

theorem sweep_shows (h : gatherObservations w = .ok obs) {name : String}
    (hname : name ∈ knownServices) (hs : w.clients.get? name = some s) :
    ∃ o, obs.services.get? name = some o ∧ Shows name s o := by
  obtain ⟨o, ho, hget⟩ := (gather_service h name).1 hname
  obtain ⟨t, metrics, ht, hmetrics, _, rfl⟩ := observeService_ok ho
  rw [hs, Option.some.injEq] at ht
  subst ht
  obtain ⟨data, hdata, hmetrics⟩ := except_bind_ok_iff.mp hmetrics
  obtain ⟨version, _, hdata⟩ := except_bind_ok_iff.mp hdata
  cases hdata
  cases hmetrics
  exact ⟨_, hget, ⟨rfl, rfl, rfl, rfl, rfl, rfl, fun hdisk => if_pos hdisk⟩⟩

theorem fields_of_sweep (h : gatherObservations w = .ok obs) (hname : x.1 ∈ knownServices)
    (hdisk : x.2.1 = "disk_pct" → hasDisk x.1 = true) (hs : w.clients.get? x.1 = some s) :
    relevantFields obs (tool x) x.1 = .ok (fieldsOf x s) := by
  obtain ⟨o, ho, hshows⟩ := sweep_shows h hname hs
  by_cases hsignal : x.2.1 = "disk_pct"
  · rw [tool, if_pos hsignal, fieldsOf, if_pos hsignal,
      relevantFields_disk ho (hshows.disk (hdisk hsignal))]
  · rw [tool, if_neg hsignal, fieldsOf, if_neg hsignal, relevantFields, if_pos (Or.inl rfl),
      serviceFields_load ho, hshows.status, hshows.memoryPct, hshows.cpuPct, hshows.errorRate]

theorem fingerprint_of_sweep (h : gatherObservations w = .ok obs) (hname : x.1 ∈ knownServices)
    (hdisk : x.2.1 = "disk_pct" → hasDisk x.1 = true) (hs : w.clients.get? x.1 = some s) :
    computeFingerprint digest obs (action x) = .ok (anchor digest x s) :=
  computeFingerprint_ok_iff.mpr
    ⟨_, _, _, action_split x, fields_of_sweep h hname hdisk hs, rfl⟩

theorem text_injective : Function.Injective HealthStatus.text := by
  intro a b h
  cases a <;> cases b <;> first | rfl | exact absurd h (by decide)

/-- Revalidating compares exactly what the action depends on. -/
theorem anchor_eq_iff (hdigest : Function.Injective digest) :
    anchor digest x s = anchor digest x t ↔ ¬ Drifted x s t := by
  have hnames : (fieldsOf x s).map Prod.fst = (fieldsOf x t).map Prod.fst ∧
      ((fieldsOf x t).map Prod.fst).Nodup := by
    unfold fieldsOf
    split
    · exact ⟨rfl, List.nodup_singleton _⟩
    · exact ⟨rfl, by simp⟩
  have hfields : anchor digest x s = anchor digest x t ↔ fieldsOf x s = fieldsOf x t := by
    rw [anchor, anchor, hdigest.eq_iff]
    exact ⟨CanonicalJson.dumps_injective hnames.1 hnames.2, fun h => by rw [h]⟩
  rw [hfields, fieldsOf, fieldsOf, Drifted]
  by_cases hsignal : x.2.1 = "disk_pct"
  · simp only [if_pos hsignal, List.cons.injEq, Prod.mk.injEq, FieldValue.float.injEq, true_and,
      and_true, not_not]
  · simp only [if_neg hsignal, List.cons.injEq, Prod.mk.injEq, FieldValue.float.injEq,
      FieldValue.str.injEq, true_and, and_true, not_not, loads, text_injective.eq_iff]

/-- The proposal that follows from the worst signal. -/
theorem proposal_of_sweep (h : gatherObservations w = .ok obs) (hx : Worst w.clients x s) :
    ∃ proposal, WorstSignal.proposeAction (ofSweep obs) = some proposal ∧
      proposal.action = action x ∧ proposal.parameters = some (.obj []) := by
  have hworst : worstSignal (ofSweep obs) = some x := by
    rw [ofSweep_eq h]
    exact hx.worst
  rw [WorstSignal.proposeAction, hworst]
  exact ⟨_, rfl, rfl, rfl⟩

theorem proposal_valid (h : gatherObservations w = .ok obs) (hx : Worst w.clients x s) :
    validateProposal obs (action x) = .ok none := by
  obtain ⟨o, ho, hshows⟩ := sweep_shows h hx.known hx.found
  have hnone : ¬ (tool x = "clear_cache" ∧ o.disk = none) := by
    rintro ⟨htool, hdisk⟩
    have hsignal : x.2.1 = "disk_pct" := by
      by_contra hsignal
      rw [tool, if_neg hsignal] at htool
      exact absurd htool (by decide)
    rw [hshows.disk (hx.has_disk hsignal)] at hdisk
    cases hdisk
  have hknown : tool x ∈ knownTools := by
    unfold tool
    split <;> decide
  rw [validateProposal, action_split]
  simp only [bind, Except.bind, pure, Except.pure, ho, hknown, not_true, if_false,
    if_neg (tool_not_delete x), if_neg hnone]

/-- The tier that the policy makes of the classifier's. -/
theorem tier_of_sweep (h : gatherObservations w = .ok obs) (hx : Worst w.clients x s) :
    ∃ situational, situationalFeatures obs (action x) = .ok situational ∧
      applyPolicy (tool x) (classify (action x)).tier situational =
        if Autonomous x s then "low" else "medium" := by
  obtain ⟨o, ho, hshows⟩ := sweep_shows h hx.known hx.found
  refine ⟨_, situation_of_service (action_split x) (tool_not_delete x) ho, ?_⟩
  have hcolon : ClassifiedProposals.beforeColon (action x) = tool x :=
    ClassifiedProposals.beforeColon_of_split (action_split x)
  have hredundant : (situationOf o).hasRedundantReplica = false ↔
      s.replicas < minRedundantReplicas := by
    rw [situationOf, decide_eq_false_iff_not, hshows.replicas, not_le]
  have hcount : (situationOf o).restartCountThisRun = s.restartCount := hshows.restartCount
  by_cases hsignal : x.2.1 = "disk_pct"
  · have htier : (classify (action x)).tier = "low" := by
      rw [classify, hcolon, tool, if_pos hsignal]
      rfl
    have hforced : tool x ∉ forcedHighTools := by
      rw [tool, if_pos hsignal]
      decide
    rw [htier, applyPolicy, if_neg hforced]
    simp only [true_and, hredundant, hcount, Autonomous, hsignal, ite_not]
  · have htier : (classify (action x)).tier = "medium" := by
      rw [classify, hcolon, tool, if_neg hsignal]
      rfl
    have hforced : tool x ∉ forcedHighTools := by
      rw [tool, if_neg hsignal]
      decide
    have hnot : ¬ Autonomous x s := fun hauto => hsignal hauto.1
    have hlow : ¬ ("medium" = "low" ∧ (situationOf o).hasRedundantReplica = false ∧
        1 ≤ (situationOf o).restartCountThisRun) := fun hfloor => absurd hfloor.1 (by decide)
    rw [htier, applyPolicy, if_neg hforced, if_neg hnot]
    exact if_neg hlow

end Sweeps

/-! ### One visit -/

section Visits

variable {e : Surroundings} {p : Position} {node : Node} {update : Update} {next : Option Node}
variable {w : ToolContext}

/-- The answers to the next attempt. -/
def asked (e : Surroundings) (p : Position) (node : Node) : Answers :=
  e.policy.answers node (e.decision p.decisions) (e.clock p.attempts) p.config.state
    (e.others p.attempts p.config.world)

theorem visited (hnext : p.config.next = some node)
    (hrun : (nodeFn { digest := e.digest } (asked e p node) node p.config.state).run
      (e.others p.attempts p.config.world) = (.ok update, w))
    (haudit : Auditable p.config.state)
    (hroute : nextNode { digest := e.digest } node (p.config.state.merge update) = .ok next)
    (happrover : IsText (writtenApprover update) := by exact isText_none)
    (hdecision : IsText (writtenDecision update) := by exact isText_none) :
    ∃ q, Leads e p (deedsAt node p.config.state) q ∧
      q.config.state = p.config.state.merge update ∧ q.config.next = next ∧
      q.config.world = w := by
  have hrecord : ∃ record, auditRecord (asked e p node).clock node
      (e.entered p.attempts p.config).state update = .ok record :=
    (auditRecord_ok_iff _ _).mpr ⟨auditable_merge haudit _, haudit.status, happrover, hdecision⟩
  have hentered : (e.entered p.attempts p.config).next = some node := hnext
  obtain ⟨audit, hattempt⟩ := attempt_visited hentered hrun hrecord hroute
  have hturn : p.turn e = _ := (turn_at (e := e) hnext).trans hattempt
  exact ⟨p.onto _, ⟨_, .visit hturn (.stay _), List.flatMap_singleton _ _⟩, rfl, rfl, rfl⟩

end Visits

/-! ### What is known at each node -/

/-- The state holds a sweep of the services as they were seen, and `k` counted replans. -/
structure Ready (runId : String) (seen : Dict String ServiceState) (k : Int) (s : AgentState) :
    Prop where
  runId : s.runId = some (.str runId)
  auditable : Auditable s
  diagnosis : ∃ d, s.diagnosis = some d
  seen : ∃ u obs, u.clients = seen ∧ gatherObservations u = .ok obs ∧ s.observations = some obs
  replans : replanCyclesOf s = .int k

/-- The proposal stands, anchored to what was seen of its target. -/
structure Chosen (digest : String → String) (runId : String) (seen : Dict String ServiceState)
    (k : Int) (x : Signal) (target : ServiceState) (s : AgentState) : Prop extends
    Ready runId seen k s where
  action : s.proposedAction = some (.str (action x))
  parameters : s.actionParameters = some (.obj [])
  fingerprint : s.stateFingerprint = some (some (anchor digest x target))

/-- The entries that a proposal rests on. -/
def held (s : AgentState) : Option Json × Option String × Option Observations × Json ×
    Option Json × Option Json × Option (Option String) :=
  (s.runId, s.diagnosis, s.observations, replanCyclesOf s, s.proposedAction, s.actionParameters,
    s.stateFingerprint)

theorem Chosen.congr {digest : String → String} {runId : String}
    {seen : Dict String ServiceState} {k : Int} {x : Signal} {target : ServiceState}
    {s t : AgentState} (h : Chosen digest runId seen k x target s) (haudit : Auditable t)
    (hheld : held t = held s) : Chosen digest runId seen k x target t := by
  simp only [held, Prod.mk.injEq] at hheld
  obtain ⟨hrunId, hdiagnosis, hobservations, hcycles, haction, hparameters, hfingerprint⟩ := hheld
  refine ⟨⟨hrunId.trans h.runId, haudit, ?_, ?_, hcycles.trans h.replans⟩,
    haction.trans h.action, hparameters.trans h.parameters, hfingerprint.trans h.fingerprint⟩
  · rw [hdiagnosis]
    exact h.diagnosis
  · rw [hobservations]
    exact h.seen

/-- The sandbox is as the run's stand says, and its ledger holds the actions of the run, for
none of which anything is compensated. -/
structure Placed (runId : String) (records : RecordsRepository) (st : Stand) (w : ToolContext) :
    Prop where
  clients : w.clients = st.clients
  records : w.records = records
  ledger : ∀ a, a ∈ st.done ↔ (w.store.get? (idempotencyKey runId a)).isSome = true
  noop : ∀ a entry, w.store.get? (idempotencyKey runId a) = some entry →
    ∃ reason, entry.compensation = .noop reason

section Legs

variable {e : Surroundings} {p : Position} {runId : String} {seen : Dict String ServiceState}
variable {k : Int} {x : Signal} {target : ServiceState} {records : RecordsRepository}
variable {st : Stand}

theorem Placed.others (he : Unattended e) {w : ToolContext} (h : Placed runId records st w)
    (n : ℕ) : Placed runId records st (e.others n w) := by
  obtain ⟨now, hnow⟩ := he.others n w
  rw [hnow]
  exact ⟨h.clients, h.records, h.ledger, h.noop⟩

/-- The proposal is the action on the worst signal seen. -/
theorem proposes (he : Unattended e) (hnext : p.config.next = some .proposeAction)
    (hready : Ready runId seen k p.config.state) (hx : Worst seen x target)
    (hplaced : Placed runId records st p.config.world) :
    ∃ q, Leads e p [] q ∧ q.config.next = some .classifyRisk ∧
      Chosen e.digest runId seen k x target q.config.state ∧
      Placed runId records st q.config.world := by
  obtain ⟨u, obs, rfl, hobs, hstate⟩ := hready.seen
  obtain ⟨d, hd⟩ := hready.diagnosis
  obtain ⟨proposal, hproposal, haction, hparameters⟩ := proposal_of_sweep hobs hx
  have hanswer : (asked e p .proposeAction).proposal = proposal := by
    rw [asked, he.policy]
    simp only [Policy.answers, Policy.proposal, hstate, hd, heuristic, hproposal, Option.getD_some]
  have hanchor : anchorProposal { digest := e.digest } obs (action x) none =
      .ok (some (anchor e.digest x target)) := by
    rw [anchorProposal, fingerprint_of_sweep hobs hx.known hx.has_disk hx.found]
    rfl
  have hasked : (asked e p .proposeAction).proposal.action = action x := by rw [hanswer, haction]
  have hrun := propose_run (w := e.others p.attempts p.config.world) hstate hasked
    (proposal_valid hobs hx) hanchor
  rw [hanswer, hparameters] at hrun
  obtain ⟨q, hleads, hq, hqnext, hworld⟩ := visited hnext hrun hready.auditable rfl
  refine ⟨q, hleads, hqnext, ?_, ?_⟩
  · rw [hq]
    exact ⟨⟨hready.runId, auditable_merge hready.auditable _, ⟨d, hd⟩, ⟨u, obs, rfl, hobs, hstate⟩,
      hready.replans⟩, rfl, rfl, rfl⟩
  · rw [hworld]
    exact hplaced.others he _

/-- The classification decides whether anybody is asked. -/
theorem classifies (he : Unattended e) (hnext : p.config.next = some .classifyRisk)
    (hchosen : Chosen e.digest runId seen k x target p.config.state) (hx : Worst seen x target)
    (hplaced : Placed runId records st p.config.world) :
    ∃ q, Leads e p [] q ∧
      q.config.next =
        some (if Autonomous x target then .prepareExecution else .markAwaitingApproval) ∧
      Chosen e.digest runId seen k x target q.config.state ∧
      (∃ tier, q.config.state.riskTierFinal = some tier) ∧
      Placed runId records st q.config.world := by
  obtain ⟨u, obs, rfl, hobs, hstate⟩ := hchosen.seen
  obtain ⟨d, hd⟩ := hchosen.diagnosis
  obtain ⟨situational, hsituational, htier⟩ := tier_of_sweep hobs hx
  have hanswer : (asked e p .classifyRisk).classification = classify (action x) := by
    rw [asked, he.policy]
    simp only [Policy.answers, Policy.classification, hchosen.action, hstate, hd, hsituational,
      heuristic]
  have hasked : applyPolicy (tool x) (asked e p .classifyRisk).classification.tier situational =
      if Autonomous x target then "low" else "medium" := by rw [hanswer, htier]
  obtain ⟨applied, hrun⟩ := classify_run { digest := e.digest } (asked e p .classifyRisk)
    (e.others p.attempts p.config.world) hchosen.action hstate (action_split x) hsituational hasked
  obtain ⟨q, hleads, hq, hqnext, hworld⟩ := visited hnext hrun hchosen.auditable classify_route
  have hlow : ((if Autonomous x target then "low" else "medium") = "low") ↔ Autonomous x target := by
    split <;> simp_all
  rw [if_congr hlow rfl rfl] at hqnext
  refine ⟨q, hleads, hqnext, ?_, ?_, ?_⟩
  · rw [hq]
    exact hchosen.congr (auditable_merge hchosen.auditable _) rfl
  · rw [hq]
    exact ⟨_, rfl⟩
  · rw [hworld]
    exact hplaced.others he _

/-- The reviewer is asked about the action, and approves it. -/
theorem approves (he : Unattended e) (hnext : p.config.next = some .markAwaitingApproval)
    (hchosen : Chosen e.digest runId seen k x target p.config.state)
    (htier : ∃ tier, p.config.state.riskTierFinal = some tier)
    (hplaced : Placed runId records st p.config.world) :
    ∃ q, Leads e p [.asks (action x)] q ∧ q.config.next = some .revalidate ∧
      Chosen e.digest runId seen k x target q.config.state ∧
      Placed runId records st q.config.world := by
  obtain ⟨d, hd⟩ := hchosen.diagnosis
  obtain ⟨tier, htier⟩ := htier
  obtain ⟨q₁, hleads₁, hq₁, hnext₁, hworld₁⟩ := visited (e := e) hnext rfl hchosen.auditable rfl
  have hstate₁ : q₁.config.state = p.config.state.merge [.status .awaitingApproval] := hq₁
  have hchosen₁ : Chosen e.digest runId seen k x target q₁.config.state := by
    rw [hstate₁]
    exact hchosen.congr (auditable_merge hchosen.auditable _) rfl
  have hpending : q₁.config.state.diagnosis = some d ∧
      q₁.config.state.riskTierFinal = some tier := by
    rw [hstate₁]
    exact ⟨hd, htier⟩
  obtain ⟨approverId, happroves⟩ := he.decision q₁.decisions
  have hanswer : (asked e q₁ .awaitApproval).decision = harnessDecision approverId := happroves
  have hdecided : (asked e q₁ .awaitApproval).decision.getItem "decision" =
      .ok (.str "approved") := by rw [hanswer]; rfl
  have happrover : (asked e q₁ .awaitApproval).decision.get "approver_id" =
      .ok (some (.str approverId)) := by rw [hanswer]; rfl
  have hedit : editedAction (asked e q₁ .awaitApproval).decision = .ok none := by rw [hanswer]; rfl
  have hrun : (nodeFn { digest := e.digest } (asked e q₁ .awaitApproval) .awaitApproval
      q₁.config.state).run (e.others q₁.attempts q₁.config.world) =
        (.ok [.approvalDecision (.str "approved"), .approverId (.str approverId)],
          e.others q₁.attempts q₁.config.world) :=
    await_run hchosen₁.runId hpending.1 hchosen₁.action hpending.2 hdecided happrover hedit
  obtain ⟨q₂, hleads₂, hq₂, hnext₂, hworld₂⟩ := visited hnext₁ hrun hchosen₁.auditable rfl
    (isText_str _) (isText_str _)
  have hdeed : deedsAt .awaitApproval q₁.config.state = [.asks (action x)] := by
    rw [deedsAt, hchosen₁.action]
    rfl
  rw [hdeed] at hleads₂
  refine ⟨q₂, hleads₁.trans hleads₂, hnext₂, ?_, ?_⟩
  · rw [hq₂]
    exact hchosen₁.congr (auditable_merge hchosen₁.auditable _) rfl
  · rw [hworld₂, hworld₁]
    exact (hplaced.others he _).others he _

/-- An approved action is looked at again. What the agent knows from then on is new, whether
or not the action has drifted. -/
theorem revalidates (he : Unattended e) (hnext : p.config.next = some .revalidate)
    (hchosen : Chosen e.digest runId seen k x target p.config.state) (hx : Worst seen x target)
    (hplaced : Placed runId records st p.config.world) (hsandbox : Sandbox st.clients)
    {t : ServiceState} (ht : st.clients.get? x.1 = some t) :
    ∃ q, Leads e p [] q ∧
      q.config.next = some (if Drifted x target t then .replan else .prepareExecution) ∧
      Chosen e.digest runId st.clients k x t q.config.state ∧
      Placed runId records st q.config.world := by
  have hplaced' := hplaced.others he p.attempts
  have hregistered : Sandbox (e.others p.attempts p.config.world).clients := by
    rw [hplaced'.clients]
    exact hsandbox
  obtain ⟨obs, hobs⟩ := gather_ok hregistered.registered
  have ht' : (e.others p.attempts p.config.world).clients.get? x.1 = some t := by
    rw [hplaced'.clients]
    exact ht
  have hfingerprint : computeFingerprint e.digest obs (action x) = .ok (anchor e.digest x t) :=
    fingerprint_of_sweep hobs hx.known hx.has_disk ht'
  have hrun : (nodeFn { digest := e.digest } (asked e p .revalidate) .revalidate
      p.config.state).run (e.others p.attempts p.config.world) =
        (.ok (revalidateUpdate obs (anchor e.digest x t) (some (anchor e.digest x target))),
          e.others p.attempts p.config.world) :=
    revalidate_run hchosen.action hobs hfingerprint hchosen.fingerprint
  have hsame : some (anchor e.digest x t) = some (anchor e.digest x target) ↔
      ¬ Drifted x target t := by
    rw [Option.some.injEq, eq_comm, anchor_eq_iff he.digest]
  obtain ⟨q, hleads, hq, hqnext, hworld⟩ :=
    visited hnext hrun hchosen.auditable revalidate_route
  rw [if_congr hsame rfl rfl, ite_not] at hqnext
  refine ⟨q, hleads, hqnext, ?_, ?_⟩
  · rw [hq]
    exact ⟨⟨hchosen.runId, auditable_merge hchosen.auditable _, hchosen.diagnosis,
      ⟨_, obs, hplaced'.clients, hobs, rfl⟩, hchosen.replans⟩, hchosen.action,
      hchosen.parameters, rfl⟩
  · rw [hworld]
    exact hplaced'

/-! ### Executions -/

/-- The call that the action stands for. -/
def call (x : Signal) : ToolCall :=
  if x.2.1 = "disk_pct" then .clearCache x.1 else .restartService x.1

/-- The action was executed, and there is nothing to compensate. -/
structure Executed (digest : String → String) (runId : String) (seen : Dict String ServiceState)
    (k : Int) (x : Signal) (target : ServiceState) (s : AgentState) : Prop extends
    Chosen digest runId seen k x target s where
  result : ∃ result, s.executionResult = some result
  compensation : ∃ reason, s.compensation = some (.noop reason)

theorem key_of_run {a b : String} : idempotencyKey runId a = idempotencyKey runId b ↔ a = b := by
  rw [idempotencyKey, idempotencyKey, String.append_right_inj]

theorem dispatch_action {s : AgentState} (h : s.actionParameters = some (.obj [])) :
    dispatch (action x) (parametersOf s) = .ok (call x) := by
  rw [parametersOf, h, dispatch, action_split, tool, call]
  split <;> rfl

theorem performs {w : ToolContext} {t : ServiceState} (ht : w.clients.get? x.1 = some t)
    (hdisk : x.2.1 = "disk_pct" → t.hasDisk = true) :
    ∃ o : Outcome, (∃ reason, o.compensation = .noop reason) ∧
      (call x).perform.run w = (.ok o, w.setClient x.1 (treat x t)) := by
  by_cases hsignal : x.2.1 = "disk_pct"
  · rw [call, if_pos hsignal, treat, if_pos hsignal]
    exact ⟨_, ⟨_, rfl⟩, performClearCache_ok_iff.mpr ⟨t, ht, hdisk hsignal, rfl, rfl⟩⟩
  · rw [call, if_neg hsignal, treat, if_neg hsignal]
    exact ⟨_, ⟨_, rfl⟩, performRestartService_ok_iff.mpr ⟨t, ht, rfl, rfl⟩⟩

/-- An execution does what the stand says, and is replayed if the ledger holds it. -/
theorem execution {w : ToolContext} {t : ServiceState} {parameters : Json}
    (hplaced : Placed runId records st w) (ht : st.clients.get? x.1 = some t)
    (hdisk : x.2.1 = "disk_pct" → t.hasDisk = true)
    (hcall : dispatch (action x) parameters = .ok (call x)) :
    ∃ o w', (executeAction (action x) parameters (idempotencyKey runId (action x))).run w =
        (.ok o, w') ∧ (∃ reason, o.compensation = .noop reason) ∧
      Placed runId records (st.act x t) w' := by
  cases hentry : w.store.get? (idempotencyKey runId (action x)) with
  | some entry =>
    have hdone : action x ∈ st.done := (hplaced.ledger _).mpr (by rw [hentry]; rfl)
    refine ⟨_, w, executeAction_hit hcall hentry, hplaced.noop _ _ hentry, ?_⟩
    rw [Stand.act, if_pos hdone]
    exact hplaced
  | none =>
    have hdone : action x ∉ st.done := by
      intro hdone
      have hsome := (hplaced.ledger _).mp hdone
      rw [hentry] at hsome
      cases hsome
    have ht' : w.clients.get? x.1 = some t := by
      rw [hplaced.clients]
      exact ht
    obtain ⟨o, hnoop, hperform⟩ := performs ht' hdisk
    refine ⟨o, _, executeAction_miss hcall hentry hperform, hnoop, ?_⟩
    rw [Stand.act, if_neg hdone]
    refine ⟨?_, hplaced.records, ?_, ?_⟩
    · rw [← hplaced.clients]
      rfl
    · intro a
      rw [ToolContext.setClient_store, Dict.get?_setdefault, List.mem_cons]
      by_cases hsame : action x = a
      · subst hsame
        rw [if_pos ⟨rfl, hentry⟩]
        exact iff_of_true (Or.inl rfl) rfl
      · rw [if_neg fun h => hsame (key_of_run.mp h.1), ← hplaced.ledger]
        exact or_iff_right (Ne.symm hsame)
    · intro a entry
      rw [ToolContext.setClient_store, Dict.get?_setdefault]
      by_cases hsame : action x = a
      · subst hsame
        rw [if_pos ⟨rfl, hentry⟩]
        rintro ⟨⟩
        exact hnoop
      · rw [if_neg fun h => hsame (key_of_run.mp h.1)]
        exact hplaced.noop a entry

theorem executes (he : Unattended e) (hnext : p.config.next = some .prepareExecution)
    (hchosen : Chosen e.digest runId seen k x target p.config.state)
    (hplaced : Placed runId records st p.config.world) {t : ServiceState}
    (ht : st.clients.get? x.1 = some t) (hdisk : x.2.1 = "disk_pct" → t.hasDisk = true) :
    ∃ q, Leads e p [.executes (action x)] q ∧ q.config.next = some .verify ∧
      Executed e.digest runId seen k x target q.config.state ∧
      Placed runId records (st.act x t) q.config.world := by
  obtain ⟨q₁, hleads₁, hq₁, hnext₁, hworld₁⟩ := visited (e := e) hnext
    (prepare_run hchosen.runId hchosen.action) hchosen.auditable rfl
  have hchosen₁ : Chosen e.digest runId seen k x target q₁.config.state := by
    rw [hq₁]
    exact hchosen.congr (auditable_merge hchosen.auditable _) rfl
  have hkey : q₁.config.state.idempotencyKey =
      some (.str (idempotencyKey runId (action x))) := by
    rw [hq₁]
    rfl
  have hplaced₁ : Placed runId records st (e.others q₁.attempts q₁.config.world) := by
    rw [hworld₁]
    exact (hplaced.others he _).others he _
  obtain ⟨o, w, hexecuted, ⟨reason, hnoop⟩, hplaced₂⟩ :=
    execution hplaced₁ ht hdisk (dispatch_action hchosen₁.parameters)
  obtain ⟨q₂, hleads₂, hq₂, hnext₂, hworld₂⟩ := visited hnext₁
    (execute_run hchosen₁.action hkey hexecuted) hchosen₁.auditable rfl
  have hdeed : deedsAt .execute q₁.config.state = [.executes (action x)] := by
    rw [deedsAt, hchosen₁.action]
    rfl
  rw [hdeed] at hleads₂
  refine ⟨q₂, hleads₁.trans hleads₂, hnext₂, ?_, ?_⟩
  · rw [hq₂]
    exact ⟨hchosen₁.congr (auditable_merge hchosen₁.auditable _) rfl, ⟨_, rfl⟩, reason,
      congrArg some hnoop⟩
  · rw [hworld₂]
    exact hplaced₂

/-- The verification asks whether the target is healthy. -/
theorem verifies (he : Unattended e) (hnext : p.config.next = some .verify)
    (hexecuted : Executed e.digest runId seen k x target p.config.state)
    (hplaced : Placed runId records st p.config.world) {t : ServiceState}
    (ht : st.clients.get? x.1 = some t) :
    ∃ q, Leads e p [] q ∧
      q.config.next = some (if t.status = .healthy then .completed else .rollingBack) ∧
      Executed e.digest runId seen k x target q.config.state ∧
      Placed runId records st q.config.world := by
  obtain ⟨result, hresult⟩ := hexecuted.result
  have hplaced' := hplaced.others he p.attempts
  have ht' : (e.others p.attempts p.config.world).clients.get? x.1 = some t := by
    rw [hplaced'.clients]
    exact ht
  have hhealthy : (t.status.text == "healthy") = decide (t.status = .healthy) := by
    cases t.status <;> rfl
  have hpassed : verifyAction (e.others p.attempts p.config.world) (action x) result =
      .ok (decide (t.status = .healthy)) := by
    rw [verifyAction_service (action_split x) (tool_not_delete x) ht', hhealthy]
  obtain ⟨q, hleads, hq, hqnext, hworld⟩ := visited hnext
    (verify_run hexecuted.action hresult hpassed) hexecuted.auditable verify_route
  simp only [decide_eq_true_eq] at hqnext
  refine ⟨q, hleads, hqnext, ?_, ?_⟩
  · rw [hq]
    exact ⟨hexecuted.toChosen.congr (auditable_merge hexecuted.auditable _) rfl,
      ⟨result, hresult⟩, hexecuted.compensation⟩
  · rw [hworld]
    exact hplaced'

/-- Neither action is undone when it did not help. -/
theorem undoes (he : Unattended e) (hnext : p.config.next = some .rollingBack)
    (hexecuted : Executed e.digest runId seen k x target p.config.state)
    (hplaced : Placed runId records st p.config.world) :
    ∃ q, Leads e p [] q ∧ q.config.next = some .replan ∧
      Ready runId seen k q.config.state ∧ Placed runId records st q.config.world := by
  obtain ⟨reason, hnoop⟩ := hexecuted.compensation
  have happlied : (applyCompensation (.noop reason)).run (e.others p.attempts p.config.world) =
      (.ok (.notApplied reason), e.others p.attempts p.config.world) := rfl
  obtain ⟨q₁, hleads₁, hq₁, hnext₁, hworld₁⟩ := visited hnext (rollingBack_run hnoop happlied)
    hexecuted.auditable rfl
  have haudit₁ : Auditable q₁.config.state := by
    rw [hq₁]
    exact auditable_merge hexecuted.auditable _
  obtain ⟨q₂, hleads₂, hq₂, hnext₂, hworld₂⟩ := visited (e := e) hnext₁ rfl haudit₁ rfl
  refine ⟨q₂, hleads₁.trans hleads₂, hnext₂, ?_, ?_⟩
  · rw [hq₂, hq₁]
    exact ⟨hexecuted.runId, auditable_merge (auditable_merge hexecuted.auditable _) _,
      hexecuted.diagnosis, hexecuted.seen, hexecuted.replans⟩
  · rw [hworld₂, hworld₁]
    exact (hplaced.others he _).others he _

/-- The third replan is the last. -/
theorem replans_on (he : Unattended e) (hnext : p.config.next = some .replan)
    (hready : Ready runId seen k p.config.state)
    (hplaced : Placed runId records st p.config.world) :
    ∃ q, Leads e p [] q ∧
      q.config.next = some (if maxReplanCycles ≤ k + 1 then .escalate else .proposeAction) ∧
      Ready runId seen (k + 1) q.config.state ∧ Placed runId records st q.config.world := by
  have hcount : (replanCyclesOf p.config.state).addOne = .ok (.int (k + 1)) := by
    rw [hready.replans]
    rfl
  have hroute : nextNode { digest := e.digest } .replan (p.config.state.merge
      [.status .replanning, .replanCycles (.int (k + 1)),
        .replanContext (replanReason p.config.state)]) =
      .ok (some (if maxReplanCycles ≤ k + 1 then .escalate else .proposeAction)) := by
    rw [replan_next]
    simp only [Json.atLeast, Except.map, decide_eq_true_eq]
  obtain ⟨q, hleads, hq, hqnext, hworld⟩ :=
    visited hnext (replan_run hcount) hready.auditable hroute
  refine ⟨q, hleads, hqnext, ?_, ?_⟩
  · rw [hq]
    exact ⟨hready.runId, auditable_merge hready.auditable _, hready.diagnosis, hready.seen, rfl⟩
  · rw [hworld]
    exact hplaced.others he _

/-! ### Whole runs -/

theorem nonNegative_look {name : String} {s : ServiceState} : (look name s).NonNegative ↔
    0 ≤ s.memoryPct ∧ 0 ≤ s.cpuPct ∧ 0 ≤ s.errorRate ∧ (hasDisk name = true → 0 ≤ s.diskPct) := by
  rw [Readings.NonNegative, look]
  cases hasDisk name <;> simp

/-- The actions leave all services there. -/
theorem sandbox_treated {clients : Dict String ServiceState} {t : ServiceState}
    (h : Sandbox clients) (ht : clients.get? x.1 = some t) :
    Sandbox (clients.set x.1 (treat x t)) := by
  intro name hname
  obtain ⟨s, hs, hdisk, hversions, hread⟩ := h name hname
  by_cases hsame : x.1 = name
  · subst hsame
    rw [ht, Option.some.injEq] at hs
    subst hs
    rw [nonNegative_look] at hread
    refine ⟨_, Dict.get?_set_self _ _ _, ?_, ?_, nonNegative_look.mpr ?_⟩
    · rw [← hdisk, treat]
      split <;> rfl
    · rw [treat]
      split <;> exact hversions
    · rw [treat]
      split
      · exact ⟨hread.1, hread.2.1, hread.2.2.1, fun _ => by norm_num [cleaned, baselineDiskPct]⟩
      · exact ⟨by norm_num [ServiceState.restart, ServiceState.clearTransient, baselineMemoryPct],
          by norm_num [ServiceState.restart, ServiceState.clearTransient, baselineCpuPct],
          le_rfl, hread.2.2.2⟩
  · exact ⟨s, (Dict.get?_set_ne _ _ hsame).trans hs, hdisk, hversions, hread⟩

theorem sandbox_act {t : ServiceState} (h : Sandbox st.clients)
    (ht : st.clients.get? x.1 = some t) : Sandbox (st.act x t).clients := by
  rw [Stand.act]
  split
  · exact h
  · exact sandbox_treated h ht

theorem act_seen (t : ServiceState) : (st.act x t).seen = st.seen := by
  rw [Stand.act]
  split <;> rfl

/-- From here the run ends, with these deeds and these services. -/
def Ends (e : Surroundings) (records : RecordsRepository) (p : Position)
    (run : List Deed × Dict String ServiceState) : Prop :=
  ∃ q, Leads e p run.1 q ∧ q.config.next = none ∧ q.config.world.clients = run.2 ∧
    q.config.world.records = records

theorem Ends.after_leg {q : Position} {ds : List Deed}
    {run : List Deed × Dict String ServiceState} (h : Leads e p ds q)
    (hends : Ends e records q run) :
    Ends e records p (ds ++ run.1, run.2) := by
  obtain ⟨r, hleads, hlast⟩ := hends
  exact ⟨r, h.trans hleads, hlast⟩

theorem finishes (he : Unattended e) {node : Node} (hnode : node = .completed ∨ node = .escalate)
    (hnext : p.config.next = some node) (haudit : Auditable p.config.state)
    (hplaced : Placed runId records st p.config.world) :
    Ends e records p (deedsAt node p.config.state, st.clients) := by
  have hplaced' := hplaced.others he p.attempts
  obtain ⟨q, hleads, hqnext, hworld⟩ : ∃ q, Leads e p (deedsAt node p.config.state) q ∧
      q.config.next = none ∧ q.config.world = e.others p.attempts p.config.world := by
    rcases hnode with rfl | rfl
    · obtain ⟨q, hleads, _, hlast⟩ := visited (e := e) hnext rfl haudit rfl
      exact ⟨q, hleads, hlast⟩
    · obtain ⟨q, hleads, _, hlast⟩ := visited (e := e) hnext rfl haudit rfl
      exact ⟨q, hleads, hlast⟩
  refine ⟨q, hleads, hqnext, ?_⟩
  rw [hworld]
  exact ⟨hplaced'.clients, hplaced'.records⟩

/-- A run with `n` failures to go, at the end of its earlier rounds. -/
structure Due (runId : String) (records : RecordsRepository) (n : ℕ) (st : Stand) (p : Position) :
    Prop where
  next : p.config.next = some (if n = 0 then .escalate else .proposeAction)
  ready : Ready runId st.seen (3 - n) p.config.state
  placed : Placed runId records st p.config.world
  seen : Sandbox st.seen
  clients : Sandbox st.clients

/-- A failure costs one of them. -/
theorem due_of_failure (he : Unattended e) (st : Stand) {n : ℕ}
    (hnext : p.config.next = some .replan)
    (hready : Ready runId st.seen (3 - (n + 1 : ℕ)) p.config.state)
    (hplaced : Placed runId records st p.config.world) (hseen : Sandbox st.seen)
    (hclients : Sandbox st.clients) : ∃ q, Leads e p [] q ∧ Due runId records n st q := by
  obtain ⟨q, hleads, hqnext, hqready, hqplaced⟩ := replans_on he hnext hready hplaced
  have hcount : (3 - (n + 1 : ℕ) : Int) + 1 = 3 - n := by omega
  rw [hcount] at hqnext hqready
  have hlast : (maxReplanCycles ≤ 3 - (n : Int)) = (n = 0) := by
    rw [maxReplanCycles, eq_iff_iff]
    omega
  simp only [hlast] at hqnext
  exact ⟨q, hleads, hqnext, hqready, hqplaced, hseen, hclients⟩

/-- From the preparation of an execution on. -/
theorem concludes (he : Unattended e) (st : Stand) {n : ℕ}
    (ih : ∀ {p : Position} {st : Stand}, Due runId records n st p →
      Ends e records p (rounds n st))
    (hnext : p.config.next = some .prepareExecution)
    (hchosen : Chosen e.digest runId st.seen (3 - (n + 1 : ℕ)) x target p.config.state)
    (hplaced : Placed runId records st p.config.world) (hseen : Sandbox st.seen)
    (hclients : Sandbox st.clients) {t : ServiceState} (ht : st.clients.get? x.1 = some t)
    (hdisk : x.2.1 = "disk_pct" → t.hasDisk = true) :
    Ends e records p (concluded (rounds n) x (st.act x t)) := by
  obtain ⟨q₁, hleads₁, hnext₁, hexecuted₁, hplaced₁⟩ := executes he hnext hchosen hplaced ht hdisk
  obtain ⟨u, hu⟩ : ∃ u, (st.act x t).clients.get? x.1 = some u := by
    rw [Stand.act]
    split
    · exact ⟨t, ht⟩
    · exact ⟨_, Dict.get?_set_self _ _ _⟩
  obtain ⟨q₂, hleads₂, hnext₂, hexecuted₂, hplaced₂⟩ := verifies he hnext₁ hexecuted₁ hplaced₁ hu
  have hverified := hleads₁.trans hleads₂
  rw [concluded, Deed.before, hu, Option.any_some]
  by_cases hstatus : u.status = .healthy
  · rw [if_pos hstatus] at hnext₂
    rw [if_pos (decide_eq_true hstatus)]
    exact Ends.after_leg hverified
      (finishes he (Or.inl rfl) hnext₂ hexecuted₂.auditable hplaced₂)
  · rw [if_neg hstatus] at hnext₂
    have hfalse : ¬ decide (u.status = .healthy) = true := by simpa using hstatus
    rw [if_neg hfalse]
    obtain ⟨q₃, hleads₃, hnext₃, hready₃, hplaced₃⟩ := undoes he hnext₂ hexecuted₂ hplaced₂
    rw [← act_seen t] at hready₃ hseen
    obtain ⟨q₄, hleads₄, hdue⟩ := due_of_failure he (st.act x t) hnext₃ hready₃ hplaced₃ hseen
      (sandbox_act hclients ht)
    exact Ends.after_leg ((hverified.trans hleads₃).trans hleads₄) (ih hdue)

/-- An unattended run goes through its rounds, by induction on the failures to go. -/
theorem rounds_run (he : Unattended e) (n : ℕ) {p : Position} {st : Stand}
    (h : Due runId records n st p) : Ends e records p (rounds n st) := by
  induction n generalizing p st with
  | zero => exact finishes he (Or.inr rfl) h.next h.ready.auditable h.placed
  | succ n ih =>
    obtain ⟨x, s, hx⟩ := exists_worst h.seen
    obtain ⟨t, ht, htdisk, _⟩ := h.clients x.1 hx.known
    have hdisk : x.2.1 = "disk_pct" → t.hasDisk = true := fun hsignal =>
      htdisk.trans (hx.has_disk hsignal)
    have hnext : p.config.next = some .proposeAction := h.next
    obtain ⟨q₁, hleads₁, hnext₁, hchosen₁, hplaced₁⟩ := proposes he hnext h.ready hx h.placed
    obtain ⟨q₂, hleads₂, hnext₂, hchosen₂, htier, hplaced₂⟩ :=
      classifies he hnext₁ hchosen₁ hx hplaced₁
    have hclassified := hleads₁.trans hleads₂
    simp only [rounds, hx.worst, hx.found, ht]
    by_cases hauto : Autonomous x s
    · rw [if_pos hauto] at hnext₂ ⊢
      exact Ends.after_leg hclassified
        (concludes he st ih hnext₂ hchosen₂ hplaced₂ h.seen h.clients ht hdisk)
    · rw [if_neg hauto] at hnext₂ ⊢
      obtain ⟨q₃, hleads₃, hnext₃, hchosen₃, hplaced₃⟩ := approves he hnext₂ hchosen₂ htier hplaced₂
      obtain ⟨q₄, hleads₄, hnext₄, hchosen₄, hplaced₄⟩ :=
        revalidates he hnext₃ hchosen₃ hx hplaced₃ h.clients ht
      have happroved := (hclassified.trans hleads₃).trans hleads₄
      by_cases hdrift : Drifted x s t
      · rw [if_pos hdrift] at hnext₄ ⊢
        obtain ⟨q₅, hleads₅, hdue⟩ := due_of_failure he { st with seen := st.clients }
          hnext₄ hchosen₄.toReady ⟨hplaced₄.clients, hplaced₄.records, hplaced₄.ledger,
            hplaced₄.noop⟩ h.clients h.clients
        exact Ends.after_leg (happroved.trans hleads₅) (ih hdue)
      · rw [if_neg hdrift] at hnext₄ ⊢
        exact Ends.after_leg happroved (concludes he { st with seen := st.clients } ih
          hnext₄ hchosen₄ ⟨hplaced₄.clients, hplaced₄.records, hplaced₄.ledger, hplaced₄.noop⟩
          h.clients h.clients ht hdisk)

end Legs

/-- Enough attempts reach the end, and more of them change nothing. -/
theorem Ends.drive {e : Surroundings} (he : Unattended e) {records : RecordsRepository}
    {p : Position} {run : List Deed × Dict String ServiceState} (h : Ends e records p run) :
    ∃ m, ∀ n, deeds (p.drive e (m + n)) = run.1 ∧ (p.after e (m + n)).next = none ∧
      (p.after e (m + n)).world.clients = run.2 ∧ (p.after e (m + n)).world.records = records := by
  obtain ⟨r, ⟨vs, path, hdeeds⟩, hend, hclients, hrecords⟩ := h
  obtain ⟨m, hm⟩ := path.drive
  refine ⟨m, fun n => ?_⟩
  obtain ⟨hdrive, hafter⟩ := hm n
  obtain ⟨hnothing, now, hlast⟩ := ended he hend n r.attempts r.decisions
  have hrest : r.drive e n = [] := hnothing
  have hsame : r.after e n = { r.config with world := { r.config.world with now := now } } := hlast
  rw [hdrive, hrest, List.append_nil, hafter, hsame]
  exact ⟨hdeeds, hend, hclients, hrecords⟩

/-- A run as it is started. -/
def started (runId : String) (w : ToolContext) : Position := ⟨0, 0, startWorkflow runId {} w⟩

theorem started_ends {e : Surroundings} (he : Unattended e) {w : ToolContext}
    (hw : Sandbox w.clients) {runId : String}
    (hfresh : ∀ a, w.store.get? (idempotencyKey runId a) = none) :
    Ends e w.records (started runId w) (rounds 3 ⟨w.clients, w.clients, []⟩) := by
  have hplaced : Placed runId w.records ⟨w.clients, w.clients, []⟩ w := by
    refine ⟨rfl, rfl, fun a => ?_, fun a entry hentry => ?_⟩
    · rw [hfresh]
      simp
    · rw [hfresh] at hentry
      cases hentry
  have hplaced' : Placed runId w.records ⟨w.clients, w.clients, []⟩ (e.others 0 w) :=
    hplaced.others he 0
  have hsandbox : Sandbox (e.others 0 w).clients := by
    rw [hplaced'.clients]
    exact hw
  obtain ⟨obs, hobs⟩ := gather_ok hsandbox.registered
  have haudit : Auditable (started runId w).config.state :=
    ⟨⟨runId, rfl⟩, isText_none, isText_none, isText_none, isText_none⟩
  have hnext : (started runId w).config.next = some .diagnose := rfl
  obtain ⟨q, hleads, hq, hqnext, hworld⟩ := visited (e := e) hnext
    (diagnose_run (w := e.others 0 w) hobs) haudit rfl
  have hdue : Due runId w.records 3 ⟨w.clients, w.clients, []⟩ q := by
    refine ⟨hqnext, ?_, ?_, hw, hw⟩
    · rw [hq]
      exact ⟨rfl, auditable_merge haudit _, ⟨_, rfl⟩, ⟨_, obs, hplaced'.clients, hobs, rfl⟩, rfl⟩
    · rw [hworld]
      exact hplaced'
  exact Ends.after_leg hleads (rounds_run he 3 hdue)

/-- Whatever the services show, an unattended run without a language model ends, and its
questions, its executions, its end and the services it leaves are those of at most three
rounds. -/
theorem unattended_rounds {e : Surroundings} (he : Unattended e) {w : ToolContext}
    (hw : Sandbox w.clients) {runId : String}
    (hfresh : ∀ a, w.store.get? (idempotencyKey runId a) = none) :
    ∃ m, ∀ n, deeds ((started runId w).drive e (m + n)) =
        (rounds 3 ⟨w.clients, w.clients, []⟩).1 ∧
      ((started runId w).after e (m + n)).next = none ∧
      ((started runId w).after e (m + n)).world.clients =
        (rounds 3 ⟨w.clients, w.clients, []⟩).2 ∧
      ((started runId w).after e (m + n)).world.records = w.records :=
  (started_ends he hw hfresh).drive he

/-- The agent's own restart makes its second proposal stale, and the third is another one. -/
theorem leaking_and_full_rounds :
    ∃ m, ∀ n, deeds ((started "run-1" DriftDetection.leakingAndFull).drive harnessSurroundings
        (m + n)) =
      [.asks "restart_service:service_c", .executes "restart_service:service_c",
        .asks "restart_service:service_c", .asks "clear_cache:service_c",
        .executes "clear_cache:service_c", .completes] := by
  have hholds : sandboxHolds DriftDetection.leakingAndFull.clients = true := by decide +kernel
  obtain ⟨m, hm⟩ := unattended_rounds harness_unattended (sandbox_of_check hholds)
    (fun a => (rfl : DriftDetection.leakingAndFull.store.get? (idempotencyKey "run-1" a) = none))
  refine ⟨m, fun n => (hm n).1.trans ?_⟩
  decide +kernel

end HeuristicRuns
