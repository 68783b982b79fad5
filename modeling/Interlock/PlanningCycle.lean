import Interlock.Walks

/-!
# Planning cycles

How a walk can have come to a node, and from it the three ways a cycle leads
from a proposal to an execution. Runs can also be played from a script, which
gives concrete runs to look at.
-/

namespace PlanningCycle

open Dictionary PythonValues Tools DiagnosticSweep Fingerprint RiskPolicy Execution RunState Nodes
open Graph Transitions Walks Relation

/-! ### Where a walk came from -/

section Inversion

variable {rt : Runtime} {others : ToolContext → ToolContext → Prop} {initialState : AgentState}
variable {world w : ToolContext} {vs : List Visit} {s : AgentState} {next : Option Node}

/-- The latest visit of a walk, and the walk before it. -/
structure LastVisit (rt : Runtime) (others : ToolContext → ToolContext → Prop)
    (initialState : AgentState) (world : ToolContext) (vs : List Visit) (s : AgentState)
    (next : Option Node) (w : ToolContext) (v : Visit) (past : List Visit) : Prop where
  visits_eq : vs = v :: past
  state_eq : s = v.after
  world_eq : w = v.worldAfter
  led : v.Led rt next
  earlier : ∃ u, Walk rt others initialState world past v.before (some v.node) u ∧
    ReflTransGen others u v.worldBefore

theorem walk_last (walk : Walk rt others initialState world vs s next w)
    (hnext : next ≠ some .diagnose) :
    ∃ v past, LastVisit rt others initialState world vs s next w v past := by
  cases walk with
  | start => exact absurd rfl hnext
  | visit walk hbefore hworld hled =>
    subst hbefore
    exact ⟨_, _, rfl, rfl, rfl, hled, _, walk, hworld⟩

variable {v : Visit} {past : List Visit}

theorem walk_cons (walk : Walk rt others initialState world (v :: past) s next w) :
    s = v.after ∧ w = v.worldAfter ∧ v.Led rt next ∧
      ∃ u, Walk rt others initialState world past v.before (some v.node) u ∧
        ReflTransGen others u v.worldBefore := by
  cases walk with
  | visit walk hbefore hworld hled =>
    subst hbefore
    exact ⟨rfl, rfl, hled, _, walk, hworld⟩

/-- A visit starts in the state its predecessor left, in a world that others may
have changed since. -/
theorem walk_cons_cons {u : Visit}
    (walk : Walk rt others initialState world (v :: u :: past) s next w) :
    v.before = u.after ∧ ReflTransGen others u.worldAfter v.worldBefore ∧
      Walk rt others initialState world (u :: past) v.before (some v.node) u.worldAfter := by
  obtain ⟨_, _, _, w', hwalk, hworld⟩ := walk_cons walk
  obtain ⟨hs, hw, _⟩ := walk_cons hwalk
  subst hw
  exact ⟨hs, hworld, hwalk⟩

/-- Every visit of a walk ends the walk that had led to it. -/
theorem walk_split {later : List Visit}
    (walk : Walk rt others initialState world (later ++ v :: past) s next w) :
    ∃ s' next' w', Walk rt others initialState world (v :: past) s' next' w' := by
  induction later generalizing s next w with
  | nil => exact ⟨s, next, w, walk⟩
  | cons k later ih =>
    obtain ⟨_, _, _, _, hwalk, _⟩ := walk_cons walk
    exact ih hwalk

/-- What follows a visit: the next one of the walk, or where the walk stands. -/
theorem walk_successor {later : List Visit}
    (walk : Walk rt others initialState world (later ++ v :: past) s next w) :
    (later = [] ∧ v.Led rt next) ∨
      ∃ later' u, later = later' ++ [u] ∧ v.Led rt (some u.node) := by
  rcases List.eq_nil_or_concat later with rfl | ⟨later', u, hlater⟩
  · obtain ⟨_, _, hled, _⟩ := walk_cons walk
    exact Or.inl ⟨rfl, hled⟩
  · rw [List.concat_eq_append] at hlater
    subst hlater
    rw [List.append_assoc, List.singleton_append] at walk
    obtain ⟨_, _, _, hwalk⟩ := walk_split walk
    obtain ⟨_, _, hpast⟩ := walk_cons_cons hwalk
    obtain ⟨_, _, hled, _⟩ := walk_cons hpast
    exact Or.inr ⟨later', u, rfl, hled⟩

theorem to_execute (h : LastVisit rt others initialState world vs s (some .execute) w v past) :
    v.node = .prepareExecution := by
  have hedge := led_edge h.led
  generalize v.node = n at hedge ⊢
  cases hedge
  rfl

theorem to_prepareExecution
    (h : LastVisit rt others initialState world vs s (some .prepareExecution) w v past) :
    (v.node = .classifyRisk ∧ v.after.riskTierFinal = some (.str "low")) ∨
    (v.node = .revalidate ∧ ∃ d, v.after.driftDetected = some d ∧ d.truthy = false) ∨
    (v.node = .awaitApproval ∧ rt.revalidate = false ∧
      ∃ d, v.after.approvalDecision = some d ∧ isGranted d = true) := by
  have hedge := led_edge h.led
  generalize v.node = n at hedge ⊢
  cases hedge with
  | low hlow => exact Or.inl ⟨rfl, hlow⟩
  | steady hd h => exact Or.inr (Or.inl ⟨rfl, _, hd, h⟩)
  | grantedBlind hd h hrt => exact Or.inr (Or.inr ⟨rfl, hrt, _, hd, h⟩)

theorem to_revalidate
    (h : LastVisit rt others initialState world vs s (some .revalidate) w v past) :
    v.node = .awaitApproval ∧ rt.revalidate = true ∧
      ∃ d, v.after.approvalDecision = some d ∧ isGranted d = true := by
  have hedge := led_edge h.led
  generalize v.node = n at hedge ⊢
  cases hedge with
  | granted hd h hrt => exact ⟨rfl, hrt, _, hd, h⟩

theorem to_awaitApproval
    (h : LastVisit rt others initialState world vs s (some .awaitApproval) w v past) :
    v.node = .markAwaitingApproval := by
  have hedge := led_edge h.led
  generalize v.node = n at hedge ⊢
  cases hedge
  rfl

theorem to_markAwaitingApproval
    (h : LastVisit rt others initialState world vs s (some .markAwaitingApproval) w v past) :
    v.node = .classifyRisk ∧ v.after.riskTierFinal ≠ some (.str "low") := by
  have hedge := led_edge h.led
  generalize v.node = n at hedge ⊢
  cases hedge with
  | gated h => exact ⟨rfl, h⟩

theorem to_classifyRisk
    (h : LastVisit rt others initialState world vs s (some .classifyRisk) w v past) :
    v.node = .proposeAction ∧ textTruthy v.after.invalidProposalReason = false := by
  have hedge := led_edge h.led
  generalize v.node = n at hedge ⊢
  cases hedge with
  | proposed h => exact ⟨rfl, h⟩

theorem to_verify (h : LastVisit rt others initialState world vs s (some .verify) w v past) :
    v.node = .execute := by
  have hedge := led_edge h.led
  generalize v.node = n at hedge ⊢
  cases hedge
  rfl

theorem to_rollingBack
    (h : LastVisit rt others initialState world vs s (some .rollingBack) w v past) :
    v.node = .verify ∧ ∃ d, v.after.verificationPassed = some d ∧ d.truthy = false := by
  have hedge := led_edge h.led
  generalize v.node = n at hedge ⊢
  cases hedge with
  | failed hd h => exact ⟨rfl, _, hd, h⟩

theorem to_completed (h : LastVisit rt others initialState world vs s (some .completed) w v past) :
    v.node = .verify ∧ ∃ d, v.after.verificationPassed = some d ∧ d.truthy = true := by
  have hedge := led_edge h.led
  generalize v.node = n at hedge ⊢
  cases hedge with
  | verified hd h => exact ⟨rfl, _, hd, h⟩

theorem to_end (h : LastVisit rt others initialState world vs s none w v past) :
    v.node = .completed ∨ v.node = .escalate := by
  have hedge := led_edge h.led
  generalize v.node = n at hedge ⊢
  cases hedge with
  | completed => exact Or.inl rfl
  | escalated => exact Or.inr rfl

end Inversion

/-! ### From a proposal to a suspension and to an execution -/

section Cycle

variable {rt : Runtime} {others : ToolContext → ToolContext → Prop} {initialState : AgentState}
variable {world w : ToolContext} {vs : List Visit} {s : AgentState}

/-- A cycle that asks for approval: a valid proposal, its classification, and the
mark; the walk still holds all visits before them. -/
theorem walk_to_approval (walk : Walk rt others initialState world vs s (some .awaitApproval) w) :
    ∃ mrk cls prop older, vs = mrk :: cls :: prop :: older ∧
      mrk.node = .markAwaitingApproval ∧ cls.node = .classifyRisk ∧ prop.node = .proposeAction ∧
      cls.after.riskTierFinal ≠ some (.str "low") ∧
      textTruthy prop.after.invalidProposalReason = false := by
  obtain ⟨mrk, past, hmrk⟩ := walk_last walk (by simp)
  have hmark := to_awaitApproval hmrk
  obtain ⟨u, hwalk, _⟩ := hmrk.earlier
  rw [hmark] at hwalk
  obtain ⟨cls, past', hcls⟩ := walk_last hwalk (by simp)
  obtain ⟨hclass, hgated⟩ := to_markAwaitingApproval hcls
  obtain ⟨u', hwalk', _⟩ := hcls.earlier
  rw [hclass] at hwalk'
  obtain ⟨prop, older, hprop⟩ := walk_last hwalk' (by simp)
  obtain ⟨hpropose, hvalid⟩ := to_classifyRisk hprop
  refine ⟨mrk, cls, prop, older, ?_, hmark, hclass, hpropose, hgated, hvalid⟩
  rw [hmrk.visits_eq, hcls.visits_eq, hprop.visits_eq]

/-- The nodes of a cycle after its proposal was found valid. -/
def acting : List Node :=
  [.classifyRisk, .markAwaitingApproval, .awaitApproval, .revalidate, .prepareExecution, .execute,
    .verify, .rollingBack, .rolledBack]

theorem edge_to_acting {node m : Node} (h : Edge rt s node (some m)) (hm : m ∈ acting) :
    (node = .proposeAction ∧ textTruthy s.invalidProposalReason = false) ∨ node ∈ acting := by
  cases h with
  | proposed hvalid => exact Or.inl ⟨rfl, hvalid⟩
  | diagnosed | invalid _ | rejected _ _ _ | lapsed _ _ _ | drifted _ _ | verified _ _ | undone
  | replanned _ _ | exhausted _ _ => simp [acting] at hm
  | _ => exact Or.inr (by simp [acting])

/-- The three ways from a proposal to the preparation of its execution: a low
tier, a granted approval that was revalidated, and a granted approval in the
graph without revalidation. -/
theorem walk_to_execution (walk : Walk rt others initialState world vs s (some .execute) w) :
    ∃ prep, prep.node = .prepareExecution ∧
      ((∃ cls prop older, vs = prep :: cls :: prop :: older ∧ cls.node = .classifyRisk ∧
          prop.node = .proposeAction ∧ cls.after.riskTierFinal = some (.str "low")) ∨
        (∃ rev awt mrk cls prop older, vs = prep :: rev :: awt :: mrk :: cls :: prop :: older ∧
          rev.node = .revalidate ∧ awt.node = .awaitApproval ∧ mrk.node = .markAwaitingApproval ∧
          cls.node = .classifyRisk ∧ prop.node = .proposeAction ∧ rt.revalidate = true ∧
          (∃ d, awt.after.approvalDecision = some d ∧ isGranted d = true) ∧
          ∃ d, rev.after.driftDetected = some d ∧ d.truthy = false) ∨
        ∃ awt mrk cls prop older, vs = prep :: awt :: mrk :: cls :: prop :: older ∧
          awt.node = .awaitApproval ∧ mrk.node = .markAwaitingApproval ∧
          cls.node = .classifyRisk ∧ prop.node = .proposeAction ∧ rt.revalidate = false ∧
          ∃ d, awt.after.approvalDecision = some d ∧ isGranted d = true) := by
  obtain ⟨prep, past, hprep⟩ := walk_last walk (by simp)
  have hnode := to_execute hprep
  obtain ⟨u, hwalk, _⟩ := hprep.earlier
  rw [hnode] at hwalk
  refine ⟨prep, hnode, ?_⟩
  obtain ⟨v, past', hv⟩ := walk_last hwalk (by simp)
  obtain ⟨u', hwalk', _⟩ := hv.earlier
  rcases to_prepareExecution hv with ⟨hclass, hlow⟩ | ⟨hrev, hsteady⟩ | ⟨hawait, hrt, hgranted⟩
  · rw [hclass] at hwalk'
    obtain ⟨prop, older, hprop⟩ := walk_last hwalk' (by simp)
    obtain ⟨hpropose, _⟩ := to_classifyRisk hprop
    refine Or.inl ⟨v, prop, older, ?_, hclass, hpropose, hlow⟩
    rw [hprep.visits_eq, hv.visits_eq, hprop.visits_eq]
  · rw [hrev] at hwalk'
    obtain ⟨awt, past'', hawt⟩ := walk_last hwalk' (by simp)
    obtain ⟨hawait, hrt, hgranted⟩ := to_revalidate hawt
    obtain ⟨u'', hwalk'', _⟩ := hawt.earlier
    rw [hawait] at hwalk''
    obtain ⟨mrk, cls, prop, older, hpast, hmark, hclass, hpropose, _, _⟩ :=
      walk_to_approval hwalk''
    refine Or.inr (Or.inl ⟨v, awt, mrk, cls, prop, older, ?_, hrev, hawait, hmark, hclass,
      hpropose, hrt, hgranted, hsteady⟩)
    rw [hprep.visits_eq, hv.visits_eq, hawt.visits_eq, hpast]
  · rw [hawait] at hwalk'
    obtain ⟨mrk, cls, prop, older, hpast, hmark, hclass, hpropose, _, _⟩ := walk_to_approval hwalk'
    refine Or.inr (Or.inr ⟨v, mrk, cls, prop, older, ?_, hawait, hmark, hclass, hpropose, hrt,
      hgranted⟩)
    rw [hprep.visits_eq, hv.visits_eq, hpast]

theorem since_propose_cons {v : Visit} {past : List Visit} (h : v.node ≠ .proposeAction) :
    since isPropose (v :: past) = v :: since isPropose past :=
  since_cons_of_not (by simp [isPropose, h])

/-- The visits since a proposal make up the cycle. -/
theorem cycle_eq {past : List Event} {recent older : List Visit} {prop : Visit}
    (hvs : visits past = recent ++ prop :: older) (hprop : prop.node = .proposeAction)
    (hrecent : ∀ v ∈ recent, v.node ≠ .proposeAction) : cycle past = recent := by
  rw [cycle, hvs]
  apply since_append
  · intro v hv
    simp [isPropose, hrecent v hv]
  · simp [isPropose, hprop]

end Cycle

/-! ### Playing a script -/

/-- A scripted run visits its next node with given answers, or somebody else
changes the sandbox. -/
inductive Move where
  | answer (answers : Answers)
  | change (world : ToolContext → ToolContext)

/-- The step that a move of a script stands for. -/
def moved (rt : Runtime) (c : Config) : Move → Option (Event × Config)
  | .answer answers =>
    match c.next, (step rt answers c).1 with
    | some node, .ok c' =>
      some (.visit ⟨node, answers, c.state, c.world, c'.state, c'.world⟩, c')
    | _, _ => none
  | .change f => some (.others c.world (f c.world), { c with world := f c.world })

def play (rt : Runtime) : List Move → List Event → Config → Option (List Event × Config) :=
  enact (moved rt)

/-- The moves of others in a script are changes that `others` allows. -/
def Allowed (others : ToolContext → ToolContext → Prop) (moves : List Move) : Prop :=
  ∀ m ∈ moves, ∀ f, m = .change f → ∀ w, others w (f w)

theorem step_of_moved {rt : Runtime} {others : ToolContext → ToolContext → Prop} {c c' : Config}
    {m : Move} {e : Event} (hallowed : ∀ f, m = .change f → ∀ w, others w (f w))
    (h : moved rt c m = some (e, c')) : (system rt others).step c e c' := by
  cases m with
  | answer answers =>
    rw [moved] at h
    split at h
    · rename_i hnext hstep
      cases h
      exact Step.visit hnext hstep
    · cases h
  | change f =>
    cases h
    exact Step.others (hallowed f rfl c.world)

theorem play_trace {rt : Runtime} {others : ToolContext → ToolContext → Prop} {a : Config}
    {moves : List Move} {past events : List Event} {c c' : Config} (hallowed : Allowed others moves)
    (run : Trace (system rt others) a past c) (h : play rt moves past c = some (events, c')) :
    Trace (system rt others) a events c' :=
  enact_trace (fun m hm _ _ _ => step_of_moved (hallowed m hm)) run h

/-- What a played run ended with: its latest visit, what came before, and where
it stands. -/
def endsIn (t : Option (List Event × Config)) (p : Visit → List Event → Config → Bool) : Bool :=
  played t fun events c =>
    match events with
    | .visit v :: past => p v past c
    | _ => false

theorem endsIn_spec {t : Option (List Event × Config)} {p : Visit → List Event → Config → Bool}
    (h : endsIn t p = true) : ∃ v past c, t = some (.visit v :: past, c) ∧ p v past c = true := by
  obtain ⟨events, c, rfl, hends⟩ := played_spec h
  split at hends
  · exact ⟨_, _, _, rfl, hends⟩
  · cases hends

/-- From a proposal to the execution of an action that is classified low. -/
def autonomousMoves (tool target : String) (parameters : Option Json) : List Move :=
  [.answer { proposal := { tool := tool, target := target, parameters := parameters } },
    .answer { classification := { tier := "low" } }, .answer {}, .answer {}]

/-- A failed verification, the rollback, and the replanning. -/
def rollbackMoves : List Move := [.answer {}, .answer {}, .answer {}, .answer {}]

end PlanningCycle
