import Interlock.KilledRuns
import Interlock.RedundancyFloor

/-!
# The lives of a run

A killed run goes on from its checkpoint, or is started again and keeps the values of its
channels. From one start to the next it is a walk through the graph like that of a run which
nobody kills, except that it sets out from what the last life has left. The gate and the floor
hold in every life, and all lives share one budget of replannings.
-/

namespace RestartedLives

open Dictionary PythonValues Tools DiagnosticSweep Fingerprint RiskPolicy Execution RunState Nodes
open Graph Transitions Walks DurableRuns KilledRuns Relation
open PlanningCycle hiding Move play play_trace
open ApprovalGate (ClassifiedLow classifiedLow_of_after)
open RedundancyFloor (ActsOn situationOf situation_of_service valid_at_classification)

/-! ### Completed visits -/

/-- A visit that has its checkpoint. -/
structure Done where
  node : Node
  before : AgentState
  after : AgentState

def doneOf (v : Visit) : Done := ⟨v.node, v.before, v.after⟩

/-- The visit in progress, once its node has acted. -/
def inProgress : List Label → Option (Node × AgentState)
  | [] => none
  | .acted node before _ :: _ => some (node, before)
  | .killed _ :: _ => none
  | _ :: past => inProgress past

/-- The visits that have a checkpoint, the latest one first. -/
def completed : List Label → List Done
  | [] => []
  | .checkpointed after :: past =>
    ((inProgress past).map fun v => ⟨v.1, v.2, after⟩).toList ++ completed past
  | _ :: past => completed past

def isProposal (v : Done) : Bool := decide (v.node = .proposeAction)

/-- What the planning cycle at hand has completed. -/
def cycleOf (vs : List Done) : List Done := since isProposal vs

theorem completed_step {l : Label} (hl : isCheckpoint l = false) (past : List Label) :
    completed (l :: past) = completed past := by
  cases l <;> first | rfl | cases hl

theorem inProgress_since (past : List Label) :
    inProgress (since isKill past) = inProgress past := by
  induction past with
  | nil => rfl
  | cons l past ih =>
    cases l with
    | killed lost => rw [since_cons_of (by rfl)]; rfl
    | acted node before update => rw [since_cons_of_not (by rfl)]; rfl
    | performed action outcome => rw [since_cons_of_not (by rfl)]; exact ih
    | recorded record => rw [since_cons_of_not (by rfl)]; exact ih
    | checkpointed after => rw [since_cons_of_not (by rfl)]; exact ih
    | others => rw [since_cons_of_not (by rfl)]; exact ih

/-! ### The visit in progress -/

/-- How a node has come to the update at hand. -/
inductive AtHand (rt : Runtime) (past : List Label) (d : Durable) : Prop where
  | idle (hphase : d.phase = .idle)
  | performed {answers : Answers} {call : ToolCall} {key : String} {outcome : Outcome}
      {w w' : ToolContext} (hphase : d.phase = .performed answers call key outcome)
      (hnext : d.next = some .execute)
      (hnode : ∀ answers : Answers, (nodeFn rt answers .execute d.state).run w =
        (.ok (executed outcome), w'))
  | acted {node : Node} {answers : Answers} {update : Update} {w w' : ToolContext}
      (hphase : d.phase = .acted answers update) (hnext : d.next = some node)
      (hpast : inProgress past = some (node, d.state))
      (hnode : (nodeFn rt answers node d.state).run w = (.ok update, w'))
  | recorded {node : Node} {answers : Answers} {update : Update} {record : AuditRecord}
      {w w' : ToolContext} (hphase : d.phase = .recorded update) (hnext : d.next = some node)
      (hpast : inProgress past = some (node, d.state))
      (hnode : (nodeFn rt answers node d.state).run w = (.ok update, w'))
      (hrecord : auditRecord answers.clock node d.state update = .ok record)

section Steps

variable {rt : Runtime} {others : ToolContext → ToolContext → Prop} {recover : Config → Config}
variable {past : List Label} {d d' : Durable} {l : Label}

/-- A side effect that is not in the ledger yet is that of an execution. -/
theorem AtHand.of_performed {answers : Answers} {call : ToolCall} {key : String}
    {outcome : Outcome} (h : AtHand rt past d)
    (hphase : d.phase = .performed answers call key outcome) :
    d.next = some .execute ∧ ∃ w w', ∀ answers : Answers,
      (nodeFn rt answers .execute d.state).run w = (.ok (executed outcome), w') := by
  cases h with
  | performed hphase' hnext hnode =>
    rw [hphase] at hphase'
    cases hphase'
    exact ⟨hnext, _, _, hnode⟩
  | idle h => rw [hphase] at h; cases h
  | acted h => rw [hphase] at h; cases h
  | recorded h => rw [hphase] at h; cases h

theorem AtHand.of_acted {node : Node} {answers : Answers} {update : Update}
    (h : AtHand rt past d) (hphase : d.phase = .acted answers update) (hnext : d.next = some node) :
    inProgress past = some (node, d.state) ∧
      ∃ w w', (nodeFn rt answers node d.state).run w = (.ok update, w') := by
  cases h with
  | acted hphase' hnext' hpast hnode =>
    rw [hphase] at hphase'
    cases hphase'
    rw [hnext] at hnext'
    cases hnext'
    exact ⟨hpast, _, _, hnode⟩
  | idle h => rw [hphase] at h; cases h
  | performed h => rw [hphase] at h; cases h
  | recorded h => rw [hphase] at h; cases h

theorem AtHand.of_recorded {node : Node} {update : Update} (h : AtHand rt past d)
    (hphase : d.phase = .recorded update) (hnext : d.next = some node) :
    inProgress past = some (node, d.state) ∧ ∃ (answers : Answers) (record : AuditRecord)
        (w w' : ToolContext),
      (nodeFn rt answers node d.state).run w = (.ok update, w') ∧
        auditRecord answers.clock node d.state update = .ok record := by
  cases h with
  | recorded hphase' hnext' hpast hnode hrecord =>
    rw [hphase] at hphase'
    cases hphase'
    rw [hnext] at hnext'
    cases hnext'
    exact ⟨hpast, _, _, _, _, hnode, hrecord⟩
  | idle h => rw [hphase] at h; cases h
  | performed h => rw [hphase] at h; cases h
  | acted h => rw [hphase] at h; cases h

theorem atHand_step (h : AtHand rt past d) (hs : Step rt others recover d l d') :
    AtHand rt (l :: past) d' := by
  cases hs with
  | performed hnext hidle haction hkey hcall hfree hperform =>
    exact .performed rfl hnext fun _ => execute_performed _ _ haction hkey hcall hfree hperform
  | entered hphase =>
    obtain ⟨hnext, _, _, hnode⟩ := h.of_performed hphase
    exact .acted rfl hnext rfl (hnode _)
  | acted hnext _ _ hnode => exact .acted rfl hnext rfl hnode
  | recorded hnext hphase hrecord =>
    obtain ⟨hpast, _, _, hnode⟩ := h.of_acted hphase hnext
    exact .recorded rfl hnext hpast hnode hrecord
  | checkpointed _ _ _ => exact .idle rfl
  | killed => exact .idle rfl
  | others _ =>
    cases h with
    | idle hphase => exact .idle hphase
    | performed hphase hnext hnode => exact .performed hphase hnext hnode
    | acted hphase hnext hpast hnode => exact .acted hphase hnext hpast hnode
    | recorded hphase hnext hpast hnode hrecord =>
      exact .recorded hphase hnext hpast hnode hrecord

/-- A checkpoint completes a visit that leads on as the graph says. -/
theorem led_of_checkpoint {node : Node} {update : Update} {next : Option Node}
    (h : AtHand rt past d) (hnext : d.next = some node) (hphase : d.phase = .recorded update)
    (hroute : nextNode rt node (d.state.merge update) = .ok next) :
    ∃ v : Visit, v.Led rt next ∧ v.node = node ∧ v.before = d.state ∧
      v.after = d.state.merge update ∧
      completed (.checkpointed (d.state.merge update) :: past) = doneOf v :: completed past := by
  obtain ⟨hpast, answers, record, w, w', hnode, hrecord⟩ := h.of_recorded hphase hnext
  refine ⟨⟨node, answers, d.state, w, d.state.merge update, w'⟩,
    ⟨update, record, hnode, hrecord, rfl, hroute⟩, rfl, rfl, rfl, ?_⟩
  rw [completed, hpast]
  rfl

end Steps

/-! ### Lives -/

/-- Others may do anything. -/
def Anything (_ _ : ToolContext) : Prop := True

/-- Runs that go on after each kill in one of these ways, which may be another one each time. -/
def lives (rt : Runtime) (others : ToolContext → ToolContext → Prop)
    (ways : (Config → Config) → Prop) : System Durable Label :=
  ⟨fun d l d' => ∃ recover, ways recover ∧ DurableRuns.Step rt others recover d l d'⟩

/-- A kill is followed by a rerun from the checkpoint, or by a start. -/
def Recovers (ways : (Config → Config) → Prop) : Prop :=
  ∀ recover, ways recover →
    recover = rerun ∨ ∃ runId initialState, recover = startAgain runId initialState

/-- Every kill is followed by a start. -/
def Restarts (ways : (Config → Config) → Prop) : Prop :=
  ∀ recover, ways recover → ∃ runId initialState, recover = startAgain runId initialState

theorem lives_of_durable {rt : Runtime} {others : ToolContext → ToolContext → Prop}
    {ways : (Config → Config) → Prop} {recover : Config → Config} {a d : Durable}
    {past : List Label} (hway : ways recover) (run : Trace (durable rt others recover) a past d) :
    Trace (lives rt others ways) a past d := by
  induction run with
  | start => exact .start
  | snoc _ hs ih => exact ih.snoc ⟨recover, hway, hs⟩

/-- A life so far is a walk through the graph, and what it has completed comes after what
earlier lives have. -/
structure Life (rt : Runtime) (ways : (Config → Config) → Prop) (past : List Label) (d : Durable)
    (initialState : AgentState) (world : ToolContext) (vs : List Visit) (w : ToolContext)
    (older : List Done) : Prop where
  walk : Walk rt Anything initialState world vs d.state d.next w
  completed_eq : completed past = vs.map doneOf ++ older
  own : Restarts ways → completed (since isKill past) = vs.map doneOf

section Lives

variable {rt : Runtime} {others : ToolContext → ToolContext → Prop} {recover : Config → Config}
variable {ways : (Config → Config) → Prop}
variable {runId : String} {initialState : AgentState} {world : ToolContext}
variable {past : List Label} {d d' : Durable} {l : Label}

/-- A step that neither completes a visit nor kills leaves the life as it is. -/
theorem life_keeps {vs : List Visit} {w : ToolContext} {older : List Done}
    (h : Life rt ways past d initialState world vs w older) (hl : isCheckpoint l = false)
    (hkill : isKill l = false) (hstate : d'.state = d.state) (hnext : d'.next = d.next) :
    Life rt ways (l :: past) d' initialState world vs w older := by
  refine ⟨?_, ?_, fun hrestarts => ?_⟩
  · rw [hstate, hnext]
    exact h.walk
  · rw [completed_step hl]
    exact h.completed_eq
  · rw [since_cons_of_not hkill, completed_step hl]
    exact h.own hrestarts

theorem life_step (hways : Recovers ways) {vs : List Visit} {w : ToolContext}
    {older : List Done} (h : Life rt ways past d initialState world vs w older)
    (hhand : AtHand rt past d) (hway : ways recover) (hs : Step rt others recover d l d') :
    ∃ initialState world vs w older,
      Life rt ways (l :: past) d' initialState world vs w older := by
  cases hs with
  | performed => exact ⟨_, _, _, _, _, life_keeps h rfl rfl rfl rfl⟩
  | entered => exact ⟨_, _, _, _, _, life_keeps h rfl rfl rfl rfl⟩
  | acted => exact ⟨_, _, _, _, _, life_keeps h rfl rfl rfl rfl⟩
  | recorded => exact ⟨_, _, _, _, _, life_keeps h rfl rfl rfl rfl⟩
  | others => exact ⟨_, _, _, _, _, life_keeps h rfl rfl rfl rfl⟩
  | @checkpointed node update next hnext hphase hroute =>
    obtain ⟨v, hled, hnode, hbefore, hafter, hcompleted⟩ :=
      led_of_checkpoint hhand hnext hphase hroute
    have hwalk : Walk rt Anything initialState world (v :: vs) v.after next v.worldAfter := by
      refine .visit (w := w) ?_ hbefore (.single trivial) hled
      rw [hnode, ← hnext]
      exact h.walk
    refine ⟨initialState, world, v :: vs, v.worldAfter, older, ?_, ?_, fun hrestarts => ?_⟩
    · rw [hafter] at hwalk
      exact hwalk
    · rw [hcompleted, h.completed_eq]
      rfl
    · have hown : completed (since isKill (.checkpointed (d.state.merge update) :: past)) =
          doneOf v :: completed (since isKill past) := by
        rw [since_cons_of_not (by rfl)]
        have hsame := hcompleted
        rw [completed] at hsame ⊢
        rw [inProgress_since]
        have hone : ((inProgress past).map fun u =>
            (⟨u.1, u.2, d.state.merge update⟩ : Done)).toList = [doneOf v] :=
          List.append_cancel_right hsame
        rw [hone]
        rfl
      rw [hown, h.own hrestarts]
      rfl
  | killed =>
    have hagain : ∀ runId preset, recover = startAgain runId preset →
        ({ toConfig := recover d.toConfig } : Durable).next = some .diagnose := by
      intro runId preset hstart
      rw [hstart]
      rfl
    by_cases hrestarts : Restarts ways
    · obtain ⟨runId, preset, hstart⟩ := hrestarts recover hway
      refine ⟨(recover d.toConfig).state, d.world, [], d.world, completed past, ?_, rfl,
        fun _ => ?_⟩
      · rw [hagain _ _ hstart]
        exact .start
      · rw [since_cons_of (by rfl)]
        rfl
    · rcases hways recover hway with hrerun | ⟨runId, preset, hstart⟩
      · refine ⟨initialState, world, vs, w, older, ?_, ?_, fun h' => absurd h' hrestarts⟩
        · rw [hrerun]
          exact h.walk
        · rw [completed_step rfl]
          exact h.completed_eq
      · refine ⟨(recover d.toConfig).state, d.world, [], d.world, completed past, ?_, rfl,
          fun h' => absurd h' hrestarts⟩
        rw [hagain _ _ hstart]
        exact .start

theorem run_life (hways : Recovers ways)
    (run : Trace (lives rt others ways) (begun runId initialState world) past d) :
    AtHand rt past d ∧ ∃ initialState world vs w older,
      Life rt ways past d initialState world vs w older := by
  induction run with
  | start => exact ⟨.idle rfl, _, world, [], world, [], .start, rfl, fun _ => rfl⟩
  | snoc run hs ih =>
    obtain ⟨hhand, _, _, _, _, _, hlife⟩ := ih
    obtain ⟨recover, hway, hs⟩ := hs
    exact ⟨atHand_step hhand hs, life_step hways hlife hhand hway hs⟩

end Lives

/-! ### The gate -/

/-- The step attempts the action: it performs its side effect, or has its outcome, recorded
ones included. -/
def Attempts (action : String) : Label → Prop
  | .performed performed _ => performed = action
  | .acted node before _ => node = .execute ∧ before.proposedAction = some (.str action)
  | _ => False

/-- The reviewer's value was a grant, and left the action in the state. -/
def GrantedBy (action : String) (v : Done) : Prop :=
  v.node = .awaitApproval ∧ v.after.proposedAction = some (.str action) ∧
    ∃ d, v.after.approvalDecision = some d ∧ isGranted d = true

/-- `classify_risk` gave the action the final tier low, and its tool is not always high. -/
def LowFor (action : String) (v : Done) : Prop :=
  v.node = .classifyRisk ∧ v.before.proposedAction = some (.str action) ∧
    v.after.riskTierFinal = some (.str "low") ∧
    ∃ tool target, splitColon action = .ok (tool, target) ∧ tool ≠ "delete_records" ∧
      tool ≠ "rollback_deployment"

/-- Since the latest proposal every reviewer has granted the action, and it was classified low
unless one has. -/
structure GatedIn (vs : List Done) (action : String) : Prop where
  proposed : ∃ p ∈ vs, isProposal p = true
  granted : ∀ a ∈ cycleOf vs, a.node = .awaitApproval → GrantedBy action a
  opened : (∃ k ∈ cycleOf vs, LowFor action k) ∨ ∃ a ∈ cycleOf vs, GrantedBy action a

section Gate

variable {rt : Runtime} {others : ToolContext → ToolContext → Prop} {recover : Config → Config}
variable {ways : (Config → Config) → Prop}
variable {runId action : String} {initialState s : AgentState} {world w : ToolContext}
variable {vs : List Visit} {past later : List Label} {d d' : Durable} {l : Label}

theorem attempts_next (h : Attempts action l) (hhand : AtHand rt past d)
    (hs : Step rt others recover d l d') :
    d.next = some .execute ∧ d.state.proposedAction = some (.str action) := by
  cases hs with
  | performed hnext _ haction => exact ⟨hnext, by rw [haction]; exact congrArg _ (congrArg _ h)⟩
  | entered hphase => exact ⟨(hhand.of_performed hphase).1, h.2⟩
  | acted hnext _ _ _ =>
    obtain ⟨rfl, haction⟩ := h
    exact ⟨hnext, haction⟩
  | recorded => exact h.elim
  | checkpointed => exact h.elim
  | killed => exact h.elim
  | others => exact h.elim

/-- The cycle of a walk, in front of whatever has been completed before. -/
theorem cycleOf_walk (recent : List Visit) {rest : List Visit} {prop : Visit} (older : List Done)
    (hvs : vs = recent ++ prop :: rest) (hprop : prop.node = .proposeAction)
    (hrecent : ∀ v ∈ recent, v.node ≠ .proposeAction) :
    cycleOf (vs.map doneOf ++ older) = recent.map doneOf := by
  rw [hvs, List.map_append, List.map_cons, List.append_assoc, List.cons_append, cycleOf]
  refine since_append ?_ (by rw [isProposal, doneOf, decide_eq_true_iff]; exact hprop)
  intro u hu
  obtain ⟨v, hv, rfl⟩ := List.mem_map.mp hu
  rw [isProposal, doneOf, decide_eq_false_iff_not]
  exact hrecent v hv

/-- From a visit on that no proposal and no reviewer comes after, the action stays. -/
theorem action_since {v : Visit} {rest : List Visit} {next : Option Node} (recent : List Visit)
    (walk : Walk rt others initialState world (recent ++ v :: rest) s next w)
    (hrecent : ∀ u ∈ recent, u.node ≠ .proposeAction ∧ u.node ≠ .awaitApproval) :
    v.after.proposedAction = s.proposedAction := by
  induction recent generalizing s next w with
  | nil =>
    obtain ⟨rfl, _⟩ := walk_cons walk
    rfl
  | cons u recent ih =>
    obtain ⟨rfl, _, hled, _, hwalk, _⟩ := walk_cons walk
    obtain ⟨hpropose, hawait⟩ := hrecent u List.mem_cons_self
    rw [ih hwalk fun u' hu' => hrecent u' (List.mem_cons_of_mem u hu'),
      (led_kept hled).proposedAction hpropose hawait]

/-- What has led a walk to an execution opens the gate. -/
theorem gated_walk (walk : Walk rt others initialState world vs s (some .execute) w)
    (haction : s.proposedAction = some (.str action)) (older : List Done) :
    GatedIn (vs.map doneOf ++ older) action := by
  obtain ⟨prep, hprep, hroute⟩ := walk_to_execution walk
  rcases hroute with ⟨cls, prop, rest, hvs, hcls, hprop, hlow⟩ |
    ⟨rev, awt, mrk, cls, prop, rest, hvs, hrev, hawt, hmrk, hcls, hprop, _, hgrant, _⟩ |
    ⟨awt, mrk, cls, prop, rest, hvs, hawt, hmrk, hcls, hprop, _, hgrant⟩
  · have hcycle := cycleOf_walk [prep, cls] older hvs hprop (by simp [hprep, hcls])
    rw [hvs] at walk
    obtain ⟨_, _, hwalk⟩ := walk_cons_cons walk
    obtain ⟨_, _, hledCls, _⟩ := walk_cons hwalk
    obtain ⟨action', hclassified, haction'⟩ := classifiedLow_of_after hledCls hcls hlow
    have hkept : cls.after.proposedAction = s.proposedAction :=
      action_since [prep] walk (by simp [hprep])
    rw [haction', haction, Option.some.injEq, Json.str.injEq] at hkept
    subst hkept
    refine ⟨⟨doneOf prop, by simp [hvs], by simp [isProposal, doneOf, hprop]⟩, ?_,
      Or.inl ⟨doneOf cls, by simp [hcycle], hclassified⟩⟩
    intro a ha hnode
    simp only [hcycle, List.map_cons, List.map_nil, List.mem_cons, List.not_mem_nil, or_false] at ha
    rcases ha with rfl | rfl
    · exact absurd (hprep.symm.trans hnode) (by decide)
    · exact absurd (hcls.symm.trans hnode) (by decide)
  · have hcycle := cycleOf_walk [prep, rev, awt, mrk, cls] older hvs hprop
      (by simp [hprep, hrev, hawt, hmrk, hcls])
    have hkept : awt.after.proposedAction = s.proposedAction :=
      action_since [prep, rev] (hvs ▸ walk) (by simp [hprep, hrev])
    have hgranted : GrantedBy action (doneOf awt) := ⟨hawt, hkept.trans haction, hgrant⟩
    refine ⟨⟨doneOf prop, by simp [hvs], by simp [isProposal, doneOf, hprop]⟩, ?_,
      Or.inr ⟨doneOf awt, by simp [hcycle], hgranted⟩⟩
    intro a ha hnode
    simp only [hcycle, List.map_cons, List.map_nil, List.mem_cons, List.not_mem_nil, or_false] at ha
    rcases ha with rfl | rfl | rfl | rfl | rfl
    · exact absurd (hprep.symm.trans hnode) (by decide)
    · exact absurd (hrev.symm.trans hnode) (by decide)
    · exact hgranted
    · exact absurd (hmrk.symm.trans hnode) (by decide)
    · exact absurd (hcls.symm.trans hnode) (by decide)
  · have hcycle := cycleOf_walk [prep, awt, mrk, cls] older hvs hprop
      (by simp [hprep, hawt, hmrk, hcls])
    have hkept : awt.after.proposedAction = s.proposedAction :=
      action_since [prep] (hvs ▸ walk) (by simp [hprep])
    have hgranted : GrantedBy action (doneOf awt) := ⟨hawt, hkept.trans haction, hgrant⟩
    refine ⟨⟨doneOf prop, by simp [hvs], by simp [isProposal, doneOf, hprop]⟩, ?_,
      Or.inr ⟨doneOf awt, by simp [hcycle], hgranted⟩⟩
    intro a ha hnode
    simp only [hcycle, List.map_cons, List.map_nil, List.mem_cons, List.not_mem_nil, or_false] at ha
    rcases ha with rfl | rfl | rfl | rfl
    · exact absurd (hprep.symm.trans hnode) (by decide)
    · exact hgranted
    · exact absurd (hmrk.symm.trans hnode) (by decide)
    · exact absurd (hcls.symm.trans hnode) (by decide)

/-- The life in which an action is attempted. -/
theorem life_of_attempt (hways : Recovers ways)
    (run : Trace (lives rt others ways) (begun runId initialState world)
      (later ++ l :: past) d) (h : Attempts action l) :
    ∃ (b : Durable) (initialState : AgentState) (world : ToolContext) (vs : List Visit)
      (w : ToolContext) (older : List Done), Life rt ways past b initialState world vs w older ∧
        b.next = some .execute ∧ b.state.proposedAction = some (.str action) := by
  obtain ⟨_, hrun, _⟩ := run.split
  cases hrun with
  | snoc hrun hs =>
    obtain ⟨hhand, _, _, _, _, _, hlife⟩ := run_life hways hrun
    obtain ⟨_, _, hs⟩ := hs
    obtain ⟨hnext, haction⟩ := attempts_next h hhand hs
    exact ⟨_, _, _, _, _, _, hlife, hnext, haction⟩

/-- However often a run is killed, rerun or started again, and whatever its earlier lives have
left in its channels: no side effect and no recorded outcome gets past the gate. -/
theorem gated_through_restarts (hways : Recovers ways)
    (run : Trace (lives rt others ways) (begun runId initialState world)
      (later ++ l :: past) d) (h : Attempts action l) : GatedIn (completed past) action := by
  obtain ⟨b, _, _, _, _, older, hlife, hnext, haction⟩ := life_of_attempt hways run h
  have hwalk := hlife.walk
  rw [hnext] at hwalk
  rw [hlife.completed_eq]
  exact gated_walk hwalk haction older

end Gate

/-! ### The floor -/

/-- The observations at hand show a service without a second replica that has been restarted. -/
def Floored (service : String) (s : AgentState) : Prop :=
  ∀ obs o, s.observations = some obs → obs.services.get? service = some o →
    o.metrics.replicas < minRedundantReplicas ∧ 1 ≤ o.metrics.restartCount

section Floor

variable {rt : Runtime} {others : ToolContext → ToolContext → Prop}
variable {ways : (Config → Config) → Prop}
variable {runId action tool service : String} {initialState s : AgentState}
variable {world w : ToolContext} {vs older : List Visit} {k : Visit} {next : Option Node}
variable {past later : List Label} {d : Durable} {l : Label}

/-- What every sweep of a walk shows, the state at its end shows. -/
theorem floored_walk (walk : Walk rt others initialState world vs s next w) (hne : vs ≠ [])
    (hshown : ∀ u ∈ vs, u.node = .diagnose ∨ u.node = .revalidate → Floored service u.after) :
    Floored service s := by
  induction walk with
  | start => exact absurd rfl hne
  | @visit past s w v next walk hbefore _ hled ih =>
    by_cases hsweep : v.node = .diagnose ∨ v.node = .revalidate
    · exact hshown v List.mem_cons_self hsweep
    · obtain ⟨hdiagnose, hrevalidate⟩ := not_or.mp hsweep
      have hpast : past ≠ [] := by
        rintro rfl
        generalize hn : some v.node = n at walk
        cases walk
        exact hdiagnose (Option.some.inj hn)
      intro obs o hobs ho
      rw [(led_kept hled).observations hdiagnose hrevalidate, hbefore] at hobs
      exact ih hpast (fun u hu => hshown u (List.mem_cons_of_mem v hu)) obs o hobs ho

/-- The policy never lets an action on such a service be low. -/
theorem not_low_floored (walk : Walk rt others initialState world (k :: older) s next w)
    (hk : k.node = .classifyRisk) (haction : k.before.proposedAction = some (.str action))
    (hsplit : splitColon action = .ok (tool, service)) (hdelete : tool ≠ "delete_records")
    (hfloored : Floored service k.before) : k.after.riskTierFinal ≠ some (.str "low") := by
  obtain ⟨_, _, hled, u, hwalk, _⟩ := walk_cons walk
  rw [hk] at hwalk
  obtain ⟨obs, action', hobs, haction', hvalid⟩ := valid_at_classification hwalk
  rw [haction] at haction'
  cases haction'
  obtain ⟨tool', target, hsplit', _, _, hservice⟩ := validateProposal_none hvalid
  rw [hsplit] at hsplit'
  cases hsplit'
  obtain ⟨o, ho, _⟩ := hservice hdelete
  obtain ⟨hsole, hrestarted⟩ := hfloored obs o hobs ho
  obtain ⟨_, action', tool', target', obs', situational, applied, haction', hsplit', hobs', hsit,
    hafter⟩ := led_classifyRisk hled hk
  rw [haction] at haction'
  cases haction'
  rw [hsplit] at hsplit'
  cases hsplit'
  rw [hobs] at hobs'
  cases hobs'
  rw [situation_of_service hsplit hdelete ho] at hsit
  cases hsit
  have hredundant : (situationOf o).hasRedundantReplica = false :=
    decide_eq_false (not_le.mpr hsole)
  intro hlow
  rw [hafter] at hlow
  obtain ⟨_, _, hcount⟩ := (applyPolicy_low_iff hredundant).mp (by simpa using hlow)
  exact absurd hrestarted (not_le.mpr hcount)

/-- Started again after a restart of a service that has no second replica, a run executes
nothing on the service before a reviewer grants it in this life, however it came to propose it:
as long as the sweeps show the service as the restart has left it. -/
theorem restarted_service_regated (hrestarts : Restarts ways)
    (run : Trace (lives rt others ways) (begun runId initialState world)
      (later ++ l :: past) d) (h : Attempts action l)
    (hsplit : splitColon action = .ok (tool, service)) (hdelete : tool ≠ "delete_records")
    (hshown : ∀ u ∈ completed (since isKill past), u.node = .diagnose ∨ u.node = .revalidate →
      Floored service u.after) :
    ∃ a ∈ cycleOf (completed (since isKill past)), GrantedBy action a := by
  obtain ⟨b, _, _, vs, _, _, hlife, hnext, haction⟩ :=
    life_of_attempt (fun recover hway => Or.inr (hrestarts recover hway)) run h
  have hwalk := hlife.walk
  rw [hnext] at hwalk
  rw [hlife.own hrestarts] at hshown ⊢
  obtain ⟨_, _, ⟨k, hk, hclassify, hproposed, hlow, _⟩ | hgranted⟩ := gated_walk hwalk haction []
  · rw [List.append_nil] at hk
    obtain ⟨v, hv, rfl⟩ := List.mem_map.mp (mem_of_mem_since hk)
    obtain ⟨newer, rest, rfl⟩ := List.mem_iff_append.mp hv
    obtain ⟨_, _, _, hwalk'⟩ := walk_split hwalk
    obtain ⟨_, _, _, u, hbefore, _⟩ := walk_cons hwalk'
    have hne : rest ≠ [] := by
      rintro rfl
      rw [show v.node = .classifyRisk from hclassify] at hbefore
      cases hbefore
    have hfloored : Floored service v.before := floored_walk hbefore hne fun u hu hsweep =>
      hshown (doneOf u) (List.mem_map_of_mem (by simp [hu])) hsweep
    exact absurd hlow (not_low_floored hwalk' hclassify hproposed hsplit hdelete hfloored)
  · rwa [List.append_nil] at hgranted

end Floor

/-! ### One budget for all lives -/

def doneAt (node : Node) (vs : List Done) : ℕ := vs.countP fun v => decide (v.node = node)

theorem doneAt_cons (node : Node) (v : Done) (vs : List Done) :
    doneAt node (v :: vs) = doneAt node vs + if v.node = node then 1 else 0 := by
  simp [doneAt, List.countP_cons]

/-- A proposal is still to come without another replanning. -/
def dueProposal : Option Node → ℕ
  | some .diagnose | some .proposeAction => 1
  | _ => 0

/-- So is an execution of what has been proposed. -/
def dueExecution : Option Node → ℕ
  | some .classifyRisk | some .markAwaitingApproval | some .awaitApproval | some .revalidate
  | some .prepareExecution | some .execute => 1
  | _ => 0

/-- Unless the execution at hand has performed its action already. -/
def dueEffect (d : Durable) : ℕ :=
  match d.phase with
  | .idle => dueExecution d.next
  | _ => if d.next = some .execute then 0 else dueExecution d.next

def isPerformed : Label → Bool
  | .performed _ _ => true
  | _ => false

theorem dueEffect_idle {d : Durable} (h : d.phase = .idle) :
    dueEffect d = dueExecution d.next := by
  rw [dueEffect, h]

theorem dueEffect_other {d : Durable} (hnext : d.next ≠ some .execute) :
    dueEffect d = dueExecution d.next := by
  unfold dueEffect
  split
  · rfl
  · exact if_neg hnext

theorem dueEffect_le (d : Durable) : dueEffect d ≤ dueExecution d.next := by
  by_cases hnext : d.next = some .execute
  · unfold dueEffect
    split
    · exact le_refl _
    · rw [if_pos hnext]
      exact Nat.zero_le _
  · exact (dueEffect_other hnext).le

/-- `start_workflow` is not called with a counter of replannings. -/
def Uncounted (ways : (Config → Config) → Prop) : Prop :=
  ∀ recover, ways recover → recover = rerun ∨
    ∃ runId initialState, initialState.replanCycles = none ∧
      recover = startAgain runId initialState

/-- Three replannings pay for three proposals, and every start for one more. Each proposal pays
for one execution, and every rerun for performing one once more. -/
structure Budgeted (reruns starts : ℕ) (past : List Label) (d : Durable) : Prop where
  kills : past.countP isKill = reruns + starts
  cycles : d.state.replanCycles.getD (.int 0) = .int (doneAt .replan (completed past))
  proposals : doneAt .proposeAction (completed past) + dueProposal d.next ≤
    starts + 1 + min (doneAt .replan (completed past)) 2
  executions : doneAt .execute (completed past) + dueExecution d.next ≤
    doneAt .proposeAction (completed past)
  effects : past.countP isPerformed + dueEffect d ≤
    doneAt .proposeAction (completed past) + reruns

section Budget

variable {rt : Runtime} {others : ToolContext → ToolContext → Prop} {recover : Config → Config}
variable {ways : (Config → Config) → Prop} {runId : String} {initialState : AgentState}
variable {world : ToolContext} {past : List Label} {d d' : Durable} {l : Label} {v : Visit}
variable {next : Option Node} {n reruns starts : ℕ}

theorem cycles_visit (hled : v.Led rt next)
    (h : v.before.replanCycles.getD (.int 0) = .int n) :
    v.after.replanCycles.getD (.int 0) = .int (n + if v.node = .replan then 1 else 0 : ℕ) := by
  by_cases hnode : v.node = .replan
  · obtain ⟨_, cycles, hcycles, hafter⟩ := led_replan hled hnode
    rw [h] at hcycles
    cases hcycles
    rw [hafter, if_pos hnode]
    simp
  · rw [(led_marksKept hled).replanCycles hnode, h, if_neg hnode]
    simp

/-- A visit to `replan` leads to another proposal twice at most. -/
theorem proposal_due (hled : v.Led rt next)
    (h : v.before.replanCycles.getD (.int 0) = .int n) :
    (if v.node = .proposeAction then 1 else 0) + dueProposal next + min n 2 ≤
      dueProposal (some v.node) + min (n + if v.node = .replan then 1 else 0) 2 := by
  have hcycles := cycles_visit hled h
  have hedge := led_edge hled
  generalize hnode : v.node = node at hedge hcycles ⊢
  cases hedge with
  | replanned hc hless =>
    rw [hc] at hcycles
    cases hcycles
    have hbound := of_decide_eq_false (Except.ok.inj hless)
    simp only [maxReplanCycles, if_true] at hbound
    simp only [dueProposal, reduceCtorEq, if_false, if_true]
    omega
  | _ => simp [dueProposal]

theorem execution_due (hled : v.Led rt next) :
    (if v.node = .execute then 1 else 0) + dueExecution next ≤
      dueExecution (some v.node) + if v.node = .proposeAction then 1 else 0 := by
  have hedge := led_edge hled
  generalize v.node = node at hedge ⊢
  cases hedge <;> simp [dueExecution]

/-- A step that neither completes a visit nor kills, and performs what was due. -/
theorem budgeted_keeps (h : Budgeted reruns starts past d) (hl : isCheckpoint l = false)
    (hkill : isKill l = false) (hstate : d'.state = d.state) (hnext : d'.next = d.next)
    (heffects : (l :: past).countP isPerformed + dueEffect d' ≤
      past.countP isPerformed + dueEffect d) : Budgeted reruns starts (l :: past) d' := by
  constructor
  · rw [List.countP_cons, hkill]
    exact h.kills
  · rw [completed_step hl, hstate]
    exact h.cycles
  · rw [completed_step hl, hnext]
    exact h.proposals
  · rw [completed_step hl, hnext]
    exact h.executions
  · rw [completed_step hl]
    exact heffects.trans h.effects

theorem budgeted_checkpoint {node : Node} {update : Update} (h : Budgeted reruns starts past d)
    (hhand : AtHand rt past d) (hnext : d.next = some node) (hphase : d.phase = .recorded update)
    (hroute : nextNode rt node (d.state.merge update) = .ok next) :
    Budgeted reruns starts (.checkpointed (d.state.merge update) :: past)
      { d with state := d.state.merge update, next := next, phase := .idle } := by
  obtain ⟨v, hled, hnode, hbefore, hafter, hcompleted⟩ :=
    led_of_checkpoint hhand hnext hphase hroute
  obtain ⟨hkills, hcycles, hproposals, hexecutions, heffects⟩ := h
  rw [← hbefore] at hcycles
  rw [hnext, ← hnode] at hproposals hexecutions
  have hcounted := cycles_visit hled hcycles
  have hproposal := proposal_due hled hcycles
  have hexecution := execution_due hled
  rw [hafter] at hcounted
  constructor
  · rw [List.countP_cons]
    exact hkills
  · rw [hcompleted, doneAt_cons]
    exact hcounted
  · rw [hcompleted, doneAt_cons, doneAt_cons]
    show doneAt .proposeAction (completed past) + (if v.node = .proposeAction then 1 else 0) +
      dueProposal next ≤ starts + 1 +
        min (doneAt .replan (completed past) + if v.node = .replan then 1 else 0) 2
    omega
  · rw [hcompleted, doneAt_cons, doneAt_cons]
    show doneAt .execute (completed past) + (if v.node = .execute then 1 else 0) +
      dueExecution next ≤ doneAt .proposeAction (completed past) +
        if v.node = .proposeAction then 1 else 0
    omega
  · rw [hcompleted, doneAt_cons, dueEffect_idle rfl, List.countP_cons]
    show past.countP isPerformed + 0 + dueExecution next ≤ doneAt .proposeAction (completed past) +
      (if v.node = .proposeAction then 1 else 0) + reruns
    by_cases hexecute : v.node = .execute
    · -- what is executed is not due any more
      have hone : dueExecution (some v.node) = 1 := by rw [hexecute]; rfl
      have hnone : dueExecution next = 0 := by
        rw [hone, hexecute] at hexecution
        simpa using hexecution
      rw [hnone, hexecute]
      simp only [reduceCtorEq, if_false]
      omega
    · rw [if_neg hexecute] at hexecution
      rw [dueEffect_other (by rw [hnext, ← hnode]; simpa using hexecute), hnext, ← hnode]
        at heffects
      omega

theorem budgeted_kill (hways : Uncounted ways) (hway : ways recover)
    (h : Budgeted reruns starts past d) :
    ∃ reruns starts, Budgeted reruns starts (.killed d.phase :: past)
      { toConfig := recover d.toConfig } := by
  obtain ⟨hkills, hcycles, hproposals, hexecutions, heffects⟩ := h
  have hkilled : (Label.killed d.phase :: past).countP isKill = past.countP isKill + 1 := by
    rw [List.countP_cons]
    rfl
  have hperformed : (Label.killed d.phase :: past).countP isPerformed =
      past.countP isPerformed := by
    rw [List.countP_cons]
    rfl
  have hdue := dueEffect_le d
  rcases hways recover hway with rfl | ⟨runId, preset, hpreset, rfl⟩
  · refine ⟨reruns + 1, starts, by omega, ?_, ?_, ?_, ?_⟩
    · rw [completed_step rfl]
      exact hcycles
    · rw [completed_step rfl]
      exact hproposals
    · rw [completed_step rfl]
      exact hexecutions
    · rw [completed_step rfl, hperformed, dueEffect_idle rfl]
      show past.countP isPerformed + dueExecution d.next ≤ _
      by_cases hexecute : d.next = some .execute
      · rw [hexecute]
        show past.countP isPerformed + 1 ≤ _
        omega
      · rw [dueEffect_other hexecute] at heffects
        omega
  · refine ⟨reruns, starts + 1, by omega, ?_, ?_, ?_, ?_⟩
    · have hkept : (startAgain runId preset d.toConfig).state.replanCycles =
          d.state.replanCycles := by
        simp only [startAgain, Service.overlay, startWorkflow, hpreset]
        rfl
      rw [completed_step rfl, hkept]
      exact hcycles
    · rw [completed_step rfl]
      show doneAt .proposeAction (completed past) + 1 ≤ _
      omega
    · rw [completed_step rfl]
      show doneAt .execute (completed past) + 0 ≤ _
      omega
    · rw [completed_step rfl, hperformed, dueEffect_idle rfl]
      show past.countP isPerformed + 0 ≤ _
      omega

theorem budgeted_step (hways : Uncounted ways) (h : Budgeted reruns starts past d)
    (hhand : AtHand rt past d) (hway : ways recover) (hs : Step rt others recover d l d') :
    ∃ reruns starts, Budgeted reruns starts (l :: past) d' := by
  cases hs with
  | performed hnext hidle =>
    refine ⟨reruns, starts, budgeted_keeps h rfl rfl rfl rfl ?_⟩
    simp [dueEffect, dueExecution, hnext, hidle, List.countP_cons, isPerformed]
  | entered hphase =>
    have hnext := (hhand.of_performed hphase).1
    refine ⟨reruns, starts, budgeted_keeps h rfl rfl rfl rfl ?_⟩
    simp [dueEffect, hnext, hphase, isPerformed]
  | acted hnext hidle =>
    refine ⟨reruns, starts, budgeted_keeps h rfl rfl rfl rfl ?_⟩
    rw [dueEffect_idle hidle, List.countP_cons]
    exact Nat.add_le_add_left (dueEffect_le _) _
  | recorded hnext hphase =>
    refine ⟨reruns, starts, budgeted_keeps h rfl rfl rfl rfl ?_⟩
    simp [dueEffect, hphase, isPerformed]
  | others _ =>
    refine ⟨reruns, starts, budgeted_keeps h rfl rfl rfl rfl ?_⟩
    rw [List.countP_cons]
    exact le_refl _
  | checkpointed hnext hphase hroute =>
    exact ⟨reruns, starts, budgeted_checkpoint h hhand hnext hphase hroute⟩
  | killed => exact budgeted_kill hways hway h

/-- A start does not refill the budget of replannings: a run that is killed `k` times completes
at most `3 + k` proposals and at most `3 + k` executions in all its lives together, and performs
at most `3 + k` actions, those included whose visit was killed before its checkpoint. -/
theorem lives_share_budget (hways : Uncounted ways)
    (hinitial : initialState.replanCycles = none)
    (run : Trace (lives rt others ways) (begun runId initialState world) past d) :
    doneAt .proposeAction (completed past) ≤ 3 + past.countP isKill ∧
      doneAt .execute (completed past) ≤ 3 + past.countP isKill ∧
      past.countP isPerformed ≤ 3 + past.countP isKill := by
  have hbudgeted : AtHand rt past d ∧ ∃ reruns starts, Budgeted reruns starts past d := by
    induction run with
    | start =>
      exact ⟨.idle rfl, 0, 0, rfl, by simp [begun, startWorkflow, hinitial, completed, doneAt],
        by simp [begun, startWorkflow, completed, doneAt, dueProposal],
        by simp [begun, startWorkflow, completed, doneAt, dueExecution],
        by simp [begun, startWorkflow, completed, doneAt, dueExecution, dueEffect]⟩
    | snoc _ hs ih =>
      obtain ⟨hhand, _, _, hbudgeted⟩ := ih
      obtain ⟨_, hway, hs⟩ := hs
      exact ⟨atHand_step hhand hs, budgeted_step hways hbudgeted hhand hway hs⟩
  obtain ⟨_, reruns, starts, hkills, _, hproposals, hexecutions, heffects⟩ := hbudgeted
  omega

end Budget

/-! ### A restart that is proposed in two lives -/

def restartA : Answers where
  proposal := ⟨"restart_service", "service_a", some (.obj []), ""⟩
  classification := { tier := "low" }
  decision := .obj [("decision", .str "approved")]

/-- The first life restarts the service on a low tier, and is killed before its checkpoint. The
second one has to ask. -/
def twoLives : List Move :=
  (List.replicate 4 (whole restartA)).flatten ++
    [.perform restartA, .act restartA, .kill] ++
    (List.replicate 7 (whole restartA)).flatten ++ [.act restartA]

def attempts (action : String) : Label → Bool
  | .acted node before _ =>
    decide (node = .execute) && before.proposedAction.any (·.isStr action)
  | _ => false

theorem attempts_spec {action : String} {l : Label} (h : attempts action l = true) :
    Attempts action l := by
  cases l with
  | acted node before update =>
    simp only [attempts, Bool.and_eq_true, decide_eq_true_eq] at h
    exact ⟨h.1, Json.any_isStr_iff.mp h.2⟩
  | _ => cases h

def showsFloored (service : String) (s : AgentState) : Bool :=
  s.observations.all fun obs => (obs.services.get? service).all fun o =>
    decide (o.metrics.replicas < minRedundantReplicas) && decide (1 ≤ o.metrics.restartCount)

theorem floored_of_shows {service : String} {s : AgentState} (h : showsFloored service s = true) :
    Floored service s := by
  intro obs o hobs ho
  simpa [showsFloored, hobs, ho] using h

/-- The run is started again after every kill. -/
def startedAgain (recover : Config → Config) : Prop := recover = startAgain "run-1" {}

/-- The second execution of the two lives. -/
theorem two_lives : ∃ (l : Label) (past : List Label) (d : Durable),
    Trace (lives { digest := id } (fun _ _ => False) startedAgain)
      (begun "run-1" {} (freshSandbox [])) ([] ++ l :: past) d ∧
    Attempts "restart_service:service_a" l ∧ past.countP isKill = 1 ∧
    past.countP isPerformed = 1 ∧
    ∀ u ∈ completed (since isKill past), Floored "service_a" u.after := by
  obtain ⟨labels, d, hplay, hcheck⟩ := played_spec
    (p := fun labels _ => labels.head?.any (attempts "restart_service:service_a") &&
      decide (labels.tail.countP isKill = 1) && decide (labels.tail.countP isPerformed = 1) &&
      (completed (since isKill labels.tail)).all fun u => showsFloored "service_a" u.after)
    (show played (play { digest := id } (startAgain "run-1" {}) twoLives []
      (begun "run-1" {} (freshSandbox []))) _ = true by decide +kernel)
  simp only [Bool.and_eq_true, decide_eq_true_eq] at hcheck
  obtain ⟨⟨⟨hlast, hkills⟩, hperformed⟩, hshown⟩ := hcheck
  cases labels with
  | nil => cases hlast
  | cons l past =>
    exact ⟨l, past, d, lives_of_durable rfl (play_trace .start hplay),
      attempts_spec (by simpa using hlast), hkills, hperformed,
      fun u hu => floored_of_shows (List.all_eq_true.mp hshown u hu)⟩

theorem restarts_startedAgain : Restarts startedAgain := by
  rintro _ rfl
  exact ⟨"run-1", {}, rfl⟩

theorem two_lives_gated : ∃ past : List Label, past.countP isKill = 1 ∧
    GatedIn (completed past) "restart_service:service_a" := by
  obtain ⟨l, past, d, run, hattempts, hkills, _⟩ := two_lives
  exact ⟨past, hkills, gated_through_restarts
    (fun recover hway => Or.inr (restarts_startedAgain recover hway)) run hattempts⟩

theorem second_life_asks : ∃ past : List Label, past.countP isKill = 1 ∧
    ∃ a ∈ cycleOf (completed (since isKill past)), GrantedBy "restart_service:service_a" a := by
  obtain ⟨l, past, d, run, hattempts, hkills, _, hshown⟩ := two_lives
  have hsplit : splitColon "restart_service:service_a" = .ok ("restart_service", "service_a") := rfl
  exact ⟨past, hkills, restarted_service_regated restarts_startedAgain run hattempts hsplit
    (by decide) fun u hu _ => hshown u hu⟩

theorem two_lives_budget : ∃ past : List Label,
    past.countP isKill = 1 ∧ past.countP isPerformed = 1 ∧
    doneAt .proposeAction (completed past) ≤ 3 + past.countP isKill ∧
    doneAt .execute (completed past) ≤ 3 + past.countP isKill ∧
    past.countP isPerformed ≤ 3 + past.countP isKill := by
  obtain ⟨l, past, d, run, _, hkills, hperformed, _⟩ := two_lives
  have huncounted : Uncounted startedAgain := by
    rintro _ rfl
    exact Or.inr ⟨"run-1", {}, rfl, rfl⟩
  cases run with
  | snoc run _ => exact ⟨past, hkills, hperformed, lives_share_budget huncounted rfl run⟩

end RestartedLives
