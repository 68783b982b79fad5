import Interlock.ReplayedCompensations
import Interlock.Dispatching
import Interlock.DurableRuns

/-!
# Killed runs

A run that is killed and rerun from its checkpoints does what a run does that nobody kills.
An execution counts from the moment its outcome is in the ledger, and a compensation from its
first application: later attempts get the same answers and leave the sandbox as it is.
-/

namespace KilledRuns

open Dictionary PythonValues Tools Execution RunState Nodes Graph Transitions Walks
open Dispatching DurableRuns

/-! ### States up to the answer of a compensation -/

/-- A rerun compensation may be answered differently, and no node reads its answer. -/
def Same (s t : AgentState) : Prop := ∃ r, t = { s with rollbackResult := r }

section Same

variable {s t : AgentState}

theorem Same.refl (s : AgentState) : Same s s := ⟨s.rollbackResult, rfl⟩

theorem Same.trans {u : AgentState} (h : Same s t) (h' : Same t u) : Same s u := by
  obtain ⟨r, rfl⟩ := h
  obtain ⟨r', rfl⟩ := h'
  exact ⟨r', rfl⟩

theorem Same.write (h : Same s t) (w : Write) : Same (s.write w) (t.write w) := by
  obtain ⟨r, rfl⟩ := h
  cases w with
  | rollbackResult result => exact ⟨some result, rfl⟩
  | _ => exact ⟨r, rfl⟩

theorem Same.merge (h : Same s t) (update : Update) : Same (s.merge update) (t.merge update) := by
  induction update generalizing s t with
  | nil => exact h
  | cons w rest ih => exact ih (h.write w)

theorem nodeFn_same (h : Same s t) (rt : Runtime) (answers : Answers) (node : Node) :
    nodeFn rt answers node t = nodeFn rt answers node s := by
  obtain ⟨r, rfl⟩ := h
  cases node <;> rfl

theorem nextNode_same (h : Same s t) (rt : Runtime) (node : Node) :
    nextNode rt node t = nextNode rt node s := by
  obtain ⟨r, rfl⟩ := h
  cases node <;> rfl

theorem auditable_same (h : Same s t) (haudit : Auditable t) : Auditable s := by
  obtain ⟨r, rfl⟩ := h
  exact ⟨haudit.runId, haudit.status, haudit.proposedAction, haudit.riskTier, haudit.idempotencyKey⟩

/-- The audit accepts the updates of both states, whatever the clock. -/
theorem audited_same {update update' : Update} {clock : String} {node : Node}
    {record : AuditRecord} (h : Same s t) (hmerge : Same (s.merge update) (t.merge update'))
    (happrover : writtenApprover update = writtenApprover update')
    (hdecision : writtenDecision update = writtenDecision update')
    (hrecord : auditRecord clock node t update' = .ok record) (clock' : String) :
    ∃ record', auditRecord clock' node s update = .ok record' := by
  obtain ⟨hauditable, hstatus, hwritten, hdecided⟩ :=
    (auditRecord_ok_iff clock node).mp ⟨_, hrecord⟩
  refine (auditRecord_ok_iff clock' node).mpr ⟨auditable_same hmerge hauditable, ?_, ?_, ?_⟩
  · obtain ⟨r, rfl⟩ := h
    exact hstatus
  · rw [happrover]
    exact hwritten
  · rw [hdecision]
    exact hdecided

end Same

/-! ### Performed actions -/

/-- The execution finds nothing in the ledger, and performs its action. -/
def performs (node : Node) (s : AgentState) (w : ToolContext) : Bool :=
  decide (node = .execute) && match s.idempotencyKey with
    | some (.str key) => (w.store.get? key).isNone
    | _ => false

def actionsOf (events : List Event) : List (Option Json) :=
  ((visits events).filter fun v => performs v.node v.before v.worldBefore).map
    (·.before.proposedAction)

def actionsIn (past : List Label) : List (Option Json) :=
  past.filterMap fun
    | .performed action _ => some (some (.str action))
    | _ => none

theorem performs_same {s t : AgentState} (h : Same s t) (node : Node) (w : ToolContext) :
    performs node t w = performs node s w := by
  obtain ⟨r, rfl⟩ := h
  rfl

theorem not_performs {node : Node} (h : node ≠ .execute) (s : AgentState) (w : ToolContext) :
    performs node s w = false := by
  simp [performs, h]

theorem performs_of_free {s : AgentState} {w : ToolContext} {key : String}
    (hkey : s.idempotencyKey = some (.str key)) (hfree : w.store.get? key = none) :
    performs .execute s w = true := by
  simp [performs, hkey, hfree]

theorem not_performs_of_entry {s : AgentState} {w : ToolContext} {key : String} {e : LedgerEntry}
    (hkey : s.idempotencyKey = some (.str key)) (hentry : w.store.get? key = some e) :
    performs .execute s w = false := by
  simp [performs, hkey, hentry]

/-! ### Points of runs that nobody kills -/

/-- Some run without kills has performed these actions and is at this point. -/
def Reached (rt : Runtime) (others : ToolContext → ToolContext → Prop) (a : Config)
    (actions : List (Option Json)) (s : AgentState) (next : Option Node) (w : ToolContext) : Prop :=
  ∃ events c, Trace (system rt others) a events c ∧ actionsOf events = actions ∧
    Same c.state s ∧ c.next = next ∧ c.world = w

/-- If the audit accepts the update, some run without kills is past the visit. -/
def Ahead (rt : Runtime) (others : ToolContext → ToolContext → Prop) (a : Config)
    (actions : List (Option Json)) (d : Durable) (node : Node) (update : Update) : Prop :=
  ∀ clock record next, auditRecord clock node d.state update = .ok record →
    nextNode rt node (d.state.merge update) = .ok next →
      Reached rt others a actions (d.state.merge update) next d.world

section Points

variable {rt : Runtime} {others : ToolContext → ToolContext → Prop} {a : Config}
variable {actions : List (Option Json)} {s : AgentState} {node : Node} {next : Option Node}
variable {w w' : ToolContext} {update : Update} {answers : Answers}

theorem reached_others (h : Reached rt others a actions s next w) (ho : others w w') :
    Reached rt others a actions s next w' := by
  obtain ⟨events, c, run, hactions, hsame, hnext, rfl⟩ := h
  exact ⟨_, _, .snoc run (.others ho), hactions, hsame, hnext, rfl⟩

/-- A visit to the node at hand leads on. -/
theorem reached_visit {clock : String} {record : AuditRecord}
    (h : Reached rt others a actions s (some node) w)
    (hnode : (nodeFn rt answers node s).run w = (.ok update, w'))
    (hrecord : auditRecord clock node s update = .ok record)
    (hroute : nextNode rt node (s.merge update) = .ok next) :
    Reached rt others a ((if performs node s w = true then [s.proposedAction] else []) ++ actions)
      (s.merge update) next w' := by
  obtain ⟨events, c, run, hactions, hsame, hnext, rfl⟩ := h
  rw [nodeFn_same hsame] at hnode
  rw [nextNode_same (hsame.merge update)] at hroute
  obtain ⟨c', hstep, hstate, hnext', hworld⟩ := step_exists hnext hnode
    (audited_same hsame (hsame.merge update) rfl rfl hrecord answers.clock) hroute
  refine ⟨_, c', .snoc run (.visit hnext hstep), ?_, hstate ▸ hsame.merge update, hnext', hworld⟩
  have hproposed : c.state.proposedAction = s.proposedAction := by
    obtain ⟨r, rfl⟩ := hsame
    rfl
  rw [performs_same hsame, ← hactions]
  simp only [actionsOf, visits, List.filterMap_cons, List.filter_cons]
  split <;> simp [hproposed]

variable {d d' : Durable}

theorem ahead_of_visit (d' : Durable) (h : Reached rt others a actions d.state (some node) w)
    (hnode : (nodeFn rt answers node d.state).run w = (.ok update, d'.world))
    (hstate : d'.state = d.state) :
    Ahead rt others a
      ((if performs node d.state w = true then [d.state.proposedAction] else []) ++ actions) d'
      node update := by
  intro clock record next hrecord hroute
  rw [hstate] at hrecord hroute ⊢
  exact reached_visit h hnode hrecord hroute

theorem ahead_same (h : Ahead rt others a actions d node update) (hstate : d'.state = d.state)
    (hworld : d'.world = d.world) : Ahead rt others a actions d' node update := by
  intro clock record next hrecord hroute
  rw [hstate] at hrecord hroute ⊢
  rw [hworld]
  exact h clock record next hrecord hroute

theorem ahead_others (h : Ahead rt others a actions d node update) (ho : others d.world w) :
    Ahead rt others a actions { d with world := w } node update :=
  fun clock record next hrecord hroute => reached_others (h clock record next hrecord hroute) ho

end Points

/-! ### Attempts at a visit -/

def isCheckpoint : Label → Bool
  | .checkpointed _ => true
  | _ => false

/-- The node has acted since the latest checkpoint. -/
def Acted (node : Node) (past : List Label) : Prop :=
  ∃ before update, Label.acted node before update ∈ since isCheckpoint past

/-- No kill falls between a side effect and its ledger entry, and nobody else acts there or
between the attempts at one compensation. -/
def Sheltered (past : List Label) : Label → Prop
  | .killed lost => ∀ answers call key outcome, lost ≠ .performed answers call key outcome
  | .others => (∀ action outcome older, past ≠ .performed action outcome :: older) ∧
      ¬ Acted .rollingBack past
  | _ => True

/-- Others may add to the ledger, but take nothing out of it. -/
def KeepsLedger (others : ToolContext → ToolContext → Prop) : Prop :=
  ∀ w w', others w w' → ∀ key e, w.store.get? key = some e → w'.store.get? key = some e

/-- Where a durable run is, next to runs that nobody kills. -/
inductive Stage (rt : Runtime) (others : ToolContext → ToolContext → Prop) (a : Config)
    (past : List Label) (d : Durable) : Prop where
  | level (hidle : d.phase = .idle)
      (h : Reached rt others a (actionsIn past) d.state d.next d.world)
  | performed {answers : Answers} {call : ToolCall} {key action : String} {outcome : Outcome}
      {older : List Label} {w : ToolContext}
      (hphase : d.phase = .performed answers call key outcome)
      (hpast : past = .performed action outcome :: older) (hnext : d.next = some .execute)
      (haction : d.state.proposedAction = some (.str action))
      (hkey : d.state.idempotencyKey = some (.str key))
      (hcall : dispatch action (parametersOf d.state) = .ok call)
      (hfree : w.store.get? key = none) (hperform : call.perform.run w = (.ok outcome, d.world))
      (h : Reached rt others a (actionsIn older) d.state (some .execute) w)
  | watched {node : Node} {update : Update} (hupdate : updateAtHand d.phase = some update)
      (hnext : d.next = some node) (hexecute : node ≠ .execute) (hrolling : node ≠ .rollingBack)
      (h : Reached rt others a (actionsIn past) d.state d.next d.world)
      (hahead : Ahead rt others a (actionsIn past) d node update)
  | executed {key : String} {e : LedgerEntry}
      (hphase : d.phase = .idle ∨ updateAtHand d.phase = some (executed ⟨e.result, e.compensation⟩))
      (hnext : d.next = some .execute) (hacted : Acted .execute past)
      (hkey : d.state.idempotencyKey = some (.str key)) (hentry : d.world.store.get? key = some e)
      (hahead : Ahead rt others a (actionsIn past) d .execute (executed ⟨e.result, e.compensation⟩))
  | compensated {result : RollbackResult}
      (hphase : d.phase = .idle ∨ ∃ r,
        updateAtHand d.phase = some [.status .rollingBack, .rollbackResult r])
      (hnext : d.next = some .rollingBack) (hacted : Acted .rollingBack past)
      (hagain : ((rollingBack d.state).run d.world).2 = d.world)
      (hahead : Ahead rt others a (actionsIn past) d .rollingBack
        [.status .rollingBack, .rollbackResult result])

/-- What has been recorded passed the audit. -/
def Recorded (d : Durable) : Prop :=
  ∀ node update, d.next = some node → d.phase = .recorded update →
    ∃ clock record, auditRecord clock node d.state update = .ok record

section Attempts

variable {past : List Label} {l : Label} {node : Node}

theorem Acted.cons (h : Acted node past) (hl : isCheckpoint l = false) :
    Acted node (l :: past) := by
  obtain ⟨before, update, hmem⟩ := h
  refine ⟨before, update, ?_⟩
  rw [since_cons_of_not hl]
  exact List.mem_cons_of_mem l hmem

theorem acted_now (before : AgentState) (update : Update) :
    Acted node (.acted node before update :: past) := by
  refine ⟨before, update, ?_⟩
  rw [since_cons_of_not rfl]
  exact List.mem_cons_self

variable {rt : Runtime} {answers : Answers} {s : AgentState} {update : Update}
variable {w w' : ToolContext}

/-- Only an execution and a compensation change the sandbox. -/
theorem node_still (hexecute : node ≠ .execute) (hrolling : node ≠ .rollingBack)
    (h : (nodeFn rt answers node s).run w = (.ok update, w')) : w' = w := by
  cases node with
  | execute => exact absurd rfl hexecute
  | rollingBack => exact absurd rfl hrolling
  | diagnose => exact (diagnose_ok h).1
  | revalidate => exact (revalidate_ok h).1
  | verify => exact (verify_ok h).1
  | markAwaitingApproval | rolledBack | escalate | completed =>
    cases h
    rfl
  | proposeAction | classifyRisk | awaitApproval | prepareExecution | replan =>
    simp only [nodeFn, Action.run_lift, Prod.mk.injEq] at h
    exact h.2.symm

/-- With its key in the ledger an execution returns what is recorded. -/
theorem execute_entered {key : String} {e : LedgerEntry}
    (hkey : s.idempotencyKey = some (.str key)) (hentry : w.store.get? key = some e)
    (h : (nodeFn rt answers .execute s).run w = (.ok update, w')) :
    w' = w ∧ update = executed ⟨e.result, e.compensation⟩ := by
  obtain ⟨action, key', outcome, _, hkey', hrun, rfl⟩ := execute_ok h
  rw [hkey, Option.some.injEq, Json.str.injEq] at hkey'
  subst hkey'
  obtain ⟨call, m, _, hcalled, rfl⟩ := executeAction_ok_iff.mp hrun
  rcases run_ok_cases hcalled with ⟨e', he, _, houtcome, rfl⟩ | ⟨hfree, _⟩
  · rw [hentry] at he
    cases he
    rw [houtcome]
    exact ⟨rfl, rfl⟩
  · rw [hentry] at hfree
    cases hfree

/-- A first execution, its ledger entry included. -/
theorem execute_performed (rt : Runtime) (answers : Answers) {action key : String}
    {call : ToolCall} {outcome : Outcome}
    (haction : s.proposedAction = some (.str action)) (hkey : s.idempotencyKey = some (.str key))
    (hcall : dispatch action (parametersOf s) = .ok call) (hfree : w.store.get? key = none)
    (hperform : call.perform.run w = (.ok outcome, w')) :
    (nodeFn rt answers .execute s).run w = (.ok (executed outcome),
      { w' with store := w'.store.setdefault key (call.entry outcome) }) := by
  have hrun := executeAction_miss hcall hfree hperform
  simp only [nodeFn, execute]
  refine Action.run_bind_ok_iff.mpr ⟨action, w, by rw [haction]; rfl, ?_⟩
  refine Action.run_bind_ok_iff.mpr ⟨key, w, by rw [hkey]; rfl, ?_⟩
  exact Action.run_bind_ok_iff.mpr ⟨_, _, hrun, rfl⟩

end Attempts

/-! ### One step -/

section Steps

variable {rt : Runtime} {others : ToolContext → ToolContext → Prop} {a : Config}
variable {past : List Label} {d d' : Durable} {l : Label}

theorem recorded_step (h : Recorded d) (hs : Step rt others rerun d l d') : Recorded d' := by
  cases hs with
  | recorded hnext _ hrecord =>
    intro node update hnode hphase
    rw [hnext] at hnode
    cases hnode
    cases hphase
    exact ⟨_, _, hrecord⟩
  | others _ => exact h
  | _ =>
    intro node update _ hphase
    cases hphase

/-- The next attempt at a visit begins. -/
theorem level_step (hidle : d.phase = .idle)
    (h : Reached rt others a (actionsIn past) d.state d.next d.world)
    (hs : Step rt others rerun d l d') : Stage rt others a (l :: past) d' := by
  cases hs with
  | performed hnext _ haction hkey hcall hfree hperform =>
    rw [hnext] at h
    exact .performed rfl rfl hnext haction hkey hcall hfree hperform h
  | entered hphase =>
    rw [hidle] at hphase
    cases hphase
  | @acted node answers update world hnext _ hentered hnode =>
    rw [hnext] at h
    by_cases hexecute : node = .execute
    · subst hexecute
      obtain ⟨key, e, hkey, hentry⟩ := hentered rfl
      obtain ⟨rfl, rfl⟩ := execute_entered hkey hentry hnode
      refine .executed (Or.inr rfl) hnext (acted_now _ _) hkey hentry ?_
      have hahead := ahead_of_visit { d with
        phase := .acted answers (executed ⟨e.result, e.compensation⟩) } h hnode rfl
      rwa [not_performs_of_entry hkey hentry] at hahead
    · have hahead := ahead_of_visit { d with
        world := world, phase := .acted answers update } h hnode rfl
      rw [not_performs hexecute] at hahead
      by_cases hrolling : node = .rollingBack
      · subst hrolling
        have hagain := ReplayedCompensations.rollingBack_again d.state d.world
        have hworld : ((rollingBack d.state).run d.world).2 = world := congrArg Prod.snd hnode
        obtain ⟨_, result, _, _, rfl⟩ := rollingBack_ok hnode
        rw [hworld] at hagain
        exact .compensated (Or.inr ⟨result, rfl⟩) hnext (acted_now _ _) hagain hahead
      · obtain rfl := node_still hexecute hrolling hnode
        refine .watched rfl hnext hexecute hrolling ?_ hahead
        rw [hnext]
        exact h
  | recorded _ hphase _ =>
    rw [hidle] at hphase
    cases hphase
  | checkpointed _ hphase _ =>
    rw [hidle] at hphase
    cases hphase
  | killed => exact .level rfl h
  | others ho => exact .level hidle (reached_others h ho)

/-- The outcome of a side effect goes to the ledger. -/
theorem performed_step {answers : Answers} {call : ToolCall} {key action : String}
    {outcome : Outcome} {older : List Label} {w : ToolContext}
    (hphase : d.phase = .performed answers call key outcome)
    (hpast : past = .performed action outcome :: older) (hnext : d.next = some .execute)
    (haction : d.state.proposedAction = some (.str action))
    (hkey : d.state.idempotencyKey = some (.str key))
    (hcall : dispatch action (parametersOf d.state) = .ok call)
    (hfree : w.store.get? key = none) (hperform : call.perform.run w = (.ok outcome, d.world))
    (h : Reached rt others a (actionsIn older) d.state (some .execute) w)
    (hsheltered : Sheltered past l) (hs : Step rt others rerun d l d') :
    Stage rt others a (l :: past) d' := by
  cases hs with
  | entered hphase' =>
    rw [hphase] at hphase'
    cases hphase'
    have hrun := execute_performed rt answers haction hkey hcall hfree hperform
    have hahead := ahead_of_visit { d with
      world := { d.world with store := d.world.store.setdefault key (call.entry outcome) }
      phase := .acted answers (executed outcome) } h hrun rfl
    rw [if_pos (performs_of_free hkey hfree), haction] at hahead
    subst hpast
    refine .executed (e := call.entry outcome) (Or.inr rfl) hnext (acted_now _ _) hkey ?_ hahead
    have hstore : d.world.store.get? key = none := by
      rw [perform_store hperform]
      exact hfree
    simp only [Dict.get?_setdefault, hstore, and_self, if_true]
  | killed => exact absurd hphase (hsheltered answers call key outcome)
  | others _ => exact absurd hpast (hsheltered.1 action outcome older)
  | performed _ hidle _ _ _ _ _ =>
    rw [hphase] at hidle
    cases hidle
  | acted _ hidle _ _ =>
    rw [hphase] at hidle
    cases hidle
  | recorded _ hphase' _ =>
    rw [hphase] at hphase'
    cases hphase'
  | checkpointed _ hphase' _ =>
    rw [hphase] at hphase'
    cases hphase'

/-- What can happen once a node has returned its update. -/
theorem busy_step {update : Update} (hupdate : updateAtHand d.phase = some update)
    (hs : Step rt others rerun d l d') :
    (∃ w, others d.world w ∧ l = .others ∧ d' = { d with world := w }) ∨
    (∃ record, l = .recorded record ∧ d'.state = d.state ∧ d'.next = d.next ∧
      d'.world = d.world ∧ updateAtHand d'.phase = some update) ∨
    (∃ node next, d.next = some node ∧ d.phase = .recorded update ∧
      nextNode rt node (d.state.merge update) = .ok next ∧
      l = .checkpointed (d.state.merge update) ∧
      d' = { d with state := d.state.merge update, next := next, phase := .idle }) ∨
    (l = .killed d.phase ∧ d' = { toConfig := d.toConfig }) := by
  cases hs with
  | others ho => exact Or.inl ⟨_, ho, rfl, rfl⟩
  | recorded _ hphase _ =>
    rw [hphase] at hupdate
    exact Or.inr (Or.inl ⟨_, rfl, rfl, rfl, rfl, hupdate⟩)
  | checkpointed hnext hphase hroute =>
    rw [hphase] at hupdate
    cases hupdate
    exact Or.inr (Or.inr (Or.inl ⟨_, _, hnext, hphase, hroute, rfl, rfl⟩))
  | killed => exact Or.inr (Or.inr (Or.inr ⟨rfl, rfl⟩))
  | performed _ hidle _ _ _ _ _ =>
    rw [hidle] at hupdate
    cases hupdate
  | acted _ hidle _ _ =>
    rw [hidle] at hupdate
    cases hupdate
  | entered hphase =>
    rw [hphase] at hupdate
    cases hupdate

/-- A visit that leaves the sandbox alone is level again if it is killed. -/
theorem watched_step {node : Node} {update : Update}
    (hupdate : updateAtHand d.phase = some update) (hnext : d.next = some node)
    (hexecute : node ≠ .execute) (hrolling : node ≠ .rollingBack)
    (h : Reached rt others a (actionsIn past) d.state d.next d.world)
    (hahead : Ahead rt others a (actionsIn past) d node update) (hrecorded : Recorded d)
    (hs : Step rt others rerun d l d') : Stage rt others a (l :: past) d' := by
  rcases busy_step hupdate hs with ⟨w, ho, rfl, rfl⟩ |
    ⟨record, rfl, hstate, hnext', hworld, hupdate'⟩ |
    ⟨node', next, hnode, hphase, hroute, rfl, rfl⟩ | ⟨rfl, rfl⟩
  · exact .watched hupdate hnext hexecute hrolling (reached_others h ho) (ahead_others hahead ho)
  · refine .watched hupdate' (hnext'.trans hnext) hexecute hrolling ?_
      (ahead_same hahead hstate hworld)
    rw [hstate, hnext', hworld]
    exact h
  · rw [hnext] at hnode
    cases hnode
    obtain ⟨clock, record, hrecord⟩ := hrecorded _ _ hnext hphase
    exact .level rfl (hahead clock record next hrecord hroute)
  · exact .level rfl h

/-- After the ledger entry every attempt at the execution has the same outcome. -/
theorem executed_step {key : String} {e : LedgerEntry}
    (hkeeps : KeepsLedger others)
    (hphase : d.phase = .idle ∨ updateAtHand d.phase = some (executed ⟨e.result, e.compensation⟩))
    (hnext : d.next = some .execute) (hacted : Acted .execute past)
    (hkey : d.state.idempotencyKey = some (.str key)) (hentry : d.world.store.get? key = some e)
    (hahead : Ahead rt others a (actionsIn past) d .execute (executed ⟨e.result, e.compensation⟩))
    (hrecorded : Recorded d) (hs : Step rt others rerun d l d') :
    Stage rt others a (l :: past) d' := by
  rcases hphase with hidle | hupdate
  · cases hs with
    | performed _ _ _ hkey' _ hfree _ =>
      rw [hkey, Option.some.injEq, Json.str.injEq] at hkey'
      subst hkey'
      rw [hentry] at hfree
      cases hfree
    | acted hnext' _ _ hnode =>
      rw [hnext] at hnext'
      cases hnext'
      obtain ⟨rfl, rfl⟩ := execute_entered hkey hentry hnode
      exact .executed (Or.inr rfl) hnext (acted_now _ _) hkey hentry hahead
    | killed => exact .executed (Or.inl rfl) hnext (hacted.cons rfl) hkey hentry hahead
    | others ho =>
      exact .executed (Or.inl hidle) hnext (hacted.cons rfl) hkey (hkeeps _ _ ho _ _ hentry)
        (ahead_others hahead ho)
    | entered hphase =>
      rw [hidle] at hphase
      cases hphase
    | recorded _ hphase _ =>
      rw [hidle] at hphase
      cases hphase
    | checkpointed _ hphase _ =>
      rw [hidle] at hphase
      cases hphase
  · rcases busy_step hupdate hs with ⟨w, ho, rfl, rfl⟩ |
      ⟨record, rfl, hstate, hnext', hworld, hupdate'⟩ |
      ⟨node', next, hnode, hphase, hroute, rfl, rfl⟩ | ⟨rfl, rfl⟩
    · exact .executed (Or.inr hupdate) hnext (hacted.cons rfl) hkey (hkeeps _ _ ho _ _ hentry)
        (ahead_others hahead ho)
    · exact .executed (Or.inr hupdate') (hnext'.trans hnext) (hacted.cons rfl) (hstate ▸ hkey)
        (hworld ▸ hentry) (ahead_same hahead hstate hworld)
    · rw [hnext] at hnode
      cases hnode
      obtain ⟨clock, record, hrecord⟩ := hrecorded _ _ hnext hphase
      exact .level rfl (hahead clock record next hrecord hroute)
    · exact .executed (Or.inl rfl) hnext (hacted.cons rfl) hkey hentry hahead

/-- After the first application every attempt at the compensation leaves the sandbox alone. -/
theorem compensated_step {result : RollbackResult}
    (hphase : d.phase = .idle ∨ ∃ r,
      updateAtHand d.phase = some [.status .rollingBack, .rollbackResult r])
    (hnext : d.next = some .rollingBack) (hacted : Acted .rollingBack past)
    (hagain : ((rollingBack d.state).run d.world).2 = d.world)
    (hahead : Ahead rt others a (actionsIn past) d .rollingBack
      [.status .rollingBack, .rollbackResult result])
    (hrecorded : Recorded d) (hsheltered : Sheltered past l) (hs : Step rt others rerun d l d') :
    Stage rt others a (l :: past) d' := by
  rcases hphase with hidle | ⟨r, hupdate⟩
  · cases hs with
    | acted hnext' _ _ hnode =>
      rw [hnext] at hnext'
      cases hnext'
      have hworld := congrArg Prod.snd hnode
      obtain ⟨_, r, _, _, rfl⟩ := rollingBack_ok hnode
      obtain rfl := hagain.symm.trans hworld
      exact .compensated (Or.inr ⟨r, rfl⟩) hnext (acted_now _ _) hagain hahead
    | killed => exact .compensated (Or.inl rfl) hnext (hacted.cons rfl) hagain hahead
    | others _ => exact absurd hacted hsheltered.2
    | performed hnext' _ _ _ _ _ _ =>
      rw [hnext] at hnext'
      cases hnext'
    | entered hphase =>
      rw [hidle] at hphase
      cases hphase
    | recorded _ hphase _ =>
      rw [hidle] at hphase
      cases hphase
    | checkpointed _ hphase _ =>
      rw [hidle] at hphase
      cases hphase
  · rcases busy_step hupdate hs with ⟨w, ho, rfl, rfl⟩ |
      ⟨record, rfl, hstate, hnext', hworld, hupdate'⟩ |
      ⟨node, next, hnode, hphase, hroute, rfl, rfl⟩ | ⟨rfl, rfl⟩
    · exact absurd hacted hsheltered.2
    · refine .compensated (Or.inr ⟨r, hupdate'⟩) (hnext'.trans hnext) (hacted.cons rfl) ?_
        (ahead_same hahead hstate hworld)
      rw [hstate, hworld]
      exact hagain
    · -- the run without kills got the answer of the first application
      rw [hnext] at hnode
      cases hnode
      obtain ⟨clock, record, hrecord⟩ := hrecorded _ _ hnext hphase
      have hsame : Same (d.state.merge [.status .rollingBack, .rollbackResult result])
          (d.state.merge [.status .rollingBack, .rollbackResult r]) := ⟨some r, rfl⟩
      obtain ⟨record', hrecord'⟩ := audited_same (Same.refl d.state) hsame rfl rfl hrecord clock
      obtain ⟨events, c, run, hactions, hstate, hcnext, hworld⟩ :=
        hahead clock record' next hrecord' hroute
      exact .level rfl ⟨events, c, run, hactions, hstate.trans hsame, hcnext, hworld⟩
    · exact .compensated (Or.inl rfl) hnext (hacted.cons rfl) hagain hahead

theorem stage_step
    (hkeeps : KeepsLedger others)
    (h : Stage rt others a past d) (hrecorded : Recorded d) (hsheltered : Sheltered past l)
    (hs : Step rt others rerun d l d') : Stage rt others a (l :: past) d' := by
  cases h with
  | level hidle h => exact level_step hidle h hs
  | performed hphase hpast hnext haction hkey hcall hfree hperform h =>
    exact performed_step hphase hpast hnext haction hkey hcall hfree hperform h hsheltered hs
  | watched hupdate hnext hexecute hrolling h hahead =>
    exact watched_step hupdate hnext hexecute hrolling h hahead hrecorded hs
  | executed hphase hnext hacted hkey hentry hahead =>
    exact executed_step hkeeps hphase hnext hacted hkey hentry hahead hrecorded hs
  | compensated hphase hnext hacted hagain hahead =>
    exact compensated_step hphase hnext hacted hagain hahead hrecorded hsheltered hs

end Steps

/-! ### Runs -/

section Runs

variable {rt : Runtime} {others : ToolContext → ToolContext → Prop} {runId : String}
variable {initialState : AgentState} {world : ToolContext} {past : List Label} {d : Durable}

theorem run_stage
    (hkeeps : KeepsLedger others)
    (run : Trace (durable rt others rerun) (begun runId initialState world) past d)
    (hsheltered : Along Sheltered past) :
    Recorded d ∧ Stage rt others (startWorkflow runId initialState world) past d := by
  induction run with
  | start =>
    constructor
    · intro node update _ hphase
      cases hphase
    · exact .level rfl ⟨[], _, .start, rfl, Same.refl _, rfl, rfl⟩
  | snoc run hs ih =>
    obtain ⟨hl, hpast⟩ := hsheltered
    obtain ⟨hrecorded, hstage⟩ := ih hpast
    exact ⟨recorded_step hrecorded hs, stage_step hkeeps hstage hrecorded hl hs⟩

/-- Whatever the kills, as long as none falls between a side effect and its ledger entry: a
run that is rerun from its checkpoints is, between two visits, where a run is that nobody
kills, over the same sandbox and after the same performed actions. -/
theorem killed_run_is_run
    (hkeeps : KeepsLedger others)
    (run : Trace (durable rt others rerun) (begun runId initialState world) past d)
    (hsheltered : Along Sheltered past) (hidle : d.phase = .idle)
    (hbetween : ∀ node, ¬ Acted node past) :
    ∃ events c, Run rt others runId initialState world events c ∧ c.next = d.next ∧
      c.world = d.world ∧ Same c.state d.state ∧ actionsOf events = actionsIn past := by
  cases (run_stage hkeeps run hsheltered).2 with
  | level _ h =>
    obtain ⟨events, c, hrun, hactions, hsame, hnext, hworld⟩ := h
    exact ⟨events, c, hrun, hnext, hworld, hsame, hactions⟩
  | performed hphase _ _ _ _ _ _ _ _ =>
    rw [hidle] at hphase
    cases hphase
  | watched hupdate _ _ _ _ _ =>
    rw [hidle] at hupdate
    cases hupdate
  | executed _ _ hacted _ _ _ => exact absurd hacted (hbetween _)
  | compensated _ _ hacted _ _ => exact absurd hacted (hbetween _)

end Runs

/-- The label is no kill between a side effect and its entry, and nothing that others did. -/
def isOwn : Label → Bool
  | .killed (.performed _ _ _ _) => false
  | .others => false
  | _ => true

theorem sheltered_of_own {past : List Label} (h : past.all isOwn = true) :
    Along Sheltered past := by
  induction past with
  | nil => trivial
  | cons l rest ih =>
    rw [List.all_cons, Bool.and_eq_true] at h
    refine ⟨?_, ih h.2⟩
    cases l with
    | killed lost =>
      rintro answers call key outcome rfl
      cases h.1
    | others => cases h.1
    | _ => trivial

theorem not_acted_of_checkpoint {past : List Label} (h : past.head?.any isCheckpoint = true)
    (node : Node) : ¬ Acted node past := by
  rintro ⟨before, update, hmem⟩
  cases past with
  | nil => cases hmem
  | cons l rest =>
    rw [since_cons_of (by simpa using h)] at hmem
    cases hmem

/-- A scaling that does not help; the process is killed after the diagnosis, after the entry
of the execution in the ledger, and twice after the compensation. -/
def killedThroughout : List Move :=
  [.act {}, .kill] ++ whole {} ++
    whole { proposal := ⟨"scale_service", "service_c", some (.obj [("replicas", .int 5)]), ""⟩ } ++
    whole { classification := { tier := "low" } } ++ whole {} ++
    [.perform {}, .act {}, .kill] ++ whole {} ++ whole {} ++
    [.act {}, .kill, .act {}, .record, .kill] ++ whole {}

theorem compensated_through_kills :
    ∃ (past : List Label) (d : Durable), past.countP isKill = 4 ∧ d.next = some .rolledBack ∧
      actionsIn past = [some (.str "scale_service:service_c")] ∧
      ∃ events c, Run { digest := id } (fun _ _ => False) "run-1" {} leaking events c ∧
        c.next = d.next ∧ c.world = d.world ∧ Same c.state d.state ∧
        actionsOf events = actionsIn past := by
  obtain ⟨past, d, hplay, hcheck⟩ := played_spec
    (p := fun (past : List Label) (d : Durable) => decide (past.countP isKill = 4) &&
      decide (d.next = some .rolledBack) &&
      decide ((actionsIn past).map (·.any (·.isStr "scale_service:service_c")) = [true]) &&
      past.all isOwn && past.head?.any isCheckpoint)
    (show played (play { digest := id } rerun killedThroughout [] (begun "run-1" {} leaking)) _ =
      true by decide +kernel)
  simp only [Bool.and_eq_true, decide_eq_true_eq] at hcheck
  obtain ⟨⟨⟨⟨hkills, hnext⟩, hactions⟩, hown⟩, hlast⟩ := hcheck
  have run : Trace (durable { digest := id } (fun _ _ => False) rerun) (begun "run-1" {} leaking)
      past d := play_trace .start hplay
  have hidle : d.phase = .idle := by
    cases run with
    | start => cases hnext
    | snoc run hs =>
      cases hs with
      | checkpointed _ _ _ => rfl
      | _ => cases hlast
  refine ⟨past, d, hkills, hnext, ?_, killed_run_is_run (fun _ _ h => h.elim) run
    (sheltered_of_own hown) hidle (not_acted_of_checkpoint hlast)⟩
  cases hcase : actionsIn past with
  | nil =>
    rw [hcase] at hactions
    cases hactions
  | cons x rest =>
    rw [hcase, List.map_cons, List.cons.injEq, List.map_eq_nil_iff] at hactions
    obtain ⟨hx, rfl⟩ := hactions
    rw [Json.any_isStr_iff.mp hx]

end KilledRuns
