import Interlock.Dispatching
import Interlock.DurableRuns
import Mathlib

/-!
# Actions that a restart forgets

A run that is started again plans from the beginning, and nothing in the state leads it
back to an action that was performed and not yet verified. What brings the action back is
another proposal of it: the ledger then answers with the recorded outcome, from which the
verification and the compensation go on.
-/

namespace ForgottenActions

open Dictionary PythonValues Tools Execution RunState Nodes Graph Transitions Walks Dispatching
open Effects Isolation DurableRuns

/-! ### What settles an action -/

/-- A visit to `execute` for the action. -/
def Executes (action : String) (l : Label) : Prop :=
  ∃ before update, l = .acted .execute before update ∧ before.proposedAction = some (.str action)

/-- A verification of the action, with its verdict. -/
def Verifies (action : String) (passed : Bool) (l : Label) : Prop :=
  ∃ before update, l = .acted .verify before update ∧
    before.proposedAction = some (.str action) ∧
    (before.merge update).verificationPassed = some (.bool passed)

/-- The compensation that the outcome names is applied for the action. -/
def Compensates (action : String) (outcome : Outcome) (l : Label) : Prop :=
  ∃ before update, l = .acted .rollingBack before update ∧
    before.proposedAction = some (.str action) ∧ before.compensation = some outcome.compensation

/-- The action passed a verification, or failed one and was compensated after it. -/
def Settled (action : String) (outcome : Outcome) (later : List Label) : Prop :=
  ∃ newer l older, later = newer ++ l :: older ∧ (Verifies action true l ∨
    Verifies action false l ∧ ∃ k ∈ newer, Compensates action outcome k)

/-- Every action that was performed has been settled since. -/
def Remembered (past : List Label) : Prop :=
  ∀ later action outcome older, past = later ++ .performed action outcome :: older →
    Settled action outcome later

/-- After every kill that found a performed action unsettled, the action is executed again. -/
def Resumed (past : List Label) : Prop :=
  ∀ later lost mid action outcome older,
    past = later ++ .killed lost :: (mid ++ .performed action outcome :: older) →
      ¬ Settled action outcome mid → ∃ l ∈ later, Executes action l

/-- A kill between a side effect and its ledger entry, which loses the compensation. -/
def Loses (l : Label) : Prop :=
  ∃ answers call key outcome, l = .killed (.performed answers call key outcome) ∧
    ∀ reason, outcome.compensation ≠ .noop reason

section Settling

variable {action : String} {outcome : Outcome} {later : List Label} {l : Label}

theorem Settled.cons (h : Settled action outcome later) : Settled action outcome (l :: later) := by
  obtain ⟨newer, m, older, rfl, hm⟩ := h
  refine ⟨l :: newer, m, older, rfl, ?_⟩
  rcases hm with hpassed | ⟨hfailed, k, hk, hcompensates⟩
  · exact Or.inl hpassed
  · exact Or.inr ⟨hfailed, k, List.mem_cons_of_mem l hk, hcompensates⟩

theorem settled_of_passed (h : Verifies action true l) : Settled action outcome (l :: later) :=
  ⟨[], l, later, rfl, Or.inl h⟩

theorem settled_of_compensated (h : Compensates action outcome l)
    (hseen : ∃ m ∈ later, Verifies action false m) : Settled action outcome (l :: later) := by
  obtain ⟨m, hm, hfailed⟩ := hseen
  obtain ⟨newer, older, rfl⟩ := List.append_of_mem hm
  exact ⟨l :: newer, m, older, rfl, Or.inr ⟨hfailed, l, List.mem_cons_self, h⟩⟩

end Settling

/-! ### Outcomes in the ledger -/

/-- What is recorded under the key names the compensation of the outcome; nothing is
recorded only if there is nothing to compensate. -/
structure Backed (key : String) (outcome : Outcome) (store : Dict String LedgerEntry) : Prop where
  entry : ∀ e, store.get? key = some e → e.compensation = outcome.compensation
  free : store.get? key = none → ∃ reason, outcome.compensation = .noop reason

theorem backed_entered {key : String} {call : ToolCall} {o outcome : Outcome}
    {store : Dict String LedgerEntry} (hfree : store.get? key = none)
    (ho : o.compensation = outcome.compensation) :
    Backed key outcome (store.setdefault key (call.entry o)) := by
  have hget : (store.setdefault key (call.entry o)).get? key = some (call.entry o) := by
    rw [Dict.get?_setdefault, if_pos ⟨rfl, hfree⟩]
  constructor
  · intro e he
    rw [hget] at he
    cases he
    exact ho
  · intro hnone
    rw [hget] at hnone
    cases hnone

theorem Backed.setdefault {key other : String} {outcome : Outcome} {e : LedgerEntry}
    {store : Dict String LedgerEntry} (h : Backed key outcome store) (hne : other ≠ key) :
    Backed key outcome (store.setdefault other e) := by
  have hget : (store.setdefault other e).get? key = store.get? key := by
    rw [Dict.get?_setdefault, if_neg fun hand => hne hand.1]
  constructor
  · intro e' he
    rw [hget] at he
    exact h.entry e' he
  · intro hnone
    rw [hget] at hnone
    exact h.free hnone

section Noops

variable {call : ToolCall} {o : Outcome} {w w' : ToolContext}

/-- Only a restart and the clearing of a cache have nothing to compensate. -/
theorem noop_call {reason : String} (h : call.perform.run w = (.ok o, w'))
    (hnoop : o.compensation = .noop reason) :
    (∃ service, call = .restartService service) ∨ ∃ service, call = .clearCache service := by
  cases call with
  | restartService service => exact Or.inl ⟨service, rfl⟩
  | clearCache service => exact Or.inr ⟨service, rfl⟩
  | scaleService service replicas =>
    obtain ⟨_, _, rfl, _⟩ := performScaleService_ok_iff.mp h
    cases hnoop
  | deleteRecords kind ids =>
    cases h
    cases hnoop
  | applyConfigChange service key value =>
    obtain ⟨_, _, rfl, _⟩ := performApplyConfigChange_ok_iff.mp h
    cases hnoop
  | rollbackDeployment service =>
    obtain ⟨_, _, _, _, _, _, rfl, _⟩ := performRollbackDeployment_ok_iff.mp h
    cases hnoop

theorem restart_compensation (hname : call.toolName = "restart_service")
    (h : call.perform.run w = (.ok o, w')) :
    o.compensation = .noop "restart has no reversible side effect" := by
  cases call with
  | restartService service =>
    obtain ⟨_, _, rfl, _⟩ := performRestartService_ok_iff.mp h
    rfl
  | _ => simp [ToolCall.toolName] at hname

theorem clear_compensation (hname : call.toolName = "clear_cache")
    (h : call.perform.run w = (.ok o, w')) :
    o.compensation = .noop "cleared cache space cannot be restored" := by
  cases call with
  | clearCache service =>
    obtain ⟨_, _, _, rfl, _⟩ := performClearCache_ok_iff.mp h
    rfl
  | _ => simp [ToolCall.toolName] at hname

end Noops

/-- A call is what the action performed, at some time and with some parameters. -/
def PerformedBy (action : String) (o : Outcome) : Prop :=
  ∃ parameters call w w', dispatch action parameters = .ok call ∧
    call.perform.run w = (.ok o, w')

/-- A compensation that does nothing is the same whenever the action is performed. -/
theorem noop_again {action reason : String} {o o' : Outcome} (h : PerformedBy action o)
    (h' : PerformedBy action o') (hnoop : o.compensation = .noop reason) :
    o'.compensation = o.compensation := by
  obtain ⟨parameters, call, w, w₁, hcall, hperform⟩ := h
  obtain ⟨parameters', call', w', w₁', hcall', hperform'⟩ := h'
  have hnames : call'.toolName = call.toolName := by
    obtain ⟨⟨tool, target⟩, hsplit, hcall⟩ := except_bind_ok_iff.mp hcall
    rw [dispatch_of_split hsplit] at hcall'
    exact (named_by_call hcall').1.trans (named_by_call hcall).1.symm
  rcases noop_call hperform hnoop with ⟨service, rfl⟩ | ⟨service, rfl⟩
  · rw [restart_compensation hnames hperform', restart_compensation rfl hperform]
  · rw [clear_compensation hnames hperform', clear_compensation rfl hperform]

/-! ### What every run goes by -/

/-- Others change the services and the records, not the ledger. -/
def SparesLedger (w w' : ToolContext) : Prop := w'.store = w.store

/-- The run keeps its id, its key is that of the action at hand, and an execution found it
free. -/
structure Base (runId : Option Json) (d : Durable) : Prop where
  runId : d.state.runId = runId
  keyed : d.next = some .execute → Keyed d.state
  prepared : ∀ update, d.next = some .prepareExecution → updateAtHand d.phase = some update →
    Keyed (d.state.merge update)
  atHand : ∀ node update, d.next = some node → updateAtHand d.phase = some update →
    ∃ w w', Acts node d.state update w w'
  performed : ∀ answers call key o, d.phase = .performed answers call key o →
    d.next = some .execute ∧ d.state.idempotencyKey = some (.str key) ∧
      d.world.store.get? key = none ∧
      ∃ action, d.state.proposedAction = some (.str action) ∧ PerformedBy action o

theorem acts_executed {state : AgentState} {o : Outcome} {w w' : ToolContext} :
    Acts .execute state (executed o) w w' :=
  ⟨Or.inl ⟨.executing, rfl⟩, rfl, fun _ _ => rfl, fun h => absurd rfl h, fun h => absurd rfl h⟩

section Steps

variable {rt : Runtime} {runId : String} {initialState : AgentState} {d d' : Durable} {l : Label}

/-- The id that `start_workflow` gives to the run. -/
def idOf (runId : String) (initialState : AgentState) : Option Json :=
  some (initialState.runId.getD (.str runId))

theorem base_step (h : Base (idOf runId initialState) d)
    (hs : Step rt SparesLedger (startAgain runId initialState) d l d') :
    Base (idOf runId initialState) d' := by
  cases hs with
  | @performed answers action key call outcome world hnext hidle haction hkey hcall hfree hperform =>
    refine ⟨h.runId, h.keyed, ?_, ?_, ?_⟩
    · intro update _ hupdate
      cases hupdate
    · intro node update _ hupdate
      cases hupdate
    · intro a c k o hphase
      cases hphase
      refine ⟨hnext, hkey, ?_, action, haction, _, call, d.world, world, hcall, hperform⟩
      rw [perform_store hperform]
      exact hfree
  | @entered answers key call outcome hphase =>
    have hexecute := (h.performed answers call key outcome hphase).1
    refine ⟨h.runId, h.keyed, ?_, ?_, ?_⟩
    · intro update hnext _
      rw [hexecute] at hnext
      cases hnext
    · intro node update hnext hupdate
      rw [hexecute] at hnext
      cases hnext
      cases hupdate
      exact ⟨d.world, d.world, acts_executed⟩
    · intro a c k o hphase'
      cases hphase'
  | @acted node answers update world hnext hidle hentered hnode =>
    refine ⟨h.runId, h.keyed, ?_, ?_, ?_⟩
    · intro u hprepare hupdate
      cases hupdate
      rw [hnext] at hprepare
      cases hprepare
      simp only [nodeFn, Action.run_lift, Prod.mk.injEq] at hnode
      obtain ⟨r, action, hrun, haction, rfl⟩ := prepareExecution_ok hnode.1
      exact ⟨r, action, hrun, haction, rfl⟩
    · intro n u hn hupdate
      rw [hnext] at hn
      cases hn
      cases hupdate
      exact ⟨_, _, acts hnode⟩
    · intro a c k o hphase
      cases hphase
  | @recorded node answers update record hnext hphase hrecord =>
    have hhand : updateAtHand d.phase = some update := by simp [updateAtHand, hphase]
    refine ⟨h.runId, h.keyed, ?_, ?_, ?_⟩
    · intro u hprepare hupdate
      cases hupdate
      exact h.prepared update hprepare hhand
    · intro n u hn hupdate
      cases hupdate
      exact h.atHand n update hn hhand
    · intro a c k o hphase'
      cases hphase'
  | @checkpointed node update next hnext hphase hroute =>
    have hhand : updateAtHand d.phase = some update := by simp [updateAtHand, hphase]
    obtain ⟨w, w', hacts⟩ := h.atHand node update hnext hhand
    refine ⟨hacts.runId.trans h.runId, ?_, ?_, ?_, ?_⟩
    · intro hexecute
      change next = some .execute at hexecute
      subst hexecute
      have hedge := edge_of_nextNode hroute
      cases node with
      | prepareExecution => exact h.prepared update hnext hhand
      | _ => cases hedge
    · intro u _ hupdate
      cases hupdate
    · intro n u _ hupdate
      cases hupdate
    · intro a c k o hphase'
      cases hphase'
  | killed =>
    refine ⟨rfl, ?_, ?_, ?_, ?_⟩
    · intro hnext
      cases hnext
    · intro u _ hupdate
      cases hupdate
    · intro n u _ hupdate
      cases hupdate
    · intro a c k o hphase'
      cases hphase'
  | others hspares =>
    refine ⟨h.runId, h.keyed, h.prepared, h.atHand, ?_⟩
    intro a c k o hphase
    obtain ⟨hnext, hkey, hfree, hby⟩ := h.performed a c k o hphase
    refine ⟨hnext, hkey, ?_, hby⟩
    rw [hspares]
    exact hfree

theorem run_base {world : ToolContext} {past : List Label}
    (run : Trace (durable rt SparesLedger (startAgain runId initialState))
      (begun runId initialState world) past d) : Base (idOf runId initialState) d := by
  apply run.state_invariant
  · refine ⟨rfl, ?_, ?_, ?_, ?_⟩
    · intro hnext
      cases hnext
    · intro u _ hupdate
      cases hupdate
    · intro n u _ hupdate
      cases hupdate
    · intro a c k o hphase
      cases hphase
  · intro b l c h hs
    exact base_step h hs

end Steps

/-! ### One step, by the phase it starts in -/

/-- The checkpoint and the ledger are as they were. -/
structure Stays (d d' : Durable) : Prop where
  state : d'.state = d.state
  next : d'.next = d.next
  store : d'.world.store = d.world.store

section Inversion

variable {rt : Runtime} {recover : Config → Config} {d d' : Durable} {l : Label}

theorem step_performed {answers : Answers} {call : ToolCall} {key : String} {o : Outcome}
    (hphase : d.phase = .performed answers call key o)
    (hs : Step rt SparesLedger recover d l d') :
    (Stays d d' ∧ d'.phase = d.phase) ∨
    (l = .acted .execute d.state (executed o) ∧ d'.state = d.state ∧ d'.next = d.next ∧
      updateAtHand d'.phase = some (executed o) ∧
      d'.world.store = d.world.store.setdefault key (call.entry o)) ∨
    (l = .killed d.phase ∧ d' = { toConfig := recover d.toConfig }) := by
  cases hs with
  | entered hphase' =>
    rw [hphase] at hphase'
    cases hphase'
    exact Or.inr (Or.inl ⟨rfl, rfl, rfl, rfl, rfl⟩)
  | killed => exact Or.inr (Or.inr ⟨rfl, rfl⟩)
  | others h => exact Or.inl ⟨⟨rfl, rfl, h⟩, rfl⟩
  | performed _ hidle _ _ _ _ _ =>
    rw [hphase] at hidle
    cases hidle
  | acted _ hidle _ _ =>
    rw [hphase] at hidle
    cases hidle
  | recorded _ hphase' _ =>
    rw [hphase] at hphase'
    cases hphase'
  | checkpointed _ hphase' _ =>
    rw [hphase] at hphase'
    cases hphase'

theorem step_busy {update : Update} (hupdate : updateAtHand d.phase = some update)
    (hs : Step rt SparesLedger recover d l d') :
    (Stays d d' ∧ updateAtHand d'.phase = some update) ∨
    (∃ node, d.next = some node ∧ nextNode rt node (d.state.merge update) = .ok d'.next ∧
      d'.state = d.state.merge update ∧ d'.phase = .idle ∧ d'.world = d.world) ∨
    (l = .killed d.phase ∧ d' = { toConfig := recover d.toConfig }) := by
  cases hs with
  | killed => exact Or.inr (Or.inr ⟨rfl, rfl⟩)
  | others h => exact Or.inl ⟨⟨rfl, rfl, h⟩, hupdate⟩
  | recorded _ hphase _ =>
    rw [hphase] at hupdate
    exact Or.inl ⟨⟨rfl, rfl, rfl⟩, hupdate⟩
  | checkpointed hnext hphase hroute =>
    rw [hphase] at hupdate
    cases hupdate
    exact Or.inr (Or.inl ⟨_, hnext, hroute, rfl, rfl, rfl⟩)
  | performed _ hidle _ _ _ _ _ =>
    rw [hidle] at hupdate
    cases hupdate
  | acted _ hidle _ _ =>
    rw [hidle] at hupdate
    cases hupdate
  | entered hphase =>
    rw [hphase] at hupdate
    cases hupdate

theorem step_idle {node : Node} (hidle : d.phase = .idle) (hnext : d.next = some node)
    (hnode : node ≠ .execute) (hs : Step rt SparesLedger recover d l d') :
    (Stays d d' ∧ d'.phase = .idle) ∨
    (∃ answers update, Stays d d' ∧ l = .acted node d.state update ∧
      (nodeFn rt answers node d.state).run d.world = (.ok update, d'.world) ∧
      updateAtHand d'.phase = some update) ∨
    (l = .killed d.phase ∧ d' = { toConfig := recover d.toConfig }) := by
  cases hs with
  | killed => exact Or.inr (Or.inr ⟨rfl, rfl⟩)
  | others h => exact Or.inl ⟨⟨rfl, rfl, h⟩, hidle⟩
  | @acted n answers update world hnext' _ _ hacted =>
    rw [hnext] at hnext'
    cases hnext'
    exact Or.inr (Or.inl ⟨answers, update, ⟨rfl, rfl, (acts hacted).store hnode⟩, rfl, hacted, rfl⟩)
  | performed hexecute _ _ _ _ _ _ =>
    rw [hnext] at hexecute
    exact absurd (Option.some.inj hexecute) hnode
  | entered hphase =>
    rw [hidle] at hphase
    cases hphase
  | recorded _ hphase _ =>
    rw [hidle] at hphase
    cases hphase
  | checkpointed _ hphase _ =>
    rw [hidle] at hphase
    cases hphase

end Inversion

/-! ### From an execution to what settles it -/

/-- The steps from an execution with the outcome's compensation to the end of its rollback. -/
inductive Stage (action : String) (outcome : Outcome) (later : List Label) (d : Durable) : Prop where
  | performed {answers : Answers} {call : ToolCall} {key : String} {o : Outcome}
      (hphase : d.phase = .performed answers call key o)
      (hcompensation : o.compensation = outcome.compensation)
  | executed {o : Outcome} (hnext : d.next = some .execute)
      (hupdate : updateAtHand d.phase = some (executed o))
      (hcompensation : o.compensation = outcome.compensation)
  | ready (hnext : d.next = some .verify) (hidle : d.phase = .idle)
      (hcompensation : d.state.compensation = some outcome.compensation)
  | failed {update : Update} (hnext : d.next = some .verify)
      (hupdate : updateAtHand d.phase = some update)
      (hfailed : (d.state.merge update).verificationPassed = some (.bool false))
      (hcompensation : d.state.compensation = some outcome.compensation)
      (hseen : ∃ m ∈ later, Verifies action false m)
  | undoing (hnext : d.next = some .rollingBack) (hidle : d.phase = .idle)
      (hcompensation : d.state.compensation = some outcome.compensation)
      (hseen : ∃ m ∈ later, Verifies action false m)

/-- Nothing has interrupted the run since it executed the action. -/
structure OnTrack (runId action : String) (outcome : Outcome) (later : List Label) (d : Durable) :
    Prop where
  proposed : d.state.proposedAction = some (.str action)
  stage : Stage action outcome later d
  backed : (∃ answers call key o, d.phase = .performed answers call key o) ∨
    Backed (idempotencyKey runId action) outcome d.world.store

/-- A kill found the action unsettled, and it has not been executed since. -/
structure Orphaned (runId action : String) (outcome : Outcome) (later : List Label) (d : Durable) :
    Prop where
  cut : ∃ newer lost mid, later = newer ++ .killed lost :: mid ∧ ¬ Settled action outcome mid ∧
    ∀ l ∈ newer, ¬ Executes action l
  away : ∀ answers call key o, d.phase = .performed answers call key o →
    d.state.proposedAction ≠ some (.str action)
  backed : Backed (idempotencyKey runId action) outcome d.world.store

/-- What has become of a performed action. -/
inductive Fate (runId action : String) (outcome : Outcome) (later : List Label) (d : Durable) :
    Prop where
  | settled (h : Settled action outcome later)
  | onTrack (h : OnTrack runId action outcome later d)
  | orphaned (h : Orphaned runId action outcome later d)

section Fates

variable {rt : Runtime} {runId r action : String} {initialState : AgentState} {outcome : Outcome}
variable {later : List Label} {d d' : Durable} {l : Label}

theorem key_at_hand (hbase : Base (some (.str r)) d) (hnext : d.next = some .execute)
    (haction : d.state.proposedAction = some (.str action)) :
    d.state.idempotencyKey = some (.str (idempotencyKey r action)) := by
  obtain ⟨r', action', hrun, haction', hkey⟩ := hbase.keyed hnext
  rw [hbase.runId, Option.some.injEq, Json.str.injEq] at hrun
  rw [haction, Option.some.injEq, Json.str.injEq] at haction'
  rw [hkey, hrun, haction']

theorem free_of_performed (hbase : Base (some (.str r)) d)
    (haction : d.state.proposedAction = some (.str action)) {answers : Answers} {call : ToolCall}
    {key : String} {o : Outcome} (hphase : d.phase = .performed answers call key o) :
    key = idempotencyKey r action ∧ d.world.store.get? key = none := by
  obtain ⟨hnext, hkey, hfree, _⟩ := hbase.performed _ _ _ _ hphase
  rw [key_at_hand hbase hnext haction, Option.some.injEq, Json.str.injEq] at hkey
  exact ⟨hkey.symm, hfree⟩

/-- A kill leaves the action to the ledger, unless it loses the compensation. -/
theorem killed_onTrack (hbase : Base (some (.str r)) d) (h : OnTrack r action outcome later d)
    (hsafe : ¬ Loses (.killed d.phase)) :
    Fate r action outcome (.killed d.phase :: later)
      { toConfig := startAgain runId initialState d.toConfig } := by
  by_cases hsettled : Settled action outcome later
  · exact .settled hsettled.cons
  · refine .orphaned ⟨⟨[], d.phase, later, rfl, hsettled, by simp⟩, ?_, ?_⟩
    · intro a c k o hphase
      cases hphase
    · change Backed _ outcome d.world.store
      rcases h.backed with ⟨answers, call, key, o, hphase⟩ | hbacked
      · obtain ⟨rfl, hfree⟩ := free_of_performed hbase h.proposed hphase
        constructor
        · intro e he
          rw [hfree] at he
          cases he
        · intro _
          have ho : o.compensation = outcome.compensation := by
            cases h.stage with
            | performed hphase' ho =>
              rw [hphase] at hphase'
              cases hphase'
              exact ho
            | executed _ hupdate _ =>
              rw [hphase] at hupdate
              cases hupdate
            | failed _ hupdate _ _ _ =>
              rw [hphase] at hupdate
              cases hupdate
            | ready _ hidle _ =>
              rw [hphase] at hidle
              cases hidle
            | undoing _ hidle _ _ =>
              rw [hphase] at hidle
              cases hidle
          by_contra hnone
          apply hsafe
          refine ⟨answers, call, _, o, by rw [hphase], ?_⟩
          intro reason hreason
          exact hnone ⟨reason, ho.symm.trans hreason⟩
      · exact hbacked

theorem onTrack_step (hbase : Base (some (.str r)) d) (h : OnTrack r action outcome later d)
    (hs : Step rt SparesLedger (startAgain runId initialState) d l d') (hsafe : ¬ Loses l) :
    Fate r action outcome (l :: later) d' := by
  have hbacked : (∀ a c k o, d.phase ≠ .performed a c k o) →
      Backed (idempotencyKey r action) outcome d.world.store := by
    intro hno
    rcases h.backed with ⟨a, c, k, o, hphase⟩ | hbacked
    · exact absurd hphase (hno a c k o)
    · exact hbacked
  cases h.stage with
  | performed hphase hcompensation =>
    rcases step_performed hphase hs with
      ⟨hstays, hphase'⟩ | ⟨rfl, hstate, hnext, hupdate, hstore⟩ | ⟨rfl, rfl⟩
    · rw [hphase] at hphase'
      exact .onTrack ⟨hstays.state ▸ h.proposed, .performed hphase' hcompensation,
        Or.inl ⟨_, _, _, _, hphase'⟩⟩
    · obtain ⟨rfl, hfree⟩ := free_of_performed hbase h.proposed hphase
      refine .onTrack ⟨hstate ▸ h.proposed, .executed ?_ hupdate hcompensation, Or.inr ?_⟩
      · rw [hnext]
        exact (hbase.performed _ _ _ _ hphase).1
      · rw [hstore]
        exact backed_entered hfree hcompensation
    · exact killed_onTrack hbase h hsafe
  | @executed o hnext hupdate hcompensation =>
    have hbacked := hbacked (by rintro a c k o' hphase; rw [hphase] at hupdate; cases hupdate)
    rcases step_busy hupdate hs with
      ⟨hstays, hupdate'⟩ | ⟨node, hnode, hroute, hstate, hidle, hworld⟩ | ⟨rfl, rfl⟩
    · exact .onTrack ⟨hstays.state ▸ h.proposed,
        .executed (hstays.next.trans hnext) hupdate' hcompensation, Or.inr (hstays.store ▸ hbacked)⟩
    · rw [hnext] at hnode
      cases hnode
      refine .onTrack ⟨?_, .ready (Except.ok.inj hroute).symm hidle ?_, Or.inr (hworld ▸ hbacked)⟩
      · rw [hstate]
        exact h.proposed
      · rw [hstate]
        exact congrArg some hcompensation
    · exact killed_onTrack hbase h hsafe
  | ready hnext hidle hcompensation =>
    have hbacked := hbacked (by rintro a c k o hphase; rw [hidle] at hphase; cases hphase)
    rcases step_idle hidle hnext (by simp) hs with
      ⟨hstays, hidle'⟩ | ⟨answers, update, hstays, rfl, hnode, hupdate⟩ | ⟨rfl, rfl⟩
    · exact .onTrack ⟨hstays.state ▸ h.proposed,
        .ready (hstays.next.trans hnext) hidle' (hstays.state ▸ hcompensation),
        Or.inr (hstays.store ▸ hbacked)⟩
    · obtain ⟨_, _, _, passed, _, _, _, rfl⟩ := verify_ok hnode
      have hverifies : Verifies action passed (.acted .verify d.state
          [.status .verifying, .verificationPassed passed]) := ⟨_, _, rfl, h.proposed, rfl⟩
      cases passed with
      | true => exact .settled (settled_of_passed hverifies)
      | false =>
        refine .onTrack ⟨hstays.state ▸ h.proposed, .failed (hstays.next.trans hnext) hupdate ?_
          (hstays.state ▸ hcompensation) ⟨_, List.mem_cons_self, hverifies⟩,
          Or.inr (hstays.store ▸ hbacked)⟩
        rfl
    · exact killed_onTrack hbase h hsafe
  | @failed update hnext hupdate hfailed hcompensation hseen =>
    have hbacked := hbacked (by rintro a c k o hphase; rw [hphase] at hupdate; cases hupdate)
    obtain ⟨m, hm, hverifies⟩ := hseen
    have hseen' : ∃ m ∈ l :: later, Verifies action false m := ⟨m, List.mem_cons_of_mem l hm, hverifies⟩
    rcases step_busy hupdate hs with
      ⟨hstays, hupdate'⟩ | ⟨node, hnode, hroute, hstate, hidle, hworld⟩ | ⟨rfl, rfl⟩
    · exact .onTrack ⟨hstays.state ▸ h.proposed, .failed (hstays.next.trans hnext) hupdate'
        (hstays.state ▸ hfailed) (hstays.state ▸ hcompensation) hseen',
        Or.inr (hstays.store ▸ hbacked)⟩
    · rw [hnext] at hnode
      cases hnode
      obtain ⟨w, w', hacts⟩ := hbase.atHand .verify update hnext hupdate
      have hback : d'.next = some .rollingBack := by
        simp only [nextNode, routeAfterVerification, hfailed, required_some] at hroute
        exact (Except.ok.inj hroute).symm
      refine .onTrack ⟨?_, .undoing hback hidle ?_ hseen', Or.inr (hworld ▸ hbacked)⟩
      · rw [hstate, hacts.proposedAction (by simp) (by simp)]
        exact h.proposed
      · rw [hstate, hacts.compensation (by simp)]
        exact hcompensation
    · exact killed_onTrack hbase h hsafe
  | undoing hnext hidle hcompensation hseen =>
    have hbacked := hbacked (by rintro a c k o hphase; rw [hidle] at hphase; cases hphase)
    obtain ⟨m, hm, hverifies⟩ := hseen
    rcases step_idle hidle hnext (by simp) hs with
      ⟨hstays, hidle'⟩ | ⟨answers, update, hstays, rfl, hnode, hupdate⟩ | ⟨rfl, rfl⟩
    · exact .onTrack ⟨hstays.state ▸ h.proposed,
        .undoing (hstays.next.trans hnext) hidle' (hstays.state ▸ hcompensation)
          ⟨m, List.mem_cons_of_mem l hm, hverifies⟩, Or.inr (hstays.store ▸ hbacked)⟩
    · have hcompensates : Compensates action outcome (.acted .rollingBack d.state update) :=
        ⟨_, _, rfl, h.proposed, hcompensation⟩
      exact .settled (settled_of_compensated hcompensates ⟨m, hm, hverifies⟩)
    · exact killed_onTrack hbase h hsafe

/-- An execution whose key is recorded returns what is recorded. -/
theorem executed_of_entered {answers : Answers} {update : Update} {world : ToolContext}
    (hentered : Entered d)
    (hnode : (nodeFn rt answers .execute d.state).run d.world = (.ok update, world)) :
    ∃ key e, d.state.idempotencyKey = some (.str key) ∧ d.world.store.get? key = some e ∧
      update = executed ⟨e.result, e.compensation⟩ ∧ world = d.world := by
  obtain ⟨key, e, hkey, he⟩ := hentered
  obtain ⟨_, key', o, _, hkey', hrun, rfl⟩ := execute_ok hnode
  rw [hkey, Option.some.injEq, Json.str.injEq] at hkey'
  subst hkey'
  obtain ⟨call, m, _, hcalled, rfl⟩ := executeAction_ok_iff.mp hrun
  rcases run_ok_cases hcalled with ⟨existing, hexisting, _, hm, rfl⟩ | ⟨hfree, _⟩
  · rw [he] at hexisting
    cases hexisting
    exact ⟨key, e, hkey, he, by rw [executed, hm], rfl⟩
  · rw [he] at hfree
    cases hfree

/-- The action stays orphaned as long as it is not executed. -/
theorem Orphaned.still (h : Orphaned r action outcome later d) (hl : ¬ Executes action l)
    (haway : ∀ answers call key o, d'.phase = .performed answers call key o →
      d'.state.proposedAction ≠ some (.str action))
    (hbacked : Backed (idempotencyKey r action) outcome d'.world.store) :
    Orphaned r action outcome (l :: later) d' := by
  obtain ⟨newer, lost, mid, rfl, hmid, hnewer⟩ := h.cut
  exact ⟨⟨l :: newer, lost, mid, rfl, hmid, List.forall_mem_cons.mpr ⟨hl, hnewer⟩⟩, haway, hbacked⟩

theorem orphaned_step (hbase : Base (some (.str r)) d) (horigin : PerformedBy action outcome)
    (h : Orphaned r action outcome later d)
    (hs : Step rt SparesLedger (startAgain runId initialState) d l d') :
    Fate r action outcome (l :: later) d' := by
  cases hs with
  | @performed answers action' key call o world hnext hidle haction' hkey hcall hfree hperform =>
    by_cases hsame : action' = action
    · subst hsame
      have hkeys := key_at_hand hbase hnext haction'
      rw [hkey, Option.some.injEq, Json.str.injEq] at hkeys
      subst hkeys
      obtain ⟨reason, hnoop⟩ := h.backed.free hfree
      have ho := noop_again horigin ⟨_, _, _, _, hcall, hperform⟩ hnoop
      exact .onTrack ⟨haction', .performed rfl ho, Or.inl ⟨_, _, _, _, rfl⟩⟩
    · refine .orphaned (h.still ?_ ?_ ?_)
      · rintro ⟨_, _, heq, _⟩
        cases heq
      · intro _ _ _ _ _ hcontra
        rw [haction', Option.some.injEq, Json.str.injEq] at hcontra
        exact hsame hcontra
      · rw [perform_store hperform]
        exact h.backed
  | @entered answers key call o hphase =>
    have haway := h.away _ _ _ _ hphase
    obtain ⟨hnext, hkey, _⟩ := hbase.performed _ _ _ _ hphase
    refine .orphaned (h.still ?_ ?_ ?_)
    · rintro ⟨_, _, heq, haction⟩
      cases heq
      exact haway haction
    · intro _ _ _ _ hphase'
      cases hphase'
    · apply h.backed.setdefault
      intro hsame
      obtain ⟨r', action', hrun, haction', hkey'⟩ := hbase.keyed hnext
      rw [hbase.runId, Option.some.injEq, Json.str.injEq] at hrun
      rw [hkey, hsame, Option.some.injEq, Json.str.injEq, ← hrun] at hkey'
      have haction : action = action' := by simpa [idempotencyKey] using hkey'
      exact haway (haction ▸ haction')
  | @acted node answers update world hnext hidle hentered hnode =>
    by_cases hexecutes : node = .execute ∧ d.state.proposedAction = some (.str action)
    · obtain ⟨rfl, haction⟩ := hexecutes
      obtain ⟨key, e, hkey, he, rfl, rfl⟩ := executed_of_entered (hentered rfl) hnode
      rw [key_at_hand hbase hnext haction, Option.some.injEq, Json.str.injEq] at hkey
      subst hkey
      exact .onTrack ⟨haction, .executed hnext rfl (h.backed.entry e he), Or.inr h.backed⟩
    · refine .orphaned (h.still ?_ ?_ ?_)
      · rintro ⟨_, _, heq, haction⟩
        cases heq
        exact hexecutes ⟨rfl, haction⟩
      · intro _ _ _ _ hphase
        cases hphase
      · change Backed _ _ world.store
        by_cases hexecute : node = .execute
        · subst hexecute
          obtain ⟨_, _, _, _, _, rfl⟩ := executed_of_entered (hentered rfl) hnode
          exact h.backed
        · rw [(acts hnode).store hexecute]
          exact h.backed
  | recorded _ _ _ =>
    refine .orphaned (h.still ?_ ?_ h.backed)
    · rintro ⟨_, _, heq, _⟩
      cases heq
    · intro _ _ _ _ hphase
      cases hphase
  | checkpointed _ _ _ =>
    refine .orphaned (h.still ?_ ?_ h.backed)
    · rintro ⟨_, _, heq, _⟩
      cases heq
    · intro _ _ _ _ hphase
      cases hphase
  | killed =>
    refine .orphaned (h.still ?_ ?_ h.backed)
    · rintro ⟨_, _, heq, _⟩
      cases heq
    · intro _ _ _ _ hphase
      cases hphase
  | others hspares =>
    refine .orphaned (h.still ?_ h.away ?_)
    · rintro ⟨_, _, heq, _⟩
      cases heq
    · rw [hspares]
      exact h.backed

theorem fate_step (hbase : Base (some (.str r)) d) (horigin : PerformedBy action outcome)
    (h : Fate r action outcome later d)
    (hs : Step rt SparesLedger (startAgain runId initialState) d l d') (hsafe : ¬ Loses l) :
    Fate r action outcome (l :: later) d' := by
  cases h with
  | settled h => exact .settled h.cons
  | onTrack h => exact onTrack_step hbase h hs hsafe
  | orphaned h => exact orphaned_step hbase horigin h hs

end Fates

/-! ### Runs -/

section Runs

variable {rt : Runtime} {runId : String} {initialState : AgentState} {world : ToolContext}
variable {past : List Label} {d : Durable}

/-- Whatever a run has performed is settled, on its way there, or orphaned. -/
theorem run_fate {action : String} {outcome : Outcome} {later older : List Label}
    (run : Trace (durable rt SparesLedger (startAgain runId initialState))
      (begun runId initialState world) (later ++ .performed action outcome :: older) d)
    (hsafe : ∀ l ∈ later, ¬ Loses l) :
    ∃ r, Fate r action outcome later d := by
  obtain ⟨b, first, rest⟩ := run.split
  cases first with
  | snoc first hs =>
    have hwhole := first.snoc hs
    cases hs with
    | performed hnext hidle haction hkey hcall hfree hperform =>
      have hbase := run_base first
      obtain ⟨r, _, hrun, _⟩ := hbase.keyed hnext
      have hid : idOf runId initialState = some (.str r) := hbase.runId.symm.trans hrun
      have horigin : PerformedBy action outcome := ⟨_, _, _, _, hcall, hperform⟩
      refine ⟨r, ?_⟩
      induction rest with
      | start => exact .onTrack ⟨haction, .performed rfl rfl, Or.inl ⟨_, _, _, _, rfl⟩⟩
      | snoc rest hs ih =>
        obtain ⟨hl, hlater⟩ := List.forall_mem_cons.mp hsafe
        have hbase' := run_base (hwhole.trans rest)
        rw [hid] at hbase'
        exact fate_step hbase' horigin (ih (hwhole.trans rest) hlater) hs hl

/-- A finished run has nothing under way. -/
theorem no_track_at_end {r action : String} {outcome : Outcome} {later : List Label}
    (hbase : Base (idOf runId initialState) d) (hend : d.next = none) :
    ¬ OnTrack r action outcome later d := by
  intro h
  cases h.stage with
  | performed hphase _ =>
    rw [(hbase.performed _ _ _ _ hphase).1] at hend
    cases hend
  | executed hnext _ _ =>
    rw [hend] at hnext
    cases hnext
  | ready hnext _ _ =>
    rw [hend] at hnext
    cases hnext
  | failed hnext _ _ _ _ =>
    rw [hend] at hnext
    cases hnext
  | undoing hnext _ _ _ =>
    rw [hend] at hnext
    cases hnext

theorem remembered_of_resumed
    (run : Trace (durable rt SparesLedger (startAgain runId initialState))
      (begun runId initialState world) past d)
    (hsafe : ∀ l ∈ past, ¬ Loses l) (hend : d.next = none) (h : Resumed past) :
    Remembered past := by
  rintro later action outcome older rfl
  obtain ⟨r, hfate⟩ := run_fate run fun l hl => hsafe l (List.mem_append_left _ hl)
  cases hfate with
  | settled h => exact h
  | onTrack h => exact absurd h (no_track_at_end (run_base run) hend)
  | orphaned horphaned =>
    obtain ⟨newer, lost, mid, rfl, hmid, hnewer⟩ := horphaned.cut
    obtain ⟨l, hl, hexecutes⟩ := h newer lost mid action outcome older (by simp) hmid
    exact absurd hexecutes (hnewer l hl)

/-! ### Only an execution leads on -/

/-- The run has executed its action and is not yet through with it. -/
def UnderWay (d : Durable) : Prop :=
  (d.next = some .execute ∧ ∃ update, updateAtHand d.phase = some update) ∨
    d.next = some .verify ∨ d.next = some .rollingBack

/-- An action under way was executed since the last restart. -/
def Traced (later : List Label) (d : Durable) : Prop :=
  ∀ action, d.state.proposedAction = some (.str action) → UnderWay d →
    ∃ l ∈ later, Executes action l

theorem Traced.cons {later : List Label} {d' : Durable} {l : Label} (h : Traced later d)
    (hsame : d'.state.proposedAction = d.state.proposedAction) (hback : UnderWay d' → UnderWay d) :
    Traced (l :: later) d' := by
  intro action haction hunder
  obtain ⟨m, hm, hexecutes⟩ := h action (hsame.symm.trans haction) (hback hunder)
  exact ⟨m, List.mem_cons_of_mem l hm, hexecutes⟩

theorem traced_step {later : List Label} {d' : Durable} {l : Label}
    (hbase : Base (idOf runId initialState) d) (h : Traced later d)
    (hs : Step rt SparesLedger (startAgain runId initialState) d l d') : Traced (l :: later) d' := by
  cases hs with
  | performed hnext hidle _ _ _ _ _ =>
    refine h.cons (by rfl) ?_
    rintro (⟨_, update, hupdate⟩ | hverify | hrolling)
    · cases hupdate
    · exact Or.inr (Or.inl hverify)
    · exact Or.inr (Or.inr hrolling)
  | entered hphase =>
    intro action haction _
    exact ⟨_, List.mem_cons_self, _, _, rfl, haction⟩
  | @acted node answers update world hnext hidle _ hnode =>
    by_cases hexecute : node = .execute
    · subst hexecute
      intro action haction _
      exact ⟨_, List.mem_cons_self, _, _, rfl, haction⟩
    · refine h.cons (by rfl) ?_
      rintro (⟨hcontra, _⟩ | hverify | hrolling)
      · exact absurd (Option.some.inj (hnext.symm.trans hcontra)) hexecute
      · exact Or.inr (Or.inl hverify)
      · exact Or.inr (Or.inr hrolling)
  | @recorded node answers update record hnext hphase hrecord =>
    refine h.cons (by rfl) ?_
    rintro (⟨hexecute, _⟩ | hverify | hrolling)
    · exact Or.inl ⟨hexecute, update, by simp [updateAtHand, hphase]⟩
    · exact Or.inr (Or.inl hverify)
    · exact Or.inr (Or.inr hrolling)
  | @checkpointed node update next hnext hphase hroute =>
    have hhand : updateAtHand d.phase = some update := by simp [updateAtHand, hphase]
    obtain ⟨w, w', hacts⟩ := hbase.atHand node update hnext hhand
    have hedge := edge_of_nextNode hroute
    intro action haction hunder
    obtain ⟨hback, hpropose, hawait⟩ : UnderWay d ∧ node ≠ .proposeAction ∧ node ≠ .awaitApproval := by
      rcases hunder with ⟨_, u, hu⟩ | hverify | hrolling
      · cases hu
      · change next = some .verify at hverify
        subst hverify
        cases node with
        | execute => exact ⟨Or.inl ⟨hnext, update, hhand⟩, by simp, by simp⟩
        | _ => cases hedge
      · change next = some .rollingBack at hrolling
        subst hrolling
        cases node with
        | verify => exact ⟨Or.inr (Or.inl hnext), by simp, by simp⟩
        | _ => cases hedge
    exact h.cons (hacts.proposedAction hpropose hawait) (fun _ => hback) action haction hunder
  | killed =>
    intro _ _ hunder
    rcases hunder with ⟨hnext, _⟩ | hnext | hnext <;> cases hnext
  | others _ => exact h.cons (by rfl) id

/-- After a restart an action is verified or compensated only once it is executed. -/
theorem executed_before {action : String} {later older : List Label} {lost : Phase} {node : Node}
    {before : AgentState} {update : Update}
    (run : Trace (durable rt SparesLedger (startAgain runId initialState))
      (begun runId initialState world) (later ++ .killed lost :: older) d)
    (hl : .acted node before update ∈ later) (hnode : node = .verify ∨ node = .rollingBack)
    (haction : before.proposedAction = some (.str action)) : ∃ l ∈ later, Executes action l := by
  obtain ⟨newer, mid, rfl⟩ := List.append_of_mem hl
  obtain ⟨b, first, rest⟩ := run.split
  obtain ⟨c, between, last⟩ := Trace.split rest
  cases between with
  | @snoc _ c₀ _ _ between hs =>
    have htraced : Traced mid c₀ := by
      clear last hs run rest hl
      induction between with
      | start =>
        cases first with
        | snoc first hkill =>
          cases hkill
          intro _ _ hunder
          rcases hunder with ⟨hnext, _⟩ | hnext | hnext <;> cases hnext
      | snoc between hs ih => exact traced_step (run_base (first.trans between)) ih hs
    have hunder : UnderWay c₀ ∧ before = c₀.state := by
      cases hs with
      | entered _ => rcases hnode with hnode | hnode <;> cases hnode
      | acted hnext _ _ _ =>
        rcases hnode with rfl | rfl
        · exact ⟨Or.inr (Or.inl hnext), rfl⟩
        · exact ⟨Or.inr (Or.inr hnext), rfl⟩
    obtain ⟨l, hlmem, hexecutes⟩ := htraced action (hunder.2 ▸ haction) hunder.1
    exact ⟨l, List.mem_append_right newer (List.mem_cons_of_mem _ hlmem), hexecutes⟩

theorem resumed_of_remembered
    (run : Trace (durable rt SparesLedger (startAgain runId initialState))
      (begun runId initialState world) past d) (h : Remembered past) : Resumed past := by
  rintro later lost mid action outcome older rfl hmid
  obtain ⟨newer, l, rest, hsplit, hl⟩ := h (later ++ .killed lost :: mid) action outcome older (by simp)
  have hverify : ∀ passed, Verifies action passed l → l ∈ later → ∃ l ∈ later, Executes action l := by
    rintro passed ⟨before, update, rfl, haction, _⟩ hmem
    exact executed_before run hmem (Or.inl rfl) haction
  have hnot : l ≠ .killed lost := by
    rintro rfl
    rcases hl with ⟨_, _, hcontra, _⟩ | ⟨⟨_, _, hcontra, _⟩, _⟩ <;> cases hcontra
  -- the verification lies after the kill, or before it and then its rollback lies after
  rcases List.append_eq_append_iff.mp hsplit with ⟨middle, rfl, hmiddle⟩ | ⟨middle, rfl, hmiddle⟩
  · cases middle with
    | nil =>
      cases hmiddle
      exact absurd rfl hnot
    | cons _ middle =>
      cases hmiddle
      rcases hl with hpassed | ⟨hfailed, k, hk, hcompensates⟩
      · exact absurd ⟨middle, l, rest, rfl, Or.inl hpassed⟩ hmid
      · rcases List.mem_append.mp hk with hlater | hcons
        · obtain ⟨before, update, rfl, haction, _⟩ := hcompensates
          exact executed_before run hlater (Or.inr rfl) haction
        · rcases List.mem_cons.mp hcons with rfl | hmiddle
          · obtain ⟨_, _, hcontra, _⟩ := hcompensates
            cases hcontra
          · exact absurd ⟨middle, l, rest, rfl, Or.inr ⟨hfailed, k, hmiddle, hcompensates⟩⟩ hmid
  · cases middle with
    | nil =>
      cases hmiddle
      exact absurd rfl hnot
    | cons _ middle =>
      cases hmiddle
      have hmem : l ∈ newer ++ l :: middle := List.mem_append_right newer List.mem_cons_self
      rcases hl with hpassed | ⟨hfailed, _⟩
      · exact hverify true hpassed hmem
      · exact hverify false hfailed hmem

/-- When a run that was restarted any number of times has ended, and no kill lost a
compensation, every performed action is verified and, if it failed, compensated, if and
only if every action that a kill found unsettled was executed again after the kill. -/
theorem none_forgotten_iff
    (run : Trace (durable rt SparesLedger (startAgain runId initialState))
      (begun runId initialState world) past d)
    (hend : d.next = none) (hsafe : ∀ l ∈ past, ¬ Loses l) : Remembered past ↔ Resumed past :=
  ⟨resumed_of_remembered run, remembered_of_resumed run hsafe hend⟩

end Runs

/-! ### Two restarts -/

def executes (action : String) : Label → Bool
  | .acted .execute before _ => before.proposedAction.any (·.isStr action)
  | _ => false

theorem executes_spec {action : String} {l : Label} (h : executes action l = true) :
    Executes action l := by
  unfold executes at h
  split at h
  · exact ⟨_, _, rfl, Json.any_isStr_iff.mp h⟩
  · cases h

/-- Whatever was performed before the kill is executed in the labels after it. -/
def resumes (later : List Label) : Label → Bool
  | .performed action _ => later.any (executes action)
  | _ => true

/-- The labels before the latest kill. -/
def beforeKill (past : List Label) : List Label := past.drop ((since isKill past).length + 1)

/-- After one kill it is enough that all that was performed before it is executed again. -/
theorem resumed_of_once {past : List Label} (hkill : past.any isKill = true)
    (honce : (beforeKill past).all (fun l => !isKill l) = true)
    (h : (beforeKill past).all (resumes (since isKill past)) = true) : Resumed past := by
  obtain ⟨l, hl, hlkill⟩ := List.any_eq_true.mp hkill
  obtain ⟨k, earlier, hsplit, hk⟩ := since_split ⟨l, hl, hlkill⟩
  have hearlier : beforeKill past = earlier := by
    rw [beforeKill]
    generalize since isKill past = later at hsplit ⊢
    subst hsplit
    simp
  rw [hearlier] at honce h
  intro newer lost mid action outcome older hpast _
  rw [hpast] at hsplit
  have hwhere : newer = since isKill past ∧ mid ++ .performed action outcome :: older = earlier := by
    rw [hpast]
    rcases List.append_eq_append_iff.mp hsplit with ⟨middle, hlater, hrest⟩ | ⟨middle, hnewer, hrest⟩
    · cases middle with
      | nil => exact ⟨by simpa using hlater.symm, (List.cons.inj hrest).2⟩
      | cons m middle =>
        obtain ⟨rfl, _⟩ := List.cons.inj hrest
        have hno := not_of_mem_since (show Label.killed lost ∈ since isKill _ by rw [hlater]; simp)
        cases hno
    · cases middle with
      | nil => exact ⟨by simpa using hnewer, (List.cons.inj hrest).2.symm⟩
      | cons m middle =>
        obtain ⟨rfl, rfl⟩ := List.cons.inj hrest
        have hno := List.all_eq_true.mp honce (.killed lost) (by simp)
        cases hno
  obtain ⟨rfl, rfl⟩ := hwhere
  have hresumes := List.all_eq_true.mp h (.performed action outcome) (by simp)
  obtain ⟨m, hm, hexecutes⟩ := List.any_eq_true.mp hresumes
  exact ⟨m, hm, executes_spec hexecutes⟩

/-- From the start of a run to the execution of a low action. -/
def lowMoves (tool target : String) (parameters : Json) : List Move :=
  whole {} ++ whole { proposal := { tool := tool, target := target, parameters := some parameters } } ++
    whole { classification := { tier := "low" } } ++ whole {}

def fiveReplicas : List Move := lowMoves "scale_service" "service_b" (.obj [("replicas", .int 5)])

/-- The process is killed after the scaling is in the ledger; then another action is
proposed. -/
def restartedElsewhere : List Move :=
  fiveReplicas ++ [.perform {}, .act {}, .kill] ++ lowMoves "restart_service" "service_c" (.obj []) ++
    wholeExecution {} ++ whole {} ++ whole {}

/-- The same kill, and the scaling is proposed again. -/
def restartedAgain : List Move :=
  fiveReplicas ++ [.perform {}, .act {}, .kill] ++ fiveReplicas ++ whole {} ++ whole {} ++ whole {}

def loses : Label → Bool
  | .killed (.performed _ _ _ _) => true
  | _ => false

theorem safe_of_check {l : Label} (h : (!loses l) = true) : ¬ Loses l := by
  rintro ⟨_, _, _, _, rfl, _⟩
  cases h

def performs (action : String) : Label → Bool
  | .performed performed _ => decide (performed = action)
  | _ => false

def verifies (action : String) : Label → Bool
  | .acted .verify before _ => before.proposedAction.any (·.isStr action)
  | _ => false

/-- What was never verified is not remembered. -/
theorem forgotten_of_unverified {action : String} {past : List Label}
    (hperformed : past.any (performs action) = true)
    (hnone : past.all (fun l => !verifies action l) = true) : ¬ Remembered past := by
  intro h
  obtain ⟨l, hl, hperforms⟩ := List.any_eq_true.mp hperformed
  unfold performs at hperforms
  split at hperforms
  · rename_i outcome
    cases of_decide_eq_true hperforms
    obtain ⟨later, older, rfl⟩ := List.append_of_mem hl
    obtain ⟨newer, m, rest, rfl, hm⟩ := h later action outcome older rfl
    have hverifies : verifies action m = true := by
      rcases hm with ⟨_, _, rfl, haction, _⟩ | ⟨⟨_, _, rfl, haction, _⟩, _⟩
      · exact Json.any_isStr_iff.mpr haction
      · exact Json.any_isStr_iff.mpr haction
    have hno := List.all_eq_true.mp hnone m (by simp)
    rw [hverifies] at hno
    cases hno
  · cases hperforms

/-- The scaled service is never looked at again, and the run completes. -/
theorem scaling_forgotten :
    ∃ past d, Trace (durable { digest := id } SparesLedger (startAgain "run-1" {}))
        (begun "run-1" {} leaking) past d ∧ d.next = none ∧
      d.state.finalState = some (.str State.completed.value) ∧
      past.any (performs "scale_service:service_b") = true ∧ ¬ Remembered past := by
  obtain ⟨past, d, hplay, hcheck⟩ := played_spec
    (p := fun past d => d.next.isNone && d.state.finalState.any (·.isStr State.completed.value) &&
      past.any (performs "scale_service:service_b") &&
      past.all fun l => !verifies "scale_service:service_b" l)
    (show played (play { digest := id } (startAgain "run-1" {}) restartedElsewhere []
      (begun "run-1" {} leaking)) _ = true by decide +kernel)
  simp only [Bool.and_eq_true, Option.isNone_iff_eq_none] at hcheck
  obtain ⟨⟨⟨hend, hfinal⟩, hperformed⟩, hnone⟩ := hcheck
  exact ⟨past, d, play_trace .start hplay, hend, Json.any_isStr_iff.mp hfinal, hperformed,
    forgotten_of_unverified hperformed hnone⟩

/-- The ledger answers the second proposal of the scaling, which is then verified. -/
theorem scaling_remembered :
    ∃ past d, Trace (durable { digest := id } SparesLedger (startAgain "run-1" {}))
        (begun "run-1" {} leaking) past d ∧ d.next = none ∧
      past.any (performs "scale_service:service_b") = true ∧ past.any isKill = true ∧
      Remembered past := by
  obtain ⟨past, d, hplay, hcheck⟩ := played_spec
    (p := fun past d => d.next.isNone && past.any (performs "scale_service:service_b") &&
      past.any isKill && (beforeKill past).all (fun l => !isKill l) &&
      (beforeKill past).all (resumes (since isKill past)) && past.all fun l => !loses l)
    (show played (play { digest := id } (startAgain "run-1" {}) restartedAgain []
      (begun "run-1" {} leaking)) _ = true by decide +kernel)
  simp only [Bool.and_eq_true, Option.isNone_iff_eq_none] at hcheck
  obtain ⟨⟨⟨⟨⟨hend, hperformed⟩, hkilled⟩, honce⟩, hresumes⟩, hloses⟩ := hcheck
  have run : Trace (durable { digest := id } SparesLedger (startAgain "run-1" {}))
      (begun "run-1" {} leaking) past d := play_trace .start hplay
  have hsafe : ∀ l ∈ past, ¬ Loses l := fun l hl =>
    safe_of_check (List.all_eq_true.mp hloses l hl)
  exact ⟨past, d, run, hend, hperformed, hkilled,
    (none_forgotten_iff run hend hsafe).mpr (resumed_of_once hkilled honce hresumes)⟩

end ForgottenActions
