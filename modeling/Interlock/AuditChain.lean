import Interlock.AuditRecords
import Interlock.DurableRuns
import Mathlib

/-!
# The audit log of a run that is killed

The record of a visit is written before its checkpoint. A node that was killed in between
is rerun from the state before it, so that it is recorded twice and its second record does
not go on where the first one ended.
-/

namespace AuditChain

open PythonValues Tools Execution RunState Nodes Graph Transitions
open AuditRecords DurableRuns

/-! ### Replay -/

/-- `sorted(records, key=lambda r: r["timestamp"])`. -/
def ordered (records : List AuditRecord) : List AuditRecord :=
  records.insertionSort fun a b => a.timestamp ≤ b.timestamp

def replayRun (records : List AuditRecord) : List String :=
  (ordered records).filterMap fun r => r.toState.filter (· ≠ "")

def isCompleteChain (records : List AuditRecord) : Bool :=
  ((ordered records).zip (ordered records).tail).all fun (previous, current) =>
    decide (current.fromState = previous.toState)

/-- The second record goes on where the first one ended. -/
def Follows (previous current : AuditRecord) : Prop := current.fromState = previous.toState

theorem all_zip_tail_iff {records : List AuditRecord} :
    ((records.zip records.tail).all fun (previous, current) =>
      decide (current.fromState = previous.toState)) = true ↔ records.IsChain Follows := by
  induction records with
  | nil => simp
  | cons r rest ih =>
    cases rest with
    | nil => simp
    | cons s rest =>
      rw [List.isChain_cons_cons, ← ih]
      simp [Follows]

/-- The stamps never go back. -/
def Stamped (records : List AuditRecord) : Prop :=
  records.Pairwise fun a b => a.timestamp ≤ b.timestamp

instance (records : List AuditRecord) : Decidable (Stamped records) :=
  inferInstanceAs (Decidable (records.Pairwise _))

theorem isCompleteChain_iff {records : List AuditRecord} (h : Stamped records) :
    isCompleteChain records = true ↔ records.IsChain Follows := by
  rw [isCompleteChain, ordered, h.insertionSort_eq]
  exact all_zip_tail_iff

/-- A state that a record can show. -/
def Shown (status : Option Json) : Prop := ∃ t, status = some (.str t) ∧ t ≠ ""

/-- The states that the records show, as entries of the run's state. -/
def toStates (records : List AuditRecord) : List (Option Json) :=
  records.map fun r => r.toState.map Json.str

theorem replayed_of_shown {records : List AuditRecord}
    (h : ∀ status ∈ toStates records, Shown status) :
    ((records.filterMap fun r => r.toState.filter (· ≠ "")).map fun t => some (Json.str t)) =
      toStates records := by
  induction records with
  | nil => rfl
  | cons r rest ih =>
    simp only [toStates, List.map_cons, List.forall_mem_cons] at h
    obtain ⟨⟨t, ht, hne⟩, hrest⟩ := h
    obtain ⟨u, hu, hut⟩ := Option.map_eq_some_iff.mp ht
    cases hut
    have hkept : r.toState.filter (· ≠ "") = some t := by
      rw [hu]
      simp [hne]
    simp only [List.filterMap_cons, hkept, List.map_cons, toStates]
    rw [hu]
    exact congrArg _ (ih hrest)

/-- With stamps in order the replay lists what the records show as they were written. -/
theorem replayRun_eq {records : List AuditRecord} (hstamped : Stamped records)
    (h : ∀ status ∈ toStates records, Shown status) :
    (replayRun records).map (fun t => some (Json.str t)) = toStates records := by
  rw [replayRun, ordered, hstamped.insertionSort_eq]
  exact replayed_of_shown h

/-! ### Statuses -/

theorem shown_value (s : State) : Shown (some (.str s.value)) := by
  refine ⟨s.value, rfl, ?_⟩
  cases s <;> decide

/-! ### Records and checkpoints -/

/-- The statuses that the checkpointed visits left, in order. -/
def completedStates (past : List Label) : List (Option Json) :=
  (past.filterMap fun
    | .checkpointed after => some after.status
    | _ => none).reverse

/-- The kill fell between a record and its checkpoint. -/
def isStray : Label → Bool
  | .killed (.recorded _) => true
  | _ => false

/-- The status that the latest record shows: that of the checkpoint, or of the update that
waits for one. -/
def reached (d : Durable) : List (Option Json) :=
  match d.phase with
  | .recorded update => [(d.state.merge update).status]
  | _ => []

/-- What holds of the log in every run. -/
structure Logged (past : List Label) (d : Durable) : Prop where
  busy : d.phase ≠ .idle → ∃ node, d.next = some node
  status : d.next ≠ some .diagnose → Shown d.state.status
  update : ∀ update, updateAtHand d.phase = some update → Shown (d.state.merge update).status
  shown : ∀ status ∈ toStates d.audit, Shown status
  count : d.audit.length =
    (completedStates past).length + past.countP isStray + (reached d).length

section Logging

variable {rt : Runtime} {others : ToolContext → ToolContext → Prop} {past : List Label}
variable {d d' : Durable} {l : Label}

/-- The record that is written shows the status of the update, and that of the checkpoint
before it. -/
theorem record_shows {node : Node} {answers : Answers} {update : Update} {record : AuditRecord}
    (h : auditRecord answers.clock node d.state update = .ok record) :
    Shows record ⟨node, answers, d.state, d.world, d.state.merge update, d.world⟩ :=
  shows_of_auditRecord rfl h

theorem toState_eq {model field : String} {x : Option Json} {y : Option String}
    (hshown : Shown x) (h : asOptionalStr model field x = .ok y) : y.map Json.str = x := by
  obtain ⟨t, rfl, _⟩ := hshown
  rw [(shown_iff h).mpr rfl]
  rfl

/-- A record shows the status that its visit left. -/
theorem toStates_append {log : List AuditRecord} {record : AuditRecord} {v : Visit}
    (hshown : Shown v.after.status) (h : Shows record v) :
    toStates (log ++ [record]) = toStates log ++ [v.after.status] := by
  have hto := toState_eq hshown h.toState
  simp only [toStates, List.map_append, List.map_cons, List.map_nil]
  rw [hto]

theorem shown_merged {node : Node} {answers : Answers} {update : Update} {world : ToolContext}
    (hnext : d.next = some node) (hstatus : d.next ≠ some .diagnose → Shown d.state.status)
    (hnode : (nodeFn rt answers node d.state).run d.world = (.ok update, world)) :
    Shown (d.state.merge update).status := by
  rcases (acts hnode).status with ⟨s, hs⟩ | ⟨hawait, hkept⟩
  · rw [hs]
    exact shown_value s
  · rw [hkept]
    apply hstatus
    rw [hnext, hawait]
    simp

theorem logged_step (h : Logged past d) (hs : Step rt others rerun d l d') :
    Logged (l :: past) d' := by
  cases hs with
  | performed hnext hidle _ _ _ _ _ =>
    refine ⟨fun _ => ⟨_, hnext⟩, h.status, ?_, h.shown, ?_⟩
    · intro update hupdate
      cases hupdate
    · simpa [completedStates, isStray, reached, hidle] using h.count
  | entered hphase =>
    refine ⟨fun _ => h.busy (by simp [hphase]), h.status, ?_, h.shown, ?_⟩
    · intro update hupdate
      cases hupdate
      exact shown_value .executing
    · simpa [completedStates, isStray, reached, hphase] using h.count
  | acted hnext hidle _ hnode =>
    refine ⟨fun _ => ⟨_, hnext⟩, h.status, ?_, h.shown, ?_⟩
    · intro update hupdate
      cases hupdate
      exact shown_merged (d := d) hnext h.status hnode
    · simpa [completedStates, isStray, reached, hidle] using h.count
  | @recorded node answers update record hnext hphase hrecord =>
    have hshown : Shown (d.state.merge update).status := h.update update (by simp [updateAtHand, hphase])
    refine ⟨fun _ => ⟨_, hnext⟩, h.status, ?_, ?_, ?_⟩
    · intro u hu
      cases hu
      exact hshown
    · intro status hstatus
      rw [toStates_append hshown (record_shows hrecord), List.mem_append,
        List.mem_singleton] at hstatus
      rcases hstatus with hstatus | rfl
      · exact h.shown status hstatus
      · exact hshown
    · have hcount := h.count
      simp only [reached, hphase, List.length_nil] at hcount
      simp only [List.length_append, List.length_singleton, hcount]
      simp [completedStates, isStray, reached]
  | @checkpointed node update next hnext hphase _ =>
    have hshown : Shown (d.state.merge update).status := h.update update (by simp [updateAtHand, hphase])
    refine ⟨fun hbusy => absurd rfl hbusy, fun _ => hshown, ?_, h.shown, ?_⟩
    · intro u hu
      cases hu
    · have hcount := h.count
      simp only [reached, hphase, List.length_singleton] at hcount
      simp only [completedStates, List.length_reverse] at hcount ⊢
      simp [isStray, reached]
      omega
  | killed =>
    refine ⟨fun hbusy => absurd rfl hbusy, h.status, ?_, h.shown, ?_⟩
    · intro u hu
      cases hu
    · have hcount := h.count
      simp only [rerun]
      cases hphase : d.phase with
      | recorded update =>
        have hstray : isStray (.killed (.recorded update)) = true := rfl
        simp only [reached, hphase, List.length_singleton] at hcount
        rw [List.countP_cons_of_pos hstray]
        simp only [completedStates, reached, List.length_nil] at hcount ⊢
        simp only [List.filterMap_cons]
        omega
      | _ =>
        simp only [reached, hphase, List.length_nil] at hcount
        simpa [completedStates, isStray, reached] using hcount
  | others _ =>
    refine ⟨h.busy, h.status, h.update, h.shown, ?_⟩
    simpa [completedStates, isStray, reached] using h.count

/-- The status that the next record has to start from. -/
def current (d : Durable) : Option Json :=
  match d.phase with
  | .recorded update => (d.state.merge update).status
  | _ => d.state.status

/-- What holds of the log as long as no kill strayed: the records are those of the
checkpointed visits, and of the one whose checkpoint is still to come. -/
structure Chained (past : List Label) (d : Durable) : Prop where
  chain : d.audit.IsChain Follows
  states : toStates d.audit = completedStates past ++ reached d
  last : ∀ record, d.audit.getLast? = some record → record.toState.map Json.str = current d

/-- A record follows the ones that led to its visit. -/
theorem chain_append {log : List AuditRecord} {record : AuditRecord} {v : Visit}
    (hshown : ∀ status ∈ toStates log, Shown status) (hchain : log.IsChain Follows)
    (hlast : ∀ previous, log.getLast? = some previous →
      previous.toState.map Json.str = v.before.status)
    (h : Shows record v) : (log ++ [record]).IsChain Follows := by
  apply List.isChain_append.mpr
  refine ⟨hchain, List.isChain_singleton record, ?_⟩
  intro previous hprevious current hcurrent
  cases hcurrent
  have hstatus := hlast previous hprevious
  have hmem : previous.toState.map Json.str ∈ toStates log :=
    List.mem_map_of_mem (List.mem_of_getLast? hprevious)
  obtain ⟨t, ht, _⟩ := hshown _ hmem
  obtain ⟨u, hu, hut⟩ := Option.map_eq_some_iff.mp ht
  cases hut
  have hfrom : record.fromState = some t := (shown_iff h.fromState).mpr (hstatus.symm.trans ht)
  exact hfrom.trans hu.symm

theorem chained_step (hlogged : Logged past d) (h : Chained past d)
    (hs : Step rt others rerun d l d') (hstray : isStray l = false) : Chained (l :: past) d' := by
  cases hs with
  | performed _ hidle _ _ _ _ _ =>
    refine ⟨h.chain, ?_, ?_⟩
    · simpa [completedStates, reached, hidle] using h.states
    · simpa [current, hidle] using h.last
  | entered hphase =>
    refine ⟨h.chain, ?_, ?_⟩
    · simpa [completedStates, reached, hphase] using h.states
    · simpa [current, hphase] using h.last
  | acted _ hidle _ _ =>
    refine ⟨h.chain, ?_, ?_⟩
    · simpa [completedStates, reached, hidle] using h.states
    · simpa [current, hidle] using h.last
  | @recorded node answers update record _ hphase hrecord =>
    have hshown : Shown (d.state.merge update).status :=
      hlogged.update update (by simp [updateAtHand, hphase])
    have hlast := h.last
    have hstates := h.states
    simp only [current, hphase] at hlast
    simp only [reached, hphase, List.append_nil] at hstates
    refine ⟨chain_append hlogged.shown h.chain hlast (record_shows hrecord), ?_, ?_⟩
    · rw [toStates_append hshown (record_shows hrecord), hstates]
      rfl
    · intro r hr
      rw [List.getLast?_concat] at hr
      cases hr
      exact toState_eq hshown (record_shows hrecord).toState
  | @checkpointed node update next _ hphase _ =>
    refine ⟨h.chain, ?_, ?_⟩
    · simpa [completedStates, reached, hphase] using h.states
    · simpa [current, hphase] using h.last
  | killed =>
    have hkept : reached d = [] ∧ current d = d.state.status := by
      cases hphase : d.phase with
      | recorded update =>
        rw [hphase] at hstray
        cases hstray
      | _ => simp [reached, current, hphase]
    have hstates := h.states
    have hlast := h.last
    rw [hkept.1] at hstates
    rw [hkept.2] at hlast
    exact ⟨h.chain, by simpa [completedStates, rerun, reached] using hstates, hlast⟩
  | others _ =>
    refine ⟨h.chain, ?_, ?_⟩
    · simpa [completedStates, reached] using h.states
    · simpa [current] using h.last

end Logging

/-! ### Runs -/

section Runs

variable {rt : Runtime} {others : ToolContext → ToolContext → Prop} {runId : String}
variable {initialState : AgentState} {world : ToolContext} {past : List Label} {d : Durable}

theorem run_logged
    (run : Trace (durable rt others rerun) (begun runId initialState world) past d) :
    Logged past d := by
  apply run.invariant (P := Logged)
  · refine ⟨fun hbusy => absurd rfl hbusy, fun hnext => absurd rfl hnext, ?_, ?_, rfl⟩
    · intro update hupdate
      cases hupdate
    · intro status hstatus
      cases hstatus
  · intro past b l c _ h hs
    exact logged_step h hs

theorem run_chained
    (run : Trace (durable rt others rerun) (begun runId initialState world) past d)
    (hstrays : ∀ l ∈ past, isStray l = false) : Chained past d := by
  induction run with
  | start => exact ⟨List.isChain_nil, rfl, fun r hr => by cases hr⟩
  | snoc run hs ih =>
    obtain ⟨hl, hpast⟩ := List.forall_mem_cons.mp hstrays
    exact chained_step (run_logged run) (ih hpast) hs hl

/-- When a run has ended under clocks that do not go back, its log is a complete chain that
lists each checkpointed transition once and in order if and only if no kill fell between
an audit record and its checkpoint. -/
theorem chain_complete_iff
    (run : Trace (durable rt others rerun) (begun runId initialState world) past d)
    (hend : d.next = none) (hstamped : Stamped d.audit) :
    isCompleteChain d.audit = true ∧
        (replayRun d.audit).map (fun t => some (Json.str t)) = completedStates past ↔
      ∀ l ∈ past, isStray l = false := by
  have hlogged := run_logged run
  have hidle : d.phase = .idle := by
    by_contra hbusy
    obtain ⟨node, hnode⟩ := hlogged.busy hbusy
    rw [hend] at hnode
    cases hnode
  rw [isCompleteChain_iff hstamped, replayRun_eq hstamped hlogged.shown]
  constructor
  · rintro ⟨_, hstates⟩
    have hlength := congrArg List.length hstates
    have hcount := hlogged.count
    simp only [toStates, List.length_map] at hlength
    simp only [reached, hidle, List.length_nil] at hcount
    have hnone : past.countP isStray = 0 := by omega
    intro l hl
    simpa using List.countP_eq_zero.mp hnone l hl
  · intro hstrays
    have hchained := run_chained run hstrays
    refine ⟨hchained.chain, ?_⟩
    rw [hchained.states, reached, hidle, List.append_nil]

end Runs

/-! ### Two ends of a run -/

/-- A restart of a leaking service, classified low. -/
def restartMoves : List Move :=
  whole { proposal := { tool := "restart_service", target := "service_c" }, clock := "02" } ++
    whole { classification := { tier := "low" }, clock := "03" } ++ whole { clock := "04" } ++
    wholeExecution { clock := "05" } ++ whole { clock := "06" } ++ whole { clock := "07" }

/-- The process is killed after it has recorded the diagnosis. -/
def killedAfterRecord : List Move :=
  [.act { clock := "00" }, .record, .kill] ++ whole { clock := "01" } ++ restartMoves

/-- The process is killed before it has recorded the diagnosis. -/
def killedBeforeRecord : List Move :=
  [.act { clock := "00" }, .kill] ++ whole { clock := "01" } ++ restartMoves

/-- The second process has a clock that is behind that of the first. -/
def killedBetweenClocks : List Move := whole { clock := "08" } ++ [.kill] ++ restartMoves

/-- The rerun diagnosis is recorded a second time, and its record does not follow. -/
theorem diagnosis_recorded_twice :
    ∃ past d, Trace (durable { digest := id } (fun _ _ => False) rerun)
        (begun "run-1" {} leaking) past d ∧ d.next = none ∧ Stamped d.audit ∧
      isCompleteChain d.audit = false ∧
      (replayRun d.audit).map (fun t => some (Json.str t)) ≠ completedStates past := by
  obtain ⟨past, d, hplay, hcheck⟩ := played_spec
    (p := fun past d => d.next.isNone && decide (Stamped d.audit) && !isCompleteChain d.audit &&
      decide ((replayRun d.audit).length ≠ (completedStates past).length))
    (show played (play { digest := id } rerun killedAfterRecord [] (begun "run-1" {} leaking)) _ =
      true by decide +kernel)
  simp only [Bool.and_eq_true, decide_eq_true_eq, Option.isNone_iff_eq_none, Bool.not_eq_true'] at hcheck
  obtain ⟨⟨⟨hend, hstamped⟩, hchain⟩, hlength⟩ := hcheck
  refine ⟨past, d, play_trace .start hplay, hend, hstamped, hchain, ?_⟩
  intro hsame
  exact hlength (by rw [← hsame, List.length_map])

/-- Without a stray kill, a clock that goes back breaks the chain as well. -/
theorem broken_by_clock :
    ∃ past d, Trace (durable { digest := id } (fun _ _ => False) rerun)
        (begun "run-1" {} leaking) past d ∧ d.next = none ∧ (∀ l ∈ past, isStray l = false) ∧
      isCompleteChain d.audit = false := by
  obtain ⟨past, d, hplay, hcheck⟩ := played_spec
    (p := fun past d => d.next.isNone && !isCompleteChain d.audit && past.all fun l => !isStray l)
    (show played (play { digest := id } rerun killedBetweenClocks []
      (begun "run-1" {} leaking)) _ = true by decide +kernel)
  simp only [Bool.and_eq_true, Option.isNone_iff_eq_none, List.all_eq_true,
    Bool.not_eq_true'] at hcheck
  obtain ⟨⟨hend, hchain⟩, hstrays⟩ := hcheck
  exact ⟨past, d, play_trace .start hplay, hend, hstrays, hchain⟩

/-- A kill before the record is not seen in the log. -/
theorem chain_after_early_kill :
    ∃ past d, Trace (durable { digest := id } (fun _ _ => False) rerun)
        (begun "run-1" {} leaking) past d ∧ past.any isKill = true ∧
      isCompleteChain d.audit = true ∧
      (replayRun d.audit).map (fun t => some (Json.str t)) = completedStates past := by
  obtain ⟨past, d, hplay, hcheck⟩ := played_spec
    (p := fun past d => d.next.isNone && decide (Stamped d.audit) &&
      past.any isKill && past.all fun l => !isStray l)
    (show played (play { digest := id } rerun killedBeforeRecord [] (begun "run-1" {} leaking)) _ =
      true by decide +kernel)
  simp only [Bool.and_eq_true, decide_eq_true_eq, Option.isNone_iff_eq_none, List.all_eq_true,
    Bool.not_eq_true'] at hcheck
  obtain ⟨⟨⟨hend, hstamped⟩, hkilled⟩, hstrays⟩ := hcheck
  have run : Trace (durable { digest := id } (fun _ _ => False) rerun) (begun "run-1" {} leaking)
      past d := play_trace .start hplay
  exact ⟨past, d, run, hkilled, (chain_complete_iff run hend hstamped).mpr hstrays⟩

end AuditChain
