import Interlock.Fleets
import Interlock.IsoTimestamps
import Interlock.RecordedVisits

/-!
# Runs that share an audit store

Any number of runs writes to one store, each record stamped by a clock that never goes
back. The records of a run are those with its id: they stand in the order of their stamps,
and the replay of them is what the run went through.
-/

namespace SharedLog

open PythonValues Tools DiagnosticSweep RunState Nodes Graph Transitions Walks
open Fleets (Fleet Standing runs_moved_self runs_moved_ne)
open AuditRecords AuditChain RecordedVisits IsoTimestamps

/-- `get_run(run_id)`. -/
def getRun (runId : String) (records : List AuditRecord) : List AuditRecord :=
  records.filter fun r => decide (r.runId = runId)

structure Store (ι : Type) extends Fleet ι where
  audit : List AuditRecord
  clock : Moment

inductive Label (ι : Type) where
  | visit (i : ι) (v : Visit)
  | others
  | foreign

variable {ι : Type}

namespace Store

def config (f : Store ι) (i : ι) : Config :=
  { state := (f.runs i).state, next := (f.runs i).next, world := f.world, audit := f.audit }

end Store

/-- The visits of a run, the latest first. -/
def visitsOf [DecidableEq ι] (i : ι) (past : List (Label ι)) : List Visit :=
  past.filterMap fun
    | .visit j v => if j = i then some v else none
    | _ => none

/-- A run visits its next node, somebody changes the sandbox, or another writer of the
store records a run of its own. -/
inductive Step [DecidableEq ι] (rt : Runtime) (ids : ι → String) :
    Store ι → Label ι → Store ι → Prop where
  | visit {f : Store ι} {i : ι} {node : Node} {answers : Answers} {now : Moment} {c : Config}
      (hnext : (f.runs i).next = some node) (hnow : f.clock ≤ now)
      (hclock : answers.clock = now.isoformat) (hstep : (step rt answers (f.config i)).1 = .ok c) :
      Step rt ids f (.visit i ⟨node, answers, (f.runs i).state, f.world, c.state, c.world⟩)
        { toFleet := f.moved i c, audit := c.audit, clock := now }
  | others {f : Store ι} {world : ToolContext} :
      Step rt ids f .others { f with world := world }
  | foreign {f : Store ι} {record : AuditRecord} (h : ∀ i, record.runId ≠ ids i) :
      Step rt ids f .foreign { f with audit := f.audit ++ [record] }

def shared [DecidableEq ι] (rt : Runtime) (ids : ι → String) : System (Store ι) (Label ι) :=
  ⟨Step rt ids⟩

/-- Runs that have just been started over a store with records of other runs. -/
def begun (ids : ι → String) (initial : ι → AgentState) (world : ToolContext)
    (log : List AuditRecord) (clock : Moment) : Store ι where
  runs := fun i => ⟨(startWorkflow (ids i) (initial i) world).state,
    (startWorkflow (ids i) (initial i) world).next⟩
  world := world
  audit := log
  clock := clock

/-! ### The records of one run -/

/-- What holds of the records of a run at any time. -/
structure Written (runId : String) (vs : List Visit) (log : List AuditRecord) (st : Standing)
    (clock : Moment) : Prop where
  ownId : st.state.runId = some (.str runId)
  recorded : Recorded vs (getRun runId log) st.state st.next
  stamped : Stamped (getRun runId log)
  stamps : ∀ r ∈ getRun runId log, r.timestamp ≤ clock.isoformat

section Written

variable {runId : String} {vs : List Visit} {log : List AuditRecord} {st : Standing}
variable {clock now : Moment} {record : AuditRecord}

theorem getRun_snoc_other (h : record.runId ≠ runId) :
    getRun runId (log ++ [record]) = getRun runId log := by
  rw [getRun, List.filter_append, List.filter_cons_of_neg (by simpa using h)]
  exact List.append_nil _

theorem getRun_snoc_own (h : record.runId = runId) :
    getRun runId (log ++ [record]) = getRun runId log ++ [record] := by
  rw [getRun, List.filter_append, List.filter_cons_of_pos (by simpa using h)]
  rfl

theorem written_later (h : Written runId vs log st clock) (hnow : clock ≤ now) :
    Written runId vs log st now :=
  ⟨h.ownId, h.recorded, h.stamped, fun r hr => (h.stamps r hr).trans (isoformat_le hnow)⟩

theorem written_other (h : Written runId vs log st clock) (hother : record.runId ≠ runId) :
    Written runId vs (log ++ [record]) st clock := by
  refine ⟨h.ownId, ?_, ?_, ?_⟩
  · rw [getRun_snoc_other hother]
    exact h.recorded
  · rw [getRun_snoc_other hother]
    exact h.stamped
  · rw [getRun_snoc_other hother]
    exact h.stamps

/-- A record of the run itself stands at the end, and is stamped last. -/
theorem written_own {rt : Runtime} {v : Visit} {next : Option Node}
    (h : Written runId vs log ⟨v.before, some v.node⟩ clock) (hled : v.Led rt next)
    (htells : Tells record v) (hnow : clock ≤ now) (hclock : v.answers.clock = now.isoformat) :
    Written runId (v :: vs) (log ++ [record]) ⟨v.after, next⟩ now := by
  have hkept : v.after.runId = some (.str runId) := (led_kept hled).runId.trans h.ownId
  have hown : record.runId = runId := by
    have hshown := htells.runId
    rw [hkept, Option.some.injEq, Json.str.injEq] at hshown
    exact hshown.symm
  have hstamp : record.timestamp = now.isoformat := htells.timestamp.trans hclock
  have hbefore : ∀ r ∈ getRun runId log, r.timestamp ≤ now.isoformat := (written_later h hnow).stamps
  refine ⟨hkept, ?_, ?_, ?_⟩
  · rw [getRun_snoc_own hown]
    exact recorded_visit h.recorded hled htells
  · rw [getRun_snoc_own hown]
    apply List.pairwise_append.mpr
    refine ⟨h.stamped, List.pairwise_singleton _ _, ?_⟩
    intro r hr r' hr'
    rw [List.mem_singleton.mp hr', hstamp]
    exact hbefore r hr
  · intro r hr
    rw [getRun_snoc_own hown, List.mem_append, List.mem_singleton] at hr
    rcases hr with hr | rfl
    · exact hbefore r hr
    · exact hstamp.le

end Written

/-! ### Any order of turns -/

section Runs

variable [DecidableEq ι] {rt : Runtime} {ids : ι → String} {past : List (Label ι)}
variable {f f' : Store ι} {l : Label ι} {i : ι}

theorem visitsOf_own (v : Visit) : visitsOf i (.visit i v :: past) = v :: visitsOf i past := by
  simp [visitsOf]

theorem visitsOf_other {j : ι} (h : i ≠ j) (v : Visit) :
    visitsOf i (.visit j v :: past) = visitsOf i past := by
  simp [visitsOf, h.symm]

theorem written_step (hids : Function.Injective ids)
    (h : ∀ i, Written (ids i) (visitsOf i past) f.audit (f.runs i) f.clock)
    (hs : Step rt ids f l f') (i : ι) :
    Written (ids i) (visitsOf i (l :: past)) f'.audit (f'.runs i) f'.clock := by
  cases hs with
  | @visit j node answers now c hnext hnow hclock hstep =>
    obtain ⟨record, haudit, htells⟩ := step_record (c := f.config j) hnext hstep
    have hled := step_ok (c := f.config j) hnext hstep
    rw [show c.audit = f.audit ++ [record] from haudit]
    by_cases hi : i = j
    · subst hi
      have hbefore : Written (ids i) (visitsOf i past) f.audit
          ⟨(f.runs i).state, some node⟩ f.clock := by
        rw [← hnext]
        exact h i
      rw [visitsOf_own, runs_moved_self]
      exact written_own hbefore hled htells hnow hclock
    · have hother : record.runId ≠ ids i := by
        intro hsame
        have hshown : c.state.runId = some (.str record.runId) := htells.runId
        have hkept : c.state.runId = (f.runs j).state.runId := (led_kept hled).runId
        rw [hkept, (h j).ownId, Option.some.injEq, Json.str.injEq, hsame] at hshown
        exact hi (hids hshown).symm
      rw [visitsOf_other hi, runs_moved_ne hi]
      exact written_other (written_later (h i) hnow) hother
  | others => exact h i
  | foreign hrecord => exact written_other (h i) (hrecord i)

end Runs

/-- The replay of a run's records is what the run went through, and each decision stands in
the record of the node that was resumed with it, and nowhere else. -/
structure Reconstructed (records : List AuditRecord) (vs : List Visit) : Prop where
  inOrder : ordered records = records
  replayed : (replayRun records).map (fun t => some (Json.str t)) = vs.map fun v => v.after.status
  complete : isCompleteChain records = true
  decisions : records.map (fun r => (r.decision, r.actor)) = vs.map told

theorem told_of_tells {records : List AuditRecord} {vs : List Visit}
    (h : List.Forall₂ Tells records vs) :
    records.map (fun r => (r.decision, r.actor)) = vs.map told := by
  induction h with
  | nil => rfl
  | cons htells _ ih => rw [List.map_cons, List.map_cons, ih, htells.told]

/-- Whatever else shares the store, the log of a run that is not killed reconstructs it. -/
theorem runs_reconstructed [DecidableEq ι] (rt : Runtime) (ids : ι → String)
    (initial : ι → AgentState) (world : ToolContext) (log : List AuditRecord) (clock : Moment)
    (hids : Function.Injective ids)
    (hinitial : ∀ i, (initial i).runId.getD (.str (ids i)) = .str (ids i))
    (hlog : ∀ r ∈ log, ∀ i, r.runId ≠ ids i) {past : List (Label ι)} {f : Store ι}
    (run : Trace (shared rt ids) (begun ids initial world log clock) past f) (i : ι) :
    Reconstructed (getRun (ids i) f.audit) (visitsOf i past).reverse := by
  have hwritten : ∀ i, Written (ids i) (visitsOf i past) f.audit (f.runs i) f.clock := by
    refine run.invariant
      (P := fun past f => ∀ i, Written (ids i) (visitsOf i past) f.audit (f.runs i) f.clock) ?_ ?_
    · intro i
      have hnone : getRun (ids i) log = [] := by
        rw [getRun, List.filter_eq_nil_iff]
        intro r hr
        simpa using hlog r hr i
      have hown : (startWorkflow (ids i) (initial i) world).state.runId = some (.str (ids i)) :=
        congrArg some (hinitial i)
      refine ⟨hown, ?_, ?_, ?_⟩
      · rw [show (begun ids initial world log clock).audit = log from rfl, hnone]
        exact recorded_nil
      · rw [show (begun ids initial world log clock).audit = log from rfl, hnone]
        exact List.Pairwise.nil
      · rw [show (begun ids initial world log clock).audit = log from rfl, hnone]
        exact fun r hr => nomatch hr
    · intro past f l f' _ h hs
      exact written_step hids h hs
  obtain ⟨_, hrecorded, hstamped, _⟩ := hwritten i
  constructor
  · exact hstamped.insertionSort_eq
  · rw [replayRun_eq hstamped hrecorded.shown, hrecorded.states]
  · exact (isCompleteChain_iff hstamped).mpr hrecorded.chain
  · exact told_of_tells hrecorded.told

/-! ### Scripts -/

section Scripts

variable [DecidableEq ι] {rt : Runtime} {ids : ι → String}

/-- The visit that a run makes with these answers, when the clock shows this moment. -/
def move (rt : Runtime) (f : Store ι) (m : ι × Answers × Moment) : Option (Label ι × Store ι) :=
  match (f.runs m.1).next,
      (step rt { m.2.1 with clock := m.2.2.isoformat } (f.config m.1)).1 with
  | some node, .ok c =>
    if f.clock ≤ m.2.2 then
      some (.visit m.1 ⟨node, { m.2.1 with clock := m.2.2.isoformat }, (f.runs m.1).state, f.world,
        c.state, c.world⟩, { toFleet := f.moved m.1 c, audit := c.audit, clock := m.2.2 })
    else none
  | _, _ => none

theorem step_of_move {f f' : Store ι} {m : ι × Answers × Moment} {l : Label ι}
    (h : move rt f m = some (l, f')) : (shared rt ids).step f l f' := by
  rw [move] at h
  split at h
  · rename_i hnext hstep
    split at h
    · rename_i hnow
      cases h
      exact .visit hnext hnow rfl hstep
    · cases h
  · cases h

def play (rt : Runtime) : List (ι × Answers × Moment) → List (Label ι) → Store ι →
    Option (List (Label ι) × Store ι) :=
  enact (move rt)

theorem play_trace {a f f' : Store ι} {moves : List (ι × Answers × Moment)}
    {past labels : List (Label ι)} (run : Trace (shared rt ids) a past f)
    (h : play rt moves past f = some (labels, f')) : Trace (shared rt ids) a labels f' :=
  enact_trace (fun _ _ _ _ _ => step_of_move) run h

end Scripts

/-- Two readings a second: at its start and one microsecond later. -/
def reading (n : ℕ) : Moment :=
  ⟨2026, 1, 5, 9, 30, n / 2 % 60, n % 2, by decide, by decide, by decide, by decide, by decide,
    Nat.mod_lt _ (by decide), lt_of_lt_of_le (Nat.mod_lt _ (by decide)) (by decide)⟩

def pairIds (b : Bool) : String := if b then "run-1" else "run-2"

def restart (service : String) : Proposal := { tool := "restart_service", target := service }

/-- One run restarts a service; the other one waits for an approval that times out. -/
def twoRuns : List (Bool × Answers × Moment) :=
  [(true, {}, reading 0), (false, {}, reading 1),
    (true, { proposal := restart "service_a" }, reading 1),
    (false, { proposal := restart "service_b" }, reading 2),
    (false, { classification := { tier := "high" } }, reading 3), (false, {}, reading 3),
    (true, { classification := { tier := "low" } }, reading 4),
    (false, { decision := .obj [("decision", .str "timeout")] }, reading 4), (true, {}, reading 5),
    (true, {}, reading 6), (false, {}, reading 7), (true, {}, reading 8), (true, {}, reading 8)]

/-- Both runs end, and the log of each reconstructs it. -/
theorem two_runs_reconstructed :
    ∃ past f, Trace (shared { digest := id } pairIds)
        (begun pairIds (fun _ => {}) (freshSandbox []) [] (reading 0)) past f ∧
      (f.runs true).next = none ∧ (f.runs false).next = none ∧
      ∀ i, Reconstructed (getRun (pairIds i) f.audit) (visitsOf i past).reverse := by
  have hplay : (play { digest := id } twoRuns []
      (begun pairIds (fun _ => {}) (freshSandbox []) [] (reading 0))).any (fun t =>
        decide ((t.2.runs true).next = none) && decide ((t.2.runs false).next = none)) = true := by
    decide +kernel
  obtain ⟨⟨past, f⟩, hplay, hcheck⟩ := (Option.any_eq_true _ _).mp hplay
  simp only [Bool.and_eq_true, decide_eq_true_eq] at hcheck
  have run : Trace (shared { digest := id } pairIds)
      (begun pairIds (fun _ => {}) (freshSandbox []) [] (reading 0)) past f :=
    play_trace .start hplay
  exact ⟨past, f, run, hcheck.1, hcheck.2, runs_reconstructed { digest := id } pairIds
    (fun _ => {}) (freshSandbox []) [] (reading 0) (by decide) (fun _ => rfl)
    (fun _ hr => nomatch hr) run⟩

end SharedLog
