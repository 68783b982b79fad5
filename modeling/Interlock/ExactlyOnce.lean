import Interlock.Tools
import Interlock.DiagnosticSweep
import Interlock.Transitions

/-!
# Interrupted and overlapping executions of one key

An execution of a mutating tool awaits three times: it looks its key up, applies
its side effect, and records the outcome. Any number of executions share the
ledger, their awaited steps interleave, and each may be killed between two of
them. A rerun is a further execution.
-/

namespace ExactlyOnce

open Dictionary PythonValues MockService RecordsTable Tools DiagnosticSweep Transitions

/-- How far an execution has come; a killed one keeps the outcome of a side effect
that it did not live to record. -/
inductive Phase where
  | waiting
  | missed
  | performed (outcome : Outcome)
  | finished (result : MutationResult)
  | raised (e : PyError)
  | killed (lost : Option Outcome)

structure State where
  world : ToolContext
  phase : Nat → Phase

/-- The awaited steps of execution `i`, and the kill that may come between them. -/
inductive Act where
  | lookup (i : Nat)
  | perform (i : Nat)
  | record (i : Nat)
  | kill (i : Nat)
  deriving DecidableEq, Repr

/-- The outcome of a side effect that is applied but not recorded. -/
def unrecorded : Phase → Option Outcome
  | .performed outcome => some outcome
  | .killed lost => lost
  | _ => none

def replay (call : ToolCall) (key : String) (existing : LedgerEntry) : MutationResult :=
  ⟨call.toolName, key, true, existing.result, existing.compensation⟩

def fresh (call : ToolCall) (key : String) (outcome : Outcome) : MutationResult :=
  ⟨call.toolName, key, false, outcome.result, outcome.compensation⟩

def enter (s : State) (i : Nat) (p : Phase) : State :=
  { s with phase := Function.update s.phase i p }

section Schedules

variable (calls : Nat → ToolCall) (key : String)

/-- One awaited step; `none` when the execution is not at that step. -/
def act (s : State) : Act → Option State
  | .lookup i =>
    match s.phase i with
    | .waiting =>
      match s.world.store.get? key with
      | some existing => some (enter s i (.finished (replay (calls i) key existing)))
      | none => some (enter s i .missed)
    | _ => none
  | .perform i =>
    match s.phase i with
    | .missed =>
      match (calls i).perform.run s.world with
      | (.ok outcome, w) => some (enter { s with world := w } i (.performed outcome))
      | (.error e, w) => some (enter { s with world := w } i (.raised e))
    | _ => none
  | .record i =>
    match s.phase i with
    | .performed outcome =>
      let w := { s.world with store := s.world.store.setdefault key ((calls i).entry outcome) }
      some (enter { s with world := w } i (.finished (fresh (calls i) key outcome)))
    | _ => none
  | .kill i => some (enter s i (.killed (unrecorded (s.phase i))))

/-- A label carries the state its step was taken in. -/
structure Label where
  act : Act
  before : State

def schedule : System State Label :=
  ⟨fun s l s' => l.before = s ∧ act calls key s l.act = some s'⟩

def initial (world : ToolContext) : State := { world := world, phase := fun _ => .waiting }

/-- The step applies the tool's side effect. -/
def applies (l : Label) : Bool :=
  match l.act with
  | .perform i =>
    match ((calls i).perform.run l.before.world).1 with
    | .ok _ => true
    | .error _ => false
  | _ => false

def sideEffects (past : List Label) : Nat := past.countP (applies calls)

/-- The key is still free: nothing is recorded under it, and no execution, live or
killed, stands between its side effect and its record. -/
def Free (s : State) : Prop :=
  s.world.store.get? key = none ∧ ∀ i, unrecorded (s.phase i) = none

variable {calls key} {s s' : State}

/-! ### What each step does -/

theorem enter_same {i : Nat} {p : Phase} (h : unrecorded p = unrecorded (s.phase i)) (j : Nat) :
    unrecorded ((enter s i p).phase j) = unrecorded (s.phase j) := by
  by_cases hj : j = i
  · subst hj
    simp [enter, h]
  · simp [enter, Function.update_of_ne hj]

theorem act_lookup {i : Nat} (h : act calls key s (.lookup i) = some s') :
    s.phase i = .waiting ∧
      ((∃ existing, s' = enter s i (.finished (replay (calls i) key existing))) ∨
        s.world.store.get? key = none ∧ s' = enter s i .missed) := by
  cases hp : s.phase i with
  | waiting =>
    refine ⟨rfl, ?_⟩
    cases hs : s.world.store.get? key with
    | some existing =>
      simp only [act, hp, hs, Option.some.injEq] at h
      exact Or.inl ⟨existing, h.symm⟩
    | none =>
      simp only [act, hp, hs, Option.some.injEq] at h
      exact Or.inr ⟨rfl, h.symm⟩
  | _ => simp [act, hp] at h

theorem act_perform {i : Nat} (h : act calls key s (.perform i) = some s') :
    s.phase i = .missed ∧
      ((∃ outcome w, (calls i).perform.run s.world = (.ok outcome, w) ∧
          s' = enter { s with world := w } i (.performed outcome)) ∨
        ∃ e w, (calls i).perform.run s.world = (.error e, w) ∧
          s' = enter { s with world := w } i (.raised e)) := by
  cases hp : s.phase i with
  | missed =>
    refine ⟨rfl, ?_⟩
    cases hr : (calls i).perform.run s.world with
    | mk r w =>
      cases r with
      | ok outcome =>
        simp only [act, hp, hr, Option.some.injEq] at h
        exact Or.inl ⟨outcome, w, rfl, h.symm⟩
      | error e =>
        simp only [act, hp, hr, Option.some.injEq] at h
        exact Or.inr ⟨e, w, rfl, h.symm⟩
  | _ => simp [act, hp] at h

theorem act_record {i : Nat} (h : act calls key s (.record i) = some s') :
    ∃ outcome, s.phase i = .performed outcome ∧
      s'.world.store = s.world.store.setdefault key ((calls i).entry outcome) := by
  cases hp : s.phase i with
  | performed outcome =>
    simp only [act, hp, Option.some.injEq] at h
    exact ⟨outcome, rfl, by rw [← h]; rfl⟩
  | _ => simp [act, hp] at h

/-! ### The invariant of a schedule -/

/-- Without a side effect so far nothing is unrecorded, and every execution that
missed the key would miss it still; after one the key is not free any more. -/
structure Tracked (calls : Nat → ToolCall) (key : String) (past : List Label) (s : State) :
    Prop where
  none_unrecorded : sideEffects calls past = 0 → ∀ i, unrecorded (s.phase i) = none
  still_missing : sideEffects calls past = 0 →
    ∀ i, s.phase i = .missed → s.world.store.get? key = none
  not_free : 0 < sideEffects calls past → ¬ Free key s

theorem tracked_initial (world : ToolContext) : Tracked calls key [] (initial world) where
  none_unrecorded := fun _ _ => rfl
  still_missing := by
    intro _ i h
    cases h
  not_free := fun h => absurd h (by simp [sideEffects])

theorem sideEffects_cons_of_not {l : Label} (past : List Label) (h : applies calls l = false) :
    sideEffects calls (l :: past) = sideEffects calls past := by
  simp [sideEffects, h]

theorem sideEffects_cons_of {l : Label} (past : List Label) (h : applies calls l = true) :
    sideEffects calls (l :: past) = sideEffects calls past + 1 := by
  simp [sideEffects, h]

/-- A step that keeps the ledger and every unrecorded outcome keeps the invariant. -/
theorem Tracked.keep {past : List Label} {l : Label} (h : Tracked calls key past s)
    (hcount : applies calls l = false) (hstore : s'.world.store = s.world.store)
    (hsame : ∀ j, unrecorded (s'.phase j) = unrecorded (s.phase j))
    (hmissed : ∀ j, s'.phase j = .missed → s.world.store.get? key = none ∨ s.phase j = .missed) :
    Tracked calls key (l :: past) s' where
  none_unrecorded := by
    rw [sideEffects_cons_of_not past hcount]
    intro hzero j
    rw [hsame j]
    exact h.none_unrecorded hzero j
  still_missing := by
    rw [sideEffects_cons_of_not past hcount]
    intro hzero j hj
    rw [hstore]
    rcases hmissed j hj with hnone | hj
    · exact hnone
    · exact h.still_missing hzero j hj
  not_free := by
    rw [sideEffects_cons_of_not past hcount]
    rintro hpos ⟨hnone, hall⟩
    refine h.not_free hpos ⟨by rw [← hstore]; exact hnone, ?_⟩
    intro j
    rw [← hsame j]
    exact hall j

theorem missed_of_enter {i j : Nat} {p : Phase} (hp : p ≠ .missed)
    (h : (enter s i p).phase j = .missed) : s.phase j = .missed := by
  by_cases hj : j = i
  · subst hj
    exact absurd (by simpa [enter] using h) hp
  · simpa [enter, Function.update_of_ne hj] using h

theorem tracked_step {past : List Label} {l : Label} (h : Tracked calls key past s)
    (hs : (schedule calls key).step s l s') : Tracked calls key (l :: past) s' := by
  obtain ⟨hbefore, hact⟩ := hs
  obtain ⟨a, before⟩ := l
  subst hbefore
  cases a with
  | lookup i =>
    obtain ⟨hwaiting, ⟨existing, rfl⟩ | ⟨hnone, rfl⟩⟩ := act_lookup hact
    · refine h.keep rfl rfl (enter_same (by rw [hwaiting]; rfl)) ?_
      exact fun j hj => Or.inr (missed_of_enter (by simp) hj)
    · exact h.keep rfl rfl (enter_same (by rw [hwaiting]; rfl)) (fun _ _ => Or.inl hnone)
  | perform i =>
    obtain ⟨hmissed, ⟨outcome, w, hrun, rfl⟩ | ⟨e, w, hrun, rfl⟩⟩ := act_perform hact
    · have happlies : applies calls ⟨.perform i, before⟩ = true := by simp [applies, hrun]
      have hcount := sideEffects_cons_of past happlies
      constructor
      · intro hzero
        omega
      · intro hzero
        omega
      · rintro _ ⟨_, hall⟩
        have hi := hall i
        simp [enter, unrecorded] at hi
    · have happlies : applies calls ⟨.perform i, before⟩ = false := by simp [applies, hrun]
      refine h.keep happlies (perform_store hrun) (enter_same (by rw [hmissed]; rfl)) ?_
      exact fun j hj => Or.inr (missed_of_enter (by simp) hj)
  | record i =>
    obtain ⟨outcome, hperformed, hstore⟩ := act_record hact
    have hrecord : applies calls ⟨.record i, before⟩ = false := rfl
    have hcount := sideEffects_cons_of_not past hrecord
    have hpos : 0 < sideEffects calls past := by
      by_contra hzero
      have hnone := h.none_unrecorded (by omega) i
      rw [hperformed] at hnone
      cases hnone
    constructor
    · intro hzero
      omega
    · intro hzero
      omega
    · rintro _ ⟨hnone, _⟩
      rw [hstore, Dict.get?_setdefault] at hnone
      split at hnone
      · cases hnone
      · rename_i hnot
        exact hnot ⟨rfl, hnone⟩
  | kill i =>
    cases hact
    refine h.keep rfl rfl (enter_same rfl) ?_
    exact fun j hj => Or.inr (missed_of_enter (by simp) hj)

theorem tracked {world : ToolContext} {past : List Label}
    (run : Trace (schedule calls key) (initial world) past s) : Tracked calls key past s :=
  run.invariant (tracked_initial world) (fun _ h hs => tracked_step h hs)

/-- The execution that applies its side effect had missed the key. -/
theorem missed_of_applies {l : Label} (hs : (schedule calls key).step s l s')
    (happlies : applies calls l = true) : ∃ i, s.phase i = .missed := by
  obtain ⟨hbefore, hact⟩ := hs
  obtain ⟨a, before⟩ := l
  subst hbefore
  cases a with
  | perform i => exact ⟨i, (act_perform hact).1⟩
  | lookup i => cases happlies
  | record i => cases happlies
  | kill i => cases happlies

/-- Over every schedule of kills, reruns and overlaps, the side effect is applied at
most once exactly if each application finds the key still free. -/
theorem applied_once_iff {world : ToolContext} {past : List Label}
    (run : Trace (schedule calls key) (initial world) past s) :
    sideEffects calls past ≤ 1 ↔
      ∀ l ∈ past, applies calls l = true → Free key l.before := by
  induction run with
  | start => simp [sideEffects]
  | @snoc past b c l run hs ih =>
    have htracked := tracked run
    have hbefore : l.before = b := hs.1
    cases happlies : applies calls l with
    | false =>
      rw [sideEffects_cons_of_not past happlies, ih]
      simp [happlies]
    | true =>
      rw [sideEffects_cons_of past happlies]
      constructor
      · intro hle k hk hkapplies
        have hzero : sideEffects calls past = 0 := by omega
        rcases List.mem_cons.mp hk with rfl | hk
        · obtain ⟨i, hi⟩ := missed_of_applies hs happlies
          rw [hbefore]
          exact ⟨htracked.still_missing hzero i hi, htracked.none_unrecorded hzero⟩
        · exact ih.mp (by omega) k hk hkapplies
      · intro hall
        have hfree := hall l List.mem_cons_self happlies
        rw [hbefore] at hfree
        have hzero : ¬ 0 < sideEffects calls past := fun hpos => htracked.not_free hpos hfree
        omega

/-! ### Concrete schedules -/

/-- The step that an act stands for, with the state that it is taken in. -/
def taken (calls : Nat → ToolCall) (key : String) (s : State) (a : Act) : Option (Label × State) :=
  (act calls key s a).map fun s' => (⟨a, s⟩, s')

def follow (calls : Nat → ToolCall) (key : String) :
    List Act → List Label → State → Option (List Label × State) :=
  enact (taken calls key)

theorem follow_trace {start : State} {acts : List Act} {past labels : List Label}
    (run : Trace (schedule calls key) start past s)
    (h : follow calls key acts past s = some (labels, s')) :
    Trace (schedule calls key) start labels s' := by
  refine enact_trace ?_ run h
  intro a _ b l b' htaken
  obtain ⟨next, hact, hl⟩ := Option.map_eq_some_iff.mp htaken
  cases hl
  exact ⟨rfl, hact⟩

end Schedules

def restartCalls : Nat → ToolCall := fun _ => .restartService "service_a"

def restartKey : String := "run-1:restart_service:service_a"

def restarts (w : ToolContext) : Option Int :=
  (w.clients.get? "service_a").map ServiceState.restartCount

/-- Killed after the restart and before its record, then executed again. -/
def killedUnrecorded : List Act := [.lookup 0, .perform 0, .kill 0, .lookup 1, .perform 1, .record 1]

/-- Executed to the end, killed afterwards, then executed again. -/
def killedRecorded : List Act := [.lookup 0, .perform 0, .record 0, .kill 0, .lookup 1]

/-- An execution killed between its side effect and its record restarts the service
a second time when it is rerun. -/
theorem restarted_twice :
    ∃ past s, Trace (schedule restartCalls restartKey) (initial (freshSandbox [])) past s ∧
      sideEffects restartCalls past = 2 ∧ restarts s.world = some 2 := by
  obtain ⟨past, s, hfollow, hcheck⟩ := played_spec
    (p := fun past s => decide (sideEffects restartCalls past = 2 ∧ restarts s.world = some 2))
    (show played (follow restartCalls restartKey killedUnrecorded []
      (initial (freshSandbox []))) _ = true by decide +kernel)
  exact ⟨past, s, follow_trace .start hfollow, of_decide_eq_true hcheck⟩

/-- A kill after the record is harmless: the rerun is answered from the ledger. -/
theorem applied_once_after_record :
    ∃ past s, Trace (schedule restartCalls restartKey) (initial (freshSandbox [])) past s ∧
      (∀ l ∈ past, applies restartCalls l = true → Free restartKey l.before) ∧
      restarts s.world = some 1 := by
  obtain ⟨past, s, hfollow, hcheck⟩ := played_spec
    (p := fun past s => decide (sideEffects restartCalls past = 1 ∧ restarts s.world = some 1))
    (show played (follow restartCalls restartKey killedRecorded []
      (initial (freshSandbox []))) _ = true by decide +kernel)
  obtain ⟨hcount, hrestarts⟩ := of_decide_eq_true hcheck
  have run := follow_trace .start hfollow
  exact ⟨past, s, run, (applied_once_iff run).mp (by omega), hrestarts⟩

end ExactlyOnce
