import Interlock.Fleets
import Interlock.Isolation
import Interlock.Neighbours

/-!
# Runs on different services

Any number of runs over one sandbox, one ledger and one audit store, each confined to a
service that no other has. Whatever the order of their turns, each passes through what it
passes through alone, and leaves its service as it does alone.
-/

namespace Noninterference

open Dictionary PythonValues MockService Tools DiagnosticSweep RunState Nodes Graph Walks
open Policies LocalReadings OneService Neighbours Fleets
open Isolation (last_colon)

/-! ### Turns -/

/-- A run attempts its next node at some time. -/
structure Turn (ι : Type) where
  run : ι
  time : String

/-- Several runs, with the decisions each has been given and the audit records so far. -/
structure Company (ι : Type) extends Fleet ι where
  asked : ι → ℕ
  audit : List AuditRecord

variable {ι : Type} [DecidableEq ι]

/-- Runs that have just been started, with nothing in their initial states. -/
def begun (ms : ι → Member) (w : ToolContext) (log : List AuditRecord) : Company ι :=
  { runs := fun i => ⟨(startWorkflow (ms i).runId {} w).state, (startWorkflow (ms i).runId {} w).next⟩
    world := w
    asked := fun _ => 0
    audit := log }

namespace Company

variable (rt : Runtime) (ms : ι → Member) (f : Company ι) (t : Turn ι)

def config : Config :=
  { state := (f.runs t.run).state
    next := (f.runs t.run).next
    world := { f.world with now := t.time }
    audit := f.audit }

def answers : Answers :=
  match (f.runs t.run).next with
  | some node => (ms t.run).policy.answers node ((ms t.run).decision (f.asked t.run)) t.time
      (f.config t).state (f.config t).world
  | none => {}

def attempted : Option Visit × Config := attempt rt (f.answers ms t) (f.config t)

/-- The company after a turn; a run that waits for a decision has been given one. -/
def turn : Company ι :=
  { toFleet := f.toFleet.moved t.run (f.attempted rt ms t).2
    asked := if (f.runs t.run).next = some .awaitApproval then
      Function.update f.asked t.run (f.asked t.run + 1) else f.asked
    audit := (f.attempted rt ms t).2.audit }

/-- The visits of a sequence of turns, each by the run that makes it. -/
def visits : List (Turn ι) → Company ι → List (ι × Visit)
  | [], _ => []
  | t :: rest, f =>
    (f.attempted rt ms t).1.toList.map (Prod.mk t.run) ++ visits rest (f.turn rt ms t)

def after : List (Turn ι) → Company ι → Company ι
  | [], f => f
  | t :: rest, f => after rest (f.turn rt ms t)

end Company

/-- What a run passes through with a visit. -/
structure Passed where
  status : Option Json
  executionResult : Option ExecutionResult
  compensation : Option Compensation
  driftDetected : Option Json
  finalState : Option Json

def passed (v : Visit) : Passed :=
  ⟨v.after.status, v.after.executionResult, v.after.compensation, v.after.driftDetected,
    v.after.finalState⟩

/-- What a run passes through. -/
def passes (i : ι) (vs : List (ι × Visit)) : List Passed :=
  (vs.filter fun x => decide (x.1 = i)).map fun x => passed x.2

/-! ### Keys of different services -/

omit [DecidableEq ι] in
/-- A ledger key ends with the service it was made for. -/
theorem keys_apart {m m' : Member} (h : m.service ≠ m'.service) {key : String} (hkey : m.Key key) :
    ¬ m'.Key key := by
  rintro ⟨hknown', _, ⟨tool', _, rfl⟩, hkey'⟩
  obtain ⟨hknown, _, ⟨tool, _, rfl⟩, rfl⟩ := hkey
  have hcolon : ∀ service ∈ knownServices, ':' ∉ service.toList := by decide
  have hchars : (m.runId.toList ++ ':' :: tool.toList) ++ ':' :: m.service.toList =
      (m'.runId.toList ++ ':' :: tool'.toList) ++ ':' :: m'.service.toList := by
    have hlist := congrArg String.toList hkey'
    simpa [idempotencyKey] using hlist
  have hsame := (last_colon (hcolon _ hknown) (hcolon _ hknown') hchars).2
  exact h (String.toList_inj.mp hsame)

/-! ### What every turn keeps -/

section Turns

variable {rt : Runtime} {ms : ι → Member} {f g : Company ι} {t u : Turn ι} {i : ι}
variable {v w : ToolContext} {now now' : String}

omit [DecidableEq ι] in
theorem sweeps_now : (∃ obs, gatherObservations { w with now := now } = .ok obs) ↔
    ∃ obs, gatherObservations w = .ok obs := by
  rw [gather_ok_iff, gather_ok_iff]
  rfl

omit [DecidableEq ι] in
theorem agree_now {service : String} {Key : String → Prop} (h : Agree service Key v w) :
    Agree service Key { v with now := now } { w with now := now' } :=
  ⟨h.client, h.ledger, sweeps_now.trans (h.sweeps.trans sweeps_now.symm)⟩

/-- Each run's state speaks of its own service, and so does the ledger under its keys. -/
structure Sane (ms : ι → Member) (f : Company ι) : Prop where
  owns : ∀ i, Owns (ms i) (f.runs i).state (f.runs i).next
  entries : ∀ i, OwnsEntries (ms i) f.world

omit [DecidableEq ι] in
theorem attempted_at {node : Node} (hnext : (f.runs t.run).next = some node) :
    f.attempted rt ms t = attempt rt ((ms t.run).policy.answers node
      ((ms t.run).decision (f.asked t.run)) t.time (f.config t).state (f.config t).world)
        (f.config t) := by
  rw [Company.attempted, Company.answers, hnext]

/-- What a turn does to the sandbox, and to the run whose turn it is. -/
theorem turn_kept (hm : (ms t.run).Confined) (h : Sane ms f) :
    Kept (ms t.run).service (ms t.run).Key f.world (f.turn rt ms t).world ∧
      Owns (ms t.run) (f.attempted rt ms t).2.state (f.attempted rt ms t).2.next := by
  have howns := h.owns t.run
  cases hnext : (f.runs t.run).next with
  | none =>
    have hstill : f.attempted rt ms t = (none, f.config t) := attempt_none hnext
    rw [Company.turn, world_moved, hstill]
    exact ⟨⟨fun _ _ => rfl, fun _ _ => rfl, sweeps_now, id⟩, howns⟩
  | some node =>
    rw [hnext] at howns
    have hentries : OwnsEntries (ms t.run) (f.config t).world := h.entries t.run
    have hattempted : f.attempted rt ms t = _ := attempted_at hnext
    obtain ⟨hkept, howns'⟩ :=
      @attempt_kept rt (ms t.run) node (f.config t) t.time (f.asked t.run) hm hnext howns hentries
    rw [← hattempted] at hkept howns'
    refine ⟨⟨hkept.clients, hkept.ledger, hkept.sweeps.trans sweeps_now, hkept.entries⟩, howns'⟩

theorem runs_turn_ne (h : i ≠ t.run) : (f.turn rt ms t).runs i = f.runs i :=
  runs_moved_ne h

theorem asked_turn_ne (h : i ≠ t.run) : (f.turn rt ms t).asked i = f.asked i := by
  simp only [Company.turn]
  split
  · exact Function.update_of_ne h _ _
  · rfl

theorem sane_turn (hm : ∀ i, (ms i).Confined) (hservices : ∀ i j, i ≠ j →
    (ms i).service ≠ (ms j).service) (h : Sane ms f) : Sane ms (f.turn rt ms t) := by
  obtain ⟨hkept, howns⟩ : Kept _ _ _ (f.turn rt ms t).world ∧ _ := turn_kept (hm t.run) h
  constructor
  · intro i
    by_cases hi : i = t.run
    · subst hi
      rw [show (f.turn rt ms t).runs t.run = _ from runs_moved_self]
      exact howns
    · rw [runs_turn_ne hi]
      exact h.owns i
  · intro i key entry hkey hentry
    by_cases hi : i = t.run
    · subst hi
      exact hkept.entries (h.entries t.run) key entry hkey hentry
    · rw [hkept.ledger key (keys_apart (hservices i t.run hi) hkey)] at hentry
      exact h.entries i key entry hkey hentry

omit [DecidableEq ι] in
theorem sane_begun {w : ToolContext} {log : List AuditRecord}
    (hfresh : ∀ i key, (ms i).Key key → w.store.get? key = none) : Sane ms (begun ms w log) := by
  constructor
  · intro i
    refine ⟨rfl, ?_, ?_, ?_, ?_, ?_, ?_⟩
    · exact fun h => absurd rfl h
    · exact fun h => absurd rfl h
    · exact fun j hj => nomatch hj
    · exact fun j hj => nomatch hj
    · exact fun c hc => nomatch hc
    · intro node hplanned hnext
      cases hnext
      exact absurd hplanned (by decide)
  · intro i key entry hkey hentry
    rw [show (begun ms w log).world = w from rfl, hfresh i key hkey] at hentry
    cases hentry

/-! ### A run among others and alone -/

/-- Two companies in which a run stands alike. -/
structure Beside (ms : ι → Member) (i : ι) (f g : Company ι) : Prop where
  next : (f.runs i).next = (g.runs i).next
  asked : f.asked i = g.asked i
  like : Like (ms i).service (f.runs i).state (g.runs i).state
  agree : Agree (ms i).service (ms i).Key f.world g.world

/-- A turn of another run is not noticed. -/
theorem beside_other (hm : ∀ i, (ms i).Confined) (hservices : ∀ i j, i ≠ j →
    (ms i).service ≠ (ms j).service) (hsane : Sane ms f) (h : Beside ms i f g) (hi : i ≠ t.run) :
    Beside ms i (f.turn rt ms t) g := by
  have hkept : Kept _ _ _ (f.turn rt ms t).world := (turn_kept (hm t.run) hsane).1
  constructor
  · rw [runs_turn_ne hi]
    exact h.next
  · rw [asked_turn_ne hi]
    exact h.asked
  · rw [runs_turn_ne hi]
    exact h.like
  · exact h.agree.beside hkept (hservices i t.run hi) fun key =>
      keys_apart (hservices i t.run hi)

theorem passed_like {service : String} {node : Node} {a b : Answers} {before before' after after' :
    AgentState} {wb wb' wa wa' : ToolContext} (h : Like service after after') :
    passed ⟨node, a, before, wb, after, wa⟩ = passed ⟨node, b, before', wb', after', wa'⟩ := by
  rw [passed, passed, h.rest]

/-- A turn of the run itself goes the same way in both companies. -/
theorem beside_own {x y : String} (hm : (ms i).Confined) (hsane : Sane ms f) (h : Beside ms i f g) :
    (f.attempted rt ms ⟨i, x⟩).1.map passed = (g.attempted rt ms ⟨i, y⟩).1.map passed ∧
      Beside ms i (f.turn rt ms ⟨i, x⟩) (g.turn rt ms ⟨i, y⟩) := by
  have hasked : (f.turn rt ms ⟨i, x⟩).asked i = (g.turn rt ms ⟨i, y⟩).asked i := by
    simp only [Company.turn, ← h.next]
    split
    · rw [Function.update_self, Function.update_self, h.asked]
    · exact h.asked
  cases hf : (f.runs i).next with
  | none =>
    have hg := h.next.symm.trans hf
    have hstill : f.attempted rt ms ⟨i, x⟩ = (none, f.config ⟨i, x⟩) := attempt_none hf
    have hstill' : g.attempted rt ms ⟨i, y⟩ = (none, g.config ⟨i, y⟩) := attempt_none hg
    refine ⟨by rw [hstill, hstill'], ?_, hasked, ?_, ?_⟩
    · rw [Company.turn, Company.turn, runs_moved_self, runs_moved_self, hstill, hstill']
      exact h.next
    · rw [Company.turn, Company.turn, runs_moved_self, runs_moved_self, hstill, hstill']
      exact h.like
    · rw [Company.turn, Company.turn, world_moved, world_moved, hstill, hstill']
      exact agree_now h.agree
  | some node =>
    have hg := h.next.symm.trans hf
    have howns := hsane.owns i
    rw [hf] at howns
    have hlevel := @level_attempts rt (ms i) node (f.config ⟨i, x⟩) (g.config ⟨i, y⟩) x y
      (f.asked i) hm hf hg howns h.like (agree_now h.agree) (hsane.entries i)
    have hleft : f.attempted rt ms ⟨i, x⟩ = _ := attempted_at hf
    have hright : g.attempted rt ms ⟨i, y⟩ = _ := attempted_at hg
    rw [← h.asked] at hright
    cases hlevel with
    | raised hc hd habreast =>
      rw [hc] at hleft
      rw [hd] at hright
      refine ⟨by rw [hleft, hright], ?_, hasked, ?_, ?_⟩
      · rw [Company.turn, Company.turn, runs_moved_self, runs_moved_self, hleft, hright]
        exact h.next
      · rw [Company.turn, Company.turn, runs_moved_self, runs_moved_self, hleft, hright]
        exact h.like
      · rw [Company.turn, Company.turn, world_moved, world_moved, hleft, hright]
        exact habreast.agree (agree_now h.agree)
    | visited hc hd hnext hlike habreast =>
      rw [hc] at hleft
      rw [hd] at hright
      refine ⟨?_, ?_, hasked, ?_, ?_⟩
      · rw [hleft, hright]
        exact congrArg some (passed_like hlike)
      · rw [Company.turn, Company.turn, runs_moved_self, runs_moved_self, hleft, hright]
        exact hnext
      · rw [Company.turn, Company.turn, runs_moved_self, runs_moved_self, hleft, hright]
        exact hlike
      · rw [Company.turn, Company.turn, world_moved, world_moved, hleft, hright]
        exact habreast.agree (agree_now h.agree)

end Turns

/-! ### Whole runs -/

section Runs

variable {rt : Runtime} {ms : ι → Member} {i j : ι}

theorem passes_append (us vs : List (ι × Visit)) :
    passes i (us ++ vs) = passes i us ++ passes i vs := by
  rw [passes, List.filter_append, List.map_append]
  rfl

theorem passes_own (visit : Option Visit) :
    passes i (visit.toList.map (Prod.mk i)) = (visit.map passed).toList := by
  cases visit with
  | none => rfl
  | some v => simp [passes]

theorem passes_other (h : i ≠ j) (visit : Option Visit) :
    passes i (visit.toList.map (Prod.mk j)) = [] := by
  cases visit with
  | none => rfl
  | some v => simp [passes, h.symm]

/-- A run among others goes as it goes alone, turn by turn. -/
theorem passes_beside (hm : ∀ i, (ms i).Confined) (hservices : ∀ i j, i ≠ j →
    (ms i).service ≠ (ms j).service) (turns : List (Turn ι)) {f g : Company ι} {times : List String}
    (hsane : Sane ms f) (h : Beside ms i f g)
    (htimes : times.length = turns.countP fun t => decide (t.run = i)) :
    passes i (Company.visits rt ms turns f) =
        passes i (Company.visits rt ms (times.map (Turn.mk i)) g) ∧
      Beside ms i (Company.after rt ms turns f) (Company.after rt ms (times.map (Turn.mk i)) g) := by
  induction turns generalizing f g times with
  | nil =>
    obtain rfl := List.length_eq_zero_iff.mp htimes
    exact ⟨rfl, h⟩
  | cons t rest ih =>
    have hsane' : Sane ms (f.turn rt ms t) := sane_turn hm hservices hsane
    rw [Company.visits, passes_append, Company.after]
    by_cases hi : i = t.run
    · subst hi
      rw [List.countP_cons_of_pos (by simp)] at htimes
      cases times with
      | nil => cases htimes
      | cons y ys =>
        obtain ⟨hpassed, hbeside⟩ := @beside_own ι _ rt ms f g t.run t.time y (hm t.run) hsane h
        obtain ⟨hrest, hend⟩ := ih hsane' hbeside (Nat.succ.inj htimes)
        rw [List.map_cons, Company.visits, passes_append, passes_own, passes_own, Company.after]
        exact ⟨congrArg₂ _ (congrArg Option.toList hpassed) hrest, hend⟩
    · rw [List.countP_cons_of_neg (by simpa using fun heq => hi heq.symm)] at htimes
      rw [passes_other hi]
      exact ih hsane' (beside_other hm hservices hsane h hi) htimes

/-- Whatever the turns of the others, a run passes through what it passes through alone,
and its service ends as it does alone. -/
theorem undisturbed (rt : Runtime) (ms : ι → Member) (hconfined : ∀ i, (ms i).Confined)
    (hservices : ∀ i j, i ≠ j → (ms i).service ≠ (ms j).service) (w : ToolContext)
    (log : List AuditRecord)
    (hfresh : ∀ i action, w.store.get? (idempotencyKey (ms i).runId action) = none)
    (turns : List (Turn ι)) (i : ι) (times : List String)
    (htimes : times.length = turns.countP fun t => decide (t.run = i)) :
    passes i (Company.visits rt ms turns (begun ms w log)) =
        passes i (Company.visits rt ms (times.map (Turn.mk i)) (begun ms w log)) ∧
      (Company.after rt ms turns (begun ms w log)).world.clients.get? (ms i).service =
        (Company.after rt ms (times.map (Turn.mk i)) (begun ms w log)).world.clients.get?
          (ms i).service := by
  have hsane : Sane ms (begun ms w log) := by
    apply sane_begun
    rintro i key ⟨_, action, _, rfl⟩
    exact hfresh i action
  have hstart : Beside ms i (begun ms w log) (begun ms w log) :=
    ⟨rfl, rfl, .refl _ _, .refl _⟩
  obtain ⟨hpasses, hend⟩ := passes_beside hconfined hservices turns hsane hstart htimes
  exact ⟨hpasses, hend.agree.client⟩

end Runs

/-- A run that restarts its service, and has its approval. -/
def restarting (service : String) : Member :=
  { runId := "run-" ++ service
    service := service
    policy :=
      { diagnose := fun _ => "unhealthy"
        propose := fun _ _ _ => { tool := "restart_service", target := service }
        classify := fun _ _ _ _ => { tier := "high" } }
    decision := fun _ => .obj [("decision", .str "approved")] }

theorem confined_restarting (service : String) : (restarting service).Confined := by
  refine ⟨?_, ?_, ?_, ?_⟩
  · exact fun _ _ _ => rfl
  · exact fun _ _ _ _ _ => rfl
  · intro _ _ _
    refine ⟨?_, rfl⟩
    change "restart_service" ∈ serviceTools
    decide
  · intro _ _ h
    have hnone : editedAction (.obj [("decision", .str "approved")]) = .ok none := rfl
    exact absurd (hnone.symm.trans h) (by simp)

/-- Two runs by turns, each on its own service. -/
def byTurns (n : ℕ) : List (Turn Bool) :=
  (List.range n).flatMap fun _ => [⟨true, "2026-01-01T00:00:00"⟩, ⟨false, "2026-01-01T00:00:00"⟩]

def pair (b : Bool) : Member := restarting (if b then "service_a" else "service_b")

theorem undisturbed_pair :
    (passes true (Company.visits { digest := id } pair (byTurns 10)
      (begun pair (freshSandbox []) []))).length = 10 ∧
    passes true (Company.visits { digest := id } pair (byTurns 10)
        (begun pair (freshSandbox []) [])) =
      passes true (Company.visits { digest := id } pair
        ((List.replicate 10 "2026-01-01T00:00:01").map (Turn.mk true))
          (begun pair (freshSandbox []) [])) :=
  ⟨by decide +kernel, (undisturbed { digest := id } pair
    (fun b => confined_restarting (if b then "service_a" else "service_b")) (by decide)
    (freshSandbox []) [] (fun _ _ => rfl) (byTurns 10) true
    (List.replicate 10 "2026-01-01T00:00:01") (by decide)).1⟩

end Noninterference
