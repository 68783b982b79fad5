import Mathlib.Algebra.Order.BigOperators.Group.Finset
import Mathlib.Data.Fintype.Card
import Interlock.Transitions

/-!
# Tasks behind a semaphore

Tasks over a shared world, of which no more than a fixed number is inside at a time. A task
enters when there is room, works step by step until it has finished, and leaves. Which task
takes the next step is open, and so is which of the waiting tasks enters next.
-/

namespace BoundedGather

open Transitions

universe u v w

inductive Place where
  | waiting
  | inside
  | returned
  deriving DecidableEq, Repr

/-- What tasks do between two awaits, to their own states and to the world. -/
structure Work (ι : Type u) (S : Type v) (W : Type w) where
  act : ι → S → W → S → W → Prop
  finished : S → Bool

structure Pool (ι : Type u) (S : Type v) (W : Type w) where
  place : ι → Place
  task : ι → S
  world : W

inductive Label (ι : Type u) where
  | entered (i : ι)
  | worked (i : ι)
  | left (i : ι)

variable {ι : Type u} {S : Type v} {W : Type w} [Fintype ι] [DecidableEq ι]

/-- The tasks that hold a permit. -/
def Pool.inside (p : Pool ι S W) : Finset ι := Finset.univ.filter fun i => p.place i = .inside

/-- `gather` returns once every task has. -/
def Pool.Gathered (p : Pool ι S W) : Prop := ∀ i, p.place i = .returned

inductive Step (work : Work ι S W) (limit : ℕ) : Pool ι S W → Label ι → Pool ι S W → Prop where
  | entered {p : Pool ι S W} {i : ι} (hwaiting : p.place i = .waiting)
      (hroom : p.inside.card < limit) :
      Step work limit p (.entered i) { p with place := Function.update p.place i .inside }
  | worked {p : Pool ι S W} {i : ι} {s : S} {w : W} (hinside : p.place i = .inside)
      (hunfinished : work.finished (p.task i) = false)
      (hact : work.act i (p.task i) p.world s w) :
      Step work limit p (.worked i) { p with task := Function.update p.task i s, world := w }
  | left {p : Pool ι S W} {i : ι} (hinside : p.place i = .inside)
      (hfinished : work.finished (p.task i) = true) :
      Step work limit p (.left i) { p with place := Function.update p.place i .returned }

def pool (work : Work ι S W) (limit : ℕ) : System (Pool ι S W) (Label ι) := ⟨Step work limit⟩

/-- All tasks are created at once, and none has entered yet. -/
def gather (task : ι → S) (world : W) : Pool ι S W :=
  { place := fun _ => .waiting, task := task, world := world }

section Runs

variable {work : Work ι S W} {limit : ℕ} {p q : Pool ι S W} {l : Label ι} {past : List (Label ι)}

/-- A permit is only given while there is one. -/
theorem inside_step (h : p.inside.card ≤ limit) (hs : Step work limit p l q) :
    q.inside.card ≤ limit := by
  cases hs with
  | @entered i _ hroom =>
    have hsub : Pool.inside { p with place := Function.update p.place i .inside } ⊆
        insert i p.inside := by
      intro j hj
      by_cases hji : j = i
      · exact Finset.mem_insert.mpr (Or.inl hji)
      · refine Finset.mem_insert_of_mem ?_
        simpa [Pool.inside, Function.update_of_ne hji] using hj
    calc (Pool.inside { p with place := Function.update p.place i .inside }).card
        ≤ (insert i p.inside).card := Finset.card_le_card hsub
      _ ≤ p.inside.card + 1 := Finset.card_insert_le i p.inside
      _ ≤ limit := hroom
  | worked => exact h
  | @left i _ _ =>
    refine le_trans (Finset.card_le_card ?_) h
    intro j hj
    by_cases hji : j = i
    · subst hji
      simp [Pool.inside] at hj
    · simpa [Pool.inside, Function.update_of_ne hji] using hj

theorem inside_le {task : ι → S} {world : W}
    (run : Trace (pool work limit) (gather task world) past p) : p.inside.card ≤ limit := by
  refine run.state_invariant (P := fun p => p.inside.card ≤ limit) ?_ fun h hs => inside_step h hs
  simp [Pool.inside, gather]

/-- Whoever has returned had finished. -/
theorem returned_finished {task : ι → S} {world : W}
    (run : Trace (pool work limit) (gather task world) past p) {i : ι}
    (h : p.place i = .returned) : work.finished (p.task i) = true := by
  have hall : ∀ j, p.place j = .returned → work.finished (p.task j) = true := by
    refine run.state_invariant
      (P := fun p => ∀ j, p.place j = .returned → work.finished (p.task j) = true) ?_ ?_
    · intro j hj
      cases hj
    · intro p l q h hs
      cases hs with
      | @entered i _ _ =>
        intro j hj
        by_cases hji : j = i
        · subst hji
          simp at hj
        · exact h j (by simpa [Function.update_of_ne hji] using hj)
      | @worked i s w hinside _ _ =>
        intro j hj
        by_cases hji : j = i
        · subst hji
          simp only [hinside] at hj
          cases hj
        · simpa [Function.update_of_ne hji] using h j hj
      | @left i _ hfinished =>
        intro j hj
        by_cases hji : j = i
        · subst hji
          exact hfinished
        · exact h j (by simpa [Function.update_of_ne hji] using hj)
  exact hall i h

end Runs

/-! ### That it ends

Work that can always go on and gets shorter with every step brings every task back, and in
no more steps than were left at the beginning. -/

/-- Under an invariant, unfinished work can go on, and every step of it makes it shorter. -/
structure Shortens (work : Work ι S W) (rank : S → ℕ) (I : (ι → S) → W → Prop) : Prop where
  kept : ∀ {task world i s w}, I task world → work.finished (task i) = false →
    work.act i (task i) world s w → I (Function.update task i s) w
  shorter : ∀ {task world i s w}, I task world → work.finished (task i) = false →
    work.act i (task i) world s w → rank s < rank (task i)
  goes_on : ∀ {task world i}, I task world → work.finished (task i) = false →
    ∃ s w, work.act i (task i) world s w

/-- What a task still costs: its work, and the steps into the semaphore and out of it. -/
def left (rank : S → ℕ) (p : Pool ι S W) (i : ι) : ℕ :=
  match p.place i with
  | .waiting => rank (p.task i) + 2
  | .inside => rank (p.task i) + 1
  | .returned => 0

def load (rank : S → ℕ) (p : Pool ι S W) : ℕ := ∑ i, left rank p i

section Ending

variable {work : Work ι S W} {limit : ℕ} {rank : S → ℕ} {I : (ι → S) → W → Prop}
  {p q : Pool ι S W} {l : Label ι} {past : List (Label ι)}

omit [DecidableEq ι] in
/-- A step that lowers what one task costs, and leaves the others, lowers the load. -/
theorem load_lt {i : ι} (hi : left rank q i < left rank p i)
    (hothers : ∀ j, j ≠ i → left rank q j = left rank p j) : load rank q < load rank p := by
  refine Finset.sum_lt_sum (fun j _ => ?_) ⟨i, Finset.mem_univ i, hi⟩
  by_cases hji : j = i
  · subst hji
    exact hi.le
  · exact (hothers j hji).le

theorem load_step (hwork : Shortens work rank I) (h : I p.task p.world)
    (hs : Step work limit p l q) : load rank q < load rank p := by
  cases hs with
  | @entered i hwaiting _ =>
    refine load_lt (i := i) ?_ fun j hj => ?_
    · simp [left, hwaiting]
    · simp [left, Function.update_of_ne hj]
  | @worked i s w hinside hunfinished hact =>
    refine load_lt (i := i) ?_ fun j hj => ?_
    · simpa [left, hinside] using hwork.shorter h hunfinished hact
    · simp [left, Function.update_of_ne hj]
  | @left i hinside _ =>
    refine load_lt (i := i) ?_ fun j hj => ?_
    · simp [left, hinside]
    · simp [left, Function.update_of_ne hj]

theorem kept_step (hwork : Shortens work rank I) (h : I p.task p.world)
    (hs : Step work limit p l q) : I q.task q.world := by
  cases hs with
  | entered => exact h
  | worked _ hunfinished hact => exact hwork.kept h hunfinished hact
  | left => exact h

/-- No run is longer than the load it started with. -/
theorem steps_le (hwork : Shortens work rank I) (hstart : I p.task p.world)
    (run : Trace (pool work limit) p past q) :
    I q.task q.world ∧ past.length + load rank q ≤ load rank p := by
  induction run with
  | start => exact ⟨hstart, by simp⟩
  | snoc _ hs ih =>
    obtain ⟨hkept, hle⟩ := ih
    have hlt := load_step hwork hkept hs
    refine ⟨kept_step hwork hkept hs, ?_⟩
    rw [List.length_cons]
    omega

/-- Nobody is stuck: while a task is out, some task can step. -/
theorem step_of_not_gathered (hwork : Shortens work rank I) (hlimit : 0 < limit)
    (h : I p.task p.world) (hout : ¬p.Gathered) : ∃ l q, Step work limit p l q := by
  by_cases hinside : ∃ j, p.place j = .inside
  · obtain ⟨j, hj⟩ := hinside
    cases hfinished : work.finished (p.task j) with
    | true => exact ⟨_, _, .left hj hfinished⟩
    | false =>
      obtain ⟨s, w, hact⟩ := hwork.goes_on h hfinished
      exact ⟨_, _, .worked hj hfinished hact⟩
  · -- nobody holds a permit, so whoever is out waits for one and there is one
    obtain ⟨i, hi⟩ := not_forall.mp hout
    have hwaiting : p.place i = .waiting := by
      cases hplace : p.place i with
      | waiting => rfl
      | inside => exact absurd ⟨i, hplace⟩ hinside
      | returned => exact absurd hplace hi
    have hempty : p.inside = ∅ :=
      Finset.filter_eq_empty_iff.mpr fun j _ hj => hinside ⟨j, hj⟩
    exact ⟨_, _, .entered hwaiting (by rw [hempty]; simpa using hlimit)⟩

/-- Every run can be finished. -/
theorem can_gather (hwork : Shortens work rank I) (hlimit : 0 < limit) (h : I p.task p.world) :
    ∃ past q, Trace (pool work limit) p past q ∧ q.Gathered := by
  induction hload : load rank p using Nat.strong_induction_on generalizing p with
  | _ n ih =>
    by_cases hout : p.Gathered
    · exact ⟨[], p, .start, hout⟩
    · obtain ⟨l, r, hs⟩ := step_of_not_gathered hwork hlimit h hout
      obtain ⟨past, q, run, hq⟩ :=
        ih _ (hload ▸ load_step hwork h hs) (kept_step hwork h hs) rfl
      exact ⟨_, q, Trace.trans (Trace.snoc .start hs) run, hq⟩

end Ending

end BoundedGather
