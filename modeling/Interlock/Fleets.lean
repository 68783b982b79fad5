import Interlock.PlanningCycle

/-!
# Fleets

Several runs over one sandbox. Any run of the fleet may visit its next node at any time,
and each visit sees what the visits of all runs before it left.
-/

namespace Fleets

open Tools RunState Nodes Graph Transitions

/-- Where a run of the fleet stands. -/
structure Standing where
  state : AgentState
  next : Option Node

structure Fleet (ι : Type) where
  runs : ι → Standing
  world : ToolContext

variable {ι : Type}

/-- One run of the fleet, over the shared sandbox. -/
def Fleet.config (f : Fleet ι) (i : ι) : Config :=
  { state := (f.runs i).state, next := (f.runs i).next, world := f.world }

/-- A visit of one run, which leaves the others where they stand. -/
structure Moves (rt : Runtime) (f : Fleet ι) (i : ι) (v : Visit) (next : Option Node)
    (f' : Fleet ι) : Prop where
  led : v.Led rt next
  at_node : (f.runs i).next = some v.node
  before : v.before = (f.runs i).state
  worldBefore : v.worldBefore = f.world
  after : f'.runs i = ⟨v.after, next⟩
  world : f'.world = v.worldAfter
  others : ∀ j, j ≠ i → f'.runs j = f.runs j

theorem Moves.still {rt : Runtime} {f f' : Fleet ι} {i : ι} {v : Visit} {next : Option Node}
    (h : Moves rt f i v next f') (hsame : v.worldAfter = v.worldBefore) : f'.world = f.world := by
  rw [h.world, hsame, h.worldBefore]

variable [DecidableEq ι]

/-- The fleet after run `i` has got to `c`. -/
def Fleet.moved (f : Fleet ι) (i : ι) (c : Config) : Fleet ι :=
  { runs := Function.update f.runs i ⟨c.state, c.next⟩, world := c.world }

section Moved

variable {f : Fleet ι} {i j : ι} {c : Config}

@[simp] theorem runs_moved_self : (f.moved i c).runs i = ⟨c.state, c.next⟩ :=
  Function.update_self i _ f.runs

theorem runs_moved_ne (h : j ≠ i) : (f.moved i c).runs j = f.runs j :=
  Function.update_of_ne h _ f.runs

@[simp] theorem world_moved : (f.moved i c).world = c.world := rfl

end Moved

/-- A run visits its next node. -/
inductive Step (rt : Runtime) : Fleet ι → ι × Visit → Fleet ι → Prop where
  | visit {f : Fleet ι} {i : ι} {node : Node} {answers : Answers} {c : Config}
      (hnext : (f.runs i).next = some node) (hstep : (step rt answers (f.config i)).1 = .ok c) :
      Step rt f (i, ⟨node, answers, (f.runs i).state, f.world, c.state, c.world⟩) (f.moved i c)

def fleet (ι : Type) [DecidableEq ι] (rt : Runtime) : System (Fleet ι) (ι × Visit) := ⟨Step rt⟩

theorem moves_of_step {rt : Runtime} {f f' : Fleet ι} {i : ι} {v : Visit}
    (h : Step rt f (i, v) f') : ∃ next, Moves rt f i v next f' := by
  cases h with
  | visit hnext hstep =>
    exact ⟨_, step_ok (c := f.config i) hnext hstep, hnext, rfl, rfl, runs_moved_self, rfl,
      fun j hj => runs_moved_ne hj⟩

/-! ### Scripts -/

/-- The visit that a run of the fleet makes with these answers. -/
def move (rt : Runtime) (f : Fleet ι) (m : ι × Answers) : Option ((ι × Visit) × Fleet ι) :=
  match (f.runs m.1).next, (step rt m.2 (f.config m.1)).1 with
  | some node, .ok c =>
    some ((m.1, ⟨node, m.2, (f.runs m.1).state, f.world, c.state, c.world⟩), f.moved m.1 c)
  | _, _ => none

theorem step_of_move {rt : Runtime} {f f' : Fleet ι} {m : ι × Answers} {l : ι × Visit}
    (h : move rt f m = some (l, f')) : Step rt f l f' ∧ l.2.answers = m.2 := by
  rw [move] at h
  split at h
  · rename_i hnext hstep
    cases h
    exact ⟨.visit hnext hstep, rfl⟩
  · cases h

/-- The visits of a script, each by the run that makes it, as long as they pass a check. -/
def play (rt : Runtime) (check : Fleet ι → ι × Visit → Bool) :
    List (ι × Answers) → List (ι × Visit) → Fleet ι → Option (List (ι × Visit) × Fleet ι) :=
  enact (checked check (move rt))

/-- A played script is a run whose steps meet what the check stands for, each with
answers of the script. -/
theorem play_trace {rt : Runtime} {check : Fleet ι → ι × Visit → Bool}
    {C : Fleet ι → ι × Visit → Prop} {a f f' : Fleet ι} {moves : List (ι × Answers)}
    {past labels : List (ι × Visit)}
    (hcheck : ∀ f i v, check f (i, v) = true → (∃ m ∈ moves, v.answers = m.2) → C f (i, v))
    (run : Trace ((fleet ι rt).restrict C) a past f)
    (h : play rt check moves past f = some (labels, f')) :
    Trace ((fleet ι rt).restrict C) a labels f' := by
  refine enact_trace ?_ run h
  rintro m hm f ⟨i, v⟩ f' hmove
  obtain ⟨hmove, hpassed⟩ := checked_spec hmove
  obtain ⟨hstep, hanswers⟩ := step_of_move hmove
  exact ⟨hcheck f i v hpassed ⟨m, hm, hanswers⟩, hstep⟩

end Fleets
