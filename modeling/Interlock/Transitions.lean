import Mathlib.Data.List.TakeWhile

/-!
# Labelled runs

A system steps between states under labels, and a run keeps the labels of its
steps with the latest one first. Statements about the past of a run are then
statements about a list, and "since the latest `p`" is a prefix of it.
-/

namespace Transitions

universe u v w

structure System (σ : Type u) (ℓ : Type v) where
  step : σ → ℓ → σ → Prop

variable {σ : Type u} {ℓ : Type v}

/-- A finite run from `a`, its labels listed latest first. -/
inductive Trace (S : System σ ℓ) (a : σ) : List ℓ → σ → Prop where
  | start : Trace S a [] a
  | snoc {past : List ℓ} {b c : σ} {l : ℓ} :
      Trace S a past b → S.step b l c → Trace S a (l :: past) c

namespace Trace

variable {S : System σ ℓ} {a b c : σ} {past later : List ℓ}

theorem trans (first : Trace S a past b) (second : Trace S b later c) :
    Trace S a (later ++ past) c := by
  induction second with
  | start => exact first
  | snoc _ hs ih => exact .snoc ih hs

/-- A property of pasts and states that holds at the start and survives every
step of a run holds along the run. -/
theorem invariant {P : List ℓ → σ → Prop} (initial : P [] a)
    (preserved : ∀ {past b l c}, Trace S a past b → P past b → S.step b l c → P (l :: past) c)
    (run : Trace S a past b) : P past b := by
  induction run with
  | start => exact initial
  | snoc run hs ih => exact preserved run ih hs

/-- Invariants of the states alone need no past. -/
theorem state_invariant {P : σ → Prop} (initial : P a)
    (preserved : ∀ {b l c}, P b → S.step b l c → P c) (run : Trace S a past b) : P b :=
  invariant (P := fun _ s => P s) initial (fun _ h hs => preserved h hs) run

/-- Every label of a run was taken in a state that the run had reached. -/
theorem split (run : Trace S a (later ++ past) c) :
    ∃ b, Trace S a past b ∧ Trace S b later c := by
  induction later generalizing c with
  | nil => exact ⟨c, run, .start⟩
  | cons l rest ih =>
    cases run with
    | snoc run hs =>
      obtain ⟨b, hb, hrest⟩ := ih run
      exact ⟨b, hb, .snoc hrest hs⟩

end Trace

/-- The steps of a system that meet a condition on the state before and the label. -/
def System.restrict (S : System σ ℓ) (C : σ → ℓ → Prop) : System σ ℓ :=
  ⟨fun s l s' => C s l ∧ S.step s l s'⟩

theorem Trace.of_restrict {S : System σ ℓ} {C : σ → ℓ → Prop} {a b : σ} {past : List ℓ}
    (run : Trace (S.restrict C) a past b) : Trace S a past b := by
  induction run with
  | start => exact .start
  | snoc _ hs ih => exact .snoc ih hs.2

/-- Every label of a run meets a condition on the labels before it. -/
def Along (C : List ℓ → ℓ → Prop) : List ℓ → Prop
  | [] => True
  | l :: past => C past l ∧ Along C past

/-- The labels after the latest one satisfying `p`. -/
def since (p : ℓ → Bool) (past : List ℓ) : List ℓ :=
  past.takeWhile (fun l => !p l)

theorem since_cons_of_not {p : ℓ → Bool} {l : ℓ} {past : List ℓ} (h : p l = false) :
    since p (l :: past) = l :: since p past := by
  simp [since, h]

theorem since_cons_of {p : ℓ → Bool} {l : ℓ} {past : List ℓ} (h : p l = true) :
    since p (l :: past) = [] := by
  simp [since, h]

theorem since_append {p : ℓ → Bool} {l : ℓ} {recent older : List ℓ}
    (hrecent : ∀ m ∈ recent, p m = false) (h : p l = true) :
    since p (recent ++ l :: older) = recent := by
  induction recent with
  | nil => exact since_cons_of h
  | cons m rest ih =>
    rw [List.cons_append, since_cons_of_not (hrecent m List.mem_cons_self),
      ih fun m hm => hrecent m (List.mem_cons_of_mem _ hm)]

theorem mem_of_mem_since {p : ℓ → Bool} {l : ℓ} {past : List ℓ} (h : l ∈ since p past) :
    l ∈ past :=
  (List.takeWhile_sublist _).subset h

theorem not_of_mem_since {p : ℓ → Bool} {l : ℓ} {past : List ℓ} (h : l ∈ since p past) :
    p l = false := by
  simpa using List.mem_takeWhile_imp h

/-- Splitting the past at the latest label satisfying `p`. -/
theorem since_split {p : ℓ → Bool} {past : List ℓ} (h : ∃ l ∈ past, p l = true) :
    ∃ l older, past = since p past ++ l :: older ∧ p l = true := by
  induction past with
  | nil => obtain ⟨l, hl, _⟩ := h; cases hl
  | cons m rest ih =>
    cases hm : p m with
    | true => exact ⟨m, rest, by simp [since_cons_of hm], hm⟩
    | false =>
      obtain ⟨l, hl, hp⟩ := h
      have hrest : l ∈ rest := by
        rcases List.mem_cons.mp hl with rfl | hl
        · rw [hm] at hp; cases hp
        · exact hl
      obtain ⟨k, older, hsplit, hk⟩ := ih ⟨l, hrest, hp⟩
      exact ⟨k, older, by rw [since_cons_of_not hm, List.cons_append, ← hsplit], hk⟩

/-! ### Scripts -/

section Scripts

variable {μ : Type w}

/-- The moves of a script, one after the other, as long as each of them stands for a step. -/
def enact (move : σ → μ → Option (ℓ × σ)) : List μ → List ℓ → σ → Option (List ℓ × σ)
  | [], past, s => some (past, s)
  | m :: rest, past, s =>
    match move s m with
    | some (l, s') => enact move rest (l :: past) s'
    | none => none

/-- A script whose moves stand for steps of a system is a run of it. -/
theorem enact_trace {S : System σ ℓ} {move : σ → μ → Option (ℓ × σ)} {moves : List μ} {a s t : σ}
    {past labels : List ℓ}
    (hmove : ∀ m ∈ moves, ∀ s l s', move s m = some (l, s') → S.step s l s')
    (run : Trace S a past s) (h : enact move moves past s = some (labels, t)) :
    Trace S a labels t := by
  induction moves generalizing past s with
  | nil =>
    cases h
    exact run
  | cons m rest ih =>
    rw [enact] at h
    split at h
    · rename_i l s' hm
      have hrest := fun m' hm' => hmove m' (List.mem_cons_of_mem m hm')
      exact ih hrest (run.snoc (hmove m List.mem_cons_self s l s' hm)) h
    · cases h

/-- Only the steps that pass a check. -/
def checked (check : σ → ℓ → Bool) (move : σ → μ → Option (ℓ × σ)) (s : σ) (m : μ) :
    Option (ℓ × σ) :=
  (move s m).filter fun r => check s r.1

theorem checked_spec {check : σ → ℓ → Bool} {move : σ → μ → Option (ℓ × σ)} {s s' : σ} {m : μ}
    {l : ℓ} (h : checked check move s m = some (l, s')) :
    move s m = some (l, s') ∧ check s l = true :=
  Option.filter_eq_some_iff.mp h

/-- A check of where a script has ended. -/
def played (t : Option (List ℓ × σ)) (p : List ℓ → σ → Bool) : Bool :=
  match t with
  | some (labels, s) => p labels s
  | none => false

theorem played_spec {t : Option (List ℓ × σ)} {p : List ℓ → σ → Bool} (h : played t p = true) :
    ∃ labels s, t = some (labels, s) ∧ p labels s = true := by
  cases t with
  | none => cases h
  | some t => exact ⟨t.1, t.2, rfl, h⟩

end Scripts

end Transitions
