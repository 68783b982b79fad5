import Mathlib.Data.List.Basic

/-!
# Calls under keys

A machine that answers a call from its record when the key of the call has succeeded
before, and acts and records otherwise. Over any sequence of calls it ends where it
would have ended without the calls whose key had succeeded.
-/

namespace Replays

/-- A success, and whether it was answered from the record. -/
structure Answer (ρ : Type*) where
  replayed : Bool
  result : ρ

structure Machine (σ κ α ρ ε : Type*) where
  call : α → κ → σ → Except ε (Answer ρ) × σ
  recorded : σ → κ → Option ρ
  hit : ∀ {a k s r}, recorded s k = some r → call a k s = (.ok ⟨true, r⟩, s)
  fresh : ∀ {a k s s' x}, recorded s k = none → call a k s = (.ok x, s') →
    x.replayed = false ∧ recorded s' k = some x.result ∧
      ∀ j, j ≠ k → recorded s' j = recorded s j
  raise : ∀ {a k s s' e}, recorded s k = none → call a k s = (.error e, s') → s' = s

namespace Machine

variable {σ κ α ρ ε : Type*} (M : Machine σ κ α ρ ε)

/-- The state after calls that are made one after another. -/
def after : List (α × κ) → σ → σ
  | [], s => s
  | (a, k) :: rest, s => after rest (M.call a k s).2

/-- The keys that have succeeded once a call under `k` was answered. -/
def succeeded (done : List κ) (k : κ) : Except ε (Answer ρ) → List κ
  | .ok _ => k :: done
  | .error _ => done

/-- The calls without those whose key had succeeded before. -/
def dropReplays [DecidableEq κ] (done : List κ) : List (α × κ) → σ → List (α × κ)
  | [], _ => []
  | (a, k) :: rest, s =>
    if k ∈ done then dropReplays done rest (M.call a k s).2
    else (a, k) :: dropReplays (succeeded done k (M.call a k s).1) rest (M.call a k s).2

section Calls

variable {M} {a : α} {k j : κ} {s s' : σ} {r : ρ} {x : Answer ρ} {e : ε}
variable {calls earlier later : List (α × κ)}

theorem after_append : M.after (earlier ++ later) s = M.after later (M.after earlier s) := by
  induction earlier generalizing s with
  | nil => rfl
  | cons c rest ih => exact ih

theorem recorded_of_success (h : M.call a k s = (.ok x, s')) :
    M.recorded s' k = some x.result := by
  cases hr : M.recorded s k with
  | none => exact (M.fresh hr h).2.1
  | some r =>
    rw [M.hit hr] at h
    cases h
    exact hr

/-- What is recorded stays. -/
theorem recorded_call (h : M.recorded s j = some r) :
    M.recorded (M.call a k s).2 j = some r := by
  cases hr : M.recorded s k with
  | some r' => rw [M.hit hr, h]
  | none =>
    have hne : j ≠ k := by
      rintro rfl
      rw [hr] at h
      cases h
    cases hcall : M.call a k s with
    | mk answer s' =>
      cases answer with
      | ok x => rw [(M.fresh hr hcall).2.2 j hne, h]
      | error e => rw [M.raise hr hcall, h]

theorem recorded_after (h : M.recorded s j = some r) :
    M.recorded (M.after calls s) j = some r := by
  induction calls generalizing s with
  | nil => exact h
  | cons c rest ih => exact ih (recorded_call h)

/-- A key that succeeded before is answered with what it succeeded with, for whatever
the call asks. -/
theorem replays (b : α) (h : M.call a k (M.after earlier s) = (.ok x, s')) :
    M.call b k (M.after (earlier ++ (a, k) :: later) s) =
      (.ok ⟨true, x.result⟩, M.after (earlier ++ (a, k) :: later) s) := by
  apply M.hit
  rw [after_append]
  apply recorded_after (s := (M.call a k (M.after earlier s)).2)
  rw [h]
  exact recorded_of_success h

/-- A key that nothing succeeded with is not recorded. -/
theorem unrecorded (h : M.recorded s k = none)
    (hcalls : ∀ earlier a later x s', calls = earlier ++ (a, k) :: later →
      M.call a k (M.after earlier s) ≠ (.ok x, s')) :
    M.recorded (M.after calls s) k = none := by
  induction calls generalizing s with
  | nil => exact h
  | cons c rest ih =>
    obtain ⟨a, j⟩ := c
    apply ih
    · cases hr : M.recorded s j with
      | some r => rw [M.hit hr, h]
      | none =>
        cases hcall : M.call a j s with
        | mk answer s' =>
          cases answer with
          | error e => rw [M.raise hr hcall, h]
          | ok x =>
            have hne : k ≠ j := by
              rintro rfl
              exact hcalls [] a rest x s' rfl hcall
            rw [(M.fresh hr hcall).2.2 k hne, h]
    · intro earlier b later x s' hrest
      exact hcalls ((a, j) :: earlier) b later x s' (by rw [hrest]; rfl)

variable [DecidableEq κ]

/-- The dropped calls make no difference. -/
theorem after_dropReplays {done : List κ} (h : ∀ k ∈ done, ∃ r, M.recorded s k = some r) :
    M.after (M.dropReplays done calls s) s = M.after calls s := by
  induction calls generalizing s done with
  | nil => rfl
  | cons c rest ih =>
    obtain ⟨a, k⟩ := c
    rw [dropReplays, after]
    split
    · rename_i hmem
      obtain ⟨r, hr⟩ := h k hmem
      rw [M.hit hr]
      exact ih h
    · rw [after]
      apply ih
      have hold : ∀ j ∈ done, ∃ r, M.recorded (M.call a k s).2 j = some r := by
        intro j hj
        obtain ⟨r, hr⟩ := h j hj
        exact ⟨r, recorded_call hr⟩
      cases hcall : M.call a k s with
      | mk answer s' =>
        rw [hcall] at hold
        cases answer with
        | error e => exact hold
        | ok x =>
          intro j hj
          rcases List.mem_cons.mp hj with rfl | hj
          · exact ⟨x.result, recorded_of_success hcall⟩
          · exact hold j hj

end Calls

end Machine

end Replays
