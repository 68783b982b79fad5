import Mathlib.Data.Option.Basic

/-!
# Taking turns

Jobs under indices, of which one at a time may hold a resource. Either no job holds it and it
is at rest, or one job does, and what is known of the resource is what this job relies on. A
step of one job leaves it so if the others keep their hands off.
-/

namespace TurnTaking

universe u v

variable {ι : Type u} {ρ : Type v}

/-- At most one job holds the resource. -/
inductive Turns (holds : ρ → Prop) (rest : Prop) (relies : ρ → Prop) (job : ι → Option ρ) :
    Prop where
  | free (hfree : ∀ i f, job i = some f → ¬ holds f) (hrest : rest)
  | held {i : ι} {f : ρ} (hi : job i = some f) (hholds : holds f) (hrelies : relies f)
      (halone : ∀ j g, job j = some g → holds g → j = i)

section Steps

variable {holds : ρ → Prop} {rest rest' : Prop} {relies relies' : ρ → Prop}
variable {job job' : ι → Option ρ} {i : ι} {f f' : ρ}

/-- The job that holds the resource knows what it relies on, and is the only one. -/
theorem Turns.holder (h : Turns holds rest relies job) (hi : job i = some f) (hf : holds f) :
    relies f ∧ ∀ j g, job j = some g → holds g → j = i := by
  cases h with
  | free hfree _ => exact absurd hf (hfree i f hi)
  | held hk _ hrelies halone =>
    obtain rfl := halone i f hi hf
    rw [hi, Option.some.injEq] at hk
    subst hk
    exact ⟨hrelies, halone⟩

/-- While nobody holds it, the resource is at rest. -/
theorem Turns.at_rest (h : Turns holds rest relies job)
    (hfree : ∀ i f, job i = some f → ¬ holds f) : rest := by
  cases h with
  | free _ hrest => exact hrest
  | held hi hf _ _ => exact absurd hf (hfree _ _ hi)

/-- A job that holds the resource neither before nor after its step. -/
theorem Turns.pass (h : Turns holds rest relies job) (hothers : ∀ j, j ≠ i → job' j = job j)
    (hbefore : ∀ f, job i = some f → ¬ holds f) (hafter : ∀ f, job' i = some f → ¬ holds f)
    (hrest : rest → rest') (hrelies : ∀ f, relies f → relies' f) :
    Turns holds rest' relies' job' := by
  cases h with
  | free hfree hr =>
    refine .free (fun j g hj => ?_) (hrest hr)
    by_cases hji : j = i
    · subst hji
      exact hafter g hj
    · rw [hothers j hji] at hj
      exact hfree j g hj
  | @held k g hk hg hr halone =>
    have hki : k ≠ i := by
      rintro rfl
      exact hbefore g hk hg
    refine .held ((hothers k hki).trans hk) hg (hrelies g hr) fun j g' hj hg' => ?_
    by_cases hji : j = i
    · subst hji
      exact absurd hg' (hafter g' hj)
    · rw [hothers j hji] at hj
      exact halone j g' hj hg'

/-- A job takes the resource while nobody has it. -/
theorem Turns.take (h : Turns holds rest relies job) (hfree : ∀ j g, job j = some g → ¬ holds g)
    (hothers : ∀ j, j ≠ i → job' j = job j) (hi : job' i = some f) (hf : holds f)
    (hrelies : rest → relies' f) : Turns holds rest' relies' job' := by
  refine .held hi hf (hrelies (h.at_rest hfree)) fun j g hj hg => ?_
  by_contra hji
  rw [hothers j hji] at hj
  exact hfree j g hj hg

/-- The holder goes on with it, or lets it go. -/
theorem Turns.advance (h : Turns holds rest relies job) (hi : job i = some f) (hf : holds f)
    (hothers : ∀ j, j ≠ i → job' j = job j) (hi' : job' i = some f')
    (hnext : relies f → (holds f' ∧ relies' f') ∨ (¬ holds f' ∧ rest')) :
    Turns holds rest' relies' job' := by
  obtain ⟨hrelies, halone⟩ := h.holder hi hf
  have halone' : ∀ j g, job' j = some g → holds g → j = i := by
    intro j g hj hg
    by_contra hji
    rw [hothers j hji] at hj
    exact hji (halone j g hj hg)
  rcases hnext hrelies with ⟨hholds, hrelies'⟩ | ⟨hdone, hrest⟩
  · exact .held hi' hholds hrelies' halone'
  · refine .free (fun j g hj hg => ?_) hrest
    obtain rfl := halone' j g hj hg
    rw [hi', Option.some.injEq] at hj
    subst hj
    exact hdone hg

end Steps

end TurnTaking
