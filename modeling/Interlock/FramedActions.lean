import Interlock.PythonValues

/-!
# What an action can do to its world

A relation between the world before an action and the world after it, whether the action
returns or raises. Sequences of actions stay within every relation that is reflexive and
transitive.
-/

namespace FramedActions

open PythonValues

variable {W α β : Type} {R : W → W → Prop}

/-- The world that the action leaves is related to the one it found. -/
def Within (R : W → W → Prop) (act : Action W α) : Prop := ∀ w, R w (act.run w).2

theorem Within.mono {R' : W → W → Prop} {act : Action W α} (h : Within R act)
    (himp : ∀ w w', R w w' → R' w w') : Within R' act :=
  fun w => himp w _ (h w)

section Reflexive

variable [Std.Refl R]

theorem within_pure (a : α) : Within R (pure a) := fun w => refl w

theorem within_lift (x : Except PyError α) : Within R (Action.lift x) := fun w => refl w

theorem within_read (f : W → Except PyError α) : Within R (Action.read f) := fun w => refl w

end Reflexive

theorem within_bind [IsTrans W R] {x : Action W α} {f : α → Action W β} (hx : Within R x)
    (hf : ∀ a, Within R (f a)) : Within R (x >>= f) := by
  intro w
  have hfirst := hx w
  rw [Action.run_bind]
  cases hrun : x.run w with
  | mk r w' =>
    rw [hrun] at hfirst
    cases r with
    | ok a => exact IsTrans.trans _ _ _ hfirst (hf a w')
    | error e => exact hfirst

/-- What `f` reads of the world is the same afterwards. -/
def Same {γ : Type} (f : W → γ) (w w' : W) : Prop := f w' = f w

instance {γ : Type} (f : W → γ) : Std.Refl (Same f) := ⟨fun _ => rfl⟩

instance {γ : Type} (f : W → γ) : IsTrans W (Same f) := ⟨fun _ _ _ h h' => h'.trans h⟩

/-- Only what a computation can return has to be considered after it. -/
theorem within_lift_bind [Std.Refl R] {x : Except PyError α} {f : α → Action W β}
    (hf : ∀ a, x = .ok a → Within R (f a)) : Within R (Action.lift x >>= f) := by
  intro w
  rw [Action.run_bind, Action.run_lift]
  cases x with
  | ok a => exact hf a rfl w
  | error e => exact refl w

end FramedActions
