import Mathlib.Algebra.BigOperators.Group.List.Basic
import Mathlib.Data.List.Induction
import Mathlib.Tactic.Abel
import Interlock.Dictionary

/-!
# Grouping a list

The elements of a list go to the groups of their keys, in their order; an element without
a key goes to none. What adds up along a list adds up over its groups, and a group depends
on the order of the list only in the order of its elements.
-/

namespace Grouping

open Dictionary

universe u v

variable {κ : Type u} {α : Type v} [DecidableEq κ]

/-- `groups.setdefault(key, []).append(a)`. -/
def append (groups : Dict κ (List α)) (k : κ) (a : α) : Dict κ (List α) :=
  groups.set k ((groups.get? k).getD [] ++ [a])

def put (key : α → Option κ) (groups : Dict κ (List α)) (a : α) : Dict κ (List α) :=
  match key a with
  | some k => append groups k a
  | none => groups

def groups (key : α → Option κ) (l : List α) : Dict κ (List α) := l.foldl (put key) .empty

section Sums

variable {M : Type*} [AddCancelCommMonoid M] {β : Type*}

/-- Setting an entry puts its measure in the place of that of the entry before. -/
theorem sum_assign (μ : β → M) (es : List (κ × β)) (k : κ) (x : β) :
    ((assign es k x).map fun e => μ e.2).sum + ((lookup es k).map μ).getD 0 =
      (es.map fun e => μ e.2).sum + μ x := by
  induction es with
  | nil => simp [assign, lookup]
  | cons e rest ih =>
    obtain ⟨a, y⟩ := e
    by_cases ha : a = k
    · simp only [assign, lookup, if_pos ha, List.map_cons, List.sum_cons, Option.map_some,
        Option.getD_some]
      abel
    · simp only [assign, lookup, if_neg ha, List.map_cons, List.sum_cons]
      rw [add_assoc, ih, add_assoc]

theorem sum_set (μ : β → M) (d : Dict κ β) (k : κ) (x : β) :
    ((d.set k x).values.map μ).sum + ((d.get? k).map μ).getD 0 =
      (d.values.map μ).sum + μ x := by
  simp only [Dict.values, List.map_map, Function.comp_def]
  exact sum_assign μ d.entries k x

/-- A measure that adds up along a list adds up over the groups of the list. -/
theorem sum_groups (μ : List α → M) (hnil : μ [] = 0) (happend : ∀ l m, μ (l ++ m) = μ l + μ m)
    (key : α → Option κ) (l : List α) :
    ((groups key l).values.map μ).sum = μ (l.filter fun a => (key a).isSome) := by
  induction l using List.reverseRecOn with
  | nil => simpa [groups, Dict.values, Dict.empty] using hnil.symm
  | append_singleton l a ih =>
    rw [groups, List.foldl_append, List.filter_append, happend, ← ih]
    change ((put key (groups key l) a).values.map μ).sum = _
    cases hkey : key a with
    | none => simp [put, hkey, hnil]
    | some k =>
      have hset := sum_set μ (groups key l) k (((groups key l).get? k).getD [] ++ [a])
      have hold : (((groups key l).get? k).map μ).getD 0 = μ (((groups key l).get? k).getD []) := by
        cases (groups key l).get? k with
        | none => exact hnil.symm
        | some old => rfl
      rw [hold, happend, add_comm (μ _) (μ [a]), ← add_assoc] at hset
      simp only [put, hkey, append, List.filter_cons, Option.isSome_some, if_true, List.filter_nil]
      exact add_right_cancel hset

end Sums

/-- The group of a key holds the elements with that key; there is none without elements. -/
theorem get?_groups (key : α → Option κ) (l : List α) (k : κ) :
    (groups key l).get? k =
      if (l.filter fun a => key a = some k) = [] then none
      else some (l.filter fun a => key a = some k) := by
  induction l using List.reverseRecOn with
  | nil => rfl
  | append_singleton l a ih =>
    rw [groups, List.foldl_append]
    change (put key (groups key l) a).get? k = _
    rw [List.filter_append]
    cases hkey : key a with
    | none => simpa [put, hkey] using ih
    | some j =>
      by_cases hj : j = k
      · subst hj
        have hold : ((groups key l).get? j).getD [] = l.filter fun a => key a = some j := by
          rw [ih]
          split
          · rename_i hempty
            exact hempty.symm
          · rfl
        simp [put, hkey, append, hold]
      · simpa [put, hkey, append, hj, Dict.get?_set] using ih

end Grouping
