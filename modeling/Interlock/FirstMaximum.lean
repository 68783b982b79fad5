import Mathlib.Data.List.MinMax

/-!
# The first of the largest

A list and a key for its elements: the element with the largest key that comes first.
Taking it group by group and replacing the one at hand only for a larger key finds it in
the list that the groups make up.
-/

namespace FirstMaximum

variable {α β γ : Type*} [LinearOrder β] {f : α → β}

/-- What comes before `x` has a smaller key and what comes after it no larger one. -/
def IsFirst (f : α → β) (x : α) (l : List α) : Prop :=
  ∃ earlier later, l = earlier ++ x :: later ∧
    (∀ a ∈ earlier, f a < f x) ∧ ∀ a ∈ later, f a ≤ f x

/-- The one at hand, unless the next has a larger key. -/
def better (f : α → β) (x y : α) : α := if f x < f y then y else x

theorem IsFirst.mem {x : α} {l : List α} (h : IsFirst f x l) : x ∈ l := by
  obtain ⟨earlier, later, rfl, _, _⟩ := h
  exact List.mem_append_right earlier List.mem_cons_self

theorem IsFirst.le {x a : α} {l : List α} (h : IsFirst f x l) (ha : a ∈ l) : f a ≤ f x := by
  obtain ⟨earlier, later, rfl, hearlier, hlater⟩ := h
  rcases List.mem_append.mp ha with hbefore | hfrom
  · exact (hearlier a hbefore).le
  · rcases List.mem_cons.mp hfrom with rfl | hafter
    · exact le_refl _
    · exact hlater a hafter

/-- Two lists after one another. -/
theorem IsFirst.append {x y : α} {l m : List α} (hl : IsFirst f x l) (hm : IsFirst f y m) :
    IsFirst f (better f x y) (l ++ m) := by
  by_cases hlt : f x < f y
  · rw [better, if_pos hlt]
    have hbelow : ∀ a ∈ l, f a < f y := fun a ha => (hl.le ha).trans_lt hlt
    obtain ⟨earlier, later, rfl, hearlier, hlater⟩ := hm
    refine ⟨l ++ earlier, later, by rw [List.append_assoc], ?_, hlater⟩
    intro a ha
    exact (List.mem_append.mp ha).elim (hbelow a) (hearlier a)
  · rw [better, if_neg hlt]
    have habove : ∀ a ∈ m, f a ≤ f x := fun a ha => (hm.le ha).trans (not_lt.mp hlt)
    obtain ⟨earlier, later, rfl, hearlier, hlater⟩ := hl
    refine ⟨earlier, later ++ m, by rw [List.append_assoc, List.cons_append], hearlier, ?_⟩
    intro a ha
    exact (List.mem_append.mp ha).elim (hlater a) (habove a)

/-- Candidates that carry a label. -/
theorem IsFirst.map {g : γ → α} {x : γ} {l : List γ} (h : IsFirst (fun a => f (g a)) x l) :
    IsFirst f (g x) (l.map g) := by
  obtain ⟨earlier, later, rfl, hearlier, hlater⟩ := h
  refine ⟨earlier.map g, later.map g, by rw [List.map_append, List.map_cons], ?_, ?_⟩
  · exact List.forall_mem_map.mpr hearlier
  · exact List.forall_mem_map.mpr hlater

/-- `max` with a key returns the first of the largest. -/
theorem isFirst_argmax [DecidableEq α] {x : α} {l : List α} (h : l.argmax f = some x) :
    IsFirst f x l := by
  obtain ⟨hmem, hle, hindex⟩ := List.argmax_eq_some_iff.mp h
  obtain ⟨earlier, later, rfl, hnot⟩ := List.eq_append_cons_of_mem hmem
  refine ⟨earlier, later, rfl, ?_, ?_⟩
  · intro a ha
    by_contra hge
    have hat := hindex a (List.mem_append_left _ ha) (not_lt.mp hge)
    rw [List.idxOf_append_of_notMem hnot, List.idxOf_append_of_mem ha, List.idxOf_cons_self] at hat
    have hbefore := List.idxOf_lt_length_of_mem ha
    omega
  · intro a ha
    exact hle a (List.mem_append_right _ (List.mem_cons_of_mem _ ha))

/-- Going on through groups of candidates, each with the first of its largest. -/
theorem IsFirst.foldl {pick : γ → α} {group : γ → List α} {best : α} {seen : List α}
    (h : IsFirst f best seen) (groups : List γ)
    (hpick : ∀ e ∈ groups, IsFirst f (pick e) (group e)) :
    IsFirst f (groups.foldl (fun best e => better f best (pick e)) best)
      (seen ++ groups.flatMap group) := by
  induction groups generalizing best seen with
  | nil =>
    rw [List.flatMap_nil, List.append_nil]
    exact h
  | cons e rest ih =>
    rw [List.flatMap_cons, ← List.append_assoc]
    apply ih
    · exact h.append (hpick e List.mem_cons_self)
    · exact fun a ha => hpick a (List.mem_cons_of_mem e ha)

/-- A start that the first group beats leaves no trace. -/
theorem isFirst_foldl {pick : γ → α} {group : γ → List α} {start : α} (x : γ) (rest : List γ)
    (hpick : ∀ e ∈ x :: rest, IsFirst f (pick e) (group e)) (hstart : f start < f (pick x)) :
    IsFirst f ((x :: rest).foldl (fun best e => better f best (pick e)) start)
      ((x :: rest).flatMap group) := by
  rw [List.foldl_cons, List.flatMap_cons, better, if_pos hstart]
  apply (hpick x List.mem_cons_self).foldl
  exact fun e he => hpick e (List.mem_cons_of_mem x he)

end FirstMaximum
