import Mathlib.Data.List.Nodup

/-!
# Insertion-ordered dictionaries

A dictionary is an association list whose keys are distinct. Assigning to a
key that is present keeps its place, assigning to a new key appends it, and
equality of dictionaries ignores the order: two of them agree when every
lookup does.
-/

namespace Dictionary

universe u v

variable {κ : Type u} {α : Type v} [DecidableEq κ]

/-- First entry of an association list under a key. -/
def lookup : List (κ × α) → κ → Option α
  | [], _ => none
  | (a, x) :: rest, k => if a = k then some x else lookup rest k

/-- Replace the entry in place, or append a new one. -/
def assign : List (κ × α) → κ → α → List (κ × α)
  | [], k, x => [(k, x)]
  | (a, y) :: rest, k, x => if a = k then (a, x) :: rest else (a, y) :: assign rest k x

def discard : List (κ × α) → κ → List (κ × α)
  | [], _ => []
  | (a, y) :: rest, k => if a = k then rest else (a, y) :: discard rest k

theorem lookup_eq_none_iff {es : List (κ × α)} {k : κ} :
    lookup es k = none ↔ k ∉ es.map Prod.fst := by
  induction es with
  | nil => simp [lookup]
  | cons e rest ih =>
    obtain ⟨a, x⟩ := e
    by_cases h : a = k
    · simp [lookup, h]
    · simp [lookup, h, ih, eq_comm (a := k)]

theorem lookup_mem {es : List (κ × α)} {k : κ} {x : α}
    (h : lookup es k = some x) : (k, x) ∈ es := by
  induction es with
  | nil => cases h
  | cons e rest ih =>
    obtain ⟨a, y⟩ := e
    by_cases hk : a = k
    · subst a
      have hx : y = x := Option.some.inj (by simpa [lookup] using h)
      simp [hx]
    · exact List.mem_cons_of_mem _ (ih (by simpa [lookup, hk] using h))

theorem lookup_of_mem {es : List (κ × α)} {k : κ} {x : α}
    (distinct : (es.map Prod.fst).Nodup) (h : (k, x) ∈ es) : lookup es k = some x := by
  induction es with
  | nil => cases h
  | cons e rest ih =>
    obtain ⟨a, y⟩ := e
    rw [List.map_cons, List.nodup_cons] at distinct
    rcases List.mem_cons.mp h with heq | hrest
    · cases heq
      simp [lookup]
    · have hne : a ≠ k := by
        intro heq
        subst a
        exact distinct.1 (List.mem_map.mpr ⟨(k, x), hrest, rfl⟩)
      simpa [lookup, hne] using ih distinct.2 hrest

theorem lookup_assign (es : List (κ × α)) (k j : κ) (x : α) :
    lookup (assign es k x) j = if k = j then some x else lookup es j := by
  induction es with
  | nil => simp [assign, lookup]
  | cons e rest ih =>
    obtain ⟨a, y⟩ := e
    by_cases ha : a = k
    · subst a
      by_cases hj : k = j <;> simp [assign, lookup, hj]
    · by_cases hj : a = j
      · subst j
        simp [assign, lookup, ha, Ne.symm ha]
      · simp [assign, lookup, ha, hj, ih]

theorem lookup_map {β : Type*} (f : α → β) (es : List (κ × α)) (k : κ) :
    lookup (es.map fun e => (e.1, f e.2)) k = (lookup es k).map f := by
  induction es with
  | nil => rfl
  | cons e rest ih =>
    obtain ⟨a, x⟩ := e
    by_cases ha : a = k
    · simp [lookup, ha]
    · simp [lookup, ha, ih]

theorem assign_keys (es : List (κ × α)) (k : κ) (x : α) :
    (assign es k x).map Prod.fst =
      if k ∈ es.map Prod.fst then es.map Prod.fst else es.map Prod.fst ++ [k] := by
  induction es with
  | nil => simp [assign]
  | cons e rest ih =>
    obtain ⟨a, y⟩ := e
    by_cases ha : a = k
    · simp [assign, ha]
    · by_cases hk : k ∈ rest.map Prod.fst
      · simp only [assign, if_neg ha, List.map_cons, ih, List.mem_cons, hk, or_true, if_true]
      · simp only [assign, if_neg ha, List.map_cons, ih, List.mem_cons, hk, or_false,
          Ne.symm ha, if_false, List.cons_append]

theorem assign_nodup {es : List (κ × α)} (distinct : (es.map Prod.fst).Nodup) (k : κ) (x : α) :
    ((assign es k x).map Prod.fst).Nodup := by
  rw [assign_keys]
  split
  · exact distinct
  · rename_i hk
    exact List.nodup_append.mpr ⟨distinct, List.nodup_singleton k, by
      intro a ha b hb
      rw [List.mem_singleton.mp hb]
      rintro rfl
      exact hk ha⟩

theorem discard_sublist (es : List (κ × α)) (k : κ) : (discard es k).Sublist es := by
  induction es with
  | nil => exact List.Sublist.slnil
  | cons e rest ih =>
    obtain ⟨a, y⟩ := e
    by_cases ha : a = k
    · simp [discard, ha]
    · simpa [discard, ha] using ih

theorem lookup_discard {es : List (κ × α)} (distinct : (es.map Prod.fst).Nodup) (k j : κ) :
    lookup (discard es k) j = if k = j then none else lookup es j := by
  induction es with
  | nil => simp [discard, lookup]
  | cons e rest ih =>
    obtain ⟨a, y⟩ := e
    rw [List.map_cons, List.nodup_cons] at distinct
    by_cases ha : a = k
    · subst a
      by_cases hj : k = j
      · subst j
        simpa [discard] using lookup_eq_none_iff.mpr distinct.1
      · simp [discard, lookup, hj]
    · by_cases hj : a = j
      · subst j
        simp [discard, lookup, ha, Ne.symm ha]
      · simp [discard, lookup, ha, hj, ih distinct.2]

/-- The list of keys carries no repetition, so no entry is shadowed. -/
structure Dict (κ : Type u) (α : Type v) where
  entries : List (κ × α)
  distinct : (entries.map Prod.fst).Nodup

namespace Dict

def empty : Dict κ α := ⟨[], List.nodup_nil⟩

def get? (d : Dict κ α) (k : κ) : Option α := lookup d.entries k

def set (d : Dict κ α) (k : κ) (x : α) : Dict κ α :=
  ⟨assign d.entries k x, assign_nodup d.distinct k x⟩

/-- Remove a key; absent keys are ignored. -/
def pop (d : Dict κ α) (k : κ) : Dict κ α :=
  ⟨discard d.entries k, d.distinct.sublist ((discard_sublist d.entries k).map Prod.fst)⟩

/-- Keep the entry that is there, and store a new one otherwise. -/
def setdefault (d : Dict κ α) (k : κ) (x : α) : Dict κ α :=
  match d.get? k with
  | some _ => d
  | none => d.set k x

def keys (d : Dict κ α) : List κ := d.entries.map Prod.fst

def values (d : Dict κ α) : List α := d.entries.map Prod.snd

/-- A dictionary display: later entries win. -/
def ofList (es : List (κ × α)) : Dict κ α :=
  es.foldl (fun d e => d.set e.1 e.2) empty

def update (d e : Dict κ α) : Dict κ α :=
  e.entries.foldl (fun acc p => acc.set p.1 p.2) d

/-- The same keys, with other values. -/
def map {β : Type*} (f : α → β) (d : Dict κ α) : Dict κ β where
  entries := d.entries.map fun e => (e.1, f e.2)
  distinct := by
    rw [List.map_map]
    exact d.distinct

/-- Equality up to the order of the entries. -/
def Agree (d e : Dict κ α) : Prop := ∀ k, d.get? k = e.get? k

omit [DecidableEq κ] in
theorem entries_injective {d e : Dict κ α} (h : d.entries = e.entries) : d = e := by
  cases d
  cases e
  cases h
  rfl

@[simp] theorem get?_empty (k : κ) : (empty : Dict κ α).get? k = none := rfl

theorem get?_set (d : Dict κ α) (k j : κ) (x : α) :
    (d.set k x).get? j = if k = j then some x else d.get? j :=
  lookup_assign d.entries k j x

@[simp] theorem get?_set_self (d : Dict κ α) (k : κ) (x : α) :
    (d.set k x).get? k = some x := by
  simp [get?_set]

theorem get?_set_ne (d : Dict κ α) {k j : κ} (x : α) (h : k ≠ j) :
    (d.set k x).get? j = d.get? j := by
  simp [get?_set, h]

theorem get?_foldl_set {es : List (κ × α)} (distinct : (es.map Prod.fst).Nodup) (d : Dict κ α)
    (k : κ) : (es.foldl (fun acc p => acc.set p.1 p.2) d).get? k = (lookup es k).or (d.get? k) := by
  induction es generalizing d with
  | nil => rfl
  | cons e rest ih =>
    obtain ⟨a, x⟩ := e
    rw [List.map_cons, List.nodup_cons] at distinct
    rw [List.foldl_cons, ih distinct.2, get?_set]
    by_cases ha : a = k
    · subst ha
      simp [lookup, lookup_eq_none_iff.mpr distinct.1]
    · simp [lookup, ha]

/-- The entries of the second dictionary win. -/
theorem get?_update (d e : Dict κ α) (k : κ) : (d.update e).get? k = (e.get? k).or (d.get? k) :=
  get?_foldl_set e.distinct d k

theorem get?_map {β : Type*} (f : α → β) (d : Dict κ α) (k : κ) :
    (d.map f).get? k = (d.get? k).map f :=
  lookup_map f d.entries k

omit [DecidableEq κ] in
theorem values_map {β : Type*} (f : α → β) (d : Dict κ α) :
    (d.map f).values = d.values.map f := by
  simp [map, values]

theorem get?_pop (d : Dict κ α) (k j : κ) :
    (d.pop k).get? j = if k = j then none else d.get? j :=
  lookup_discard d.distinct k j

theorem get?_setdefault (d : Dict κ α) (k j : κ) (x : α) :
    (d.setdefault k x).get? j = if k = j ∧ d.get? k = none then some x else d.get? j := by
  cases h : d.get? k with
  | some y => simp [setdefault, h]
  | none => simp only [setdefault, h, get?_set, and_true]

theorem mem_keys {d : Dict κ α} {k : κ} : k ∈ d.keys ↔ (d.get? k).isSome := by
  cases h : d.get? k with
  | none => simpa [keys, get?] using lookup_eq_none_iff.mp h
  | some x => simpa [keys] using ⟨x, lookup_mem h⟩

theorem mem_entries {d : Dict κ α} {k : κ} {x : α} :
    (k, x) ∈ d.entries ↔ d.get? k = some x :=
  ⟨lookup_of_mem d.distinct, lookup_mem⟩

theorem mem_values {d : Dict κ α} {x : α} : x ∈ d.values ↔ ∃ k, d.get? k = some x := by
  simp only [values, List.mem_map, Prod.exists, mem_entries, exists_eq_right]

theorem keys_set (d : Dict κ α) (k : κ) (x : α) :
    (d.set k x).keys = if k ∈ d.keys then d.keys else d.keys ++ [k] :=
  assign_keys d.entries k x

/-- The order of the keys and the values under them are all there is to a dictionary. -/
theorem eq_of_keys {d e : Dict κ α} (hkeys : d.keys = e.keys)
    (h : ∀ k, d.get? k = e.get? k) : d = e := by
  apply entries_injective
  have hlength : d.entries.length = e.entries.length := by
    simpa [keys] using congrArg List.length hkeys
  refine List.ext_getElem hlength ?_
  intro i hi hj
  have hkey : d.entries[i].1 = e.entries[i].1 := by
    have hat := congrArg (fun l => l[i]?) hkeys
    simpa [keys, hi, hj] using hat
  have hd : d.get? d.entries[i].1 = some d.entries[i].2 :=
    mem_entries.mp (List.getElem_mem hi)
  have he : e.get? e.entries[i].1 = some e.entries[i].2 :=
    mem_entries.mp (List.getElem_mem hj)
  rw [h, hkey, he] at hd
  exact Prod.ext hkey (Option.some.inj hd).symm

/-- Writing back the value already stored changes nothing, not even the order. -/
theorem set_get?_self {d : Dict κ α} {k : κ} {x : α} (h : d.get? k = some x) :
    d.set k x = d := by
  apply entries_injective
  change assign d.entries k x = d.entries
  have go : ∀ es : List (κ × α), lookup es k = some x → assign es k x = es := by
    intro es
    induction es with
    | nil => intro h; cases h
    | cons e rest ih =>
      obtain ⟨a, y⟩ := e
      intro h
      by_cases ha : a = k
      · subst a
        have hy : y = x := Option.some.inj (by simpa [lookup] using h)
        simp [assign, hy]
      · simp [assign, ha, ih (by simpa [lookup, ha] using h)]
  exact go d.entries h

theorem set_set (d : Dict κ α) (k : κ) (x y : α) : (d.set k x).set k y = d.set k y := by
  apply entries_injective
  change assign (assign d.entries k x) k y = assign d.entries k y
  induction d.entries with
  | nil => simp [assign]
  | cons e rest ih =>
    obtain ⟨a, z⟩ := e
    by_cases ha : a = k <;> simp [assign, ha, ih]

/-- Writing the old value over a new one restores the dictionary entry for entry. -/
theorem set_restore {d : Dict κ α} {k : κ} {x : α} (y : α) (h : d.get? k = some x) :
    (d.set k y).set k x = d := by
  rw [set_set, set_get?_self h]

theorem set_eq_self_iff {d : Dict κ α} {k : κ} {x : α} :
    d.set k x = d ↔ d.get? k = some x := by
  constructor
  · intro h
    rw [← h, get?_set_self]
  · exact set_get?_self

namespace Agree

theorem refl (d : Dict κ α) : Agree d d := fun _ => rfl

theorem symm {d e : Dict κ α} (h : Agree d e) : Agree e d := fun k => (h k).symm

theorem trans {d e f : Dict κ α} (hde : Agree d e) (hef : Agree e f) : Agree d f :=
  fun k => (hde k).trans (hef k)

end Agree

end Dict

end Dictionary
