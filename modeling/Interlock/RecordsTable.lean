import Mathlib
import Interlock.Dictionary

/-!
# The in-memory records repository

Rows are kept in a dictionary under their ids, with a counter for the ids that
`insert_many` hands out. The representation carries its own invariant: a row
is stored under its own id and every stored id is below the counter.
-/

namespace RecordsTable

open Dictionary

structure Row where
  id : Int
  kind : String
  payload : String
  deriving DecidableEq, Repr

/-- A row given to `insert_many`, which may come without an id. -/
structure NewRow where
  id : Option Int := none
  kind : String
  payload : String
  deriving DecidableEq, Repr

def Row.toNew (r : Row) : NewRow := { id := some r.id, kind := r.kind, payload := r.payload }

structure RecordsRepository where
  nextId : Int
  rows : Dict Int Row
  keyed : ∀ k r, rows.get? k = some r → r.id = k
  below : ∀ k r, rows.get? k = some r → k < nextId

namespace RecordsRepository

/-- `max((r["id"] for r in rows), default=0)`. -/
def maxId : List Row → Int
  | [] => 0
  | [r] => r.id
  | r :: next :: rest => max r.id (maxId (next :: rest))

theorem le_maxId {rows : List Row} {r : Row} (h : r ∈ rows) : r.id ≤ maxId rows := by
  induction rows with
  | nil => cases h
  | cons a rest ih =>
    cases rest with
    | nil => rw [List.mem_singleton.mp h, maxId]
    | cons b rest =>
      rw [maxId]
      rcases List.mem_cons.mp h with rfl | h
      · exact le_max_left _ _
      · exact (ih h).trans (le_max_right _ _)

def store (rows : Dict Int Row) (r : Row) : Dict Int Row := rows.set r.id r

theorem get?_store {rows : Dict Int Row} {a r : Row} {k : Int}
    (h : (store rows a).get? k = some r) : (k = a.id ∧ r = a) ∨ rows.get? k = some r := by
  rw [store, Dict.get?_set] at h
  split at h
  · rename_i hk
    exact Or.inl ⟨hk.symm, (Option.some.inj h).symm⟩
  · exact Or.inr h

theorem get?_foldl_store {rows : List Row} {d : Dict Int Row} {k : Int} {r : Row}
    (h : (rows.foldl store d).get? k = some r) :
    (k = r.id ∧ r ∈ rows) ∨ d.get? k = some r := by
  induction rows generalizing d with
  | nil => exact Or.inr h
  | cons a rest ih =>
    rcases ih h with ⟨hk, hmem⟩ | h
    · exact Or.inl ⟨hk, List.mem_cons_of_mem a hmem⟩
    · rcases get?_store h with ⟨hk, rfl⟩ | h
      · exact Or.inl ⟨hk, List.mem_cons_self⟩
      · exact Or.inr h

theorem keyed_foldl_store {rows : List Row} {k : Int} {r : Row}
    (h : (rows.foldl store .empty).get? k = some r) : k = r.id ∧ r ∈ rows := by
  rcases get?_foldl_store h with hmem | hempty
  · exact hmem
  · rw [Dict.get?_empty] at hempty
    exact absurd hempty (Option.some_ne_none r).symm

theorem below_foldl_store {rows : List Row} {k : Int} {r : Row}
    (h : (rows.foldl store .empty).get? k = some r) :
    k < if rows.isEmpty then 1 else maxId rows + 1 := by
  obtain ⟨hk, hmem⟩ := keyed_foldl_store h
  have hle := le_maxId hmem
  have hne : ¬ rows.isEmpty = true := by
    rw [List.isEmpty_iff]
    exact List.ne_nil_of_mem hmem
  rw [if_neg hne]
  omega

/-- `InMemoryRecordsRepository(rows)`. -/
def init (rows : List Row) : RecordsRepository where
  nextId := if rows.isEmpty then 1 else maxId rows + 1
  rows := rows.foldl store .empty
  keyed := fun _ _ h => (keyed_foldl_store h).1.symm
  below := fun _ _ h => below_foldl_store h

/-- `get_by_kind(kind, limit)`; no kind means every kind. -/
def getByKind (t : RecordsRepository) (kind : Option String) (limit : Nat) : List Row :=
  let rows := match kind with
    | none => t.rows.values
    | some kind => t.rows.values.filter (fun r => r.kind == kind)
  (rows.insertionSort (fun a b => a.id ≤ b.id)).take limit

/-- `get_by_ids(ids)`: in the order of the ids, skipping absent ones. -/
def getByIds (t : RecordsRepository) (ids : List Int) : List Row :=
  ids.filterMap t.rows.get?

def deleteOne (t : RecordsRepository) (id : Int) : RecordsRepository where
  nextId := t.nextId
  rows := t.rows.pop id
  keyed := by
    intro k r h
    rw [Dict.get?_pop] at h
    split at h
    · cases h
    · exact t.keyed k r h
  below := by
    intro k r h
    rw [Dict.get?_pop] at h
    split at h
    · cases h
    · exact t.below k r h

def delete (t : RecordsRepository) (ids : List Int) : RecordsRepository :=
  ids.foldl deleteOne t

def insertOne (t : RecordsRepository) (row : NewRow) : RecordsRepository :=
  let id := row.id.getD t.nextId
  { nextId := max t.nextId (id + 1)
    rows := t.rows.set id { id := id, kind := row.kind, payload := row.payload }
    keyed := by
      intro k r h
      rw [Dict.get?_set] at h
      split at h
      · rename_i hk
        rw [← Option.some.inj h]
        exact hk
      · exact t.keyed k r h
    below := by
      intro k r h
      rw [Dict.get?_set] at h
      split at h
      · rename_i hk
        have := le_max_right t.nextId (id + 1)
        omega
      · have := t.below k r h
        have := le_max_left t.nextId (id + 1)
        omega }

def insertMany (t : RecordsRepository) (rows : List NewRow) : RecordsRepository :=
  rows.foldl insertOne t

/-- The same rows under the same ids; the order of the dictionary is not seen. -/
def Agree (t u : RecordsRepository) : Prop := t.rows.Agree u.rows

theorem get?_deleteOne (t : RecordsRepository) (i k : Int) :
    (t.deleteOne i).rows.get? k = if i = k then none else t.rows.get? k :=
  Dict.get?_pop t.rows i k

theorem get?_delete (t : RecordsRepository) (ids : List Int) (k : Int) :
    (t.delete ids).rows.get? k = if k ∈ ids then none else t.rows.get? k := by
  induction ids generalizing t with
  | nil => simp [delete]
  | cons i rest ih =>
    change ((t.deleteOne i).delete rest).rows.get? k = _
    rw [ih, get?_deleteOne]
    by_cases hk : k ∈ rest
    · simp [hk]
    · by_cases hi : i = k
      · simp [hk, hi]
      · simp [hk, hi, Ne.symm hi]

theorem delete_nextId (t : RecordsRepository) (ids : List Int) :
    (t.delete ids).nextId = t.nextId := by
  induction ids generalizing t with
  | nil => rfl
  | cons i rest ih => exact ih (t.deleteOne i)

theorem get?_insertOne_row (t : RecordsRepository) (r : Row) (k : Int) :
    (t.insertOne r.toNew).rows.get? k = if r.id = k then some r else t.rows.get? k :=
  Dict.get?_set t.rows r.id k r

theorem mem_getByIds {t : RecordsRepository} {ids : List Int} {r : Row} :
    r ∈ t.getByIds ids ↔ r.id ∈ ids ∧ t.rows.get? r.id = some r := by
  simp only [getByIds, List.mem_filterMap]
  constructor
  · rintro ⟨i, hi, hr⟩
    have hid := t.keyed i r hr
    subst hid
    exact ⟨hi, hr⟩
  · rintro ⟨hi, hr⟩
    exact ⟨r.id, hi, hr⟩

theorem stored_of_mem_values {t : RecordsRepository} {r : Row} (h : r ∈ t.rows.values) :
    t.rows.get? r.id = some r := by
  obtain ⟨k, hk⟩ := Dict.mem_values.mp h
  have hid := t.keyed k r hk
  subst hid
  exact hk

theorem stored_of_mem_getByKind {t : RecordsRepository} {kind : Option String} {limit : Nat}
    {r : Row} (h : r ∈ t.getByKind kind limit) : t.rows.get? r.id = some r := by
  have hsorted := List.mem_of_mem_take h
  rw [List.mem_insertionSort] at hsorted
  apply stored_of_mem_values
  cases kind with
  | none => exact hsorted
  | some kind => exact (List.mem_filter.mp hsorted).1

theorem kind_of_mem_getByKind {t : RecordsRepository} {kind : String} {limit : Nat} {r : Row}
    (h : r ∈ t.getByKind (some kind) limit) : r.kind = kind := by
  have hsorted := List.mem_of_mem_take h
  rw [List.mem_insertionSort] at hsorted
  exact beq_iff_eq.mp (List.mem_filter.mp hsorted).2

theorem pairwise_byId (rows : List Row) :
    (rows.insertionSort fun a b => a.id ≤ b.id).Pairwise fun a b => a.id ≤ b.id := by
  have htrans : IsTrans Row fun a b => a.id ≤ b.id := ⟨fun _ _ _ => le_trans⟩
  have htotal : Std.Total fun a b : Row => a.id ≤ b.id := ⟨fun a b => le_total a.id b.id⟩
  exact List.pairwise_insertionSort _ rows

/-- Stored rows have different ids, so sorting the rows of a kind is picking them from
the sorted rows. -/
theorem sorted_of_kind (t : RecordsRepository) (kind : String) :
    (t.rows.values.filter (fun r => r.kind == kind)).insertionSort (fun a b => a.id ≤ b.id) =
      (t.rows.values.insertionSort (fun a b => a.id ≤ b.id)).filter (fun r => r.kind == kind) := by
  refine List.Perm.eq_of_pairwise ?_ (pairwise_byId _) ((pairwise_byId _).filter _) ?_
  · intro a b ha hb hab hba
    rw [List.mem_insertionSort] at ha
    have hstoredA := stored_of_mem_values (List.mem_filter.mp ha).1
    have hstoredB := stored_of_mem_values ((List.mem_insertionSort _).mp (List.mem_filter.mp hb).1)
    have hid : a.id = b.id := le_antisymm hab hba
    rw [hid, hstoredB] at hstoredA
    exact (Option.some.inj hstoredA).symm
  · exact (List.perm_insertionSort _ _).trans ((List.perm_insertionSort _ _).symm.filter _)

/-- What a query of every kind shows of a kind, a query of that kind with no smaller
limit returns as well. -/
theorem mem_getByKind_of_mem {t : RecordsRepository} {kind : String} {m n : Nat} {r : Row}
    (h : r ∈ t.getByKind none m) (hkind : r.kind = kind) (hle : m ≤ n) :
    r ∈ t.getByKind (some kind) n := by
  have hshown := (List.take_prefix m (t.rows.values.insertionSort fun a b => a.id ≤ b.id)).filter
    (fun r => r.kind == kind)
  have hlength : ((t.getByKind none m).filter fun r => r.kind == kind).length ≤ n :=
    (List.length_filter_le _ _).trans ((List.length_take_le _ _).trans hle)
  have hreached := List.prefix_take_iff.mpr ⟨hshown, hlength⟩
  change r ∈ List.take n _
  rw [sorted_of_kind]
  exact hreached.sublist.subset (List.mem_filter.mpr ⟨h, beq_iff_eq.mpr hkind⟩)

/-- Inserting stored rows back leaves every other id as it was, and the id of
an inserted row holds that row, whichever of them came last. -/
theorem get?_insertMany_rows {t : RecordsRepository} {rows : List Row} (stored : Int → Option Row)
    (h : ∀ r ∈ rows, stored r.id = some r) (k : Int) :
    (t.insertMany (rows.map Row.toNew)).rows.get? k =
      if k ∈ rows.map Row.id then stored k else t.rows.get? k := by
  induction rows generalizing t with
  | nil => simp [insertMany]
  | cons r rest ih =>
    change ((t.insertOne r.toNew).insertMany (rest.map Row.toNew)).rows.get? k = _
    rw [ih (fun a ha => h a (List.mem_cons_of_mem r ha)), get?_insertOne_row]
    by_cases hk : k ∈ rest.map Row.id
    · simp [hk]
    · by_cases hr : r.id = k
      · subst hr
        simp [hk, h r List.mem_cons_self]
      · simp [hk, hr, Ne.symm hr]

theorem insertMany_nextId {t : RecordsRepository} {rows : List Row}
    (h : ∀ r ∈ rows, r.id < t.nextId) :
    (t.insertMany (rows.map Row.toNew)).nextId = t.nextId := by
  induction rows generalizing t with
  | nil => rfl
  | cons r rest ih =>
    have hr := h r List.mem_cons_self
    have hnext : (t.insertOne r.toNew).nextId = t.nextId := by
      change max t.nextId (r.id + 1) = t.nextId
      omega
    change ((t.insertOne r.toNew).insertMany (rest.map Row.toNew)).nextId = _
    rw [ih (fun a ha => by rw [hnext]; exact h a (List.mem_cons_of_mem r ha)), hnext]

/-- Deleting rows that are stored and inserting them again restores the table,
whatever repetitions the list of rows has. -/
theorem reinsert_deleted {t : RecordsRepository} {rows : List Row}
    (h : ∀ r ∈ rows, t.rows.get? r.id = some r) :
    Agree ((t.delete (rows.map Row.id)).insertMany (rows.map Row.toNew)) t ∧
      ((t.delete (rows.map Row.id)).insertMany (rows.map Row.toNew)).nextId = t.nextId := by
  constructor
  · intro k
    rw [get?_insertMany_rows t.rows.get? h, get?_delete]
    split <;> rfl
  · rw [insertMany_nextId, delete_nextId]
    intro r hr
    rw [delete_nextId]
    exact t.below r.id r (h r hr)

end RecordsRepository

end RecordsTable
