import Interlock.PostgresRecords

/-!
# The ids that the records repository hands out

The counter is set once by the constructor and then moved by every insertion. Whatever
is deleted, inserted back or inserted under an id of its own, the counter stays above
every id that was ever stored, so a row without an id gets one that no row has had.
-/

namespace RecordIds

open Dictionary RecordsTable PostgresRecords

inductive Change where
  | delete (ids : List Int)
  | insertMany (rows : List NewRow)

def Change.apply (t : RecordsRepository) : Change → RecordsRepository
  | .delete ids => t.delete ids
  | .insertMany rows => t.insertMany rows

/-- The repository over some rows, after changes. -/
def after (rows : List Row) (changes : List Change) : RecordsRepository :=
  changes.foldl Change.apply (RecordsRepository.init rows)

/-- Some row was stored under the id, at the start or after some of the changes. -/
def EverStored (rows : List Row) (changes : List Change) (id : Int) : Prop :=
  ∃ before, before <+: changes ∧ ((after rows before).rows.get? id).isSome = true

section Counter

variable {t : RecordsRepository}

theorem insertOne_nextId (t : RecordsRepository) (row : NewRow) :
    (t.insertOne row).nextId = max t.nextId (row.id.getD t.nextId + 1) := rfl

theorem nextId_le_insertMany (t : RecordsRepository) (rows : List NewRow) :
    t.nextId ≤ (t.insertMany rows).nextId := by
  induction rows generalizing t with
  | nil => exact le_refl _
  | cons row rest ih =>
    calc t.nextId ≤ (t.insertOne row).nextId := by
          rw [insertOne_nextId]
          exact le_max_left _ _
      _ ≤ ((t.insertOne row).insertMany rest).nextId := ih _

theorem nextId_le_apply (t : RecordsRepository) (change : Change) :
    t.nextId ≤ (change.apply t).nextId := by
  cases change with
  | delete ids => exact (RecordsRepository.delete_nextId t ids).ge
  | insertMany rows => exact nextId_le_insertMany t rows

theorem after_append (rows : List Row) (changes later : List Change) :
    after rows (changes ++ later) = later.foldl Change.apply (after rows changes) :=
  List.foldl_append

theorem nextId_le_later (t : RecordsRepository) (changes : List Change) :
    t.nextId ≤ (changes.foldl Change.apply t).nextId := by
  induction changes generalizing t with
  | nil => exact le_refl _
  | cons change rest ih => exact (nextId_le_apply t change).trans (ih _)

/-- A row that was stored at some time was below the counter then, which never goes down. -/
theorem lt_nextId_of_everStored {rows : List Row} {changes : List Change} {id : Int}
    (h : EverStored rows changes id) : id < (after rows changes).nextId := by
  obtain ⟨before, ⟨later, rfl⟩, hstored⟩ := h
  obtain ⟨r, hr⟩ := Option.isSome_iff_exists.mp hstored
  calc id < (after rows before).nextId := (after rows before).below id r hr
    _ ≤ (after rows (before ++ later)).nextId := by
      rw [after_append]
      exact nextId_le_later _ _

end Counter

/-- The turn of a row without an id in an `insert_many`, after the earlier rows of it. -/
structure TakesFreshId (rows : List Row) (changes : List Change) (earlier : List NewRow)
    (kind payload : String) : Prop where
  turn : ∀ later,
    (after rows changes).insertMany (earlier ++ ⟨none, kind, payload⟩ :: later) =
      (((after rows changes).insertMany earlier).insertOne ⟨none, kind, payload⟩).insertMany later
  /-- The id was not stored before, by this `insert_many` either. -/
  fresh : ¬ EverStored rows (changes ++ [.insertMany earlier])
    ((after rows changes).insertMany earlier).nextId
  /-- The row is put under it. -/
  stored : (((after rows changes).insertMany earlier).insertOne ⟨none, kind, payload⟩).rows.get?
      ((after rows changes).insertMany earlier).nextId =
    some ⟨((after rows changes).insertMany earlier).nextId, kind, payload⟩
  /-- Every row that was there is still there. -/
  others : ∀ id r, ((after rows changes).insertMany earlier).rows.get? id = some r →
    (((after rows changes).insertMany earlier).insertOne ⟨none, kind, payload⟩).rows.get? id =
      some r

theorem takes_fresh_id (rows : List Row) (changes : List Change) (earlier : List NewRow)
    (kind payload : String) : TakesFreshId rows changes earlier kind payload := by
  have hafter : after rows (changes ++ [.insertMany earlier]) =
      (after rows changes).insertMany earlier := after_append rows changes _
  have hfresh : ¬ EverStored rows (changes ++ [.insertMany earlier])
      ((after rows changes).insertMany earlier).nextId := by
    intro hstored
    have hlt := lt_nextId_of_everStored hstored
    rw [hafter] at hlt
    exact lt_irrefl _ hlt
  refine ⟨fun later => List.foldl_append, hfresh, Dict.get?_set_self _ _ _, ?_⟩
  intro id r hr
  have hne : ((after rows changes).insertMany earlier).nextId ≠ id := by
    rintro rfl
    exact lt_irrefl _ (((after rows changes).insertMany earlier).below _ r hr)
  exact (Dict.get?_set_ne _ _ hne).trans hr

/-- The rows that a query of a kind is about. -/
def OfKind (t : RecordsRepository) (kind : Option String) (r : Row) : Prop :=
  t.rows.get? r.id = some r ∧ ∀ k, kind = some k → r.kind = k

theorem mem_values_iff {t : RecordsRepository} {r : Row} :
    r ∈ t.rows.values ↔ t.rows.get? r.id = some r :=
  ⟨RecordsRepository.stored_of_mem_values, fun h => Dict.mem_values.mpr ⟨r.id, h⟩⟩

/-- All rows of a kind in ascending order, of which a query returns the first ones. -/
theorem getByKind_ascending (t : RecordsRepository) (kind : Option String) :
    ∃ ascending : List Row, (∀ r, r ∈ ascending ↔ OfKind t kind r) ∧
      ascending.Pairwise (fun a b => a.id < b.id) ∧
      ∀ limit, t.getByKind kind limit = ascending.take limit := by
  cases kind with
  | none =>
    refine ⟨t.rows.values.insertionSort fun a b => a.id ≤ b.id, ?_, sorted_strictly values_nodup,
      fun limit => rfl⟩
    intro r
    rw [List.mem_insertionSort, mem_values_iff]
    simp [OfKind]
  | some kind =>
    have hnodup := (values_nodup (t := t)).sublist
      ((List.filter_sublist (p := fun r => r.kind == kind)).map Row.id)
    refine ⟨(t.rows.values.filter fun r => r.kind == kind).insertionSort fun a b => a.id ≤ b.id, ?_,
      sorted_strictly hnodup, fun limit => rfl⟩
    intro r
    rw [List.mem_insertionSort, List.mem_filter, mem_values_iff]
    simp [OfKind]

/-- Over any rows and changes: a row is stored under its own id, the counter is above every
id that was ever stored, a row without an id takes a fresh one and replaces nothing, and a
query returns the first rows of its kind in ascending order. -/
theorem ids_never_reused (rows : List Row) (changes : List Change) :
    (∀ id r, (after rows changes).rows.get? id = some r → r.id = id) ∧
      (∀ id, EverStored rows changes id → id < (after rows changes).nextId) ∧
      (∀ earlier kind payload, TakesFreshId rows changes earlier kind payload) ∧
      ∀ kind, ∃ ascending : List Row,
        (∀ r, r ∈ ascending ↔ OfKind (after rows changes) kind r) ∧
        ascending.Pairwise (fun a b => a.id < b.id) ∧
        ∀ limit, (after rows changes).getByKind kind limit = ascending.take limit := by
  refine ⟨(after rows changes).keyed, ?_, ?_, ?_⟩
  · exact fun id h => lt_nextId_of_everStored h
  · exact takes_fresh_id rows changes
  · exact getByKind_ascending _

end RecordIds
