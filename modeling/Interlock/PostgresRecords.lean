import Interlock.PythonValues
import Interlock.RecordsTable

/-!
# Two records repositories behind one protocol

The repository in memory answers from a dictionary, the one in Postgres by SQL statements
on a table whose primary key is `id`. They agree along a sequence of calls as long as ids
are asked for in ascending order and no insert meets another row under its id.
-/

namespace PostgresRecords

open Dictionary PythonValues RecordsTable

/-- `RecordsRepository`. -/
structure Repository (σ : Type) where
  getByKind : Option String → ℕ → Action σ (List Row)
  getByIds : List Int → Action σ (List Row)
  delete : List Int → Action σ Unit
  insertMany : List Row → Action σ Unit

def inMemory : Repository RecordsRepository where
  getByKind := fun kind limit => ⟨fun t => (.ok (t.getByKind kind limit), t)⟩
  getByIds := fun ids => ⟨fun t => (.ok (t.getByIds ids), t)⟩
  delete := fun ids => ⟨fun t => (.ok (), t.delete ids)⟩
  insertMany := fun rows => ⟨fun t => (.ok (), t.insertMany (rows.map Row.toNew))⟩

/-! ### Statements -/

/-- The values that the driver and the server take for a parameter of each type. -/
structure Driver where
  int4 : Int → Except PyError Unit
  int8 : ℕ → Except PyError Unit
  text : String → Except PyError Unit

/-- The table `records`, its rows in no particular order. -/
structure Table where
  rows : List Row
  unique : (rows.map Row.id).Nodup

namespace Table

variable (table : Table)

/-- `SELECT ... WHERE ... ORDER BY id`. -/
def select (p : Row → Bool) : List Row := (table.rows.filter p).insertionSort fun a b => a.id ≤ b.id

/-- `DELETE FROM records WHERE id = ANY(...)`. -/
def deleteAny (ids : List Int) : Table where
  rows := table.rows.filter fun r => decide (r.id ∉ ids)
  unique := table.unique.sublist (List.filter_sublist.map Row.id)

/-- `INSERT ... ON CONFLICT (id) DO NOTHING`. -/
def insert (row : Row) : Table :=
  if h : row.id ∈ table.rows.map Row.id then table
  else
    { rows := table.rows ++ [row]
      unique := by
        rw [List.map_append, List.nodup_append]
        refine ⟨table.unique, List.nodup_singleton _, ?_⟩
        rintro id hid _ hrow rfl
        rw [List.map_singleton, List.mem_singleton] at hrow
        exact h (hrow ▸ hid) }

/-- The row under an id. -/
def get? (id : Int) : Option Row := table.rows.find? fun r => r.id == id

end Table

def postgres (driver : Driver) : Repository Table where
  getByKind := fun kind limit => do
    match kind with
    | none =>
      Action.lift (driver.int8 limit)
      ⟨fun table => (.ok ((table.select fun _ => true).take limit), table)⟩
    | some kind =>
      Action.lift (driver.text kind)
      Action.lift (driver.int8 limit)
      ⟨fun table => (.ok ((table.select fun r => r.kind == kind).take limit), table)⟩
  getByIds := fun ids => do
    if ids.isEmpty then return []
    Action.lift (forM ids driver.int4)
    ⟨fun table => (.ok (table.select fun r => decide (r.id ∈ ids)), table)⟩
  delete := fun ids => do
    if ids.isEmpty then return ()
    Action.lift (forM ids driver.int4)
    ⟨fun table => (.ok (), table.deleteAny ids)⟩
  insertMany := fun rows => do
    if rows.isEmpty then return ()
    -- `executemany` sends every row or none
    Action.lift (forM rows fun r => do
      driver.int4 r.id
      driver.text r.kind
      driver.text r.payload)
    ⟨fun table => (.ok (), rows.foldl Table.insert table)⟩

/-! ### Calls -/

inductive Call where
  | getByKind (kind : Option String) (limit : ℕ)
  | getByIds (ids : List Int)
  | delete (ids : List Int)
  | insertMany (rows : List Row)

section Calls

variable {σ : Type} (repo : Repository σ)

/-- What a call returns; nothing for the calls that write. -/
def Repository.call : Call → Action σ (List Row)
  | .getByKind kind limit => repo.getByKind kind limit
  | .getByIds ids => repo.getByIds ids
  | .delete ids => do
    repo.delete ids
    return []
  | .insertMany rows => do
    repo.insertMany rows
    return []

def Repository.answers : List Call → σ → List (Except PyError (List Row))
  | [], _ => []
  | c :: rest, s => ((repo.call c).run s).1 :: answers rest ((repo.call c).run s).2

def Repository.after : List Call → σ → σ
  | [], s => s
  | c :: rest, s => after rest ((repo.call c).run s).2

end Calls

/-- The same rows, in whatever order. -/
def SameRows (t : RecordsRepository) (table : Table) : Prop :=
  ∀ r, r ∈ t.rows.values ↔ r ∈ table.rows

/-- What the driver takes as the parameters of a call. -/
def Call.Encodable (driver : Driver) : Call → Prop
  | .getByKind kind limit =>
    (∀ text, kind = some text → driver.text text = .ok ()) ∧ driver.int8 limit = .ok ()
  | .getByIds ids => ∀ id ∈ ids, driver.int4 id = .ok ()
  | .delete ids => ∀ id ∈ ids, driver.int4 id = .ok ()
  | .insertMany rows => ∀ r ∈ rows,
    driver.int4 r.id = .ok () ∧ driver.text r.kind = .ok () ∧ driver.text r.payload = .ok ()

/-- The stored ones among the ids that are asked for ascend, and of the rows that meet under
one id, the stored one or else the first given, the last one given is the same. -/
def Call.Orderly (t : RecordsRepository) : Call → Prop
  | .getByIds ids => (ids.filter fun id => (t.rows.get? id).isSome).Pairwise (· < ·)
  | .insertMany rows => ∀ id ∈ rows.map Row.id,
    (t.rows.get? id).or (rows.find? fun r => r.id == id) = rows.reverse.find? fun r => r.id == id
  | _ => True

/-- Each call of a sequence is encodable, and orderly where it is made. -/
def Fitting (driver : Driver) : List Call → RecordsRepository → Prop
  | [], _ => True
  | c :: rest, t =>
    (c.Encodable driver ∧ c.Orderly t) ∧ Fitting driver rest ((inMemory.call c).run t).2

/-! ### Rows under their ids -/

section Lookups

variable {t : RecordsRepository} {table : Table} {r : Row} {id : Int}

theorem Table.get?_eq_some_iff : table.get? id = some r ↔ r ∈ table.rows ∧ r.id = id := by
  constructor
  · intro h
    have hid := List.find?_some h
    exact ⟨List.mem_of_find?_eq_some h, beq_iff_eq.mp hid⟩
  · rintro ⟨hmem, rfl⟩
    cases hfound : table.get? r.id with
    | none =>
      have hnone := List.find?_eq_none.mp hfound r hmem
      simp at hnone
    | some r' =>
      have hmem' := List.mem_of_find?_eq_some hfound
      have hid := List.find?_some hfound
      rw [List.inj_on_of_nodup_map table.unique hmem' hmem (beq_iff_eq.mp hid)]

theorem stored_iff : t.rows.get? id = some r ↔ r ∈ t.rows.values ∧ r.id = id := by
  constructor
  · intro h
    exact ⟨Dict.mem_values.mpr ⟨id, h⟩, t.keyed id r h⟩
  · rintro ⟨hmem, rfl⟩
    exact RecordsRepository.stored_of_mem_values hmem

theorem sameRows_iff : SameRows t table ↔ ∀ id, t.rows.get? id = table.get? id := by
  constructor
  · intro h id
    apply Option.ext
    intro r
    rw [stored_iff, Table.get?_eq_some_iff, h r]
  · intro h r
    have hr := h r.id
    constructor
    · intro hmem
      have hstored := stored_iff.mpr ⟨hmem, rfl⟩
      exact (Table.get?_eq_some_iff.mp (hr.symm.trans hstored)).1
    · intro hmem
      have hfound := Table.get?_eq_some_iff.mpr ⟨hmem, rfl⟩
      exact (stored_iff.mp (hr.trans hfound)).1

theorem values_ids : t.rows.values.map Row.id = t.rows.keys := by
  rw [Dict.values, Dict.keys, List.map_map]
  apply List.map_congr_left
  intro e he
  exact t.keyed e.1 e.2 (Dict.mem_entries.mp he)

theorem values_nodup : (t.rows.values.map Row.id).Nodup := by
  rw [values_ids]
  exact t.rows.distinct

end Lookups

/-! ### Sorted rows -/

section Sorted

variable {rows rows' : List Row}

theorem sorted_strictly (h : (rows.map Row.id).Nodup) :
    (rows.insertionSort fun a b => a.id ≤ b.id).Pairwise fun a b => a.id < b.id := by
  have hsorted := RecordsRepository.pairwise_byId rows
  have hperm := (List.perm_insertionSort (fun a b : Row => a.id ≤ b.id) rows).map Row.id
  have hne := List.pairwise_map.mp (hperm.nodup_iff.mpr h)
  exact hsorted.imp₂ (fun a b hle hne => lt_of_le_of_ne hle hne) hne

/-- Rows in strictly ascending order of their ids are determined by which they are. -/
theorem ascending_unique (h : rows.Pairwise fun a b => a.id < b.id)
    (h' : rows'.Pairwise fun a b => a.id < b.id) (hmem : ∀ r, r ∈ rows ↔ r ∈ rows') :
    rows = rows' := by
  have hnodup : ∀ {l : List Row}, l.Pairwise (fun a b => a.id < b.id) → l.Nodup := fun hl =>
    hl.imp fun hlt heq => absurd (congrArg Row.id heq) (ne_of_lt hlt)
  have hperm := (List.perm_ext_iff_of_nodup (hnodup h) (hnodup h')).mpr hmem
  exact hperm.eq_of_pairwise (fun a b _ _ hab hba => absurd hab (lt_asymm hba)) h h'

end Sorted

/-! ### One call -/

section Steps

variable {driver : Driver} {t : RecordsRepository} {table : Table}

theorem select_same (h : SameRows t table) (p : Row → Bool) :
    table.select p = (t.rows.values.filter p).insertionSort fun a b => a.id ≤ b.id := by
  have hids : ∀ {rows : List Row}, (rows.map Row.id).Nodup → ((rows.filter p).map Row.id).Nodup :=
    fun hnodup => hnodup.sublist (List.filter_sublist.map Row.id)
  apply ascending_unique (sorted_strictly (hids table.unique)) (sorted_strictly (hids values_nodup))
  intro r
  rw [List.mem_insertionSort, List.mem_insertionSort, List.mem_filter, List.mem_filter, h r]

theorem getByIds_ids (ids : List Int) :
    (t.getByIds ids).map Row.id = ids.filter fun id => (t.rows.get? id).isSome := by
  induction ids with
  | nil => rfl
  | cons id rest ih =>
    cases hid : t.rows.get? id with
    | none =>
      rw [List.filter_cons_of_neg (by simp [hid]), ← ih, RecordsRepository.getByIds,
        List.filterMap_cons_none hid]
      rfl
    | some r =>
      rw [List.filter_cons_of_pos (by simp [hid]), ← ih, RecordsRepository.getByIds,
        List.filterMap_cons_some hid, List.map_cons, t.keyed id r hid]
      rfl

/-- The rows of an id list come back alike if the stored ids of the list ascend. -/
theorem getByIds_same_iff (h : SameRows t table) (ids : List Int) :
    t.getByIds ids = table.select (fun r => decide (r.id ∈ ids)) ↔
      (ids.filter fun id => (t.rows.get? id).isSome).Pairwise (· < ·) := by
  have hselected : (table.select fun r => decide (r.id ∈ ids)).Pairwise fun a b => a.id < b.id :=
    sorted_strictly (table.unique.sublist (List.filter_sublist.map Row.id))
  rw [← getByIds_ids, List.pairwise_map]
  constructor
  · intro hsame
    rw [hsame]
    exact hselected
  · intro hascending
    apply ascending_unique hascending hselected
    intro r
    rw [RecordsRepository.mem_getByIds, Table.select, List.mem_insertionSort, List.mem_filter,
      decide_eq_true_iff, stored_iff, ← h r]
    tauto

theorem sameRows_delete (h : SameRows t table) (ids : List Int) :
    SameRows (t.delete ids) (table.deleteAny ids) := by
  intro r
  have hstored : r ∈ (t.delete ids).rows.values ↔ (t.delete ids).rows.get? r.id = some r := by
    simp [stored_iff]
  rw [hstored, RecordsRepository.get?_delete, Table.deleteAny, List.mem_filter, ← h r,
    decide_eq_true_iff]
  split
  · rename_i hmem
    simp [hmem]
  · rename_i hmem
    simp [hmem, stored_iff]

theorem get?_insert (row : Row) (id : Int) :
    (table.insert row).get? id = (table.get? id).or (if row.id = id then some row else none) := by
  rw [Table.insert]
  split
  · rename_i hmem
    split
    · rename_i hid
      obtain ⟨r, hr, hrid⟩ := List.mem_map.mp hmem
      rw [Table.get?_eq_some_iff.mpr ⟨hr, hrid.trans hid⟩]
      rfl
    · rw [Option.or_none]
  · rw [Table.get?, List.find?_append, Table.get?, List.find?_singleton]
    simp only [beq_iff_eq]

/-- A table keeps the row that it has, or gets the first one given. -/
theorem get?_inserts (rows : List Row) (id : Int) :
    (rows.foldl Table.insert table).get? id =
      (table.get? id).or (rows.find? fun r => r.id == id) := by
  induction rows generalizing table with
  | nil => rw [List.foldl_nil, List.find?_nil, Option.or_none]
  | cons row rest ih =>
    rw [List.foldl_cons, ih, get?_insert, Option.or_assoc, List.find?_cons]
    by_cases hid : row.id = id
    · simp [hid]
    · have hne : (row.id == id) = false := beq_false_of_ne hid
      simp [hid, hne]

/-- The dictionary gets the last one given. -/
theorem get?_insertMany (rows : List Row) (id : Int) :
    (t.insertMany (rows.map Row.toNew)).rows.get? id =
      (rows.reverse.find? fun r => r.id == id).or (t.rows.get? id) := by
  induction rows generalizing t with
  | nil => rfl
  | cons row rest ih =>
    change ((t.insertOne row.toNew).insertMany (rest.map Row.toNew)).rows.get? id = _
    rw [ih, RecordsRepository.get?_insertOne_row, List.reverse_cons, List.find?_append,
      List.find?_singleton, Option.or_assoc]
    by_cases hid : row.id = id
    · simp [hid]
    · simp [hid]

theorem given_of_mem {rows : List Row} {id : Int} (h : id ∈ rows.map Row.id) :
    ∃ r, (rows.find? fun r => r.id == id) = some r := by
  obtain ⟨r, hr, rfl⟩ := List.mem_map.mp h
  apply Option.isSome_iff_exists.mp
  rw [List.find?_isSome]
  exact ⟨r, hr, beq_self_eq_true r.id⟩

/-- Inserting leaves the same rows if no row given meets a different one under its id. -/
theorem sameRows_insert_iff (h : SameRows t table) (rows : List Row) :
    SameRows (t.insertMany (rows.map Row.toNew)) (rows.foldl Table.insert table) ↔
      ∀ id ∈ rows.map Row.id, (t.rows.get? id).or (rows.find? fun r => r.id == id) =
        rows.reverse.find? fun r => r.id == id := by
  rw [sameRows_iff] at h ⊢
  simp only [get?_insertMany, get?_inserts, ← h]
  constructor
  · intro hsame id hid
    have hreversed : id ∈ rows.reverse.map Row.id := by
      rw [List.map_reverse, List.mem_reverse]
      exact hid
    obtain ⟨last, hlast⟩ := given_of_mem hreversed
    rw [← hsame id, hlast, Option.some_or]
  · intro horderly id
    by_cases hid : id ∈ rows.map Row.id
    · have hreversed : id ∈ rows.reverse.map Row.id := by
        rw [List.map_reverse, List.mem_reverse]
        exact hid
      obtain ⟨last, hlast⟩ := given_of_mem hreversed
      rw [horderly id hid, hlast, Option.some_or]
    · have hnone : ∀ l : List Row, (∀ r ∈ l, r ∈ rows) → (l.find? fun r => r.id == id) = none := by
        intro l hl
        rw [List.find?_eq_none]
        intro r hr heq
        exact hid (List.mem_map.mpr ⟨r, hl r hr, beq_iff_eq.mp heq⟩)
      rw [hnone rows fun r hr => hr, hnone rows.reverse fun r hr => List.mem_reverse.mp hr,
        Option.or_none, Option.none_or]

theorem then_ok_iff {α : Type} {check : Except PyError Unit} {x : Except PyError α} {a : α} :
    (check >>= fun _ => x) = .ok a ↔ check = .ok () ∧ x = .ok a := by
  rw [except_bind_ok_iff]
  constructor
  · rintro ⟨_, hcheck, hx⟩
    exact ⟨hcheck, hx⟩
  · rintro ⟨hcheck, hx⟩
    exact ⟨(), hcheck, hx⟩

theorem forM_ok_iff {α : Type} {f : α → Except PyError Unit} {l : List α} :
    forM l f = .ok () ↔ ∀ a ∈ l, f a = .ok () := by
  induction l with
  | nil => simp [pure, Except.pure]
  | cons a rest ih =>
    rw [List.forM_cons, then_ok_iff, List.forall_mem_cons, ← ih]

/-- Both repositories answer a call alike and hold the same rows after it. -/
def Level (driver : Driver) (c : Call) (t : RecordsRepository) (table : Table) : Prop :=
  ((inMemory.call c).run t).1 = (((postgres driver).call c).run table).1 ∧
    SameRows ((inMemory.call c).run t).2 (((postgres driver).call c).run table).2

/-- What a call does in Postgres, once its parameters are taken. -/
structure Checked (driver : Driver) (c : Call) (table : Table) (check : Except PyError Unit)
    (rows : List Row) (after : Table) : Prop where
  taken : check = .ok () → ((postgres driver).call c).run table = (.ok rows, after)
  refused : ∀ e, check = .error e → ((postgres driver).call c).run table = (.error e, table)

theorem level_iff {c : Call} {check : Except PyError Unit} {rows rows' : List Row}
    {t' : RecordsRepository} {after : Table} (h : Checked driver c table check rows after)
    (hmemory : (inMemory.call c).run t = (.ok rows', t')) :
    Level driver c t table ↔ check = .ok () ∧ rows' = rows ∧ SameRows t' after := by
  rw [Level, hmemory]
  cases check with
  | ok u =>
    rw [h.taken rfl]
    simp
  | error e =>
    rw [h.refused e rfl]
    simp

theorem checked_all (limit : ℕ) :
    Checked driver (.getByKind none limit) table (driver.int8 limit)
      ((table.select fun _ => true).take limit) table := by
  constructor
  · intro htaken
    simp only [Repository.call, postgres, Action.run_bind, Action.run_lift, htaken]
  · intro e he
    simp only [Repository.call, postgres, Action.run_bind, Action.run_lift, he]

theorem checked_kind (kind : String) (limit : ℕ) :
    Checked driver (.getByKind (some kind) limit) table
      (driver.text kind >>= fun _ => driver.int8 limit)
      ((table.select fun r => r.kind == kind).take limit) table := by
  constructor
  · intro htaken
    obtain ⟨_, htext, hlimit⟩ := except_bind_ok_iff.mp htaken
    simp only [Repository.call, postgres, Action.run_bind, Action.run_lift, htext, hlimit]
  · intro e he
    simp only [Repository.call, postgres, Action.run_bind, Action.run_lift]
    cases htext : driver.text kind with
    | error e' =>
      rw [htext] at he
      cases he
      rfl
    | ok _ =>
      rw [htext] at he
      rw [show driver.int8 limit = .error e from he]

theorem checked_getByIds (ids : List Int) :
    Checked driver (.getByIds ids) table (forM ids driver.int4)
      (table.select fun r => decide (r.id ∈ ids)) table := by
  cases ids with
  | nil =>
    constructor
    · intro _
      have hnone : (table.select fun r => decide (r.id ∈ [])) = [] := by
        simp [Table.select]
      rw [hnone]
      rfl
    · intro e he
      cases he
  | cons id rest =>
    constructor
    · intro htaken
      simp only [Repository.call, postgres, List.isEmpty_cons, Bool.false_eq_true, if_false,
        Action.run_bind, Action.run_lift, htaken]
    · intro e he
      simp only [Repository.call, postgres, List.isEmpty_cons, Bool.false_eq_true, if_false,
        Action.run_bind, Action.run_lift, he]

theorem delete_taken {ids : List Int} (h : forM ids driver.int4 = .ok ()) :
    ((postgres driver).delete ids).run table = (.ok (), table.deleteAny ids) := by
  cases ids with
  | nil =>
    have hsame : table.deleteAny [] = table := by
      cases table
      simp [Table.deleteAny]
    rw [hsame]
    rfl
  | cons id rest =>
    simp only [postgres, List.isEmpty_cons, Bool.false_eq_true, if_false, Action.run_bind,
      Action.run_lift, h]

theorem delete_refused {ids : List Int} {e : PyError} (h : forM ids driver.int4 = .error e) :
    ((postgres driver).delete ids).run table = (.error e, table) := by
  cases ids with
  | nil => cases h
  | cons id rest =>
    simp only [postgres, List.isEmpty_cons, Bool.false_eq_true, if_false, Action.run_bind,
      Action.run_lift, h]

theorem checked_delete (ids : List Int) :
    Checked driver (.delete ids) table (forM ids driver.int4) [] (table.deleteAny ids) := by
  constructor
  · intro htaken
    rw [Repository.call, Action.run_bind_of_ok (delete_taken htaken)]
    rfl
  · intro e he
    exact Action.run_bind_of_error (delete_refused he)

theorem checked_insertMany (rows : List Row) :
    Checked driver (.insertMany rows) table (forM rows fun r => do
      driver.int4 r.id
      driver.text r.kind
      driver.text r.payload) [] (rows.foldl Table.insert table) := by
  cases rows with
  | nil =>
    constructor
    · intro _
      rfl
    · intro e he
      cases he
  | cons row rest =>
    constructor
    · intro htaken
      simp only [Repository.call, postgres, List.isEmpty_cons, Bool.false_eq_true, if_false,
        Action.run_bind, Action.run_lift, htaken, Action.run_pure]
    · intro e he
      simp only [Repository.call, postgres, List.isEmpty_cons, Bool.false_eq_true, if_false,
        Action.run_bind, Action.run_lift, he]

/-- A call goes the same way in both exactly if it is encodable and orderly. -/
theorem level_call_iff (h : SameRows t table) (c : Call) :
    Level driver c t table ↔ c.Encodable driver ∧ c.Orderly t := by
  cases c with
  | getByKind kind limit =>
    cases kind with
    | none =>
      have hrows : t.getByKind none limit = (table.select fun _ => true).take limit := by
        rw [select_same h, List.filter_true]
        rfl
      rw [level_iff (checked_all limit) rfl]
      simp [Call.Encodable, Call.Orderly, hrows, h]
    | some kind =>
      have hrows : t.getByKind (some kind) limit =
          (table.select fun r => r.kind == kind).take limit := by
        rw [select_same h]
        rfl
      rw [level_iff (checked_kind kind limit) rfl, then_ok_iff]
      simp [Call.Encodable, Call.Orderly, hrows, h]
  | getByIds ids =>
    rw [level_iff (checked_getByIds ids) rfl, forM_ok_iff, getByIds_same_iff h]
    simp [Call.Encodable, Call.Orderly, h]
  | delete ids =>
    rw [level_iff (checked_delete ids) rfl, forM_ok_iff]
    simp [Call.Encodable, Call.Orderly, sameRows_delete h ids]
  | insertMany rows =>
    rw [level_iff (checked_insertMany rows) rfl, forM_ok_iff, sameRows_insert_iff h]
    simp [Call.Encodable, Call.Orderly, then_ok_iff]

end Steps

/-! ### Sequences of calls -/

section Sequences

variable {driver : Driver} {t : RecordsRepository} {table : Table} {calls : List Call}

/-- The same lists were returned, and the same rows are there. -/
def Equal (driver : Driver) (calls : List Call) (t : RecordsRepository) (table : Table) : Prop :=
  inMemory.answers calls t = (postgres driver).answers calls table ∧
    SameRows (inMemory.after calls t) ((postgres driver).after calls table)

theorem equal_cons {c : Call} (h : Level driver c t table) (rest : List Call) :
    Equal driver (c :: rest) t table ↔ Equal driver rest ((inMemory.call c).run t).2
      (((postgres driver).call c).run table).2 := by
  rw [Equal, Equal, Repository.answers, Repository.answers, h.1, List.cons.injEq]
  simp only [true_and, Repository.after]

/-- The repositories stay equal along a sequence of calls exactly if each call of it is
encodable, and orderly where it is made. -/
theorem equal_iff_fitting (driver : Driver) (calls : List Call) (t : RecordsRepository)
    (table : Table) (h : SameRows t table) :
    (∀ past rest, calls = past ++ rest → Equal driver past t table) ↔ Fitting driver calls t := by
  induction calls generalizing t table with
  | nil =>
    refine ⟨fun _ => trivial, ?_⟩
    intro _ past rest hpast
    obtain ⟨rfl, -⟩ := List.append_eq_nil_iff.mp hpast.symm
    exact ⟨rfl, h⟩
  | cons c rest ih =>
    rw [Fitting, ← level_call_iff h]
    constructor
    · intro hequal
      obtain ⟨hanswer, hrows⟩ := hequal [c] rest rfl
      have hlevel : Level driver c t table := ⟨(List.cons.inj hanswer).1, hrows⟩
      refine ⟨hlevel, (ih _ _ hlevel.2).mp ?_⟩
      rintro past rest' rfl
      exact (equal_cons hlevel past).mp (hequal (c :: past) rest' rfl)
    · rintro ⟨hlevel, hfitting⟩ past rest' hpast
      cases past with
      | nil => exact ⟨rfl, h⟩
      | cons c' past =>
        obtain ⟨rfl, hrest⟩ := List.cons.inj hpast
        exact (equal_cons hlevel past).mpr ((ih _ _ hlevel.2).mpr hfitting past rest' hrest)

end Sequences

/-- A driver and a server that take every value. -/
def accepting : Driver := ⟨fun _ => .ok (), fun _ => .ok (), fun _ => .ok ()⟩

def order : Row := ⟨1, "order", "order-1001: shipped"⟩

def session : Row := ⟨2, "session", "session-a1: active"⟩

def stored : Table := ⟨[order, session], by decide⟩

theorem sameRows_stored : SameRows (.init [order, session]) stored := fun _ => Iff.rfl

/-- Asked for in descending order, rows come back in different orders; and a row that is
inserted again replaces the one that took its id, or does not. -/
theorem repositories_differ :
    SameRows (.init [order, session]) stored ∧
      ¬ Equal accepting [.getByIds [2, 1]] (.init [order, session]) stored ∧
      ¬ Equal accepting [.delete [1], .insertMany [⟨1, "order", "order-1004: pending"⟩],
        .insertMany [order]] (.init [order, session]) stored := by
  refine ⟨sameRows_stored, ?_, ?_⟩
  · rintro ⟨hanswers, -⟩
    have hrows : [session, order] = [order, session] :=
      Except.ok.inj (List.cons.inj hanswers).1
    exact absurd hrows (by decide)
  · rintro ⟨-, hrows⟩
    have hkept : order ∈ [session, ⟨1, "order", "order-1004: pending"⟩] :=
      (hrows order).mp (by decide)
    exact absurd hkept (by decide)

theorem reinserted_alike :
    Equal accepting [.getByIds [1, 2], .delete [1], .insertMany [order], .getByKind none 5]
      (.init [order, session]) stored := by
  have hfitting : Fitting accepting
      [.getByIds [1, 2], .delete [1], .insertMany [order], .getByKind none 5]
      (.init [order, session]) := by
    refine ⟨⟨fun _ _ => rfl, ?_⟩, ⟨fun _ _ => rfl, trivial⟩, ⟨fun _ _ => ⟨rfl, rfl, rfl⟩, ?_⟩,
      ⟨⟨fun _ _ => rfl, rfl⟩, trivial⟩, trivial⟩
    · change [1, 2].Pairwise (· < ·)
      decide
    · intro id hid
      obtain rfl := List.mem_singleton.mp hid
      decide
  exact (equal_iff_fitting accepting _ _ _ sameRows_stored).mpr hfitting _ [] rfl

end PostgresRecords
