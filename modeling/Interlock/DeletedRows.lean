import Interlock.Dispatching
import Interlock.PostgresRecords

/-!
# The rows that a deletion reaches

The kind of a deletion is what is validated, fingerprinted and shown for approval. The
rows are picked by the kind only if no ids are given: given ids pick rows of any kind, and
each as often as it is listed.
-/

namespace DeletedRows

open Dictionary PythonValues RecordsTable Tools Execution Effects
open Dispatching (executeAction_hit executeAction_miss dispatch_of_split toolCall_delete)
open PostgresRecords

/-! ### Over any repository -/

/-- What `perform` of `delete_records` has assembled. -/
structure Deletion where
  deletedIds : List Int
  deletedCount : ℕ
  rows : List Row

/-- The body of `delete_records`, over any records repository. -/
def deleteRecords {σ : Type} (repo : Repository σ) (kind : String) (ids : Option (List Int)) :
    Action σ Deletion := do
  let rows ← match ids with
    | some ids => repo.getByIds ids
    | none => repo.getByKind (some kind) 1000000
  let idsToDelete := rows.map Row.id
  repo.delete idsToDelete
  return ⟨idsToDelete, idsToDelete.length, rows⟩

/-- Over the repository in memory it is what the tool performs. -/
theorem performDeleteRecords_inMemory (kind : String) (ids : Option (List Int)) (w : ToolContext) :
    ∃ d, (deleteRecords inMemory kind ids).run w.records =
        (.ok d, w.records.delete (d.rows.map Row.id)) ∧
      d.rows = rowsToDelete w.records kind ids ∧ d.deletedCount = d.rows.length ∧
      (performDeleteRecords kind ids).run w =
        (.ok ⟨.deleted kind d.deletedIds d.deletedCount, .reinsertRecords d.rows⟩,
          { w with records := w.records.delete (d.rows.map Row.id) }) := by
  cases ids with
  | none => exact ⟨_, rfl, rfl, List.length_map _, rfl⟩
  | some ids => exact ⟨_, rfl, rfl, List.length_map _, rfl⟩

/-- No row of another kind is touched, and the count that is returned is the number of
rows that are gone. -/
structure StaysWithin (kind : String) (before after : List Row) (count : Option ℕ) : Prop where
  untouched : ∀ r, r.kind ≠ kind → (r ∈ after ↔ r ∈ before)
  counted : ∀ n, count = some n → n = (before.filter fun r => decide (r ∉ after)).length

theorem staysWithin_still {kind : String} {rows : List Row} : StaysWithin kind rows rows none :=
  ⟨fun _ _ => Iff.rfl, fun _ h => nomatch h⟩

/-- Deleting a list of stored rows. -/
theorem staysWithin_iff {kind : String} {before after rows : List Row} (hbefore : before.Nodup)
    (hrows : ∀ r ∈ rows, r ∈ before) (hafter : ∀ r, r ∈ after ↔ r ∈ before ∧ r ∉ rows) :
    StaysWithin kind before after (some rows.length) ↔
      (∀ r ∈ rows, r.kind = kind) ∧ rows.Nodup := by
  have hgone : (before.filter fun r => decide (r ∉ after)).length = rows.dedup.length := by
    rw [← List.card_toFinset, ← List.toFinset_card_of_nodup (hbefore.filter _)]
    congr 1
    ext r
    simp only [List.mem_toFinset, List.mem_filter, decide_eq_true_iff, hafter]
    constructor
    · rintro ⟨hmem, hnot⟩
      by_contra hr
      exact hnot ⟨hmem, hr⟩
    · intro hr
      exact ⟨hrows r hr, fun h => h.2 hr⟩
  constructor
  · intro h
    constructor
    · intro r hr
      by_contra hkind
      exact ((hafter r).mp ((h.untouched r hkind).mpr (hrows r hr))).2 hr
    · have hlength : rows.length = rows.dedup.length := (h.counted _ rfl).trans hgone
      exact List.dedup_eq_self.mp ((List.dedup_sublist rows).eq_of_length hlength.symm)
  · rintro ⟨hkinds, hnodup⟩
    constructor
    · intro r hkind
      rw [hafter]
      exact and_iff_left fun hr => hkind (hkinds r hr)
    · rintro n ⟨⟩
      rw [hgone, hnodup.dedup]

/-! ### In memory -/

section Memory

variable {t : RecordsRepository} {w : ToolContext} {kind key : String} {parameters : Json}

/-- The count that a result reports, if it is one of a deletion. -/
def reportedCount : ExecutionResult → Option ℕ
  | .deleted _ _ count => some count
  | _ => none

/-- The count that an execution returns, if it deletes. -/
def deletedCount : Except PyError Outcome → Option ℕ
  | .ok outcome => reportedCount outcome.result
  | .error _ => none

/-- What decides about a deletion: the rows that its ids pick, or, with a key in the ledger, the
count that is reported again while nothing is removed. -/
def KeepsTo (w : ToolContext) (kind : String) (parameters : Json) (key : String) : Prop :=
  match w.store.get? key with
  | none => ∀ given, dispatch ("delete_records" ++ ":" ++ kind) parameters =
        .ok (.deleteRecords kind (some given)) →
      (∀ id ∈ given, ∀ r, w.records.rows.get? id = some r → r.kind = kind) ∧
        (given.filter fun id => (w.records.rows.get? id).isSome).Nodup
  | some existing => ∀ call, dispatch ("delete_records" ++ ":" ++ kind) parameters = .ok call →
      ∀ n, reportedCount existing.result = some n → n = 0

theorem mem_delete_rows {rows : List Row} (hrows : ∀ r ∈ rows, t.rows.get? r.id = some r) (r : Row) :
    r ∈ (t.delete (rows.map Row.id)).rows.values ↔ r ∈ t.rows.values ∧ r ∉ rows := by
  have hstored : ∀ u : RecordsRepository, r ∈ u.rows.values ↔ u.rows.get? r.id = some r := by
    intro u
    simp [stored_iff]
  rw [hstored, hstored, RecordsRepository.get?_delete]
  split
  · rename_i hid
    obtain ⟨r', hr', heq⟩ := List.mem_map.mp hid
    have hr := hrows r' hr'
    rw [heq] at hr
    constructor
    · intro hnone
      cases hnone
    · rintro ⟨hsome, hnot⟩
      rw [hr] at hsome
      cases hsome
      exact absurd hr' hnot
  · rename_i hid
    exact (and_iff_left fun hr => hid (List.mem_map_of_mem hr)).symm

theorem rowsToDelete_kinds (ids : Option (List Int)) :
    ((∀ r ∈ rowsToDelete t kind ids, r.kind = kind) ∧ (rowsToDelete t kind ids).Nodup) ↔
      ∀ given, ids = some given →
        (∀ id ∈ given, ∀ r, t.rows.get? id = some r → r.kind = kind) ∧
          (given.filter fun id => (t.rows.get? id).isSome).Nodup := by
  cases ids with
  | none =>
    refine iff_of_true ⟨?_, ?_⟩ fun _ h => nomatch h
    · intro r hr
      exact RecordsRepository.kind_of_mem_getByKind hr
    · have hvalues : ((t.rows.values.filter fun r => r.kind == kind).map Row.id).Nodup :=
        values_nodup.sublist (List.filter_sublist.map Row.id)
      have hsorted := (List.Nodup.of_map Row.id hvalues)
      exact (((List.perm_insertionSort _ _).nodup_iff).mpr hsorted).sublist (List.take_sublist _ _)
  | some given =>
    have hnodup : (t.getByIds given).Nodup ↔
        (given.filter fun id => (t.rows.get? id).isSome).Nodup := by
      rw [← getByIds_ids]
      refine ⟨fun h => h.map_on ?_, List.Nodup.of_map Row.id⟩
      intro a ha b hb hab
      have hstored := (RecordsRepository.mem_getByIds.mp ha).2
      rw [hab, (RecordsRepository.mem_getByIds.mp hb).2] at hstored
      exact (Option.some.inj hstored).symm
    simp only [rowsToDelete, hnodup, Option.some.injEq, forall_eq']
    refine and_congr_left fun _ => ?_
    constructor
    · intro h id hid r hr
      refine h r (RecordsRepository.mem_getByIds.mpr ?_)
      rw [t.keyed id r hr]
      exact ⟨hid, hr⟩
    · intro h r hr
      obtain ⟨hid, hstored⟩ := RecordsRepository.mem_getByIds.mp hr
      exact h r.id hid r hstored

/-- Nothing is removed. -/
theorem staysWithin_same {rows : List Row} {count : Option ℕ} :
    StaysWithin kind rows rows count ↔ ∀ n, count = some n → n = 0 := by
  have hnone : (rows.filter fun r => decide (r ∉ rows)).length = 0 := by
    rw [List.length_eq_zero_iff, List.filter_eq_nil_iff]
    simp
  constructor
  · intro h n hn
    rw [h.counted n hn, hnone]
  · exact fun h => ⟨fun _ _ => Iff.rfl, fun n hn => (h n hn).trans hnone.symm⟩

theorem execution_staysWithin_iff :
    StaysWithin kind w.records.rows.values
        ((executeAction ("delete_records" ++ ":" ++ kind) parameters key).run w).2.records.rows.values
        (deletedCount ((executeAction ("delete_records" ++ ":" ++ kind) parameters key).run w).1) ↔
      KeepsTo w kind parameters key := by
  have hsplit : splitColon ("delete_records" ++ ":" ++ kind) = .ok ("delete_records", kind) :=
    splitColon_exact kind (by decide)
  rw [KeepsTo]
  cases hcall : dispatch ("delete_records" ++ ":" ++ kind) parameters with
  | error e =>
    have hraise : (executeAction ("delete_records" ++ ":" ++ kind) parameters key).run w =
        (.error e, w) := by
      apply Action.run_bind_of_error
      rw [Action.run_lift, hcall]
    rw [hraise]
    refine iff_of_true staysWithin_still ?_
    split <;> intro _ h <;> cases h
  | ok call =>
    cases hs : w.store.get? key with
    | some existing =>
      rw [executeAction_hit hcall hs, staysWithin_same]
      exact ⟨fun h _ _ => h, fun h => h call rfl⟩
    | none =>
      have hdelete := hcall
      rw [dispatch_of_split hsplit, toolCall_delete] at hdelete
      obtain ⟨value, _, hdelete⟩ := except_bind_ok_iff.mp hdelete
      obtain ⟨ids, _, hdelete⟩ := except_bind_ok_iff.mp hdelete
      cases hdelete
      obtain ⟨d, _, hrows, hcount, hperform⟩ := performDeleteRecords_inMemory kind ids w
      rw [hrows] at hcount hperform
      rw [executeAction_miss hcall hs hperform]
      have hstored : ∀ r ∈ rowsToDelete w.records kind ids, w.records.rows.get? r.id = some r :=
        fun r => stored_of_mem_rowsToDelete
      simp only [deletedCount, reportedCount, hcount]
      rw [staysWithin_iff (List.Nodup.of_map Row.id values_nodup)
        (fun r hr => (stored_iff.mp (hstored r hr)).1) (mem_delete_rows hstored), rowsToDelete_kinds]
      simp

end Memory

/-! ### In Postgres -/

section Server

variable {driver : Driver} {table : Table} {kind : String}

theorem mem_select {p : Row → Bool} {r : Row} :
    r ∈ table.select p ↔ r ∈ table.rows ∧ p r = true := by
  rw [Table.select, List.mem_insertionSort, List.mem_filter]

theorem nodup_select (p : Row → Bool) : (table.select p).Nodup := by
  rw [Table.select, (List.perm_insertionSort _ _).nodup_iff]
  exact (List.Nodup.of_map Row.id table.unique).filter p

/-- Deleting rows that a query of the table has returned. -/
theorem selected_staysWithin {rows : List Row} (hrows : ∀ r ∈ rows, r ∈ table.rows)
    (hnodup : rows.Nodup) :
    StaysWithin kind table.rows
        ((((postgres driver).delete (rows.map Row.id)) >>= fun _ =>
          (pure ⟨rows.map Row.id, (rows.map Row.id).length, rows⟩ : Action Table Deletion)).run
            table).2.rows
        (((((postgres driver).delete (rows.map Row.id)) >>= fun _ =>
          (pure ⟨rows.map Row.id, (rows.map Row.id).length, rows⟩ : Action Table Deletion)).run
            table).1.toOption.map Deletion.deletedCount) ↔
      (forM (rows.map Row.id) driver.int4 = .ok () → ∀ r ∈ rows, r.kind = kind) := by
  cases hcheck : forM (rows.map Row.id) driver.int4 with
  | error e =>
    rw [Action.run_bind_of_error (delete_refused hcheck)]
    exact iff_of_true staysWithin_still fun h => nomatch h
  | ok u =>
    have hafter : ∀ r, r ∈ (table.deleteAny (rows.map Row.id)).rows ↔
        r ∈ table.rows ∧ r ∉ rows := by
      intro r
      rw [Table.deleteAny, List.mem_filter, decide_eq_true_iff]
      refine and_congr_right fun hr => not_congr ⟨?_, List.mem_map_of_mem⟩
      intro hid
      obtain ⟨r', hr', heq⟩ := List.mem_map.mp hid
      rw [← List.inj_on_of_nodup_map table.unique (hrows r' hr') hr heq]
      exact hr'
    have hcount : (rows.map Row.id).length = rows.length := List.length_map _
    rw [Action.run_bind_of_ok (delete_taken hcheck)]
    simp only [Action.run_pure, Except.toOption, Option.map_some, hcount]
    rw [staysWithin_iff (List.Nodup.of_map Row.id table.unique) hrows hafter]
    simp [hnodup]

theorem server_staysWithin_iff (ids : Option (List Int)) :
    StaysWithin kind table.rows ((deleteRecords (postgres driver) kind ids).run table).2.rows
        (((deleteRecords (postgres driver) kind ids).run table).1.toOption.map
          Deletion.deletedCount) ↔
      ∀ given, ids = some given → (∀ id ∈ given, driver.int4 id = .ok ()) →
        ∀ r ∈ table.rows, r.id ∈ given → r.kind = kind := by
  cases ids with
  | none =>
    refine iff_of_true ?_ fun _ h => nomatch h
    cases hcheck : driver.text kind >>= fun _ => driver.int8 1000000 with
    | error e =>
      have hrun : (deleteRecords (postgres driver) kind none).run table = (.error e, table) :=
        Action.run_bind_of_error ((checked_kind kind 1000000).refused e hcheck)
      rw [hrun]
      exact staysWithin_still
    | ok u =>
      have hrun : (deleteRecords (postgres driver) kind none).run table = _ :=
        Action.run_bind_of_ok ((checked_kind kind 1000000).taken hcheck)
      rw [hrun]
      have hpicked : ∀ r ∈ (table.select fun r => r.kind == kind).take 1000000,
          r ∈ table.rows ∧ r.kind = kind := fun r hr => by
        simpa [mem_select] using List.mem_of_mem_take hr
      apply (selected_staysWithin (fun r hr => (hpicked r hr).1) _).mpr
      · exact fun _ r hr => (hpicked r hr).2
      · exact (nodup_select _).sublist (List.take_sublist _ _)
  | some given =>
    simp only [Option.some.injEq, forall_eq']
    cases hcheck : forM given driver.int4 with
    | error e =>
      have hrun : (deleteRecords (postgres driver) kind (some given)).run table = (.error e, table) :=
        Action.run_bind_of_error ((checked_getByIds given).refused e hcheck)
      rw [hrun, ← forM_ok_iff, hcheck]
      exact iff_of_true staysWithin_still fun h => nomatch h
    | ok u =>
      have htaken := forM_ok_iff.mp hcheck
      have hrun : (deleteRecords (postgres driver) kind (some given)).run table = _ :=
        Action.run_bind_of_ok ((checked_getByIds given).taken hcheck)
      rw [hrun]
      have hpicked : ∀ r, r ∈ (table.select fun r => decide (r.id ∈ given)) ↔
          r ∈ table.rows ∧ r.id ∈ given := fun r => by simp [mem_select]
      have hids : forM ((table.select fun r => decide (r.id ∈ given)).map Row.id) driver.int4 =
          .ok () := by
        rw [forM_ok_iff]
        intro id hid
        obtain ⟨r, hr, rfl⟩ := List.mem_map.mp hid
        exact htaken r.id ((hpicked r).mp hr).2
      refine (selected_staysWithin (fun r hr => ((hpicked r).mp hr).1) (nodup_select _)).trans ?_
      constructor
      · intro h _ r hr hid
        exact h hids r ((hpicked r).mpr ⟨hr, hid⟩)
      · intro h _ r hr
        obtain ⟨hmem, hid⟩ := (hpicked r).mp hr
        exact h htaken r hmem hid

end Server

/-- A deletion stays within its kind exactly if no given id has a row of another kind, and,
in memory, no id of a stored row is given twice and no count is replayed from the ledger. -/
theorem deletion_staysWithin_iff (w : ToolContext) (driver : Driver) (table : Table)
    (kind : String) (parameters : Json) (ids : Option (List Int)) (key : String) :
    (StaysWithin kind w.records.rows.values
        ((executeAction ("delete_records" ++ ":" ++ kind) parameters key).run w).2.records.rows.values
        (deletedCount ((executeAction ("delete_records" ++ ":" ++ kind) parameters key).run w).1) ↔
      KeepsTo w kind parameters key) ∧
    (StaysWithin kind table.rows ((deleteRecords (postgres driver) kind ids).run table).2.rows
        (((deleteRecords (postgres driver) kind ids).run table).1.toOption.map
          Deletion.deletedCount) ↔
      ∀ given, ids = some given → (∀ id ∈ given, driver.int4 id = .ok ()) →
        ∀ r ∈ table.rows, r.id ∈ given → r.kind = kind) :=
  ⟨execution_staysWithin_iff, server_staysWithin_iff ids⟩

/-- An order and a session. -/
def twoKinds : ToolContext := { clients := .empty, records := .init [order, session] }

def givenIds (ids : List Int) : Json := .obj [("ids", .arr (ids.map Json.int))]

/-- A deletion of sessions that is given the id of the order deletes the order, and one
that is given the session twice counts it twice. -/
theorem order_deleted_with_sessions :
    ¬ StaysWithin "session" twoKinds.records.rows.values
        ((executeAction "delete_records:session" (givenIds [1]) "run-1").run
          twoKinds).2.records.rows.values
        (deletedCount ((executeAction "delete_records:session" (givenIds [1]) "run-1").run
          twoKinds).1) ∧
      ¬ StaysWithin "session" twoKinds.records.rows.values
        ((executeAction "delete_records:session" (givenIds [2, 2]) "run-1").run
          twoKinds).2.records.rows.values
        (deletedCount ((executeAction "delete_records:session" (givenIds [2, 2]) "run-1").run
          twoKinds).1) := by
  constructor
  · intro h
    exact absurd ((h.untouched order (by decide)).mpr (by decide +kernel)) (by decide +kernel)
  · intro h
    exact absurd (h.counted 2 (by decide +kernel)) (by decide +kernel)

theorem sessions_deleted :
    StaysWithin "session" twoKinds.records.rows.values
      ((executeAction ("delete_records" ++ ":" ++ "session") (givenIds [2, 7]) "run-1").run
        twoKinds).2.records.rows.values
      (deletedCount ((executeAction ("delete_records" ++ ":" ++ "session") (givenIds [2, 7])
        "run-1").run twoKinds).1) := by
  apply (deletion_staysWithin_iff twoKinds accepting stored "session" (givenIds [2, 7]) none
    "run-1").1.mpr
  intro given hgiven
  have hcall : dispatch ("delete_records" ++ ":" ++ "session") (givenIds [2, 7]) =
      .ok (.deleteRecords "session" (some [2, 7])) := by rfl
  rw [hcall] at hgiven
  cases hgiven
  refine ⟨?_, by decide +kernel⟩
  intro id hid r hr
  simp only [List.mem_cons, List.not_mem_nil, or_false] at hid
  rcases hid with rfl | rfl
  · cases hr
    rfl
  · cases hr

end DeletedRows
