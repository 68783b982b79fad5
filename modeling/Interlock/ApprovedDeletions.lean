import Interlock.Dispatching
import Interlock.DriftDetection

/-!
# What an approved deletion deletes

The sweep shows the first thousand rows of the table, whatever their kinds; a deletion
without ids reaches the first million rows of its kind. The rows of the kind that no
sweep shows are deleted unseen.
-/

namespace ApprovedDeletions

open Dictionary PythonValues RecordsTable Tools DiagnosticSweep Fingerprint Execution Effects
open RunState Nodes Graph Transitions Walks PlanningCycle Anchoring Dispatching DriftDetection

/-! ### Three queries of one table -/

def idsOf (t : RecordsRepository) (kind : String) : Set Int :=
  {k | ∃ r, t.rows.get? k = some r ∧ r.kind = kind}

/-- The ids that given rows show of a kind. -/
def listed (rows : List Row) (kind : String) : Set Int :=
  {k | ∃ r ∈ rows, r.kind = kind ∧ r.id = k}

/-- What a sweep shows of a kind. -/
def swept (t : RecordsRepository) (kind : String) : Set Int :=
  listed (t.getByKind none 1000) kind

/-- What a deletion without ids would delete. -/
def reached (t : RecordsRepository) (kind : String) : Set Int :=
  listed (t.getByKind (some kind) 1000000) kind

def deletedBy (v : Visit) : Set Int :=
  {k | (v.worldBefore.records.rows.get? k).isSome ∧ v.worldAfter.records.rows.get? k = none}

/-- The rows of the kind on which the proposal was made were still there, and the ones
that it could not see are the ones that the last sweep could not see either. A key that
the ledger knows deletes nothing. -/
def ExactDeletion (kind : String) (prop v : Visit) : Prop :=
  ∃ obs key, prop.before.observations = some obs ∧ v.before.idempotencyKey = some (.str key) ∧
    ((v.worldBefore.store.get? key = none ∧
        listed obs.records kind ⊆ idsOf prop.worldBefore.records kind ∧
        idsOf prop.worldBefore.records kind \ listed obs.records kind =
          reached v.worldBefore.records kind \ swept v.worldBefore.records kind) ∨
      (v.worldBefore.store.get? key ≠ none ∧ idsOf prop.worldBefore.records kind = ∅))

section Queries

variable {t : RecordsRepository} {kind : String} {rows : List Row} {k : Int}

theorem swept_subset_reached : swept t kind ⊆ reached t kind := by
  rintro k ⟨r, hmem, hkind, hid⟩
  exact ⟨r, RecordsRepository.mem_getByKind_of_mem hmem hkind (by norm_num), hkind, hid⟩

theorem mem_reached_iff :
    k ∈ reached t kind ↔ k ∈ (t.getByKind (some kind) 1000000).map Row.id := by
  constructor
  · rintro ⟨r, hmem, _, hid⟩
    exact List.mem_map.mpr ⟨r, hmem, hid⟩
  · intro h
    obtain ⟨r, hmem, hid⟩ := List.mem_map.mp h
    exact ⟨r, hmem, RecordsRepository.kind_of_mem_getByKind hmem, hid⟩

theorem stored_of_reached (h : k ∈ reached t kind) : (t.rows.get? k).isSome := by
  obtain ⟨r, hmem, _, rfl⟩ := h
  rw [RecordsRepository.stored_of_mem_getByKind hmem]
  rfl

/-- The fingerprint of a deletion holds the listed ids of its kind, in order. -/
theorem listed_of_fields {action : String} {obs fresh : Observations}
    (hsplit : splitColon action = .ok ("delete_records", kind))
    (h : observedFields obs action = observedFields fresh action) :
    listed obs.records kind = listed fresh.records kind := by
  have hfields : ∀ o : Observations, observedFields o action =
      .ok [("kind", .str kind), ("ids", .ints
        (((o.records.filter fun r => r.kind == kind).map Row.id).insertionSort (· ≤ ·)))] := by
    intro o
    rw [observedFields, hsplit]
    rfl
  have hlisted : ∀ (o : Observations) (k : Int), k ∈ listed o.records kind ↔
      k ∈ ((o.records.filter fun r => r.kind == kind).map Row.id).insertionSort (· ≤ ·) := by
    intro o k
    simp only [listed, Set.mem_ofPred_eq, List.mem_insertionSort, List.mem_map, List.mem_filter,
      beq_iff_eq, and_assoc]
  rw [hfields, hfields] at h
  have hids : ((obs.records.filter fun r => r.kind == kind).map Row.id).insertionSort (· ≤ ·) =
      ((fresh.records.filter fun r => r.kind == kind).map Row.id).insertionSort (· ≤ ·) := by
    simpa using h
  ext k
  rw [hlisted, hlisted, hids]

end Queries

/-! ### The deletion of an execution -/

section Executions

variable {v : Visit} {action key kind : String} {outcome : Outcome}

/-- A new key deletes what is in reach. -/
theorem deletedBy_performed
    (hcall : dispatch action (parametersOf v.before) = .ok (.deleteRecords kind none))
    (hnew : v.worldBefore.store.get? key = none)
    (hrun : (executeAction action (parametersOf v.before) key).run v.worldBefore =
      (.ok outcome, v.worldAfter)) :
    deletedBy v = reached v.worldBefore.records kind := by
  rw [executeAction_miss hcall hnew (performDeleteRecords_run kind none _)] at hrun
  have hafter : v.worldAfter.records = v.worldBefore.records.delete
      ((v.worldBefore.records.getByKind (some kind) 1000000).map Row.id) :=
    congrArg ToolContext.records (Prod.mk.inj hrun).2.symm
  ext k
  simp only [deletedBy, Set.mem_ofPred_eq, hafter, RecordsRepository.get?_delete]
  rw [mem_reached_iff]
  constructor
  · rintro ⟨hstored, hgone⟩
    by_contra hk
    rw [if_neg hk] at hgone
    rw [hgone] at hstored
    cases hstored
  · intro hk
    exact ⟨stored_of_reached (mem_reached_iff.mpr hk), if_pos hk⟩

/-- A replayed key deletes nothing. -/
theorem deletedBy_replayed {existing : LedgerEntry}
    (hcall : dispatch action (parametersOf v.before) = .ok (.deleteRecords kind none))
    (hknown : v.worldBefore.store.get? key = some existing)
    (hrun : (executeAction action (parametersOf v.before) key).run v.worldBefore =
      (.ok outcome, v.worldAfter)) :
    deletedBy v = ∅ := by
  rw [executeAction_hit hcall hknown] at hrun
  have hafter : v.worldAfter = v.worldBefore := (Prod.mk.inj hrun).2.symm
  ext k
  simp only [deletedBy, Set.mem_ofPred_eq, hafter, Set.mem_empty_iff_false, iff_false, not_and]
  intro hstored hgone
  rw [hgone] at hstored
  cases hstored

end Executions

section Runs

variable {rt : Runtime} {others : ToolContext → ToolContext → Prop} {runId : String}
variable {initialState : AgentState} {world : ToolContext} {past : List Event} {v : Visit}
variable {c : Config} {action kind : String}

/-- Before an approved execution a revalidation saw the fields of the action as the
snapshot of the proposal had them. -/
theorem seen_at_proposal (hdigest : Function.Injective rt.digest) (hrt : rt.revalidate = true)
    (run : Run rt others runId initialState world (.visit v :: past) c) (hexecute : v.node = .execute)
    (happroval : ∃ a ∈ cycle past, a.node = .awaitApproval)
    (haction : v.before.proposedAction = some (.str action)) :
    ∃ rev prop older obs fresh, rev ∈ cycle past ∧ rev.node = .revalidate ∧
      visits past = cycle past ++ prop :: older ∧ prop.node = .proposeAction ∧
      prop.before.observations = some obs ∧ gatherObservations rev.worldBefore = .ok fresh ∧
      observedFields obs action = observedFields fresh action := by
  obtain ⟨prep, rev, awt, mrk, cls, prop, older, w, hvs, hcycle, hwalk, hprep, hrev, hawt, hmrk,
    hcls, hprop, hvalid, d, hd, hsteady⟩ := approved_route hrt run hexecute happroval
  obtain ⟨hlast, _, hledPrep, _⟩ := walk_cons hwalk
  obtain ⟨hprepBefore, _, hwalkRev⟩ := walk_cons_cons hwalk
  obtain ⟨_, _, hledRev, _⟩ := walk_cons hwalkRev
  obtain ⟨hrevBefore, _, hwalkAwt⟩ := walk_cons_cons hwalkRev
  obtain ⟨hawtAfter, _, hledAwt, _⟩ := walk_cons hwalkAwt
  obtain ⟨_, _, hwalkMrk⟩ := walk_cons_cons hwalkAwt
  obtain ⟨_, _, hwalkCls⟩ := walk_cons_cons hwalkMrk
  obtain ⟨_, _, hwalkProp⟩ := walk_cons_cons hwalkCls
  obtain ⟨_, _, hledProp, _⟩ := walk_cons hwalkProp
  -- the decision anchors to the snapshot of the proposal, edited or not
  have hlater : ∀ u ∈ [awt, mrk, cls], u.node ≠ .proposeAction := by simp [hawt, hmrk, hcls]
  have hproposed : Walk rt others _ world ([awt, mrk, cls] ++ prop :: older) _ _ _ := hwalkAwt
  obtain ⟨obs, action', f, hobs, haction', hf, hstored⟩ :=
    anchored_since_proposal hproposed hprop hlater hvalid
  have hsnapshot : prop.before.observations = some obs := by
    have hkept := (led_kept hledAwt).observations (by simp [hawt]) (by simp [hawt])
    have hprop' := (led_kept hledProp).observations (by simp [hprop]) (by simp [hprop])
    obtain ⟨_, hmarked, _⟩ := kept_until_approval hwalkMrk hmrk hcls
    rw [← hprop', ← hmarked, ← hkept, ← hawtAfter, hobs]
  obtain ⟨_, fresh, swept, g, anchored, hfresh, hswept, hg, hanchored, hrevAfter⟩ :=
    led_revalidate hledRev hrev
  rw [haction'] at hswept
  cases hswept
  have hsame : f = g := by
    rw [hstored] at hanchored
    cases hanchored
    rw [hrevAfter] at hd
    cases hd
    by_contra hne
    simp [Json.truthy, Ne.symm hne] at hsteady
  have hexecuted : action' = action := by
    have hprepKept := (led_kept hledPrep).proposedAction (by simp [hprep]) (by simp [hprep])
    rw [hlast, hprepKept, hprepBefore, hrevAfter] at haction
    have hboth := haction'.symm.trans haction
    cases hboth
    rfl
  subst hexecuted
  exact ⟨rev, prop, older, obs, fresh, by rw [hcycle]; simp, hrev, by rw [hcycle, hvs]; rfl, hprop,
    hsnapshot, hfresh, (fingerprints_agree_iff hdigest hf hg).mp hsame⟩

/-- After a steady revalidation, and with no row changed since, an approved deletion without
ids deletes the rows of its kind that existed when it was proposed, if and only if it is no
replay and the rows that the sweeps do not show have stayed the same. -/
theorem deletes_approved_iff (hdigest : Function.Injective rt.digest) (hrt : rt.revalidate = true)
    (run : Run rt others runId initialState world (.visit v :: past) c) (hexecute : v.node = .execute)
    (happroval : ∃ a ∈ cycle past, a.node = .awaitApproval)
    (haction : v.before.proposedAction = some (.str action))
    (hcall : dispatch action (parametersOf v.before) = .ok (.deleteRecords kind none)) :
    ∃ rev prop older, rev ∈ cycle past ∧ rev.node = .revalidate ∧
      visits past = cycle past ++ prop :: older ∧ prop.node = .proposeAction ∧
      (v.worldBefore.records = rev.worldBefore.records →
        (deletedBy v = idsOf prop.worldBefore.records kind ↔ ExactDeletion kind prop v)) := by
  obtain ⟨rev, prop, older, obs, fresh, hmem, hrev, hvisits, hprop, hobs, hfresh, hfields⟩ :=
    seen_at_proposal hdigest hrt run hexecute happroval haction
  refine ⟨rev, prop, older, hmem, hrev, hvisits, hprop, ?_⟩
  intro hunchanged
  obtain ⟨hled, _⟩ := run_visit_walk run
  obtain ⟨action', key, outcome, haction', hkey, hrun, _⟩ := led_execute hled hexecute
  rw [haction] at haction'
  cases haction'
  have hsplit : splitColon action = .ok ("delete_records", kind) := by
    obtain ⟨⟨tool, target⟩, hsplit, hcalled⟩ := except_bind_ok_iff.mp hcall
    obtain ⟨htool, htarget⟩ := named_by_call hcalled
    rw [hsplit, ← htool, ← htarget]
    rfl
  have hshown : listed obs.records kind = swept v.worldBefore.records kind := by
    rw [listed_of_fields hsplit hfields, gather_records hfresh, hunchanged]
    rfl
  cases hstore : v.worldBefore.store.get? key with
  | none =>
    rw [deletedBy_performed hcall hstore hrun]
    constructor
    · intro hsame
      refine ⟨obs, key, hobs, hkey, Or.inl ⟨hstore, ?_, ?_⟩⟩
      · rw [hshown, ← hsame]
        exact swept_subset_reached
      · rw [hshown, hsame]
    · rintro ⟨obs', key', hobs', hkey', hcases⟩
      rw [hobs] at hobs'
      cases hobs'
      rw [hkey] at hkey'
      cases hkey'
      rcases hcases with ⟨_, hsubset, hhidden⟩ | ⟨hknown, _⟩
      · rw [hshown] at hsubset hhidden
        calc reached v.worldBefore.records kind
            = swept v.worldBefore.records kind ∪
                (reached v.worldBefore.records kind \ swept v.worldBefore.records kind) :=
              (Set.union_sdiff_cancel swept_subset_reached).symm
          _ = idsOf prop.worldBefore.records kind := by
              rw [← hhidden, Set.union_sdiff_cancel hsubset]
      · exact absurd hstore hknown
  | some existing =>
    rw [deletedBy_replayed hcall hstore hrun]
    constructor
    · intro hnone
      exact ⟨obs, key, hobs, hkey, Or.inr ⟨by simp [hstore], hnone.symm⟩⟩
    · rintro ⟨obs', key', _, hkey', hcases⟩
      rw [hkey] at hkey'
      cases hkey'
      rcases hcases with ⟨hnew, _⟩ | ⟨_, hnone⟩
      · rw [hstore] at hnew
        cases hnew
      · exact hnone.symm

end Runs

/-! ### A session behind a thousand orders -/

def orders (n : Nat) : List (Int × Row) :=
  (List.range n).map fun (i : Nat) => ((i : Int) + 1, ⟨(i : Int) + 1, "order", "x"⟩)

theorem orders_nodup (n : Nat) : ((orders n).map Prod.fst).Nodup := by
  rw [orders, List.map_map]
  refine List.Nodup.map ?_ List.nodup_range
  intro i j h
  have hsame : (i : Int) + 1 = j + 1 := h
  omega

theorem stored_order {n : Nat} {k : Int} {r : Row}
    (h : (Dict.mk (orders n) (orders_nodup n)).get? k = some r) : r.id = k ∧ k < n + 1 := by
  obtain ⟨i, hi, heq⟩ := List.mem_map.mp (Dict.mem_entries.mpr h)
  rw [List.mem_range] at hi
  cases heq
  exact ⟨rfl, by omega⟩

/-- A table of `n` orders. -/
def orderTable (n : Nat) : RecordsRepository where
  nextId := n + 1
  rows := ⟨orders n, orders_nodup n⟩
  keyed := fun _ _ h => (stored_order h).1
  below := fun _ _ h => (stored_order h).2

def insertSession (w : ToolContext) : ToolContext :=
  { w with records := w.records.insertMany [{ kind := "session", payload := "x" }] }

def deletionMoves (during : List Move) : List Move :=
  .answer {} :: (approvedMoves "delete_records" "session").take 3 ++ during ++
    (approvedMoves "delete_records" "session").drop 3 ++ [.answer {}, .answer {}]

def ordered (n : Nat) : ToolContext := { freshSandbox [] with records := orderTable n }

/-- An approved deletion of every session, with the table as the revalidation swept it. -/
def deletesSessions (v : Visit) (past : List Event) : Bool :=
  decide (v.node = .execute) && v.before.proposedAction.any (·.isStr "delete_records:session") &&
    decide ((dispatch "delete_records:session" (parametersOf v.before)).toOption =
      some (.deleteRecords "session" none)) &&
    (cycle past).any (fun a => decide (a.node = .awaitApproval)) &&
    (cycle past).any fun rev => decide (rev.node = .revalidate) &&
      decide (v.worldBefore.records.rows.entries = rev.worldBefore.records.rows.entries) &&
      decide (v.worldBefore.records.nextId = rev.worldBefore.records.nextId)

theorem same_table {t u : RecordsRepository} (hrows : t.rows.entries = u.rows.entries)
    (hnext : t.nextId = u.nextId) : t = u := by
  obtain ⟨n, ⟨entries, _⟩, _, _⟩ := t
  obtain ⟨m, ⟨entries', _⟩, _, _⟩ := u
  cases hrows
  cases hnext
  rfl

theorem deletesSessions_spec {v : Visit} {past : List Event} (h : deletesSessions v past = true) :
    v.node = .execute ∧ v.before.proposedAction = some (.str "delete_records:session") ∧
      dispatch "delete_records:session" (parametersOf v.before) =
        .ok (.deleteRecords "session" none) ∧
      (∃ a ∈ cycle past, a.node = .awaitApproval) ∧
      ∃ rev ∈ cycle past, rev.node = .revalidate ∧
        v.worldBefore.records = rev.worldBefore.records := by
  simp only [deletesSessions, Bool.and_eq_true, decide_eq_true_eq, List.any_eq_true] at h
  obtain ⟨⟨⟨⟨hexecute, haction⟩, hcall⟩, happroval⟩, rev, hmem, ⟨hrev, hrows⟩, hnext⟩ := h
  have hdispatch : dispatch "delete_records:session" (parametersOf v.before) =
      .ok (.deleteRecords "session" none) := eq_ok_of_toOption hcall
  exact ⟨hexecute, Json.any_isStr_iff.mp haction, hdispatch, happroval, rev, hmem, hrev,
    same_table hrows hnext⟩

set_option maxRecDepth 100000 in
/-- Somebody inserts a session while the run waits, where no sweep reaches: nothing drifts,
and the approved deletion deletes it. -/
theorem hidden_session_deleted :
    ∃ past v c rev prop older, Run { digest := id } (fun w w' => w' = insertSession w) "run-1" {}
        (ordered 1000) (.visit v :: past) c ∧
      v.node = .execute ∧ (∃ a ∈ cycle past, a.node = .awaitApproval) ∧
      v.before.proposedAction = some (.str "delete_records:session") ∧
      dispatch "delete_records:session" (parametersOf v.before) =
        .ok (.deleteRecords "session" none) ∧
      rev ∈ cycle past ∧ rev.node = .revalidate ∧
      v.worldBefore.records = rev.worldBefore.records ∧
      visits past = cycle past ++ prop :: older ∧ prop.node = .proposeAction ∧
      deletedBy v ≠ idsOf prop.worldBefore.records "session" := by
  obtain ⟨v, past, c, hplay, hcheck⟩ := endsIn_spec
    (p := fun v past _ => deletesSessions v past &&
      (v.worldBefore.records.rows.get? 1001).isSome &&
      (v.worldAfter.records.rows.get? 1001).isNone &&
      (visits past).any isPropose &&
      (visits past).all fun p => !isPropose p || (p.worldBefore.records.rows.get? 1001).isNone)
    (show endsIn (play { digest := id } (deletionMoves [.change insertSession]) []
      (startWorkflow "run-1" {} (ordered 1000))) _ = true by decide +kernel)
  simp only [Bool.and_eq_true, List.any_eq_true, List.all_eq_true, Bool.or_eq_true,
    Bool.not_eq_true', Option.isNone_iff_eq_none] at hcheck
  obtain ⟨⟨⟨⟨hdeletes, hstored⟩, hgone⟩, hproposed⟩, habsent⟩ := hcheck
  obtain ⟨hexecute, haction, hcall, happroval, rev, hmem, hrev, hsame⟩ :=
    deletesSessions_spec hdeletes
  have run : Run { digest := id } (fun w w' => w' = insertSession w) "run-1" {} (ordered 1000)
      (.visit v :: past) c :=
    play_trace (by simp [Allowed, deletionMoves, approvedMoves]) .start hplay
  obtain ⟨prop, older, hvisits, hprop⟩ := since_split hproposed
  refine ⟨past, v, c, rev, prop, older, run, hexecute, happroval, haction, hcall, hmem, hrev, hsame,
    hvisits, by simpa [isPropose] using hprop, ?_⟩
  intro h
  have hdeleted : (1001 : Int) ∈ deletedBy v := ⟨hstored, hgone⟩
  rw [h] at hdeleted
  obtain ⟨r, hr, _⟩ := hdeleted
  have hmember : prop ∈ visits past := by rw [hvisits]; simp
  rcases habsent prop hmember with hnot | hnone
  · rw [hprop] at hnot
    cases hnot
  · rw [hr] at hnone
    cases hnone

/-- In a table of two rows every sweep sees everything. -/
theorem seen_session_deleted :
    ∃ past v c prop, Run { digest := id } (fun _ _ => False) "run-1" {}
        (insertSession (ordered 1)) (.visit v :: past) c ∧
      prop ∈ visits past ∧ prop.node = .proposeAction ∧
      (deletedBy v = idsOf prop.worldBefore.records "session" ↔ ExactDeletion "session" prop v) := by
  obtain ⟨v, past, c, hplay, hcheck⟩ := endsIn_spec
    (p := fun v past _ => deletesSessions v past &&
      (cycle past).all fun rev => !decide (rev.node = .revalidate) ||
        decide (v.worldBefore.records.rows.entries = rev.worldBefore.records.rows.entries) &&
          decide (v.worldBefore.records.nextId = rev.worldBefore.records.nextId))
    (show endsIn (play { digest := id } (deletionMoves []) []
      (startWorkflow "run-1" {} (insertSession (ordered 1)))) _ = true by decide +kernel)
  simp only [Bool.and_eq_true, List.all_eq_true, Bool.or_eq_true, Bool.not_eq_true',
    decide_eq_true_eq, decide_eq_false_iff_not] at hcheck
  obtain ⟨hdeletes, hswept⟩ := hcheck
  obtain ⟨hexecute, haction, hcall, happroval, _⟩ := deletesSessions_spec hdeletes
  have run : Run { digest := id } (fun _ _ => False) "run-1" {} (insertSession (ordered 1))
      (.visit v :: past) c :=
    play_trace (by simp [Allowed, deletionMoves, approvedMoves]) .start hplay
  obtain ⟨rev, prop, older, hmem, hrev, hvisits, hprop, hiff⟩ :=
    deletes_approved_iff Function.injective_id rfl run hexecute happroval haction hcall
  refine ⟨past, v, c, prop, run, by rw [hvisits]; simp, hprop, hiff ?_⟩
  rcases hswept rev hmem with hnot | ⟨hrows, hnext⟩
  · exact absurd hrev hnot
  · exact same_table hrows hnext

end ApprovedDeletions
