import Interlock.Effects
import Interlock.Serving

/-!
# Runs apart

Runs share one ledger and one audit store. A ledger key is built from the `run_id` that
the nodes see and from the action, and an audit record carries that `run_id`; the body
that creates a run may bring one of its own. While different runs go by different ids,
neither executes on an entry of the other nor shows a record of the other.
-/

namespace Isolation

open Dictionary PythonValues MockService Tools DiagnosticSweep Fingerprint Execution RunState
open Nodes Graph Transitions Walks Suspension DecisionHonoured Service Serving

/-! ### Keys -/

/-- Where a text was joined can be read off its last colon. -/
theorem last_colon {x y x' y' : List Char} (hy : ':' ∉ y) (hy' : ':' ∉ y')
    (h : x ++ ':' :: y = x' ++ ':' :: y') : x = x' ∧ y = y' := by
  have hreverse : ∀ u v : List Char, (u ++ ':' :: v).reverse = v.reverse ++ ':' :: u.reverse := by
    simp
  have hcut : cutAtColon (y.reverse ++ ':' :: x.reverse) = some (y.reverse, x.reverse) :=
    cutAtColon_exact _ (by simpa using hy)
  have hcut' : cutAtColon (y'.reverse ++ ':' :: x'.reverse) = some (y'.reverse, x'.reverse) :=
    cutAtColon_exact _ (by simpa using hy')
  rw [← hreverse, h, hreverse, hcut', Option.some.injEq, Prod.mk.injEq, List.reverse_inj,
    List.reverse_inj] at hcut
  exact ⟨hcut.2.symm, hcut.1.symm⟩

/-- Known tools, services and record kinds are spelled without a colon. -/
theorem valid_no_colon {w : ToolContext} {obs : Observations} {action : String}
    (hsweep : gatherObservations w = .ok obs) (h : validateProposal obs action = .ok none) :
    ∃ tool target, action = tool ++ ":" ++ target ∧ ':' ∉ tool.toList ∧ ':' ∉ target.toList := by
  obtain ⟨tool, target, hsplit, htool, hkind, hservice⟩ := validateProposal_none h
  have htools : ∀ tool ∈ knownTools, ':' ∉ tool.toList := by decide
  have hkinds : ∀ kind ∈ recordKinds, ':' ∉ kind.toList := by decide
  have hservices : ∀ service ∈ knownServices, ':' ∉ service.toList := by decide
  refine ⟨tool, target, splitColon_eq hsplit, htools tool htool, ?_⟩
  by_cases hdelete : tool = "delete_records"
  · exact hkinds target (hkind hdelete)
  · obtain ⟨o, ho, _⟩ := hservice hdelete
    by_contra hcolon
    have hunknown : target ∉ knownServices := fun hknown => hservices target hknown hcolon
    rw [(gather_service hsweep target).2 hunknown] at ho
    cases ho

/-- A valid action can be read off its key, and with it the id, whatever the id is. -/
theorem idempotencyKey_inj {w w' : ToolContext} {obs obs' : Observations}
    {runId runId' action action' : String} (hsweep : gatherObservations w = .ok obs)
    (hvalid : validateProposal obs action = .ok none) (hsweep' : gatherObservations w' = .ok obs')
    (hvalid' : validateProposal obs' action' = .ok none)
    (h : idempotencyKey runId action = idempotencyKey runId' action') : runId = runId' := by
  obtain ⟨tool, target, rfl, htool, htarget⟩ := valid_no_colon hsweep hvalid
  obtain ⟨tool', target', rfl, htool', htarget'⟩ := valid_no_colon hsweep' hvalid'
  have hchars : (runId.toList ++ ':' :: tool.toList) ++ ':' :: target.toList =
      (runId'.toList ++ ':' :: tool'.toList) ++ ':' :: target'.toList := by
    have hlist := congrArg String.toList h
    simpa [idempotencyKey] using hlist
  obtain ⟨hleft, _⟩ := last_colon htarget htarget' hchars
  exact String.toList_inj.mp (last_colon htool htool' hleft).1

/-! ### Names of runs -/

/-- The texts that a run goes by from its start on: its own id, and the one that the
body may have brought. -/
def names : Label → List (String × String)
  | .served _ request (.began input) =>
    (request.runId, request.runId) :: match input.state.runId with
      | some (.str t) => [(request.runId, t)]
      | _ => []
  | _ => []

def GoesBy (labels : List Label) (r t : String) : Prop := (r, t) ∈ labels.flatMap names

/-- No text is a name of both runs. -/
def NamesApart (labels : List Label) (r r' : String) : Prop :=
  ∀ p ∈ labels.flatMap names, ∀ q ∈ labels.flatMap names, p.1 = r → q.1 = r' → p.2 ≠ q.2

instance (labels : List Label) (r r' : String) : Decidable (NamesApart labels r r') :=
  inferInstanceAs (Decidable (∀ p ∈ labels.flatMap names, ∀ q ∈ labels.flatMap names, _))

theorem NamesApart.symm {labels : List Label} {r r' : String} (h : NamesApart labels r r') :
    NamesApart labels r' r := by
  intro p hp q hq hpr hqr hsame
  exact h q hq p hp hqr hpr hsame.symm

theorem NamesApart.not_shared {labels : List Label} {r r' t : String}
    (h : NamesApart labels r r') (hr : GoesBy labels r t) : ¬ GoesBy labels r' t := by
  intro hr'
  exact h _ hr _ hr' rfl rfl rfl

theorem GoesBy.cons {labels : List Label} {r t : String} (h : GoesBy labels r t) (l : Label) :
    GoesBy (l :: labels) r t := by
  rw [GoesBy, List.flatMap_cons]
  exact List.mem_append_right _ h

/-- An action that `validate_proposal` accepts on some sweep. -/
def Accepted (s : AgentState) : Prop :=
  ∃ w obs action, gatherObservations w = .ok obs ∧ s.proposedAction = some (.str action) ∧
    validateProposal obs action = .ok none

/-- The visit stored a ledger entry. -/
def Wrote (v : Visit) (key : String) (entry : LedgerEntry) : Prop :=
  v.worldAfter.store.get? key = some entry ∧ v.worldBefore.store.get? key ≠ some entry

/-- An execution that found its key in the ledger. -/
def AnsweredFrom (v : Visit) (key : String) (entry : LedgerEntry) : Prop :=
  v.node = .execute ∧ v.before.idempotencyKey = some (.str key) ∧
    v.worldBefore.store.get? key = some entry

/-- A visit that a request about `r` made. -/
def Visited (labels : List Label) (r : String) (v : Visit) (record : AuditRecord) : Prop :=
  ∃ i request saved, Label.served i request (.visited saved v record) ∈ labels ∧ request.runId = r

/-- What the run `r` leaves in the ledger and what its audit shows have nothing to do with
the run `r'`. -/
structure Isolated (labels : List Label) (s : Server) (r r' : String) : Prop where
  keys : ∀ u v record record', Visited labels r u record → Visited labels r' v record' →
    u.node = .execute → v.node = .execute → Accepted u.before → Accepted v.before →
    u.before.idempotencyKey ≠ v.before.idempotencyKey
  ledger : ∀ u v record record' key entry, Visited labels r u record →
    Visited labels r' v record' → Accepted u.before → Accepted v.before →
    Wrote u key entry → ¬ AnsweredFrom v key entry
  audit : GoesBy labels r r → ∀ record ∈ s.getAudit r,
    (∃ writer v, Visited labels writer v record) ∧ ∀ v, ¬ Visited labels r' v record

/-! ### What a visit writes -/

section Visits

variable {rt : Runtime} {v : Visit} {next : Option Node}

/-- The key that an execution uses is the one of its run and its action. -/
def Keyed (s : AgentState) : Prop :=
  ∃ runId action, s.runId = some (.str runId) ∧ s.proposedAction = some (.str action) ∧
    s.idempotencyKey = some (.str (idempotencyKey runId action))

theorem keyed_of_led (hled : v.Led rt (some .execute)) : Keyed v.after := by
  have hedge := led_edge hled
  cases hnode : v.node with
  | prepareExecution =>
    obtain ⟨_, runId, action, hrunId, haction, hafter⟩ := led_prepareExecution hled hnode
    rw [hafter]
    exact ⟨runId, action, hrunId, haction, rfl⟩
  | _ =>
    rw [hnode] at hedge
    cases hedge

theorem applyCompensation_store {compensation : Compensation} {result : RollbackResult}
    {w w' : ToolContext} (h : (applyCompensation compensation).run w = (.ok result, w')) :
    w'.store = w.store := by
  have hpost : ∀ {α : Type} {service : String} {endpoint : Endpoint α} {f : α → RollbackResult},
      (post service endpoint >>= fun a => pure (f a)).run w = (.ok result, w') →
        w'.store = w.store := by
    intro α service endpoint f hrun
    obtain ⟨s, a, s', _, _, _, rfl⟩ := Effects.post_map_ok_iff.mp hrun
    rfl
  cases compensation with
  | noop reason =>
    cases h
    rfl
  | scaleService service replicas => exact hpost h
  | applyConfigChange service key value => exact hpost h
  | deploy service version => exact hpost h
  | reinsertRecords rows =>
    cases h
    rfl

/-- Only executions write to the ledger, under their own key. -/
theorem wrote_by_execute {key : String} {entry : LedgerEntry} (hled : v.Led rt next)
    (h : Wrote v key entry) :
    v.node = .execute ∧ v.before.idempotencyKey = some (.str key) := by
  obtain ⟨hafter, hbefore⟩ := h
  by_cases hexecute : v.node = .execute
  · refine ⟨hexecute, ?_⟩
    obtain ⟨action, key', outcome, _, hkey, hrun, _⟩ := led_execute hled hexecute
    obtain ⟨call, m, _, hcall, _⟩ := executeAction_ok_iff.mp hrun
    rcases run_ok_cases hcall with ⟨_, _, _, _, hsame⟩ | ⟨_, _, performed, hperform, hw⟩
    · rw [hsame] at hafter
      exact absurd hafter hbefore
    · by_cases hkeys : key' = key
      · rw [hkey, hkeys]
      · rw [hw, Dict.get?_setdefault, if_neg (fun h => hkeys h.1), perform_store hperform]
          at hafter
        exact absurd hafter hbefore
  · exfalso
    apply hbefore
    by_cases hrolling : v.node = .rollingBack
    · obtain ⟨compensation, result, _, hrun, _⟩ := led_rollingBack hled hrolling
      rw [← applyCompensation_store hrun, hafter]
    · rw [← (led_kept hled).world hexecute hrolling, hafter]

end Visits

/-! ### What every run goes by -/

section Runs

variable {rt : Runtime} {s s' : Server} {past labels : List Label} {l : Label}

/-- A checkpoint carries a name of its run, and before an execution the key made of it. -/
def Stamped (labels : List Label) (r : String) (copy : Checkpoint) : Prop :=
  (∃ id, copy.state.runId = some id ∧ ∀ t, id = .str t → GoesBy labels r t) ∧
    (copy.next = some .execute → Keyed copy.state)

theorem Stamped.cons {r : String} {copy : Checkpoint} (h : Stamped labels r copy) :
    Stamped (l :: labels) r copy := by
  obtain ⟨⟨id, hid, hname⟩, hkeyed⟩ := h
  exact ⟨⟨id, hid, fun t ht => (hname t ht).cons l⟩, hkeyed⟩

theorem stamped_visit {r : String} {answers : Answers} {node : Node} {copy : Checkpoint}
    {state : AgentState} {next : Option Node} {record : AuditRecord} {w world : ToolContext}
    (h : Stamped labels r copy)
    (henter : (enter rt answers node ⟨copy.state, copy.next, w, []⟩).run w =
      (.ok (state, next, record), world)) :
    Stamped labels r { copy with state := state, next := next } := by
  obtain ⟨⟨id, hid, hname⟩, _⟩ := h
  have hled := led_of_enter henter
  refine ⟨⟨id, (led_kept hled).runId.trans hid, hname⟩, ?_⟩
  intro hnext
  rw [show next = some .execute from hnext] at hled
  exact keyed_of_led hled

theorem stamped_step (h : Everywhere (Stamped past) s) (hs : Step rt s l s') :
    Everywhere (Stamped (l :: past)) s' := by
  refine everywhere_step (h.imp fun _ _ => Stamped.cons) hs ?_ fun h _ => stamped_visit h
  rintro i request uuid body rfl rfl
  have hid := input_runId s (Request.createRun uuid body).runId body
  refine ⟨⟨_, hid, ?_⟩, ?_⟩
  · rintro t ht
    rw [ht] at hid
    rw [GoesBy, List.flatMap_cons, names, hid]
    simp
  · intro hnext
    rw [Server.input] at hnext
    split at hnext <;> cases hnext

/-- What is known of a visit that a request about `r` made. -/
structure Provenance (rt : Runtime) (labels : List Label) (r : String) (v : Visit)
    (record : AuditRecord) : Prop where
  name : v.before.runId = some (.str record.runId)
  goesBy : GoesBy labels r record.runId
  keyed : v.node = .execute → Keyed v.before
  led : ∃ next, v.Led rt next

theorem provenance_of_enter {r : String} {answers : Answers} {node : Node} {copy : Checkpoint}
    {state : AgentState} {next : Option Node} {record : AuditRecord} {w world : ToolContext}
    (h : Stamped labels r copy) (hnext : copy.next = some node)
    (henter : (enter rt answers node ⟨copy.state, copy.next, w, []⟩).run w =
      (.ok (state, next, record), world)) :
    Provenance rt labels r ⟨node, answers, copy.state, w, state, world⟩ record := by
  obtain ⟨⟨id, hid, hname⟩, hkeyed⟩ := h
  have hled := led_of_enter henter
  obtain ⟨update, _, haudit, hstate, _⟩ := enter_ok_iff.mp henter
  obtain ⟨hrecord, _⟩ := auditRecord_fields haudit
  have hname' : copy.state.runId = some (.str record.runId) := by
    have hkept := (led_kept hled).runId
    rw [← hrecord, ← hkept]
    exact congrArg AgentState.runId hstate
  refine ⟨hname', hname _ ?_, fun hnode => hkeyed (by rw [hnext]; exact congrArg some hnode),
    next, hled⟩
  rw [hid] at hname'
  exact Option.some.inj hname'

theorem Provenance.cons {r : String} {v : Visit} {record : AuditRecord}
    (h : Provenance rt labels r v record) : Provenance rt (l :: labels) r v record :=
  ⟨h.name, h.goesBy.cons l, h.keyed, h.led⟩

theorem Visited.cons {r : String} {v : Visit} {record : AuditRecord}
    (h : Visited labels r v record) : Visited (l :: labels) r v record := by
  obtain ⟨i, request, saved, hmem, hr⟩ := h
  exact ⟨i, request, saved, List.mem_cons_of_mem l hmem, hr⟩

/-- Every visit goes back to a start of its run, and every record to a visit. -/
theorem provenance {world : ToolContext} (run : Trace (server rt) { world := world } labels s) :
    Everywhere (Stamped labels) s ∧
      (∀ r v record, Visited labels r v record → Provenance rt labels r v record) ∧
      ∀ record ∈ s.audit, ∃ r v, Visited labels r v record := by
  refine run.invariant (P := fun labels s => Everywhere (Stamped labels) s ∧
    (∀ r v record, Visited labels r v record → Provenance rt labels r v record) ∧
      ∀ record ∈ s.audit, ∃ r v, Visited labels r v record) ?_ ?_
  · refine ⟨everywhere_start world, ?_, by simp⟩
    rintro r v record ⟨_, _, _, hmem, _⟩
    cases hmem
  · rintro past b l c _ ⟨hstamped, hvisits, haudit⟩ hs
    refine ⟨stamped_step hstamped hs, ?_, ?_⟩
    · rintro r v record ⟨i, request, saved, hmem, rfl⟩
      rcases List.mem_cons.mp hmem with rfl | hmem
      · obtain ⟨phase, phase', t, hphase, hserved, _⟩ := step_served hs
        cases hserved with
        | visited hnext _ henter =>
          exact (provenance_of_enter (hstamped.running _ _ _ _ _ hphase) hnext henter).cons
      · exact (hvisits _ v record ⟨i, request, saved, hmem, rfl⟩).cons
    · intro record hrecord
      have hold : record ∈ b.audit → ∃ r v, Visited (l :: past) r v record := by
        intro hmem
        obtain ⟨r, v, hv⟩ := haudit record hmem
        exact ⟨r, v, hv.cons⟩
      cases hs with
      | @served t i request phase phase' answers progress hphase hserve =>
        cases served_of_serve hserve with
        | visited _ _ _ =>
          rcases List.mem_append.mp hrecord with hmem | hnew
          · exact hold hmem
          · rw [List.mem_singleton.mp hnew]
            exact ⟨_, _, i, request, _, List.mem_cons_self, rfl⟩
        | _ => exact hold hrecord
      | _ => exact hold hrecord

theorem isolated_of_apart {world : ToolContext} {r r' : String}
    (run : Trace (server rt) { world := world } labels s) (happart : NamesApart labels r r') :
    Isolated labels s r r' := by
  obtain ⟨_, hvisits, hrecords⟩ := provenance run
  have hkeys : ∀ u v record record', Visited labels r u record → Visited labels r' v record' →
      u.node = .execute → v.node = .execute → Accepted u.before → Accepted v.before →
      u.before.idempotencyKey ≠ v.before.idempotencyKey := by
    intro u v record record' hu hv huexecute hvexecute haccepted haccepted' hsame
    have hpu := hvisits r u record hu
    have hpv := hvisits r' v record' hv
    obtain ⟨runId, action, hrunId, haction, hkey⟩ := hpu.keyed huexecute
    obtain ⟨runId', action', hrunId', haction', hkey'⟩ := hpv.keyed hvexecute
    obtain ⟨w, obs, a, hsweep, ha, hvalid⟩ := haccepted
    obtain ⟨w', obs', a', hsweep', ha', hvalid'⟩ := haccepted'
    rw [haction] at ha
    cases ha
    rw [haction'] at ha'
    cases ha'
    rw [hkey, hkey', Option.some.injEq, Json.str.injEq] at hsame
    have hids := idempotencyKey_inj hsweep hvalid hsweep' hvalid' hsame
    rw [hpu.name, Option.some.injEq, Json.str.injEq] at hrunId
    rw [hpv.name, Option.some.injEq, Json.str.injEq] at hrunId'
    have hrecord : record.runId = record'.runId := by rw [hrunId, hrunId', hids]
    exact happart.not_shared hpu.goesBy (hrecord ▸ hpv.goesBy)
  refine ⟨hkeys, ?_, ?_⟩
  · rintro u v record record' key entry hu hv haccepted haccepted' hwrote ⟨hexecute, hkey, _⟩
    obtain ⟨next, hled⟩ := (hvisits r u record hu).led
    obtain ⟨huexecute, hukey⟩ := wrote_by_execute hled hwrote
    exact hkeys u v record record' hu hv huexecute hexecute haccepted haccepted'
      (hukey.trans hkey.symm)
  · intro hr record hrecord
    obtain ⟨hmem, hid⟩ := List.mem_filter.mp hrecord
    refine ⟨hrecords record hmem, fun v hv => ?_⟩
    have hgoes := (hvisits r' v record hv).goesBy
    rw [of_decide_eq_true hid] at hgoes
    exact happart.not_shared hr hgoes

/-- Whatever two runs are called and in whatever order they are served: while they share
no name, they are isolated from each other. -/
theorem isolated {world : ToolContext} {r r' : String}
    (run : Trace (server rt) { world := world } labels s) (happart : NamesApart labels r r') :
    Isolated labels s r r' ∧ Isolated labels s r' r :=
  ⟨isolated_of_apart run happart, isolated_of_apart run happart.symm⟩

end Runs

/-! ### Two runs -/

def accepts (w : ToolContext) : Json → Bool
  | .str action =>
    match gatherObservations w with
    | .ok obs =>
      match validateProposal obs action with
      | .ok none => true
      | _ => false
    | .error _ => false
  | _ => false

theorem accepted_of_check {w : ToolContext} {s : AgentState}
    (h : s.proposedAction.any (accepts w) = true) : Accepted s := by
  obtain ⟨j, haction, haccepts⟩ := (Option.any_eq_true _ _).mp h
  unfold accepts at haccepts
  split at haccepts
  · split at haccepts
    · rename_i action _ obs hsweep
      split at haccepts
      · rename_i hvalid
        exact ⟨w, obs, action, hsweep, haction, hvalid⟩
      · cases haccepts
    · cases haccepts
  · cases haccepts

/-- The run executes a valid action under the key. -/
def executesUnder (r key : String) : Label → Bool
  | .served _ request (.visited _ v _) => decide (request.runId = r ∧ v.node = .execute) &&
      v.before.idempotencyKey.any (·.isStr key) && v.before.proposedAction.any (accepts v.worldBefore)
  | _ => false

theorem visited_of_check {labels : List Label} {r key : String}
    (h : labels.any (executesUnder r key) = true) : ∃ v record, Visited labels r v record ∧
      v.node = .execute ∧ Accepted v.before ∧ v.before.idempotencyKey = some (.str key) := by
  obtain ⟨l, hmem, hl⟩ := List.any_eq_true.mp h
  unfold executesUnder at hl
  split at hl
  · rename_i i request saved v record
    simp only [Bool.and_eq_true, decide_eq_true_eq] at hl
    obtain ⟨⟨⟨hr, hnode⟩, hkey⟩, haction⟩ := hl
    exact ⟨v, record, ⟨i, request, saved, hmem, hr⟩, hnode, accepted_of_check haction,
      Json.any_isStr_iff.mp hkey⟩
  · cases hl

/-- A request creates a run that scales a service without asking. -/
def createScaling (i : ℕ) (body : CreateRunRequest) : List Service.Move :=
  .post i i (.createRun "" body) ::
    serves i [{}, {}, { proposal := { tool := "scale_service", target := "service_b" } },
      { classification := { tier := "low" } }, {}, {}]

/-- A body that creates a run and brings the id of another one. -/
def borrowedId : CreateRunRequest where
  runId := some "run-2"
  initialState := { state := { runId := some (.str "run-1") } }

/-- The body of the second run names the first one, and their executions share a key. -/
theorem borrowed_id_not_isolated :
    ∃ labels s, Trace (server { digest := id }) { world := freshSandbox [] } labels s ∧
      ¬ Isolated labels s "run-1" "run-2" := by
  obtain ⟨labels, s, hplay, hcheck⟩ := played_spec
    (p := fun (labels : List Label) (_ : Server) =>
      labels.any (executesUnder "run-1" "run-1:scale_service:service_b") &&
        labels.any (executesUnder "run-2" "run-1:scale_service:service_b"))
    (show played (play { digest := id } (fun _ _ => true)
      (createScaling 1 { runId := some "run-1" } ++
        createScaling 2 borrowedId) []
      { world := freshSandbox [] }) _ = true by decide +kernel)
  obtain ⟨hfirst, hsecond⟩ := Bool.and_eq_true_iff.mp hcheck
  have run := play_trace (C := fun _ _ => True) (fun _ _ _ => trivial) .start hplay
  refine ⟨labels, s, run.of_restrict, fun hisolated => ?_⟩
  obtain ⟨u, record, hu, huexecute, haccepted, hkey⟩ := visited_of_check hfirst
  obtain ⟨v, record', hv, hvexecute, haccepted', hkey'⟩ := visited_of_check hsecond
  exact hisolated.keys u v record record' hu hv huexecute hvexecute haccepted haccepted'
    (hkey.trans hkey'.symm)

/-- Two runs whose ids differ by a part after a colon. -/
theorem colon_ids_isolated :
    ∃ labels s, Trace (server { digest := id }) { world := freshSandbox [] } labels s ∧
      labels.any (executesUnder "run" "run:scale_service:service_b") = true ∧
      labels.any (executesUnder "run:1" "run:1:scale_service:service_b") = true ∧
      Isolated labels s "run" "run:1" ∧ Isolated labels s "run:1" "run" := by
  obtain ⟨labels, s, hplay, hcheck⟩ := played_spec
    (p := fun (labels : List Label) (_ : Server) => decide (NamesApart labels "run" "run:1") &&
      labels.any (executesUnder "run" "run:scale_service:service_b") &&
        labels.any (executesUnder "run:1" "run:1:scale_service:service_b"))
    (show played (play { digest := id } (fun _ _ => true)
      (createScaling 1 { runId := some "run" } ++ createScaling 2 { runId := some "run:1" }) []
      { world := freshSandbox [] }) _ = true by decide +kernel)
  simp only [Bool.and_eq_true, decide_eq_true_eq] at hcheck
  obtain ⟨⟨happart, hfirst⟩, hsecond⟩ := hcheck
  have run := play_trace (C := fun _ _ => True) (fun _ _ _ => trivial) .start hplay
  exact ⟨labels, s, run.of_restrict, hfirst, hsecond, isolated run.of_restrict happart⟩

end Isolation
