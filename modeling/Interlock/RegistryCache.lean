import Interlock.RegistryRows
import Interlock.TurnTaking

/-!
# The registry as a cache

The registry is a cache of the latest checkpoints, which every call of the graph updates when
it has stopped. While the calls about a run take turns, and are cut off in the approval at
most, the row of the run is the response of the checkpoint that its thread is at, whenever no
call is under way. However requests race, a row shows a run where a call has stopped.
-/

namespace RegistryCache

open Dictionary PythonValues Tools RunState Nodes Graph Transitions Walks DiagnosticSweep
open Service Serving QueueAgreement TurnTaking
open RegistryRows (IsFinal toResponse_finalState)

/-! ### Rows and threads -/

/-- Where a call of the graph stops. -/
def Stopped (copy : Checkpoint) : Prop := copy.next = none ∨ copy.next = some .awaitApproval

/-- What the nodes before a stop have written. -/
structure Told (copy : Checkpoint) : Prop where
  waits : copy.next = some .awaitApproval → copy.state.status = some (.str awaitingApproval)
  ended : copy.next = none → ∃ status, IsFinal status ∧ copy.state.status = some (.str status) ∧
    copy.state.finalState = some (.str status)

/-- The row is the response of the latest checkpoint of the thread, at which a call has
stopped. -/
def Cached (r : String) (row : Option RunStatusResponse) : Option Thread → Prop
  | none => row = none
  | some t => Told t.latest ∧ Stopped t.latest ∧
      ∃ x, row = some x ∧ toResponse r t.latest.toChannels = .ok x

/-- A call of the graph is under way. -/
def UnderWay (f : InFlight) : Prop :=
  match f.phase with
  | .running _ _ _ | .returned _ => True
  | _ => False

/-- What a call that is under way relies on: it is at the latest checkpoint, and has not
changed the thread before it has handed over its decision. -/
def Calling (r : String) (row : Option RunStatusResponse) (thread : Option Thread) (f : InFlight) :
    Prop :=
  match f.phase with
  | .running copy saved resume => thread = some ⟨copy, saved⟩ ∧ Told copy ∧
      (resume ≠ none → Cached r row thread)
  | .returned copy => (∃ saved, thread = some ⟨copy, saved⟩) ∧ Told copy ∧ Stopped copy
  | _ => False

/-- The requests about a run. -/
def about (r : String) (s : Server) (i : ℕ) : Option InFlight :=
  (s.requests.get? i).filter fun f => decide (f.request.runId = r)

/-- Row and thread of a run, and the requests between them. -/
def InStep (r : String) (s : Server) : Prop :=
  Turns UnderWay (Cached r (s.registry.get? r) (s.threads.get? r))
    (Calling r (s.registry.get? r) (s.threads.get? r)) (about r s)

/-- A call of the graph for the run begins only while no other is under way. Requests may look
at the registry meanwhile. -/
def CallsTakeTurns (r : String) (s : Server) : Label → Prop
  | .served _ request (.began _) | .served _ request (.loaded _) => request.runId = r →
      ∀ j f, about r s j = some f → ¬ UnderWay f
  | _ => True

/-- A call is cut off inside the approval at most, and what it returns is a valid response. -/
def Undisturbed (r : String) : Label → Prop
  | .served _ request (.raised node) => request.runId = r → node = .awaitApproval
  | .served _ request .invalid => request.runId ≠ r
  | _ => True

section Told

variable {rt : Runtime} {v : Visit} {next : Option Node} {copy : Checkpoint}

theorem told_of_diagnose (hnext : copy.next = some .diagnose) : Told copy := by
  constructor
  · intro h
    rw [hnext] at h
    cases h
  · intro h
    rw [hnext] at h
    cases h

theorem told_input (s : Server) (runId : String) (body : CreateRunRequest) :
    Told (s.input runId body) := by
  apply told_of_diagnose
  rw [Server.input]
  split <;> rfl

theorem told_of_led (hled : v.Led rt next) (hstate : copy.state = v.after)
    (hnext : copy.next = next) : Told copy := by
  have hedge := led_edge hled
  constructor
  · intro hwaits
    rw [hnext] at hwaits
    rw [hwaits] at hedge
    cases hnode : v.node with
    | markAwaitingApproval =>
      obtain ⟨_, hafter⟩ := led_markAwaitingApproval hled hnode
      rw [hstate, hafter]
      rfl
    | _ =>
      rw [hnode] at hedge
      cases hedge
  · intro hended
    rw [hnext] at hended
    rw [hended] at hedge
    cases hnode : v.node with
    | completed =>
      obtain ⟨_, hafter⟩ := led_completed hled hnode
      exact ⟨_, Or.inl rfl, by rw [hstate, hafter], by rw [hstate, hafter]⟩
    | escalate =>
      obtain ⟨_, hafter⟩ := led_escalate hled hnode
      exact ⟨_, Or.inr rfl, by rw [hstate, hafter], by rw [hstate, hafter]⟩
    | _ =>
      rw [hnode] at hedge
      cases hedge

/-- What the row of a run shows. -/
def Shows (row : RunStatusResponse) : Prop :=
  row.status = awaitingApproval ∨ (IsFinal row.status ∧ row.finalState = some row.status)

/-- The row of a call that has stopped says that the run waits exactly if it does. -/
theorem shows_of_response {runId : String} {row : RunStatusResponse} (htold : Told copy)
    (hstopped : Stopped copy) (hrow : toResponse runId copy.toChannels = .ok row) :
    Shows row ∧ (row.status = awaitingApproval ↔ copy.next = some .awaitApproval) := by
  obtain ⟨_, hstatus⟩ := toResponse_ok hrow
  rcases hstopped with hended | hwaits
  · obtain ⟨status, hfinal, hs, hf⟩ := htold.ended hended
    have hfinalState := toResponse_finalState hrow
    rw [hs] at hstatus
    rw [hf] at hfinalState
    have hrowStatus : status = row.status := Except.ok.inj hstatus
    have hrowFinal : some status = row.finalState := Except.ok.inj hfinalState
    have hother : status ≠ awaitingApproval := by
      rcases hfinal with rfl | rfl <;> decide
    rw [← hrowStatus, hended]
    refine ⟨Or.inr ⟨hrowStatus ▸ hfinal, by rw [← hrowFinal, hrowStatus]⟩, ?_⟩
    exact ⟨fun h => absurd h hother, fun h => by cases h⟩
  · rw [htold.waits hwaits] at hstatus
    have hrowStatus : awaitingApproval = row.status := Except.ok.inj hstatus
    exact ⟨Or.inl hrowStatus.symm, fun _ => hwaits, fun _ => hrowStatus.symm⟩

end Told

/-! ### One step -/

section Step

variable {rt : Runtime} {r : String} {s s' : Server} {request : Request} {phase phase' : Phase}
variable {progress : Progress} {i : ℕ}

theorem about_self {t : Server} (hr : request.runId = r) :
    about r (t.put i ⟨request, phase⟩) i = some ⟨request, phase⟩ := by
  rw [about, requests_put_self]
  simp [hr]

theorem about_ne {t : Server} {f : InFlight} (hrequests : t.requests = s.requests) {j : ℕ}
    (hj : j ≠ i) : about r (t.put i f) j = about r s j := by
  rw [about, requests_put_ne hj, hrequests, about]

theorem about_eq_some {f : InFlight} :
    about r s i = some f ↔ s.requests.get? i = some f ∧ f.request.runId = r := by
  rw [about, Option.filter_eq_some_iff, decide_eq_true_iff]

/-- A call goes on in step with its thread, or leaves the row that its thread asks for. -/
theorem calling_step (hserved : Served rt request s phase progress phase' s')
    (hunder : UnderWay ⟨request, phase⟩)
    (hundisturbed : Undisturbed request.runId (.served i request progress))
    (h : Calling request.runId (s.registry.get? request.runId) (s.threads.get? request.runId)
      ⟨request, phase⟩) :
    (UnderWay ⟨request, phase'⟩ ∧ Calling request.runId (s'.registry.get? request.runId)
        (s'.threads.get? request.runId) ⟨request, phase'⟩) ∨
      (¬ UnderWay ⟨request, phase'⟩ ∧
        Cached request.runId (s'.registry.get? request.runId)
          (s'.threads.get? request.runId)) := by
  cases hserved with
  | began _ => exact hunder.elim
  | looked _ => exact hunder.elim
  | unknown => exact hunder.elim
  | conflict _ => exact hunder.elim
  | admitted _ => exact hunder.elim
  | loaded _ => exact hunder.elim
  | lost _ => exact hunder.elim
  | visited _ _ henter =>
    refine Or.inl ⟨trivial, (get?_save _ _).trans (if_pos rfl), ?_, fun hnone => absurd rfl hnone⟩
    exact told_of_led (led_of_enter henter) rfl rfl
  | @raised copy saved resume node world hnext hgoes =>
    obtain ⟨_, _, hcached⟩ := h
    have hawait : node = .awaitApproval := hundisturbed rfl
    exact Or.inr ⟨id, hcached fun hnone => hgoes ⟨hawait, hnone⟩⟩
  | @returned copy saved resume hstops =>
    obtain ⟨hthread, htold, _⟩ := h
    exact Or.inl ⟨trivial, ⟨saved, hthread⟩, htold, hstops.imp_right And.left⟩
  | @upserted result row hrow =>
    obtain ⟨⟨saved, hthread⟩, htold, hstopped⟩ := h
    refine Or.inr ⟨id, ?_⟩
    have hset := (get?_upsert (s := s) (r := request.runId) row).trans
      (if_pos (toResponse_ok hrow).1)
    have hsame : (s.upsert row).threads.get? request.runId = s.threads.get? request.runId := rfl
    rw [hset, hsame, hthread]
    exact ⟨htold, hstopped, row, rfl, hrow⟩
  | invalid => exact absurd rfl hundisturbed

theorem inStep_step {l : Label} (h : InStep r s) (hs : Step rt s l s')
    (hturns : CallsTakeTurns r s l) (hundisturbed : Undisturbed r l) : InStep r s' := by
  cases hs with
  | @posted _ i request hfree =>
    refine Turns.pass (i := i) h (fun j hj => about_ne rfl hj) ?_ ?_ id (fun _ => id)
    · intro f hf
      rw [about_eq_some, hfree] at hf
      cases hf.1
    · intro f hf
      rw [about_eq_some, requests_put_self] at hf
      cases hf.1
      exact id
  | listed => exact h
  | others => exact h
  | @served t i request phase phase' answers progress hphase hserve =>
    have hserved := served_of_serve hserve
    obtain ⟨hframe, hrequests⟩ := served_frame (r := r) hserved
    have hothers : ∀ j, j ≠ i → about r (t.put i ⟨request, phase'⟩) j = about r s j :=
      fun j hj => about_ne hrequests hj
    by_cases hr : request.runId = r
    · subst hr
      have hself : about request.runId s i = some ⟨request, phase⟩ :=
        about_eq_some.mpr ⟨hphase, rfl⟩
      have hself' : about request.runId (t.put i ⟨request, phase'⟩) i = some ⟨request, phase'⟩ :=
        about_self rfl
      by_cases hunder : UnderWay ⟨request, phase⟩
      · change Turns UnderWay (Cached _ (t.registry.get? _) (t.threads.get? _))
          (Calling _ (t.registry.get? _) (t.threads.get? _)) _
        exact Turns.advance h hself hunder hothers hself' (calling_step hserved hunder hundisturbed)
      · have hbefore : ∀ f, about request.runId s i = some f → ¬ UnderWay f := by
          intro f hf
          rw [hself] at hf
          cases hf
          exact hunder
        have hidle : ¬ UnderWay ⟨request, phase'⟩ → t.registry = s.registry →
            t.threads = s.threads → InStep request.runId (t.put i ⟨request, phase'⟩) := by
          intro hafter hregistry hthreads
          refine Turns.pass h hothers hbefore ?_ ?_ ?_
          · intro f hf
            rw [hself'] at hf
            cases hf
            exact hafter
          · intro hcached
            change Cached _ (t.registry.get? _) (t.threads.get? _)
            rw [hregistry, hthreads]
            exact hcached
          · intro f hcalling
            change Calling _ (t.registry.get? _) (t.threads.get? _) f
            rw [hregistry, hthreads]
            exact hcalling
        cases hserved with
        | began _ =>
          refine Turns.take h (hturns rfl) hothers hself' trivial fun _ => ?_
          exact ⟨(get?_save _ _).trans (if_pos rfl), told_input _ _ _,
            fun hnone => absurd rfl hnone⟩
        | @loaded thread hthread =>
          refine Turns.take h (hturns rfl) hothers hself' trivial fun hcached => ?_
          have hcached' := hcached
          rw [hthread] at hcached'
          exact ⟨hthread, hcached'.1, fun _ => hcached⟩
        | looked _ => exact hidle id rfl rfl
        | unknown => exact hidle id rfl rfl
        | conflict _ => exact hidle id rfl rfl
        | admitted _ => exact hidle id rfl rfl
        | lost _ => exact hidle id rfl rfl
        | visited _ _ _ => exact absurd trivial hunder
        | raised _ _ => exact absurd trivial hunder
        | returned _ => exact absurd trivial hunder
        | upserted _ => exact absurd trivial hunder
        | invalid => exact absurd trivial hunder
    · obtain ⟨hrow, hthread⟩ := hframe hr
      refine Turns.pass h hothers ?_ ?_ ?_ ?_
      · intro f hf
        rw [about_eq_some, hphase] at hf
        obtain ⟨hf, hfr⟩ := hf
        cases hf
        exact absurd hfr hr
      · intro f hf
        rw [about_eq_some, requests_put_self] at hf
        obtain ⟨hf, hfr⟩ := hf
        cases hf
        exact absurd hfr hr
      · intro hcached
        change Cached _ (t.registry.get? _) (t.threads.get? _)
        rw [hrow, hthread]
        exact hcached
      · intro f hcalling
        change Calling _ (t.registry.get? _) (t.threads.get? _) f
        rw [hrow, hthread]
        exact hcalling

end Step

/-! ### What rows show, whatever races -/

/-- All checkpoints tell what their nodes have written, returned calls have stopped, and the
rows show it. -/
structure Told.Sound (s : Server) : Prop where
  everywhere : Everywhere (fun _ copy => Told copy) s
  returned : ∀ i request copy, s.requests.get? i = some ⟨request, .returned copy⟩ →
    Told copy ∧ Stopped copy
  rows : ∀ r row, s.registry.get? r = some row → row.runId = r ∧ Shows row

section Races

variable {rt : Runtime} {s s' : Server} {l : Label}

theorem returned_put {t : Server} {i j : ℕ} {f : InFlight} {request : Request} {copy : Checkpoint}
    (hrequests : t.requests = s.requests)
    (h : ∀ i request copy, s.requests.get? i = some ⟨request, .returned copy⟩ →
      Told copy ∧ Stopped copy)
    (hf : ∀ copy, f.phase = .returned copy → Told copy ∧ Stopped copy)
    (hj : (t.put i f).requests.get? j = some ⟨request, .returned copy⟩) :
    Told copy ∧ Stopped copy := by
  by_cases hji : j = i
  · subst hji
    rw [requests_put_self] at hj
    cases hj
    exact hf copy rfl
  · rw [requests_put_ne hji, hrequests] at hj
    exact h j request copy hj

theorem told_step (h : Told.Sound s) (hs : Step rt s l s') : Told.Sound s' where
  everywhere := by
    refine everywhere_step h.everywhere hs ?_ ?_
    · intro i request uuid body _ _
      exact told_input s request.runId body
    · intro r answers node copy state next record w world _ _ henter
      exact told_of_led (led_of_enter henter) rfl rfl
  returned := by
    cases hs with
    | posted _ =>
      intro j request copy hj
      exact returned_put rfl h.returned (by rintro _ ⟨⟩) hj
    | listed => exact h.returned
    | others => exact h.returned
    | @served t i request phase phase' answers progress hphase hserve =>
      intro j request' copy hj
      have hserved := served_of_serve hserve
      refine returned_put (served_frame (r := request.runId) hserved).2 h.returned ?_ hj
      rintro copy rfl
      cases hserved with
      | returned hstops =>
        exact ⟨h.everywhere.running _ _ _ _ _ hphase, hstops.imp_right And.left⟩
  rows := by
    cases hs with
    | posted _ => exact h.rows
    | listed => exact h.rows
    | others => exact h.rows
    | @served t i request phase phase' answers progress hphase hserve =>
      intro r row hrow
      change t.registry.get? r = some row at hrow
      cases served_of_serve hserve with
      | @upserted result row' hresponse =>
        rw [get?_upsert] at hrow
        split at hrow
        · rename_i hr
          cases hrow
          obtain ⟨htold, hstopped⟩ := h.returned _ _ _ hphase
          exact ⟨hr, (shows_of_response htold hstopped hresponse).1⟩
        · exact h.rows r row hrow
      | _ => exact h.rows r row hrow

theorem told_run {world : ToolContext} {labels : List Label}
    (run : Trace (server rt) { world := world } labels s) : Told.Sound s :=
  run.state_invariant ⟨everywhere_start world, by simp, by simp⟩ fun h hs => told_step h hs

/-- Whatever requests race, are cut off or start a run again: a client that reads the registry
sees a run waiting for approval or ended, and of an ended one its final state. -/
theorem rows_show_stops {world : ToolContext} {labels : List Label}
    (run : Trace (server rt) { world := world } labels s) :
    ∀ r row, s.registry.get? r = some row → row.runId = r ∧ (row.status = awaitingApproval ∨
      (IsFinal row.status ∧ row.finalState = some row.status)) :=
  (told_run run).rows

end Races

/-! ### Calls that take turns -/

section Turns

variable {rt : Runtime} {r : String} {s : Server} {world : ToolContext} {labels : List Label}

theorem inStep_run
    (run : Trace ((server rt).restrict fun s l => CallsTakeTurns r s l ∧ Undisturbed r l)
      { world := world } labels s) : InStep r s := by
  have hstart : InStep r { world := world } :=
    .free (fun i f hf => by simp [about] at hf) (by change Cached r none none; rfl)
  refine run.state_invariant hstart ?_
  rintro b l c h ⟨⟨hturns, hundisturbed⟩, hs⟩
  exact inStep_step h hs hturns hundisturbed

/-- As long as the calls about a run take turns, whatever other requests do: whenever none is
under way, the registry knows the run exactly if it has a thread, its row is the response of
the latest checkpoint, and the queue holds it exactly if that waits for a reviewer. -/
theorem registry_caches
    (run : Trace ((server rt).restrict fun s l => CallsTakeTurns r s l ∧ Undisturbed r l)
      { world := world } labels s)
    (hrest : ∀ i f, s.requests.get? i = some f → f.request.runId = r → ¬ UnderWay f) :
    (s.registry.get? r = none ↔ s.threads.get? r = none) ∧
    (∀ t, s.threads.get? r = some t → ∃ row, s.registry.get? r = some row ∧
      toResponse r t.latest.toChannels = .ok row) ∧
    ((∃ row ∈ s.listPendingApproval, row.runId = r) ↔
      ∃ t, s.threads.get? r = some t ∧ t.latest.next = some .awaitApproval) := by
  have hcached : Cached r (s.registry.get? r) (s.threads.get? r) :=
    (inStep_run run).at_rest fun i f hf => by
      obtain ⟨hi, hr⟩ := about_eq_some.mp hf
      exact hrest i f hi hr
  have hrows := (told_run run.of_restrict).rows
  have hlisted : (∃ row ∈ s.listPendingApproval, row.runId = r) ↔
      ∃ row, s.registry.get? r = some row ∧ row.status = awaitingApproval := by
    constructor
    · rintro ⟨row, hmem, hr⟩
      obtain ⟨hvalue, hstatus⟩ := List.mem_filter.mp hmem
      obtain ⟨k, hk⟩ := Dict.mem_values.mp hvalue
      have hkey : k = r := by rw [← (hrows k row hk).1, hr]
      subst hkey
      exact ⟨row, hk, of_decide_eq_true hstatus⟩
    · rintro ⟨row, hrow, hstatus⟩
      exact ⟨row, List.mem_filter.mpr ⟨Dict.mem_values.mpr ⟨r, hrow⟩, decide_eq_true hstatus⟩,
        (hrows r row hrow).1⟩
  rw [hlisted]
  cases hthread : s.threads.get? r with
  | none =>
    rw [hthread] at hcached
    have hnone : s.registry.get? r = none := hcached
    simp [hnone]
  | some t =>
    rw [hthread] at hcached
    obtain ⟨htold, hstopped, row, hrow, hresponse⟩ := hcached
    obtain ⟨_, hwaits⟩ := shows_of_response htold hstopped hresponse
    refine ⟨by simp [hrow], ?_, ?_⟩
    · rintro t' ⟨⟩
      exact ⟨row, hrow, hresponse⟩
    · constructor
      · rintro ⟨row', hrow', hstatus⟩
        rw [hrow] at hrow'
        cases hrow'
        exact ⟨t, rfl, hwaits.mp hstatus⟩
      · rintro ⟨t', ht', hnext⟩
        cases ht'
        exact ⟨row, hrow, hwaits.mpr hnext⟩

end Turns

/-! ### Two decisions that have both found the run waiting -/

def underWay (f : InFlight) : Bool :=
  match f.phase with
  | .running _ _ _ | .returned _ => true
  | _ => false

theorem underWay_iff {f : InFlight} : underWay f = true ↔ UnderWay f := by
  obtain ⟨request, phase⟩ := f
  cases phase <;> simp [underWay, UnderWay]

def free (r : String) (s : Server) : Bool :=
  s.requests.values.all fun f => decide (f.request.runId ≠ r) || !underWay f

theorem free_of_check {r : String} {s : Server} (h : free r s = true) (i : ℕ) (f : InFlight)
    (hf : s.requests.get? i = some f) (hr : f.request.runId = r) : ¬ UnderWay f := by
  have hone := List.all_eq_true.mp h f (Dict.mem_values.mpr ⟨i, hf⟩)
  rw [← underWay_iff]
  simpa [hr] using hone

def callsApart (r : String) (s : Server) : Label → Bool
  | .served _ request (.began _) | .served _ request (.loaded _) =>
    decide (request.runId ≠ r) || free r s
  | .served _ _ (.raised _) | .served _ _ .invalid => false
  | _ => true

theorem apart_of_check {r : String} (s : Server) (l : Label) (h : callsApart r s l = true) :
    CallsTakeTurns r s l ∧ Undisturbed r l := by
  have hfree : ∀ request : Request, (decide (request.runId ≠ r) || free r s) = true →
      request.runId = r → ∀ j f, about r s j = some f → ¬ UnderWay f := by
    intro request hcheck hr j f hf
    obtain ⟨hf, hfr⟩ := about_eq_some.mp hf
    exact free_of_check (by simpa [hr] using hcheck) j f hf hfr
  cases l with
  | served i request progress =>
    cases progress with
    | began input => exact ⟨hfree request h, trivial⟩
    | loaded thread => exact ⟨hfree request h, trivial⟩
    | raised node => cases h
    | invalid => cases h
    | _ => exact ⟨trivial, trivial⟩
  | _ => exact ⟨trivial, trivial⟩

/-- A rejection and an approval pass the status check together; the approval comes to the next
proposal, which it lets run. -/
def lateApproval : List Service.Move :=
  createSuspended 0 0 { runId := some "run-1" }
      { tool := "scale_service", target := "service_b" } "medium" ++
    [.post 1 1 (.submitDecision "run-1" { decision := .rejected }),
      .post 2 2 (.submitDecision "run-1" { decision := .approved })] ++
    serves 1 [{}, {}] ++ serves 2 [{}, {}] ++
    serves 1 [{}, {}, {}, { proposal := { tool := "restart_service", target := "service_b" } },
      { classification := { tier := "medium" } }, {}, {}, {}] ++
    serves 2 (List.replicate 9 {})

/-- Where the two have left the run. -/
theorem late_approval_run :
    ∃ labels s, Trace ((server { digest := id }).restrict fun s l =>
        CallsTakeTurns "run-1" s l ∧ Undisturbed "run-1" l) { world := freshSandbox [] } labels s ∧
      (∃ t, s.threads.get? "run-1" = some t ∧ t.latest.next = none) ∧
      ∀ i f, s.requests.get? i = some f → f.request.runId = "run-1" → ¬ UnderWay f := by
  obtain ⟨labels, s, hplay, hcheck⟩ := played_spec
    (p := fun _ s => (s.threads.get? "run-1").any (fun t : Thread => t.latest.next.isNone) &&
      free "run-1" s)
    (show played (play { digest := id } (callsApart "run-1") lateApproval []
      { world := freshSandbox [] }) _ = true by decide +kernel)
  simp only [Bool.and_eq_true, Option.any_eq_true, Option.isNone_iff_eq_none] at hcheck
  exact ⟨labels, s, play_trace apart_of_check .start hplay, hcheck.1, free_of_check hcheck.2⟩

theorem late_approval_cached :
    ∃ s : Server, (∃ t, s.threads.get? "run-1" = some t ∧ t.latest.next = none) ∧
      (s.registry.get? "run-1" = none ↔ s.threads.get? "run-1" = none) ∧
      (∀ t, s.threads.get? "run-1" = some t → ∃ row, s.registry.get? "run-1" = some row ∧
        toResponse "run-1" t.latest.toChannels = .ok row) ∧
      ((∃ row ∈ s.listPendingApproval, row.runId = "run-1") ↔
        ∃ t, s.threads.get? "run-1" = some t ∧ t.latest.next = some .awaitApproval) := by
  obtain ⟨labels, s, run, hthread, hrest⟩ := late_approval_run
  exact ⟨s, hthread, registry_caches run hrest⟩

theorem late_approval_shown :
    ∃ (s : Server) (row : RunStatusResponse), s.registry.get? "run-1" = some row ∧
      (row.status = awaitingApproval ∨
        (IsFinal row.status ∧ row.finalState = some row.status)) := by
  obtain ⟨labels, s, run, ⟨t, ht, _⟩, hrest⟩ := late_approval_run
  have hcached : Cached "run-1" (s.registry.get? "run-1") (s.threads.get? "run-1") :=
    (inStep_run run).at_rest fun i f hf => hrest i f (about_eq_some.mp hf).1 (about_eq_some.mp hf).2
  rw [ht] at hcached
  obtain ⟨_, _, row, hrow, _⟩ := hcached
  exact ⟨s, row, hrow, (rows_show_stops run.of_restrict "run-1" row hrow).2⟩

end RegistryCache
