import Interlock.QueueAgreement

/-!
# Rows of the registry

A row is built from the entries of a thread, and a thread keeps its `final_state` when it
is started again. Rows are not contradictory as long as no run asks for approval on a
thread that still has the final state of an earlier one.
-/

namespace RegistryRows

open Dictionary PythonValues Tools RunState Nodes Graph Transitions Walks Suspension
open DiagnosticSweep Service Serving QueueAgreement

/-- The status of a run that has ended. -/
def IsFinal (status : String) : Prop :=
  status = State.completed.value ∨ status = State.escalated.value

/-- A row has a final state exactly if its run has ended, and then this is its status. -/
structure RowConsistent (row : RunStatusResponse) : Prop where
  final : row.finalState ≠ none ↔ IsFinal row.status
  same : ∀ t, row.finalState = some t → t = row.status

/-- A run that asks for approval holds no final state. -/
def AsksUnfinished (_ : Server) : Label → Prop
  | .served _ _ (.visited _ v _) =>
    v.node = .markAwaitingApproval → ∀ t, v.before.finalState ≠ some (.str t)
  | _ => True

/-- What a checkpoint holds at which a call returns. -/
structure Settled (copy : Checkpoint) : Prop where
  waits : copy.next = some .awaitApproval → copy.state.status = some (.str awaitingApproval) ∧
    ∀ t, copy.state.finalState ≠ some (.str t)
  ended : copy.next = none → ∃ status, IsFinal status ∧ copy.state.status = some (.str status) ∧
    copy.state.finalState = some (.str status)

section Rows

variable {rt : Runtime} {copy : Checkpoint} {row : RunStatusResponse}

theorem toResponse_finalState {runId : String} {result : Channels}
    (h : toResponse runId result = .ok row) :
    asOptionalStr "RunStatusResponse" "final_state" result.state.finalState =
      .ok row.finalState := by
  obtain ⟨_, _, h⟩ := except_bind_ok_iff.mp h
  obtain ⟨_, _, h⟩ := except_bind_ok_iff.mp h
  obtain ⟨_, _, h⟩ := except_bind_ok_iff.mp h
  obtain ⟨_, _, h⟩ := except_bind_ok_iff.mp h
  obtain ⟨finalState, hfinal, h⟩ := except_bind_ok_iff.mp h
  cases h
  exact hfinal

theorem settled_of_diagnose (hnext : copy.next = some .diagnose) : Settled copy where
  waits := by
    intro h
    rw [hnext] at h
    cases h
  ended := by
    intro h
    rw [hnext] at h
    cases h

theorem settled_input (s : Server) (runId : String) (body : CreateRunRequest) :
    Settled (s.input runId body) := by
  apply settled_of_diagnose
  rw [Server.input]
  split <;> rfl

/-- The two nodes that end a run write its final state, and the one that suspends it
finds none. -/
theorem settled_of_led {v : Visit} {next : Option Node} (hled : v.Led rt next)
    (hasks : v.node = .markAwaitingApproval → ∀ t, v.before.finalState ≠ some (.str t))
    (hstate : copy.state = v.after) (hnext : copy.next = next) : Settled copy := by
  have hedge := led_edge hled
  constructor
  · intro hwaits
    rw [hnext] at hwaits
    rw [hwaits] at hedge
    cases hnode : v.node with
    | markAwaitingApproval =>
      obtain ⟨_, hafter⟩ := led_markAwaitingApproval hled hnode
      rw [hstate, hafter]
      exact ⟨rfl, hasks hnode⟩
    | _ =>
      rw [hnode] at hedge
      cases hedge
  · intro hended
    rw [hnext] at hended
    rw [hended] at hedge
    cases hnode : v.node with
    | completed =>
      obtain ⟨_, hafter⟩ := led_completed hled hnode
      exact ⟨_, Or.inl rfl, by rw [hstate, hafter], by rw [hstate, hafter]⟩
    | escalate =>
      obtain ⟨_, hafter⟩ := led_escalate hled hnode
      exact ⟨_, Or.inr rfl, by rw [hstate, hafter], by rw [hstate, hafter]⟩
    | _ =>
      rw [hnode] at hedge
      cases hedge

/-- The row of a call that ended or waits. -/
theorem consistent_of_response {runId : String} (hsettled : Settled copy)
    (hstops : copy.next = none ∨ copy.next = some .awaitApproval)
    (hrow : toResponse runId copy.toChannels = .ok row) : RowConsistent row := by
  obtain ⟨_, hstatus⟩ := toResponse_ok hrow
  have hfinal := toResponse_finalState hrow
  rcases hstops with hended | hwaits
  · obtain ⟨status, hisFinal, hs, hf⟩ := hsettled.ended hended
    rw [hs] at hstatus
    rw [hf] at hfinal
    have hrowStatus : status = row.status := Except.ok.inj hstatus
    have hrowFinal : some status = row.finalState := Except.ok.inj hfinal
    constructor
    · rw [← hrowStatus, ← hrowFinal]
      exact ⟨fun _ => hisFinal, fun _ => Option.some_ne_none status⟩
    · intro t ht
      rw [← hrowFinal, Option.some.injEq] at ht
      rw [← ht, hrowStatus]
  · obtain ⟨hs, hf⟩ := hsettled.waits hwaits
    rw [hs] at hstatus
    have hrowStatus : awaitingApproval = row.status := Except.ok.inj hstatus
    have hrowFinal : row.finalState = none := by
      cases hentry : copy.state.finalState with
      | none =>
        rw [hentry] at hfinal
        exact (Except.ok.inj hfinal).symm
      | some j =>
        rw [hentry] at hfinal
        cases j with
        | null => exact (Except.ok.inj hfinal).symm
        | str t => exact absurd hentry (hf t)
        | _ => cases hfinal
    have hrunning : ¬ IsFinal row.status := by
      rw [← hrowStatus]
      rintro (h | h)
      · exact absurd h (by decide)
      · exact absurd h (by decide)
    constructor
    · rw [hrowFinal]
      exact ⟨fun h => absurd rfl h, fun h => absurd h hrunning⟩
    · intro t ht
      rw [hrowFinal] at ht
      cases ht

end Rows

/-! ### Runs of the server -/

/-- Threads, calls and responses are settled, and so are the rows written from them. -/
structure Sound (s : Server) : Prop where
  everywhere : Everywhere (fun _ copy => Settled copy) s
  returned : ∀ i request copy, s.requests.get? i = some ⟨request, .returned copy⟩ →
    Settled copy ∧ (copy.next = none ∨ copy.next = some .awaitApproval)
  rows : ∀ r row, s.registry.get? r = some row → RowConsistent row

section Runs

variable {rt : Runtime} {s s' : Server}

theorem Sound.put {i : ℕ} {f : InFlight} (h : Sound s)
    (hrunning : ∀ copy saved resume, f.phase = .running copy saved resume → Settled copy)
    (hreturned : ∀ copy, f.phase = .returned copy →
      Settled copy ∧ (copy.next = none ∨ copy.next = some .awaitApproval)) :
    Sound (s.put i f) where
  everywhere := h.everywhere.put hrunning
  returned := by
    intro j request copy hj
    rw [requests_put] at hj
    split at hj
    · cases hj
      exact hreturned copy rfl
    · exact h.returned j request copy hj
  rows := h.rows

/-- A step that stores a settled checkpoint, if any. -/
theorem Sound.save {runId : String} {copy : Checkpoint} (h : Sound s) (hcopy : Settled copy) :
    Sound (s.save runId copy) where
  everywhere := h.everywhere.save hcopy
  returned := h.returned
  rows := h.rows

theorem Sound.upsert {row : RunStatusResponse} (h : Sound s) (hrow : RowConsistent row) :
    Sound (s.upsert row) where
  everywhere := ⟨h.everywhere.thread, h.everywhere.running⟩
  returned := h.returned
  rows := by
    intro r row' hget
    rw [get?_upsert] at hget
    split at hget
    · cases hget
      exact hrow
    · exact h.rows r row' hget

theorem Sound.sandbox (h : Sound s) (world : ToolContext) (audit : List AuditRecord) :
    Sound { s with world := world, audit := audit } where
  everywhere := ⟨h.everywhere.thread, h.everywhere.running⟩
  returned := h.returned
  rows := h.rows

theorem sound_start (world : ToolContext) : Sound { world := world } where
  everywhere := everywhere_start world
  returned := by simp
  rows := by simp

theorem sound_step {l : Label} (h : Sound s) (hs : Step rt s l s') (hasks : AsksUnfinished s l) :
    Sound s' := by
  cases hs with
  | posted _ => exact h.put (by rintro _ _ _ ⟨⟩) (by rintro _ ⟨⟩)
  | listed => exact h
  | others => exact h.sandbox _ _
  | served hphase hserve =>
    cases served_of_serve hserve with
    | began _ =>
      refine (h.save (settled_input s _ _)).put ?_ (by rintro _ ⟨⟩)
      rintro _ _ _ ⟨⟩
      exact settled_input s _ _
    | loaded hthread =>
      refine h.put ?_ (by rintro _ ⟨⟩)
      rintro _ _ _ ⟨⟩
      exact h.everywhere.thread _ _ hthread
    | @visited copy saved resume answers node state next record world hnext _ henter =>
      have hcopy : Settled { copy with state := state, next := next } :=
        settled_of_led (led_of_enter henter) hasks rfl rfl
      refine ((h.save hcopy).sandbox world _).put ?_ (by rintro _ ⟨⟩)
      rintro _ _ _ ⟨⟩
      exact hcopy
    | raised _ _ => exact (h.sandbox _ _).put (by rintro _ _ _ ⟨⟩) (by rintro _ ⟨⟩)
    | returned hstops =>
      refine h.put (by rintro _ _ _ ⟨⟩) ?_
      rintro _ ⟨⟩
      exact ⟨h.everywhere.running _ _ _ _ _ hphase, hstops.imp_right And.left⟩
    | upserted hrow =>
      obtain ⟨hsettled, hstops⟩ := h.returned _ _ _ hphase
      exact (h.upsert (consistent_of_response hsettled hstops hrow)).put (by rintro _ _ _ ⟨⟩)
        (by rintro _ ⟨⟩)
    | _ => exact h.put (by rintro _ _ _ ⟨⟩) (by rintro _ ⟨⟩)

/-- As long as every run that asks for approval holds no final state, no row of the
registry is contradictory. -/
theorem rows_consistent {world : ToolContext} {labels : List Label}
    (run : Trace ((server rt).restrict AsksUnfinished) { world := world } labels s) :
    ∀ r row, s.registry.get? r = some row → RowConsistent row := by
  have hsound : Sound s := by
    refine run.state_invariant (sound_start world) ?_
    rintro b l c h ⟨hasks, hs⟩
    exact sound_step h hs hasks
  exact hsound.rows

end Runs

/-- No node raises. -/
def Returns (_ : Server) : Label → Prop
  | .served _ _ (.raised _) => False
  | _ => True

def returnsApart (s : Server) (l : Label) : Bool :=
  requestsApart s l && match l with
    | .served _ _ (.raised _) => false
    | _ => true

theorem returns_of_check (s : Server) (l : Label) (h : returnsApart s l = true) :
    OneByOne s l ∧ Returns s l := by
  obtain ⟨hapart, hreturns⟩ := Bool.and_eq_true_iff.mp h
  refine ⟨oneByOne_of_check s l hapart, ?_⟩
  cases l with
  | served i request progress =>
    cases progress with
    | raised node => cases hreturns
    | _ => trivial
  | _ => trivial

/-- The visits of a call that creates a run and ends it on its own, and the two steps of
the response. -/
def createCompleted (client i : ℕ) (body : CreateRunRequest) (proposal : Proposal) :
    List Service.Move :=
  .post client i (.createRun "" body) ::
    serves i [{}, {}, { proposal := proposal }, { classification := { tier := "low" } }, {}, {},
      {}, {}, {}, {}]

/-- A run completes and is created again, and then waits for approval. -/
def createdAgain : List Service.Move :=
  createCompleted 0 0 { runId := some "run-1" }
      { tool := "restart_service", target := "service_b" } ++
    createSuspended 0 1 { runId := some "run-1" }
      { tool := "scale_service", target := "service_b" } "medium"

theorem suspended_and_completed :
    ∃ labels s row, Trace ((server { digest := id }).restrict fun s l => OneByOne s l ∧ Returns s l)
        { world := freshSandbox [] } labels s ∧ s.registry.get? "run-1" = some row ∧
      row.status = "AWAITING_APPROVAL" ∧ row.finalState = some "COMPLETED" ∧
      ¬ RowConsistent row := by
  obtain ⟨labels, s, hplay, hcheck⟩ := played_spec
    (p := fun (_ : List Label) (s : Server) => (s.registry.get? "run-1").any
      fun row : RunStatusResponse => decide (row.status = "AWAITING_APPROVAL") &&
        decide (row.finalState = some "COMPLETED"))
    (show played (Service.play { digest := id } returnsApart createdAgain []
      { world := freshSandbox [] }) _ = true by decide +kernel)
  simp only [Option.any_eq_true, Bool.and_eq_true, decide_eq_true_eq] at hcheck
  obtain ⟨row, hrow, hstatus, hfinal⟩ := hcheck
  refine ⟨labels, s, row, play_trace returns_of_check .start hplay, hrow, hstatus, hfinal, ?_⟩
  intro hconsistent
  have hsame := hconsistent.same _ hfinal
  rw [hstatus] at hsame
  exact absurd hsame (by decide)

/-- Requests apart, and no approval asked for with a final state at hand. -/
def asksUnfinished (l : Label) : Bool :=
  match l with
  | .served _ _ (.visited _ v _) =>
    decide (v.node ≠ .markAwaitingApproval) || v.before.finalState.isNone
  | _ => true

theorem asksUnfinished_of_check (s : Server) (l : Label) (h : asksUnfinished l = true) :
    AsksUnfinished s l := by
  cases l with
  | served i request progress =>
    cases progress with
    | visited saved v record =>
      intro hnode t hfinal
      simp [asksUnfinished, hnode, hfinal] at h
    | _ => trivial
  | _ => trivial

/-- A run that completes twice and one that waits have rows that say so. -/
theorem rows_of_two_runs :
    ∃ labels s, Trace ((server { digest := id }).restrict AsksUnfinished)
        { world := freshSandbox [] } labels s ∧
      (∃ row, s.registry.get? "run-1" = some row ∧ row.finalState = some "COMPLETED") ∧
      (∃ row, s.registry.get? "run-2" = some row ∧ row.status = "AWAITING_APPROVAL") ∧
      ∀ r row, s.registry.get? r = some row → RowConsistent row := by
  obtain ⟨labels, s, hplay, hcheck⟩ := played_spec
    (p := fun (_ : List Label) (s : Server) => (s.registry.get? "run-1").any
        (fun row : RunStatusResponse => decide (row.finalState = some "COMPLETED")) &&
      (s.registry.get? "run-2").any
        (fun row : RunStatusResponse => decide (row.status = "AWAITING_APPROVAL")))
    (show played (Service.play { digest := id } (fun _ l => asksUnfinished l)
      (createCompleted 0 0 { runId := some "run-1" }
          { tool := "restart_service", target := "service_b" } ++
        createCompleted 0 1 { runId := some "run-1" }
          { tool := "restart_service", target := "service_a" } ++
        createSuspended 0 2 { runId := some "run-2" }
          { tool := "scale_service", target := "service_b" } "medium") []
      { world := freshSandbox [] }) _ = true by decide +kernel)
  simp only [Option.any_eq_true, Bool.and_eq_true, decide_eq_true_eq] at hcheck
  have run := play_trace asksUnfinished_of_check .start hplay
  exact ⟨labels, s, run, hcheck.1, hcheck.2, rows_consistent run⟩

end RegistryRows
