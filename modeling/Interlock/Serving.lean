import Interlock.DecisionHonoured
import Interlock.Service

/-!
# Serving requests

What one step of a request can do, and what it leaves alone. The checkpoints of the
server's threads are those of graph runs, whatever requests are served in between.
-/

namespace Serving

open Dictionary PythonValues Tools RunState Nodes Graph Transitions Walks Suspension
open DecisionHonoured Service

/-! ### One step of a request -/

section Inversion

variable {rt : Runtime} {request : Request} {s s' : Server} {phase phase' : Phase}
variable {progress : Progress} {r : String}

/-- The steps of a request, from one phase to the next. -/
inductive Served (rt : Runtime) (request : Request) (s : Server) :
    Phase → Progress → Phase → Server → Prop where
  | began {uuid : String} {body : CreateRunRequest} (hrequest : request = .createRun uuid body) :
      Served rt request s .posted (.began (s.input request.runId body))
        (.running (s.input request.runId body) (s.nextSave request.runId) none)
        (s.save request.runId (s.input request.runId body))
  | looked {d : DecisionRequest} (hrequest : request = .submitDecision request.runId d) :
      Served rt request s .posted .looked (.looked (s.registry.get? request.runId)) s
  | unknown : Served rt request s (.looked none) (.refused 404) (.answered 404) s
  | conflict {row : RunStatusResponse} (h : row.status ≠ awaitingApproval) :
      Served rt request s (.looked (some row)) (.refused 409) (.answered 409) s
  | admitted {row : RunStatusResponse} (h : row.status = awaitingApproval) :
      Served rt request s (.looked (some row)) .admitted .admitted s
  | loaded {thread : Thread} (h : s.threads.get? request.runId = some thread) :
      Served rt request s .admitted (.loaded thread)
        (.running thread.latest thread.saved request.resume) s
  | lost (h : s.threads.get? request.runId = none) :
      Served rt request s .admitted .lost (.answered 500) s
  | visited {copy : Checkpoint} {saved : ℕ} {resume : Option DecisionRequest} {answers : Answers}
      {node : Node} {state : AgentState} {next : Option Node} {record : AuditRecord}
      {world : ToolContext} (hnext : copy.next = some node)
      (hgoes : ¬ (node = .awaitApproval ∧ resume = none))
      (henter : (enter rt (resumeWith answers resume) node ⟨copy.state, copy.next, s.world, []⟩).run
        s.world = (.ok (state, next, record), world)) :
      Served rt request s (.running copy saved resume)
        (.visited saved ⟨node, resumeWith answers resume, copy.state, s.world, state, world⟩ record)
        (.running { copy with state := state, next := next } (s.nextSave request.runId) none)
        { s.save request.runId { copy with state := state, next := next } with
          world := world, audit := s.audit ++ [record] }
  | raised {copy : Checkpoint} {saved : ℕ} {resume : Option DecisionRequest} {node : Node}
      {world : ToolContext} (hnext : copy.next = some node)
      (hgoes : ¬ (node = .awaitApproval ∧ resume = none)) :
      Served rt request s (.running copy saved resume) (.raised node) (.answered 500)
        { s with world := world }
  | returned {copy : Checkpoint} {saved : ℕ} {resume : Option DecisionRequest}
      (h : copy.next = none ∨ (copy.next = some .awaitApproval ∧ resume = none)) :
      Served rt request s (.running copy saved resume) .returned (.returned copy) s
  | upserted {result : Checkpoint} {row : RunStatusResponse}
      (h : toResponse request.runId result.toChannels = .ok row) :
      Served rt request s (.returned result) .upserted (.answered 200) (s.upsert row)
  | invalid {result : Checkpoint} :
      Served rt request s (.returned result) .invalid (.answered 500) s

theorem served_of_superstep {answers : Answers} {copy : Checkpoint} {saved : ℕ}
    {resume : Option DecisionRequest} {node : Node} (hnext : copy.next = some node)
    (hgoes : ¬ (node = .awaitApproval ∧ resume = none))
    (h : superstep rt (resumeWith answers resume) request.runId copy saved node s =
      (progress, phase', s')) :
    Served rt request s (.running copy saved resume) progress phase' s' := by
  unfold superstep at h
  split at h
  · rename_i state next record world henter
    cases h
    exact .visited hnext hgoes henter
  · cases h
    exact .raised hnext hgoes

theorem served_of_serve {answers : Answers}
    (h : serve rt answers request s phase = some (progress, phase', s')) :
    Served rt request s phase progress phase' s' := by
  cases phase with
  | posted =>
    cases request with
    | createRun uuid body =>
      cases h
      exact .began rfl
    | submitDecision runId d =>
      cases h
      exact .looked rfl
  | looked existing =>
    cases existing with
    | none =>
      cases h
      exact .unknown
    | some row =>
      rw [serve] at h
      split at h
      · rename_i hstatus
        cases h
        exact .conflict hstatus
      · rename_i hstatus
        cases h
        exact .admitted (not_not.mp hstatus)
  | admitted =>
    rw [serve] at h
    split at h
    · rename_i hthread
      cases h
      exact .loaded hthread
    · rename_i hthread
      cases h
      exact .lost hthread
  | running copy saved resume =>
    rw [serve] at h
    split at h
    · rename_i hnext
      cases h
      exact .returned (Or.inl hnext)
    · rename_i node hnext
      split at h
      · rename_i hpaused
        cases h
        exact .returned (Or.inr ⟨hpaused.1 ▸ hnext, hpaused.2⟩)
      · rename_i hgoes
        exact served_of_superstep hnext hgoes (Option.some.inj h)
  | returned result =>
    rw [serve] at h
    split at h
    · rename_i hrow
      cases h
      exact .upserted hrow
    · cases h
      exact .invalid
  | answered code => cases h

theorem step_served {i : ℕ} (h : Step rt s (.served i request progress) s') :
    ∃ phase phase' t, s.requests.get? i = some ⟨request, phase⟩ ∧
      Served rt request s phase progress phase' t ∧ s' = t.put i ⟨request, phase'⟩ := by
  cases h with
  | served hphase hserve => exact ⟨_, _, _, hphase, served_of_serve hserve, rfl⟩

/-! ### What a step leaves alone -/

theorem toResponse_ok {runId : String} {result : Channels} {row : RunStatusResponse}
    (h : toResponse runId result = .ok row) :
    row.runId = runId ∧
      asStr "RunStatusResponse" "status" (result.state.status.getD (.str "UNKNOWN")) =
        .ok row.status := by
  obtain ⟨status, hstatus, h⟩ := except_bind_ok_iff.mp h
  obtain ⟨_, _, h⟩ := except_bind_ok_iff.mp h
  obtain ⟨_, _, h⟩ := except_bind_ok_iff.mp h
  obtain ⟨_, _, h⟩ := except_bind_ok_iff.mp h
  obtain ⟨_, _, h⟩ := except_bind_ok_iff.mp h
  cases h
  exact ⟨rfl, hstatus⟩

theorem get?_save (runId : String) (copy : Checkpoint) :
    (s.save runId copy).threads.get? r =
      if runId = r then some ⟨copy, s.nextSave runId⟩ else s.threads.get? r :=
  Dict.get?_set s.threads runId r _

theorem get?_upsert (row : RunStatusResponse) :
    (s.upsert row).registry.get? r = if row.runId = r then some row else s.registry.get? r :=
  Dict.get?_set s.registry row.runId r row

/-- Serving a request changes neither the row nor the thread of another run, nor any
other request. -/
theorem served_frame (h : Served rt request s phase progress phase' s') :
    (request.runId ≠ r → s'.registry.get? r = s.registry.get? r ∧
      s'.threads.get? r = s.threads.get? r) ∧ s'.requests = s.requests := by
  cases h with
  | began _ =>
    refine ⟨fun hr => ⟨rfl, ?_⟩, rfl⟩
    rw [get?_save, if_neg hr]
  | visited _ _ _ =>
    refine ⟨fun hr => ⟨rfl, ?_⟩, rfl⟩
    exact (get?_save _ _).trans (if_neg hr)
  | upserted hrow =>
    refine ⟨fun hr => ⟨?_, rfl⟩, rfl⟩
    rw [get?_upsert, (toResponse_ok hrow).1, if_neg hr]
  | _ => exact ⟨fun _ => ⟨rfl, rfl⟩, rfl⟩

theorem requests_put (i j : ℕ) (f : InFlight) :
    (s.put i f).requests.get? j = if i = j then some f else s.requests.get? j :=
  Dict.get?_set s.requests i j f

end Inversion

/-! ### The runs behind the threads -/

section Runs

variable {rt : Runtime} {s s' : Server}

/-- A visit of a request is a step of the graph, whatever records there are already. -/
theorem step_of_enter {answers : Answers} {node : Node} {copy : Checkpoint} {c : Config}
    {state : AgentState} {next : Option Node} {record : AuditRecord} {w world : ToolContext}
    (hstate : c.state = copy.state) (hnext : c.next = some node)
    (henter : (enter rt answers node ⟨copy.state, copy.next, w, []⟩).run w =
      (.ok (state, next, record), world)) :
    (step rt answers { c with world := w }).1 =
      .ok ⟨state, next, world, c.audit ++ [record]⟩ := by
  have hsame : ∀ next audit, enter rt answers node ⟨c.state, next, w, audit⟩ =
      enter rt answers node ⟨copy.state, copy.next, w, []⟩ := by
    intro next audit
    simp only [enter, hstate]
  simp only [step, hnext, hsame, henter]

/-- And a step of the graph is what the request's next step does. -/
theorem enter_of_step {answers : Answers} {node : Node} {copy : Checkpoint} {c c' : Config}
    (hstate : c.state = copy.state) (hnext : c.next = some node)
    (hstep : (step rt answers c).1 = .ok c') :
    ∃ record, (enter rt answers node ⟨copy.state, copy.next, c.world, []⟩).run c.world =
      (.ok (c'.state, c'.next, record), c'.world) := by
  have hsame : enter rt answers node ⟨copy.state, copy.next, c.world, []⟩ =
      enter rt answers node c := by
    simp only [enter, hstate]
  rw [hsame]
  obtain ⟨record, henter, _⟩ := step_entered hnext hstep
  exact ⟨record, henter⟩

theorem led_of_enter {answers : Answers} {node : Node} {copy : Checkpoint}
    {state : AgentState} {next : Option Node} {record : AuditRecord} {w world : ToolContext}
    (henter : (enter rt answers node ⟨copy.state, copy.next, w, []⟩).run w =
      (.ok (state, next, record), world)) :
    Visit.Led rt ⟨node, answers, copy.state, w, state, world⟩ next := by
  obtain ⟨update, hnode, haudit, hstate, hroute⟩ := enter_ok_iff.mp henter
  exact ⟨update, record, hnode, haudit, hstate, hroute⟩

/-- A checkpoint that a run on thread `r` can have reached. -/
def RunsTo (rt : Runtime) (r : String) (copy : Checkpoint) : Prop :=
  ∃ initialState world past c, Run rt anyone r initialState world past c ∧
    c.state = copy.state ∧ c.next = copy.next

theorem runsTo_visit {r : String} {answers : Answers} {node : Node} {copy : Checkpoint}
    {state : AgentState} {next : Option Node} {record : AuditRecord} {w world : ToolContext}
    (h : RunsTo rt r copy) (hnext : copy.next = some node)
    (henter : (enter rt answers node ⟨copy.state, copy.next, w, []⟩).run w =
      (.ok (state, next, record), world)) :
    RunsTo rt r { copy with state := state, next := next } := by
  obtain ⟨initialState, world₀, past, c, run, hstate, hcnext⟩ := h
  have hchanged : Run rt anyone r initialState world₀ _ { c with world := w } :=
    run.snoc (Step.others trivial)
  have hvisit := step_of_enter hstate (hcnext.trans hnext) henter
  exact ⟨initialState, world₀, _, _, hchanged.snoc (Step.visit (hcnext.trans hnext) hvisit),
    rfl, rfl⟩

theorem overlay_runId (old new : AgentState) {runId : Json} (h : new.runId = some runId) :
    (overlay old new).runId = some runId := by
  rw [overlay, h]
  rfl

theorem input_runId (s : Server) (runId : String) (body : CreateRunRequest) :
    (s.input runId body).state.runId =
      some (body.initialState.state.runId.getD (.str runId)) := by
  rw [Server.input]
  split
  · exact overlay_runId _ _ rfl
  · rfl

theorem runsTo_input (s : Server) (runId : String) (body : CreateRunRequest) :
    RunsTo rt runId (s.input runId body) := by
  refine ⟨(s.input runId body).state, s.world, [], _, .start, ?_, ?_⟩
  · have hid := input_runId s runId body
    rw [startWorkflow, hid, Option.getD_some, ← hid]
  · rw [Server.input]
    split <;> rfl

/-! ### What holds of every checkpoint -/

/-- The checkpoints of all threads and of all calls have a property, which may be about
their run. -/
structure Everywhere (P : String → Checkpoint → Prop) (s : Server) : Prop where
  thread : ∀ r thread, s.threads.get? r = some thread → P r thread.latest
  running : ∀ i request copy saved resume,
    s.requests.get? i = some ⟨request, .running copy saved resume⟩ → P request.runId copy

section Everywhere

variable {P Q : String → Checkpoint → Prop}

theorem Everywhere.imp (h : Everywhere P s) (himp : ∀ r copy, P r copy → Q r copy) :
    Everywhere Q s where
  thread := fun r thread hthread => himp r _ (h.thread r thread hthread)
  running := fun i request copy saved resume hi =>
    himp _ copy (h.running i request copy saved resume hi)

theorem everywhere_start (world : ToolContext) : Everywhere P { world := world } where
  thread := by simp
  running := by simp

theorem Everywhere.save {runId : String} {copy : Checkpoint} (h : Everywhere P s)
    (hcopy : P runId copy) : Everywhere P (s.save runId copy) where
  thread := by
    intro r thread hthread
    rw [get?_save] at hthread
    split at hthread
    · rename_i hr
      cases hthread
      exact hr ▸ hcopy
    · exact h.thread r thread hthread
  running := h.running

theorem Everywhere.put {i : ℕ} {f : InFlight} (h : Everywhere P s)
    (hf : ∀ copy saved resume, f.phase = .running copy saved resume → P f.request.runId copy) :
    Everywhere P (s.put i f) where
  thread := h.thread
  running := by
    intro j request copy saved resume hj
    rw [requests_put] at hj
    split at hj
    · cases hj
      exact hf copy saved resume rfl
    · exact h.running j request copy saved resume hj

/-- What new inputs have and visits keep, every checkpoint has. -/
theorem everywhere_step {l : Label} (h : Everywhere P s) (hs : Step rt s l s')
    (hinput : ∀ i request uuid body, request = .createRun uuid body →
      l = .served i request (.began (s.input request.runId body)) →
      P request.runId (s.input request.runId body))
    (hvisit : ∀ {r : String} {answers : Answers} {node : Node} {copy : Checkpoint}
      {state : AgentState} {next : Option Node} {record : AuditRecord} {w world : ToolContext},
      P r copy → copy.next = some node →
      (enter rt answers node ⟨copy.state, copy.next, w, []⟩).run w =
        (.ok (state, next, record), world) →
      P r { copy with state := state, next := next }) : Everywhere P s' := by
  cases hs with
  | posted _ => exact h.put (by rintro _ _ _ ⟨⟩)
  | listed => exact h
  | others => exact ⟨h.thread, h.running⟩
  | served hphase hserve =>
    cases served_of_serve hserve with
    | began hrequest =>
      have hnew := hinput _ _ _ _ hrequest rfl
      refine (h.save hnew).put ?_
      rintro _ _ _ ⟨⟩
      exact hnew
    | loaded hthread =>
      refine h.put ?_
      rintro _ _ _ ⟨⟩
      exact h.thread _ _ hthread
    | visited hnext _ henter =>
      have hcopy := hvisit (h.running _ _ _ _ _ hphase) hnext henter
      have hsaved := h.save hcopy
      refine Everywhere.put ⟨hsaved.thread, hsaved.running⟩ ?_
      rintro _ _ _ ⟨⟩
      exact hcopy
    | raised _ _ => exact Everywhere.put ⟨h.thread, h.running⟩ (by rintro _ _ _ ⟨⟩)
    | upserted _ => exact Everywhere.put ⟨h.thread, h.running⟩ (by rintro _ _ _ ⟨⟩)
    | _ => exact h.put (by rintro _ _ _ ⟨⟩)

end Everywhere

/-- Whatever is requested and in whatever order it is served, every thread and every call
stands at a checkpoint of a run of the graph. -/
theorem backed {world : ToolContext} {labels : List Label}
    (run : Trace (server rt) { world := world } labels s) : Everywhere (RunsTo rt) s := by
  refine run.state_invariant (everywhere_start world) ?_
  intro b l c h hs
  exact everywhere_step h hs (fun _ _ _ _ _ _ => runsTo_input b _ _) runsTo_visit

end Runs

end Serving
