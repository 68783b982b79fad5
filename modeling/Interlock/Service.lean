import Interlock.Suspension

/-!
# The API server

Requests to start runs, to read the approval queue and to decide are served over one
checkpointer, one run registry, one sandbox and one audit store. A request is served in
steps, and other requests may be served in between. A call of the graph continues from
the latest checkpoint that it reads, holds no lock on its thread, and stores a checkpoint
after every visit.
-/

namespace Service

open Dictionary PythonValues Tools RunState Nodes Graph Transitions Suspension

/-! ### Threads and rows -/

/-- The entries of a thread: those that the nodes use, and the one that only responses
show. -/
structure Channels where
  state : AgentState := {}
  scenarioId : Option Json := none

structure Checkpoint extends Channels where
  next : Option Node

structure Thread where
  latest : Checkpoint
  /-- How many checkpoints have been stored. -/
  saved : ℕ

/-- A new input replaces the entries it brings and keeps the others. -/
def overlay (old new : AgentState) : AgentState where
  runId := new.runId <|> old.runId
  status := new.status <|> old.status
  observations := new.observations <|> old.observations
  diagnosis := new.diagnosis <|> old.diagnosis
  proposedAction := new.proposedAction <|> old.proposedAction
  actionParameters := new.actionParameters <|> old.actionParameters
  actionRationale := new.actionRationale <|> old.actionRationale
  stateFingerprint := new.stateFingerprint <|> old.stateFingerprint
  invalidProposalReason := new.invalidProposalReason <|> old.invalidProposalReason
  riskTierLlm := new.riskTierLlm <|> old.riskTierLlm
  riskTierFinal := new.riskTierFinal <|> old.riskTierFinal
  riskRationale := new.riskRationale <|> old.riskRationale
  redundancyFloorApplied := new.redundancyFloorApplied <|> old.redundancyFloorApplied
  approvalDecision := new.approvalDecision <|> old.approvalDecision
  approverId := new.approverId <|> old.approverId
  driftDetected := new.driftDetected <|> old.driftDetected
  idempotencyKey := new.idempotencyKey <|> old.idempotencyKey
  executionResult := new.executionResult <|> old.executionResult
  verificationPassed := new.verificationPassed <|> old.verificationPassed
  compensation := new.compensation <|> old.compensation
  rollbackResult := new.rollbackResult <|> old.rollbackResult
  replanCycles := new.replanCycles <|> old.replanCycles
  replanContext := new.replanContext <|> old.replanContext
  finalState := new.finalState <|> old.finalState

/-- A registry row is the response that was last sent for the run. -/
structure RunStatusResponse where
  runId : String
  status : String
  scenarioId : Option String
  diagnosis : Option String
  proposedAction : Option String
  riskTier : Option String
  rationale : Option String
  finalState : Option String
  deriving DecidableEq, Repr

def toResponse (runId : String) (result : Channels) : Except PyError RunStatusResponse := do
  return {
    runId := runId
    status := ← asStr "RunStatusResponse" "status" (result.state.status.getD (.str "UNKNOWN"))
    scenarioId := ← asOptionalStr "RunStatusResponse" "scenario_id" result.scenarioId
    diagnosis := result.state.diagnosis
    proposedAction :=
      ← asOptionalStr "RunStatusResponse" "proposed_action" result.state.proposedAction
    riskTier := ← asOptionalStr "RunStatusResponse" "risk_tier" result.state.riskTierFinal
    rationale := result.state.actionRationale
    finalState := ← asOptionalStr "RunStatusResponse" "final_state" result.state.finalState }

/-! ### Requests -/

structure CreateRunRequest where
  runId : Option String := none
  scenarioId : Option String := none
  initialState : Channels := {}

inductive Request where
  | createRun (uuid : String) (body : CreateRunRequest)
  | submitDecision (runId : String) (body : DecisionRequest)

/-- The run that a request is about; an empty `run_id` in a body counts as none. -/
def Request.runId : Request → String
  | .createRun uuid body => (orText body.runId (some uuid)).getD uuid
  | .submitDecision runId _ => runId

/-- What a graph call is resumed with. -/
def Request.resume : Request → Option DecisionRequest
  | .createRun _ _ => none
  | .submitDecision _ body => some body

/-- `{"run_id": run_id, **initial_state}`, with the scenario of the body. -/
def CreateRunRequest.input (body : CreateRunRequest) (runId : String) : Channels where
  state := { body.initialState.state with
    runId := some (body.initialState.state.runId.getD (.str runId)) }
  scenarioId :=
    match body.scenarioId with
    | some scenario => if scenario ≠ "" then some (.str scenario) else body.initialState.scenarioId
    | none => body.initialState.scenarioId

/-- How far the server is with a request. -/
inductive Phase where
  | posted
  | looked (existing : Option RunStatusResponse)
  | admitted
  /-- The graph is at `copy`, which it stored as checkpoint number `saved`. -/
  | running (copy : Checkpoint) (saved : ℕ) (resume : Option DecisionRequest)
  | returned (result : Checkpoint)
  | answered (code : ℕ)

structure InFlight where
  request : Request
  phase : Phase

structure Server where
  registry : Dict String RunStatusResponse := .empty
  threads : Dict String Thread := .empty
  world : ToolContext
  audit : List AuditRecord := []
  requests : Dict ℕ InFlight := .empty

def awaitingApproval : String := State.awaitingApproval.value

namespace Server

variable (s : Server)

def upsert (row : RunStatusResponse) : Server :=
  { s with registry := s.registry.set row.runId row }

def listPendingApproval : List RunStatusResponse :=
  s.registry.values.filter fun row => row.status = awaitingApproval

/-- `audit_store.get_run`. -/
def getAudit (runId : String) : List AuditRecord :=
  s.audit.filter fun record => record.runId = runId

/-- The number of the next checkpoint of a thread. -/
def nextSave (runId : String) : ℕ :=
  match s.threads.get? runId with
  | some thread => thread.saved + 1
  | none => 0

def save (runId : String) (copy : Checkpoint) : Server :=
  { s with threads := s.threads.set runId ⟨copy, s.nextSave runId⟩ }

/-- The input of a thread, over the entries that it has already. -/
def input (runId : String) (body : CreateRunRequest) : Checkpoint :=
  match s.threads.get? runId with
  | some thread =>
    { state := overlay thread.latest.state (body.input runId).state
      scenarioId := (body.input runId).scenarioId <|> thread.latest.scenarioId
      next := some .diagnose }
  | none => { toChannels := body.input runId, next := some .diagnose }

def put (i : ℕ) (f : InFlight) : Server :=
  { s with requests := s.requests.set i f }

end Server

/-! ### Serving a request -/

/-- What one step of a request did. -/
inductive Progress where
  | began (input : Checkpoint)
  | looked
  | refused (code : ℕ)
  | admitted
  | loaded (thread : Thread)
  | lost
  | visited (saved : ℕ) (v : Visit) (record : AuditRecord)
  | raised (node : Node)
  | returned
  | upserted
  | invalid

/-- The answers of a visit; a resumed call hands its decision to the first one. -/
def resumeWith (answers : Answers) : Option DecisionRequest → Answers
  | some d => { answers with decision := d.resume }
  | none => answers

/-- One superstep of a graph call. -/
def superstep (rt : Runtime) (answers : Answers) (runId : String) (copy : Checkpoint) (saved : ℕ)
    (node : Node) (s : Server) : Progress × Phase × Server :=
  match (enter rt answers node ⟨copy.state, copy.next, s.world, []⟩).run s.world with
  | (.ok (state, next, record), world) =>
    let copy' : Checkpoint := { copy with state := state, next := next }
    (.visited saved ⟨node, answers, copy.state, s.world, state, world⟩ record,
      .running copy' (s.nextSave runId) none,
      { s.save runId copy' with world := world, audit := s.audit ++ [record] })
  | (.error _, world) => (.raised node, .answered 500, { s with world := world })

/-- The next step of a request, if it has not been answered. -/
def serve (rt : Runtime) (answers : Answers) (request : Request) (s : Server) :
    Phase → Option (Progress × Phase × Server)
  | .posted =>
    match request with
    | .createRun _ body =>
      let input := s.input request.runId body
      some (.began input, .running input (s.nextSave request.runId) none,
        s.save request.runId input)
    | .submitDecision runId _ => some (.looked, .looked (s.registry.get? runId), s)
  | .looked none => some (.refused 404, .answered 404, s)
  | .looked (some existing) =>
    if existing.status ≠ awaitingApproval then some (.refused 409, .answered 409, s)
    else some (.admitted, .admitted, s)
  | .admitted =>
    match s.threads.get? request.runId with
    | some thread =>
      some (.loaded thread, .running thread.latest thread.saved request.resume, s)
    | none => some (.lost, .answered 500, s)
  | .running copy saved resume =>
    match copy.next with
    | none => some (.returned, .returned copy, s)
    | some node =>
      if node = .awaitApproval ∧ resume = none then some (.returned, .returned copy, s)
      else some (superstep rt (resumeWith answers resume) request.runId copy saved node s)
  | .returned result =>
    match toResponse request.runId result.toChannels with
    | .ok row => some (.upserted, .answered 200, s.upsert row)
    | .error _ => some (.invalid, .answered 500, s)
  | .answered _ => none

inductive Label where
  | posted (client i : ℕ) (request : Request)
  | listed (client : ℕ) (rows : List RunStatusResponse)
  | served (i : ℕ) (request : Request) (progress : Progress)
  | others (before after : ToolContext)

/-- Clients post requests and read the queue, the server serves any request that is not
answered, and others change the sandbox. -/
inductive Step (rt : Runtime) : Server → Label → Server → Prop where
  | posted {s : Server} {client i : ℕ} {request : Request} (hfree : s.requests.get? i = none) :
      Step rt s (.posted client i request) (s.put i ⟨request, .posted⟩)
  | listed {s : Server} {client : ℕ} : Step rt s (.listed client s.listPendingApproval) s
  | served {s s' : Server} {i : ℕ} {request : Request} {phase phase' : Phase} {answers : Answers}
      {progress : Progress} (hphase : s.requests.get? i = some ⟨request, phase⟩)
      (hserve : serve rt answers request s phase = some (progress, phase', s')) :
      Step rt s (.served i request progress) (s'.put i ⟨request, phase'⟩)
  | others {s : Server} {world : ToolContext} :
      Step rt s (.others s.world world) { s with world := world }

def server (rt : Runtime) : System Server Label := ⟨Step rt⟩

/-! ### Scripts -/

inductive Move where
  | post (client i : ℕ) (request : Request)
  | list (client : ℕ)
  | serve (i : ℕ) (answers : Answers)
  | change (world : ToolContext → ToolContext)

def serves (i : ℕ) (answers : List Answers) : List Move := answers.map (.serve i)

/-- A request creates a run, which suspends with a proposal of the given tier. -/
def createSuspended (client i : ℕ) (body : CreateRunRequest) (proposal : Proposal)
    (tier : String) : List Move :=
  .post client i (.createRun "" body) ::
    serves i [{}, {}, { proposal := proposal }, { classification := { tier := tier } }, {}, {}, {}]

/-- The step that a move stands for. -/
def move (rt : Runtime) (s : Server) : Move → Option (Label × Server)
  | .post client i request =>
    match s.requests.get? i with
    | none => some (.posted client i request, s.put i ⟨request, .posted⟩)
    | some _ => none
  | .list client => some (.listed client s.listPendingApproval, s)
  | .serve i answers => do
    let f ← s.requests.get? i
    let (progress, phase, s') ← Service.serve rt answers f.request s f.phase
    return (.served i f.request progress, s'.put i ⟨f.request, phase⟩)
  | .change f => some (.others s.world (f s.world), { s with world := f s.world })

/-- A script is played as long as its steps pass a check. -/
def play (rt : Runtime) (check : Server → Label → Bool) :
    List Move → List Label → Server → Option (List Label × Server) :=
  enact (checked check (move rt))

theorem step_of_move {rt : Runtime} {s s' : Server} {m : Move} {l : Label}
    (h : move rt s m = some (l, s')) : Step rt s l s' := by
  cases m with
  | post client i request =>
    rw [move] at h
    split at h
    · rename_i hfree
      cases h
      exact .posted hfree
    · cases h
  | list client =>
    cases h
    exact .listed
  | serve i answers =>
    obtain ⟨f, hf, h⟩ := Option.bind_eq_some_iff.mp h
    obtain ⟨⟨progress, phase, t⟩, hserve, h⟩ := Option.bind_eq_some_iff.mp h
    cases h
    exact .served hf hserve
  | change f =>
    cases h
    exact .others

/-- A played script is a run whose steps meet what the check stands for. -/
theorem play_trace {rt : Runtime} {check : Server → Label → Bool} {C : Server → Label → Prop}
    {a : Server} {moves : List Move} {past labels : List Label} {s s' : Server}
    (hcheck : ∀ s l, check s l = true → C s l) (run : Trace ((server rt).restrict C) a past s)
    (h : play rt check moves past s = some (labels, s')) :
    Trace ((server rt).restrict C) a labels s' := by
  refine enact_trace ?_ run h
  intro _ _ s l s' hmove
  obtain ⟨hstep, hpassed⟩ := checked_spec hmove
  exact ⟨hcheck s l hpassed, step_of_move hstep⟩

end Service
