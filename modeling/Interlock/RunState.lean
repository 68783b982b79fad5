import Interlock.Execution
import Interlock.DiagnosticSweep

/-!
# The persisted state of a run

A checkpoint is a partial dictionary, and a node returns the entries it writes.
The entries that a caller's initial state can leak into a decision or an audit
record stay untyped JSON; every other entry is written by the run itself before
anything reads it, and has the type of its writer.
-/

namespace RunState

open PythonValues Tools Execution DiagnosticSweep

def maxReplanCycles : Int := 3

inductive State where
  | created
  | diagnosing
  | actionProposed
  | riskClassified
  | awaitingApproval
  | revalidating
  | replanning
  | executing
  | verifying
  | rollingBack
  | rolledBack
  | escalated
  | completed
  deriving DecidableEq, Repr

def State.value : State → String
  | created => "CREATED"
  | diagnosing => "DIAGNOSING"
  | actionProposed => "ACTION_PROPOSED"
  | riskClassified => "RISK_CLASSIFIED"
  | awaitingApproval => "AWAITING_APPROVAL"
  | revalidating => "REVALIDATING"
  | replanning => "REPLANNING"
  | executing => "EXECUTING"
  | verifying => "VERIFYING"
  | rollingBack => "ROLLING_BACK"
  | rolledBack => "ROLLED_BACK"
  | escalated => "ESCALATED"
  | completed => "COMPLETED"

/-- `none` is an absent key; a `None` that the source stores is `some` of it. -/
structure AgentState where
  runId : Option Json := none
  status : Option Json := none
  observations : Option Observations := none
  diagnosis : Option String := none
  proposedAction : Option Json := none
  actionParameters : Option Json := none
  actionRationale : Option String := none
  stateFingerprint : Option (Option String) := none
  invalidProposalReason : Option (Option String) := none
  riskTierLlm : Option String := none
  riskTierFinal : Option Json := none
  riskRationale : Option String := none
  redundancyFloorApplied : Option Bool := none
  approvalDecision : Option Json := none
  approverId : Option Json := none
  driftDetected : Option Json := none
  idempotencyKey : Option Json := none
  executionResult : Option ExecutionResult := none
  verificationPassed : Option Json := none
  compensation : Option Compensation := none
  rollbackResult : Option RollbackResult := none
  replanCycles : Option Json := none
  replanContext : Option Json := none
  finalState : Option Json := none

/-- One entry of a node's update. -/
inductive Write where
  | status (s : State)
  | observations (obs : Observations)
  | diagnosis (summary : String)
  | proposedAction (action : String)
  | actionParameters (parameters : Json)
  | actionRationale (rationale : String)
  | stateFingerprint (fingerprint : Option String)
  | invalidProposalReason (reason : Option String)
  | riskTierLlm (tier : String)
  | riskTierFinal (tier : String)
  | riskRationale (rationale : String)
  | redundancyFloorApplied (applied : Bool)
  | approvalDecision (decision : Json)
  | approverId (approver : Json)
  | driftDetected (drift : Bool)
  | idempotencyKey (key : String)
  | executionResult (result : ExecutionResult)
  | verificationPassed (passed : Bool)
  | compensation (c : Compensation)
  | rollbackResult (result : RollbackResult)
  | replanCycles (cycles : Json)
  | replanContext (context : String)
  | finalState (s : State)

abbrev Update : Type := List Write

def AgentState.write (state : AgentState) : Write → AgentState
  | .status s => { state with status := some (.str s.value) }
  | .observations obs => { state with observations := some obs }
  | .diagnosis summary => { state with diagnosis := some summary }
  | .proposedAction action => { state with proposedAction := some (.str action) }
  | .actionParameters parameters => { state with actionParameters := some parameters }
  | .actionRationale rationale => { state with actionRationale := some rationale }
  | .stateFingerprint fingerprint => { state with stateFingerprint := some fingerprint }
  | .invalidProposalReason reason => { state with invalidProposalReason := some reason }
  | .riskTierLlm tier => { state with riskTierLlm := some tier }
  | .riskTierFinal tier => { state with riskTierFinal := some (.str tier) }
  | .riskRationale rationale => { state with riskRationale := some rationale }
  | .redundancyFloorApplied applied => { state with redundancyFloorApplied := some applied }
  | .approvalDecision decision => { state with approvalDecision := some decision }
  | .approverId approver => { state with approverId := some approver }
  | .driftDetected drift => { state with driftDetected := some (.bool drift) }
  | .idempotencyKey key => { state with idempotencyKey := some (.str key) }
  | .executionResult result => { state with executionResult := some result }
  | .verificationPassed passed => { state with verificationPassed := some (.bool passed) }
  | .compensation c => { state with compensation := some c }
  | .rollbackResult result => { state with rollbackResult := some result }
  | .replanCycles cycles => { state with replanCycles := some cycles }
  | .replanContext context => { state with replanContext := some (.str context) }
  | .finalState s => { state with finalState := some (.str s.value) }

/-- `{**state, **update}`. -/
def AgentState.merge (state : AgentState) (update : Update) : AgentState :=
  update.foldl AgentState.write state

/-- `state[key]`. -/
def required {α : Type} (key : String) : Option α → Except PyError α
  | some a => .ok a
  | none => .error (.keyError key)

/-- A subscript whose value is then used as a string. -/
def requiredText (key : String) : Option Json → Except PyError String
  | some (.str s) => .ok s
  | some _ => .error (.attributeError "object has no attribute 'split'")
  | none => .error (.keyError key)

@[simp] theorem required_some {α : Type} (key : String) (a : α) :
    required key (some a) = .ok a := rfl

@[simp] theorem requiredText_str (key s : String) :
    requiredText key (some (.str s)) = .ok s := rfl

theorem required_ok_iff {α : Type} {key : String} {x : Option α} {a : α} :
    required key x = .ok a ↔ x = some a := by
  cases x <;> simp [required]

theorem requiredText_ok_iff {key s : String} {x : Option Json} :
    requiredText key x = .ok s ↔ x = some (.str s) := by
  unfold requiredText
  cases x with
  | none => simp
  | some j => cases j <;> simp

end RunState
