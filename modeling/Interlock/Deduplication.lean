import Interlock.Effects
import Interlock.Replays
import Interlock.DiagnosticSweep

/-!
# The ledger as deduplication

The six mutating tools over one ledger are a machine that answers a key from its record
once the key has succeeded. What a sequence of calls leaves behind is then what the
calls leave behind that were not answered so.
-/

namespace Deduplication

open Dictionary PythonValues MockService Tools DiagnosticSweep Effects Replays

/-! ### A side effect that raises -/

section Raising

variable {service : String} {s s' : ServiceState} {ctx ctx' : ToolContext} {e : PyError}

/-- A request that the service refuses leaves the service as it was. -/
def Refuses {α : Type} (endpoint : Endpoint α) : Prop :=
  ∀ s s' e, endpoint.run s = (.error e, s') → s' = s

theorem refuses_rollback : Refuses postRollback := fun _ _ _ => postRollback_raise

theorem refuses_diskClean : Refuses postDiskClean := fun _ _ _ => postDiskClean_raise

theorem post_map_raise {α β : Type} {endpoint : Endpoint α} {f : α → β}
    (hrefuses : Refuses endpoint)
    (h : (post service endpoint >>= fun a => pure (f a)).run ctx = (.error e, ctx')) :
    ctx' = ctx := by
  cases hpost : (post service endpoint).run ctx with
  | mk answer w =>
    cases answer with
    | ok a =>
      rw [Action.run_bind_of_ok hpost] at h
      cases h
    | error e' =>
      rw [Action.run_bind_of_error hpost] at h
      cases h
      rcases post_error hpost with rfl | ⟨s, s', hs, hrun, rfl⟩
      · rfl
      · rw [hrefuses s s' _ hrun]
        exact ToolContext.setClient_self hs

/-- A tool whose side effect raises has had none. -/
theorem perform_raise {call : ToolCall} (h : call.perform.run ctx = (.error e, ctx')) :
    ctx' = ctx := by
  cases call with
  | restartService service => exact post_map_raise (by rintro s s' e ⟨⟩) h
  | scaleService service replicas => exact post_map_raise (by rintro s s' e ⟨⟩) h
  | deleteRecords kind ids => cases h
  | clearCache service => exact post_map_raise refuses_diskClean h
  | applyConfigChange service key value => exact post_map_raise (by rintro s s' e ⟨⟩) h
  | rollbackDeployment service => exact post_map_raise refuses_rollback h

end Raising

/-! ### The tools as a machine -/

/-- What a call under a key answers, by the ledger's part of it. -/
def answer (m : MutationResult) : Answer Outcome := ⟨m.idempotentReplay, m.outcome⟩

section Run

variable {call : ToolCall} {key : String} {w w' : ToolContext}

theorem run_hit {existing : LedgerEntry} (h : w.store.get? key = some existing) :
    (call.run key).run w =
      (.ok ⟨call.toolName, key, true, existing.result, existing.compensation⟩, w) := by
  rw [ToolCall.run_eq]
  exact runIdempotent_hit h

theorem run_miss {outcome : Outcome} {performed : ToolContext} (h : w.store.get? key = none)
    (hperform : call.perform.run w = (.ok outcome, performed)) :
    (call.run key).run w =
      (.ok ⟨call.toolName, key, false, outcome.result, outcome.compensation⟩,
        { performed with store := performed.store.setdefault key (call.entry outcome) }) := by
  rw [ToolCall.run_eq]
  exact runIdempotent_miss h hperform

theorem run_raise {e : PyError} (h : (call.run key).run w = (.error e, w')) : w' = w := by
  rw [ToolCall.run_eq] at h
  cases hs : w.store.get? key with
  | some existing =>
    rw [runIdempotent_hit hs] at h
    cases h
  | none =>
    cases hperform : call.perform.run w with
    | mk result performed =>
      cases result with
      | ok outcome =>
        rw [runIdempotent_miss hs hperform] at h
        cases h
      | error e' =>
        rw [runIdempotent_raise hs hperform] at h
        cases h
        exact perform_raise hperform

/-- A success names its tool and its key. -/
theorem run_named {m : MutationResult} (h : (call.run key).run w = (.ok m, w')) :
    m = ⟨call.toolName, key, m.idempotentReplay, m.result, m.compensation⟩ := by
  cases hs : w.store.get? key with
  | some existing =>
    rw [run_hit hs] at h
    cases h
    rfl
  | none =>
    rcases run_ok_cases h with ⟨existing, hget, _⟩ | ⟨_, _, performed, hperform, _⟩
    · rw [hs] at hget
      cases hget
    · rw [run_miss hs hperform, Prod.mk.injEq, Except.ok.injEq] at h
      rw [← h.1]

end Run

def callTool (call : ToolCall) (key : String) (w : ToolContext) :
    Except PyError (Answer Outcome) × ToolContext :=
  (((call.run key).run w).1.map answer, ((call.run key).run w).2)

section Called

variable {call : ToolCall} {key : String} {w w' : ToolContext}

theorem callTool_of_ok {m : MutationResult} (h : (call.run key).run w = (.ok m, w')) :
    callTool call key w = (.ok (answer m), w') := by
  rw [callTool, h]
  rfl

theorem callTool_ok {x : Answer Outcome} (h : callTool call key w = (.ok x, w')) :
    ∃ m, (call.run key).run w = (.ok m, w') ∧ x = answer m := by
  cases hrun : (call.run key).run w with
  | mk result v =>
    rw [callTool, hrun] at h
    cases result with
    | error e => cases h
    | ok m =>
      cases h
      exact ⟨m, rfl, rfl⟩

theorem callTool_error {e : PyError} (h : callTool call key w = (.error e, w')) :
    (call.run key).run w = (.error e, w') := by
  cases hrun : (call.run key).run w with
  | mk result v =>
    rw [callTool, hrun] at h
    cases result with
    | ok m => cases h
    | error e' =>
      cases h
      rfl

end Called

/-- The tools over one sandbox: a key is recorded with the outcome in its entry. -/
def tools : Machine ToolContext String ToolCall Outcome PyError where
  call := callTool
  recorded := fun w key => (w.store.get? key).map fun entry => ⟨entry.result, entry.compensation⟩
  hit := by
    intro call key w outcome h
    obtain ⟨existing, hexisting, rfl⟩ := Option.map_eq_some_iff.mp h
    exact callTool_of_ok (run_hit hexisting)
  fresh := by
    intro call key w w' x h hcall
    have hstore := Option.map_eq_none_iff.mp h
    obtain ⟨m, hrun, rfl⟩ := callTool_ok hcall
    rcases run_ok_cases hrun with ⟨existing, hget, _⟩ | ⟨_, hreplay, performed, hperform, rfl⟩
    · rw [hstore] at hget
      cases hget
    · have hkept : performed.store = w.store := perform_store hperform
      refine ⟨hreplay, ?_, ?_⟩
      · rw [Dict.get?_setdefault, hkept, if_pos ⟨rfl, hstore⟩]
        rfl
      · intro other hne
        rw [Dict.get?_setdefault, hkept, if_neg fun h => hne h.1.symm]
  raise := by
    intro call key w w' e _ hcall
    exact run_raise (callTool_error hcall)

/-! ### Sequences of calls -/

abbrev Calls : Type := List (ToolCall × String)

/-- A success of an earlier call under the key. -/
def Succeeded (w : ToolContext) (calls : Calls) (key : String) (m : MutationResult) : Prop :=
  ∃ earlier call later w', calls = earlier ++ (call, key) :: later ∧
    (call.run key).run (tools.after earlier w) = (.ok m, w')

/-- The calls that were not answered from the ledger make the whole difference, the
others answer what their key succeeded with, and a call that raises leaves no trace. -/
structure Deduplicated (calls : Calls) (w : ToolContext) : Prop where
  final : tools.after (tools.dropReplays [] calls w) w = tools.after calls w
  replayed : ∀ older call key later m, calls = older ++ (call, key) :: later →
    Succeeded w older key m →
    (call.run key).run (tools.after older w) =
      (.ok ⟨call.toolName, key, true, m.result, m.compensation⟩, tools.after older w)
  raised : ∀ older call key later e w', calls = older ++ (call, key) :: later →
    (call.run key).run (tools.after older w) = (.error e, w') → w' = tools.after older w
  performed : ∀ older call key later outcome w', calls = older ++ (call, key) :: later →
    w.store.get? key = none → (∀ m, ¬ Succeeded w older key m) →
    call.perform.run (tools.after older w) = (.ok outcome, w') →
    (call.run key).run (tools.after older w) =
      (.ok ⟨call.toolName, key, false, outcome.result, outcome.compensation⟩,
        { w' with store := w'.store.setdefault key (call.entry outcome) })

section Sequences

variable {w w' : ToolContext} {older : Calls} {call : ToolCall} {key : String}

theorem replayed_of_success {m : MutationResult} (h : Succeeded w older key m)
    (call : ToolCall) :
    (call.run key).run (tools.after older w) =
      (.ok ⟨call.toolName, key, true, m.result, m.compensation⟩, tools.after older w) := by
  obtain ⟨earlier, first, later, w', rfl, hrun⟩ := h
  have hfirst : tools.call first key (tools.after earlier w) = (.ok (answer m), w') :=
    callTool_of_ok hrun
  have hreplayed : tools.call call key (tools.after (earlier ++ (first, key) :: later) w) =
      (.ok ⟨true, m.outcome⟩, tools.after (earlier ++ (first, key) :: later) w) :=
    Machine.replays call hfirst
  obtain ⟨n, hcalled, hsame⟩ := callTool_ok hreplayed
  have hflag : true = n.idempotentReplay := congrArg Answer.replayed hsame
  have houtcome : m.outcome = n.outcome := congrArg Answer.result hsame
  have hresult : m.result = n.result := congrArg Outcome.result houtcome
  have hcompensation : m.compensation = n.compensation := congrArg Outcome.compensation houtcome
  rw [hcalled, hresult, hcompensation, hflag, ← run_named hcalled]

theorem missing_of_no_success (h : w.store.get? key = none) (hnone : ∀ m, ¬ Succeeded w older key m) :
    (tools.after older w).store.get? key = none := by
  apply Option.map_eq_none_iff.mp
  apply Machine.unrecorded (M := tools) (Option.map_eq_none_iff.mpr h)
  intro earlier call later x w' hsplit hcall
  obtain ⟨m, hrun, _⟩ := callTool_ok hcall
  exact hnone m ⟨earlier, call, later, w', hsplit, hrun⟩

end Sequences

/-- Any calls of the tools, under any keys, are deduplicated by the ledger. -/
theorem calls_deduplicated (calls : Calls) (w : ToolContext) : Deduplicated calls w where
  final := Machine.after_dropReplays (by simp)
  replayed := by
    intro older call key later m _ hsuccess
    exact replayed_of_success hsuccess call
  raised := by
    intro older call key later e w' _ hrun
    exact run_raise hrun
  performed := by
    intro older call key later outcome w' _ hstore hnone hperform
    exact run_miss (missing_of_no_success hstore hnone) hperform

/-- A restart, the same key for a scaling of another service, a cleanup without a disk,
and the key of the cleanup again. -/
def mixedCalls : Calls :=
  [(.restartService "service_a", "k1"), (.scaleService "service_b" 3, "k1"),
    (.clearCache "service_a", "k2"), (.clearCache "service_c", "k2")]

example : tools.dropReplays [] mixedCalls (freshSandbox []) =
    [(.restartService "service_a", "k1"), (.clearCache "service_a", "k2"),
      (.clearCache "service_c", "k2")] := by
  decide +kernel

end Deduplication
