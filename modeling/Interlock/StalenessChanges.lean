import Interlock.OneService
import Interlock.ReachableSandbox
import Interlock.ScenarioValidation

/-!
# Producing a scenario

The harness injects the fault of a scenario into a fresh sandbox and applies its staleness
changes while the run waits for its approval. The validator looks at each change alone and
does not ask for the list of them, so a rollback can find nothing to go back to and the
list can be missing.
-/

namespace StalenessChanges

open Dictionary PythonValues MockService RecordsTable Tools DiagnosticSweep Fingerprint Execution
open Effects Dispatching OneService ReachableSandbox ScenarioValidation Relation

/-! ### The harness -/

/-- `d[name]` for a key that may be missing. -/
def key {α : Type} (name : String) (value : Option α) : Action ToolContext α :=
  Action.lift (match value with
    | some value => .ok value
    | none => .error (.keyError name))

/-- `build_sandbox(None, initial_replicas)`. -/
def buildSandbox (initialReplicas : Dict String Int) (seedRecords : List Row) : ToolContext where
  clients := .ofList (knownServices.map fun name =>
    (name, createApp name (hasDisk name) ((initialReplicas.get? name).getD baselineReplicas)))
  records := .init seedRecords

/-- `self._require_client(service)`. -/
def requireClient (service : String) : Action ToolContext Unit :=
  Action.read fun w => (w.client service).map fun _ => ()

/-- `FaultInjector(clients).inject(service, fault_type, rate)`. -/
def inject (service faultType rate : String) : Action ToolContext Unit := do
  requireClient service
  match lookup faultTypes faultType, lookup faultRates rate with
  | some faultType, some rate => post service (postFault faultType rate)
  | none, _ => Action.lift (.error (.valueError s!"{pyRepr faultType} is not a valid FaultType"))
  | _, none => Action.lift (.error (.valueError s!"{pyRepr rate} is not a valid FaultRate"))

/-- `clients[service]`. -/
def clientAt (service : String) : Action ToolContext Unit := Action.read fun w =>
  match w.clients.get? service with
  | some _ => .ok ()
  | none => .error (.keyError service)

/-- The rows of a kind go, whichever they are by then. -/
def deleteKind (kind : String) : Action ToolContext Unit := ⟨fun w =>
  let rows := w.records.getByKind (some kind) 1000000
  (.ok (), { w with records := w.records.delete (rows.map Row.id) })⟩

def applyStalenessChange (change : StalenessChange) : Action ToolContext Unit := do
  let action ← key "action" change.action
  if action = "reset" then
    let service ← key "service" change.service
    clientAt service
    post service postReset
  else if action = "inject_fault" then
    inject (← key "service" change.service) (← key "type" change.faultType)
      (change.rate.getD "high")
  else if action = "rollback" then
    let service ← key "service" change.service
    clientAt service
    let _ ← post service postRollback
  else if action = "delete_records" then
    deleteKind (← key "kind" change.kind)
  else
    Action.lift (.error (.valueError s!"unknown staleness action {pyRepr action}"))

def applyChanges : List StalenessChange → Action ToolContext Unit
  | [] => pure ()
  | change :: rest => do
    applyStalenessChange change
    applyChanges rest

/-- The first step of `run_scenario`. -/
def injectFault (scenario : ScenarioDoc) : Action ToolContext Unit := do
  let fault ← key "fault_injection" scenario.faultInjection
  inject (← key "service" fault.service) (← key "type" fault.faultType) (← key "rate" fault.rate)

/-- `for change in scenario["staleness_injection"]["changes"]`. -/
def applyStaleness (scenario : ScenarioDoc) : Action ToolContext Unit := do
  let injection ← key "staleness_injection" scenario.stalenessInjection
  applyChanges (← key "changes" injection.changes)

/-- An action that a run executed with success, or one that it took back. -/
def Executes (w w' : ToolContext) : Prop :=
  (∃ action parameters key o, (executeAction action parameters key).run w = (.ok o, w')) ∨
  ∃ c r, (applyCompensation c).run w = (.ok r, w')

def Executed : ToolContext → ToolContext → Prop := ReflTransGen Executes

/-! ### Versions along the changes -/

/-- How many versions a service has. -/
def versions (w : ToolContext) (service : String) : ℕ :=
  ((w.clients.get? service).map (·.versionHistory.length)).getD 0

/-- How many it has after a change that was applied. -/
def versionsAfter (service : String) (n : ℕ) (change : StalenessChange) : ℕ :=
  if change.service = some service then
    if change.action = some "reset" then baselineVersionHistory.length
    else if change.action = some "rollback" then n - 1
    else n
  else n

/-- Every rollback among the changes finds a version to go back to. -/
def RollbacksFit (start : String → ℕ) (changes : List StalenessChange) : Prop :=
  ∀ before change later service, changes = before ++ change :: later →
    change.action = some "rollback" → change.service = some service →
    2 ≤ before.foldl (versionsAfter service) (start service)

/-- The list of changes is there, and the rollbacks in it find a version to go back to. -/
def Producible (scenario : ScenarioDoc) (w : ToolContext) : Prop :=
  ∃ injection changes, scenario.stalenessInjection = some injection ∧
    injection.changes = some changes ∧ RollbacksFit (versions w) changes

/-! ### One change -/

section Changes

variable {w : ToolContext} {service : String} {s s' : ServiceState} {change : StalenessChange}

theorem key_then {α β : Type} {name : String} {x : α} {f : α → Action ToolContext β} :
    (key name (some x) >>= f).run w = (f x).run w := rfl

theorem clientAt_then {β : Type} {f : Unit → Action ToolContext β}
    (hs : w.clients.get? service = some s) : (clientAt service >>= f).run w = (f ()).run w := by
  apply Action.run_bind_of_ok
  rw [clientAt, Action.run_read, hs]

theorem registered_keeps (h : Registered w) (hs : w.clients.get? service = some s)
    (hkeeps : Keeps s s') : Registered (w.setClient service s') := by
  intro name hname
  by_cases hsame : service = name
  · subst hsame
    obtain ⟨t, ht, _, hversions⟩ := h service hname
    obtain rfl : s = t := Option.some.inj (hs.symm.trans ht)
    exact registered_setClient h hs hkeeps.hasDisk (mt hkeeps.versions.mp hversions) service hname
  · rw [ToolContext.setClient_clients, Dict.get?_set, if_neg hsame]
    exact h name hname

theorem versions_client (hs : w.clients.get? service = some s) :
    versions w service = s.versionHistory.length := by
  rw [versions, hs]
  rfl

theorem versions_setClient (other : String) :
    versions (w.setClient service s') other =
      if service = other then s'.versionHistory.length else versions w other := by
  rw [versions, ToolContext.setClient_clients, Dict.get?_set]
  split
  · rfl
  · rfl

/-- An injectable fault is injected; no version history changes. -/
theorem injects (h : Registered w) {fault : FaultInjection} (hfault : Injectable fault) :
    ∃ service typeText rateText w', fault.service = some service ∧
      fault.faultType = some typeText ∧ fault.rate = some rateText ∧
      (inject service typeText rateText).run w = (.ok (), w') ∧ Registered w' ∧
      ∀ other, versions w' other = versions w other := by
  obtain ⟨service, typeText, faultType, rateText, rate, hservice, hknown, htype, htypeFound, hrate,
    hrateFound, hdisk⟩ := hfault
  obtain ⟨s, hs, hregistry, _⟩ := h service hknown
  have hinjected : ∃ s', s.applyFault faultType rate = .ok s' := by
    cases faultType with
    | diskFull =>
      rw [ServiceState.applyFault, if_pos (hregistry.trans (hdisk rfl))]
      exact ⟨_, rfl⟩
    | _ => exact ⟨_, rfl⟩
  obtain ⟨s', hs'⟩ := hinjected
  obtain ⟨hdisk', hhistory⟩ := applyFault_keeps hs'
  have hpost : (post service (postFault faultType rate)).run w =
      (.ok (), w.setClient service s') := by
    apply post_ok_iff.mpr
    refine ⟨s, s', hs, ?_, rfl⟩
    simp only [postFault, hs', badRequest]
  have hclient : (requireClient service).run w = (.ok (), w) := by
    rw [requireClient, Action.run_read, ToolContext.client_ok_iff.mpr hs]
    rfl
  refine ⟨service, typeText, rateText, w.setClient service s', hservice, htype, hrate, ?_,
    registered_keeps h hs ⟨hdisk', by rw [hhistory]⟩, ?_⟩
  · rw [inject, Action.run_bind_of_ok hclient]
    simp only [htypeFound, hrateFound]
    exact hpost
  · intro other
    rw [versions_setClient]
    split
    · rename_i hsame
      subst hsame
      rw [hhistory, versions_client hs]
    · rfl

theorem versionsAfter_of_ne {n : ℕ} (h : change.service ≠ some service) :
    versionsAfter service n change = n := if_neg h

/-- The history of one service is replaced. -/
theorem versions_replaced {n : ℕ} (hservice : change.service = some service)
    (hlength : s'.versionHistory.length = n) (hs : w.clients.get? service = some s)
    (hafter : versionsAfter service s.versionHistory.length change = n) (other : String) :
    versions (w.setClient service s') other =
      versionsAfter other (versions w other) change := by
  rw [versions_setClient]
  by_cases hsame : service = other
  · subst hsame
    rw [if_pos rfl, versions_client hs, hafter, hlength]
  · rw [if_neg hsame, versionsAfter_of_ne]
    rw [hservice]
    exact fun heq => hsame (Option.some.inj heq)

theorem rollback_run (hs : w.clients.get? service = some s)
    (haction : change.action = some "rollback") (hservice : change.service = some service) :
    (applyStalenessChange change).run w =
      (do let _ ← post service postRollback : Action ToolContext Unit).run w := by
  rw [applyStalenessChange, haction, key_then, if_neg (by decide), if_neg (by decide),
    if_pos rfl, hservice, key_then, clientAt_then hs]

/-- A valid change is applied, but for a rollback that finds no version to go back to. -/
theorem change_returns (h : Registered w) (hvalid : ValidChange change)
    (hfits : change.action = some "rollback" → ∀ service, change.service = some service →
      2 ≤ versions w service) :
    ∃ w', (applyStalenessChange change).run w = (.ok (), w') ∧ Registered w' ∧
      ∀ service, versions w' service = versionsAfter service (versions w service) change := by
  cases hvalid with
  | @reset service haction hservice hknown =>
    obtain ⟨s, hs, _, hversions⟩ := h service hknown
    refine ⟨w.setClient service s.reset, ?_, registered_keeps h hs ⟨rfl, ?_⟩, ?_⟩
    · rw [applyStalenessChange, haction, key_then, if_pos rfl, hservice, key_then,
        clientAt_then hs]
      exact post_ok_iff.mpr ⟨s, s.reset, hs, rfl, rfl⟩
    · exact iff_of_false (versions_reset s).1 hversions
    · apply versions_replaced hservice rfl hs
      rw [versionsAfter, if_pos hservice, if_pos haction]
      rfl
  | @rollback service haction hservice hknown =>
    obtain ⟨s, hs, _, hversions⟩ := h service hknown
    have hlength := hfits haction service hservice
    rw [versions_client hs] at hlength
    obtain ⟨older, u, v, hhistory⟩ := two_versions hlength
    let popped := { s with versionHistory := older ++ [u] }.clearTransient
    have hpopped : popped.versionHistory = older ++ [u] := rfl
    have hback : postRollback.run s = (.ok ⟨s.name, v, u⟩, popped) :=
      postRollback_ok_iff.mpr ⟨older, u, v, hhistory, rfl, rfl⟩
    have hpost : (post service postRollback).run w =
        (.ok ⟨s.name, v, u⟩, w.setClient service popped) :=
      post_ok_iff.mpr ⟨s, popped, hs, hback, rfl⟩
    refine ⟨w.setClient service popped, ?_, registered_keeps h hs ⟨rfl, ?_⟩, ?_⟩
    · rw [rollback_run hs haction hservice, Action.run_bind_of_ok hpost]
      rfl
    · exact iff_of_false (by simp [hpopped]) hversions
    · apply versions_replaced hservice (by rw [hpopped]) hs
      rw [versionsAfter, if_pos hservice, haction, if_neg (by decide), if_pos rfl, hhistory]
      simp
  | injectFault haction hfault =>
    obtain ⟨service, typeText, rateText, w', hservice, htype, hrate, hrun, hregistered,
      hversions⟩ := injects h hfault
    have hservice : change.service = some service := hservice
    have htype : change.faultType = some typeText := htype
    have hrate : change.rate = some rateText := hrate
    refine ⟨w', ?_, hregistered, ?_⟩
    · rw [applyStalenessChange, haction, key_then, if_neg (by decide), if_pos rfl, hservice,
        key_then, htype, key_then, hrate]
      exact hrun
    · intro other
      rw [hversions, versionsAfter, haction]
      simp
  | @deleteRecords kind haction hkind hknown =>
    let rows := w.records.getByKind (some kind) 1000000
    refine ⟨{ w with records := w.records.delete (rows.map Row.id) }, ?_, h, ?_⟩
    · rw [applyStalenessChange, haction, key_then, if_neg (by decide), if_neg (by decide),
        if_neg (by decide), if_pos rfl, hkind, key_then]
      rfl
    · intro service
      have hsame : versionsAfter service (versions w service) change = versions w service := by
        rw [versionsAfter, haction]
        simp
      rw [hsame]
      rfl

theorem rollback_known (hvalid : ValidChange change) (haction : change.action = some "rollback")
    (hservice : change.service = some service) : service ∈ knownServices := by
  have hother : ∀ {text : String}, change.action = some text → text ≠ "rollback" →
      service ∈ knownServices := by
    intro text htext hne
    rw [haction] at htext
    exact absurd (Option.some.inj htext).symm hne
  cases hvalid with
  | rollback _ hs hknown =>
    rw [hservice] at hs
    exact Option.some.inj hs ▸ hknown
  | reset haction' _ _ => exact hother haction' (by decide)
  | injectFault haction' _ => exact hother haction' (by decide)
  | deleteRecords haction' _ _ => exact hother haction' (by decide)

/-- A rollback that finds no version to go back to is answered with 400. -/
theorem rollback_raises (hs : w.clients.get? service = some s)
    (haction : change.action = some "rollback") (hservice : change.service = some service)
    (hshort : ¬ 2 ≤ versions w service) :
    ((applyStalenessChange change).run w).1 = .error (.httpStatusError 400) := by
  rw [versions_client hs, not_le] at hshort
  rw [rollback_run hs haction hservice, Action.run_bind, run_post,
    ToolContext.client_ok_iff.mpr hs]
  simp only [postRollback_short hshort]

end Changes

/-! ### All changes -/

section Runs

variable {w : ToolContext} {changes : List StalenessChange}

theorem rollbacksFit_cons {start : String → ℕ} {change : StalenessChange} :
    RollbacksFit start (change :: changes) ↔
      (change.action = some "rollback" → ∀ service, change.service = some service →
        2 ≤ start service) ∧
      RollbacksFit (fun service => versionsAfter service (start service) change) changes := by
  constructor
  · intro h
    constructor
    · exact fun haction service hservice => h [] change changes service rfl haction hservice
    · intro before later rest service hsplit haction hservice
      exact h (change :: before) later rest service (by rw [hsplit]; rfl) haction hservice
  · rintro ⟨hfirst, hrest⟩ before later rest service hsplit haction hservice
    cases before with
    | nil =>
      cases hsplit
      exact hfirst haction service hservice
    | cons c before =>
      cases hsplit
      exact hrest before later rest service rfl haction hservice

/-- The changes are all applied exactly if no rollback among them comes too late. -/
theorem applyChanges_iff (h : Registered w) (hvalid : ∀ change ∈ changes, ValidChange change) :
    (∃ w', (applyChanges changes).run w = (.ok (), w')) ↔ RollbacksFit (versions w) changes := by
  induction changes generalizing w with
  | nil =>
    constructor
    · intro _ before change later service hsplit
      simp at hsplit
    · exact fun _ => ⟨w, rfl⟩
  | cons change rest ih =>
    rw [rollbacksFit_cons]
    by_cases hfits : change.action = some "rollback" → ∀ service, change.service = some service →
        2 ≤ versions w service
    · obtain ⟨w', hrun, hregistered, hversions⟩ :=
        change_returns h (hvalid change List.mem_cons_self) hfits
      have hrest := ih hregistered fun c hc => hvalid c (List.mem_cons_of_mem change hc)
      rw [funext hversions] at hrest
      rw [applyChanges, Action.run_bind_of_ok hrun, hrest]
      exact (and_iff_right hfits).symm
    · have hlate := hfits
      simp only [Classical.not_imp, not_forall] at hlate
      obtain ⟨haction, service, hservice, hshort⟩ := hlate
      have hknown := rollback_known (hvalid change List.mem_cons_self) haction hservice
      obtain ⟨s, hs, _, _⟩ := h service hknown
      constructor
      · rintro ⟨w', hrun⟩
        obtain ⟨_, w₁, hfirst, _⟩ := Action.run_bind_ok_iff.mp hrun
        have hraised := rollback_raises hs haction hservice hshort
        rw [hfirst] at hraised
        cases hraised
      · rintro ⟨hfirst, _⟩
        exact absurd hfirst hfits

end Runs

/-! ### Whole scenarios -/

section Scenarios

variable {w w' : ToolContext} {scenario : ScenarioDoc} {service : String}

theorem registered_buildSandbox (initialReplicas : Dict String Int) (seedRecords : List Row) :
    Registered (buildSandbox initialReplicas seedRecords) := by
  intro service hknown
  let app := fun name =>
    createApp name (hasDisk name) ((initialReplicas.get? name).getD baselineReplicas)
  refine ⟨app service, ?_, rfl, ?_⟩
  · simp only [knownServices, serviceRoles, List.map_cons, List.map_nil, List.mem_cons,
      List.not_mem_nil, or_false] at hknown
    rcases hknown with rfl | rfl | rfl <;> rfl
  · exact List.cons_ne_nil _ _

/-- What reaches one service leaves the registry as it was. -/
theorem registered_reaches {α : Type} {act : Action ToolContext α} {a : α}
    {f : ServiceState → Except PyError α × ServiceState} (h : Registered w)
    (hreaches : Reaches service act f) (hrun : act.run w = (.ok a, w')) : Registered w' := by
  cases hs : w.clients.get? service with
  | none =>
    obtain ⟨e, herror⟩ := hreaches.missing w hs
    rw [herror] at hrun
    cases hrun
  | some s =>
    rw [hreaches.found w s hs] at hrun
    obtain ⟨_, rfl⟩ := Prod.mk.inj hrun
    exact registered_keeps h hs (hreaches.keeps s)

theorem registered_tool {call : ToolCall} {o : Outcome} (h : Registered w)
    (hrun : call.perform.run w = (.ok o, w')) : Registered w' := by
  by_cases hdelete : call.toolName = "delete_records"
  · cases call with
    | deleteRecords kind ids =>
      have hrows : (performDeleteRecords kind ids).run w = (.ok o, w') := hrun
      rw [performDeleteRecords_run] at hrows
      cases hrows
      exact h
    | _ => simp [ToolCall.toolName] at hdelete
  · obtain ⟨f, hreaches, _⟩ := reaches_perform hdelete
    exact registered_reaches h hreaches hrun

theorem registered_executes (h : Registered w) (hstep : Executes w w') : Registered w' := by
  rcases hstep with ⟨action, parameters, key, o, hrun⟩ | ⟨c, r, hrun⟩
  · obtain ⟨call, m, _, hcall, _⟩ := executeAction_ok_iff.mp hrun
    rcases run_ok_cases hcall with ⟨_, _, _, _, rfl⟩ | ⟨_, _, performed, hperformed, rfl⟩
    · exact h
    · have hregistered : Registered performed := registered_tool h hperformed
      exact hregistered
  · cases c with
    | noop reason =>
      cases hrun
      exact h
    | reinsertRecords rows =>
      cases hrun
      exact h
    | scaleService target replicas =>
      exact registered_reaches h (reaches_post RollbackResult.scaled (keeps_scale · replicas)) hrun
    | applyConfigChange target configKey value =>
      exact registered_reaches h (reaches_post RollbackResult.configured
        (keeps_config · configKey value)) hrun
    | deploy target version =>
      exact registered_reaches h (reaches_post RollbackResult.deployed (keeps_deploy · version))
        hrun

/-- Whatever a run executes, every service of the registry stays there. -/
theorem registered_executed (h : Registered w) (hexecuted : Executed w w') : Registered w' := by
  induction hexecuted with
  | refl => exact h
  | tail _ hstep ih => exact registered_executes ih hstep

theorem injectFault_returns (h : Registered w) (haccepted : Accepted scenario) :
    ∃ w', (injectFault scenario).run w = (.ok (), w') ∧ Registered w' := by
  obtain ⟨fault, hfault, hinjectable⟩ := haccepted.fault
  obtain ⟨service, typeText, rateText, w', hservice, htype, hrate, hrun, hregistered, _⟩ :=
    injects h hinjectable
  refine ⟨w', ?_, hregistered⟩
  rw [injectFault, hfault, key_then, hservice, key_then, htype, key_then, hrate]
  exact hrun

theorem applyStaleness_iff (h : Registered w) (haccepted : Accepted scenario)
    (hstale : scenario.category = some "staleness") :
    (∃ w', (applyStaleness scenario).run w = (.ok (), w')) ↔ Producible scenario w := by
  obtain ⟨injection, hinjection, hvalid⟩ := haccepted.staleness hstale
  rw [applyStaleness, hinjection, key_then]
  cases hchanges : injection.changes with
  | none =>
    constructor
    · rintro ⟨w', hrun⟩
      cases hrun
    · rintro ⟨injection', changes, hinjection', hchanges', _⟩
      rw [hinjection] at hinjection'
      cases hinjection'
      rw [hchanges] at hchanges'
      cases hchanges'
  | some changes =>
    rw [hchanges, Option.getD_some] at hvalid
    rw [key_then, applyChanges_iff h hvalid]
    constructor
    · exact fun hfits => ⟨injection, changes, hinjection, hchanges, hfits⟩
    · rintro ⟨injection', changes', hinjection', hchanges', hfits⟩
      rw [hinjection] at hinjection'
      cases hinjection'
      rw [hchanges] at hchanges'
      cases hchanges'
      exact hfits

/-- An accepted scenario is produced in a fresh sandbox, whatever the run executes, exactly if
its changes are listed and no rollback among them is left without a version to go back to. -/
theorem produced_iff (h : validateScenario scenario = []) (initialReplicas : Dict String Int)
    (seedRecords : List Row) :
    ∃ w₁, (injectFault scenario).run (buildSandbox initialReplicas seedRecords) = (.ok (), w₁) ∧
      ∀ w₂, Executed w₁ w₂ → scenario.category = some "staleness" →
        ((∃ w₃, (applyStaleness scenario).run w₂ = (.ok (), w₃)) ↔ Producible scenario w₂) := by
  have haccepted := accepted_of_nil h
  obtain ⟨w₁, hinjected, hregistered⟩ :=
    injectFault_returns (registered_buildSandbox initialReplicas seedRecords) haccepted
  refine ⟨w₁, hinjected, ?_⟩
  intro w₂ hexecuted hstale
  exact applyStaleness_iff (registered_executed hregistered hexecuted) haccepted hstale

end Scenarios

/-! ### Rolled back too often -/

def rollbackOf (service : String) : StalenessChange where
  action := some "rollback"
  service := some service

/-- A staleness scenario whose service is rolled back a number of times. -/
def rolledBack (times : ℕ) : ScenarioDoc where
  id := some "s051"
  name := some "rolled back while it waits"
  category := some "staleness"
  faultInjection := some { service := "service_b", faultType := "high_error_rate", rate := "high" }
  expectedDiagnosis := some "bad deploy"
  correctActions := some ["rollback_deployment:service_b"]
  acceptableActions := some ["rollback_deployment:service_b"]
  forbiddenActions := some ["delete_records:*"]
  expectedRiskTier := some "high"
  verification := some "healthy"
  stalenessInjection := some { changes := some (List.replicate times (rollbackOf "service_b")) }
  expectedDriftDetected := some true

theorem accepted_rolledBack : validateScenario (rolledBack 1) = [] := by decide +kernel

theorem produced_rolledBack :
    ∃ w₁, (injectFault (rolledBack 1)).run (buildSandbox .empty []) = (.ok (), w₁) ∧
      ∃ w₃, (applyStaleness (rolledBack 1)).run w₁ = (.ok (), w₃) := by
  obtain ⟨w₁, hinjected, hproduced⟩ := produced_iff accepted_rolledBack .empty []
  refine ⟨w₁, hinjected, (hproduced w₁ .refl rfl).mpr ?_⟩
  cases hinjected
  refine ⟨_, _, rfl, rfl, ?_⟩
  rw [List.replicate_one, rollbacksFit_cons]
  constructor
  · intro _ service hservice
    cases hservice
    decide +kernel
  · intro before change later service hsplit
    simp at hsplit

/-- A fresh service has three versions, so that the third rollback is answered with 400. -/
theorem third_rollback_raises :
    validateScenario (rolledBack 3) = [] ∧ (rolledBack 3).category = some "staleness" ∧
      ∃ w₁, (injectFault (rolledBack 3)).run (buildSandbox .empty []) = (.ok (), w₁) ∧
        ((applyStaleness (rolledBack 3)).run w₁).1 = .error (.httpStatusError 400) := by
  refine ⟨by decide +kernel, rfl, _, rfl, ?_⟩
  decide +kernel

end StalenessChanges
