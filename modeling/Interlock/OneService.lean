import Interlock.Dispatching
import Interlock.LocalReadings

/-!
# Actions on one service

A tool with a service as its target, and the compensation it registers, reach that service
only: what they answer and what they make of it is a function of its state. Run in two
sandboxes that agree on the service and on the ledger keys of the run, they answer alike
and leave sandboxes that agree again; no other service and no other key is touched.
-/

namespace OneService

open Dictionary PythonValues MockService Tools DiagnosticSweep Fingerprint Execution Effects
open Dispatching LocalReadings

/-! ### Functions of one service -/

/-- What a sweep needs of a service stays as it was. -/
structure Keeps (s s' : ServiceState) : Prop where
  hasDisk : s'.hasDisk = s.hasDisk
  versions : s'.versionHistory = [] ↔ s.versionHistory = []

theorem Keeps.refl (s : ServiceState) : Keeps s s := ⟨rfl, Iff.rfl⟩

/-- An action that reaches one service only, and does to it what `f` says. -/
structure Reaches {α : Type} (service : String) (act : Action ToolContext α)
    (f : ServiceState → Except PyError α × ServiceState) : Prop where
  missing : ∀ w, w.clients.get? service = none → ∃ e, act.run w = (.error e, w)
  found : ∀ w s, w.clients.get? service = some s →
    act.run w = ((f s).1, w.setClient service (f s).2)
  keeps : ∀ s, Keeps s (f s).2

section Posts

variable {α β : Type} {service : String} {endpoint : Endpoint α}

theorem reaches_post (g : α → β) (hkeeps : ∀ s, Keeps s (endpoint.run s).2) :
    Reaches service (post service endpoint >>= fun a => pure (g a))
      (fun s => ((endpoint.run s).1.map g, (endpoint.run s).2)) := by
  refine ⟨?_, ?_, hkeeps⟩
  · intro w hmissing
    cases hclient : w.client service with
    | ok s =>
      rw [ToolContext.client_ok_iff, hmissing] at hclient
      cases hclient
    | error e =>
      refine ⟨e, ?_⟩
      rw [Action.run_bind, run_post, hclient]
  · intro w s hs
    rw [Action.run_bind, run_post, ToolContext.client_ok_iff.mpr hs]
    cases hrun : (endpoint.run s).1 with
    | error e => simp only [hrun, Except.map]
    | ok a => simp only [hrun, Except.map, Action.run_pure]

end Posts

section Endpoints

variable (s : ServiceState)

theorem keeps_restart : Keeps s (postRestart.run s).2 := ⟨rfl, Iff.rfl⟩

theorem keeps_scale (replicas : Int) : Keeps s ((postScale replicas).run s).2 := ⟨rfl, Iff.rfl⟩

theorem keeps_config (key : String) (value : Option String) :
    Keeps s ((postConfig key value).run s).2 := by
  cases value with
  | none => exact .refl s
  | some value => exact ⟨rfl, Iff.rfl⟩

theorem keeps_diskClean : Keeps s (postDiskClean.run s).2 := by
  cases hdisk : s.hasDisk with
  | false =>
    simp only [postDiskClean, hdisk]
    exact .refl s
  | true =>
    simp only [postDiskClean, ServiceState.cleanDisk, hdisk, if_true]
    exact ⟨hdisk.symm ▸ rfl, Iff.rfl⟩

theorem keeps_rollback : Keeps s (postRollback.run s).2 := by
  cases hrun : postRollback.run s with
  | mk result s' =>
    cases result with
    | error e =>
      rw [postRollback_raise hrun]
      exact .refl s
    | ok answer =>
      obtain ⟨older, u, v, hversions, _, rfl⟩ := postRollback_ok_iff.mp hrun
      refine ⟨rfl, ?_⟩
      simp [ServiceState.clearTransient, hversions]

theorem keeps_deploy (version : String) : Keeps s ((postDeploy version).run s).2 := by
  cases hversions : s.versionHistory with
  | nil =>
    have hdeploy : s.deploy version = .error (.valueError "list index out of range") := by
      rw [ServiceState.deploy, ServiceState.deployedVersion, hversions]
      rfl
    simp only [postDeploy, hdeploy]
    exact .refl s
  | cons first rest =>
    have hne : s.versionHistory ≠ [] := by rw [hversions]; exact List.cons_ne_nil _ _
    rw [postDeploy_run (List.dropLast_append_getLast hne).symm]
    refine ⟨?_, ?_⟩
    · dsimp only
      split <;> rfl
    · dsimp only
      split
      · rfl
      · simp [hversions]

end Endpoints

/-! ### The tools and their compensations -/

/-- A compensation that posts to no other service. -/
def Own (service : String) : Compensation → Prop
  | .noop _ => True
  | .scaleService target _ => target = service
  | .applyConfigChange target _ _ => target = service
  | .deploy target _ => target = service
  | .reinsertRecords _ => False

theorem reaches_outcome {α : Type} {service : String} {endpoint : Endpoint α} (g : α → Outcome)
    (hkeeps : ∀ s, Keeps s (endpoint.run s).2) (hown : ∀ a, Own service (g a).compensation) :
    ∃ f, Reaches service (post service endpoint >>= fun a => pure (g a)) f ∧
      ∀ s o, (f s).1 = .ok o → Own service o.compensation := by
  refine ⟨_, reaches_post g hkeeps, ?_⟩
  intro s o ho
  cases hrun : (endpoint.run s).1 with
  | error e =>
    simp only [hrun] at ho
    cases ho
  | ok a =>
    simp only [hrun] at ho
    cases ho
    exact hown a

/-- A tool with a service as its target reaches that service, and registers a compensation
for it. -/
theorem reaches_perform {call : ToolCall} (h : call.toolName ≠ "delete_records") :
    ∃ f, Reaches (callTarget call) call.perform f ∧
      ∀ s o, (f s).1 = .ok o → Own (callTarget call) o.compensation := by
  cases call with
  | restartService service =>
    refine reaches_outcome _ keeps_restart ?_
    exact fun _ => trivial
  | scaleService service replicas =>
    refine reaches_outcome _ (keeps_scale · replicas) ?_
    exact fun _ => rfl
  | deleteRecords kind ids => exact absurd rfl h
  | clearCache service =>
    refine reaches_outcome _ keeps_diskClean ?_
    exact fun _ => trivial
  | applyConfigChange service key value =>
    refine reaches_outcome _ (keeps_config · key (some value)) ?_
    exact fun _ => rfl
  | rollbackDeployment service =>
    refine reaches_outcome _ keeps_rollback ?_
    exact fun _ => rfl

theorem reaches_compensation {service : String} {c : Compensation} (h : Own service c) :
    (∃ reason, c = .noop reason) ∨ ∃ f, Reaches service (applyCompensation c) f := by
  cases c with
  | noop reason => exact Or.inl ⟨reason, rfl⟩
  | scaleService target replicas =>
    cases h
    exact Or.inr ⟨_, reaches_post RollbackResult.scaled (keeps_scale · replicas)⟩
  | applyConfigChange target key value =>
    cases h
    exact Or.inr ⟨_, reaches_post RollbackResult.configured (keeps_config · key value)⟩
  | deploy target version =>
    cases h
    exact Or.inr ⟨_, reaches_post RollbackResult.deployed (keeps_deploy · version)⟩
  | reinsertRecords rows => exact h.elim

/-! ### Two sandboxes -/

/-- Both raise, or both return the same. -/
inductive Same {α : Type} : Except PyError α → Except PyError α → Prop where
  | raised {e e' : PyError} : Same (.error e) (.error e')
  | returned {a : α} : Same (.ok a) (.ok a)

theorem Same.refl {α : Type} (x : Except PyError α) : Same x x := by
  cases x with
  | error e => exact .raised
  | ok a => exact .returned

/-- One step in each of two sandboxes: nothing, or the same to one service, which may be
recorded under a key. -/
inductive Abreast (service : String) (Key : String → Prop) (v w : ToolContext) :
    ToolContext → ToolContext → Prop where
  | still : Abreast service Key v w v w
  | moved {s s' : ServiceState} (hv : v.clients.get? service = some s)
      (hw : w.clients.get? service = some s) (hkeeps : Keeps s s') :
      Abreast service Key v w (v.setClient service s') (w.setClient service s')
  | recorded {s s' : ServiceState} {key : String} {entry : LedgerEntry}
      (hv : v.clients.get? service = some s) (hw : w.clients.get? service = some s)
      (hkeeps : Keeps s s') (hkey : Key key) (hown : Own service entry.compensation) :
      Abreast service Key v w
        { v.setClient service s' with store := v.store.setdefault key entry }
        { w.setClient service s' with store := w.store.setdefault key entry }

/-- The sandboxes agree on a service and on the ledger keys that are its own. -/
structure Agree (service : String) (Key : String → Prop) (v w : ToolContext) : Prop where
  client : v.clients.get? service = w.clients.get? service
  ledger : ∀ key, Key key → v.store.get? key = w.store.get? key
  sweeps : (∃ obs, gatherObservations v = .ok obs) ↔ ∃ obs, gatherObservations w = .ok obs

theorem Agree.refl {service : String} {Key : String → Prop} (w : ToolContext) :
    Agree service Key w w := ⟨rfl, fun _ _ => rfl, Iff.rfl⟩

section Abreast

variable {service other : String} {Key : String → Prop} {v w v' w' : ToolContext}
variable {s s' : ServiceState} {α : Type}

/-- A step that keeps what a sweep needs of a service keeps every sweep's success. -/
theorem answers_setClient (hs : w.clients.get? service = some s) (hkeeps : Keeps s s')
    (name : String) : Answers (w.setClient service s') name ↔ Answers w name := by
  unfold Answers
  rw [ToolContext.setClient_clients]
  by_cases hname : service = name
  · subst hname
    rw [Dict.get?_set_self, hs]
    simp only [Option.some.injEq, exists_eq_left', ne_eq, hkeeps.versions, hkeeps.hasDisk]
  · rw [Dict.get?_set_ne _ _ hname]

theorem sweeps_setClient (hs : w.clients.get? service = some s) (hkeeps : Keeps s s') :
    (∃ obs, gatherObservations (w.setClient service s') = .ok obs) ↔
      ∃ obs, gatherObservations w = .ok obs := by
  rw [gather_ok_iff, gather_ok_iff]
  exact forall₂_congr fun name _ => answers_setClient hs hkeeps name

theorem sweeps_store {store : Dict String LedgerEntry} :
    (∃ obs, gatherObservations { w with store := store } = .ok obs) ↔
      ∃ obs, gatherObservations w = .ok obs := by
  rw [gather_ok_iff, gather_ok_iff]
  rfl

/-- What a step keeps: the sweeps, every other service and every other key. -/
structure Kept (service : String) (Key : String → Prop) (w w' : ToolContext) : Prop where
  clients : ∀ name, name ≠ service → w'.clients.get? name = w.clients.get? name
  ledger : ∀ key, ¬ Key key → w'.store.get? key = w.store.get? key
  sweeps : (∃ obs, gatherObservations w' = .ok obs) ↔ ∃ obs, gatherObservations w = .ok obs
  entries : (∀ key entry, Key key → w.store.get? key = some entry →
      Own service entry.compensation) →
    ∀ key entry, Key key → w'.store.get? key = some entry → Own service entry.compensation

theorem Abreast.kept (h : Abreast service Key v w v' w') : Kept service Key v v' := by
  cases h with
  | still => exact ⟨fun _ _ => rfl, fun _ _ => rfl, Iff.rfl, id⟩
  | moved hv _ hkeeps =>
    refine ⟨?_, fun _ _ => rfl, sweeps_setClient hv hkeeps, id⟩
    intro name hname
    rw [ToolContext.setClient_clients, Dict.get?_set_ne _ _ hname.symm]
  | @recorded s s' key entry hv _ hkeeps hkey hown =>
    refine ⟨?_, ?_, sweeps_store.trans (sweeps_setClient hv hkeeps), ?_⟩
    · intro name hname
      change (v.clients.set service s').get? name = _
      rw [Dict.get?_set_ne _ _ hname.symm]
    · intro k hk
      have hne : key ≠ k := fun heq => hk (heq ▸ hkey)
      change (v.store.setdefault key entry).get? k = _
      rw [Dict.get?_setdefault, if_neg fun hkeys => hne hkeys.1]
    · intro hentries k x hk hx
      change (v.store.setdefault key entry).get? k = some x at hx
      rw [Dict.get?_setdefault] at hx
      split at hx
      · cases hx
        exact hown
      · exact hentries k x hk hx

/-- Steps abreast leave sandboxes that agree again. -/
theorem Abreast.agree (h : Abreast service Key v w v' w') (hagree : Agree service Key v w) :
    Agree service Key v' w' := by
  cases h with
  | still => exact hagree
  | moved hv hw hkeeps =>
    refine ⟨?_, hagree.ledger, ?_⟩
    · rw [ToolContext.setClient_clients, ToolContext.setClient_clients, Dict.get?_set_self,
        Dict.get?_set_self]
    · rw [sweeps_setClient hv hkeeps, sweeps_setClient hw hkeeps]
      exact hagree.sweeps
  | @recorded s s' key entry hv hw hkeeps _ _ =>
    refine ⟨?_, ?_, ?_⟩
    · change (v.clients.set service s').get? service = (w.clients.set service s').get? service
      rw [Dict.get?_set_self, Dict.get?_set_self]
    · intro k hk
      change (v.store.setdefault key entry).get? k = (w.store.setdefault key entry).get? k
      rw [Dict.get?_setdefault, Dict.get?_setdefault, hagree.ledger k hk]
      by_cases hkeys : key = k
      · subst hkeys
        rw [hagree.ledger key hk]
      · simp only [hkeys, false_and, if_false]
    · exact (sweeps_store.trans (sweeps_setClient hv hkeeps)).trans
        (hagree.sweeps.trans (sweeps_store.trans (sweeps_setClient hw hkeeps)).symm)

/-- A step of another service keeps the agreement. -/
theorem Agree.beside {Key' : String → Prop} (h : Agree service Key v w)
    (hkept : Kept other Key' v v') (hservice : service ≠ other)
    (hkeys : ∀ key, Key key → ¬ Key' key) : Agree service Key v' w := by
  refine ⟨?_, ?_, hkept.sweeps.trans h.sweeps⟩
  · rw [hkept.clients service hservice]
    exact h.client
  · intro key hkey
    rw [hkept.ledger key (hkeys key hkey)]
    exact h.ledger key hkey

end Abreast

/-! ### Executions and compensations in two sandboxes -/

section Runs

variable {service tool action key : String} {Key : String → Prop} {v w : ToolContext}
variable {parameters : Json} {α : Type}

/-- An action of one service, run in two sandboxes that agree on it. -/
theorem abreast_of_reaches {act : Action ToolContext α}
    {f : ServiceState → Except PyError α × ServiceState} (h : Reaches service act f)
    (hclient : v.clients.get? service = w.clients.get? service) :
    ∃ r r' v' w', act.run v = (r, v') ∧ act.run w = (r', w') ∧ Same r r' ∧
      Abreast service Key v w v' w' := by
  cases hs : v.clients.get? service with
  | none =>
    obtain ⟨e, he⟩ := h.missing v hs
    obtain ⟨e', he'⟩ := h.missing w (hclient.symm.trans hs)
    exact ⟨_, _, _, _, he, he', .raised, .still⟩
  | some s =>
    have hs' := hclient.symm.trans hs
    exact ⟨_, _, _, _, h.found v s hs, h.found w s hs', .refl _, .moved hs hs' (h.keeps s)⟩

theorem execution_abreast (hsplit : splitColon action = .ok (tool, service))
    (htool : tool ≠ "delete_records") (hkey : Key key) (h : Agree service Key v w)
    (hentries : ∀ key entry, Key key → v.store.get? key = some entry →
      Own service entry.compensation) :
    ∃ r r' v' w', (executeAction action parameters key).run v = (r, v') ∧
      (executeAction action parameters key).run w = (r', w') ∧ Same r r' ∧
      Abreast service Key v w v' w' ∧ ∀ o, r = .ok o → Own service o.compensation := by
  cases hcall : dispatch action parameters with
  | error e =>
    have hraise : ∀ u, (executeAction action parameters key).run u = (.error e, u) := by
      intro u
      apply Action.run_bind_of_error
      rw [Action.run_lift, hcall]
    exact ⟨_, _, _, _, hraise v, hraise w, .raised, .still, fun o ho => nomatch ho⟩
  | ok call =>
    rw [dispatch_of_split hsplit] at hcall
    obtain ⟨hname, htarget⟩ := named_by_call hcall
    rw [← dispatch_of_split hsplit] at hcall
    have hledger := h.ledger key hkey
    cases hv : v.store.get? key with
    | some entry =>
      have hw := hledger.symm.trans hv
      refine ⟨_, _, _, _, executeAction_hit hcall hv, executeAction_hit hcall hw, .returned, .still,
        ?_⟩
      intro o ho
      cases ho
      exact hentries key entry hkey hv
    | none =>
      have hw := hledger.symm.trans hv
      have hother : call.toolName ≠ "delete_records" := by rw [hname]; exact htool
      obtain ⟨f, hf, hown⟩ := reaches_perform hother
      rw [htarget] at hf hown
      cases hs : v.clients.get? service with
      | none =>
        obtain ⟨e, he⟩ := hf.missing v hs
        obtain ⟨e', he'⟩ := hf.missing w (h.client.symm.trans hs)
        exact ⟨_, _, _, _, executeAction_refused hcall hv he, executeAction_refused hcall hw he',
          .raised, .still, fun o ho => nomatch ho⟩
      | some s =>
        have hs' := h.client.symm.trans hs
        have hrun := hf.found v s hs
        have hrun' := hf.found w s hs'
        cases hresult : (f s).1 with
        | error e =>
          rw [hresult] at hrun hrun'
          exact ⟨_, _, _, _, executeAction_refused hcall hv hrun,
            executeAction_refused hcall hw hrun', .raised, .moved hs hs' (hf.keeps s),
            fun o ho => nomatch ho⟩
        | ok o =>
          rw [hresult] at hrun hrun'
          refine ⟨_, _, _, _, executeAction_miss hcall hv hrun, executeAction_miss hcall hw hrun',
            .returned, .recorded hs hs' (hf.keeps s) hkey (hown s o hresult), ?_⟩
          intro o' ho'
          cases ho'
          exact hown s o hresult

theorem compensation_abreast {c : Compensation} (hown : Own service c)
    (h : Agree service Key v w) :
    ∃ r r' v' w', (applyCompensation c).run v = (r, v') ∧ (applyCompensation c).run w = (r', w') ∧
      Same r r' ∧ Abreast service Key v w v' w' := by
  rcases reaches_compensation hown with ⟨reason, rfl⟩ | ⟨f, hf⟩
  · exact ⟨_, _, _, _, rfl, rfl, .returned, .still⟩
  · exact abreast_of_reaches hf h.client

/-- The verdict of a verification is a function of the service. -/
theorem verifyAction_client {result : ExecutionResult}
    (hsplit : splitColon action = .ok (tool, service)) (htool : tool ≠ "delete_records")
    (hclient : v.clients.get? service = w.clients.get? service) :
    Same (verifyAction v action result) (verifyAction w action result) := by
  rw [verifyAction, verifyAction, hsplit]
  simp only [bind, Except.bind, if_neg htool]
  cases hs : v.clients.get? service with
  | none =>
    have hmissing : ∀ u : ToolContext, u.clients.get? service = none →
        ∃ e, getServiceHealth u service = .error e := by
      intro u hu
      rw [getServiceHealth, Tools.get, ToolContext.client, hu]
      exact ⟨_, rfl⟩
    obtain ⟨e, he⟩ := hmissing v hs
    obtain ⟨e', he'⟩ := hmissing w (hclient.symm.trans hs)
    rw [he, he']
    exact .raised
  | some s =>
    have hfound : ∀ u : ToolContext, u.clients.get? service = some s →
        getServiceHealth u service = .ok ⟨s.name, s.status.text, s.restartCount⟩ := by
      intro u hu
      rw [getServiceHealth, Tools.get, ToolContext.client_ok_iff.mpr hu]
      rfl
    rw [hfound v hs, hfound w (hclient.symm.trans hs)]
    exact .refl _

end Runs

end OneService
