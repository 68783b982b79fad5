import Interlock.NetEffect

/-!
# Replayed compensations

A compensation carries no idempotency key: a `rolling_back` node that is killed
after its side effect applies it again. In whatever sandbox it was applied first,
the second time leaves what the first time left, and one that raises leaves the
sandbox as it found it.
-/

namespace ReplayedCompensations

open Dictionary PythonValues MockService RecordsTable Tools Execution RunState Nodes Graph
open Transitions Effects Compensations NetEffect

/-! ### Actions that may be replayed -/

section General

variable {W α β : Type}

/-- Acting twice leaves what acting once leaves, and an action that raises leaves
its world alone. -/
structure Replayable (x : Action W α) : Prop where
  again : ∀ w, (x.run (x.run w).2).2 = (x.run w).2
  raised : ∀ w, (∃ a, (x.run w).1 = .ok a) ∨ (x.run w).2 = w

theorem Replayable.pure (a : α) : Replayable (pure a : Action W α) where
  again := fun _ => rfl
  raised := fun _ => Or.inl ⟨a, rfl⟩

theorem run_map (x : Action W α) (f : α → β) (w : W) :
    (x >>= fun a => Pure.pure (f a)).run w = ((x.run w).1.map f, (x.run w).2) := by
  rw [Action.run_bind]
  cases hx : x.run w with
  | mk r w' =>
    cases r with
    | ok a => rfl
    | error e => rfl

/-- What is made of the answer does not matter. -/
theorem Replayable.map {x : Action W α} (h : Replayable x) (f : α → β) :
    Replayable (x >>= fun a => Pure.pure (f a)) where
  again := by
    intro w
    simp only [run_map]
    exact h.again w
  raised := by
    intro w
    simp only [run_map]
    rcases h.raised w with ⟨a, ha⟩ | hw
    · exact Or.inl ⟨f a, by rw [ha]; rfl⟩
    · exact Or.inr hw

end General

/-! ### Requests that undo -/

section Requests

variable {α : Type} {service : String} {endpoint : Endpoint α} {ctx : ToolContext}

theorem setClient_setClient (ctx : ToolContext) (service : String) (s s' : ServiceState) :
    (ctx.setClient service s).setClient service s' = ctx.setClient service s' := by
  simp only [ToolContext.setClient, Dict.set_set]

theorem client_setClient (ctx : ToolContext) (service : String) (s : ServiceState) :
    (ctx.setClient service s).client service = .ok s := by
  rw [ToolContext.client_ok_iff, ToolContext.setClient_clients]
  exact Dict.get?_set_self ctx.clients service s

theorem Replayable.post (h : Replayable endpoint) (service : String) :
    Replayable (post service endpoint) where
  again := by
    intro ctx
    cases hclient : ctx.client service with
    | error e =>
      have hrun : (Tools.post service endpoint).run ctx = (.error e, ctx) := by
        rw [run_post, hclient]
      rw [hrun, hrun]
    | ok s =>
      have hrun : ((Tools.post service endpoint).run ctx).2 =
          ctx.setClient service (endpoint.run s).2 := by
        rw [run_post, hclient]
      rw [hrun, run_post, client_setClient]
      simp only [setClient_setClient, h.again s]
  raised := by
    intro ctx
    rw [run_post]
    cases hclient : ctx.client service with
    | error e => exact Or.inr rfl
    | ok s =>
      rcases h.raised s with hok | hkept
      · exact Or.inl hok
      · have hs := ToolContext.client_ok_iff.mp hclient
        refine Or.inr ?_
        simp only [hkept]
        exact ToolContext.setClient_self hs

theorem scale_replayable (replicas : Int) : Replayable (postScale replicas) where
  again := by
    intro s
    simp only [postScale_run]
  raised := fun s => Or.inl ⟨_, congrArg Prod.fst (postScale_run replicas s)⟩

theorem config_replayable (key : String) (value : Option String) :
    Replayable (postConfig key value) := by
  cases value with
  | none => exact ⟨fun _ => rfl, fun _ => Or.inr rfl⟩
  | some value =>
    constructor
    · intro s
      simp only [postConfig_run, Dict.set_set]
    · exact fun s => Or.inl ⟨_, congrArg Prod.fst (postConfig_run key value s)⟩

theorem postDeploy_empty {s : ServiceState} (version : String) (h : s.versionHistory = []) :
    (postDeploy version).run s = (.error (.valueError "list index out of range"), s) := by
  have hdeploy : s.deploy version = .error (.valueError "list index out of range") := by
    simp [ServiceState.deploy, ServiceState.deployedVersion, h, bind, Except.bind]
  simp only [postDeploy, hdeploy]

/-- The version that was deployed is the current one, so deploying it again appends nothing. -/
theorem deploy_replayable (version : String) : Replayable (postDeploy version) := by
  constructor
  · intro s
    rcases List.eq_nil_or_concat' s.versionHistory with hnone | ⟨older, u, hlast⟩
    · rw [postDeploy_empty version hnone, postDeploy_empty version hnone]
    · by_cases hsame : version = u
      · have hkept : ((postDeploy version).run s).2 = s := by
          rw [postDeploy_run hlast]
          exact if_pos hsame
        rw [hkept, hkept]
      · have happended : ((postDeploy version).run s).2 =
            { s with versionHistory := older ++ [u] ++ [version] } := by
          rw [postDeploy_run hlast, List.append_assoc]
          exact if_neg hsame
        have hcurrent : ({ s with versionHistory := older ++ [u] ++ [version] } :
            ServiceState).versionHistory = older ++ [u] ++ [version] := rfl
        rw [happended, postDeploy_run hcurrent]
        exact if_pos rfl
  · intro s
    rcases List.eq_nil_or_concat' s.versionHistory with hnone | ⟨older, u, hlast⟩
    · exact Or.inr (congrArg Prod.snd (postDeploy_empty version hnone))
    · exact Or.inl ⟨_, congrArg Prod.fst (postDeploy_run hlast)⟩

end Requests

/-! ### Rows that come back -/

section Rows

theorem eq_of_parts {t u : RecordsRepository} (hnext : t.nextId = u.nextId)
    (hrows : t.rows = u.rows) : t = u := by
  cases t
  cases u
  cases hnext
  cases hrows
  rfl

theorem rows_insertMany (t : RecordsRepository) (rows : List Row) :
    (t.insertMany (rows.map Row.toNew)).rows = rows.foldl RecordsRepository.store t.rows := by
  induction rows generalizing t with
  | nil => rfl
  | cons r rest ih => exact ih (t.insertOne r.toNew)

theorem keys_store (d : Dict Int Row) (r : Row) :
    (RecordsRepository.store d r).keys = if r.id ∈ d.keys then d.keys else d.keys ++ [r.id] :=
  Dict.keys_set d r.id r

/-- Storing rows under keys that are there adds none. -/
theorem keys_foldl_store {d : Dict Int Row} {rows : List Row} (h : ∀ r ∈ rows, r.id ∈ d.keys) :
    (rows.foldl RecordsRepository.store d).keys = d.keys := by
  induction rows generalizing d with
  | nil => rfl
  | cons r rest ih =>
    have hkeys : (RecordsRepository.store d r).keys = d.keys := by
      rw [keys_store]
      exact if_pos (h r List.mem_cons_self)
    rw [List.foldl_cons, ih, hkeys]
    intro a ha
    rw [hkeys]
    exact h a (List.mem_cons_of_mem r ha)

theorem stored_of_insertMany (t : RecordsRepository) {rows : List Row} {r : Row} (h : r ∈ rows) :
    ∃ a, (t.insertMany (rows.map Row.toNew)).rows.get? r.id = some a := by
  obtain ⟨a, ha⟩ := lastRow_of_mem h
  exact ⟨a, by rw [get?_insertMany_lastRow, ha]; rfl⟩

/-- Once the rows are stored, storing them again changes nothing, not even the order. -/
theorem insertMany_insertMany (t : RecordsRepository) (rows : List Row) :
    (t.insertMany (rows.map Row.toNew)).insertMany (rows.map Row.toNew) =
      t.insertMany (rows.map Row.toNew) := by
  have hrows : ((t.insertMany (rows.map Row.toNew)).insertMany (rows.map Row.toNew)).rows =
      (t.insertMany (rows.map Row.toNew)).rows := by
    apply Dict.eq_of_keys
    · rw [rows_insertMany]
      apply keys_foldl_store
      intro r hr
      obtain ⟨a, ha⟩ := stored_of_insertMany t hr
      rw [Dict.mem_keys, ha]
      rfl
    · intro id
      rw [get?_insertMany_lastRow, get?_insertMany_lastRow]
      cases lastRow rows id <;> rfl
  have hnext : ((t.insertMany (rows.map Row.toNew)).insertMany (rows.map Row.toNew)).nextId =
      (t.insertMany (rows.map Row.toNew)).nextId := by
    apply RecordsRepository.insertMany_nextId
    intro r hr
    obtain ⟨a, ha⟩ := stored_of_insertMany t hr
    exact (t.insertMany (rows.map Row.toNew)).below r.id a ha
  exact eq_of_parts hnext hrows

end Rows

/-! ### Compensations -/

theorem reinsert_replayable (rows : List Row) :
    Replayable (applyCompensation (.reinsertRecords rows)) where
  again := by
    intro w
    simp only [compensateReinsert_run, insertMany_insertMany]
  raised := fun w => Or.inl ⟨_, congrArg Prod.fst (compensateReinsert_run rows w)⟩

theorem compensation_replayable : ∀ compensation : Compensation,
    Replayable (applyCompensation compensation)
  | .noop reason => Replayable.pure (RollbackResult.notApplied reason)
  | .scaleService service replicas =>
    ((scale_replayable replicas).post service).map RollbackResult.scaled
  | .applyConfigChange service key value =>
    ((config_replayable key value).post service).map RollbackResult.configured
  | .deploy service version =>
    ((deploy_replayable version).post service).map RollbackResult.deployed
  | .reinsertRecords rows => reinsert_replayable rows

/-! ### The node that applies them -/

section Node

variable {W α β : Type}

/-- Work that leaves the world alone may follow. -/
theorem world_bind {x : Action W α} {f : α → Action W β}
    (hf : ∀ a w, ((f a).run w).2 = w) (w : W) : ((x >>= f).run w).2 = (x.run w).2 := by
  rw [Action.run_bind]
  cases hx : x.run w with
  | mk r w' =>
    cases r with
    | ok a => exact hf a w'
    | error e => rfl

theorem world_lift_bind (x : Except PyError α) (f : α → Action W β) (w : W) :
    ((Action.lift x >>= f).run w).2 = match x with
      | .ok a => ((f a).run w).2
      | .error _ => w := by
  cases x <;> rfl

/-- A visit leaves the sandbox that its node reached, whether it returns or not. -/
theorem world_enter (rt : Runtime) (answers : Answers) (node : Node) (c : Config)
    (w : ToolContext) :
    ((enter rt answers node c).run w).2 = ((nodeFn rt answers node c.state).run w).2 := by
  have haudit : ((withAudit rt answers node c.state).run w).2 =
      ((nodeFn rt answers node c.state).run w).2 := by
    apply world_bind
    intro update v
    rw [world_lift_bind]
    cases auditRecord answers.clock node c.state update <;> rfl
  rw [← haudit]
  apply world_bind
  rintro ⟨update, record⟩ v
  rw [world_lift_bind]
  cases nextNode rt node (c.state.merge update) <;> rfl

theorem world_step {rt : Runtime} {answers : Answers} {node : Node} {c : Config}
    (hnext : c.next = some node) :
    (step rt answers c).2 = ((nodeFn rt answers node c.state).run c.world).2 := by
  rw [← world_enter, step, hnext]
  simp only
  cases (enter rt answers node c).run c.world with
  | mk r w =>
    cases r <;> rfl

theorem rollingBack_again (s : AgentState) (w : ToolContext) :
    ((rollingBack s).run ((rollingBack s).run w).2).2 = ((rollingBack s).run w).2 := by
  have hworld : ∀ v, ((rollingBack s).run v).2 = match required "compensation" s.compensation with
      | .ok compensation => ((applyCompensation compensation).run v).2
      | .error _ => v := by
    intro v
    rw [rollingBack, world_lift_bind]
    cases required "compensation" s.compensation with
    | error e => rfl
    | ok compensation => exact world_bind (fun _ _ => rfl) v
  rw [hworld, hworld]
  cases required "compensation" s.compensation with
  | error e => rfl
  | ok compensation => exact (compensation_replayable compensation).again w

/-- The sandbox after the node was entered from one checkpoint once for each of the answers. -/
def rerun (rt : Runtime) (c : Config) (attempts : List Answers) : ToolContext :=
  attempts.foldl (fun w answers => (step rt answers { c with world := w }).2) c.world

/-- A `rolling_back` node that is entered again and again leaves what entering it once leaves. -/
theorem rerun_rollingBack (rt : Runtime) {c : Config} (hnext : c.next = some .rollingBack)
    (first : Answers) (again : List Answers) :
    rerun rt c (first :: again) = (step rt first c).2 := by
  have hstep : ∀ (answers : Answers) (w : ToolContext),
      (step rt answers { c with world := w }).2 = ((rollingBack c.state).run w).2 :=
    fun answers w => world_step (c := { c with world := w }) hnext
  have hsettled : ∀ (later : List Answers) (w : ToolContext),
      ((rollingBack c.state).run w).2 = w →
        later.foldl (fun w answers => (step rt answers { c with world := w }).2) w = w := by
    intro later w hw
    induction later with
    | nil => rfl
    | cons answers later ih => rw [List.foldl_cons, hstep, hw, ih]
  rw [rerun, List.foldl_cons]
  apply hsettled
  rw [hstep]
  exact rollingBack_again c.state c.world

end Node

/-! ### Replaying is safe -/

/-- Applying a compensation twice in a row leaves the sandbox that applying it once leaves;
a raise leaves it as it was, both times; and so does entering `rolling_back` any number of
times from its checkpoint. -/
theorem replay_safe (compensation : Compensation) (w : ToolContext) (rt : Runtime)
    (s : AgentState) (log : List AuditRecord) (first : Answers) (again : List Answers) :
    let once := (applyCompensation compensation).run w
    let twice := (applyCompensation compensation).run once.2
    let checkpoint : Config :=
      { state := s, next := some .rollingBack, world := w, audit := log }
    twice.2 = once.2 ∧ ((∃ result, once.1 = .ok result) ∨ (once.2 = w ∧ twice.2 = w)) ∧
      rerun rt checkpoint (first :: again) = rerun rt checkpoint [first] := by
  have hreplay := compensation_replayable compensation
  refine ⟨hreplay.again w, ?_, ?_⟩
  · rcases hreplay.raised w with hok | hkept
    · exact Or.inl hok
    · exact Or.inr ⟨hkept, (hreplay.again w).trans hkept⟩
  · rw [rerun_rollingBack rt rfl, rerun_rollingBack rt rfl]

end ReplayedCompensations
