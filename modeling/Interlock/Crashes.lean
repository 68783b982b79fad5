import Interlock.SoundRuns

/-!
# The raises of an unedited run

A proposal is checked for its tool and target alone. Its parameters are read by the
execution, the history of its service by a rollback, and the value that a change
replaced by the compensation: these three are where an unedited run can raise.
-/

namespace Crashes

open Dictionary PythonValues MockService Tools DiagnosticSweep Fingerprint RiskPolicy Execution
open Effects RunState Nodes Graph Transitions Walks PlanningCycle Suspension Dispatching
open EditedActions SoundRuns NodeRuns Relation
open FloatRounding (nearest)

/-! ### Parameters that a tool accepts -/

/-- What an integer field accepts. -/
def IsInt : Json → Prop
  | .bool _ => True
  | .int _ => True
  | .float x => (nearest x).den = 1 ∧ |nearest x| < 2 ^ 63
  | .str s => (intOfText s).isSome
  | _ => False

/-- The parameters are an object, with the entries of the tool in the types that its
input declares. Tools without entries of their own take everything. -/
structure Fits (tool : String) (parameters : Json) : Prop where
  scale : tool = "scale_service" → ∃ items, parameters = .obj items ∧
    ∀ replicas, Json.item items "replicas" = some replicas → IsInt replicas
  config : tool = "apply_config_change" → ∃ items key value, parameters = .obj items ∧
    Json.item items "key" = some (.str key) ∧ Json.item items "value" = some (.str value)
  delete : tool = "delete_records" → ∃ items, parameters = .obj items ∧
    ∀ ids, Json.item items "ids" = some ids → ids = .null ∨ ∃ js, ids = .arr js ∧ ∀ j ∈ js, IsInt j

theorem asInt_ok_iff (model field : String) (j : Json) :
    (∃ n, asInt model field j = .ok n) ↔ IsInt j := by
  cases j with
  | bool b => exact iff_of_true ⟨_, rfl⟩ trivial
  | int n => exact iff_of_true ⟨_, rfl⟩ trivial
  | float x =>
    rw [asInt, IsInt, validated_ok_iff, intOfFloat]
    split <;> simp_all
  | str s => rw [asInt, IsInt, validated_ok_iff]
  | _ => exact iff_of_false (by rintro ⟨n, hn⟩; cases hn) id

theorem ints_ok_iff (model field : String) (items : List Json) :
    (∃ ns, items.mapM (asInt model field) = .ok ns) ↔ ∀ j ∈ items, IsInt j := by
  induction items with
  | nil => exact iff_of_true ⟨[], rfl⟩ (by simp)
  | cons j rest ih =>
    rw [List.mapM_cons, List.forall_mem_cons, ← ih, ← asInt_ok_iff model field]
    constructor
    · rintro ⟨ns, h⟩
      obtain ⟨n, hn, h⟩ := except_bind_ok_iff.mp h
      obtain ⟨ms, hms, _⟩ := except_bind_ok_iff.mp h
      exact ⟨⟨n, hn⟩, ms, hms⟩
    · rintro ⟨⟨n, hn⟩, ms, hms⟩
      exact ⟨n :: ms, except_bind_ok_iff.mpr ⟨n, hn, except_bind_ok_iff.mpr ⟨ms, hms, rfl⟩⟩⟩

theorem optionalInts_ok_iff (model field : String) (x : Option Json) :
    (∃ ns, asOptionalInts model field x = .ok ns) ↔
      ∀ ids, x = some ids → ids = .null ∨ ∃ js, ids = .arr js ∧ ∀ j ∈ js, IsInt j := by
  cases x with
  | none => exact iff_of_true ⟨none, rfl⟩ (by simp)
  | some ids =>
    cases ids with
    | null => exact iff_of_true ⟨none, rfl⟩ (fun _ h => Or.inl (Option.some.inj h).symm)
    | arr js =>
      have hlist : (∃ ns, asOptionalInts model field (some (.arr js)) = .ok ns) ↔
          ∃ ns, js.mapM (asInt model field) = .ok ns := by
        rw [asOptionalInts]
        cases js.mapM (asInt model field) with
        | ok ns => exact iff_of_true ⟨some ns, rfl⟩ ⟨ns, rfl⟩
        | error e =>
          exact iff_of_false (by rintro ⟨_, h⟩; cases h) (by rintro ⟨_, h⟩; cases h)
      rw [hlist, ints_ok_iff]
      simp
    | _ => exact iff_of_false (by rintro ⟨_, h⟩; cases h) (by simp)

/-- A subscript with a text behind it. -/
theorem textItem_ok_iff {model field key : String} {j : Json} :
    (∃ value text, j.getItem key = .ok value ∧ asStr model field value = .ok text) ↔
      ∃ items text, j = .obj items ∧ Json.item items key = some (.str text) := by
  constructor
  · rintro ⟨value, text, hvalue, htext⟩
    obtain ⟨items, rfl, hitem⟩ := getItem_ok hvalue
    cases value with
    | str s => exact ⟨items, s, rfl, hitem⟩
    | _ => cases htext
  · rintro ⟨items, text, rfl, hitem⟩
    exact ⟨.str text, text, by rw [Json.getItem, hitem], rfl⟩

section Called

variable (target : String) (parameters : Json)

theorem called_scale_iff : (∃ call, toolCall "scale_service" target parameters = .ok call) ↔
    Fits "scale_service" parameters := by
  constructor
  · rintro ⟨call, h⟩
    rw [toolCall_scale] at h
    obtain ⟨found, hfound, h⟩ := except_bind_ok_iff.mp h
    obtain ⟨n, hn, _⟩ := except_bind_ok_iff.mp h
    refine ⟨fun _ => ?_, by simp, by simp⟩
    cases parameters with
    | obj items =>
      refine ⟨items, rfl, ?_⟩
      intro replicas hreplicas
      cases hfound
      rw [hreplicas, Option.getD_some] at hn
      exact (asInt_ok_iff _ _ _).mp ⟨n, hn⟩
    | _ => cases hfound
  · intro h
    obtain ⟨items, rfl, hint⟩ := h.scale rfl
    have hreplicas : IsInt ((Json.item items "replicas").getD (.int defaultScaleReplicas)) := by
      cases hitem : Json.item items "replicas" with
      | none => trivial
      | some replicas => exact hint replicas hitem
    obtain ⟨n, hn⟩ := (asInt_ok_iff "ScaleServiceInput" "replicas" _).mpr hreplicas
    refine ⟨.scaleService target n, ?_⟩
    rw [toolCall_scale]
    exact except_bind_ok_iff.mpr ⟨_, rfl, except_bind_ok_iff.mpr ⟨n, hn, rfl⟩⟩

theorem called_delete_iff : (∃ call, toolCall "delete_records" target parameters = .ok call) ↔
    Fits "delete_records" parameters := by
  constructor
  · rintro ⟨call, h⟩
    rw [toolCall_delete] at h
    obtain ⟨found, hfound, h⟩ := except_bind_ok_iff.mp h
    obtain ⟨ids, hids, _⟩ := except_bind_ok_iff.mp h
    refine ⟨by simp, by simp, fun _ => ?_⟩
    cases parameters with
    | obj items =>
      cases hfound
      exact ⟨items, rfl, (optionalInts_ok_iff _ _ _).mp ⟨ids, hids⟩⟩
    | _ => cases hfound
  · intro h
    obtain ⟨items, rfl, hints⟩ := h.delete rfl
    obtain ⟨ids, hids⟩ := (optionalInts_ok_iff "DeleteRecordsInput" "ids" _).mpr hints
    refine ⟨.deleteRecords target ids, ?_⟩
    rw [toolCall_delete]
    exact except_bind_ok_iff.mpr ⟨_, rfl, except_bind_ok_iff.mpr ⟨ids, hids, rfl⟩⟩

theorem called_config_iff :
    (∃ call, toolCall "apply_config_change" target parameters = .ok call) ↔
      Fits "apply_config_change" parameters := by
  constructor
  · rintro ⟨call, h⟩
    rw [toolCall_config] at h
    obtain ⟨key, hkey, h⟩ := except_bind_ok_iff.mp h
    obtain ⟨value, hvalue, h⟩ := except_bind_ok_iff.mp h
    obtain ⟨keyText, hkeyText, h⟩ := except_bind_ok_iff.mp h
    obtain ⟨valueText, hvalueText, _⟩ := except_bind_ok_iff.mp h
    refine ⟨by simp, fun _ => ?_, by simp⟩
    obtain ⟨items, k, rfl, hk⟩ := textItem_ok_iff.mp ⟨key, keyText, hkey, hkeyText⟩
    obtain ⟨_, v, hobj, hv⟩ := textItem_ok_iff.mp ⟨value, valueText, hvalue, hvalueText⟩
    cases hobj
    exact ⟨items, k, v, rfl, hk, hv⟩
  · intro h
    obtain ⟨items, k, v, rfl, hk, hv⟩ := h.config rfl
    refine ⟨.applyConfigChange target k v, ?_⟩
    rw [toolCall_config, Json.getItem, hk, Json.getItem, hv]
    rfl

/-- A known tool is called exactly if its parameters fit. -/
theorem called_iff_fits {tool : String} (htool : tool ∈ knownTools) :
    (∃ call, toolCall tool target parameters = .ok call) ↔ Fits tool parameters := by
  simp only [knownTools, List.mem_cons, List.not_mem_nil, or_false] at htool
  rcases htool with rfl | rfl | rfl | rfl | rfl | rfl
  · exact iff_of_true ⟨_, rfl⟩ ⟨by simp, by simp, by simp⟩
  · exact called_scale_iff target parameters
  · exact called_delete_iff target parameters
  · exact iff_of_true ⟨_, rfl⟩ ⟨by simp, by simp, by simp⟩
  · exact called_config_iff target parameters
  · exact iff_of_true ⟨_, rfl⟩ ⟨by simp, by simp, by simp⟩

end Called

/-! ### Executions and compensations that return -/

/-- The service is on its first version. -/
def NoOlderVersion (w : ToolContext) (service : String) : Prop :=
  ∃ s, w.clients.get? service = some s ∧ s.versionHistory.length < 2

section Returning

variable {w : ToolContext} {action tool target key : String} {parameters : Json}
variable {call : ToolCall}

/-- In a registered sandbox a call for a valid action fails only if it is a rollback with
nothing to roll back to. -/
theorem performed_iff (h : Registered w) (hvalid : Valid action)
    (hcall : dispatch action parameters = .ok call) :
    (∃ o w', call.perform.run w = (.ok o, w')) ↔
      ¬ ∃ service, call = .rollbackDeployment service ∧ NoOlderVersion w service := by
  obtain ⟨_, _, hsweep, hchecked⟩ := hvalid
  obtain ⟨tool, target, hsplit, _, hservice, hdisk⟩ := registered_of_valid hsweep hchecked
  rw [dispatch_of_split hsplit] at hcall
  obtain ⟨rfl, rfl⟩ := named_by_call hcall
  cases call with
  | deleteRecords kind ids => exact iff_of_true ⟨_, _, rfl⟩ (by simp)
  | restartService service =>
    obtain ⟨s, hs, _, _⟩ := h _ (hservice (by simp [ToolCall.toolName]))
    exact iff_of_true ⟨_, _, performRestartService_ok_iff.mpr ⟨s, hs, rfl, rfl⟩⟩ (by simp)
  | scaleService service replicas =>
    obtain ⟨s, hs, _, _⟩ := h _ (hservice (by simp [ToolCall.toolName]))
    exact iff_of_true ⟨_, _, performScaleService_ok_iff.mpr ⟨s, hs, rfl, rfl⟩⟩ (by simp)
  | clearCache service =>
    obtain ⟨s, hs, hsdisk, _⟩ := h _ (hservice (by simp [ToolCall.toolName]))
    have hd : s.hasDisk = true := hsdisk.trans (hdisk rfl)
    exact iff_of_true ⟨_, _, performClearCache_ok_iff.mpr ⟨s, hs, hd, rfl, rfl⟩⟩ (by simp)
  | applyConfigChange service configKey value =>
    obtain ⟨s, hs, _, _⟩ := h _ (hservice (by simp [ToolCall.toolName]))
    exact iff_of_true ⟨_, _, performApplyConfigChange_ok_iff.mpr ⟨s, hs, rfl, rfl⟩⟩ (by simp)
  | rollbackDeployment service =>
    obtain ⟨s, hs, _, _⟩ := h _ (hservice (by simp [ToolCall.toolName]))
    constructor
    · rintro ⟨o, w', hrun⟩ ⟨_, hsame, t, ht, hshort⟩
      cases hsame
      obtain ⟨t', _, _, _, ht', hversions, _⟩ := performRollbackDeployment_ok_iff.mp hrun
      rw [ht] at ht'
      cases ht'
      rw [hversions] at hshort
      simp at hshort
    · intro hlong
      have hlength : 2 ≤ s.versionHistory.length := by
        by_contra hshort
        exact hlong ⟨service, rfl, s, hs, not_le.mp hshort⟩
      obtain ⟨older, u, v, hversions⟩ := two_versions hlength
      exact ⟨_, _, performRollbackDeployment_ok_iff.mpr ⟨s, older, u, v, hs, hversions, rfl, rfl⟩⟩

/-- A valid action executes exactly if its parameters fit and it is no unrecorded rollback
from a first version. -/
theorem executed_iff (h : Registered w) (hvalid : Valid action)
    (hsplit : splitColon action = .ok (tool, target)) :
    (∃ o w', (executeAction action parameters key).run w = (.ok o, w')) ↔
      Fits tool parameters ∧ ¬ (tool = "rollback_deployment" ∧ w.store.get? key = none ∧
        NoOlderVersion w target) := by
  have htool : tool ∈ knownTools := by
    obtain ⟨_, _, _, hchecked⟩ := hvalid
    obtain ⟨_, _, hsplit', htool, _⟩ := validateProposal_none hchecked
    rw [hsplit] at hsplit'
    cases hsplit'
    exact htool
  rw [← called_iff_fits target parameters htool, ← dispatch_of_split hsplit]
  cases hcall : dispatch action parameters with
  | error e =>
    refine iff_of_false ?_ ?_
    · rintro ⟨o, w', hrun⟩
      rw [executeAction_undispatched hcall] at hrun
      cases hrun
    · rintro ⟨⟨_, hok⟩, _⟩
      cases hok
  | ok call =>
    have hcalled := hcall
    rw [dispatch_of_split hsplit] at hcalled
    obtain ⟨hname, htarget⟩ := named_by_call hcalled
    cases hs : w.store.get? key with
    | some existing =>
      exact iff_of_true ⟨_, _, executeAction_hit hcall hs⟩ ⟨⟨call, rfl⟩, by simp⟩
    | none =>
      have hperformed := performed_iff h hvalid hcall
      constructor
      · rintro ⟨o, w', hrun⟩
        refine ⟨⟨call, rfl⟩, ?_⟩
        rintro ⟨rfl, _, hshort⟩
        have hok : ∃ o w', call.perform.run w = (.ok o, w') := by
          cases hp : call.perform.run w with
          | mk result w₁ =>
            cases result with
            | ok o₁ => exact ⟨o₁, w₁, rfl⟩
            | error e =>
              rw [executeAction_refused hcall hs hp] at hrun
              cases hrun
        cases call with
        | rollbackDeployment service =>
          have hsame : service = target := htarget
          subst hsame
          exact hperformed.mp hok ⟨service, rfl, hshort⟩
        | _ => simp [ToolCall.toolName] at hname
      · rintro ⟨_, hlong⟩
        obtain ⟨o, w₁, hp⟩ := hperformed.mpr (by
          rintro ⟨service, rfl, hshort⟩
          have hsame : service = target := htarget
          subst hsame
          exact hlong ⟨hname.symm, rfl, hshort⟩)
        exact ⟨_, _, executeAction_miss hcall hs hp⟩

/-- A compensation fails only if it would have to restore a value that was not there. -/
theorem compensated_iff {c : Compensation} (h : Registered w) (hc : Addressed c) :
    (∃ r w', (applyCompensation c).run w = (.ok r, w')) ↔
      ¬ ∃ service configKey, c = .applyConfigChange service configKey none := by
  cases c with
  | noop reason => exact iff_of_true ⟨_, _, rfl⟩ (by simp)
  | reinsertRecords rows => exact iff_of_true ⟨_, _, rfl⟩ (by simp)
  | scaleService service replicas =>
    obtain ⟨s, hs, _, _⟩ := h service hc
    have hrun := (post_map_ok_iff (f := RollbackResult.scaled)).mpr
      ⟨s, _, _, hs, postScale_run replicas s, rfl, rfl⟩
    exact iff_of_true ⟨_, _, hrun⟩ (by simp)
  | deploy service version =>
    obtain ⟨s, hs, _, hversions⟩ := h service hc
    have hlast := (List.dropLast_append_getLast hversions).symm
    have hrun : ∃ r w', (applyCompensation (.deploy service version)).run w = (.ok r, w') :=
      ⟨_, _, (post_map_ok_iff (f := RollbackResult.deployed)).mpr
        ⟨s, _, _, hs, postDeploy_run hlast, rfl, rfl⟩⟩
    exact iff_of_true hrun (by simp)
  | applyConfigChange service configKey value =>
    obtain ⟨s, hs, _, _⟩ := h service hc
    cases value with
    | some v =>
      have hrun := (post_map_ok_iff (f := RollbackResult.configured)).mpr
        ⟨s, _, _, hs, postConfig_run configKey v s, rfl, rfl⟩
      exact iff_of_true ⟨_, _, hrun⟩ (by simp)
    | none =>
      refine iff_of_false ?_ (by simp)
      rintro ⟨r, w', hrun⟩
      obtain ⟨t, a, t', _, he, _⟩ := post_map_ok_iff.mp hrun
      rw [postConfig_null] at he
      cases he

end Returning

/-! ### Visits that return -/

theorem auditable_merge {s : AgentState} (h : Auditable s) (update : Update) :
    Auditable (s.merge update) := by
  induction update generalizing s with
  | nil => exact h
  | cons write rest ih =>
    apply ih
    obtain ⟨hrunId, hstatus, haction, htier, hkey⟩ := h
    cases write with
    | status s => exact ⟨hrunId, isText_str _, haction, htier, hkey⟩
    | proposedAction action => exact ⟨hrunId, hstatus, isText_str _, htier, hkey⟩
    | riskTierFinal tier => exact ⟨hrunId, hstatus, haction, isText_str _, hkey⟩
    | idempotencyKey key => exact ⟨hrunId, hstatus, haction, htier, isText_str _⟩
    | _ => exact ⟨hrunId, hstatus, haction, htier, hkey⟩

section Visits

variable {rt : Runtime} {c : Config} {node : Node}

/-- A node that returns an update without a decision, and a router that knows where to go
from there, let the visit return. -/
theorem returns_of_update {answers : Answers} {update : Update} {next : Option Node}
    {w : ToolContext} (hnext : c.next = some node) (h : Auditable c.state)
    (hfn : (nodeFn rt answers node c.state).run c.world = (.ok update, w))
    (happrover : writtenApprover update = none) (hdecision : writtenDecision update = none)
    (hroute : nextNode rt node (c.state.merge update) = .ok next) :
    ∃ c', (step rt answers c).1 = .ok c' := by
  have haudit := (auditRecord_ok_iff answers.clock node).mpr
    ⟨auditable_merge h update, h.status, by rw [happrover]; exact isText_none,
      by rw [hdecision]; exact isText_none⟩
  obtain ⟨c', hstep, _⟩ := step_exists hnext hfn haudit hroute
  exact ⟨c', hstep⟩

variable (answers : Answers)

theorem diagnose_returns (hnext : c.next = some .diagnose) (h : Auditable c.state)
    (hw : Answering c.world) : ∃ c', (step rt answers c).1 = .ok c' := by
  obtain ⟨obs, hobs⟩ := gather_ok hw.registered
  exact returns_of_update hnext h (diagnose_run hobs) rfl rfl rfl

theorem propose_returns (hnext : c.next = some .proposeAction) (h : Auditable c.state)
    (hs : Swept c.state) : ∃ c', (step rt answers c).1 = .ok c' := by
  obtain ⟨_, obs, _, hobs⟩ := hs
  obtain ⟨parts, hsplit⟩ := splitColon_join answers.proposal.tool answers.proposal.target
  obtain ⟨reason, hreason⟩ := validateProposal_total obs hsplit
  have hanchor : ∃ fingerprint, anchorProposal rt obs answers.proposal.action reason =
      .ok fingerprint := by
    cases reason with
    | some text => exact ⟨none, rfl⟩
    | none =>
      obtain ⟨f, hf⟩ := computeFingerprint_of_valid rt.digest hreason
      exact ⟨some f, by rw [anchorProposal, Proposal.action, hf]; rfl⟩
  obtain ⟨fingerprint, hfingerprint⟩ := hanchor
  exact returns_of_update hnext h (propose_run hobs rfl hreason hfingerprint) rfl rfl rfl

theorem classify_returns {action : String} (hnext : c.next = some .classifyRisk)
    (h : Auditable c.state) (hs : Swept c.state)
    (haction : c.state.proposedAction = some (.str action)) (hvalid : Valid action) :
    ∃ c', (step rt answers c).1 = .ok c' := by
  obtain ⟨_, obs, _, hobs⟩ := hs
  obtain ⟨_, _, _, hchecked⟩ := hvalid
  obtain ⟨tool, target, hsplit, _⟩ := validateProposal_none hchecked
  obtain ⟨situational, hsituational⟩ := situationalFeatures_total obs hsplit
  obtain ⟨applied, hfn⟩ := classify_run rt answers c.world haction hobs hsplit hsituational rfl
  exact returns_of_update hnext h hfn rfl rfl rfl

theorem revalidates {action : String} {anchored : Option String}
    (hnext : c.next = some .revalidate) (h : Auditable c.state) (hw : Answering c.world)
    (haction : c.state.proposedAction = some (.str action)) (hvalid : Valid action)
    (hstored : c.state.stateFingerprint = some anchored) :
    ∃ c', (step rt answers c).1 = .ok c' := by
  obtain ⟨fresh, hfresh⟩ := gather_ok hw.registered
  obtain ⟨_, obs, hsweep, hchecked⟩ := hvalid
  rw [validateProposal_sweep hsweep hfresh] at hchecked
  obtain ⟨f, hf⟩ := computeFingerprint_of_valid rt.digest hchecked
  obtain ⟨c', hstep, _⟩ := revalidate_returns answers hnext h haction hfresh hf hstored
  exact ⟨c', hstep⟩

theorem prepare_returns {action : String} (hnext : c.next = some .prepareExecution)
    (h : Auditable c.state) (haction : c.state.proposedAction = some (.str action)) :
    ∃ c', (step rt answers c).1 = .ok c' := by
  obtain ⟨runId, hrunId⟩ := h.runId
  exact returns_of_update hnext h (prepare_run hrunId haction) rfl rfl rfl

/-- A verification finds the target of a valid action wherever services answer. -/
theorem verify_returns {action : String} {result : ExecutionResult}
    (hnext : c.next = some .verify) (h : Auditable c.state) (hw : Answering c.world)
    (haction : c.state.proposedAction = some (.str action)) (hvalid : Valid action)
    (hresult : c.state.executionResult = some result) :
    ∃ c', (step rt answers c).1 = .ok c' := by
  obtain ⟨_, _, hsweep, hchecked⟩ := hvalid
  obtain ⟨tool, target, hsplit, _, hservice, _⟩ := registered_of_valid hsweep hchecked
  have hpassed : ∃ passed, verifyAction c.world action result = .ok passed := by
    by_cases hdelete : tool = "delete_records"
    · rw [verifyAction, hsplit]
      simp only [bind, Except.bind, hdelete]
      exact ⟨_, rfl⟩
    · obtain ⟨s, hs, _⟩ := hw.registered target (hservice hdelete)
      exact ⟨_, verifyAction_service hsplit hdelete hs⟩
  obtain ⟨passed, hpassed⟩ := hpassed
  exact returns_of_update hnext h (verify_run haction hresult hpassed) rfl rfl rfl

theorem replan_returns (hnext : c.next = some .replan) (h : Auditable c.state)
    (hcycles : c.state.replanCycles = none ∨ ∃ n, c.state.replanCycles = some (.int n)) :
    ∃ c', (step rt answers c).1 = .ok c' := by
  have hcount : ∃ n, (c.state.replanCycles.getD (.int 0)).addOne = .ok (.int n) := by
    rcases hcycles with hnone | ⟨n, hn⟩
    · exact ⟨1, by rw [hnone]; rfl⟩
    · exact ⟨n + 1, by rw [hn]; rfl⟩
  obtain ⟨n, hn⟩ := hcount
  exact returns_of_update hnext h (replan_run hn) rfl rfl rfl

end Visits

/-! ### The states in which a visit raises -/

/-- The execution of parameters that do not fit, or of a rollback from a first version that
the ledger does not replay. -/
def ExecutionCrashes (c : Config) : Prop :=
  ∃ action tool target key, c.state.proposedAction = some (.str action) ∧
    splitColon action = .ok (tool, target) ∧ c.state.idempotencyKey = some (.str key) ∧
    (¬ Fits tool (parametersOf c.state) ∨
      (tool = "rollback_deployment" ∧ c.world.store.get? key = none ∧
        NoOlderVersion c.world target))

/-- The restoration of a configuration value that was not there. -/
def CompensationCrashes (c : Config) : Prop :=
  ∃ service configKey, c.state.compensation = some (.applyConfigChange service configKey none)

def Crashing (c : Config) : Prop :=
  (c.next = some .execute ∧ ExecutionCrashes c) ∨
    (c.next = some .rollingBack ∧ CompensationCrashes c)

section Raising

variable {rt : Runtime} {c : Config} {node : Node} (answers : Answers)

theorem not_crashing (hexecute : c.next ≠ some .execute) (hrolling : c.next ≠ some .rollingBack) :
    ¬ Crashing c := by
  rintro (⟨h, _⟩ | ⟨h, _⟩)
  · exact hexecute h
  · exact hrolling h

theorem execute_returns_iff (hnext : c.next = some .execute) (h : Sound c.state (some .execute))
    (hw : Answering c.world) : (∃ c', (step rt answers c).1 = .ok c') ↔ ¬ Crashing c := by
  obtain ⟨action, _, haction, hvalid, _⟩ := h.acted .execute rfl (by simp [acting])
  obtain ⟨key, hkey⟩ := h.key rfl
  obtain ⟨_, _, _, hchecked⟩ := id hvalid
  obtain ⟨tool, target, hsplit, _⟩ := validateProposal_none hchecked
  have hreturns : (∃ c', (step rt answers c).1 = .ok c') ↔
      ∃ o w', (executeAction action (parametersOf c.state) key).run c.world = (.ok o, w') := by
    constructor
    · rintro ⟨c', hstep⟩
      obtain ⟨action', key', outcome, haction', hkey', hrun, _⟩ :=
        led_execute (step_ok hnext hstep) rfl
      rw [haction] at haction'
      cases haction'
      rw [hkey] at hkey'
      cases hkey'
      exact ⟨outcome, _, hrun⟩
    · rintro ⟨o, w', hrun⟩
      exact execute_returns rt answers hnext h.auditable haction hkey hrun
  rw [hreturns, executed_iff hw.registered hvalid hsplit]
  constructor
  · rintro ⟨hfits, hversion⟩ (⟨_, action', tool', target', key', haction', hsplit', hkey', hcrash⟩ |
      ⟨hrolling, _⟩)
    · rw [haction] at haction'
      cases haction'
      rw [hsplit] at hsplit'
      cases hsplit'
      rw [hkey] at hkey'
      cases hkey'
      rcases hcrash with hunfit | hshort
      · exact hunfit hfits
      · exact hversion hshort
    · rw [hnext] at hrolling
      cases hrolling
  · intro hcrash
    constructor
    · by_contra hunfit
      exact hcrash (Or.inl ⟨hnext, action, tool, target, key, haction, hsplit, hkey,
        Or.inl hunfit⟩)
    · intro hshort
      exact hcrash (Or.inl ⟨hnext, action, tool, target, key, haction, hsplit, hkey,
        Or.inr hshort⟩)

theorem rolling_returns_iff (hnext : c.next = some .rollingBack)
    (h : Sound c.state (some .rollingBack)) (hw : Answering c.world) :
    (∃ c', (step rt answers c).1 = .ok c') ↔ ¬ Crashing c := by
  obtain ⟨comp, hcomp, haddressed⟩ := h.compensation (Or.inr rfl)
  have hreturns : (∃ c', (step rt answers c).1 = .ok c') ↔
      ∃ r w', (applyCompensation comp).run c.world = (.ok r, w') := by
    constructor
    · rintro ⟨c', hstep⟩
      obtain ⟨comp', result, hcomp', hrun, _⟩ := led_rollingBack (step_ok hnext hstep) rfl
      rw [hcomp] at hcomp'
      cases hcomp'
      exact ⟨result, _, hrun⟩
    · rintro ⟨r, w', hrun⟩
      exact returns_of_update hnext h.auditable (rollingBack_run hcomp hrun) rfl rfl rfl
  rw [hreturns, compensated_iff hw.registered haddressed]
  constructor
  · rintro hrestores (⟨hexecute, _⟩ | ⟨_, service, configKey, hnone⟩)
    · rw [hnext] at hexecute
      cases hexecute
    · rw [hcomp] at hnone
      exact hrestores ⟨service, configKey, Option.some.inj hnone⟩
  · rintro hcrash ⟨service, configKey, rfl⟩
    exact hcrash (Or.inr ⟨hnext, service, configKey, hcomp⟩)

/-- A sound run returns from every visit but those, whatever it is answered. -/
theorem visit_returns_iff (hnext : c.next = some node) (hawait : node ≠ .awaitApproval)
    (h : Sound c.state c.next) (hw : Answering c.world) :
    (∃ c', (step rt answers c).1 = .ok c') ↔ ¬ Crashing c := by
  rw [hnext] at h
  have hacted : node ∈ acting → ∃ action anchored, c.state.proposedAction = some (.str action) ∧
      Valid action ∧ c.state.stateFingerprint = some anchored := h.acted node rfl
  have hquiet : node ≠ .execute → node ≠ .rollingBack → ¬ Crashing c := by
    intro hexecute hrolling
    exact not_crashing (by rw [hnext]; simpa using hexecute) (by rw [hnext]; simpa using hrolling)
  cases node with
  | diagnose =>
    exact iff_of_true (diagnose_returns answers hnext h.auditable hw) (hquiet (by simp) (by simp))
  | proposeAction =>
    exact iff_of_true (propose_returns answers hnext h.auditable (h.swept (by simp)))
      (hquiet (by simp) (by simp))
  | classifyRisk =>
    obtain ⟨action, _, haction, hvalid, _⟩ := hacted (by simp [acting])
    exact iff_of_true
      (classify_returns answers hnext h.auditable (h.swept (by simp)) haction hvalid)
      (hquiet (by simp) (by simp))
  | awaitApproval => exact absurd rfl hawait
  | revalidate =>
    obtain ⟨action, _, haction, hvalid, hstored⟩ := hacted (by simp [acting])
    exact iff_of_true (revalidates answers hnext h.auditable hw haction hvalid hstored)
      (hquiet (by simp) (by simp))
  | prepareExecution =>
    obtain ⟨action, _, haction, _, _⟩ := hacted (by simp [acting])
    exact iff_of_true (prepare_returns answers hnext h.auditable haction)
      (hquiet (by simp) (by simp))
  | execute => exact execute_returns_iff answers hnext h hw
  | verify =>
    obtain ⟨action, _, haction, hvalid, _⟩ := hacted (by simp [acting])
    obtain ⟨result, hresult⟩ := h.result rfl
    exact iff_of_true (verify_returns answers hnext h.auditable hw haction hvalid hresult)
      (hquiet (by simp) (by simp))
  | rollingBack => exact rolling_returns_iff answers hnext h hw
  | replan =>
    exact iff_of_true (replan_returns answers hnext h.auditable h.cycles)
      (hquiet (by simp) (by simp))
  | markAwaitingApproval | rolledBack | escalate | completed =>
    exact iff_of_true (returns_of_update hnext h.auditable (w := c.world) rfl rfl rfl rfl)
      (hquiet (by simp) (by simp))

end Raising

end Crashes
