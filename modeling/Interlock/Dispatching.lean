import Interlock.Effects
import Interlock.Fingerprint

/-!
# What a dispatch reads and who answers it

The entries of the parameters that make a difference to the call of a tool, the
raises that come before any service was asked, and the answers of a registered
sandbox to a call that is.
-/

namespace Dispatching

open Dictionary PythonValues MockService Tools DiagnosticSweep Fingerprint Execution Effects

/-! ### Parameters that a dispatch reads -/

def setItem (items : List (String × Json)) (key : String) (value : Json) : List (String × Json) :=
  items.map fun p => if p.1 = key then (p.1, value) else p

/-- An entry of the parameters is used if another value in its place would call the
tool differently. -/
def Uses (action : String) (parameters : Json) (key : String) : Prop :=
  ∃ items value, parameters = .obj items ∧ key ∈ items.map Prod.fst ∧
    dispatch action (.obj (setItem items key value)) ≠ dispatch action parameters

/-- The tool finds no entry of its own in the parameters. -/
structure Parameterless (tool : String) (parameters : Json) : Prop where
  config : tool ≠ "apply_config_change"
  scale : tool = "scale_service" → parameters.get "replicas" = .ok none
  delete : tool = "delete_records" → parameters.get "ids" = .ok none

theorem item_setItem (items : List (String × Json)) (key other : String) (value : Json) :
    Json.item (setItem items key value) other =
      if key = other then (Json.item items other).map fun _ => value
      else Json.item items other := by
  induction items with
  | nil => simp [setItem, Json.item]
  | cons p rest ih =>
    obtain ⟨k, v⟩ := p
    have hcons : setItem ((k, v) :: rest) key value =
        (if k = key then (k, value) else (k, v)) :: setItem rest key value := rfl
    rw [hcons]
    by_cases hk : k = key
    · subst hk
      by_cases ho : k = other
      · simp [Json.item, ho]
      · simp [Json.item, ho, ih]
    · by_cases ho : k = other
      · subst ho
        simp [Json.item, hk, Ne.symm hk]
      · simp [Json.item, hk, ho, ih]

section Calls

variable (target : String) (parameters : Json)

theorem toolCall_scale : toolCall "scale_service" target parameters = (do
    let replicas := (← parameters.get "replicas").getD (.int defaultScaleReplicas)
    return .scaleService target (← asInt "ScaleServiceInput" "replicas" replicas)) := rfl

theorem toolCall_config : toolCall "apply_config_change" target parameters = (do
    let key ← parameters.getItem "key"
    let value ← parameters.getItem "value"
    let key ← asStr "ApplyConfigChangeInput" "key" key
    return .applyConfigChange target key (← asStr "ApplyConfigChangeInput" "value" value)) := rfl

theorem toolCall_delete : toolCall "delete_records" target parameters = (do
    let ids ← parameters.get "ids"
    return .deleteRecords target (← asOptionalInts "DeleteRecordsInput" "ids" ids)) := rfl

end Calls

/-- The service or kind that a call is about. -/
def callTarget : ToolCall → String
  | .restartService service => service
  | .scaleService service _ => service
  | .deleteRecords kind _ => kind
  | .clearCache service => service
  | .applyConfigChange service _ _ => service
  | .rollbackDeployment service => service

/-- A dispatch calls the tool that the action names, on its target. -/
theorem named_by_call {tool target : String} {parameters : Json} {call : ToolCall}
    (h : toolCall tool target parameters = .ok call) :
    call.toolName = tool ∧ callTarget call = target := by
  unfold toolCall at h
  split at h
  · rename_i hrestart
    cases h
    exact ⟨hrestart.symm, rfl⟩
  · split at h
    · rename_i hscale
      obtain ⟨_, _, h⟩ := except_bind_ok_iff.mp h
      obtain ⟨_, _, h⟩ := except_bind_ok_iff.mp h
      cases h
      exact ⟨hscale.symm, rfl⟩
    · split at h
      · rename_i hclear
        cases h
        exact ⟨hclear.symm, rfl⟩
      · split at h
        · rename_i hconfig
          obtain ⟨_, _, h⟩ := except_bind_ok_iff.mp h
          obtain ⟨_, _, h⟩ := except_bind_ok_iff.mp h
          obtain ⟨_, _, h⟩ := except_bind_ok_iff.mp h
          obtain ⟨_, _, h⟩ := except_bind_ok_iff.mp h
          cases h
          exact ⟨hconfig.symm, rfl⟩
        · split at h
          · rename_i hrollback
            cases h
            exact ⟨hrollback.symm, rfl⟩
          · split at h
            · rename_i hdelete
              obtain ⟨_, _, h⟩ := except_bind_ok_iff.mp h
              obtain ⟨_, _, h⟩ := except_bind_ok_iff.mp h
              cases h
              exact ⟨hdelete.symm, rfl⟩
            · cases h

/-- The call of a tool without entries of its own is the one with its defaults. -/
theorem toolCall_parameterless {tool target : String} {p q : Json} (hp : Parameterless tool p)
    (hq : Parameterless tool q) : toolCall tool target p = toolCall tool target q := by
  unfold toolCall
  by_cases hscale : tool = "scale_service"
  · rw [hp.scale hscale, hq.scale hscale]
    simp [hscale]
  · by_cases hdelete : tool = "delete_records"
    · rw [hp.delete hdelete, hq.delete hdelete]
      simp [hdelete]
    · simp [hscale, hdelete, hp.config]

theorem Parameterless.setItem {tool : String} {items : List (String × Json)}
    (h : Parameterless tool (.obj items)) (key : String) (value : Json) :
    Parameterless tool (.obj (setItem items key value)) := by
  have habsent : ∀ k, (Json.obj items).get k = .ok none →
      (Json.obj (Dispatching.setItem items key value)).get k = .ok none := by
    intro k hk
    have hitem : Json.item items k = none := Except.ok.inj hk
    rw [Json.get, item_setItem, hitem]
    simp
  exact ⟨h.config, fun hs => habsent _ (h.scale hs), fun hd => habsent _ (h.delete hd)⟩

theorem dispatch_of_split {action tool target : String} (h : splitColon action = .ok (tool, target))
    (parameters : Json) : dispatch action parameters = toolCall tool target parameters := by
  rw [dispatch, h]
  rfl

theorem not_uses_of_parameterless {action tool target : String} {parameters : Json}
    (hsplit : splitColon action = .ok (tool, target)) (h : Parameterless tool parameters)
    (key : String) : ¬ Uses action parameters key := by
  rintro ⟨items, value, rfl, _, hdiffers⟩
  apply hdiffers
  rw [dispatch_of_split hsplit, dispatch_of_split hsplit]
  exact toolCall_parameterless (h.setItem key value) h

theorem get_some_ok {j value : Json} {key : String} (h : j.get key = .ok (some value)) :
    ∃ items, j = .obj items ∧ Json.item items key = some value := by
  cases j with
  | obj items => exact ⟨items, rfl, Except.ok.inj h⟩
  | _ => cases h

theorem getItem_ok {j value : Json} {key : String} (h : j.getItem key = .ok value) :
    ∃ items, j = .obj items ∧ Json.item items key = some value := by
  cases j with
  | obj items =>
    refine ⟨items, rfl, ?_⟩
    cases hitem : Json.item items key with
    | none =>
      rw [Json.getItem, hitem] at h
      cases h
    | some v =>
      rw [Json.getItem, hitem] at h
      cases h
      rfl
  | _ => cases h

theorem mem_of_item {items : List (String × Json)} {key : String} {value : Json}
    (h : Json.item items key = some value) : key ∈ items.map Prod.fst := by
  induction items with
  | nil => cases h
  | cons p rest ih =>
    obtain ⟨k, v⟩ := p
    by_cases hk : k = key
    · simp [hk]
    · rw [Json.item, if_neg hk] at h
      exact List.mem_cons_of_mem _ (ih h)

theorem item_replaced {items : List (String × Json)} {key : String} {old : Json}
    (h : Json.item items key = some old) (value : Json) :
    Json.item (setItem items key value) key = some value := by
  rw [item_setItem, if_pos rfl, h]
  rfl

/-- A call that is made although the tool finds an entry of its own uses that entry. -/
theorem uses_of_call {action tool target : String} {parameters : Json} {call : ToolCall}
    (hsplit : splitColon action = .ok (tool, target))
    (hcall : dispatch action parameters = .ok call) (h : ¬ Parameterless tool parameters) :
    ∃ key, Uses action parameters key := by
  rw [dispatch_of_split hsplit] at hcall
  have hraises : ∀ {items : List (String × Json)} {key : String} {old : Json} {e : PyError}
      (value : Json), parameters = .obj items → Json.item items key = some old →
      toolCall tool target (.obj (setItem items key value)) = .error e →
      ∃ key, Uses action parameters key := by
    intro items key old e value hp hitem he
    refine ⟨key, items, value, hp, mem_of_item hitem, ?_⟩
    rw [dispatch_of_split hsplit, dispatch_of_split hsplit, he, hcall]
    exact fun h => by cases h
  by_cases hconfig : tool = "apply_config_change"
  · subst hconfig
    rw [toolCall_config] at hcall
    obtain ⟨key, hkey, hrest⟩ := except_bind_ok_iff.mp hcall
    obtain ⟨value, hvalue, _⟩ := except_bind_ok_iff.mp hrest
    obtain ⟨items, rfl, hitem⟩ := getItem_ok hkey
    obtain ⟨_, hobj, hvalue⟩ := getItem_ok hvalue
    cases hobj
    refine hraises .null rfl hitem (e := .validationError "ApplyConfigChangeInput" "key") ?_
    have hother : Json.item (setItem items "key" .null) "value" = some value := by
      rw [item_setItem, if_neg (by decide), hvalue]
    rw [toolCall_config, Json.getItem, item_replaced hitem, Json.getItem, hother]
    rfl
  · by_cases hscale : tool = "scale_service"
    · subst hscale
      rw [toolCall_scale] at hcall
      obtain ⟨replicas, hreplicas, _⟩ := except_bind_ok_iff.mp hcall
      cases replicas with
      | none => exact absurd ⟨by decide, fun _ => hreplicas, fun hd => absurd hd (by decide)⟩ h
      | some r =>
        obtain ⟨items, rfl, hitem⟩ := get_some_ok hreplicas
        refine hraises .null rfl hitem (e := .validationError "ScaleServiceInput" "replicas") ?_
        rw [toolCall_scale, Json.get, item_replaced hitem]
        rfl
    · by_cases hdelete : tool = "delete_records"
      · subst hdelete
        rw [toolCall_delete] at hcall
        obtain ⟨ids, hids, _⟩ := except_bind_ok_iff.mp hcall
        cases ids with
        | none => exact absurd ⟨by decide, fun hs => absurd hs (by decide), fun _ => hids⟩ h
        | some i =>
          obtain ⟨items, rfl, hitem⟩ := get_some_ok hids
          refine hraises (.bool false) rfl hitem (e := .validationError "DeleteRecordsInput" "ids") ?_
          rw [toolCall_delete, Json.get, item_replaced hitem]
          rfl
      · exact absurd ⟨hconfig, fun hs => absurd hs hscale, fun hd => absurd hd hdelete⟩ h

/-! ### Raises that no service answered -/

/-- What reading the parameters of an action can raise. -/
inductive Malformed : PyError → Prop where
  | key (key : String) : Malformed (.keyError key)
  | type (message : String) : Malformed (.typeError message)
  | attribute (message : String) : Malformed (.attributeError message)
  | validation (model field : String) : Malformed (.validationError model field)

/-- The computation raises nothing but what is the parameters' fault. -/
def Reads {α : Type} (x : Except PyError α) : Prop := ∀ e, x = .error e → Malformed e

theorem reads_ok {α : Type} (a : α) : Reads (.ok a : Except PyError α) := by
  intro e h
  cases h

theorem Reads.bind {α β : Type} {x : Except PyError α} {f : α → Except PyError β}
    (hx : Reads x) (hf : ∀ a, Reads (f a)) : Reads (x >>= f) := by
  cases x with
  | ok a => exact hf a
  | error e =>
    intro e' h
    cases h
    exact hx e rfl

theorem reads_get (j : Json) (key : String) : Reads (j.get key) := by
  intro e h
  cases j with
  | obj items => cases h
  | _ =>
    cases h
    exact .attribute _

theorem reads_getItem (j : Json) (key : String) : Reads (j.getItem key) := by
  intro e h
  cases j with
  | obj items =>
    rw [Json.getItem] at h
    split at h
    · cases h
    · cases h
      exact .key key
  | _ =>
    cases h
    exact .type _

theorem reads_validated {α : Type} (model field : String) (x : Option α) :
    Reads (validated model field x) := by
  intro e h
  cases x with
  | some a => cases h
  | none =>
    cases h
    exact .validation model field

theorem reads_asInt (model field : String) (j : Json) : Reads (asInt model field j) := by
  cases j with
  | bool b => exact reads_ok _
  | int n => exact reads_ok n
  | float x => exact reads_validated model field _
  | str s => exact reads_validated model field _
  | _ =>
    intro e h
    cases h
    exact .validation model field

theorem reads_asStr (model field : String) (j : Json) : Reads (asStr model field j) := by
  intro e h
  cases j with
  | str s => cases h
  | _ =>
    cases h
    exact .validation model field

theorem reads_ints (model field : String) (items : List Json) :
    Reads (items.mapM (asInt model field)) := by
  induction items with
  | nil => exact reads_ok []
  | cons j rest ih =>
    rw [List.mapM_cons]
    exact (reads_asInt model field j).bind fun n => ih.bind fun ns => reads_ok (n :: ns)

theorem reads_asOptionalInts (model field : String) (x : Option Json) :
    Reads (asOptionalInts model field x) := by
  cases x with
  | none => exact reads_ok none
  | some j =>
    cases j with
    | null => exact reads_ok none
    | arr items =>
      rw [asOptionalInts]
      have hints := reads_ints model field items
      cases hitems : items.mapM (asInt model field) with
      | ok ns => exact reads_ok (some ns)
      | error e =>
        rw [hitems] at hints
        intro e' h
        cases h
        exact hints e rfl
    | _ =>
      intro e h
      cases h
      exact .validation model field

/-- Dispatching a known tool raises nothing but what is the parameters' fault. -/
theorem reads_toolCall {tool : String} (htool : tool ∈ knownTools) (target : String)
    (parameters : Json) : Reads (toolCall tool target parameters) := by
  simp only [knownTools, List.mem_cons, List.not_mem_nil, or_false] at htool
  rcases htool with rfl | rfl | rfl | rfl | rfl | rfl
  · exact reads_ok _
  · rw [toolCall_scale]
    exact (reads_get parameters _).bind fun r => (reads_asInt _ _ _).bind fun n => reads_ok _
  · rw [toolCall_delete]
    exact (reads_get parameters _).bind fun ids =>
      (reads_asOptionalInts _ _ ids).bind fun i => reads_ok _
  · exact reads_ok _
  · rw [toolCall_config]
    exact (reads_getItem parameters _).bind fun key =>
      (reads_getItem parameters _).bind fun value =>
        (reads_asStr _ _ key).bind fun k => (reads_asStr _ _ value).bind fun v => reads_ok _
  · exact reads_ok _

/-- The computation does not raise what a refusing service makes its caller raise. -/
def NotRefused {α : Type} (x : Except PyError α) : Prop :=
  ∀ status, x ≠ .error (.httpStatusError status)

/-- Dispatching an action asks no service yet. -/
theorem notRefused_toolCall (tool target : String) (parameters : Json) :
    NotRefused (toolCall tool target parameters) := by
  intro status h
  by_cases htool : tool ∈ knownTools
  · cases reads_toolCall htool target parameters _ h
  · have hraise : toolCall tool target parameters =
        throw (.valueError s!"unknown tool {pyRepr tool}") := by
      simp only [knownTools, List.mem_cons, List.not_mem_nil, or_false, not_or] at htool
      simp only [toolCall, htool, if_false]
    rw [hraise] at h
    cases h

/-! ### Executions and the ledger -/

section Ledger

variable {action : String} {parameters : Json} {key : String} {w w₁ : ToolContext}
variable {call : ToolCall} {o : Outcome}

theorem executeAction_hit {existing : LedgerEntry} (hcall : dispatch action parameters = .ok call)
    (h : w.store.get? key = some existing) :
    (executeAction action parameters key).run w =
      (.ok ⟨existing.result, existing.compensation⟩, w) := by
  have hrun : (call.run key).run w =
      (.ok ⟨call.toolName, key, true, existing.result, existing.compensation⟩, w) := by
    rw [ToolCall.run_eq, runIdempotent_hit h]
  exact executeAction_ok_iff.mpr ⟨call, _, hcall, hrun, rfl⟩

theorem executeAction_miss (hcall : dispatch action parameters = .ok call)
    (h : w.store.get? key = none) (hp : call.perform.run w = (.ok o, w₁)) :
    (executeAction action parameters key).run w =
      (.ok o, { w₁ with store := w₁.store.setdefault key (call.entry o) }) := by
  have hrun : (call.run key).run w = (.ok ⟨call.toolName, key, false, o.result, o.compensation⟩,
      { w₁ with store := w₁.store.setdefault key (call.entry o) }) := by
    rw [ToolCall.run_eq, runIdempotent_miss h hp]
    rfl
  exact executeAction_ok_iff.mpr ⟨call, _, hcall, hrun, rfl⟩

theorem executeAction_refused {e : PyError} (hcall : dispatch action parameters = .ok call)
    (h : w.store.get? key = none) (hp : call.perform.run w = (.error e, w₁)) :
    (executeAction action parameters key).run w = (.error e, w₁) := by
  have hrun : (call.run key).run w = (.error e, w₁) := by
    rw [ToolCall.run_eq, runIdempotent_raise h hp]
  have hlift : (Action.lift (dispatch action parameters)).run w = (.ok call, w) := by
    rw [Action.run_lift, hcall]
  rw [executeAction, Action.run_bind_of_ok hlift, Action.run_bind_of_error hrun]

theorem executeAction_undispatched {e : PyError} (hcall : dispatch action parameters = .error e) :
    (executeAction action parameters key).run w = (.error e, w) := by
  rw [executeAction, hcall]
  rfl

end Ledger

/-! ### Executions in a registered sandbox -/

/-- The computation returned, or a service refused it. -/
def Answered {α : Type} (x : Except PyError α) : Prop :=
  (∃ a, x = .ok a) ∨ ∃ status, x = .error (.httpStatusError status)

theorem answered_of_run {α : Type} {x : Action ToolContext α} {a : α} {w w' : ToolContext}
    (h : x.run w = (.ok a, w')) : Answered (x.run w).1 :=
  Or.inl ⟨a, by rw [h]⟩

theorem rollback_answered {ctx : ToolContext} {service : String} {s : ServiceState}
    (hs : ctx.clients.get? service = some s) :
    Answered ((performRollbackDeployment service).run ctx).1 := by
  by_cases hversions : s.versionHistory.length < 2
  · have hpost : (post service postRollback).run ctx =
        (.error (.httpStatusError 400), ctx.setClient service (postRollback.run s).2) := by
      rw [run_post, ToolContext.client_ok_iff.mpr hs]
      simp only [postRollback_short hversions]
    rw [performRollbackDeployment, Action.run_bind_of_error hpost]
    exact Or.inr ⟨400, rfl⟩
  · obtain ⟨older, u, v, hsplit⟩ := two_versions (not_lt.mp hversions)
    have hrun := performRollbackDeployment_ok_iff.mpr ⟨s, older, u, v, hs, hsplit, rfl, rfl⟩
    exact answered_of_run hrun

/-- In a registered sandbox the tool of a grounded action is answered. -/
theorem perform_answered {ctx : ToolContext} {tool target : String} {parameters : Json}
    (hctx : Registered ctx) (htool : tool ∈ knownTools)
    (hservice : tool ≠ "delete_records" → target ∈ knownServices)
    (hdisk : tool = "clear_cache" → hasDisk target = true)
    (hparams : Parameterless tool parameters) :
    ∃ call, toolCall tool target parameters = .ok call ∧ Answered (call.perform.run ctx).1 := by
  simp only [knownTools, List.mem_cons, List.not_mem_nil, or_false] at htool
  by_cases hdelete : tool = "delete_records"
  · subst hdelete
    refine ⟨.deleteRecords target none, ?_, Or.inl ⟨_, rfl⟩⟩
    rw [toolCall_delete, hparams.delete rfl]
    rfl
  · obtain ⟨s, hs, hsdisk, _⟩ := hctx target (hservice hdelete)
    rcases htool with rfl | rfl | rfl | rfl | rfl | rfl
    · refine ⟨.restartService target, rfl, ?_⟩
      exact answered_of_run (performRestartService_ok_iff.mpr ⟨s, hs, rfl, rfl⟩)
    · refine ⟨.scaleService target defaultScaleReplicas, ?_, ?_⟩
      · rw [toolCall_scale, hparams.scale rfl]
        rfl
      · exact answered_of_run (performScaleService_ok_iff.mpr ⟨s, hs, rfl, rfl⟩)
    · exact absurd rfl hdelete
    · refine ⟨.clearCache target, rfl, ?_⟩
      exact answered_of_run
        (performClearCache_ok_iff.mpr ⟨s, hs, hsdisk.trans (hdisk rfl), rfl, rfl⟩)
    · exact absurd rfl hparams.config
    · exact ⟨.rollbackDeployment target, rfl, rollback_answered hs⟩

/-- A call is answered from the ledger, or as its side effect is. -/
theorem run_answered {call : ToolCall} {key : String} {ctx : ToolContext}
    (h : Answered (call.perform.run ctx).1) : Answered ((call.run key).run ctx).1 := by
  rw [ToolCall.run_eq]
  cases hs : ctx.store.get? key with
  | some existing =>
    rw [runIdempotent_hit hs]
    exact Or.inl ⟨_, rfl⟩
  | none =>
    cases hp : call.perform.run ctx with
    | mk r w =>
      cases r with
      | ok o =>
        rw [runIdempotent_miss hs hp]
        exact Or.inl ⟨_, rfl⟩
      | error e =>
        rw [runIdempotent_raise hs hp]
        rw [hp] at h
        rcases h with ⟨_, hok⟩ | ⟨status, herror⟩
        · cases hok
        · exact Or.inr ⟨status, by rw [Except.error.inj herror]⟩

end Dispatching
