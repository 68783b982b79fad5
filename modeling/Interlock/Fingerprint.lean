import Interlock.CanonicalJson
import Interlock.DiagnosticSweep

/-!
# Fingerprints of proposed actions

The observation fields that an action's outcome depends on, the check that a
proposal is grounded in the environment, and the fingerprint of the fields. The
hash stays a parameter: `digest` is the truncated SHA-256 of the encoded text.
-/

namespace Fingerprint

open Dictionary PythonValues MockService RecordsTable Tools DiagnosticSweep CanonicalJson

def knownTools : List String :=
  ["restart_service", "scale_service", "delete_records", "clear_cache", "apply_config_change",
    "rollback_deployment"]

def recordKinds : List String := ["order", "session", "cache_entry"]

/-! ### Relevant fields -/

def healthFields (health : HealthResponse) : Dict String FieldValue :=
  .ofList [("service", .str health.service), ("status", .str health.status),
    ("restart_count", .int health.restartCount)]

def metricsFields (metrics : MetricsResponse) : Dict String FieldValue :=
  .ofList [("service", .str metrics.service), ("memory_pct", .float metrics.memoryPct),
    ("cpu_pct", .float metrics.cpuPct), ("error_rate", .float metrics.errorRate),
    ("restart_count", .int metrics.restartCount), ("replicas", .int metrics.replicas),
    ("deployed_version", .str metrics.deployedVersion),
    ("disk_pct", match metrics.diskPct with
      | some x => .float x
      | none => .none)]

/-- `d[key]`. -/
def subscript {α : Type} (d : Dict String α) (key : String) : Except PyError α :=
  match d.get? key with
  | some x => .ok x
  | none => .error (.keyError key)

/-- `{field: combined[field] for field in fields}`. -/
def pick (combined : Dict String FieldValue) :
    List String → Except PyError (List (String × FieldValue))
  | [] => .ok []
  | field :: rest => do
    let value ← subscript combined field
    return (field, value) :: (← pick combined rest)

def serviceFields (obs : Observations) (service : String) (fields : List String) :
    Except PyError (List (String × FieldValue)) := do
  let o ← subscript obs.services service
  pick ((healthFields o.health).update (metricsFields o.metrics)) fields

def loadFields : List String := ["status", "memory_pct", "cpu_pct", "error_rate"]

/-- The subset of the observations that `tool` acting on `target` depends on. -/
def relevantFields (obs : Observations) (tool target : String) :
    Except PyError (List (String × FieldValue)) :=
  if tool = "restart_service" ∨ tool = "scale_service" then serviceFields obs target loadFields
  else if tool = "clear_cache" then do
    let o ← subscript obs.services target
    match o.disk with
    | some disk => return [("disk_pct", .float disk.usedPct)]
    | none => throw (.keyError "disk")
  else if tool = "rollback_deployment" then
    serviceFields obs target ["status", "deployed_version"]
  else if tool = "apply_config_change" then serviceFields obs target ["status"]
  else if tool = "delete_records" then
    let matching := ((obs.records.filter (fun r => r.kind == target)).map Row.id).insertionSort
      (· ≤ ·)
    return [("kind", .str target), ("ids", .ints matching)]
  else throw (.valueError s!"unknown tool {pyRepr tool}")

/-! ### Proposals -/

/-- `None` for a proposal that is grounded in the environment, and the reason
it is not otherwise. -/
def validateProposal (obs : Observations) (proposedAction : String) :
    Except PyError (Option String) := do
  let (tool, target) ← splitColon proposedAction
  if tool ∉ knownTools then return some s!"{pyRepr tool} is not a known tool"
  if tool = "delete_records" then
    if target ∉ recordKinds then return some s!"{pyRepr target} is not a known record kind"
    return none
  match obs.services.get? target with
  | none => return some s!"{pyRepr target} is not a known service"
  | some o =>
    if tool = "clear_cache" ∧ o.disk = none then
      return some (pyRepr target ++ " has no disk surface; clear_cache doesn't apply to it")
    return none

/-- `sha256(canonical.encode()).hexdigest()[:16]` of the canonical text. -/
def computeFingerprint (digest : String → String) (obs : Observations)
    (proposedAction : String) : Except PyError String := do
  let (tool, target) ← splitColon proposedAction
  let fields ← relevantFields obs tool target
  return digest (dumps fields)

/-! ### What the fields are -/

theorem subscript_ok_iff {α : Type} {d : Dict String α} {key : String} {x : α} :
    subscript d key = .ok x ↔ d.get? key = some x := by
  unfold subscript
  cases d.get? key <;> simp

theorem combined_get (health : HealthResponse) (metrics : MetricsResponse) :
    let combined := (healthFields health).update (metricsFields metrics)
    combined.get? "status" = some (.str health.status) ∧
    combined.get? "memory_pct" = some (.float metrics.memoryPct) ∧
    combined.get? "cpu_pct" = some (.float metrics.cpuPct) ∧
    combined.get? "error_rate" = some (.float metrics.errorRate) ∧
    combined.get? "deployed_version" = some (.str metrics.deployedVersion) := by
  simp only [Dict.get?_update]
  refine ⟨?_, ?_, ?_, ?_, ?_⟩ <;> simp [healthFields, metricsFields, Dict.ofList, Dict.get?_set]

/-- The keys of the fields that a tool depends on. -/
def fieldNames (tool : String) : List String :=
  if tool = "restart_service" ∨ tool = "scale_service" then loadFields
  else if tool = "clear_cache" then ["disk_pct"]
  else if tool = "rollback_deployment" then ["status", "deployed_version"]
  else if tool = "apply_config_change" then ["status"]
  else ["kind", "ids"]

theorem pick_names {combined : Dict String FieldValue} {names : List String}
    {fields : List (String × FieldValue)} (h : pick combined names = .ok fields) :
    fields.map Prod.fst = names := by
  induction names generalizing fields with
  | nil =>
    cases h
    rfl
  | cons name rest ih =>
    obtain ⟨value, _, hrest⟩ := except_bind_ok_iff.mp h
    obtain ⟨more, hmore, hfields⟩ := except_bind_ok_iff.mp hrest
    cases hfields
    rw [List.map_cons, ih hmore]

theorem serviceFields_names {obs : Observations} {service : String} {names : List String}
    {fields : List (String × FieldValue)} (h : serviceFields obs service names = .ok fields) :
    fields.map Prod.fst = names := by
  obtain ⟨o, _, hpick⟩ := except_bind_ok_iff.mp h
  exact pick_names hpick

theorem relevantFields_names {obs : Observations} {tool target : String}
    {fields : List (String × FieldValue)} (h : relevantFields obs tool target = .ok fields) :
    fields.map Prod.fst = fieldNames tool := by
  unfold relevantFields at h
  unfold fieldNames
  split at h
  · rename_i hload
    rw [if_pos hload]
    exact serviceFields_names h
  · rename_i hload
    rw [if_neg hload]
    split at h
    · rename_i hdisk
      rw [if_pos hdisk]
      obtain ⟨o, _, hrest⟩ := except_bind_ok_iff.mp h
      cases hd : o.disk with
      | none =>
        rw [hd] at hrest
        cases hrest
      | some disk =>
        rw [hd] at hrest
        cases hrest
        rfl
    · rename_i hdisk
      rw [if_neg hdisk]
      split at h
      · rename_i hroll
        rw [if_pos hroll]
        exact serviceFields_names h
      · rename_i hroll
        rw [if_neg hroll]
        split at h
        · rename_i hconfig
          rw [if_pos hconfig]
          exact serviceFields_names h
        · rename_i hconfig
          rw [if_neg hconfig]
          split at h
          · cases h
            rfl
          · cases h

theorem fieldNames_nodup (tool : String) : (fieldNames tool).Nodup := by
  unfold fieldNames
  repeat' split
  all_goals decide

theorem computeFingerprint_ok_iff {digest : String → String} {obs : Observations}
    {proposedAction fingerprint : String} :
    computeFingerprint digest obs proposedAction = .ok fingerprint ↔
      ∃ tool target fields, splitColon proposedAction = .ok (tool, target) ∧
        relevantFields obs tool target = .ok fields ∧ fingerprint = digest (dumps fields) := by
  constructor
  · intro h
    obtain ⟨⟨tool, target⟩, hsplit, hrest⟩ := except_bind_ok_iff.mp h
    obtain ⟨fields, hfields, hdigest⟩ := except_bind_ok_iff.mp hrest
    cases hdigest
    exact ⟨tool, target, fields, hsplit, hfields, rfl⟩
  · rintro ⟨tool, target, fields, hsplit, hfields, rfl⟩
    exact except_bind_ok_iff.mpr ⟨(tool, target), hsplit,
      except_bind_ok_iff.mpr ⟨fields, hfields, rfl⟩⟩

/-- The canonical text of an action's fields determines them. -/
theorem dumps_eq_iff {obs later : Observations} {tool target : String} {fields laterFields}
    (h : relevantFields obs tool target = .ok fields)
    (hlater : relevantFields later tool target = .ok laterFields) :
    dumps fields = dumps laterFields ↔ fields = laterFields := by
  constructor
  · intro heq
    have hnames := relevantFields_names hlater
    refine dumps_injective ?_ ?_ heq
    · rw [hnames, relevantFields_names h]
    · rw [hnames]
      exact fieldNames_nodup tool
  · rintro rfl
    rfl

/-- Without collisions of the digest, two sweeps have the same fingerprint for an
action exactly when the fields that the action depends on are the same. -/
theorem fingerprint_eq_iff {digest : String → String} (hdigest : Function.Injective digest)
    {obs later : Observations} {tool target : String} {fields laterFields}
    (h : relevantFields obs tool target = .ok fields)
    (hlater : relevantFields later tool target = .ok laterFields) :
    digest (dumps fields) = digest (dumps laterFields) ↔ fields = laterFields := by
  rw [hdigest.eq_iff, dumps_eq_iff h hlater]

/-! ### Grounded proposals have a fingerprint -/

section ServiceFields

variable {obs : Observations} {service : String} {o : ServiceObservation}

theorem serviceFields_eq (h : obs.services.get? service = some o) (fields : List String) :
    serviceFields obs service fields =
      pick ((healthFields o.health).update (metricsFields o.metrics)) fields := by
  rw [serviceFields, subscript_ok_iff.mpr h]
  rfl

theorem pick_cons {combined : Dict String FieldValue} {field : String} {value : FieldValue}
    {rest : List String} {more : List (String × FieldValue)}
    (h : combined.get? field = some value) (hmore : pick combined rest = .ok more) :
    pick combined (field :: rest) = .ok ((field, value) :: more) := by
  rw [pick, subscript_ok_iff.mpr h, hmore]
  rfl

theorem serviceFields_load (h : obs.services.get? service = some o) :
    serviceFields obs service loadFields =
      .ok [("status", .str o.health.status), ("memory_pct", .float o.metrics.memoryPct),
        ("cpu_pct", .float o.metrics.cpuPct), ("error_rate", .float o.metrics.errorRate)] := by
  obtain ⟨hstatus, hmemory, hcpu, herror, _⟩ := combined_get o.health o.metrics
  rw [serviceFields_eq h]
  exact pick_cons hstatus (pick_cons hmemory (pick_cons hcpu (pick_cons herror rfl)))

theorem serviceFields_version (h : obs.services.get? service = some o) :
    serviceFields obs service ["status", "deployed_version"] =
      .ok [("status", .str o.health.status),
        ("deployed_version", .str o.metrics.deployedVersion)] := by
  obtain ⟨hstatus, _, _, _, hversion⟩ := combined_get o.health o.metrics
  rw [serviceFields_eq h]
  exact pick_cons hstatus (pick_cons hversion rfl)

theorem serviceFields_status (h : obs.services.get? service = some o) :
    serviceFields obs service ["status"] = .ok [("status", .str o.health.status)] := by
  obtain ⟨hstatus, _⟩ := combined_get o.health o.metrics
  rw [serviceFields_eq h]
  exact pick_cons hstatus rfl

theorem relevantFields_disk {disk : DiskResponse} (h : obs.services.get? service = some o)
    (hd : o.disk = some disk) :
    relevantFields obs "clear_cache" service = .ok [("disk_pct", .float disk.usedPct)] := by
  have hfields : relevantFields obs "clear_cache" service =
      (do
        let o ← subscript obs.services service
        match o.disk with
        | some disk => return [("disk_pct", .float disk.usedPct)]
        | none => throw (.keyError "disk")) := rfl
  rw [hfields, subscript_ok_iff.mpr h]
  simp only [bind, Except.bind, hd]
  rfl

end ServiceFields

theorem validateProposal_none {obs : Observations} {proposedAction : String}
    (h : validateProposal obs proposedAction = .ok none) :
    ∃ tool target, splitColon proposedAction = .ok (tool, target) ∧ tool ∈ knownTools ∧
      (tool = "delete_records" → target ∈ recordKinds) ∧
      (tool ≠ "delete_records" → ∃ o, obs.services.get? target = some o ∧
        (tool = "clear_cache" → o.disk.isSome = true)) := by
  obtain ⟨⟨tool, target⟩, hsplit, hrest⟩ := except_bind_ok_iff.mp h
  refine ⟨tool, target, hsplit, ?_⟩
  by_cases htool : tool ∈ knownTools
  · refine ⟨htool, ?_⟩
    by_cases hdelete : tool = "delete_records"
    · subst hdelete
      refine ⟨fun _ => ?_, fun hne => absurd rfl hne⟩
      by_contra hkind
      simp [htool, hkind, pure, Except.pure] at hrest
    · refine ⟨fun heq => absurd heq hdelete, fun _ => ?_⟩
      cases ho : obs.services.get? target with
      | none => simp [htool, hdelete, ho, pure, Except.pure] at hrest
      | some o =>
        refine ⟨o, rfl, ?_⟩
        intro hclear
        subst hclear
        cases hd : o.disk with
        | some disk => rfl
        | none => simp [htool, ho, hd, pure, Except.pure] at hrest
  · simp [htool, pure, Except.pure] at hrest

/-- A reason is never the empty text, so its truth value tells it from `None`. -/
theorem validateProposal_reason {obs : Observations} {proposedAction reason : String}
    (h : validateProposal obs proposedAction = .ok (some reason)) : reason ≠ "" := by
  obtain ⟨⟨tool, target⟩, _, hrest⟩ := except_bind_ok_iff.mp h
  have hne : ∀ a b : String, b ≠ "" → a ++ b ≠ "" := by
    intro a b hb hab
    exact hb (String.append_eq_empty_iff.mp hab).2
  have hclose : ∀ {x y : String}, x ≠ "" → (.ok (some x) : Except PyError (Option String)) =
      .ok (some y) → y ≠ "" := by
    intro x y hx hxy
    cases hxy
    exact hx
  by_cases htool : tool ∈ knownTools
  · by_cases hdelete : tool = "delete_records"
    · subst hdelete
      by_cases hkind : target ∈ recordKinds
      · simp [htool, hkind, pure, Except.pure] at hrest
      · simp only [htool, hkind, not_true, not_false_eq_true, if_true, if_false] at hrest
        exact hclose (hne _ _ (by decide)) hrest
    · cases ho : obs.services.get? target with
      | none =>
        simp only [htool, hdelete, ho, not_true, if_false] at hrest
        exact hclose (hne _ _ (by decide)) hrest
      | some o =>
        by_cases hdisk : tool = "clear_cache" ∧ o.disk = none
        · simp only [htool, hdelete, ho, not_true, if_false, if_pos hdisk] at hrest
          exact hclose (hne _ _ (by decide)) hrest
        · simp only [htool, hdelete, ho, not_true, if_false, if_neg hdisk] at hrest
          cases hrest
  · simp only [htool, not_false_eq_true, if_true] at hrest
    exact hclose (hne _ _ (by decide)) hrest

theorem relevantFields_of_known {obs : Observations} {tool target : String}
    (htool : tool ∈ knownTools)
    (hservice : tool ≠ "delete_records" → ∃ o, obs.services.get? target = some o ∧
      (tool = "clear_cache" → o.disk.isSome = true)) :
    ∃ fields, relevantFields obs tool target = .ok fields := by
  by_cases hdelete : tool = "delete_records"
  · subst hdelete
    exact ⟨_, rfl⟩
  · obtain ⟨o, ho, hdisk⟩ := hservice hdelete
    simp only [knownTools, List.mem_cons, List.not_mem_nil, or_false] at htool
    rcases htool with rfl | rfl | rfl | rfl | rfl | rfl
    · exact ⟨_, serviceFields_load ho⟩
    · exact ⟨_, serviceFields_load ho⟩
    · exact absurd rfl hdelete
    · obtain ⟨disk, hd⟩ := Option.isSome_iff_exists.mp (hdisk rfl)
      exact ⟨_, relevantFields_disk ho hd⟩
    · exact ⟨_, serviceFields_status ho⟩
    · exact ⟨_, serviceFields_version ho⟩

/-- What `validate_proposal` catches is what would make the look-ups raise. -/
theorem computeFingerprint_of_valid (digest : String → String) {obs : Observations}
    {proposedAction : String} (h : validateProposal obs proposedAction = .ok none) :
    ∃ fingerprint, computeFingerprint digest obs proposedAction = .ok fingerprint := by
  obtain ⟨tool, target, hsplit, htool, _, hservice⟩ := validateProposal_none h
  obtain ⟨fields, hfields⟩ := relevantFields_of_known htool hservice
  exact ⟨_, computeFingerprint_ok_iff.mpr ⟨tool, target, fields, hsplit, hfields, rfl⟩⟩

end Fingerprint
