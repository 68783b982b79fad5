import Interlock.Fingerprint
import Interlock.Metrics

/-!
# The validator of scenarios

A scenario is checked against the sandbox and against itself: what it injects must be
something that the fault injector can produce, every action must name a tool and a target,
and a correct action must be acceptable and not forbidden.
-/

namespace ScenarioValidation

open Dictionary PythonValues MockService DiagnosticSweep Fingerprint Metrics

/-! ### Scenarios -/

/-- A fault to inject; any of its keys may be missing. -/
structure FaultInjection where
  service : Option String := none
  faultType : Option String := none
  rate : Option String := none
  deriving DecidableEq, Repr

/-- A change of the environment during the approval wait. -/
structure StalenessChange where
  action : Option String := none
  service : Option String := none
  faultType : Option String := none
  rate : Option String := none
  kind : Option String := none
  deriving DecidableEq, Repr

/-- The keys that an injected fault has in common with every other change. -/
def StalenessChange.fault (change : StalenessChange) : FaultInjection where
  service := change.service
  faultType := change.faultType
  rate := change.rate

structure StalenessInjection where
  changes : Option (List StalenessChange) := none
  deriving DecidableEq, Repr

/-- A scenario as it is loaded, before it is known which of its keys are there. -/
structure ScenarioDoc where
  id : Option String := none
  name : Option String := none
  category : Option String := none
  faultInjection : Option FaultInjection := none
  expectedDiagnosis : Option String := none
  correctActions : Option (List String) := none
  acceptableActions : Option (List String) := none
  forbiddenActions : Option (List String) := none
  expectedRiskTier : Option String := none
  verification : Option String := none
  stalenessInjection : Option StalenessInjection := none
  expectedDriftDetected : Option Bool := none
  deriving DecidableEq, Repr

/-- What the metrics read of a scenario. -/
def ScenarioDoc.row (scenario : ScenarioDoc) : Option ScenarioRow := do
  return {
    id := ← scenario.id
    category := ← scenario.category
    expectedRiskTier := ← scenario.expectedRiskTier
    acceptableActions := ← scenario.acceptableActions
    forbiddenActions := ← scenario.forbiddenActions }

def faultTypes : List (String × FaultType) :=
  [("memory_leak", .memoryLeak), ("high_error_rate", .highErrorRate), ("cpu_spike", .cpuSpike),
    ("service_down", .serviceDown), ("disk_full", .diskFull)]

def faultRates : List (String × FaultRate) := [("low", .low), ("medium", .medium), ("high", .high)]

def requiredRiskTiers : List String := ["low", "medium", "high"]

/-- `sorted(STALENESS_ACTIONS)`. -/
def stalenessActions : List String := ["delete_records", "inject_fault", "reset", "rollback"]

/-- `sorted(REQUIRED_KEYS - scenario.keys())`. -/
def missingKeys (scenario : ScenarioDoc) : List String :=
  [("acceptable_actions", scenario.acceptableActions.isSome),
    ("category", scenario.category.isSome),
    ("correct_actions", scenario.correctActions.isSome),
    ("expected_diagnosis", scenario.expectedDiagnosis.isSome),
    ("expected_risk_tier", scenario.expectedRiskTier.isSome),
    ("fault_injection", scenario.faultInjection.isSome),
    ("forbidden_actions", scenario.forbiddenActions.isSome),
    ("id", scenario.id.isSome),
    ("name", scenario.name.isSome),
    ("verification", scenario.verification.isSome)].filterMap
      fun (key, present) => if present then none else some key

/-! ### Checks -/

/-- `repr` of a value that may be `None`. -/
def reprOption (value : Option String) : String := (value.map pyRepr).getD "None"

/-- `repr` of a tuple of more than one text. -/
def reprTuple (parts : List String) : String := "(" ++ joinComma (parts.map pyRepr) ++ ")"

def validateFaultInjection (fault : FaultInjection) (location : String) : List String :=
  match fault.service.filter (· ∈ knownServices) with
  | none =>
    [s!"{location}: unknown service {reprOption fault.service}; known: {reprTuple knownServices}"]
  | some service =>
    match fault.faultType.bind (lookup faultTypes) with
    | none => [s!"{location}: unknown fault type {reprOption fault.faultType}"]
    | some faultType =>
      (if (fault.rate.bind (lookup faultRates)).isNone then
        [s!"{location}: unknown fault rate {reprOption fault.rate}"] else []) ++
      (if faultType = .diskFull ∧ hasDisk service = false then
        [s!"{location}: disk_full is not producible on {pyRepr service} (no disk surface)"] else [])

def validateActionRef (action field scenarioId : String) : List String :=
  match splitColon action with
  | .error _ => [s!"{scenarioId}.{field}: {pyRepr action} is not in 'tool:target' form"]
  | .ok (tool, target) =>
    (if tool ∉ knownTools then [s!"{scenarioId}.{field}: unknown tool {pyRepr tool}"] else []) ++
    (if target = "*" then []
    else if tool = "delete_records" then
      if target ∉ recordKinds then
        [s!"{scenarioId}.{field}: unknown record kind {pyRepr target}"] else []
    else if target ∉ knownServices then
      [s!"{scenarioId}.{field}: unknown service {pyRepr target}"] else [])

def validateStalenessChange (change : StalenessChange) (location : String) : List String :=
  match change.action with
  | some "inject_fault" => validateFaultInjection change.fault location
  | some "reset" | some "rollback" =>
    if change.service.all (· ∉ knownServices) then
      [s!"{location}: unknown service {reprOption change.service}"] else []
  | some "delete_records" =>
    if change.kind.all (· ∉ recordKinds) then
      [s!"{location}: unknown record kind {reprOption change.kind}"] else []
  | action =>
    [s!"{location}: unknown staleness action {reprOption action}; " ++
      s!"known: {pyReprList stalenessActions}"]

def validateStaleness (scenario : ScenarioDoc) (scenarioId : String) : List String :=
  if scenario.category = some "staleness" then
    match scenario.stalenessInjection, scenario.expectedDriftDetected with
    | some injection, some _ =>
      (injection.changes.getD []).zipIdx.flatMap fun (change, i) =>
        validateStalenessChange change s!"{scenarioId}.staleness_injection.changes[{i}]"
    | _, _ =>
      [s!"{scenarioId}: staleness scenario missing staleness_injection/expected_drift_detected"]
  else []

/-- `validate_scenario(scenario)`: after the first check every required key is there. -/
def validateScenario (scenario : ScenarioDoc) : List String :=
  let scenarioId := scenario.id.getD "<missing id>"
  let missing := missingKeys scenario
  let correct := scenario.correctActions.getD []
  let acceptable := scenario.acceptableActions.getD []
  let forbidden := scenario.forbiddenActions.getD []
  if missing ≠ [] then [s!"{scenarioId}: missing required keys {pyReprList missing}"]
  else
    validateFaultInjection (scenario.faultInjection.getD {}) s!"{scenarioId}.fault_injection" ++
    (if scenario.expectedRiskTier.all (· ∉ requiredRiskTiers) then
      [s!"{scenarioId}: unknown expected_risk_tier {reprOption scenario.expectedRiskTier}"]
      else []) ++
    correct.flatMap (validateActionRef · "correct_actions" scenarioId) ++
    acceptable.flatMap (validateActionRef · "acceptable_actions" scenarioId) ++
    forbidden.flatMap (validateActionRef · "forbidden_actions" scenarioId) ++
    (if correct.all (· ∈ acceptable) then []
      else [s!"{scenarioId}: correct_actions must be a subset of acceptable_actions"]) ++
    (if correct.any (· ∈ forbidden) then
      [s!"{scenarioId}: correct_actions overlaps forbidden_actions"] else []) ++
    validateStaleness scenario scenarioId

/-! ### What is accepted -/

/-- A fault that the injector can produce. -/
def Injectable (fault : FaultInjection) : Prop :=
  ∃ service typeText faultType rateText rate,
    fault.service = some service ∧ service ∈ knownServices ∧
    fault.faultType = some typeText ∧ lookup faultTypes typeText = some faultType ∧
    fault.rate = some rateText ∧ lookup faultRates rateText = some rate ∧
    (faultType = .diskFull → hasDisk service = true)

/-- A change that is valid on its own. -/
inductive ValidChange : StalenessChange → Prop where
  | reset {change : StalenessChange} {service : String} (haction : change.action = some "reset")
      (hservice : change.service = some service) (hknown : service ∈ knownServices) :
      ValidChange change
  | rollback {change : StalenessChange} {service : String}
      (haction : change.action = some "rollback") (hservice : change.service = some service)
      (hknown : service ∈ knownServices) : ValidChange change
  | injectFault {change : StalenessChange} (haction : change.action = some "inject_fault")
      (hfault : Injectable change.fault) : ValidChange change
  | deleteRecords {change : StalenessChange} {kind : String}
      (haction : change.action = some "delete_records") (hkind : change.kind = some kind)
      (hknown : kind ∈ recordKinds) : ValidChange change

structure Accepted (scenario : ScenarioDoc) : Prop where
  keys : missingKeys scenario = []
  fault : ∃ fault, scenario.faultInjection = some fault ∧ Injectable fault
  acceptable : ∀ action ∈ scenario.correctActions.getD [],
    action ∈ scenario.acceptableActions.getD []
  allowed : ∀ action ∈ scenario.correctActions.getD [],
    action ∉ scenario.forbiddenActions.getD []
  staleness : scenario.category = some "staleness" →
    ∃ injection, scenario.stalenessInjection = some injection ∧
      ∀ change ∈ injection.changes.getD [], ValidChange change

section Soundness

theorem nil_of_ite {p : Prop} [Decidable p] {message : String}
    (h : (if p then [message] else []) = []) : ¬ p := by
  intro hp
  rw [if_pos hp] at h
  cases h

theorem injectable_of_nil {fault : FaultInjection} {location : String}
    (h : validateFaultInjection fault location = []) : Injectable fault := by
  rw [validateFaultInjection] at h
  cases hservice : fault.service.filter (· ∈ knownServices) with
  | none =>
    simp only [hservice] at h
    cases h
  | some service =>
    cases htype : fault.faultType.bind (lookup faultTypes) with
    | none =>
      simp only [hservice, htype] at h
      cases h
    | some faultType =>
      simp only [hservice, htype, List.append_eq_nil_iff] at h
      obtain ⟨hrates, hdisk⟩ := h
      have hrate := nil_of_ite hrates
      have hsurface := nil_of_ite hdisk
      obtain ⟨hpresent, hknown⟩ := Option.filter_eq_some_iff.mp hservice
      obtain ⟨typeText, htypeText, htypeFound⟩ := Option.bind_eq_some_iff.mp htype
      rw [Option.isNone_iff_eq_none] at hrate
      obtain ⟨rate, hrate⟩ := Option.ne_none_iff_exists'.mp hrate
      obtain ⟨rateText, hrateText, hrateFound⟩ := Option.bind_eq_some_iff.mp hrate
      refine ⟨service, typeText, faultType, rateText, rate, hpresent, of_decide_eq_true hknown,
        htypeText, htypeFound, hrateText, hrateFound, ?_⟩
      intro hfull
      by_contra hno
      exact hsurface ⟨hfull, Bool.eq_false_iff.mpr hno⟩

theorem known_of_nil {name : Option String} {known : List String} {message : String}
    (h : (if name.all (· ∉ known) then [message] else []) = []) :
    ∃ text, name = some text ∧ text ∈ known := by
  have hsome := nil_of_ite h
  cases name with
  | none => exact absurd rfl hsome
  | some text => exact ⟨text, rfl, by simpa using hsome⟩

theorem validChange_of_nil {change : StalenessChange} {location : String}
    (h : validateStalenessChange change location = []) : ValidChange change := by
  unfold validateStalenessChange at h
  split at h
  · rename_i haction
    exact .injectFault haction (injectable_of_nil h)
  · rename_i haction
    obtain ⟨service, hservice, hknown⟩ := known_of_nil h
    exact .reset haction hservice hknown
  · rename_i haction
    obtain ⟨service, hservice, hknown⟩ := known_of_nil h
    exact .rollback haction hservice hknown
  · rename_i haction
    obtain ⟨kind, hkind, hknown⟩ := known_of_nil h
    exact .deleteRecords haction hkind hknown
  · cases h

theorem staleness_of_nil {scenario : ScenarioDoc} {scenarioId : String}
    (h : validateStaleness scenario scenarioId = [])
    (hstale : scenario.category = some "staleness") :
    ∃ injection, scenario.stalenessInjection = some injection ∧
      ∀ change ∈ injection.changes.getD [], ValidChange change := by
  rw [validateStaleness, if_pos hstale] at h
  cases hinjection : scenario.stalenessInjection with
  | none =>
    simp only [hinjection] at h
    cases h
  | some injection =>
    cases hdrift : scenario.expectedDriftDetected with
    | none =>
      simp only [hinjection, hdrift] at h
      cases h
    | some drift =>
      simp only [hinjection, hdrift] at h
      refine ⟨injection, rfl, ?_⟩
      intro change hchange
      obtain ⟨i, hi, hat⟩ := List.mem_iff_getElem.mp hchange
      have hindexed : (change, i) ∈ (injection.changes.getD []).zipIdx :=
        List.mem_zipIdx_iff_getElem?.mpr (hat ▸ List.getElem?_eq_getElem hi)
      exact validChange_of_nil (List.flatMap_eq_nil_iff.mp h _ hindexed)

theorem accepted_of_nil {scenario : ScenarioDoc} (h : validateScenario scenario = []) :
    Accepted scenario := by
  rw [validateScenario] at h
  by_cases hkeys : missingKeys scenario = []
  · simp only [hkeys, ne_eq, not_true_eq_false, if_false, List.append_eq_nil_iff] at h
    obtain ⟨⟨⟨⟨⟨⟨⟨hfault, _⟩, _⟩, _⟩, _⟩, hsubset⟩, hoverlap⟩, hstaleness⟩ := h
    have hpresent : scenario.faultInjection ≠ none := by
      intro hnone
      simp [missingKeys, hnone] at hkeys
    obtain ⟨fault, hsome⟩ := Option.ne_none_iff_exists'.mp hpresent
    rw [hsome] at hfault
    refine ⟨hkeys, ⟨fault, hsome, injectable_of_nil hfault⟩, ?_, ?_, staleness_of_nil hstaleness⟩
    · by_cases hall : (scenario.correctActions.getD []).all
          (· ∈ scenario.acceptableActions.getD []) = true
      · simpa using hall
      · rw [if_neg hall] at hsubset
        cases hsubset
    · simpa using nil_of_ite hoverlap
  · simp only [if_pos hkeys] at h
    cases h

end Soundness

end ScenarioValidation
