import Interlock.EditedActions

/-!
# What one service shows

The part of a sweep that is about one service, its log lines aside: all that an action on
this service is checked, rated and fingerprinted by. A sweep fails or succeeds as a whole,
by which services are there and have a version.
-/

namespace LocalReadings

open Dictionary PythonValues MockService RecordsTable Tools DiagnosticSweep Fingerprint RiskPolicy

/-! ### Readings -/

structure Reading where
  health : HealthResponse
  metrics : MetricsResponse
  disk : Option DiskResponse

def readingOf (o : ServiceObservation) : Reading := ⟨o.health, o.metrics, o.disk⟩

/-- What a sweep says of one service. -/
def reading (service : String) (obs : Observations) : Option Reading :=
  (obs.services.get? service).map readingOf

/-- The tools whose target is a service. -/
def serviceTools : List String := knownTools.filter (· ≠ "delete_records")

theorem serviceTools_mem {tool : String} (h : tool ∈ serviceTools) :
    tool ∈ knownTools ∧ tool ≠ "delete_records" := by
  rw [serviceTools, List.mem_filter] at h
  exact ⟨h.1, by simpa using h.2⟩

theorem splitColon_tool {tool : String} (h : tool ∈ serviceTools) (target : String) :
    splitColon (tool ++ ":" ++ target) = .ok (tool, target) := by
  have hcolon : ∀ tool ∈ serviceTools, ':' ∉ tool.toList := by decide
  exact splitColon_exact target (hcolon tool h)

section Congruence

variable {obs obs' : Observations} {action tool service : String}

/-- Two sweeps that read the same of a service either both miss it or show the same. -/
theorem reading_cases (h : reading service obs = reading service obs') :
    (obs.services.get? service = none ∧ obs'.services.get? service = none) ∨
      ∃ o o', obs.services.get? service = some o ∧ obs'.services.get? service = some o' ∧
        o.health = o'.health ∧ o.metrics = o'.metrics ∧ o.disk = o'.disk := by
  rw [reading, reading] at h
  cases ho : obs.services.get? service with
  | none =>
    rw [ho, Option.map_none] at h
    exact Or.inl ⟨rfl, Option.map_eq_none_iff.mp h.symm⟩
  | some o =>
    rw [ho, Option.map_some] at h
    obtain ⟨o', ho', hsame⟩ := Option.map_eq_some_iff.mp h.symm
    simp only [readingOf, Reading.mk.injEq] at hsame
    exact Or.inr ⟨o, o', rfl, ho', hsame.1.symm, hsame.2.1.symm, hsame.2.2.symm⟩

theorem validateProposal_reading (hsplit : splitColon action = .ok (tool, service))
    (htool : tool ≠ "delete_records") (h : reading service obs = reading service obs') :
    validateProposal obs action = validateProposal obs' action := by
  unfold validateProposal
  rw [hsplit]
  simp only [bind, Except.bind, if_neg htool]
  rcases reading_cases h with ⟨hmissing, hmissing'⟩ | ⟨o, o', ho, ho', _, _, hdisk⟩
  · rw [hmissing, hmissing']
  · rw [ho, ho']
    simp only [hdisk]

theorem relevantFields_reading (htool : tool ≠ "delete_records")
    (h : reading service obs = reading service obs') :
    relevantFields obs tool service = relevantFields obs' tool service := by
  unfold relevantFields serviceFields subscript
  rcases reading_cases h with ⟨hmissing, hmissing'⟩ | ⟨o, o', ho, ho', hhealth, hmetrics, hdisk⟩
  · rw [hmissing, hmissing']
    simp only [if_neg htool]
  · rw [ho, ho']
    simp only [bind, Except.bind, if_neg htool, hhealth, hmetrics, hdisk]

theorem computeFingerprint_reading (digest : String → String)
    (hsplit : splitColon action = .ok (tool, service)) (htool : tool ≠ "delete_records")
    (h : reading service obs = reading service obs') :
    computeFingerprint digest obs action = computeFingerprint digest obs' action := by
  rw [computeFingerprint, computeFingerprint, hsplit]
  simp only [bind, Except.bind, relevantFields_reading htool h]

theorem situationalFeatures_reading (hsplit : splitColon action = .ok (tool, service))
    (htool : tool ≠ "delete_records") (h : reading service obs = reading service obs') :
    situationalFeatures obs action = situationalFeatures obs' action := by
  unfold situationalFeatures
  rw [hsplit]
  simp only [bind, Except.bind, if_neg htool]
  rcases reading_cases h with ⟨hmissing, hmissing'⟩ | ⟨o, o', ho, ho', _, hmetrics, _⟩
  · rw [hmissing, hmissing']
  · rw [ho, ho']
    simp only [hmetrics]

/-- What a sweep reads of a service is a function of the service alone. -/
theorem reading_gather {w w' : ToolContext} (h : gatherObservations w = .ok obs)
    (h' : gatherObservations w' = .ok obs')
    (hclient : w.clients.get? service = w'.clients.get? service) :
    reading service obs = reading service obs' := by
  rw [reading, reading]
  by_cases hknown : service ∈ knownServices
  · obtain ⟨o, ho, hget⟩ := (gather_service h service).1 hknown
    obtain ⟨o', ho', hget'⟩ := (gather_service h' service).1 hknown
    obtain ⟨s, metrics, hs, hmetrics, _, rfl⟩ := observeService_ok ho
    obtain ⟨s', metrics', hs', hmetrics', _, rfl⟩ := observeService_ok ho'
    rw [hclient, hs', Option.some.injEq] at hs
    subst hs
    rw [hmetrics, Except.ok.injEq] at hmetrics'
    subst hmetrics'
    rw [hget, hget']
    rfl
  · rw [(gather_service h service).2 hknown, (gather_service h' service).2 hknown]

end Congruence

/-! ### Sweeps that succeed -/

/-- A service that a sweep gets its answers from. -/
def Answers (w : ToolContext) (name : String) : Prop :=
  ∃ s, w.clients.get? name = some s ∧ s.versionHistory ≠ [] ∧ (hasDisk name = true → s.hasDisk = true)

theorem versions_of_metrics {s : ServiceState} {metrics : MetricsResponse}
    (h : MockService.getMetrics s = .ok metrics) : s.versionHistory ≠ [] := by
  intro hempty
  obtain ⟨_, hm, _⟩ := except_bind_ok_iff.mp h
  obtain ⟨_, hversion, _⟩ := except_bind_ok_iff.mp hm
  rw [ServiceState.deployedVersion, hempty] at hversion
  cases hversion

theorem observeService_answers {w : ToolContext} {name : String} :
    (∃ o, observeService w name = .ok o) ↔ Answers w name := by
  constructor
  · rintro ⟨o, ho⟩
    obtain ⟨s, metrics, hs, hmetrics, hdisk, _⟩ := observeService_ok ho
    exact ⟨s, hs, versions_of_metrics hmetrics, hdisk⟩
  · rintro ⟨s, hs, hversions, hdisk⟩
    obtain ⟨metrics, hmetrics⟩ := getMetrics_ok hversions
    refine ⟨shown w name s metrics, ?_⟩
    rw [observeService_eq hs hmetrics, if_neg]
    rintro ⟨hhas, hlacks⟩
    rw [hdisk hhas] at hlacks
    cases hlacks

/-- A sweep succeeds exactly if every service of the registry answers. -/
theorem gather_ok_iff {w : ToolContext} :
    (∃ obs, gatherObservations w = .ok obs) ↔ ∀ name ∈ knownServices, Answers w name := by
  constructor
  · rintro ⟨obs, hobs⟩ name hname
    obtain ⟨o, ho, _⟩ := (gather_service hobs name).1 hname
    exact observeService_answers.mp ⟨o, ho⟩
  · intro h
    obtain ⟨services, hservices⟩ := observeServices_ok
      (fun name hname => observeService_answers.mpr (h name hname)) .empty
    refine ⟨{ services := services, records := queryDbReadonly w none 1000 }, ?_⟩
    rw [gatherObservations, hservices]
    rfl

end LocalReadings
