import Interlock.Tools

/-!
# Diagnostic sweeps

The services that exist, and the sweep over them with read-only tools alone:
health, metrics and logs of every service, the disk of those that have one, and
every record.
-/

namespace DiagnosticSweep

open Dictionary PythonValues MockService RecordsTable Tools

/-! ### The registry -/

def serviceRoles : List (String × String) :=
  [("service_a", "compute"), ("service_b", "compute"), ("service_c", "disk")]

def knownServices : List String := serviceRoles.map Prod.fst

def hasDisk (service : String) : Bool := lookup serviceRoles service == some "disk"

/-! ### One sweep -/

structure ServiceObservation where
  health : HealthResponse
  metrics : MetricsResponse
  logs : List String
  disk : Option DiskResponse := none
  deriving DecidableEq, Repr

structure Observations where
  services : Dict String ServiceObservation
  records : List Row

def observeService (ctx : ToolContext) (service : String) :
    Except PyError ServiceObservation := do
  let health ← getServiceHealth ctx service
  let metrics ← Tools.getMetrics ctx service
  let logs ← readLogs ctx service 10
  if hasDisk service then
    let disk ← checkDiskUsage ctx service
    return { health := health, metrics := metrics, logs := logs, disk := some disk }
  else return { health := health, metrics := metrics, logs := logs }

/-- The sweeps of the services, in the order of the registry. -/
def observeServices (ctx : ToolContext) :
    List String → Dict String ServiceObservation → Except PyError (Dict String ServiceObservation)
  | [], services => .ok services
  | service :: rest, services => do
    observeServices ctx rest (services.set service (← observeService ctx service))

def gatherObservations (ctx : ToolContext) : Except PyError Observations := do
  let services ← observeServices ctx knownServices .empty
  return { services := services, records := queryDbReadonly ctx none 1000 }

/-! ### What a sweep contains -/

theorem observeServices_get? {ctx : ToolContext} {names : List String}
    {start services : Dict String ServiceObservation}
    (h : observeServices ctx names start = .ok services) (distinct : names.Nodup)
    (service : String) :
    (service ∈ names → ∃ o, observeService ctx service = .ok o ∧ services.get? service = some o) ∧
    (service ∉ names → services.get? service = start.get? service) := by
  induction names generalizing start with
  | nil =>
    cases h
    simp
  | cons name rest ih =>
    obtain ⟨o, ho, hrest⟩ := except_bind_ok_iff.mp h
    obtain ⟨hfresh, hdistinct⟩ := List.nodup_cons.mp distinct
    obtain ⟨hin, hout⟩ := ih hrest hdistinct
    constructor
    · intro hmem
      rcases List.mem_cons.mp hmem with rfl | hmem
      · exact ⟨o, ho, by rw [hout hfresh, Dict.get?_set_self]⟩
      · exact hin hmem
    · intro hmem
      rw [List.mem_cons, not_or] at hmem
      rw [hout hmem.2, Dict.get?_set_ne _ _ (Ne.symm hmem.1)]

theorem knownServices_nodup : knownServices.Nodup := by decide

/-- A sweep holds what each known service answers, and no other service. -/
theorem gather_service {ctx : ToolContext} {obs : Observations}
    (h : gatherObservations ctx = .ok obs) (service : String) :
    (service ∈ knownServices →
      ∃ o, observeService ctx service = .ok o ∧ obs.services.get? service = some o) ∧
    (service ∉ knownServices → obs.services.get? service = none) := by
  obtain ⟨services, hs, hobs⟩ := except_bind_ok_iff.mp h
  cases hobs
  exact observeServices_get? hs knownServices_nodup service

theorem gather_records {ctx : ToolContext} {obs : Observations}
    (h : gatherObservations ctx = .ok obs) : obs.records = ctx.records.getByKind none 1000 := by
  obtain ⟨services, _, hobs⟩ := except_bind_ok_iff.mp h
  cases hobs
  rfl

/-- The figures that a service in state `s` shows to a sweep. -/
def shown (ctx : ToolContext) (service : String) (s : ServiceState) (metrics : MetricsResponse) :
    ServiceObservation :=
  { health := ⟨s.name, s.status.text, s.restartCount⟩
    metrics := metrics
    logs := s.logs ctx.now 10
    disk := if hasDisk service then some ⟨s.name, s.diskPct⟩ else none }

theorem observeService_eq {ctx : ToolContext} {service : String} {s : ServiceState}
    {metrics : MetricsResponse} (hs : ctx.clients.get? service = some s)
    (hm : MockService.getMetrics s = .ok metrics) :
    observeService ctx service =
      if hasDisk service = true ∧ s.hasDisk = false then .error (.httpStatusError 404)
      else .ok (shown ctx service s metrics) := by
  have hclient : ctx.client service = .ok s := ToolContext.client_ok_iff.mpr hs
  have hhealth : getServiceHealth ctx service = .ok ⟨s.name, s.status.text, s.restartCount⟩ := by
    rw [getServiceHealth, Tools.get, hclient]
    rfl
  have hmetrics : Tools.getMetrics ctx service = .ok metrics := by
    rw [Tools.getMetrics, Tools.get, hclient]
    exact hm
  have hlogs : readLogs ctx service 10 = .ok (s.logs ctx.now 10) := by
    rw [readLogs, Tools.get, hclient]
    rfl
  have hdisk : checkDiskUsage ctx service = getDisk s := by
    rw [checkDiskUsage, Tools.get, hclient]
    rfl
  rw [observeService, hhealth, hmetrics, hlogs, hdisk]
  cases hd : hasDisk service <;> cases hsd : s.hasDisk <;>
    simp [bind, Except.bind, pure, Except.pure, getDisk, shown, hd, hsd]

theorem observeService_ok {ctx : ToolContext} {service : String} {o : ServiceObservation}
    (h : observeService ctx service = .ok o) :
    ∃ s metrics, ctx.clients.get? service = some s ∧ MockService.getMetrics s = .ok metrics ∧
      (hasDisk service = true → s.hasDisk = true) ∧ o = shown ctx service s metrics := by
  obtain ⟨health, hhealth, hrest⟩ := except_bind_ok_iff.mp h
  obtain ⟨s, hs, _⟩ := except_bind_ok_iff.mp hhealth
  obtain ⟨metrics, hmetrics, _⟩ := except_bind_ok_iff.mp hrest
  obtain ⟨t, ht, hm⟩ := except_bind_ok_iff.mp hmetrics
  rw [hs] at ht
  cases ht
  have hclient := ToolContext.client_ok_iff.mp hs
  refine ⟨s, metrics, hclient, hm, ?_, ?_⟩
  · intro hd
    by_contra hsd
    rw [observeService_eq hclient hm, if_pos ⟨hd, by simpa using hsd⟩] at h
    cases h
  · rw [observeService_eq hclient hm] at h
    split at h
    · cases h
    · cases h
      rfl

/-- The sandbox has a client for every service of the registry, with the disk
surface the registry says, and every service has a deployed version. -/
def Registered (ctx : ToolContext) : Prop :=
  ∀ service ∈ knownServices, ∃ s, ctx.clients.get? service = some s ∧
    s.hasDisk = hasDisk service ∧ s.versionHistory ≠ []

/-- A sandbox as it is built for a run: one fresh service for each name. -/
def freshSandbox (rows : List Row) : ToolContext :=
  { clients := .ofList (knownServices.map fun name => (name, createApp name (hasDisk name)))
    records := .init rows }

/-- A service in the registry may change, but for its disk surface, and keep a version. -/
theorem registered_setClient {w : ToolContext} {service : String} {s s' : ServiceState}
    (h : Registered w) (hs : w.clients.get? service = some s)
    (hdisk : s'.hasDisk = s.hasDisk) (hversions : s'.versionHistory ≠ []) :
    Registered (w.setClient service s') := by
  intro name hname
  obtain ⟨t, ht, htdisk, htversions⟩ := h name hname
  by_cases hsame : service = name
  · subst hsame
    rw [hs] at ht
    cases ht
    refine ⟨s', ?_, hdisk.trans htdisk, hversions⟩
    rw [ToolContext.setClient_clients, Dict.get?_set, if_pos rfl]
  · refine ⟨t, ?_, htdisk, htversions⟩
    rw [ToolContext.setClient_clients, Dict.get?_set, if_neg hsame, ht]

theorem getMetrics_ok {s : ServiceState} (h : s.versionHistory ≠ []) :
    ∃ metrics, MockService.getMetrics s = .ok metrics := by
  obtain ⟨v, hv⟩ := Option.ne_none_iff_exists'.mp (mt List.getLast?_eq_none_iff.mp h)
  exact ⟨_, by simp [MockService.getMetrics, ServiceState.metrics, ServiceState.deployedVersion, hv,
    bind, Except.bind, pure, Except.pure]; rfl⟩

theorem observeServices_ok {ctx : ToolContext} {names : List String}
    (h : ∀ name ∈ names, ∃ o, observeService ctx name = .ok o)
    (start : Dict String ServiceObservation) :
    ∃ services, observeServices ctx names start = .ok services := by
  induction names generalizing start with
  | nil => exact ⟨start, rfl⟩
  | cons name rest ih =>
    obtain ⟨o, ho⟩ := h name List.mem_cons_self
    obtain ⟨services, hs⟩ := ih (fun n hn => h n (List.mem_cons_of_mem name hn)) (start.set name o)
    exact ⟨services, except_bind_ok_iff.mpr ⟨o, ho, hs⟩⟩

/-- A registered sandbox answers every sweep. -/
theorem gather_ok {ctx : ToolContext} (h : Registered ctx) :
    ∃ obs, gatherObservations ctx = .ok obs := by
  have hobserve : ∀ name ∈ knownServices, ∃ o, observeService ctx name = .ok o := by
    intro name hname
    obtain ⟨s, hs, hdisk, hversion⟩ := h name hname
    obtain ⟨metrics, hm⟩ := getMetrics_ok hversion
    refine ⟨shown ctx name s metrics, ?_⟩
    rw [observeService_eq hs hm, if_neg]
    rintro ⟨hd, hsd⟩
    rw [hdisk, hd] at hsd
    cases hsd
  obtain ⟨services, hs⟩ := observeServices_ok hobserve .empty
  exact ⟨_, except_bind_ok_iff.mpr ⟨services, hs, rfl⟩⟩

end DiagnosticSweep
