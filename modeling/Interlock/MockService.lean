import Interlock.Dictionary
import Interlock.PythonValues

/-!
# One mock service

The in-memory state of a sandbox service and the HTTP endpoints over it. A
handler that raises `ValueError` answers 400, a body that its request model
rejects answers 422, and a route that the service does not have answers 404;
callers turn each of these into an exception.
-/

namespace MockService

open Dictionary PythonValues

inductive FaultType where
  | memoryLeak
  | highErrorRate
  | cpuSpike
  | serviceDown
  | diskFull
  deriving DecidableEq, Repr

inductive FaultRate where
  | low
  | medium
  | high
  deriving DecidableEq, Repr

inductive HealthStatus where
  | healthy
  | degraded
  | unhealthy
  deriving DecidableEq, Repr

def HealthStatus.text : HealthStatus → String
  | healthy => "healthy"
  | degraded => "degraded"
  | unhealthy => "unhealthy"

def rateMagnitude : FaultRate → ℚ
  | .low => 65
  | .medium => 80
  | .high => 95

def rateErrorRate : FaultRate → ℚ
  | .low => 0.15
  | .medium => 0.3
  | .high => 0.6

def baselineMemoryPct : ℚ := 20
def baselineCpuPct : ℚ := 15
def baselineDiskPct : ℚ := 30
def baselineErrorRate : ℚ := 0
def baselineReplicas : Int := 1
def baselineConfig : Dict String String :=
  .ofList [("log_level", "info"), ("max_connections", "100"), ("cache_ttl_seconds", "300")]
def baselineVersionHistory : List String := ["v1.0.0", "v1.1.0", "v1.2.0"]

def degradedThreshold : ℚ := 75
def unhealthyThreshold : ℚ := 90
def degradedErrorRate : ℚ := 0.1
def unhealthyErrorRate : ℚ := 0.5

structure ServiceState where
  name : String
  hasDisk : Bool := false
  memoryPct : ℚ := baselineMemoryPct
  cpuPct : ℚ := baselineCpuPct
  diskPct : ℚ := baselineDiskPct
  errorRate : ℚ := baselineErrorRate
  forcedDown : Bool := false
  restartCount : Int := 0
  activeFaults : List FaultType := []
  replicas : Int := baselineReplicas
  config : Dict String String := baselineConfig
  versionHistory : List String := baselineVersionHistory

/-- The figures of `/metrics`; `disk_pct` is only there with a disk. -/
structure MetricsData where
  memoryPct : ℚ
  cpuPct : ℚ
  errorRate : ℚ
  restartCount : Int
  replicas : Int
  deployedVersion : String
  diskPct : Option ℚ

/-- `f"{x:.df}"` for readings that have no more than `d` decimals. -/
def fixedPoint (d : Nat) (x : ℚ) : String :=
  let scaled := (x * 10 ^ d + 1 / 2).floor
  if d = 0 then toString scaled
  else
    let fraction := toString (scaled.natAbs % 10 ^ d)
    let padding := String.ofList (List.replicate (d - fraction.length) '0')
    toString (scaled / 10 ^ d) ++ "." ++ padding ++ fraction

namespace ServiceState

/-- `version_history[-1]`. -/
def deployedVersion (s : ServiceState) : Except PyError String :=
  match s.versionHistory.getLast? with
  | some v => .ok v
  | none => .error (.valueError "list index out of range")

def status (s : ServiceState) : HealthStatus :=
  if s.forcedDown ∨ s.errorRate ≥ unhealthyErrorRate then .unhealthy
  else
    let worst := max (max s.memoryPct s.cpuPct) (if s.hasDisk then s.diskPct else 0)
    if worst ≥ unhealthyThreshold then .unhealthy
    else if worst ≥ degradedThreshold ∨ s.errorRate ≥ degradedErrorRate then .degraded
    else .healthy

def metrics (s : ServiceState) : Except PyError MetricsData := do
  let deployedVersion ← s.deployedVersion
  return {
    memoryPct := s.memoryPct
    cpuPct := s.cpuPct
    errorRate := s.errorRate
    restartCount := s.restartCount
    replicas := s.replicas
    deployedVersion := deployedVersion
    diskPct := if s.hasDisk then some s.diskPct else none }

def logs (s : ServiceState) (now : String) (limit : Nat) : List String :=
  let lines :=
    [s!"{now} INFO {s.name} heartbeat ok"]
    ++ (if s.errorRate ≥ degradedErrorRate then
      [s!"{now} ERROR {s.name} elevated error rate=" ++ fixedPoint 2 s.errorRate] else [])
    ++ (if s.memoryPct ≥ degradedThreshold then
      [s!"{now} WARN {s.name} high memory usage=" ++ fixedPoint 0 s.memoryPct ++ "% possible leak"]
      else [])
    ++ (if s.cpuPct ≥ degradedThreshold then
      [s!"{now} WARN {s.name} high cpu utilization=" ++ fixedPoint 0 s.cpuPct ++ "%"] else [])
    ++ (if s.hasDisk ∧ s.diskPct ≥ degradedThreshold then
      [s!"{now} WARN {s.name} disk usage critical=" ++ fixedPoint 0 s.diskPct ++ "%"] else [])
    ++ (if s.forcedDown then [s!"{now} CRITICAL {s.name} service unresponsive"] else [])
  lines.reverse.take limit

def addFault (s : ServiceState) (fault : FaultType) : ServiceState :=
  if fault ∈ s.activeFaults then s else { s with activeFaults := s.activeFaults ++ [fault] }

def applyFault (s : ServiceState) (fault : FaultType) (rate : FaultRate) :
    Except PyError ServiceState :=
  match fault with
  | .memoryLeak => .ok ({ s with memoryPct := rateMagnitude rate }.addFault fault)
  | .cpuSpike => .ok ({ s with cpuPct := rateMagnitude rate }.addFault fault)
  | .highErrorRate => .ok ({ s with errorRate := rateErrorRate rate }.addFault fault)
  | .serviceDown => .ok ({ s with forcedDown := true, errorRate := 1 }.addFault fault)
  | .diskFull =>
    if s.hasDisk then .ok ({ s with diskPct := rateMagnitude rate }.addFault fault)
    else .error (.valueError s!"{s.name} has no disk surface")

/-- What a restart and a rollback both clear; a full disk stays full. -/
def clearTransient (s : ServiceState) : ServiceState :=
  { s with
    memoryPct := baselineMemoryPct
    cpuPct := baselineCpuPct
    errorRate := baselineErrorRate
    forcedDown := false
    activeFaults := s.activeFaults.filter (· = .diskFull) }

def restart (s : ServiceState) : ServiceState :=
  { s with restartCount := s.restartCount + 1 }.clearTransient

def cleanDisk (s : ServiceState) : Except PyError ServiceState :=
  if s.hasDisk then
    .ok { s with
      diskPct := baselineDiskPct
      activeFaults := s.activeFaults.filter (· ≠ .diskFull) }
  else .error (.valueError s!"{s.name} has no disk surface")

/-- The new state and the previous replica count. -/
def scale (s : ServiceState) (replicas : Int) : ServiceState × Int :=
  ({ s with replicas := replicas }, s.replicas)

def setConfig (s : ServiceState) (key value : String) : ServiceState × Option String :=
  ({ s with config := s.config.set key value }, s.config.get? key)

/-- Pops the deployed version; answers the popped one and the one below it. -/
def rollback (s : ServiceState) : Except PyError (ServiceState × String × String) := do
  if s.versionHistory.length < 2 then
    throw (.valueError s!"{s.name} has no prior version to roll back to")
  let previousCurrent ← s.deployedVersion
  let popped := { s with versionHistory := s.versionHistory.dropLast }.clearTransient
  let newCurrent ← popped.deployedVersion
  return (popped, previousCurrent, newCurrent)

/-- Deploying the version that is already current appends nothing. -/
def deploy (s : ServiceState) (version : String) : Except PyError (ServiceState × String) := do
  let previous ← s.deployedVersion
  if version ≠ previous then
    return ({ s with versionHistory := s.versionHistory ++ [version] }, previous)
  else return (s, previous)

def reset (s : ServiceState) : ServiceState :=
  { s with
    memoryPct := baselineMemoryPct
    cpuPct := baselineCpuPct
    diskPct := baselineDiskPct
    errorRate := baselineErrorRate
    forcedDown := false
    restartCount := 0
    activeFaults := []
    replicas := baselineReplicas
    config := baselineConfig
    versionHistory := baselineVersionHistory }

end ServiceState

/-! ### The HTTP surface -/

/-- A request to one service: its answer, or the failure the caller raises. -/
abbrev Endpoint (α : Type) : Type := Action ServiceState α

structure HealthResponse where
  service : String
  status : String
  restartCount : Int
  deriving DecidableEq, Repr

structure MetricsResponse where
  service : String
  memoryPct : ℚ
  cpuPct : ℚ
  errorRate : ℚ
  restartCount : Int
  replicas : Int
  deployedVersion : String
  diskPct : Option ℚ := none
  deriving DecidableEq, Repr

structure DiskResponse where
  service : String
  usedPct : ℚ
  deriving DecidableEq, Repr

structure RestartResponse where
  service : String
  restartCount : Int
  status : String
  deriving DecidableEq, Repr

structure ScaleResponse where
  service : String
  previousReplicas : Int
  replicas : Int
  deriving DecidableEq, Repr

structure ConfigResponse where
  service : String
  key : String
  previousValue : Option String
  value : String
  deriving DecidableEq, Repr

structure RollbackResponse where
  service : String
  rolledBackFrom : String
  deployedVersion : String
  deriving DecidableEq, Repr

structure DeployResponse where
  service : String
  previousVersion : String
  deployedVersion : String
  deriving DecidableEq, Repr

/-- `ServiceState(name=name, has_disk=has_disk, replicas=replicas)`. -/
def createApp (name : String) (hasDisk : Bool) (replicas : Int := baselineReplicas) :
    ServiceState :=
  { name := name, hasDisk := hasDisk, replicas := replicas }

/-- A handler that answers 400 to the `ValueError` of its operation. -/
def badRequest {α : Type} (x : Except PyError α) : Except PyError α :=
  match x with
  | .ok a => .ok a
  | .error _ => .error (.httpStatusError 400)

def getHealth (s : ServiceState) : Except PyError HealthResponse :=
  .ok { service := s.name, status := s.status.text, restartCount := s.restartCount }

def getMetrics (s : ServiceState) : Except PyError MetricsResponse := do
  let m ← s.metrics
  return {
    service := s.name
    memoryPct := m.memoryPct
    cpuPct := m.cpuPct
    errorRate := m.errorRate
    restartCount := m.restartCount
    replicas := m.replicas
    deployedVersion := m.deployedVersion
    diskPct := m.diskPct }

def getLogs (now : String) (limit : Nat) (s : ServiceState) : Except PyError (List String) :=
  .ok (s.logs now limit)

def getDisk (s : ServiceState) : Except PyError DiskResponse :=
  if s.hasDisk then .ok { service := s.name, usedPct := s.diskPct }
  else .error (.httpStatusError 404)

def postRestart : Endpoint RestartResponse := ⟨fun s =>
  let s' := s.restart
  (.ok { service := s'.name, restartCount := s'.restartCount, status := s'.status.text }, s')⟩

/-- `ScaleRequest(replicas: int)`. -/
def postScale (replicas : Int) : Endpoint ScaleResponse := ⟨fun s =>
  let (s', previous) := s.scale replicas
  (.ok { service := s'.name, previousReplicas := previous, replicas := s'.replicas }, s')⟩

/-- `ConfigRequest(key: str, value: str)`: a null value is answered with 422. -/
def postConfig (key : String) (value : Option String) : Endpoint ConfigResponse := ⟨fun s =>
  match value with
  | none => (.error (.httpStatusError 422), s)
  | some value =>
    let (s', previous) := s.setConfig key value
    (.ok { service := s'.name, key := key, previousValue := previous, value := value }, s')⟩

def postRollback : Endpoint RollbackResponse := ⟨fun s =>
  match badRequest s.rollback with
  | .error e => (.error e, s)
  | .ok (s', previousCurrent, newCurrent) =>
    (.ok { service := s'.name, rolledBackFrom := previousCurrent, deployedVersion := newCurrent },
      s')⟩

/-- `DeployRequest(version: str)`. -/
def postDeploy (version : String) : Endpoint DeployResponse := ⟨fun s =>
  match s.deploy version with
  | .error e => (.error e, s)
  | .ok (s', previous) =>
    match s'.deployedVersion with
    | .error e => (.error e, s')
    | .ok current =>
      (.ok { service := s'.name, previousVersion := previous, deployedVersion := current }, s')⟩

def postDiskClean : Endpoint DiskResponse := ⟨fun s =>
  if s.hasDisk then
    match s.cleanDisk with
    | .error e => (.error e, s)
    | .ok s' => (.ok { service := s'.name, usedPct := s'.diskPct }, s')
  else (.error (.httpStatusError 404), s)⟩

def postFault (fault : FaultType) (rate : FaultRate) : Endpoint Unit := ⟨fun s =>
  match badRequest (s.applyFault fault rate) with
  | .error e => (.error e, s)
  | .ok s' => (.ok (), s')⟩

def postReset : Endpoint Unit := ⟨fun s => (.ok (), s.reset)⟩

end MockService
