import Interlock.Effects

/-!
# The methods of a service, statement by statement

A method of `ServiceState` changes the object in place, so a raise half way
would leave the assignments before it. Each method is written here in the order
of its statements, and shown to do what the service model computes at once: the
checks come first, and a method that raises has changed nothing.
-/

namespace ServiceMethods

open Dictionary PythonValues MockService Effects

/-- A method body: it may assign to the attributes of `self`, and raise. -/
abbrev Method (α : Type) : Type := Action ServiceState α

def assign (f : ServiceState → ServiceState) : Method Unit := ⟨fun s => (.ok (), f s)⟩

def look {α : Type} (f : ServiceState → α) : Method α := Action.read fun s => .ok (f s)

def raise {α : Type} (e : PyError) : Method α := Action.lift (.error e)

def deployedVersion : Method String := Action.read ServiceState.deployedVersion

/-- `if not self.has_disk: raise ValueError(...)`. -/
def requireDisk : Method Unit := do
  let self ← look id
  if !self.hasDisk then
    raise (.valueError s!"{self.name} has no disk surface")

def applyFault (faultType : FaultType) (rate : FaultRate) : Method Unit := do
  match faultType with
  | .memoryLeak => assign fun s => { s with memoryPct := rateMagnitude rate }
  | .cpuSpike => assign fun s => { s with cpuPct := rateMagnitude rate }
  | .highErrorRate => assign fun s => { s with errorRate := rateErrorRate rate }
  | .serviceDown =>
    assign fun s => { s with forcedDown := true }
    assign fun s => { s with errorRate := 1 }
  | .diskFull =>
    requireDisk
    assign fun s => { s with diskPct := rateMagnitude rate }
  if faultType ∉ (← look ServiceState.activeFaults) then
    assign fun s => { s with activeFaults := s.activeFaults ++ [faultType] }

/-- The assignments that end both `restart` and `rollback`. -/
def clearTransient : Method Unit := do
  assign fun s => { s with memoryPct := baselineMemoryPct }
  assign fun s => { s with cpuPct := baselineCpuPct }
  assign fun s => { s with errorRate := baselineErrorRate }
  assign fun s => { s with forcedDown := false }
  assign fun s => { s with activeFaults := s.activeFaults.filter (· = .diskFull) }

def restart : Method Unit := do
  assign fun s => { s with restartCount := s.restartCount + 1 }
  clearTransient

def cleanDisk : Method Unit := do
  requireDisk
  assign fun s => { s with diskPct := baselineDiskPct }
  assign fun s => { s with activeFaults := s.activeFaults.filter (· ≠ .diskFull) }

def scale (replicas : Int) : Method Int := do
  let previous ← look ServiceState.replicas
  assign fun s => { s with replicas := replicas }
  return previous

def setConfig (key value : String) : Method (Option String) := do
  let previous ← look fun s => s.config.get? key
  assign fun s => { s with config := s.config.set key value }
  return previous

/-- `self.version_history.pop()`. -/
def popVersion : Method String := ⟨fun s =>
  match s.versionHistory.getLast? with
  | some v => (.ok v, { s with versionHistory := s.versionHistory.dropLast })
  | none => (.error (.valueError "pop from empty list"), s)⟩

/-- `if len(self.version_history) < 2: raise ValueError(...)`. -/
def requirePrior : Method Unit := do
  let self ← look id
  if self.versionHistory.length < 2 then
    raise (.valueError s!"{self.name} has no prior version to roll back to")

/-- The version that was popped and the one that is deployed now. -/
def rollback : Method (String × String) := do
  requirePrior
  let previousCurrent ← popVersion
  clearTransient
  return (previousCurrent, ← deployedVersion)

/-- Answers the version that was deployed before. -/
def deploy (version : String) : Method String := do
  let previous ← deployedVersion
  if version ≠ previous then
    assign fun s => { s with versionHistory := s.versionHistory ++ [version] }
  return previous

def reset : Method Unit := do
  assign fun s => { s with memoryPct := baselineMemoryPct }
  assign fun s => { s with cpuPct := baselineCpuPct }
  assign fun s => { s with diskPct := baselineDiskPct }
  assign fun s => { s with errorRate := baselineErrorRate }
  assign fun s => { s with forcedDown := false }
  assign fun s => { s with restartCount := 0 }
  assign fun s => { s with activeFaults := [] }
  assign fun s => { s with replicas := baselineReplicas }
  assign fun s => { s with config := baselineConfig }
  assign fun s => { s with versionHistory := baselineVersionHistory }

/-! ### What the methods compute -/

/-- Running a computed result in place: the new state, or the old one with a raise. -/
def inPlace {α : Type} (x : Except PyError (ServiceState × α)) (s : ServiceState) :
    Except PyError α × ServiceState :=
  match x with
  | .ok (s', a) => (.ok a, s')
  | .error e => (.error e, s)

theorem inPlace_error {α : Type} {x : Except PyError (ServiceState × α)} {s s' : ServiceState}
    {e : PyError} (h : inPlace x s = (.error e, s')) : s' = s := by
  cases x with
  | ok answer => cases h
  | error e =>
    cases h
    rfl

theorem inPlace_ok {α : Type} {x : Except PyError (ServiceState × α)} {s s' : ServiceState}
    {a : α} (h : inPlace x s = (.ok a, s')) : x = .ok (s', a) := by
  cases x with
  | ok answer =>
    cases h
    rfl
  | error e => cases h

@[simp] theorem run_assign (f : ServiceState → ServiceState) (s : ServiceState) :
    (assign f).run s = (.ok (), f s) := rfl

@[simp] theorem run_look {α : Type} (f : ServiceState → α) (s : ServiceState) :
    (look f).run s = (.ok (f s), s) := rfl

@[simp] theorem run_deployedVersion (s : ServiceState) :
    deployedVersion.run s = (s.deployedVersion, s) := rfl

/-- A statement that returns hands its state to the next one. -/
theorem run_then {α β : Type} {x : Method α} {f : α → Method β} {a : α} {s s' : ServiceState}
    (h : x.run s = (.ok a, s')) : (x >>= f).run s = (f a).run s' :=
  Action.run_bind_of_ok h

theorem run_requireDisk (s : ServiceState) :
    requireDisk.run s =
      (if s.hasDisk then .ok () else .error (.valueError s!"{s.name} has no disk surface"), s) := by
  cases hdisk : s.hasDisk with
  | true => simp [requireDisk, Action.run_bind, hdisk]
  | false => simp [requireDisk, Action.run_bind, hdisk, raise]

/-- The last statement of `apply_fault` on any state. -/
theorem run_append (fault : FaultType) (s : ServiceState) :
    (do
      if fault ∉ (← look ServiceState.activeFaults) then
        assign fun s => { s with activeFaults := s.activeFaults ++ [fault] } : Method Unit).run s =
      (.ok (), s.addFault fault) := by
  by_cases hmem : fault ∈ s.activeFaults
  · simp [Action.run_bind, ServiceState.addFault, hmem]
  · simp [Action.run_bind, ServiceState.addFault, hmem]

theorem applyFault_run (fault : FaultType) (rate : FaultRate) (s : ServiceState) :
    (applyFault fault rate).run s = inPlace ((s.applyFault fault rate).map (·, ())) s := by
  cases fault with
  | diskFull =>
    cases hdisk : s.hasDisk with
    | true =>
      rw [ServiceState.applyFault, if_pos hdisk]
      have hrequire : requireDisk.run s = (.ok (), s) := by rw [run_requireDisk, if_pos hdisk]
      exact (run_then hrequire).trans (run_append _ _)
    | false =>
      have hraise := run_requireDisk s
      rw [if_neg (by simp [hdisk])] at hraise
      rw [ServiceState.applyFault, if_neg (by simp [hdisk])]
      exact Action.run_bind_of_error hraise
  | _ => exact run_append _ _

theorem cleanDisk_run (s : ServiceState) :
    cleanDisk.run s = inPlace (s.cleanDisk.map (·, ())) s := by
  cases hdisk : s.hasDisk with
  | true =>
    rw [ServiceState.cleanDisk, if_pos hdisk]
    exact run_then (by rw [run_requireDisk, if_pos hdisk])
  | false =>
    have hraise := run_requireDisk s
    rw [if_neg (by simp [hdisk])] at hraise
    rw [ServiceState.cleanDisk, if_neg (by simp [hdisk])]
    exact Action.run_bind_of_error hraise

theorem run_requirePrior (s : ServiceState) :
    requirePrior.run s =
      (if s.versionHistory.length < 2 then
          .error (.valueError s!"{s.name} has no prior version to roll back to")
        else .ok (), s) := by
  by_cases hlength : s.versionHistory.length < 2
  · simp only [requirePrior, Action.run_bind, run_look, id, if_pos hlength]
    rfl
  · simp only [requirePrior, Action.run_bind, run_look, id, if_neg hlength]
    rfl

theorem run_popVersion {s : ServiceState} {v : String} (h : s.versionHistory.getLast? = some v) :
    popVersion.run s = (.ok v, { s with versionHistory := s.versionHistory.dropLast }) := by
  simp only [popVersion, h]

theorem rollback_run (s : ServiceState) : rollback.run s = inPlace s.rollback s := by
  have hprior := run_requirePrior s
  by_cases hlength : s.versionHistory.length < 2
  · rw [if_pos hlength] at hprior
    rw [ServiceState.rollback, if_pos hlength]
    exact Action.run_bind_of_error hprior
  · rw [if_neg hlength] at hprior
    obtain ⟨older, u, v, hversions⟩ := two_versions (not_lt.mp hlength)
    have hlast : s.versionHistory.getLast? = some v := by simp [hversions]
    have hdrop : s.versionHistory.dropLast = older ++ [u] := by
      rw [hversions, show older ++ [u, v] = (older ++ [u]) ++ [v] by simp, List.dropLast_concat]
    have hpop := run_popVersion hlast
    rw [hdrop] at hpop
    -- nothing raises after the pop: the popped history still deploys a version
    have hnow : ({ s with versionHistory := older ++ [u] }.clearTransient).deployedVersion =
        .ok u := by
      simp [ServiceState.deployedVersion, ServiceState.clearTransient]
    have hclear : clearTransient.run { s with versionHistory := older ++ [u] } =
        (.ok (), { s with versionHistory := older ++ [u] }.clearTransient) := rfl
    rw [rollback, run_then hprior, run_then hpop, run_then hclear, Action.run_bind,
      run_deployedVersion, hnow, rollback_popped hversions]
    rfl

theorem deploy_run (version : String) (s : ServiceState) :
    (deploy version).run s = inPlace (s.deploy version) s := by
  rw [deploy, Action.run_bind, run_deployedVersion, ServiceState.deploy]
  cases hprevious : s.deployedVersion with
  | error e => rfl
  | ok previous =>
    by_cases hsame : version = previous
    · simp [hsame, inPlace, bind, Except.bind, pure, Except.pure]
    · simp [hsame, inPlace, bind, Except.bind, pure, Except.pure]

theorem map_ok_iff {α β : Type} {x : Except PyError α} {f : α → β} {b : β} :
    x.map f = .ok b ↔ ∃ a, x = .ok a ∧ f a = b := by
  cases x with
  | ok a => simp [Except.map]
  | error e => simp [Except.map]

/-- A method that rolled back had a version to go back to. -/
theorem rolled_back {s s' : ServiceState} {popped current : String}
    (h : s.rollback = .ok (s', popped, current)) :
    ∃ older, s.versionHistory = older ++ [current, popped] ∧
      s' = { s with versionHistory := older ++ [current] }.clearTransient := by
  by_cases hlength : s.versionHistory.length < 2
  · rw [ServiceState.rollback, if_pos hlength] at h
    cases h
  · obtain ⟨older, u, v, hversions⟩ := two_versions (not_lt.mp hlength)
    rw [rollback_popped hversions] at h
    cases h
    exact ⟨older, hversions, rfl⟩

/-- Deploying appends a version that is not the current one. -/
theorem deployed {s s' : ServiceState} {version previous : String}
    (h : s.deploy version = .ok (s', previous)) :
    s.deployedVersion = .ok previous ∧
      s' = if version = previous then s
        else { s with versionHistory := s.versionHistory ++ [version] } := by
  obtain ⟨before, hbefore, hrest⟩ := except_bind_ok_iff.mp h
  by_cases hsame : version = before
  · rw [if_neg (not_not.mpr hsame)] at hrest
    cases hrest
    exact ⟨hbefore, (if_pos hsame).symm⟩
  · rw [if_pos hsame] at hrest
    cases hrest
    exact ⟨hbefore, (if_neg hsame).symm⟩

/-! ### Sequences of calls -/

inductive Call where
  | applyFault (faultType : FaultType) (rate : FaultRate)
  | restart
  | cleanDisk
  | rollback
  | deploy (version : String)
  | scale (replicas : Int)
  | setConfig (key value : String)
  | reset
  deriving DecidableEq, Repr

/-- A call whose answer is dropped. -/
def Call.method : Call → Method Unit
  | .applyFault faultType rate => ServiceMethods.applyFault faultType rate
  | .restart => ServiceMethods.restart
  | .cleanDisk => ServiceMethods.cleanDisk
  | .rollback => do let _ ← ServiceMethods.rollback
  | .deploy version => do let _ ← ServiceMethods.deploy version
  | .scale replicas => do let _ ← ServiceMethods.scale replicas
  | .setConfig key value => do let _ ← ServiceMethods.setConfig key value
  | .reset => ServiceMethods.reset

/-- The state that the service model computes for a call that returns. -/
def Call.outcome (s : ServiceState) : Call → Except PyError ServiceState
  | .applyFault faultType rate => s.applyFault faultType rate
  | .restart => .ok s.restart
  | .cleanDisk => s.cleanDisk
  | .rollback => s.rollback.map (·.1)
  | .deploy version => (s.deploy version).map (·.1)
  | .scale replicas => .ok (s.scale replicas).1
  | .setConfig key value => .ok (s.setConfig key value).1
  | .reset => .ok s.reset

/-- The service after a call, whether it returned or raised. -/
def Call.apply (s : ServiceState) (call : Call) : ServiceState := (call.method.run s).2

def after (s : ServiceState) (calls : List Call) : ServiceState := calls.foldl Call.apply s

theorem inPlace_drop {α : Type} {x : Method α} {y : Except PyError (ServiceState × α)}
    {s : ServiceState} (h : x.run s = inPlace y s) :
    (do let _ ← x : Method Unit).run s = inPlace ((y.map (·.1)).map (·, ())) s := by
  rw [Action.run_bind, h]
  cases y with
  | ok answer => rfl
  | error e => rfl

/-- Every call does in place what the service model computes. -/
theorem method_run (call : Call) (s : ServiceState) :
    call.method.run s = inPlace ((call.outcome s).map (·, ())) s := by
  cases call with
  | applyFault fault rate => exact applyFault_run fault rate s
  | restart => rfl
  | cleanDisk => exact cleanDisk_run s
  | rollback => exact inPlace_drop (rollback_run s)
  | deploy version => exact inPlace_drop (deploy_run version s)
  | scale replicas => rfl
  | setConfig key value => rfl
  | reset => rfl

theorem unchanged_of_raise {call : Call} {s s' : ServiceState} {e : PyError}
    (h : call.method.run s = (.error e, s')) : s' = s := by
  rw [method_run] at h
  exact inPlace_error h

/-- What the outcomes of calls that return keep, a sequence of calls keeps,
the raising ones among them included. -/
theorem holds_after {P : ServiceState → Prop}
    (hstep : ∀ (call : Call) s s', P s → call.outcome s = .ok s' → P s') {s : ServiceState}
    (hs : P s) (calls : List Call) : P (after s calls) := by
  induction calls generalizing s with
  | nil => exact hs
  | cons call rest ih =>
    apply ih
    rw [Call.apply, method_run]
    cases houtcome : call.outcome s with
    | ok s' => exact hstep call s s' hs houtcome
    | error e => exact hs

end ServiceMethods
