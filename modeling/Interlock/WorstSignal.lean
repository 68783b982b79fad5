import Interlock.FirstMaximum
import Interlock.Nodes
import Interlock.ProposalDomain

/-!
# The heuristic reasoner

Without a language model the harness proposes an action from the worst single signal of a
sweep. The signal it picks is the first of the largest, and whatever it picks the proposal
passes the check that language models are held to.
-/

namespace WorstSignal

open Dictionary PythonValues DiagnosticSweep Tools Nodes Fingerprint ProposalDomain FirstMaximum
open FloatRounding (nearest times nearest_nonneg)

/-- What is read of one service of an observations dict, where any metric may be missing
and the disk as well. A number stands for the double nearest to it. -/
structure Readings where
  memoryPct : Option ℚ := none
  cpuPct : Option ℚ := none
  errorRate : Option ℚ := none
  usedPct : Option ℚ := none
  deriving DecidableEq, Repr

/-- The signals of a service, in the order of the dict that holds them; the error rate is
multiplied as doubles are. -/
def signals (obs : Readings) : List (String × ℚ) :=
  [("memory_pct", nearest (obs.memoryPct.getD 0)), ("cpu_pct", nearest (obs.cpuPct.getD 0)),
    ("error_rate_pct", times (obs.errorRate.getD 0) 100)] ++
  match obs.usedPct with
  | some usedPct => [("disk_pct", nearest usedPct)]
  | none => []

/-- A service, one of its signals, and the score of that. -/
abbrev Signal : Type := String × String × ℚ

def score (worst : Signal) : ℚ := worst.2.2

/-- `max(signals.items(), key=lambda kv: kv[1])` of a service; it has three signals or four. -/
def largest (name : String) (obs : Readings) : Signal :=
  match (signals obs).argmax Prod.snd with
  | some (signal, score) => (name, signal, score)
  | none => (name, "", 0)

/-- Nothing for observations without a service, where `next` raises. -/
def worstSignal (services : Dict String Readings) : Option Signal :=
  match services.entries with
  | [] => none
  | first :: rest =>
    some ((first :: rest).foldl
      (fun worst e =>
        let found := largest e.1 e.2
        if score found > score worst then found else worst)
      (first.1, "status", -1))

/-- `HeuristicDiagnosisReasoner.propose_action`. -/
def proposeAction (services : Dict String Readings) : Option Proposal := do
  let (target, signal, _) ← worstSignal services
  let tool := if signal = "disk_pct" then "clear_cache" else "restart_service"
  return {
    tool := tool
    target := target
    parameters := some (.obj [])
    rationale := "heuristic reasoner: " ++ target ++ "'s worst signal was " ++ signal }

/-! ### Observations -/

/-- A sweep has every metric. -/
def readings (o : ServiceObservation) : Readings where
  memoryPct := some o.metrics.memoryPct
  cpuPct := some o.metrics.cpuPct
  errorRate := some o.metrics.errorRate
  usedPct := o.disk.map (·.usedPct)

def ofSweep (obs : Observations) : Dict String Readings := obs.services.map readings

/-- The readings of these observations: the same services, and the same disks. -/
def ReadFrom (obs : Observations) (services : Dict String Readings) : Prop :=
  ∀ name, (services.get? name).map Readings.usedPct =
    (obs.services.get? name).map fun o => o.disk.map (·.usedPct)

def Readings.NonNegative (obs : Readings) : Prop :=
  0 ≤ obs.memoryPct.getD 0 ∧ 0 ≤ obs.cpuPct.getD 0 ∧ 0 ≤ obs.errorRate.getD 0 ∧
    0 ≤ obs.usedPct.getD 0

instance (obs : Readings) : Decidable obs.NonNegative := by
  unfold Readings.NonNegative
  infer_instance

/-- The signals of all services, in the order of the services. -/
def allSignals (services : Dict String Readings) : List Signal :=
  services.entries.flatMap fun e => (signals e.2).map fun s => (e.1, s.1, s.2)

/-! ### The worst of them -/

section Worst

variable {services : Dict String Readings} {obs : Readings}

theorem largest_first (name : String) (obs : Readings) :
    IsFirst score (largest name obs) ((signals obs).map fun s => (name, s.1, s.2)) := by
  have hne : (signals obs).argmax Prod.snd ≠ none := by
    rw [Ne, List.argmax_eq_none]
    simp [signals]
  obtain ⟨⟨signal, value⟩, hmax⟩ := Option.ne_none_iff_exists'.mp hne
  rw [largest, hmax]
  have hfirst : IsFirst Prod.snd (signal, value) (signals obs) := isFirst_argmax hmax
  exact IsFirst.map (f := score) (g := fun s : String × ℚ => ((name, s.1, s.2) : Signal)) hfirst

theorem score_nonneg (h : obs.NonNegative) (name : String) : 0 ≤ score (largest name obs) := by
  have hmemory : (name, "memory_pct", nearest (obs.memoryPct.getD 0)) ∈
      (signals obs).map fun s => (name, s.1, s.2) := by
    simp [signals]
  exact (nearest_nonneg h.1).trans ((largest_first name obs).le hmemory)

/-- The worst signal is the first of the largest over all services. -/
theorem worstSignal_first (hne : services.entries ≠ [])
    (hnonneg : ∀ e ∈ services.entries, e.2.NonNegative) :
    ∃ worst, worstSignal services = some worst ∧ IsFirst score worst (allSignals services) := by
  cases hentries : services.entries with
  | nil => exact absurd hentries hne
  | cons first rest =>
    have hfirst : first ∈ services.entries := hentries ▸ List.mem_cons_self
    have hstart : score (first.1, "status", -1) < score (largest first.1 first.2) :=
      lt_of_lt_of_le (by norm_num [score]) (score_nonneg (hnonneg first hfirst) first.1)
    refine ⟨_, by rw [worstSignal, hentries], ?_⟩
    rw [allSignals, hentries]
    exact isFirst_foldl first rest (fun e _ => largest_first e.1 e.2) hstart

example : worstSignal (.ofList [
    ("service_a", { memoryPct := some (5699999999999999 / 10 ^ 14) }),
    ("service_b", { errorRate := some (57 / 100) })]) =
      some ("service_a", "memory_pct", times (57 / 100) 100) := by decide +kernel

/-- The signal of a disk is only there with a disk. -/
theorem mem_allSignals {worst : Signal} (h : worst ∈ allSignals services) :
    ∃ obs, services.get? worst.1 = some obs ∧
      (worst.2.1 = "disk_pct" → obs.usedPct.isSome = true) := by
  obtain ⟨⟨name, obs⟩, hentry, hsignal⟩ := List.mem_flatMap.mp h
  obtain ⟨⟨signal, value⟩, hs, rfl⟩ := List.mem_map.mp hsignal
  refine ⟨obs, Dict.mem_entries.mp hentry, ?_⟩
  rintro rfl
  cases hdisk : obs.usedPct with
  | some usedPct => rfl
  | none =>
    simp [signals, hdisk] at hs

end Worst

/-! ### The proposal -/

section Proposals

variable {obs : Observations} {services : Dict String Readings} {worst : Signal}

theorem readFrom_ofSweep (obs : Observations) : ReadFrom obs (ofSweep obs) := by
  intro name
  rw [ofSweep, Dict.get?_map, Option.map_map]
  rfl

/-- A service of the readings is a service of the observations, with a disk reading where
there is a disk. -/
theorem grounded_of_mem (hread : ReadFrom obs services) (h : worst ∈ allSignals services) :
    ∃ o, obs.services.get? worst.1 = some o ∧
      (worst.2.1 = "disk_pct" → o.disk.isSome = true) := by
  obtain ⟨readings, hreadings, hdisk⟩ := mem_allSignals h
  have hsame := hread worst.1
  rw [hreadings, Option.map_some] at hsame
  obtain ⟨o, ho, hused⟩ := Option.map_eq_some_iff.mp hsame.symm
  refine ⟨o, ho, ?_⟩
  intro hsignal
  have hsome := hdisk hsignal
  rw [← hused, Option.isSome_map] at hsome
  exact hsome

theorem proposeAction_eq (h : worstSignal services = some worst) :
    ∃ proposal, proposeAction services = some proposal ∧ proposal.target = worst.1 ∧
      proposal.tool = if worst.2.1 = "disk_pct" then "clear_cache" else "restart_service" := by
  rw [proposeAction, h]
  exact ⟨_, rfl, rfl, rfl⟩

/-- The proposal passes the check of proposals: the target is a service, and it has a disk
where the tool needs one. -/
theorem proposal_accepted (hread : ReadFrom obs services) (h : worst ∈ allSignals services)
    {proposal : Proposal} (htarget : proposal.target = worst.1)
    (htool : proposal.tool = if worst.2.1 = "disk_pct" then "clear_cache" else "restart_service") :
    validateProposal obs proposal.action = .ok none ∧
      (proposal.tool = "clear_cache" →
        ∃ o, obs.services.get? proposal.target = some o ∧ o.disk.isSome = true) := by
  obtain ⟨o, ho, hdisk⟩ := grounded_of_mem hread h
  have hclear : proposal.tool = "clear_cache" → worst.2.1 = "disk_pct" := by
    intro hclear
    by_contra hother
    rw [if_neg hother] at htool
    exact absurd (htool.symm.trans hclear) (by decide)
  have hknown : proposal.tool ∈ knownTools ∧ proposal.tool ≠ "delete_records" ∧
      ':' ∉ proposal.tool.toList := by
    rw [htool]
    split <;> decide
  have hsplit : splitColon proposal.action = .ok (proposal.tool, proposal.target) :=
    splitColon_exact proposal.target hknown.2.2
  constructor
  · rw [validateProposal_none_iff hsplit]
    refine ⟨⟨hknown.1, fun _ => ?_⟩, fun hdelete => absurd hdelete hknown.2.1⟩
    rw [htarget]
    exact ⟨o, ho, fun htool => hdisk (hclear htool)⟩
  · intro htool
    rw [htarget]
    exact ⟨o, ho, hdisk (hclear htool)⟩

end Proposals

/-- Over readings that are not negative the worst signal has the largest score of all, the
first of them among equals, and the proposed action is one that the check accepts. -/
theorem worst_signal_proposed {obs : Observations} {services : Dict String Readings}
    (hread : ReadFrom obs services) (hne : services.entries ≠ [])
    (hnonneg : ∀ e ∈ services.entries, e.2.NonNegative) :
    ∃ worst, worstSignal services = some worst ∧
      (worst ∈ allSignals services ∧ ∀ other ∈ allSignals services, score other ≤ score worst) ∧
      IsFirst score worst (allSignals services) ∧
      ∃ proposal, proposeAction services = some proposal ∧ proposal.target = worst.1 ∧
        validateProposal obs proposal.action = .ok none ∧
        (proposal.tool = "clear_cache" →
          ∃ o, obs.services.get? proposal.target = some o ∧ o.disk.isSome = true) := by
  obtain ⟨worst, hworst, hfirst⟩ := worstSignal_first hne hnonneg
  obtain ⟨proposal, hproposal, htarget, htool⟩ := proposeAction_eq hworst
  refine ⟨worst, hworst, ⟨hfirst.mem, fun other hother => hfirst.le hother⟩, hfirst, proposal,
    hproposal, htarget, ?_⟩
  exact proposal_accepted hread hfirst.mem htarget htool

/-- A sweep of two services, of which only the second has a disk. -/
def twoServices : Observations where
  services := .ofList [
    ("service_a", {
      health := { service := "service_a", status := "unhealthy", restartCount := 0 }
      metrics := {
        service := "service_a", memoryPct := 95, cpuPct := 15, errorRate := 0, restartCount := 0,
        replicas := 1, deployedVersion := "v1.2.0" }
      logs := [] }),
    ("service_c", {
      health := { service := "service_c", status := "unhealthy", restartCount := 0 }
      metrics := {
        service := "service_c", memoryPct := 20, cpuPct := 15, errorRate := 0, restartCount := 0,
        replicas := 1, deployedVersion := "v1.2.0", diskPct := some 95 }
      logs := []
      disk := some { service := "service_c", usedPct := 95 } })]
  records := []

theorem worst_of_two_services :
    ∃ worst, worstSignal (ofSweep twoServices) = some worst ∧
      (worst ∈ allSignals (ofSweep twoServices) ∧
        ∀ other ∈ allSignals (ofSweep twoServices), score other ≤ score worst) ∧
      IsFirst score worst (allSignals (ofSweep twoServices)) ∧
      ∃ proposal, proposeAction (ofSweep twoServices) = some proposal ∧
        proposal.target = worst.1 ∧ validateProposal twoServices proposal.action = .ok none ∧
        (proposal.tool = "clear_cache" →
          ∃ o, twoServices.services.get? proposal.target = some o ∧ o.disk.isSome = true) :=
  worst_signal_proposed (readFrom_ofSweep twoServices) (by decide) (by decide +kernel)

end WorstSignal
