import Interlock.ClassifiedProposals
import Interlock.DriftDetection
import Interlock.InitialState
import Interlock.RedundancyFloor
import Interlock.WorstSignal

/-!
# The agent without a language model

Without a key for a language model the harness runs a heuristic reasoner and a heuristic
classifier. In a sandbox that nobody else changes, and with a reviewer who approves whatever is
proposed, their whole run follows from the worst signals of the sandbox.
-/

namespace HeuristicAgent

open Dictionary PythonValues MockService RecordsTable Tools DiagnosticSweep Fingerprint RiskPolicy
open Execution RunState Nodes Graph Policies InitialState WorstSignal FirstMaximum
open ClassifiedProposals (beforeColon)
open Effects (cleaned)
open Harness (harnessDecision)
open RedundancyFloor (situationOf situation_of_service)
open FloatRounding (binary64 nearest roundEven times)

/-! ### The reasoner and the classifier -/

/-- `f"{x:.0f}"` of a double that is not negative; a tie goes to the even neighbour. -/
def rounded (x : ℚ) : String :=
  if x < 2 ^ binary64.bound then toString (roundEven x) else "inf"

/-- `HeuristicDiagnosisReasoner.diagnose`. A sweep has its services, so that there is always
a worst signal. -/
def diagnose (obs : Observations) : String :=
  match worstSignal (ofSweep obs) with
  | some (service, signal, score) =>
    service ++ " shows the worst signal: " ++ signal ++ "=" ++ rounded score
  | none => ""

/-- `HeuristicRiskClassifier._TIERS`. -/
def tiers : List (String × String) :=
  [("clear_cache", "low"), ("scale_service", "low"), ("restart_service", "medium"),
    ("apply_config_change", "medium"), ("rollback_deployment", "high"), ("delete_records", "high")]

/-- `HeuristicRiskClassifier.classify`. -/
def classify (proposedAction : String) : Classification :=
  let tool := beforeColon proposedAction
  let tier := (lookup tiers tool).getD "medium"
  { tier := tier, rationale := "heuristic classifier: " ++ tool ++ " defaults to " ++ tier }

def heuristic : Policy where
  diagnose := diagnose
  propose obs _ _ := (WorstSignal.proposeAction (ofSweep obs)).getD { tool := "", target := "" }
  classify action _ _ _ := classify action

/-- Nobody else acts: only the time passes, and every proposal is approved as it is. The digest
has no collisions. -/
structure Unattended (e : Surroundings) : Prop where
  digest : Function.Injective e.digest
  policy : e.policy = heuristic
  decision : ∀ n, ∃ approverId, e.decision n = harnessDecision approverId
  others : ∀ n w, ∃ now, e.others n w = { w with now := now }

/-- The surroundings that the harness gives to a run without staleness. -/
def harnessSurroundings : Surroundings where
  digest := id
  policy := heuristic
  decision := fun _ => harnessDecision "eval-harness"
  clock := fun _ => ""
  others := fun _ w => w

theorem harness_unattended : Unattended harnessSurroundings where
  digest := Function.injective_id
  policy := rfl
  decision := fun _ => ⟨"eval-harness", rfl⟩
  others := fun _ w => ⟨w.now, rfl⟩

/-! ### What the services show -/

def look (service : String) (s : ServiceState) : Readings where
  memoryPct := some s.memoryPct
  cpuPct := some s.cpuPct
  errorRate := some s.errorRate
  usedPct := if hasDisk service then some s.diskPct else none

/-- What any sweep shows of the loads. -/
def snapshot (clients : Dict String ServiceState) : Dict String Readings :=
  .ofList (knownServices.filterMap fun name =>
    (clients.get? name).map fun s => (name, look name s))

/-- The worst signal of all services. -/
def worst (clients : Dict String ServiceState) : Option Signal := worstSignal (snapshot clients)

def tool (x : Signal) : String :=
  if x.2.1 = "disk_pct" then "clear_cache" else "restart_service"

def action (x : Signal) : String := tool x ++ ":" ++ x.1

/-- What the action makes of its target. -/
def treat (x : Signal) (s : ServiceState) : ServiceState :=
  if x.2.1 = "disk_pct" then cleaned s else s.restart

/-- Nobody is asked about an action that is classified low and not floored. -/
def Autonomous (x : Signal) (s : ServiceState) : Prop :=
  x.2.1 = "disk_pct" ∧ ¬ (s.replicas < minRedundantReplicas ∧ 1 ≤ s.restartCount)

instance (x : Signal) (s : ServiceState) : Decidable (Autonomous x s) := by
  unfold Autonomous
  infer_instance

/-- The fields that an approved restart is revalidated by. -/
def loads (s : ServiceState) : HealthStatus × ℚ × ℚ × ℚ :=
  (s.status, s.memoryPct, s.cpuPct, s.errorRate)

/-- What the action depends on is no longer as it was. -/
def Drifted (x : Signal) (s t : ServiceState) : Prop :=
  if x.2.1 = "disk_pct" then s.diskPct ≠ t.diskPct else loads s ≠ loads t

instance (x : Signal) (s t : ServiceState) : Decidable (Drifted x s t) := by
  unfold Drifted
  infer_instance

/-! ### Rounds -/

/-- What is seen of a run: the questions to the reviewer, the executions and the end. -/
inductive Deed where
  | asks (action : String)
  | executes (action : String)
  | completes
  | escalates
  deriving DecidableEq, Repr

/-- What a visit to a node shows. -/
def deedsAt (node : Node) (state : AgentState) : List Deed :=
  match node with
  | .awaitApproval => [.asks (shownText state.proposedAction)]
  | .execute => [.executes (shownText state.proposedAction)]
  | .completed => [.completes]
  | .escalate => [.escalates]
  | _ => []

def deeds (vs : List Visit) : List Deed := vs.flatMap fun v => deedsAt v.node v.before

/-- The services as the agent saw them last, the services as they are, and the actions that
the ledger holds. -/
structure Stand where
  seen : Dict String ServiceState
  clients : Dict String ServiceState
  done : List String := []

/-- An action that the ledger holds is not carried out again. -/
def Stand.act (st : Stand) (x : Signal) (t : ServiceState) : Stand :=
  if action x ∈ st.done then st
  else { st with clients := st.clients.set x.1 (treat x t), done := action x :: st.done }

def Deed.before (deed : Deed) (run : List Deed × Dict String ServiceState) :
    List Deed × Dict String ServiceState :=
  (deed :: run.1, run.2)

/-- The target is verified after the action. -/
def concluded (next : Stand → List Deed × Dict String ServiceState) (x : Signal) (st : Stand) :
    List Deed × Dict String ServiceState :=
  Deed.before (.executes (action x))
    (if (st.clients.get? x.1).any (fun t => decide (t.status = .healthy)) then
      ([.completes], st.clients)
    else next st)

/-- What the agent does, and what becomes of the services, if it gives up at the `n`th
failure from now on. -/
def rounds : ℕ → Stand → List Deed × Dict String ServiceState
  | 0, st => ([.escalates], st.clients)
  | n + 1, st =>
    match worst st.seen with
    | none => ([], st.clients)
    | some x =>
      match st.seen.get? x.1, st.clients.get? x.1 with
      | some s, some t =>
        if Autonomous x s then concluded (rounds n) x (st.act x t)
        else
          Deed.before (.asks (action x))
            (if Drifted x s t then rounds n { st with seen := st.clients }
            else concluded (rounds n) x ({ st with seen := st.clients }.act x t))
      | _, _ => ([], st.clients)

/-! ### The worst signal of a sandbox -/

/-- Every service is there with its disk and a version, and no reading is negative. -/
def Sandbox (clients : Dict String ServiceState) : Prop :=
  ∀ name ∈ knownServices, ∃ s, clients.get? name = some s ∧ s.hasDisk = hasDisk name ∧
    s.versionHistory ≠ [] ∧ (look name s).NonNegative

def sandboxHolds (clients : Dict String ServiceState) : Bool :=
  knownServices.all fun name => (clients.get? name).any fun s =>
    decide (s.hasDisk = hasDisk name ∧ s.versionHistory ≠ [] ∧ (look name s).NonNegative)

section Snapshots

variable {w : ToolContext} {clients : Dict String ServiceState} {obs : Observations} {x : Signal}
variable {s : ServiceState}

theorem sandbox_of_check (h : sandboxHolds clients = true) : Sandbox clients := by
  intro name hname
  obtain ⟨s, hs, hholds⟩ := (Option.any_eq_true _ _).mp (List.all_eq_true.mp h name hname)
  exact ⟨s, hs, of_decide_eq_true hholds⟩

theorem Sandbox.registered (h : Sandbox w.clients) : Registered w := by
  intro name hname
  obtain ⟨s, hs, hdisk, hversions, _⟩ := h name hname
  exact ⟨s, hs, hdisk, hversions⟩

theorem readings_of_sweep {service : String} {o : ServiceObservation}
    (h : observeService w service = .ok o) :
    ∃ s, w.clients.get? service = some s ∧ readings o = look service s := by
  obtain ⟨s, metrics, hs, hmetrics, _, rfl⟩ := observeService_ok h
  obtain ⟨data, hdata, hmetrics⟩ := except_bind_ok_iff.mp hmetrics
  obtain ⟨version, _, hdata⟩ := except_bind_ok_iff.mp hdata
  cases hdata
  cases hmetrics
  refine ⟨s, hs, ?_⟩
  rw [readings, look, shown]
  cases hasDisk service <;> rfl

/-- The reasoner reads the same from every sweep over these services. -/
theorem ofSweep_eq (h : gatherObservations w = .ok obs) : ofSweep obs = snapshot w.clients := by
  obtain ⟨services, hservices, hobs⟩ := except_bind_ok_iff.mp h
  cases hobs
  obtain ⟨oa, ha, hservices⟩ := except_bind_ok_iff.mp hservices
  obtain ⟨ob, hb, hservices⟩ := except_bind_ok_iff.mp hservices
  obtain ⟨oc, hc, hservices⟩ := except_bind_ok_iff.mp hservices
  cases hservices
  obtain ⟨sa, hsa, hra⟩ := readings_of_sweep ha
  obtain ⟨sb, hsb, hrb⟩ := readings_of_sweep hb
  obtain ⟨sc, hsc, hrc⟩ := readings_of_sweep hc
  have hsnapshot : snapshot w.clients = .ofList [("service_a", look "service_a" sa),
      ("service_b", look "service_b" sb), ("service_c", look "service_c" sc)] := by
    simp only [snapshot, knownServices, serviceRoles, List.map_cons, List.map_nil,
      List.filterMap_cons, List.filterMap_nil, hsa, hsb, hsc, Option.map_some]
  rw [hsnapshot, ← hra, ← hrb, ← hrc]
  rfl

theorem snapshot_entries (h : Sandbox clients) : (snapshot clients).entries =
    knownServices.filterMap fun name => (clients.get? name).map fun s => (name, look name s) := by
  obtain ⟨sa, hsa, _⟩ := h "service_a" (by decide)
  obtain ⟨sb, hsb, _⟩ := h "service_b" (by decide)
  obtain ⟨sc, hsc, _⟩ := h "service_c" (by decide)
  simp only [snapshot, knownServices, serviceRoles, List.map_cons, List.map_nil,
    List.filterMap_cons, List.filterMap_nil, hsa, hsb, hsc, Option.map_some]
  rfl

theorem mem_snapshot {name : String} {r : Readings} (h : Sandbox clients) :
    (name, r) ∈ (snapshot clients).entries ↔
      name ∈ knownServices ∧ ∃ s, clients.get? name = some s ∧ r = look name s := by
  rw [snapshot_entries h, List.mem_filterMap]
  constructor
  · rintro ⟨other, hother, hmap⟩
    obtain ⟨s, hs, hpair⟩ := Option.map_eq_some_iff.mp hmap
    cases hpair
    exact ⟨hother, s, hs, rfl⟩
  · rintro ⟨hname, s, hs, rfl⟩
    exact ⟨name, hname, by rw [hs]; rfl⟩

/-- The worst signal is one of its service, and no signal of any service is larger. -/
structure Worst (clients : Dict String ServiceState) (x : Signal) (s : ServiceState) : Prop where
  worst : worst clients = some x
  known : x.1 ∈ knownServices
  found : clients.get? x.1 = some s
  disk : s.hasDisk = hasDisk x.1
  signal : x.2 ∈ signals (look x.1 s)
  largest : ∀ name ∈ knownServices, ∀ t, clients.get? name = some t →
    ∀ g ∈ signals (look name t), g.2 ≤ x.2.2

theorem exists_worst (h : Sandbox clients) : ∃ x s, Worst clients x s := by
  have hne : (snapshot clients).entries ≠ [] := by
    obtain ⟨s, hs, _⟩ := h "service_a" (by decide)
    exact List.ne_nil_of_mem ((mem_snapshot h).mpr ⟨by decide, s, hs, rfl⟩)
  have hnonneg : ∀ e ∈ (snapshot clients).entries, e.2.NonNegative := by
    rintro ⟨name, r⟩ he
    obtain ⟨hname, s, hs, rfl⟩ := (mem_snapshot h).mp he
    obtain ⟨t, ht, _, _, hread⟩ := h name hname
    rw [hs, Option.some.injEq] at ht
    exact ht ▸ hread
  obtain ⟨x, hworst, hfirst⟩ := worstSignal_first hne hnonneg
  obtain ⟨⟨name, r⟩, he, hsignal⟩ := List.mem_flatMap.mp hfirst.mem
  obtain ⟨hname, s, hs, rfl⟩ := (mem_snapshot h).mp he
  obtain ⟨g, hg, rfl⟩ := List.mem_map.mp hsignal
  obtain ⟨t, ht, hdisk, _⟩ := h name hname
  rw [hs, Option.some.injEq] at ht
  subst ht
  refine ⟨_, s, hworst, hname, hs, hdisk, hg, ?_⟩
  intro other hother t ht g' hg'
  refine hfirst.le (List.mem_flatMap.mpr
    ⟨(other, look other t), ?_, List.mem_map.mpr ⟨g', hg', rfl⟩⟩)
  exact (mem_snapshot h).mpr ⟨hother, t, ht, rfl⟩

theorem signals_look (name : String) (s : ServiceState) : signals (look name s) =
    [("memory_pct", nearest s.memoryPct), ("cpu_pct", nearest s.cpuPct),
      ("error_rate_pct", times s.errorRate 100)] ++
      if hasDisk name then [("disk_pct", nearest s.diskPct)] else [] := by
  rw [signals, look]
  cases hasDisk name <;> rfl

/-- A signal is one of the loads, or that of a disk. -/
theorem signal_cases {name : String} {g : String × ℚ} (h : g ∈ signals (look name s)) :
    (g.1 ≠ "disk_pct" ∧
      (g.2 = nearest s.memoryPct ∨ g.2 = nearest s.cpuPct ∨ g.2 = times s.errorRate 100)) ∨
      (hasDisk name = true ∧ g = ("disk_pct", nearest s.diskPct)) := by
  have hnames : "memory_pct" ≠ "disk_pct" ∧ "cpu_pct" ≠ "disk_pct" ∧
      "error_rate_pct" ≠ "disk_pct" := by decide
  rw [signals_look, List.mem_append] at h
  rcases h with hload | hdisk
  · simp only [List.mem_cons, List.not_mem_nil, or_false] at hload
    rcases hload with rfl | rfl | rfl
    · exact Or.inl ⟨hnames.1, Or.inl rfl⟩
    · exact Or.inl ⟨hnames.2.1, Or.inr (Or.inl rfl)⟩
    · exact Or.inl ⟨hnames.2.2, Or.inr (Or.inr rfl)⟩
  · split at hdisk
    · rename_i hname
      exact Or.inr ⟨hname, List.mem_singleton.mp hdisk⟩
    · cases hdisk

theorem Worst.has_disk (h : Worst clients x s) (hsignal : x.2.1 = "disk_pct") :
    hasDisk x.1 = true := by
  rcases signal_cases h.signal with ⟨hload, _⟩ | ⟨hdisk, _⟩
  · exact absurd hsignal hload
  · exact hdisk

theorem Worst.load (h : Worst clients x s) (hsignal : x.2.1 ≠ "disk_pct") :
    x.2.2 = nearest s.memoryPct ∨ x.2.2 = nearest s.cpuPct ∨ x.2.2 = times s.errorRate 100 := by
  rcases signal_cases h.signal with ⟨_, hload⟩ | ⟨_, hdisk⟩
  · exact hload
  · rw [hdisk] at hsignal
    exact absurd rfl hsignal

/-- No disk is fuller than the worst signal. -/
theorem Worst.disk_le (h : Worst clients x s) {name : String} {t : ServiceState}
    (hname : name ∈ knownServices) (ht : clients.get? name = some t)
    (hdisk : hasDisk name = true) : nearest t.diskPct ≤ x.2.2 := by
  refine h.largest name hname t ht ("disk_pct", nearest t.diskPct) ?_
  rw [signals_look, if_pos hdisk]
  simp

end Snapshots

end HeuristicAgent
