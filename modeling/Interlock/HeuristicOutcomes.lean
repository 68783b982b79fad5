import Interlock.HeuristicRuns
import Interlock.StalenessChanges

/-!
# When the agent without a language model gives up

Whether an unattended run completes can be read off the services that it starts with: only a
cleared disk can leave it without another idea.
-/

namespace HeuristicOutcomes

open Dictionary PythonValues MockService RecordsTable Tools DiagnosticSweep Nodes Graph
open InitialState
open HeuristicAgent HeuristicRuns
open Effects (cleaned)
open WorstSignal (Signal signals)
open FloatRounding (nearest nearest_mono times)

/-- The services after the action on the worst signal. -/
def treated (clients : Dict String ServiceState) (x : Signal) (s : ServiceState) :
    Dict String ServiceState := clients.set x.1 (treat x s)

/-- Clearing the disk does not help, and the agent proposes to clear it again: from the old
sweep, or because the disk is still the worst signal. -/
def GivesUp (clients : Dict String ServiceState) (x : Signal) (s : ServiceState) : Prop :=
  x.2.1 = "disk_pct" ∧ (cleaned s).status ≠ .healthy ∧
    (Autonomous x s ∨ ∃ y, worst (treated clients x s) = some y ∧ y.2.1 = "disk_pct")

/-! ### What the two actions cure -/

section Cures

variable {clients : Dict String ServiceState} {x y : Signal} {s u : ServiceState}

theorem baselines_calm : baselineMemoryPct < degradedThreshold ∧
    baselineCpuPct < degradedThreshold ∧ baselineDiskPct < degradedThreshold ∧
    baselineErrorRate < degradedErrorRate := by
  norm_num [baselineMemoryPct, baselineCpuPct, baselineDiskPct, baselineErrorRate,
    degradedThreshold, degradedErrorRate]

theorem baselines_rounded : nearest baselineMemoryPct < nearest degradedThreshold ∧
    nearest baselineCpuPct < nearest degradedThreshold ∧
    times baselineErrorRate 100 < nearest degradedThreshold := by
  decide +kernel

theorem healthy_of_calm (hdown : s.forcedDown = false) (hmemory : s.memoryPct < degradedThreshold)
    (hcpu : s.cpuPct < degradedThreshold)
    (hdisk : s.hasDisk = true → s.diskPct < degradedThreshold)
    (herror : s.errorRate < degradedErrorRate) : s.status = .healthy := by
  have hlimits : degradedThreshold < unhealthyThreshold ∧ degradedErrorRate < unhealthyErrorRate ∧
      0 < degradedThreshold := by
    norm_num [degradedThreshold, unhealthyThreshold, degradedErrorRate, unhealthyErrorRate]
  have hworst : max (max s.memoryPct s.cpuPct) (if s.hasDisk then s.diskPct else 0) <
      degradedThreshold := by
    refine max_lt (max_lt hmemory hcpu) ?_
    split
    · exact hdisk ‹_›
    · exact hlimits.2.2
  have hup : ¬ (s.forcedDown = true ∨ s.errorRate ≥ unhealthyErrorRate) := by
    rintro (h | h)
    · rw [hdown] at h
      cases h
    · exact absurd h (not_le.mpr (herror.trans hlimits.2.1))
  simp only [ServiceState.status, if_neg hup, if_neg (not_le.mpr (hworst.trans hlimits.1)),
    if_neg (not_or.mpr ⟨not_le.mpr hworst, not_le.mpr herror⟩)]

theorem restart_healthy (h : s.hasDisk = true → s.diskPct < degradedThreshold) :
    s.restart.status = .healthy :=
  healthy_of_calm rfl baselines_calm.1 baselines_calm.2.1 h baselines_calm.2.2.2

theorem cleaned_restart_healthy : (cleaned s.restart).status = .healthy :=
  healthy_of_calm rfl baselines_calm.1 baselines_calm.2.1 (fun _ => baselines_calm.2.2.1)
    baselines_calm.2.2.2

/-- A restart that does not help leaves a disk that is nearly full. -/
theorem full_of_restart (h : s.restart.status ≠ .healthy) :
    s.hasDisk = true ∧ degradedThreshold ≤ s.diskPct := by
  by_contra hcalm
  refine h (restart_healthy fun hdisk => ?_)
  exact not_le.mp fun hfull => hcalm ⟨hdisk, hfull⟩

/-- There is one disk. -/
theorem one_disk {name other : String} (hname : hasDisk name = true) (hother : hasDisk other = true)
    (hknown : name ∈ knownServices) (hknown' : other ∈ knownServices) : name = other := by
  have hall : ∀ a ∈ knownServices, ∀ b ∈ knownServices, hasDisk a = true → hasDisk b = true →
      a = b := by decide
  exact hall name hknown other hknown' hname hother

theorem treated_self : (treated clients x s).get? x.1 = some (treat x s) :=
  Dict.get?_set_self _ _ _

/-- The next proposal is the old one exactly if both are about the disk. -/
theorem same_action_iff (hx : Worst clients x s) (hsick : (treat x s).status ≠ .healthy)
    (hy : Worst (treated clients x s) y u) :
    action y = action x ↔ x.2.1 = "disk_pct" ∧ y.2.1 = "disk_pct" := by
  constructor
  · intro h
    have hsplit := action_split y
    rw [h, action_split x, Except.ok.injEq, Prod.mk.injEq] at hsplit
    obtain ⟨htool, hname⟩ := hsplit
    by_cases hsignal : x.2.1 = "disk_pct"
    · refine ⟨hsignal, ?_⟩
      by_contra hload
      rw [tool, tool, if_pos hsignal, if_neg hload] at htool
      exact absurd htool (by decide)
    · exfalso
      have hload : y.2.1 ≠ "disk_pct" := by
        intro hdisk
        rw [tool, tool, if_neg hsignal, if_pos hdisk] at htool
        exact absurd htool (by decide)
      have htreat : treat x s = s.restart := if_neg hsignal
      rw [htreat] at hsick
      obtain ⟨hdisk, hfull⟩ := full_of_restart hsick
      have hfound : (treated clients x s).get? x.1 = some s.restart := by
        rw [treated_self, htreat]
      have hu : u = s.restart := by
        have hfound' := hy.found
        rw [← hname, hfound, Option.some.injEq] at hfound'
        exact hfound'.symm
      have hle : nearest s.restart.diskPct ≤ y.2.2 :=
        hy.disk_le hx.known hfound (hx.disk.symm.trans hdisk)
      have hcalm : y.2.2 < nearest degradedThreshold := by
        rcases hy.load hload with hscore | hscore | hscore <;> rw [hscore, hu]
        · exact baselines_rounded.1
        · exact baselines_rounded.2.1
        · exact baselines_rounded.2.2
      exact absurd ((nearest_mono hfull).trans hle) (not_le.mpr hcalm)
  · rintro ⟨hsignal, hdisk⟩
    have hname : y.1 = x.1 :=
      one_disk (hy.has_disk hdisk) (hx.has_disk hsignal) hy.known hx.known
    rw [action, action, tool, tool, if_pos hsignal, if_pos hdisk, hname]

/-- Any other action helps. -/
theorem other_action_heals (hx : Worst clients x s) (hsick : (treat x s).status ≠ .healthy)
    (hy : Worst (treated clients x s) y u) (hother : action y ≠ action x) :
    (treat y u).status = .healthy := by
  have hsame : y.1 = x.1 → u = treat x s := by
    intro hname
    have hfound := hy.found
    rw [hname, treated_self, Option.some.injEq] at hfound
    exact hfound.symm
  by_cases hsignal : x.2.1 = "disk_pct"
  · have hload : y.2.1 ≠ "disk_pct" := fun hdisk =>
      hother ((same_action_iff hx hsick hy).mpr ⟨hsignal, hdisk⟩)
    rw [treat, if_neg hload]
    refine restart_healthy fun hdisk => ?_
    have hname := one_disk (hy.disk.symm.trans hdisk) (hx.has_disk hsignal) hy.known hx.known
    rw [hsame hname, treat, if_pos hsignal]
    exact baselines_calm.2.2.1
  · have htreat : treat x s = s.restart := if_neg hsignal
    rw [htreat] at hsick hsame
    obtain ⟨hdisk, _⟩ := full_of_restart hsick
    have hxdisk : hasDisk x.1 = true := hx.disk.symm.trans hdisk
    by_cases hload : y.2.1 = "disk_pct"
    · have hname := one_disk (hy.has_disk hload) hxdisk hy.known hx.known
      rw [treat, if_pos hload, hsame hname]
      exact cleaned_restart_healthy
    · rw [treat, if_neg hload]
      refine restart_healthy fun hudisk => ?_
      exfalso
      have hname := one_disk (hy.disk.symm.trans hudisk) hxdisk hy.known hx.known
      refine hother ?_
      rw [action, action, tool, tool, if_neg hsignal, if_neg hload, hname]

end Cures

/-! ### The last deed -/

section Rounds

variable {clients : Dict String ServiceState} {x y : Signal} {s u : ServiceState} {d : Deed}

theorem last_before {deed : Deed} {run : List Deed × Dict String ServiceState}
    (h : run.1.getLast? = some d) : (deed.before run).1.getLast? = some d := by
  rw [Deed.before, List.getLast?_cons, h]
  rfl

theorem last_concluded_healthy {next : Stand → List Deed × Dict String ServiceState} {st : Stand}
    {t : ServiceState} (ht : st.clients.get? x.1 = some t) (h : t.status = .healthy) :
    (concluded next x st).1.getLast? = some .completes := by
  refine last_before ?_
  rw [ht, Option.any_some, if_pos (decide_eq_true h)]
  rfl

theorem last_concluded {next : Stand → List Deed × Dict String ServiceState} {st : Stand}
    {t : ServiceState} (ht : st.clients.get? x.1 = some t) (h : t.status ≠ .healthy)
    (hnext : (next st).1.getLast? = some d) :
    (concluded next x st).1.getLast? = some d := by
  refine last_before ?_
  have hfalse : ¬ decide (t.status = .healthy) = true := by simpa using h
  rw [ht, Option.any_some, if_neg hfalse]
  exact hnext

theorem not_drifted (x : Signal) (s : ServiceState) : ¬ Drifted x s s := by
  unfold Drifted
  split <;> exact fun h => h rfl

/-- The last of three rounds, after an action that did not help. -/
theorem last_round (hx : Worst clients x s) (hsick : (treat x s).status ≠ .healthy)
    (hy : Worst (treated clients x s) y u) :
    (rounds 1 ⟨treated clients x s, treated clients x s, [action x]⟩).1.getLast? =
      some (if action y = action x then .escalates else .completes) := by
  have hconcluded : (concluded (rounds 0) y (Stand.act
      ⟨treated clients x s, treated clients x s, [action x]⟩ y u)).1.getLast? =
        some (if action y = action x then .escalates else .completes) := by
    by_cases hsame : action y = action x
    · rw [if_pos hsame, Stand.act, if_pos (List.mem_singleton.mpr hsame)]
      obtain ⟨hsignal, hdisk⟩ := (same_action_iff hx hsick hy).mp hsame
      have hname := one_disk (hy.has_disk hdisk) (hx.has_disk hsignal) hy.known hx.known
      refine last_concluded (t := treat x s) ?_ hsick rfl
      rw [hname]
      exact treated_self
    · rw [if_neg hsame, Stand.act, if_neg (mt List.mem_singleton.mp hsame)]
      exact last_concluded_healthy (Dict.get?_set_self _ _ _)
        (other_action_heals hx hsick hy hsame)
  simp only [rounds, hy.worst, hy.found, if_neg (not_drifted y u)]
  split
  · exact hconcluded
  · exact last_before hconcluded

/-- The last deed of a run that starts with these services. -/
theorem last_deed (h : Sandbox clients) (hx : Worst clients x s) :
    (GivesUp clients x s → (rounds 3 ⟨clients, clients, []⟩).1.getLast? = some .escalates) ∧
      (¬ GivesUp clients x s →
        (rounds 3 ⟨clients, clients, []⟩).1.getLast? = some .completes) := by
  have hact : Stand.act ⟨clients, clients, []⟩ x s =
      ⟨clients, treated clients x s, [action x]⟩ := rfl
  have hagain : ∀ seen, Stand.act ⟨seen, treated clients x s, [action x]⟩ x (treat x s) =
      ⟨seen, treated clients x s, [action x]⟩ := fun seen =>
    if_pos (List.mem_singleton.mpr rfl)
  have hfirst : rounds 3 ⟨clients, clients, []⟩ =
      if Autonomous x s then concluded (rounds 2) x ⟨clients, treated clients x s, [action x]⟩
      else Deed.before (.asks (action x))
        (concluded (rounds 2) x ⟨clients, treated clients x s, [action x]⟩) := by
    rw [rounds]
    simp only [hx.worst, hx.found, if_neg (not_drifted x s), hact]
  by_cases hwell : (treat x s).status = .healthy
  · have hnot : ¬ GivesUp clients x s := by
      rintro ⟨hsignal, hsick, _⟩
      rw [treat, if_pos hsignal] at hwell
      exact hsick hwell
    have hlast : (concluded (rounds 2) x
        ⟨clients, treated clients x s, [action x]⟩).1.getLast? = some .completes :=
      last_concluded_healthy treated_self hwell
    refine ⟨fun hgives => absurd hgives hnot, fun _ => ?_⟩
    rw [hfirst]
    split
    · exact hlast
    · exact last_before hlast
  · have hafter : ∀ {d : Deed} {n : ℕ} {seen : Dict String ServiceState},
        (rounds n ⟨seen, treated clients x s, [action x]⟩).1.getLast? = some d →
        (concluded (rounds n) x ⟨seen, treated clients x s, [action x]⟩).1.getLast? = some d :=
      fun hnext => last_concluded treated_self hwell hnext
    by_cases hauto : Autonomous x s
    · have hgives : GivesUp clients x s := by
        refine ⟨hauto.1, ?_, Or.inl hauto⟩
        rw [treat, if_pos hauto.1] at hwell
        exact hwell
      refine ⟨fun _ => ?_, fun hnot => absurd hgives hnot⟩
      have hround : ∀ n, rounds (n + 1) ⟨clients, treated clients x s, [action x]⟩ =
          concluded (rounds n) x ⟨clients, treated clients x s, [action x]⟩ := by
        intro n
        rw [rounds]
        simp only [hx.worst, hx.found, treated_self, if_pos hauto, hagain]
      rw [hfirst, if_pos hauto]
      refine hafter ?_
      rw [hround]
      refine hafter ?_
      rw [hround]
      exact hafter rfl
    · obtain ⟨y, u, hy⟩ := exists_worst (sandbox_treated h hx.found)
      have hlast := last_round hx hwell hy
      have hsecond : (rounds 2 ⟨clients, treated clients x s, [action x]⟩).1.getLast? =
          some (if action y = action x then .escalates else .completes) := by
        rw [rounds]
        simp only [hx.worst, hx.found, treated_self, if_neg hauto, hagain]
        refine last_before ?_
        split
        · exact hlast
        · exact hafter hlast
      have hgives : GivesUp clients x s ↔ action y = action x := by
        rw [same_action_iff hx hwell hy]
        constructor
        · rintro ⟨hsignal, _, hleft | ⟨z, hz, hdisk⟩⟩
          · exact absurd hleft hauto
          · have hsame : some y = some z := hy.worst.symm.trans hz
            cases hsame
            exact ⟨hsignal, hdisk⟩
        · rintro ⟨hsignal, hdisk⟩
          refine ⟨hsignal, ?_, Or.inr ⟨y, hy.worst, hdisk⟩⟩
          rw [treat, if_pos hsignal] at hwell
          exact hwell
      rw [hgives, hfirst, if_neg hauto]
      refine ⟨fun hsame => ?_, fun hsame => ?_⟩
      · rw [if_pos hsame] at hsecond
        exact last_before (hafter hsecond)
      · rw [if_neg hsame] at hsecond
        exact last_before (hafter hsecond)

end Rounds

/-! ### Runs -/

/-- An unattended run ends. It gives up exactly if clearing the disk does not help and is
proposed again, and completes otherwise. -/
theorem gives_up_iff {e : Surroundings} (he : Unattended e) {w : ToolContext}
    (hw : Sandbox w.clients) {runId : String}
    (hfresh : ∀ a, w.store.get? (idempotencyKey runId a) = none) :
    ∃ x s, Worst w.clients x s ∧ ∃ m, ∀ n,
      ((deeds ((started runId w).drive e (m + n))).getLast? = some .escalates ↔
        GivesUp w.clients x s) ∧
      ((deeds ((started runId w).drive e (m + n))).getLast? = some .completes ↔
        ¬ GivesUp w.clients x s) := by
  obtain ⟨x, s, hx⟩ := exists_worst hw
  obtain ⟨m, hm⟩ := (started_ends he hw hfresh).drive he
  obtain ⟨hgives, hcompletes⟩ := last_deed hw hx
  refine ⟨x, s, hx, m, fun n => ?_⟩
  obtain ⟨hdeeds, _⟩ := hm n
  rw [hdeeds]
  by_cases hup : GivesUp w.clients x s
  · rw [hgives hup]
    exact ⟨iff_of_true rfl hup, iff_of_false (by decide) (not_not.mpr hup)⟩
  · rw [hcompletes hup]
    exact ⟨iff_of_false (by decide) hup, iff_of_true rfl hup⟩

/-- A low error rate in `service_c` is less than its disk shows. -/
def erring : ToolContext := injectFault "service_c" .highErrorRate .low (freshSandbox [])

/-- The disk is cleared, and that is all that the agent thinks of. -/
theorem erring_gives_up :
    ∃ m, ∀ n, (deeds ((started "run-1" erring).drive harnessSurroundings (m + n))).getLast? =
      some .escalates := by
  obtain ⟨x, s, hx, m, hm⟩ := gives_up_iff harness_unattended
    (sandbox_of_check (by decide +kernel : sandboxHolds erring.clients = true))
    (fun a => (rfl : erring.store.get? (idempotencyKey "run-1" a) = none))
  have hworst : worst erring.clients = some ("service_c", "disk_pct", 30) := by decide +kernel
  cases Option.some.inj (hx.worst.symm.trans hworst)
  have hcheck : (erring.clients.get? "service_c").any (fun s => decide
      ((cleaned s).status ≠ .healthy ∧
        Autonomous ("service_c", "disk_pct", 30) s)) = true := by decide +kernel
  rw [hx.found, Option.any_some, decide_eq_true_eq] at hcheck
  exact ⟨m, fun n => (hm n).1.mpr ⟨rfl, hcheck.1, Or.inl hcheck.2⟩⟩

/-! ### One fault -/

/-- The deeds of the run against one injected fault. A low error rate is less than the disk
shows when nothing is wrong. -/
def response (service : String) (fault : FaultType) (rate : FaultRate) : List Deed :=
  if fault = .highErrorRate ∧ rate = .low then
    if service = "service_c" then
      List.replicate 3 (.executes "clear_cache:service_c") ++ [.escalates]
    else [.executes "clear_cache:service_c", .completes]
  else if fault = .diskFull then [.executes ("clear_cache:" ++ service), .completes]
  else [.asks ("restart_service:" ++ service), .executes ("restart_service:" ++ service),
    .completes]

/-- The harness's sandbox with one fault. -/
def faulty (service : String) (fault : FaultType) (rate : FaultRate) (rows : List Row) :
    ToolContext :=
  injectFault service fault rate (StalenessChanges.buildSandbox .empty rows)

def isHealthy (clients : Dict String ServiceState) (service : String) : Bool :=
  (clients.get? service).any fun s => decide (s.status = .healthy)

def faults : List FaultType := [.memoryLeak, .highErrorRate, .cpuSpike, .serviceDown, .diskFull]

def rates : List FaultRate := [.low, .medium, .high]

theorem rounds_of_fault : ∀ service ∈ knownServices, ∀ fault ∈ faults, ∀ rate ∈ rates,
    (fault = .diskFull → hasDisk service = true) →
    let clients := (faulty service fault rate []).clients
    sandboxHolds clients = true ∧
      (rounds 3 ⟨clients, clients, []⟩).1 = response service fault rate ∧
      isHealthy (rounds 3 ⟨clients, clients, []⟩).2 service =
        !decide (fault = .highErrorRate ∧ rate = .low) := by
  decide +kernel

theorem mem_faults (fault : FaultType) : fault ∈ faults := by cases fault <;> decide

theorem mem_rates (rate : FaultRate) : rate ∈ rates := by cases rate <;> decide

/-- The rows are beside the point, and nothing is in the ledger yet. -/
theorem faulty_rows (fault : FaultType) (rate : FaultRate) (rows : List Row) {service : String}
    (hservice : service ∈ knownServices) :
    (faulty service fault rate rows).clients = (faulty service fault rate []).clients ∧
      (faulty service fault rate rows).store = .empty := by
  simp only [knownServices, serviceRoles, List.map_cons, List.map_nil, List.mem_cons,
    List.not_mem_nil, or_false] at hservice
  rcases hservice with rfl | rfl | rfl <;> cases fault <;> exact ⟨rfl, rfl⟩

/-- Every fault that the harness can inject is answered with one action on the faulty service,
which cures it, but for a low error rate: that is below what the disk of `service_c` shows,
which is cleared instead, without anybody's approval. The run completes with the fault still
there, or gives up if it is in `service_c`. -/
theorem single_fault {e : Surroundings} (he : Unattended e) (runId : String) (rows : List Row)
    {service : String} (hservice : service ∈ knownServices) {fault : FaultType} (rate : FaultRate)
    (haccepted : fault = .diskFull → hasDisk service = true) :
    ∃ m, ∀ n, let run := started runId (faulty service fault rate rows)
      deeds (run.drive e (m + n)) = response service fault rate ∧
      (isHealthy (run.after e (m + n)).world.clients service = true ↔
        ¬ (fault = .highErrorRate ∧ rate = .low)) := by
  obtain ⟨hsandbox, hdeeds, hhealthy⟩ := rounds_of_fault service hservice fault (mem_faults fault)
    rate (mem_rates rate) haccepted
  obtain ⟨hclients, hstore⟩ := faulty_rows fault rate rows hservice
  rw [← hclients] at hsandbox hdeeds hhealthy
  have hfresh : ∀ a, (faulty service fault rate rows).store.get? (idempotencyKey runId a) =
      none := by
    intro a
    rw [hstore]
    rfl
  obtain ⟨m, hm⟩ := (started_ends he (sandbox_of_check hsandbox) hfresh).drive he
  refine ⟨m, fun n => ?_⟩
  obtain ⟨hrun, _, hleft, _⟩ := hm n
  refine ⟨hrun.trans hdeeds, ?_⟩
  rw [hleft, hhealthy, Bool.not_eq_true', decide_eq_false_iff_not]

/-- The run completes, and the fault is still there. -/
theorem fault_left_behind : ∃ m, ∀ n,
    let run := started "run-1" (faulty "service_a" .highErrorRate .low [])
    deeds (run.drive harnessSurroundings (m + n)) =
        [.executes "clear_cache:service_c", .completes] ∧
      ¬ isHealthy (run.after harnessSurroundings (m + n)).world.clients "service_a" = true := by
  obtain ⟨m, hm⟩ := single_fault harness_unattended "run-1" []
    (by decide : "service_a" ∈ knownServices) .low (fun h : FaultType.highErrorRate = .diskFull => by cases h)
  refine ⟨m, fun n => ?_⟩
  obtain ⟨hdeeds, hhealthy⟩ := hm n
  exact ⟨hdeeds, fun h => hhealthy.mp h ⟨rfl, rfl⟩⟩

end HeuristicOutcomes
