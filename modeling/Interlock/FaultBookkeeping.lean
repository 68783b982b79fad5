import Interlock.ServiceMethods

/-!
# The faults of a service

A service lists the faults that were injected into it and keeps readings that they
drive. Two faults share the error rate, a restart clears all but the full disk, and
cleaning clears only that. Along any calls the list and the readings agree.
-/

namespace FaultBookkeeping

open Dictionary PythonValues MockService Effects ServiceMethods

/-- The active faults are those that the readings show. -/
structure Agrees (s : ServiceState) : Prop where
  nodup : s.activeFaults.Nodup
  memory : .memoryLeak ∈ s.activeFaults ↔ baselineMemoryPct < s.memoryPct
  cpu : .cpuSpike ∈ s.activeFaults ↔ baselineCpuPct < s.cpuPct
  disk : .diskFull ∈ s.activeFaults ↔ baselineDiskPct < s.diskPct
  surface : .diskFull ∈ s.activeFaults → s.hasDisk = true
  down : .serviceDown ∈ s.activeFaults ↔ s.forcedDown = true
  errors : .highErrorRate ∈ s.activeFaults ∨ .serviceDown ∈ s.activeFaults ↔ 0 < s.errorRate

theorem rate_raises (rate : FaultRate) :
    baselineMemoryPct < rateMagnitude rate ∧ baselineCpuPct < rateMagnitude rate ∧
      baselineDiskPct < rateMagnitude rate ∧ 0 < rateErrorRate rate := by
  cases rate <;> norm_num [baselineMemoryPct, baselineCpuPct, baselineDiskPct, rateMagnitude,
    rateErrorRate]

theorem agrees_fresh (name : String) (hasDisk : Bool) (replicas : Int) :
    Agrees (createApp name hasDisk replicas) where
  nodup := .nil
  memory := by simp [createApp]
  cpu := by simp [createApp]
  disk := by simp [createApp]
  surface := by simp [createApp]
  down := by simp [createApp]
  errors := by simp [createApp, baselineErrorRate]

section Calls

variable {s s' : ServiceState}

theorem nodup_addFault (h : s.activeFaults.Nodup) (fault : FaultType) :
    (s.addFault fault).activeFaults.Nodup := by
  rw [ServiceState.addFault]
  split
  · exact h
  · rename_i hmem
    rw [List.nodup_append]
    exact ⟨h, List.nodup_singleton fault, by
      rintro a ha b hb rfl
      exact hmem (List.mem_singleton.mp hb ▸ ha)⟩

/-- Injecting a fault lists it and drives its own reading above the baseline. -/
theorem agrees_applyFault (h : Agrees s) {fault : FaultType} {rate : FaultRate}
    (happly : s.applyFault fault rate = .ok s') : Agrees s' := by
  obtain ⟨hmemory, hcpu, hdisk, herror⟩ := rate_raises rate
  cases fault with
  | memoryLeak =>
    cases happly
    exact {
      nodup := nodup_addFault (by exact h.nodup) _
      memory := by simp [mem_addFault, hmemory]
      cpu := by simpa [mem_addFault] using h.cpu
      disk := by simpa [mem_addFault] using h.disk
      surface := by simpa [mem_addFault] using h.surface
      down := by simpa [mem_addFault] using h.down
      errors := by simpa [mem_addFault] using h.errors }
  | cpuSpike =>
    cases happly
    exact {
      nodup := nodup_addFault (by exact h.nodup) _
      memory := by simpa [mem_addFault] using h.memory
      cpu := by simp [mem_addFault, hcpu]
      disk := by simpa [mem_addFault] using h.disk
      surface := by simpa [mem_addFault] using h.surface
      down := by simpa [mem_addFault] using h.down
      errors := by simpa [mem_addFault] using h.errors }
  | highErrorRate =>
    cases happly
    exact {
      nodup := nodup_addFault (by exact h.nodup) _
      memory := by simpa [mem_addFault] using h.memory
      cpu := by simpa [mem_addFault] using h.cpu
      disk := by simpa [mem_addFault] using h.disk
      surface := by simpa [mem_addFault] using h.surface
      down := by simpa [mem_addFault] using h.down
      errors := by simp [mem_addFault, herror] }
  | serviceDown =>
    cases happly
    exact {
      nodup := nodup_addFault (by exact h.nodup) _
      memory := by simpa [mem_addFault] using h.memory
      cpu := by simpa [mem_addFault] using h.cpu
      disk := by simpa [mem_addFault] using h.disk
      surface := by simpa [mem_addFault] using h.surface
      down := by simp [mem_addFault]
      errors := by simp [mem_addFault] }
  | diskFull =>
    rw [ServiceState.applyFault] at happly
    split at happly
    · rename_i hhas
      cases happly
      exact {
        nodup := nodup_addFault (by exact h.nodup) _
        memory := by simpa [mem_addFault] using h.memory
        cpu := by simpa [mem_addFault] using h.cpu
        disk := by simp [mem_addFault, hdisk]
        surface := fun _ => by simpa using hhas
        down := by simpa [mem_addFault] using h.down
        errors := by simpa [mem_addFault] using h.errors }
    · cases happly

/-- A restart and a rollback leave only a full disk. -/
theorem agrees_clearTransient (h : Agrees s) : Agrees s.clearTransient where
  nodup := h.nodup.filter _
  memory := by simp [ServiceState.clearTransient]
  cpu := by simp [ServiceState.clearTransient]
  disk := by simpa [ServiceState.clearTransient] using h.disk
  surface := by simpa [ServiceState.clearTransient] using h.surface
  down := by simp [ServiceState.clearTransient]
  errors := by simp [ServiceState.clearTransient, baselineErrorRate]

theorem agrees_cleanDisk (h : Agrees s) (hclean : s.cleanDisk = .ok s') : Agrees s' := by
  rw [ServiceState.cleanDisk] at hclean
  split at hclean
  · cases hclean
    exact {
      nodup := h.nodup.filter _
      memory := by simpa using h.memory
      cpu := by simpa using h.cpu
      disk := by simp
      surface := by simp
      down := by simpa using h.down
      errors := by simpa using h.errors }
  · cases hclean

theorem agrees_reset (s : ServiceState) : Agrees s.reset where
  nodup := .nil
  memory := by simp [ServiceState.reset]
  cpu := by simp [ServiceState.reset]
  disk := by simp [ServiceState.reset]
  surface := by simp [ServiceState.reset]
  down := by simp [ServiceState.reset]
  errors := by simp [ServiceState.reset, baselineErrorRate]

/-- A change of the version history, the replicas, the configuration or the restart
count moves no reading. -/
theorem agrees_of_same (h : Agrees s) (hfaults : s'.activeFaults = s.activeFaults)
    (hmemory : s'.memoryPct = s.memoryPct) (hcpu : s'.cpuPct = s.cpuPct)
    (hdisk : s'.diskPct = s.diskPct) (hsurface : s'.hasDisk = s.hasDisk)
    (hdown : s'.forcedDown = s.forcedDown) (herrors : s'.errorRate = s.errorRate) :
    Agrees s' where
  nodup := hfaults ▸ h.nodup
  memory := by rw [hfaults, hmemory]; exact h.memory
  cpu := by rw [hfaults, hcpu]; exact h.cpu
  disk := by rw [hfaults, hdisk]; exact h.disk
  surface := by rw [hfaults, hsurface]; exact h.surface
  down := by rw [hfaults, hdown]; exact h.down
  errors := by rw [hfaults, herrors]; exact h.errors

theorem agrees_outcome (h : Agrees s) {call : Call} (houtcome : call.outcome s = .ok s') :
    Agrees s' := by
  cases call with
  | applyFault fault rate => exact agrees_applyFault h houtcome
  | restart =>
    cases houtcome
    exact agrees_clearTransient (agrees_of_same h rfl rfl rfl rfl rfl rfl rfl)
  | cleanDisk => exact agrees_cleanDisk h houtcome
  | rollback =>
    obtain ⟨⟨s₁, popped, current⟩, hrollback, rfl⟩ := map_ok_iff.mp houtcome
    obtain ⟨older, _, rfl⟩ := rolled_back hrollback
    exact agrees_clearTransient (agrees_of_same h rfl rfl rfl rfl rfl rfl rfl)
  | deploy version =>
    obtain ⟨⟨s₁, previous⟩, hdeploy, rfl⟩ := map_ok_iff.mp houtcome
    obtain ⟨_, rfl⟩ := deployed hdeploy
    change Agrees (if version = previous then s else _)
    split
    · exact h
    · exact agrees_of_same h rfl rfl rfl rfl rfl rfl rfl
  | scale replicas =>
    cases houtcome
    exact agrees_of_same h rfl rfl rfl rfl rfl rfl rfl
  | setConfig key value =>
    cases houtcome
    exact agrees_of_same h rfl rfl rfl rfl rfl rfl rfl
  | reset =>
    cases houtcome
    exact agrees_reset s

end Calls

/-- Without faults every reading is at its baseline or below, far from a threshold. -/
theorem healthy_of_no_faults {s : ServiceState} (h : Agrees s) (hnone : s.activeFaults = []) :
    s.status = .healthy := by
  have hmemory := h.memory
  have hcpu := h.cpu
  have hdisk := h.disk
  have hdown := h.down
  have herrors := h.errors
  simp only [hnone, List.not_mem_nil, false_iff, or_self, not_lt, Bool.not_eq_true,
    baselineMemoryPct, baselineCpuPct, baselineDiskPct] at hmemory hcpu hdisk hdown herrors
  have hsurface : (if s.hasDisk then s.diskPct else 0) ≤ 30 := by
    split
    · exact hdisk
    · norm_num
  have hworst : max (max s.memoryPct s.cpuPct) (if s.hasDisk then s.diskPct else 0) ≤ 30 :=
    max_le (max_le (hmemory.trans (by norm_num)) (hcpu.trans (by norm_num))) hsurface
  have hrate : ¬ s.errorRate ≥ degradedErrorRate := by
    have hthreshold : (0 : ℚ) < degradedErrorRate := by norm_num [degradedErrorRate]
    exact not_le.mpr (herrors.trans_lt hthreshold)
  have hfailing : ¬ s.errorRate ≥ unhealthyErrorRate := by
    have hthreshold : (0 : ℚ) < unhealthyErrorRate := by norm_num [unhealthyErrorRate]
    exact not_le.mpr (herrors.trans_lt hthreshold)
  have hunder : ∀ threshold : ℚ, 30 < threshold →
      ¬ max (max s.memoryPct s.cpuPct) (if s.hasDisk then s.diskPct else 0) ≥ threshold :=
    fun threshold hthreshold => not_le.mpr (hworst.trans_lt hthreshold)
  rw [ServiceState.status, if_neg (by simp [hdown, hfailing]),
    if_neg (hunder unhealthyThreshold (by norm_num [unhealthyThreshold])),
    if_neg (by
      rintro (hworse | hrising)
      · exact hunder degradedThreshold (by norm_num [degradedThreshold]) hworse
      · exact hrate hrising)]

/-- Along any calls, raising ones included, the list of faults agrees with the readings;
a service without faults is healthy, and a call that raises changes nothing. -/
theorem faults_agree_with_readings (name : String) (hasDisk : Bool) (replicas : Int)
    (calls : List Call) :
    Agrees (after (createApp name hasDisk replicas) calls) ∧
      ((after (createApp name hasDisk replicas) calls).activeFaults = [] →
        (after (createApp name hasDisk replicas) calls).status.text = "healthy") ∧
      ∀ (call : Call) (e : PyError) (s' : ServiceState),
        call.method.run (after (createApp name hasDisk replicas) calls) = (.error e, s') →
          s' = after (createApp name hasDisk replicas) calls := by
  have hagrees := holds_after (fun _ _ _ h houtcome => agrees_outcome h houtcome)
    (agrees_fresh name hasDisk replicas) calls
  refine ⟨hagrees, ?_, ?_⟩
  · intro hnone
    rw [healthy_of_no_faults hagrees hnone]
    rfl
  · intro call e s' hraise
    exact unchanged_of_raise hraise

end FaultBookkeeping
