import Interlock.Execution

/-!
# What the side effects do

One specification for each tool: when its side effect returns, what it answers,
which compensation it registers, and the sandbox it leaves. The same for the
compensations.
-/

namespace Effects

open Dictionary PythonValues MockService RecordsTable Tools Execution

section Post

variable {α β : Type} {service : String} {endpoint : Endpoint α} {f : α → β} {b : β}
variable {ctx ctx' : ToolContext}

/-- A POST whose answer is put into a result. -/
theorem post_map_ok_iff :
    (post service endpoint >>= fun a => pure (f a)).run ctx = (.ok b, ctx') ↔
      ∃ s a s', ctx.clients.get? service = some s ∧ endpoint.run s = (.ok a, s') ∧ b = f a ∧
        ctx' = ctx.setClient service s' := by
  rw [Action.run_bind_ok_iff]
  constructor
  · rintro ⟨a, w, hpost, hpure⟩
    obtain ⟨s, s', hs, he, hw⟩ := post_ok_iff.mp hpost
    cases hpure
    exact ⟨s, a, s', hs, he, rfl, hw⟩
  · rintro ⟨s, a, s', hs, he, rfl, hw⟩
    exact ⟨a, ctx', post_ok_iff.mpr ⟨s, s', hs, he, hw⟩, rfl⟩

/-- The same where the service never refuses. -/
theorem post_answered_ok_iff {g : ServiceState → α} {k : ServiceState → ServiceState}
    (hrun : ∀ s, endpoint.run s = (.ok (g s), k s)) :
    (post service endpoint >>= fun a => pure (f a)).run ctx = (.ok b, ctx') ↔
      ∃ s, ctx.clients.get? service = some s ∧ b = f (g s) ∧
        ctx' = ctx.setClient service (k s) := by
  rw [post_map_ok_iff]
  constructor
  · rintro ⟨s, a, s', hs, he, rfl, rfl⟩
    rw [hrun] at he
    cases he
    exact ⟨s, hs, rfl, rfl⟩
  · rintro ⟨s, hs, rfl, rfl⟩
    exact ⟨s, _, _, hs, hrun s, rfl, rfl⟩

end Post

section Endpoints

variable {s s' : ServiceState}

theorem postScale_run (replicas : Int) (s : ServiceState) :
    (postScale replicas).run s =
      (.ok ⟨s.name, s.replicas, replicas⟩, { s with replicas := replicas }) := rfl

theorem postConfig_run (key value : String) (s : ServiceState) :
    (postConfig key (some value)).run s =
      (.ok ⟨s.name, key, s.config.get? key, value⟩, { s with config := s.config.set key value }) :=
  rfl

theorem postConfig_null (key : String) (s : ServiceState) :
    (postConfig key none).run s = (.error (.httpStatusError 422), s) := rfl

/-- The disk after a cleanup. -/
def cleaned (s : ServiceState) : ServiceState :=
  { s with diskPct := baselineDiskPct, activeFaults := s.activeFaults.filter (· ≠ .diskFull) }

/-- A cleanup that is refused changes nothing. -/
theorem postDiskClean_raise {e : PyError} (h : postDiskClean.run s = (.error e, s')) : s' = s := by
  simp only [postDiskClean] at h
  split at h
  · rename_i hdisk
    rw [ServiceState.cleanDisk, if_pos hdisk] at h
    cases h
  · cases h
    rfl

theorem postDiskClean_ok_iff {answer : DiskResponse} :
    postDiskClean.run s = (.ok answer, s') ↔
      s.hasDisk = true ∧ answer = ⟨s.name, baselineDiskPct⟩ ∧ s' = cleaned s := by
  by_cases hd : s.hasDisk = true
  · have hclean : s.cleanDisk = .ok (cleaned s) := if_pos hd
    have hrun : postDiskClean.run s = (.ok ⟨s.name, baselineDiskPct⟩, cleaned s) := by
      simp only [postDiskClean, if_pos hd, hclean]
      rfl
    rw [hrun]
    constructor
    · intro h
      cases h
      exact ⟨hd, rfl, rfl⟩
    · rintro ⟨_, rfl, rfl⟩
      rfl
  · have hrun : postDiskClean.run s = (.error (.httpStatusError 404), s) := if_neg hd
    rw [hrun]
    constructor
    · intro h
      cases h
    · rintro ⟨htrue, _⟩
      exact absurd htrue hd

/-- A history with a version to go back to. -/
theorem two_versions {l : List String} (h : 2 ≤ l.length) : ∃ older u v, l = older ++ [u, v] := by
  rcases List.eq_nil_or_concat l with rfl | ⟨l', v, rfl⟩
  · simp at h
  · rcases List.eq_nil_or_concat l' with rfl | ⟨older, u, rfl⟩
    · simp at h
    · exact ⟨older, u, v, by simp⟩

theorem rollback_popped {older : List String} {u v : String}
    (h : s.versionHistory = older ++ [u, v]) :
    s.rollback = .ok ({ s with versionHistory := older ++ [u] }.clearTransient, v, u) := by
  have hlen : ¬ s.versionHistory.length < 2 := by simp [h]
  have hlast : s.deployedVersion = .ok v := by
    simp [ServiceState.deployedVersion, h]
  have hdrop : s.versionHistory.dropLast = older ++ [u] := by
    rw [h, show older ++ [u, v] = (older ++ [u]) ++ [v] by simp, List.dropLast_concat]
  have hprevious : ({ s with versionHistory := older ++ [u] }.clearTransient).deployedVersion =
      .ok u := by
    simp [ServiceState.deployedVersion, ServiceState.clearTransient]
  simp only [ServiceState.rollback, if_neg hlen, hlast, hdrop, bind, Except.bind, pure, Except.pure]
  rw [hprevious]

/-- A history without a version to go back to is answered with 400. -/
theorem postRollback_short (h : s.versionHistory.length < 2) :
    postRollback.run s = (.error (.httpStatusError 400), s) := by
  have hrollback : ∃ e, s.rollback = .error e := by
    simp only [ServiceState.rollback, if_pos h]
    exact ⟨_, rfl⟩
  obtain ⟨e, he⟩ := hrollback
  simp only [postRollback, he, badRequest]

theorem postRollback_ok_iff {answer : RollbackResponse} :
    postRollback.run s = (.ok answer, s') ↔
      ∃ older u v, s.versionHistory = older ++ [u, v] ∧ answer = ⟨s.name, v, u⟩ ∧
        s' = { s with versionHistory := older ++ [u] }.clearTransient := by
  by_cases hlen : s.versionHistory.length < 2
  · constructor
    · intro h
      rw [postRollback_short hlen] at h
      cases h
    · rintro ⟨older, u, v, hversions, _⟩
      rw [hversions] at hlen
      simp at hlen
  · obtain ⟨older, u, v, hversions⟩ := two_versions (not_lt.mp hlen)
    have hrun : postRollback.run s = (.ok ⟨s.name, v, u⟩,
        { s with versionHistory := older ++ [u] }.clearTransient) := by
      simp only [postRollback, rollback_popped hversions, badRequest]
      rfl
    rw [hrun]
    constructor
    · intro h
      cases h
      exact ⟨older, u, v, hversions, rfl, rfl⟩
    · rintro ⟨older', u', v', hversions', rfl, rfl⟩
      have hsame : older ++ [u, v] = older' ++ [u', v'] := hversions.symm.trans hversions'
      obtain ⟨rfl, htail⟩ := List.append_inj' hsame rfl
      cases htail
      rfl

/-- A rollback that is refused changes nothing. -/
theorem postRollback_raise {e : PyError} (h : postRollback.run s = (.error e, s')) : s' = s := by
  simp only [postRollback] at h
  split at h
  · cases h
    rfl
  · cases h

/-- Deploying appends a version that is not the current one. -/
theorem postDeploy_run {older : List String} {u version : String}
    (h : s.versionHistory = older ++ [u]) :
    (postDeploy version).run s =
      (.ok ⟨s.name, u, version⟩, if version = u then s else
        { s with versionHistory := older ++ [u, version] }) := by
  have hlast : s.deployedVersion = .ok u := by simp [ServiceState.deployedVersion, h]
  by_cases hv : version = u
  · subst hv
    have hdeploy : s.deploy version = .ok (s, version) := by
      simp only [ServiceState.deploy, hlast, bind, Except.bind]
      simp [pure, Except.pure]
    simp [postDeploy, hdeploy, hlast]
  · have hdeploy : s.deploy version =
        .ok ({ s with versionHistory := older ++ [u, version] }, u) := by
      simp only [ServiceState.deploy, hlast, bind, Except.bind]
      simp [pure, Except.pure, hv, h]
    have hcurrent : ({ s with versionHistory := older ++ [u, version] } : ServiceState).deployedVersion =
        .ok version := by
      simp [ServiceState.deployedVersion]
    simp only [postDeploy, hdeploy, hcurrent, if_neg hv]

end Endpoints

section Faults

variable (s : ServiceState) (fault : FaultType)

theorem mem_addFault (other : FaultType) :
    other ∈ (s.addFault fault).activeFaults ↔ other ∈ s.activeFaults ∨ other = fault := by
  rw [ServiceState.addFault]
  split
  · rename_i hmem
    constructor
    · exact Or.inl
    · rintro (h | rfl)
      · exact h
      · exact hmem
  · simp

@[simp] theorem addFault_memoryPct : (s.addFault fault).memoryPct = s.memoryPct := by
  rw [ServiceState.addFault]
  split <;> rfl

@[simp] theorem addFault_cpuPct : (s.addFault fault).cpuPct = s.cpuPct := by
  rw [ServiceState.addFault]
  split <;> rfl

@[simp] theorem addFault_diskPct : (s.addFault fault).diskPct = s.diskPct := by
  rw [ServiceState.addFault]
  split <;> rfl

@[simp] theorem addFault_hasDisk : (s.addFault fault).hasDisk = s.hasDisk := by
  rw [ServiceState.addFault]
  split <;> rfl

@[simp] theorem addFault_forcedDown : (s.addFault fault).forcedDown = s.forcedDown := by
  rw [ServiceState.addFault]
  split <;> rfl

@[simp] theorem addFault_errorRate : (s.addFault fault).errorRate = s.errorRate := by
  rw [ServiceState.addFault]
  split <;> rfl

@[simp] theorem addFault_versionHistory :
    (s.addFault fault).versionHistory = s.versionHistory := by
  rw [ServiceState.addFault]
  split <;> rfl

variable {s fault}

/-- An injected fault leaves the disk surface and the versions of a service. -/
theorem applyFault_keeps {rate : FaultRate} {s' : ServiceState}
    (h : s.applyFault fault rate = .ok s') :
    s'.hasDisk = s.hasDisk ∧ s'.versionHistory = s.versionHistory := by
  cases fault with
  | diskFull =>
    rw [ServiceState.applyFault] at h
    split at h
    · cases h
      exact ⟨addFault_hasDisk _ _, addFault_versionHistory _ _⟩
    · cases h
  | _ =>
    cases h
    exact ⟨addFault_hasDisk _ _, addFault_versionHistory _ _⟩

end Faults

/-! ### The tools -/

section Tools

variable {service : String} {ctx ctx' : ToolContext} {o : Outcome}

theorem performRestartService_ok_iff :
    (performRestartService service).run ctx = (.ok o, ctx') ↔
      ∃ s, ctx.clients.get? service = some s ∧
        o = ⟨.restarted ⟨s.name, s.restartCount + 1, s.restart.status.text⟩,
          .noop "restart has no reversible side effect"⟩ ∧
        ctx' = ctx.setClient service s.restart :=
  post_answered_ok_iff fun _ => rfl

theorem performScaleService_ok_iff {replicas : Int} :
    (performScaleService service replicas).run ctx = (.ok o, ctx') ↔
      ∃ s, ctx.clients.get? service = some s ∧
        o = ⟨.scaled ⟨s.name, s.replicas, replicas⟩, .scaleService service s.replicas⟩ ∧
        ctx' = ctx.setClient service { s with replicas := replicas } :=
  post_answered_ok_iff (postScale_run replicas)

theorem performClearCache_ok_iff :
    (performClearCache service).run ctx = (.ok o, ctx') ↔
      ∃ s, ctx.clients.get? service = some s ∧ s.hasDisk = true ∧
        o = ⟨.diskCleaned ⟨s.name, baselineDiskPct⟩,
          .noop "cleared cache space cannot be restored"⟩ ∧
        ctx' = ctx.setClient service (cleaned s) := by
  rw [performClearCache, post_map_ok_iff]
  constructor
  · rintro ⟨s, a, s', hs, he, rfl, rfl⟩
    obtain ⟨hd, rfl, rfl⟩ := postDiskClean_ok_iff.mp he
    exact ⟨s, hs, hd, rfl, rfl⟩
  · rintro ⟨s, hs, hd, rfl, rfl⟩
    exact ⟨s, _, _, hs, postDiskClean_ok_iff.mpr ⟨hd, rfl, rfl⟩, rfl, rfl⟩

theorem performApplyConfigChange_ok_iff {key value : String} :
    (performApplyConfigChange service key value).run ctx = (.ok o, ctx') ↔
      ∃ s, ctx.clients.get? service = some s ∧
        o = ⟨.configured ⟨s.name, key, s.config.get? key, value⟩,
          .applyConfigChange service key (s.config.get? key)⟩ ∧
        ctx' = ctx.setClient service { s with config := s.config.set key value } :=
  post_answered_ok_iff (postConfig_run key value)

theorem performRollbackDeployment_ok_iff :
    (performRollbackDeployment service).run ctx = (.ok o, ctx') ↔
      ∃ s older u v, ctx.clients.get? service = some s ∧ s.versionHistory = older ++ [u, v] ∧
        o = ⟨.rolledBack ⟨s.name, v, u⟩, .deploy service v⟩ ∧
        ctx' = ctx.setClient service { s with versionHistory := older ++ [u] }.clearTransient := by
  rw [performRollbackDeployment, post_map_ok_iff]
  constructor
  · rintro ⟨s, a, s', hs, he, rfl, rfl⟩
    obtain ⟨older, u, v, hversions, rfl, rfl⟩ := postRollback_ok_iff.mp he
    exact ⟨s, older, u, v, hs, hversions, rfl, rfl⟩
  · rintro ⟨s, older, u, v, hs, hversions, rfl, rfl⟩
    exact ⟨s, _, _, hs, postRollback_ok_iff.mpr ⟨older, u, v, hversions, rfl, rfl⟩, rfl, rfl⟩

theorem performDeleteRecords_run (kind : String) (ids : Option (List Int)) (ctx : ToolContext) :
    (performDeleteRecords kind ids).run ctx =
      (.ok ⟨.deleted kind ((rowsToDelete ctx.records kind ids).map Row.id)
          ((rowsToDelete ctx.records kind ids).map Row.id).length,
        .reinsertRecords (rowsToDelete ctx.records kind ids)⟩,
      { ctx with
        records := ctx.records.delete ((rowsToDelete ctx.records kind ids).map Row.id) }) := rfl

/-- Only stored rows are picked for deletion, under their own ids. -/
theorem stored_of_mem_rowsToDelete {t : RecordsRepository} {kind : String}
    {ids : Option (List Int)} {r : Row} (h : r ∈ rowsToDelete t kind ids) :
    t.rows.get? r.id = some r := by
  cases ids with
  | some ids => exact (RecordsRepository.mem_getByIds.mp h).2
  | none =>
    have hkind : r ∈ t.getByKind (some kind) 1000000 := h
    exact RecordsRepository.stored_of_mem_getByKind hkind

end Tools

end Effects
