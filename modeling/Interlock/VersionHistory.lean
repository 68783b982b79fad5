import Interlock.ReachableSandbox
import Interlock.ServiceMethods

/-!
# The versions that a service has deployed

A rollback pops the deployed version and deploying it again appends it, unless it is
deployed already. That undoes the rollback only because no version of the history is
followed by itself, which every call keeps.
-/

namespace VersionHistory

open Dictionary PythonValues MockService Effects ReachableSandbox ServiceMethods

variable {s s' : ServiceState}

theorem versions_fresh (name : String) (hasDisk : Bool) (replicas : Int) :
    Versions (createApp name hasDisk replicas) := by
  constructor
  · simp [createApp, baselineVersionHistory]
  · simp [createApp, baselineVersionHistory]

/-- A history that loses its last version keeps the ones before it apart. -/
theorem versions_popped {older : List String} {u v : String} (h : Versions s)
    (hversions : s.versionHistory = older ++ [u, v])
    (hpopped : s'.versionHistory = older ++ [u]) : Versions s' := by
  obtain ⟨_, hchain⟩ := h
  rw [hversions, List.isChain_append_cons_cons] at hchain
  rw [Versions, hpopped]
  exact ⟨by simp, hchain.1⟩

theorem deployed_of_versions (h : Versions s) : ∃ v, s.deployedVersion = .ok v := by
  obtain ⟨older, u, hlast⟩ := last_version h
  exact ⟨u, by simp [ServiceState.deployedVersion, hlast]⟩

theorem last_of_deployed {v : String} (h : s.deployedVersion = .ok v) :
    ∃ older, s.versionHistory = older ++ [v] := by
  rw [ServiceState.deployedVersion] at h
  cases hlast : s.versionHistory.getLast? with
  | none =>
    rw [hlast] at h
    cases h
  | some u =>
    rw [hlast] at h
    cases h
    exact List.getLast?_eq_some_iff.mp hlast

theorem versions_outcome (h : Versions s) {call : Call} (houtcome : call.outcome s = .ok s') :
    Versions s' := by
  cases call with
  | applyFault fault rate => exact versions_of_eq h (applyFault_keeps houtcome).2
  | restart =>
    cases houtcome
    exact versions_of_eq h rfl
  | cleanDisk =>
    simp only [Call.outcome, ServiceState.cleanDisk] at houtcome
    split at houtcome
    · cases houtcome
      exact versions_of_eq h rfl
    · cases houtcome
  | rollback =>
    obtain ⟨⟨s₁, popped, current⟩, hrollback, rfl⟩ := map_ok_iff.mp houtcome
    obtain ⟨older, hversions, rfl⟩ := rolled_back hrollback
    exact versions_popped h hversions rfl
  | deploy version =>
    obtain ⟨⟨s₁, previous⟩, hdeploy, rfl⟩ := map_ok_iff.mp houtcome
    obtain ⟨hprevious, rfl⟩ := deployed hdeploy
    obtain ⟨older, hlast⟩ := last_of_deployed hprevious
    change Versions (if version = previous then s else _)
    by_cases hsame : version = previous
    · rw [if_pos hsame]
      exact h
    · rw [if_neg hsame]
      obtain ⟨_, hchain⟩ := h
      rw [hlast] at hchain
      refine ⟨by simp, ?_⟩
      rw [hlast, List.append_assoc]
      exact List.isChain_append_cons_cons.mpr ⟨hchain, Ne.symm hsame, .singleton version⟩
  | scale replicas =>
    cases houtcome
    exact versions_of_eq h rfl
  | setConfig key value =>
    cases houtcome
    exact versions_of_eq h rfl
  | reset =>
    cases houtcome
    exact versions_reset s

/-- What was deployed below a version is not that version. -/
theorem changed_by_rollback (h : Versions s) {popped current : String}
    (hrollback : s.rollback = .ok (s', popped, current)) :
    s.deployedVersion = .ok popped ∧ s'.deployedVersion = .ok current ∧ current ≠ popped := by
  obtain ⟨older, hversions, rfl⟩ := rolled_back hrollback
  obtain ⟨_, hchain⟩ := h
  rw [hversions, List.isChain_append_cons_cons] at hchain
  refine ⟨?_, ?_, hchain.2.1⟩
  · simp [ServiceState.deployedVersion, hversions]
  · simp [ServiceState.deployedVersion, ServiceState.clearTransient]

theorem deploy_apply {older : List String} {u : String} (h : s.versionHistory = older ++ [u])
    (version : String) :
    Call.apply s (.deploy version) =
      if version = u then s else { s with versionHistory := s.versionHistory ++ [version] } := by
  have hdeployed : s.deployedVersion = .ok u := by simp [ServiceState.deployedVersion, h]
  rw [Call.apply, method_run, Call.outcome, ServiceState.deploy, hdeployed]
  by_cases hsame : version = u
  · simp [hsame, inPlace, bind, Except.bind, pure, Except.pure, Except.map]
  · simp [hsame, inPlace, bind, Except.bind, pure, Except.pure, Except.map]

/-- Deploying the deployed version changes nothing, any number of times. -/
theorem redeployed {older : List String} {v : String} (h : s.versionHistory = older ++ [v])
    (n : Nat) : after s (List.replicate n (.deploy v)) = s := by
  induction n with
  | zero => rfl
  | succ n ih =>
    change after (Call.apply s (.deploy v)) (List.replicate n (.deploy v)) = s
    rw [deploy_apply h, if_pos rfl]
    exact ih

theorem restored (h : Versions s) {popped current : String}
    (hrollback : s.rollback = .ok (s', popped, current)) (n : Nat) :
    (after s' (List.replicate (n + 1) (.deploy popped))).versionHistory = s.versionHistory := by
  obtain ⟨_, _, hne⟩ := changed_by_rollback h hrollback
  obtain ⟨older, hversions, rfl⟩ := rolled_back hrollback
  let t := { s with versionHistory := older ++ [current] }.clearTransient
  have hfirst : Call.apply t (.deploy popped) =
      { t with versionHistory := (older ++ [current]) ++ [popped] } := by
    rw [deploy_apply rfl, if_neg hne.symm]
    rfl
  change (after (Call.apply t (.deploy popped)) (List.replicate n (.deploy popped))).versionHistory
    = _
  rw [hfirst, redeployed rfl, hversions, List.append_assoc]
  rfl

/-- Along any calls the history is not empty and no version of it follows itself: there is
always a deployed version, a rollback changes it, and deploying the popped version at least
once restores the history. -/
theorem rollback_undone (name : String) (hasDisk : Bool) (replicas : Int) (calls : List Call) :
    Versions (after (createApp name hasDisk replicas) calls) ∧
      (∃ v, (after (createApp name hasDisk replicas) calls).deployedVersion = .ok v) ∧
      ∀ popped current s',
        rollback.run (after (createApp name hasDisk replicas) calls) =
            (.ok (popped, current), s') →
          s'.deployedVersion ≠ (after (createApp name hasDisk replicas) calls).deployedVersion ∧
          ∀ n, (after s' (List.replicate (n + 1) (.deploy popped))).versionHistory =
            (after (createApp name hasDisk replicas) calls).versionHistory := by
  have hversions := holds_after (fun _ _ _ h houtcome => versions_outcome h houtcome)
    (versions_fresh name hasDisk replicas) calls
  refine ⟨hversions, deployed_of_versions hversions, ?_⟩
  intro popped current s' hrun
  rw [rollback_run] at hrun
  have hrollback := inPlace_ok hrun
  obtain ⟨hbefore, hnow, hne⟩ := changed_by_rollback hversions hrollback
  constructor
  · rw [hbefore, hnow]
    rintro hsame
    exact hne (Except.ok.inj hsame)
  · exact restored hversions hrollback

end VersionHistory
