import Interlock.Dispatching
import Interlock.InitialState

/-!
# Two bodies for one run

Two requests that differ in their initial state only lead to the same run, with at most
`MAX_REPLAN_CYCLES` replans, exactly if the entries that are read before they are written
agree and no count is preset below zero.
-/

namespace Presets

open Dictionary PythonValues MockService RecordsTable Tools DiagnosticSweep Fingerprint RiskPolicy
open Execution RunState Nodes Graph
open Walks Service Policies InitialState
open Crashes (auditable_merge)
open Dispatching (executeAction_hit executeAction_miss)
open Effects (performRestartService_ok_iff)
open EditedActions (registered_freshSandbox validateProposal_total)
open FloatRounding (le_nearest le_plus)
open NodeRuns (replan_run)

/-! ### The counted replans -/

section Counting

variable {j k : Json} {n : ℕ} {b : Bool}

/-- A count that was raised once can be raised again, and stays above the cap. -/
theorem atLeast_next (h : j.addOne = .ok k) (hk : k.atLeast maxReplanCycles = .ok b) :
    ∃ l b', k.addOne = .ok l ∧ l.atLeast maxReplanCycles = .ok b' ∧ (b = true → b' = true) := by
  cases j with
  | bool v =>
    cases h
    cases hk
    refine ⟨_, _, rfl, rfl, ?_⟩
    simp only [decide_eq_true_eq]
    omega
  | int n =>
    cases h
    cases hk
    refine ⟨_, _, rfl, rfl, ?_⟩
    simp only [decide_eq_true_eq]
    omega
  | float x =>
    cases h
    cases hk
    refine ⟨_, _, rfl, rfl, ?_⟩
    simp only [decide_eq_true_eq]
    intro hx
    exact le_nearest (by decide) (le_plus (by decide) hx (by norm_num))
  | nan =>
    cases h
    exact ⟨_, b, rfl, hk, id⟩
  | infinity negative =>
    cases h
    exact ⟨_, b, rfl, hk, id⟩
  | _ => cases h

theorem addOne_of_capReached (h : capReached j n = some b) : ∃ k, j.addOne = .ok k := by
  cases hj : j.addOne with
  | error e =>
    rw [capReached_raised hj] at h
    cases h
  | ok k => exact ⟨k, rfl⟩

/-- The cap once reached stays reached. -/
theorem capReached_next (h : capReached j n = some b) :
    ∃ b', capReached j (n + 1) = some b' ∧ (b = true → b' = true) := by
  obtain ⟨k, hk⟩ := addOne_of_capReached h
  induction n generalizing j k with
  | zero =>
    obtain ⟨b₀, hb₀⟩ := atLeast_of_addOne hk
    rw [capReached_zero hk, hb₀] at h
    cases h
    obtain ⟨l, b', hl, hb', hle⟩ := atLeast_next hk hb₀
    refine ⟨b', ?_, hle⟩
    rw [capReached_succ hk, capReached_zero hl, hb']
    rfl
  | succ n ih =>
    rw [capReached_succ hk] at h
    obtain ⟨l, hl⟩ := addOne_of_capReached h
    rw [capReached_succ hk]
    exact ih h l hl

theorem capReached_some (h : j.addOne = .ok k) (n : ℕ) : ∃ b, capReached j n = some b := by
  induction n with
  | zero =>
    obtain ⟨b, hb⟩ := atLeast_of_addOne h
    exact ⟨b, by rw [capReached_zero h, hb]; rfl⟩
  | succ n ih =>
    obtain ⟨b, hb⟩ := ih
    obtain ⟨b', hb', _⟩ := capReached_next hb
    exact ⟨b', hb'⟩

theorem capReached_before (h : capReached j (n + 1) = some false) : capReached j n = some false := by
  obtain ⟨k, hk⟩ := addOne_of_capReached h
  obtain ⟨b, hn⟩ := capReached_some hk n
  obtain ⟨b', hb', hle⟩ := capReached_next hn
  rw [h, Option.some.injEq] at hb'
  subst hb'
  cases b with
  | false => exact hn
  | true => cases hle rfl

theorem capReached_stays {i : ℕ} (h : capReached j i = some true) (hle : i ≤ n) :
    capReached j n = some true := by
  induction hle with
  | refl => exact h
  | step _ ih =>
    obtain ⟨b', hb', hreached⟩ := capReached_next ih
    rw [hb', hreached rfl]

/-- A count that cannot be raised once can never be. -/
theorem capReached_never {i : ℕ} (h : capReached j i = none) : capReached j n = none := by
  cases hj : j.addOne with
  | error e => exact capReached_raised hj n
  | ok k =>
    obtain ⟨b, hb⟩ := capReached_some hj i
    rw [h] at hb
    cases hb

end Counting

/-! ### How often a run replans -/

section Capped

variable {e : Surroundings} {c : Config} {m n k r : ℕ} {node : Node}

theorem replans_eq (vs : List Visit) : replans vs = (vs.map Visit.node).count .replan := by
  rw [List.count, List.countP_map]
  rfl

/-- A turn leaves the checkpoint as it is, or it is a visit to the next node. -/
theorem turn_cases (e : Surroundings) (n k : ℕ) (c : Config) :
    (∃ c', e.turn n k c = (none, c') ∧ c'.state = c.state ∧ c'.next = c.next) ∨
      ∃ v c', e.turn n k c = (some v, c') ∧ c.next = some v.node ∧ v.before = c.state ∧
        v.after = c'.state ∧ v.Led { digest := e.digest } c'.next := by
  rcases Option.eq_none_or_eq_some c.next with hc | ⟨node, hc⟩
  · exact Or.inl ⟨_, turn_none hc, rfl, rfl⟩
  · rw [turn_at hc]
    rcases attempt_cases (c := e.entered n c) hc with ⟨world, hraised⟩ | ⟨c', hvisit, hled⟩
    · exact Or.inl ⟨_, hraised, rfl, rfl⟩
    · exact Or.inr ⟨_, c', hvisit, hc, rfl, rfl, hled⟩

theorem replans_missed {c' : Config} (h : e.turn n k c = (none, c')) :
    replans (e.drive (m + 1) n k c) = replans (e.drive m (n + 1) (Surroundings.asked k c) c') := by
  rw [Surroundings.drive, h]
  rfl

theorem replans_visited {v : Visit} {c' : Config} (h : e.turn n k c = (some v, c')) :
    replans (e.drive (m + 1) n k c) = (if v.node = .replan then 1 else 0) +
      replans (e.drive m (n + 1) (Surroundings.asked k c) c') := by
  rw [Surroundings.drive, h, Option.toList_some, List.singleton_append, replans, List.countP_cons,
    Nat.add_comm]
  simp only [decide_eq_true_eq]
  rfl

/-- A run that has ended, or is about to, replans no more. -/
theorem replans_ending (hnext : c.next = none ∨ c.next = some .escalate ∨ c.next = some .completed) :
    replans (e.drive m n k c) = 0 := by
  induction m generalizing n k c with
  | zero => rfl
  | succ m ih =>
    rcases turn_cases e n k c with ⟨c', hturn, _, hnext'⟩ | ⟨v, c', hturn, hnode, _, _, hled⟩
    · rw [replans_missed hturn]
      apply ih
      rw [hnext']
      exact hnext
    · have hedge := led_edge hled
      have hended : c'.next = none ∧ v.node ≠ .replan := by
        rw [hnode] at hnext
        generalize v.node = node at hnext hedge ⊢
        generalize c'.next = next at hedge ⊢
        rcases hnext with hnext | hnext | hnext
        · cases hnext
        · cases hnext
          cases hedge
          exact ⟨rfl, by decide⟩
        · cases hnext
          cases hedge
          exact ⟨rfl, by decide⟩
      rw [replans_visited hturn, if_neg hended.2, ih (Or.inl hended.1)]

/-- A run whose `r`-th further replan would be the last makes one more at most. -/
theorem replans_le (hcap : capReached (replanCyclesOf c.state) r ≠ some false) :
    replans (e.drive m n k c) ≤ r + 1 := by
  induction m generalizing n k r c with
  | zero => exact Nat.zero_le _
  | succ m ih =>
    rcases turn_cases e n k c with ⟨c', hturn, hstate, _⟩ | ⟨v, c', hturn, _, hbefore, hafter, hled⟩
    · rw [replans_missed hturn]
      apply ih
      rw [hstate]
      exact hcap
    · rw [replans_visited hturn]
      by_cases hreplan : v.node = .replan
      · rw [if_pos hreplan]
        obtain ⟨_, cycles, hcounting, hwritten⟩ := led_replan hled hreplan
        rw [hafter] at hwritten
        have hcounted : replanCyclesOf c'.state = cycles := by rw [hwritten]; rfl
        have hcycles : (replanCyclesOf c.state).addOne = .ok cycles := hbefore ▸ hcounting
        have hedge := led_edge hled
        rw [hreplan] at hedge
        generalize hnext : c'.next = next at hedge
        cases hedge with
        | @replanned k' hk' hbelow =>
          rw [hafter, hwritten, Option.some.injEq] at hk'
          subst hk'
          cases r with
          | zero =>
            rw [capReached_zero hcycles, hbelow] at hcap
            exact absurd rfl hcap
          | succ r =>
            rw [capReached_succ hcycles, ← hcounted] at hcap
            have hrest := ih (n := n + 1) (k := Surroundings.asked k c) hcap
            omega
        | exhausted _ _ =>
          rw [replans_ending (Or.inr (Or.inl hnext))]
          omega
      · rw [if_neg hreplan, Nat.zero_add]
        apply ih
        rw [replanCyclesOf, ← hafter, (led_marksKept hled).replanCycles hreplan, hbefore]
        exact hcap

end Capped

/-! ### A reasoner that insists -/

/-- Whatever is seen, the same proposal of a low tier, in a sandbox that nobody else
changes. -/
def insisting (tool target : String) : Surroundings where
  digest := id
  policy :=
    { diagnose := fun _ => ""
      propose := fun _ _ _ => { tool := tool, target := target }
      classify := fun _ _ _ _ => { tier := "low" } }
  decision := fun _ => .null
  clock := fun _ => ""
  others := fun _ => id

/-- A visit that does not ask for a decision, in whichever attempt. -/
structure Visits (e : Surroundings) (c : Config) (v : Visit) (c' : Config) : Prop where
  turn : ∀ n k, e.turn n k c = (some v, c')
  next : c.next = some v.node
  before : v.before = c.state
  worldAfter : v.worldAfter = c'.world
  quiet : v.node ≠ .awaitApproval

section Visits

variable {e : Surroundings} {c c' d d' : Config} {v v' : Visit} {m n k : ℕ}

theorem drive_visited (h : Visits e c v c') :
    e.drive (m + 1) n k c = v :: e.drive m (n + 1) k c' := by
  have hasked : Surroundings.asked k c = k := by
    rw [Surroundings.asked, h.next, if_neg fun hnode => h.quiet (Option.some.inj hnode)]
  rw [Surroundings.drive, h.turn, hasked]
  rfl

theorem drive_stuck (h : ∀ n k, e.turn n k c = (none, c)) : e.drive m n k c = [] := by
  induction m generalizing n k with
  | zero => rfl
  | succ m ih =>
    rw [Surroundings.drive, h]
    exact ih

/-- Two runs that are seen alike are seen alike after a visit of each. -/
theorem seen_of_visits (h : ∀ m, (e.drive m n k c).map seen = (e.drive m n k d).map seen)
    (hc : Visits e c v c') (hd : Visits e d v' d') :
    seen v = seen v' ∧
      ∀ m, (e.drive m (n + 1) k c').map seen = (e.drive m (n + 1) k d').map seen := by
  have hcons : ∀ m, seen v = seen v' ∧
      (e.drive m (n + 1) k c').map seen = (e.drive m (n + 1) k d').map seen := by
    intro m
    have hnext := h (m + 1)
    rw [drive_visited hc, drive_visited hd, List.map_cons, List.map_cons, List.cons.injEq] at hnext
    exact hnext
  exact ⟨(hcons 0).1, fun m => (hcons m).2⟩

/-- Several visits in a row. -/
inductive Path (e : Surroundings) : Config → List Visit → Config → Prop where
  | nil {c : Config} : Path e c [] c
  | cons {c c' c'' : Config} {v : Visit} {vs : List Visit} (h : Visits e c v c')
      (rest : Path e c' vs c'') : Path e c (v :: vs) c''

theorem Path.append {vs ws : List Visit} (h : Path e c vs c') (h' : Path e c' ws d) :
    Path e c (vs ++ ws) d := by
  induction h with
  | nil => exact h'
  | cons hv _ ih => exact .cons hv (ih h')

theorem seen_of_paths {vs ws : List Visit}
    (h : ∀ m, (e.drive m n k c).map seen = (e.drive m n k d).map seen) (hc : Path e c vs c')
    (hd : Path e d ws d') (hlength : vs.length = ws.length) :
    ∃ n', ∀ m, (e.drive m n' k c').map seen = (e.drive m n' k d').map seen := by
  induction hc generalizing n d ws with
  | nil =>
    cases hd with
    | nil => exact ⟨n, h⟩
    | cons _ _ => cases hlength
  | cons hv _ ih =>
    cases hd with
    | nil => cases hlength
    | cons hw hrest =>
      exact ih (seen_of_visits h hv hw).2 hrest (Nat.succ.inj hlength)

end Visits

section Insisting

variable {tool target : String} {c : Config} {w : ToolContext} {obs : Observations}

/-- A node that returns an update without a decision is visited. -/
theorem visits_of_update {node : Node} {update : Update} {next : Option Node}
    (hnext : c.next = some node) (h : Auditable c.state)
    (hfn : (nodeFn { digest := id } ((insisting tool target).policy.answers node .null "" c.state
      c.world) node c.state).run c.world = (.ok update, w))
    (hquiet : node ≠ .awaitApproval) (happrover : writtenApprover update = none)
    (hdecision : writtenDecision update = none)
    (hroute : nextNode { digest := id } node (c.state.merge update) = .ok next) :
    ∃ v log, Visits (insisting tool target) c v ⟨c.state.merge update, next, w, log⟩ ∧
      v.node = node := by
  have hrecord : ∃ record, auditRecord
      ((insisting tool target).policy.answers node .null "" c.state c.world).clock node c.state
        update = .ok record :=
    (auditRecord_ok_iff _ node).mpr ⟨auditable_merge h update, h.status,
      by rw [happrover]; exact isText_none, by rw [hdecision]; exact isText_none⟩
  obtain ⟨log, hvisit⟩ := attempt_visited hnext hfn hrecord hroute
  refine ⟨⟨node, (insisting tool target).policy.answers node .null "" c.state c.world, c.state,
    c.world, c.state.merge update, w⟩, log, ⟨fun n k => ?_, hnext, rfl, rfl, hquiet⟩, rfl⟩
  rw [turn_at hnext]
  exact hvisit

/-- What a run holds from its diagnosis on. -/
structure Diagnosing (s : AgentState) (obs : Observations) : Prop where
  auditable : Auditable s
  observations : s.observations = some obs
  diagnosis : ∃ d, s.diagnosis = some d

variable (tool target) in
theorem diagnosing_visited (hnext : c.next = some .diagnose) (h : Auditable c.state)
    (hobs : gatherObservations c.world = .ok obs) :
    ∃ v c', Visits (insisting tool target) c v c' ∧ c'.next = some .proposeAction ∧
      c'.world = c.world ∧ Diagnosing c'.state obs ∧ c'.state.runId = c.state.runId ∧
      replanContextOf c'.state = replanContextOf c.state ∧
      replanCyclesOf c'.state = replanCyclesOf c.state ∧ leftover c'.state = leftover c.state := by
  have hread : (Action.read gatherObservations : Action ToolContext Observations).run c.world =
      (.ok obs, c.world) := by rw [Action.run_read, hobs]
  have hfn : (nodeFn { digest := id } ((insisting tool target).policy.answers .diagnose .null ""
      c.state c.world) .diagnose c.state).run c.world = (.ok [.status .diagnosing,
        .observations obs, .diagnosis ((insisting tool target).policy.diagnosis c.world)],
        c.world) := by
    change (diagnose ((insisting tool target).policy.diagnosis c.world)).run c.world = _
    rw [diagnose, Action.run_bind_of_ok hread]
    rfl
  obtain ⟨v, log, hvisits, _⟩ := visits_of_update hnext h hfn (by decide) rfl rfl rfl
  exact ⟨v, _, hvisits, rfl, rfl, ⟨auditable_merge h _, rfl, _, rfl⟩, rfl, rfl, rfl, rfl⟩

/-- A proposal leads on by what its validation says. -/
theorem proposing_visited {reason fingerprint : Option String}
    (hnext : c.next = some .proposeAction) (h : Diagnosing c.state obs)
    (hreason : validateProposal obs (tool ++ ":" ++ target) = .ok reason)
    (hanchor : anchorProposal { digest := id } obs (tool ++ ":" ++ target) reason =
      .ok fingerprint) :
    ∃ v c', Visits (insisting tool target) c v c' ∧ v.node = .proposeAction ∧
      c'.next = some (if textTruthy (some reason) then .replan else .classifyRisk) ∧
      c'.world = c.world ∧ Diagnosing c'.state obs ∧ c'.state.runId = c.state.runId ∧
      c'.state.proposedAction = some (.str (tool ++ ":" ++ target)) ∧
      c'.state.actionParameters = some (.obj []) ∧
      c'.state.invalidProposalReason = some reason ∧
      replanCyclesOf c'.state = replanCyclesOf c.state ∧
      leftover c'.state = leftover c.state := by
  obtain ⟨hauditable, hobs, d, hdiagnosis⟩ := h
  have hproposal : (insisting tool target).policy.proposal c.state =
      { tool := tool, target := target } := by
    rw [Policy.proposal, hobs, hdiagnosis]
    rfl
  have hfn : (nodeFn { digest := id } ((insisting tool target).policy.answers .proposeAction .null
      "" c.state c.world) .proposeAction c.state).run c.world = (.ok [.status .actionProposed,
        .proposedAction (tool ++ ":" ++ target), .actionParameters (.obj []), .actionRationale "",
        .stateFingerprint fingerprint, .invalidProposalReason reason], c.world) := by
    change (Action.lift (proposeAction _ ((insisting tool target).policy.proposal c.state)
      c.state)).run c.world = _
    rw [Action.run_lift, hproposal, proposeAction, hobs]
    simp only [required_some, bind, Except.bind, Proposal.action, hreason, hanchor]
    rfl
  obtain ⟨v, log, hvisits, hnode⟩ :=
    visits_of_update hnext hauditable hfn (by decide) rfl rfl rfl
  exact ⟨v, _, hvisits, hnode, rfl, rfl, ⟨auditable_merge hauditable _, hobs, d, hdiagnosis⟩,
    rfl, rfl, rfl, rfl, rfl, rfl⟩

theorem replanning_visited {j : Json} {b : Bool} (hnext : c.next = some .replan)
    (h : Diagnosing c.state obs) (hj : (replanCyclesOf c.state).addOne = .ok j)
    (hb : j.atLeast maxReplanCycles = .ok b) :
    ∃ v c', Visits (insisting tool target) c v c' ∧ v.node = .replan ∧
      c'.next = some (if b then .escalate else .proposeAction) ∧ c'.world = c.world ∧
      Diagnosing c'.state obs ∧ replanCyclesOf c'.state = j ∧
      replanContextOf c'.state = .str (replanReason c.state) := by
  obtain ⟨hauditable, hobs, d, hdiagnosis⟩ := h
  have hroute : nextNode { digest := id } .replan (c.state.merge [.status .replanning,
      .replanCycles j, .replanContext (replanReason c.state)]) =
        .ok (some (if b then .escalate else .proposeAction)) := by
    rw [replan_next, hb]
    rfl
  obtain ⟨v, log, hvisits, hnode⟩ :=
    visits_of_update hnext hauditable (replan_run hj) (by decide) rfl rfl hroute
  exact ⟨v, _, hvisits, hnode, rfl, rfl, ⟨auditable_merge hauditable _, hobs, d, hdiagnosis⟩,
    rfl, rfl⟩

/-- A replan that does not reach the cap tells the reasoner why. -/
theorem replanned_on (hnext : c.next = some .replan) (h : Diagnosing c.state obs)
    (hfirst : capReached (replanCyclesOf c.state) 0 = some false) :
    ∃ v c', Visits (insisting tool target) c v c' ∧ c'.next = some .proposeAction ∧
      Diagnosing c'.state obs ∧ replanContextOf c'.state = .str (replanReason c.state) := by
  obtain ⟨j, hj⟩ := addOne_of_capReached hfirst
  obtain ⟨b, hb⟩ := atLeast_of_addOne hj
  rw [capReached_zero hj, hb] at hfirst
  cases hfirst
  obtain ⟨v, c', hvisits, _, hnext', _, hdiagnosing, _, hcontext⟩ :=
    replanning_visited hnext h hj hb
  exact ⟨v, c', hvisits, hnext', hdiagnosing, hcontext⟩

theorem replanning_stuck {e : PyError} (hnext : c.next = some .replan)
    (h : (replanCyclesOf c.state).addOne = .error e) (n k : ℕ) :
    (insisting tool target).turn n k c = (none, c) := by
  rw [turn_at hnext]
  exact attempt_raised hnext (replan_run_error h)

theorem escalating_visited (hnext : c.next = some .escalate) (h : Auditable c.state) :
    ∃ v c', Visits (insisting tool target) c v c' ∧ v.node = .escalate := by
  have hfn : (nodeFn { digest := id } ((insisting tool target).policy.answers .escalate .null ""
      c.state c.world) .escalate c.state).run c.world = (.ok escalate, c.world) := rfl
  obtain ⟨v, log, hvisits, hnode⟩ := visits_of_update hnext h hfn (by decide) rfl rfl rfl
  exact ⟨v, _, hvisits, hnode⟩

end Insisting

/-! ### A proposal that is never valid -/

theorem idle_invalid (obs : Observations) :
    ∃ reason, validateProposal obs ("idle" ++ ":" ++ "") = .ok (some reason) := by
  have hsplit : splitColon ("idle" ++ ":" ++ "") = .ok ("idle", "") := rfl
  obtain ⟨reason, hreason⟩ := validateProposal_total obs hsplit
  cases reason with
  | some text => exact ⟨text, hreason⟩
  | none =>
    obtain ⟨tool, target, hsplit', hknown, _⟩ := validateProposal_none hreason
    rw [hsplit] at hsplit'
    cases hsplit'
    exact absurd hknown (by decide)

/-- The last nodes, by what the replan before them meets. -/
def lastNodes : Option Bool → List Node
  | none => []
  | some true => [.replan, .escalate]
  | some false => [.replan, .proposeAction]

/-- The nodes from the first proposal on, when `r` replans go on and the next one meets
`reached`. -/
def idleNodes : ℕ → Option Bool → List Node
  | 0, reached => .proposeAction :: lastNodes reached
  | r + 1, reached => .proposeAction :: .replan :: idleNodes r reached

theorem idleNodes_injective {r : ℕ} {x y : Option Bool} (h : idleNodes r x = idleNodes r y) :
    x = y := by
  induction r with
  | zero =>
    simp only [idleNodes, List.cons.injEq, true_and] at h
    rcases x with _ | _ | _ <;> rcases y with _ | _ | _ <;> simp_all [lastNodes]
  | succ r ih =>
    simp only [idleNodes, List.cons.injEq, true_and] at h
    exact ih h

theorem idleNodes_replans {r : ℕ} {b : Bool} : (idleNodes r (some b)).count .replan = r + 1 := by
  induction r with
  | zero => cases b <;> rfl
  | succ r ih => simp [idleNodes, ih]

section Idle

variable {c : Config} {obs : Observations} {m n k r : ℕ}

theorem idle_proposed (hnext : c.next = some .proposeAction) (h : Diagnosing c.state obs) :
    ∃ v c', Visits (insisting "idle" "") c v c' ∧ v.node = .proposeAction ∧
      c'.next = some .replan ∧ Diagnosing c'.state obs ∧
      replanCyclesOf c'.state = replanCyclesOf c.state := by
  obtain ⟨reason, hreason⟩ := idle_invalid obs
  obtain ⟨v, c', hvisits, hnode, hnext', _, hdiagnosing, _, _, _, _, hcycles, _⟩ :=
    proposing_visited hnext h hreason rfl
  refine ⟨v, c', hvisits, hnode, ?_, hdiagnosing, hcycles⟩
  rw [hnext', if_pos]
  simpa [textTruthy] using validateProposal_reason hreason

/-- What a replan leads to, if every proposal is invalid. -/
theorem idle_replanned (hnext : c.next = some .replan) (h : Diagnosing c.state obs) :
    ((insisting "idle" "").drive 2 n k c).map Visit.node =
      lastNodes (capReached (replanCyclesOf c.state) 0) := by
  cases hj : (replanCyclesOf c.state).addOne with
  | error e =>
    rw [capReached_raised hj, drive_stuck (replanning_stuck hnext hj)]
    rfl
  | ok j =>
    obtain ⟨b, hb⟩ := atLeast_of_addOne hj
    obtain ⟨v, c', hvisits, hnode, hnext', _, hdiagnosing, _⟩ :=
      replanning_visited hnext h hj hb
    rw [capReached_zero hj, hb, drive_visited hvisits, List.map_cons, hnode]
    cases b with
    | true =>
      obtain ⟨v', c'', hvisits', hnode'⟩ := escalating_visited hnext' hdiagnosing.auditable
      rw [drive_visited hvisits', List.map_cons, hnode']
      rfl
    | false =>
      obtain ⟨v', c'', hvisits', hnode', _⟩ := idle_proposed hnext' hdiagnosing
      rw [drive_visited hvisits', List.map_cons, hnode']
      rfl

theorem idle_nodes (hnext : c.next = some .proposeAction) (h : Diagnosing c.state obs)
    (hgoes : ∀ i < r, capReached (replanCyclesOf c.state) i = some false) :
    ((insisting "idle" "").drive (2 * r + 3) n k c).map Visit.node =
      idleNodes r (capReached (replanCyclesOf c.state) r) := by
  induction r generalizing n c with
  | zero =>
    obtain ⟨v, c', hvisits, hnode, hnext', hdiagnosing, hcycles⟩ := idle_proposed hnext h
    rw [drive_visited hvisits, List.map_cons, hnode, idle_replanned hnext' hdiagnosing, hcycles]
    rfl
  | succ r ih =>
    obtain ⟨v, c', hvisits, hnode, hnext', hdiagnosing, hcycles⟩ := idle_proposed hnext h
    have hfirst := hgoes 0 (Nat.succ_pos r)
    obtain ⟨j, hj⟩ := addOne_of_capReached hfirst
    obtain ⟨b, hb⟩ := atLeast_of_addOne hj
    rw [capReached_zero hj, hb] at hfirst
    cases hfirst
    rw [← hcycles] at hj
    obtain ⟨v', c'', hvisits', hnode', hnext'', _, hdiagnosing', hcounted, _⟩ :=
      replanning_visited hnext' hdiagnosing hj hb
    rw [hcycles] at hj
    rw [show 2 * (r + 1) + 3 = 2 * r + 3 + 1 + 1 from rfl, drive_visited hvisits, List.map_cons,
      hnode, drive_visited hvisits', List.map_cons, hnode', ih hnext'' hdiagnosing', hcounted,
      capReached_succ hj]
    · rfl
    · intro i hi
      rw [hcounted, ← capReached_succ hj]
      exact hgoes (i + 1) (by omega)

end Idle

/-! ### A restart that repairs nothing -/

/-- The disk of `service_c` is full, which a restart does not change. -/
def crowded : ServiceState := { createApp "service_c" true with diskPct := 95 }

def diskFull (store : Dict String LedgerEntry) : ToolContext :=
  { (freshSandbox []).setClient "service_c" crowded with store := store }

theorem diskFull_client (store : Dict String LedgerEntry) :
    (diskFull store).clients.get? "service_c" = some crowded :=
  Dict.get?_set_self _ _ _

theorem registered_diskFull (store : Dict String LedgerEntry) : Registered (diskFull store) :=
  registered_setClient (w := freshSandbox []) (s := createApp "service_c" true)
    registered_freshSandbox rfl rfl (by decide)

theorem restart_split :
    splitColon ("restart_service" ++ ":" ++ "service_c") = .ok ("restart_service", "service_c") :=
  rfl

/-- What a sweep of the full disk says of the service. -/
theorem diskFull_swept {store : Dict String LedgerEntry} {obs : Observations}
    (h : gatherObservations (diskFull store) = .ok obs) :
    validateProposal obs ("restart_service" ++ ":" ++ "service_c") = .ok none ∧
      ∃ situational, situationalFeatures obs ("restart_service" ++ ":" ++ "service_c") =
          .ok situational ∧ applyPolicy "restart_service" "low" situational = "low" := by
  obtain ⟨o, ho, hservice⟩ := (gather_service h "service_c").1 (by decide)
  obtain ⟨s, metrics, hs, hmetrics, _, rfl⟩ := observeService_ok ho
  rw [diskFull_client, Option.some.injEq] at hs
  subst hs
  cases hmetrics
  constructor
  · rw [validateProposal, restart_split]
    simp only [bind, Except.bind, pure, Except.pure, hservice]
    rfl
  · rw [situationalFeatures, restart_split]
    simp only [bind, Except.bind, pure, Except.pure, hservice]
    exact ⟨_, rfl, rfl⟩

/-- `"restart_service:service_c"`, as the proposal is put together. -/
def restartAction : String := "restart_service" ++ ":" ++ "service_c"

theorem restartAction_eq : restartAction = "restart_service" ++ ":" ++ "service_c" := rfl

theorem restart_dispatched :
    dispatch restartAction (.obj []) = .ok (.restartService "service_c") := by
  rw [dispatch, restartAction_eq, restart_split]
  rfl

/-- What the nodes between a proposal and the replan after it leave as it is. -/
structure Kept (s s' : AgentState) : Prop where
  runId : s'.runId = s.runId
  observations : s'.observations = s.observations
  diagnosis : s'.diagnosis = s.diagnosis
  proposedAction : s'.proposedAction = s.proposedAction
  actionParameters : s'.actionParameters = s.actionParameters
  invalidProposalReason : s'.invalidProposalReason = s.invalidProposalReason
  cycles : replanCyclesOf s' = replanCyclesOf s
  leftover : leftover s' = leftover s

theorem Kept.trans {s s' s'' : AgentState} (h : Kept s s') (h' : Kept s' s'') : Kept s s'' :=
  ⟨h'.runId.trans h.runId, h'.observations.trans h.observations, h'.diagnosis.trans h.diagnosis,
    h'.proposedAction.trans h.proposedAction, h'.actionParameters.trans h.actionParameters,
    h'.invalidProposalReason.trans h.invalidProposalReason, h'.cycles.trans h.cycles,
    h'.leftover.trans h.leftover⟩

section Restarting

variable {c : Config} {store : Dict String LedgerEntry} {runId : String} {obs : Observations}

theorem restart_classified (hnext : c.next = some .classifyRisk) (h : Diagnosing c.state obs)
    (haction : c.state.proposedAction = some (.str restartAction))
    (hobs : gatherObservations (diskFull store) = .ok obs) :
    ∃ v c', Visits (insisting "restart_service" "service_c") c v c' ∧
      c'.next = some .prepareExecution ∧ c'.world = c.world ∧ Auditable c'.state ∧
      Kept c.state c'.state := by
  obtain ⟨hauditable, hswept, d, hdiagnosis⟩ := h
  obtain ⟨_, situational, hsituational, hlow⟩ := diskFull_swept hobs
  have hclassification :
      (insisting "restart_service" "service_c").policy.classification c.state = { tier := "low" } := by
    rw [Policy.classification, haction, hswept, hdiagnosis, restartAction_eq]
    simp only [hsituational]
    rfl
  have hfn : (nodeFn { digest := id } ((insisting "restart_service" "service_c").policy.answers
      .classifyRisk .null "" c.state c.world) .classifyRisk c.state).run c.world =
        (.ok [.status .riskClassified, .riskTierLlm "low", .riskTierFinal "low",
          .riskRationale "", .redundancyFloorApplied false], c.world) := by
    change (Action.lift (classifyRisk ((insisting "restart_service" "service_c").policy.classification
      c.state) c.state)).run c.world = _
    rw [Action.run_lift, hclassification, classifyRisk, haction, hswept, restartAction_eq]
    simp only [requiredText_str, required_some, bind, Except.bind, restart_split, hsituational, hlow]
    rfl
  obtain ⟨v, log, hvisits, _⟩ := visits_of_update hnext hauditable hfn (by decide) rfl rfl rfl
  exact ⟨v, _, hvisits, rfl, rfl, auditable_merge hauditable _,
    ⟨rfl, rfl, rfl, rfl, rfl, rfl, rfl, rfl⟩⟩

theorem restart_keyed (hnext : c.next = some .prepareExecution) (h : Auditable c.state)
    (haction : c.state.proposedAction = some (.str restartAction))
    (hrun : c.state.runId = some (.str runId)) :
    ∃ v c', Visits (insisting "restart_service" "service_c") c v c' ∧
      c'.next = some .execute ∧ c'.world = c.world ∧ Auditable c'.state ∧ Kept c.state c'.state ∧
      c'.state.idempotencyKey = some (.str (idempotencyKey runId restartAction)) := by
  have hfn : (nodeFn { digest := id } ((insisting "restart_service" "service_c").policy.answers
      .prepareExecution .null "" c.state c.world) .prepareExecution c.state).run c.world =
        (.ok [.status .executing, .idempotencyKey (idempotencyKey runId restartAction)],
          c.world) := by
    change (Action.lift (prepareExecution c.state)).run c.world = _
    rw [Action.run_lift, prepareExecution, hrun, haction]
    rfl
  obtain ⟨v, log, hvisits, _⟩ := visits_of_update hnext h hfn (by decide) rfl rfl rfl
  exact ⟨v, _, hvisits, rfl, rfl, auditable_merge h _, ⟨rfl, rfl, rfl, rfl, rfl, rfl, rfl, rfl⟩, rfl⟩

/-- What a run that is about to restart `service_c` holds. -/
structure Prepared (c : Config) (runId : String) : Prop where
  next : c.next = some .execute
  auditable : Auditable c.state
  observed : ∃ obs d, c.state.observations = some obs ∧ c.state.diagnosis = some d ∧
    validateProposal obs restartAction = .ok none
  proposedAction : c.state.proposedAction = some (.str restartAction)
  actionParameters : c.state.actionParameters = some (.obj [])
  invalidProposalReason : c.state.invalidProposalReason = some none
  idempotencyKey : c.state.idempotencyKey = some (.str (idempotencyKey runId restartAction))

/-- The first four visits, whatever else the state holds. -/
theorem restart_prepared (hnext : c.next = some .diagnose) (h : Auditable c.state)
    (hworld : c.world = diskFull store) (hrun : c.state.runId = some (.str runId)) :
    ∃ vs c', Path (insisting "restart_service" "service_c") c vs c' ∧ vs.length = 4 ∧
      Prepared c' runId ∧ c'.world = diskFull store ∧
      replanCyclesOf c'.state = replanCyclesOf c.state ∧ leftover c'.state = leftover c.state := by
  obtain ⟨obs, hobs⟩ := gather_ok (registered_diskFull store)
  obtain ⟨v₁, c₁, hv₁, hnext₁, hworld₁, hs₁, hrun₁, _, hcycles₁, hleft₁⟩ :=
    diagnosing_visited "restart_service" "service_c" hnext h (hworld ▸ hobs)
  have hvalid := (diskFull_swept hobs).1
  obtain ⟨f, hf⟩ := computeFingerprint_of_valid id hvalid
  have hanchor : anchorProposal { digest := id } obs ("restart_service" ++ ":" ++ "service_c")
      none = .ok (some f) := by
    rw [anchorProposal, hf]
    rfl
  obtain ⟨v₂, c₂, hv₂, _, hnext₂, hworld₂, hs₂, hrun₂, haction₂, hparameters₂, hinvalid₂, hcycles₂,
    hleft₂⟩ := proposing_visited hnext₁ hs₁ hvalid hanchor
  obtain ⟨v₃, c₃, hv₃, hnext₃, hworld₃, hs₃, hkept₃⟩ :=
    restart_classified hnext₂ hs₂ haction₂ hobs
  have hrunId : c₃.state.runId = some (.str runId) := by rw [hkept₃.runId, hrun₂, hrun₁, hrun]
  obtain ⟨v₄, c₄, hv₄, hnext₄, hworld₄, hs₄, hkept₄, hkey₄⟩ :=
    restart_keyed hnext₃ hs₃ (hkept₃.proposedAction.trans haction₂) hrunId
  have hkept := hkept₃.trans hkept₄
  obtain ⟨d, hd⟩ := hs₂.diagnosis
  refine ⟨[v₁, v₂, v₃, v₄], c₄, .cons hv₁ (.cons hv₂ (.cons hv₃ (.cons hv₄ .nil))), rfl,
    ⟨hnext₄, hs₄, ⟨obs, d, ?_, ?_, hvalid⟩, ?_, ?_, ?_, hkey₄⟩, ?_, ?_, ?_⟩
  · rw [hkept.observations, hs₂.observations]
  · rw [hkept.diagnosis, hd]
  · rw [hkept.proposedAction, haction₂, restartAction_eq]
  · rw [hkept.actionParameters, hparameters₂]
  · rw [hkept.invalidProposalReason, hinvalid₂]
  · rw [hworld₄, hworld₃, hworld₂, hworld₁, hworld]
  · rw [hkept.cycles, hcycles₂, hcycles₁]
  · rw [hkept.leftover, hleft₂, hleft₁]

/-- The execution, by what the ledger holds under its key. -/
theorem restart_visited {o : Outcome} {w : ToolContext} (h : Prepared c runId)
    (hrun : (executeAction restartAction (.obj []) (idempotencyKey runId restartAction)).run
      c.world = (.ok o, w)) :
    ∃ v c', Visits (insisting "restart_service" "service_c") c v c' ∧ c'.next = some .verify ∧
      c'.world = w ∧ Auditable c'.state ∧ Kept c.state c'.state ∧
      c'.state.executionResult = some o.result ∧ c'.state.compensation = some o.compensation := by
  have hparameters : parametersOf c.state = .obj [] := by
    rw [parametersOf, h.actionParameters]
    rfl
  have hfn : (nodeFn { digest := id } ((insisting "restart_service" "service_c").policy.answers
      .execute .null "" c.state c.world) .execute c.state).run c.world =
        (.ok [.status .executing, .executionResult o.result, .compensation o.compensation], w) := by
    change (execute c.state).run c.world = _
    rw [execute, h.proposedAction, h.idempotencyKey, hparameters, Action.run_bind, Action.run_lift]
    simp only [requiredText_str, Action.run_bind, Action.run_lift, hrun, Action.run_pure]
  obtain ⟨v, log, hvisits, _⟩ := visits_of_update h.next h.auditable hfn (by decide) rfl rfl rfl
  exact ⟨v, _, hvisits, rfl, rfl, auditable_merge h.auditable _,
    ⟨rfl, rfl, rfl, rfl, rfl, rfl, rfl, rfl⟩, rfl, rfl⟩

/-- A restart under a key that the ledger does not hold. -/
theorem restart_performed (h : Prepared c runId) (hworld : c.world = diskFull store)
    (hmiss : store.get? (idempotencyKey runId restartAction) = none) :
    ∃ v c' restarted reason, Visits (insisting "restart_service" "service_c") c v c' ∧
      c'.next = some .verify ∧ c'.world.clients.get? "service_c" = some crowded.restart ∧
      Auditable c'.state ∧ Kept c.state c'.state ∧
      c'.state.executionResult = some (.restarted restarted) ∧
      c'.state.compensation = some (.noop reason) := by
  have hperform : (ToolCall.perform (.restartService "service_c")).run (diskFull store) =
      (.ok ⟨.restarted ⟨crowded.name, crowded.restartCount + 1, crowded.restart.status.text⟩,
        .noop "restart has no reversible side effect"⟩,
        (diskFull store).setClient "service_c" crowded.restart) :=
    performRestartService_ok_iff.mpr ⟨crowded, diskFull_client store, rfl, rfl⟩
  have hrun := executeAction_miss (w := diskFull store) restart_dispatched hmiss hperform
  rw [← hworld] at hrun
  obtain ⟨v, c', hvisits, hnext, hworld', hauditable, hkept, hresult, hcompensation⟩ :=
    restart_visited h hrun
  refine ⟨v, c', _, _, hvisits, hnext, ?_, hauditable, hkept, hresult, hcompensation⟩
  rw [hworld', ToolContext.setClient_clients, Dict.get?_set_self]

/-- A restart that the ledger answers. -/
theorem restart_replayed {entry : LedgerEntry} (h : Prepared c runId)
    (hworld : c.world = diskFull store)
    (hhit : store.get? (idempotencyKey runId restartAction) = some entry) :
    ∃ v c', Visits (insisting "restart_service" "service_c") c v c' ∧
      c'.world.clients.get? "service_c" = some crowded := by
  have hrun := executeAction_hit (w := diskFull store) restart_dispatched hhit
  rw [← hworld] at hrun
  obtain ⟨v, c', hvisits, _, hworld', _⟩ := restart_visited h hrun
  exact ⟨v, c', hvisits, by rw [hworld', hworld, diskFull_client]⟩

theorem restart_unverified {restarted : RestartResponse} (hnext : c.next = some .verify)
    (h : Auditable c.state) (haction : c.state.proposedAction = some (.str restartAction))
    (hclient : c.world.clients.get? "service_c" = some crowded.restart)
    (hresult : c.state.executionResult = some (.restarted restarted)) :
    ∃ v c', Visits (insisting "restart_service" "service_c") c v c' ∧
      c'.next = some .rollingBack ∧ Auditable c'.state ∧ Kept c.state c'.state ∧
      c'.state.compensation = c.state.compensation ∧
      c'.state.verificationPassed = some (.bool false) := by
  have hhealth : getServiceHealth c.world "service_c" = .ok ⟨crowded.restart.name,
      crowded.restart.status.text, crowded.restart.restartCount⟩ := by
    rw [getServiceHealth, Tools.get, ToolContext.client_ok_iff.mpr hclient]
    rfl
  have hstatus : (crowded.restart.status.text == "healthy") = false := by decide +kernel
  have hpassed : verifyAction c.world restartAction (.restarted restarted) = .ok false := by
    rw [verifyAction, restartAction_eq, restart_split]
    simp only [bind, Except.bind, hhealth, hstatus]
    rfl
  have hfn : (nodeFn { digest := id } ((insisting "restart_service" "service_c").policy.answers
      .verify .null "" c.state c.world) .verify c.state).run c.world =
        (.ok [.status .verifying, .verificationPassed false], c.world) := by
    change (verify c.state).run c.world = _
    rw [verify, haction, hresult, Action.run_bind, Action.run_lift]
    simp only [requiredText_str, required_some, Action.run_bind, Action.run_lift, Action.run_read,
      hpassed, Action.run_pure]
  obtain ⟨v, log, hvisits, _⟩ := visits_of_update hnext h hfn (by decide) rfl rfl rfl
  exact ⟨v, _, hvisits, rfl, auditable_merge h _, ⟨rfl, rfl, rfl, rfl, rfl, rfl, rfl, rfl⟩, rfl,
    rfl⟩

theorem restart_undone {reason : String} (hnext : c.next = some .rollingBack)
    (h : Auditable c.state) (hcompensation : c.state.compensation = some (.noop reason)) :
    ∃ v v' c', Path (insisting "restart_service" "service_c") c [v, v'] c' ∧
      c'.next = some .replan ∧ Auditable c'.state ∧ Kept c.state c'.state ∧
      c'.state.verificationPassed = c.state.verificationPassed := by
  have hfn : (nodeFn { digest := id } ((insisting "restart_service" "service_c").policy.answers
      .rollingBack .null "" c.state c.world) .rollingBack c.state).run c.world =
        (.ok [.status .rollingBack, .rollbackResult (.notApplied reason)], c.world) := by
    change (rollingBack c.state).run c.world = _
    have hlift : (Action.lift (required "compensation" c.state.compensation) :
        Action ToolContext Compensation).run c.world = (.ok (.noop reason), c.world) := by
      rw [Action.run_lift, hcompensation, required_some]
    rw [rollingBack, Action.run_bind_of_ok hlift]
    rfl
  obtain ⟨v, log, hvisits, _⟩ := visits_of_update hnext h hfn (by decide) rfl rfl rfl
  have hrolled := auditable_merge h [.status .rollingBack, .rollbackResult (.notApplied reason)]
  have hfn' : (nodeFn { digest := id } ((insisting "restart_service" "service_c").policy.answers
      .rolledBack .null "" (c.state.merge [.status .rollingBack, .rollbackResult
        (.notApplied reason)]) c.world) .rolledBack (c.state.merge [.status .rollingBack,
          .rollbackResult (.notApplied reason)])).run c.world = (.ok rolledBack, c.world) := rfl
  obtain ⟨v', log', hvisits', _⟩ := visits_of_update (c := ⟨c.state.merge [.status .rollingBack,
    .rollbackResult (.notApplied reason)], some .rolledBack, c.world, log⟩) rfl hrolled hfn'
      (by decide) rfl rfl rfl
  exact ⟨v, v', _, .cons hvisits (.cons hvisits' .nil), rfl, auditable_merge hrolled _,
    ⟨rfl, rfl, rfl, rfl, rfl, rfl, rfl, rfl⟩, rfl⟩

end Restarting

/-! ### What is told apart -/

/-- A run at its first node. -/
def start (s : AgentState) (w : ToolContext) : Config :=
  { state := s, next := some .diagnose, world := w }

/-- What is seen of the two runs is the same, whatever surrounds them. -/
def SeenAlike (s t : AgentState) : Prop :=
  ∀ (e : Surroundings) (w : ToolContext) (m : ℕ),
    (e.drive m 0 0 (start s w)).map seen = (e.drive m 0 0 (start t w)).map seen

section Apart

variable {s t : AgentState}

/-- A visit to the first node has passed the audit wrapper. -/
theorem auditable_of_led {rt : Runtime} {v : Visit} {next : Option Node} (h : v.Led rt next)
    (hnode : v.node = .diagnose) : Auditable v.before := by
  obtain ⟨update, record, hfn, hrecord, _⟩ := h
  rw [hnode] at hfn hrecord
  obtain ⟨_, obs, _, rfl⟩ := diagnose_ok hfn
  exact recorded_diagnosis_iff.mp ⟨record, hrecord⟩

theorem auditable_of_seen (h : SeenAlike s t) (hs : Auditable s) : Auditable t := by
  obtain ⟨obs, hobs⟩ := gather_ok registered_freshSandbox
  obtain ⟨v, c', hvisits, _⟩ := diagnosing_visited "idle" "" (c := start s (freshSandbox [])) rfl hs
    hobs
  have hsame := h (insisting "idle" "") (freshSandbox []) 1
  rw [drive_visited hvisits] at hsame
  rcases turn_cases (insisting "idle" "") 0 0 (start t (freshSandbox [])) with
    ⟨d', hturn, _, _⟩ | ⟨v', d', hturn, hnode, hbefore, _, hled⟩
  · rw [Surroundings.drive, Surroundings.drive, hturn] at hsame
    cases hsame
  · have hrecorded := auditable_of_led hled (Option.some.inj hnode).symm
    rw [hbefore] at hrecorded
    exact hrecorded

theorem context_of_seen (h : SeenAlike s t) (hs : Auditable s) (ht : Auditable t) :
    replanContextOf s = replanContextOf t := by
  obtain ⟨obs, hobs⟩ := gather_ok registered_freshSandbox
  obtain ⟨v, c', hv, hnext, _, hdiagnosing, _, hcontext, _⟩ :=
    diagnosing_visited "idle" "" (c := start s (freshSandbox [])) rfl hs hobs
  obtain ⟨v', d', hv', hnext', _, hdiagnosing', _, hcontext', _⟩ :=
    diagnosing_visited "idle" "" (c := start t (freshSandbox [])) rfl ht hobs
  have hsame := (seen_of_visits (h (insisting "idle" "") (freshSandbox [])) hv hv').2
  obtain ⟨u, c'', hu, hnode, _⟩ := idle_proposed hnext hdiagnosing
  obtain ⟨u', d'', hu', hnode', _⟩ := idle_proposed hnext' hdiagnosing'
  have hseen := congrArg Seen.replanContext (seen_of_visits hsame hu hu').1
  simp only [seen, hnode, hnode', if_true, Option.some.injEq] at hseen
  rw [hu.before, hu'.before, hcontext, hcontext'] at hseen
  exact hseen

/-- The nodes of a run whose proposals are all invalid. -/
theorem idle_run {r : ℕ} (hs : Auditable s)
    (hgoes : ∀ i < r, capReached (replanCyclesOf s) i = some false) :
    ((insisting "idle" "").drive (2 * r + 4) 0 0 (start s (freshSandbox []))).map Visit.node =
      .diagnose :: idleNodes r (capReached (replanCyclesOf s) r) := by
  obtain ⟨obs, hobs⟩ := gather_ok registered_freshSandbox
  obtain ⟨v, c', hv, hnext, _, hdiagnosing, _, _, hcycles, _⟩ :=
    diagnosing_visited "idle" "" (c := start s (freshSandbox [])) rfl hs hobs
  have hnode : v.node = .diagnose := (Option.some.inj hv.next).symm
  have hcycled : replanCyclesOf c'.state = replanCyclesOf s := hcycles
  rw [show 2 * r + 4 = 2 * r + 3 + 1 from rfl, drive_visited hv, List.map_cons, hnode]
  rw [← hcycled] at hgoes ⊢
  rw [idle_nodes hnext hdiagnosing hgoes]

theorem cap_of_seen (h : SeenAlike s t) (hs : Auditable s) (ht : Auditable t) (n : ℕ) :
    capReached (replanCyclesOf s) n = capReached (replanCyclesOf t) n := by
  induction n using Nat.strong_induction_on with
  | _ n ih =>
    by_cases hgoes : ∀ i < n, capReached (replanCyclesOf s) i = some false
    · have hgoes' : ∀ i < n, capReached (replanCyclesOf t) i = some false := by
        intro i hi
        rw [← ih i hi]
        exact hgoes i hi
      have hnodes := congrArg (List.map Seen.node)
        (h (insisting "idle" "") (freshSandbox []) (2 * n + 4))
      rw [List.map_map, List.map_map] at hnodes
      have hrun := idle_run hs hgoes
      have hrun' := idle_run ht hgoes'
      rw [show (Seen.node ∘ seen) = Visit.node from rfl, hrun, hrun', List.cons.injEq] at hnodes
      exact idleNodes_injective hnodes.2
    · push Not at hgoes
      obtain ⟨i, hi, hstops⟩ := hgoes
      have hsame := ih i hi
      cases hreached : capReached (replanCyclesOf s) i with
      | none =>
        rw [hreached] at hsame
        rw [capReached_never hreached, capReached_never hsame.symm]
      | some b =>
        cases b with
        | false => exact absurd hreached hstops
        | true =>
          rw [hreached] at hsame
          rw [capReached_stays hreached hi.le, capReached_stays hsame.symm hi.le]

/-- A count that goes on for three replans goes on for a fourth one. -/
theorem capped_of_bounded (hs : Auditable s)
    (h : ∀ (e : Surroundings) (w : ToolContext) (m : ℕ),
      (replans (e.drive m 0 0 (start s w)) : ℤ) ≤ maxReplanCycles) :
    capReached (replanCyclesOf s) 2 ≠ some false := by
  intro hgoes
  have hgoes₁ := capReached_before hgoes
  have hgoes₀ := capReached_before hgoes₁
  obtain ⟨b, hb, _⟩ := capReached_next hgoes
  have hrun := idle_run (r := 3) hs (by
    intro i hi
    interval_cases i
    · exact hgoes₀
    · exact hgoes₁
    · exact hgoes)
  have hcount : replans ((insisting "idle" "").drive (2 * 3 + 4) 0 0
      (start s (freshSandbox []))) = 4 := by
    have hcounted := idleNodes_replans (r := 3) (b := b)
    rw [replans_eq, hrun, hb, List.count_cons_of_ne (by decide), hcounted]
  have hbound := h (insisting "idle" "") (freshSandbox []) (2 * 3 + 4)
  rw [hcount] at hbound
  exact absurd hbound (by decide)

theorem runId_of_seen (h : SeenAlike s t) (hs : Auditable s) (ht : Auditable t) :
    s.runId = t.runId := by
  obtain ⟨x, hx⟩ := hs.runId
  obtain ⟨y, hy⟩ := ht.runId
  by_contra hne
  rw [hx, hy, Option.some.injEq, Json.str.injEq] at hne
  -- The ledger holds the key of the one run only, so that only the other one restarts.
  let entry : LedgerEntry := ⟨"", .restartService "", .deleted "" [] 0, .noop ""⟩
  have hhit : (Dict.empty.set (idempotencyKey x restartAction) entry).get?
      (idempotencyKey x restartAction) = some entry := Dict.get?_set_self _ _ _
  have hmiss : (Dict.empty.set (idempotencyKey x restartAction) entry).get?
      (idempotencyKey y restartAction) = none := by
    rw [Dict.get?_set_ne]
    · rfl
    · intro hkeys
      rw [idempotencyKey, idempotencyKey, String.append_left_inj, String.append_left_inj] at hkeys
      exact hne hkeys
  generalize Dict.empty.set (idempotencyKey x restartAction) entry = store at hhit hmiss
  obtain ⟨vs, c, hvs, hlength, hc, hworld, _⟩ :=
    restart_prepared (c := start s (diskFull store)) rfl hs rfl hx
  obtain ⟨ws, d, hws, hlength', hd, hworld', _⟩ :=
    restart_prepared (c := start t (diskFull store)) rfl ht rfl hy
  obtain ⟨n, hsame⟩ := seen_of_paths (h (insisting "restart_service" "service_c") (diskFull store))
    hvs hws (hlength.trans hlength'.symm)
  obtain ⟨v, c', hv, hclient⟩ := restart_replayed hc hworld hhit
  obtain ⟨v', d', _, _, hv', _, hclient', _⟩ := restart_performed hd hworld' hmiss
  have hseen := congrArg Seen.clients (seen_of_visits hsame hv hv').1
  simp only [seen] at hseen
  rw [hv.worldAfter, hv'.worldAfter] at hseen
  rw [hseen, hclient', Option.some.injEq] at hclient
  have hcount := congrArg ServiceState.restartCount hclient
  exact absurd hcount (by decide)

/-- A restart that repairs nothing, up to its replan. -/
theorem restart_replanned (hs : Auditable s) :
    ∃ vs c obs, Path (insisting "restart_service" "service_c") (start s (diskFull .empty)) vs c ∧
      vs.length = 8 ∧ c.next = some .replan ∧ Diagnosing c.state obs ∧
      validateProposal obs restartAction = .ok none ∧
      c.state.proposedAction = some (.str restartAction) ∧
      textTruthy c.state.invalidProposalReason = false ∧
      c.state.verificationPassed = some (.bool false) ∧
      replanCyclesOf c.state = replanCyclesOf s ∧ leftover c.state = leftover s := by
  obtain ⟨x, hx⟩ := hs.runId
  obtain ⟨vs, c, hvs, hlength, hc, hworld, hcycles, hleftover⟩ :=
    restart_prepared (c := start s (diskFull .empty)) rfl hs rfl hx
  obtain ⟨obs, d, hobs, hdiagnosis, hvalid⟩ := hc.observed
  obtain ⟨v₅, c₅, _, _, hv₅, hnext₅, hclient₅, hs₅, hkept₅, hresult₅, hcompensation₅⟩ :=
    restart_performed hc hworld rfl
  obtain ⟨v₆, c₆, hv₆, hnext₆, hs₆, hkept₆, hcompensation₆, hpassed₆⟩ :=
    restart_unverified hnext₅ hs₅ (hkept₅.proposedAction.trans hc.proposedAction) hclient₅ hresult₅
  obtain ⟨v₇, v₈, c₈, hpath, hnext₈, hs₈, hkept₈, hpassed₈⟩ :=
    restart_undone hnext₆ hs₆ (hcompensation₆.trans hcompensation₅)
  have hkept := (hkept₅.trans hkept₆).trans hkept₈
  refine ⟨vs ++ [v₅, v₆, v₇, v₈], c₈, obs, hvs.append (.cons hv₅ (.cons hv₆ hpath)), ?_, hnext₈,
    ⟨hs₈, ?_, d, ?_⟩, hvalid, ?_, ?_, ?_, ?_, ?_⟩
  · rw [List.length_append, hlength]
    rfl
  · rw [hkept.observations, hobs]
  · rw [hkept.diagnosis, hdiagnosis]
  · rw [hkept.proposedAction, hc.proposedAction]
  · rw [hkept.invalidProposalReason, hc.invalidProposalReason]
    rfl
  · rw [hpassed₈, hpassed₆]
  · rw [hkept.cycles, hcycles]
    rfl
  · rw [hkept.leftover, hleftover]
    rfl

/-- The reasons of a valid proposal tell the marks apart. -/
theorem leftover_of_reason {u v : AgentState}
    (haction : u.proposedAction = some (.str restartAction))
    (haction' : v.proposedAction = some (.str restartAction))
    (hvalid : textTruthy u.invalidProposalReason = false)
    (hvalid' : textTruthy v.invalidProposalReason = false)
    (hpassed : u.verificationPassed = some (.bool false))
    (hpassed' : v.verificationPassed = some (.bool false))
    (h : replanReason u = replanReason v) : leftover u = leftover v := by
  rw [ReplanReasons.replanReason_valid hvalid, ReplanReasons.replanReason_valid hvalid', haction,
    haction', laterReason_eq, laterReason_eq, hpassed, hpassed'] at h
  cases hx : leftover u <;> cases hy : leftover v <;> rw [hx, hy] at h <;>
    first
    | rfl
    | exact absurd h (by decide +kernel)

theorem marks_of_seen (h : SeenAlike s t) (hs : Auditable s) (ht : Auditable t) :
    SameMarks s t := by
  intro hfirst
  have hfirst' : capReached (replanCyclesOf t) 0 = some false := by
    rw [← cap_of_seen h hs ht]
    exact hfirst
  obtain ⟨vs, c, obs, hvs, hlength, hnext, hdiagnosing, hreason, haction, hvalid, hpassed, hcycles,
    hleftover⟩ := restart_replanned hs
  obtain ⟨ws, d, obs', hws, hlength', hnext', hdiagnosing', hreason', haction', hvalid', hpassed',
    hcycles', hleftover'⟩ := restart_replanned ht
  obtain ⟨n, hsame⟩ := seen_of_paths (h (insisting "restart_service" "service_c") (diskFull .empty))
    hvs hws (hlength.trans hlength'.symm)
  rw [← hcycles] at hfirst
  rw [← hcycles'] at hfirst'
  obtain ⟨v, c', hv, hnextc, hdiagnosingc, hcontext⟩ := replanned_on hnext hdiagnosing hfirst
  obtain ⟨v', d', hv', hnextd, hdiagnosingd, hcontext'⟩ := replanned_on hnext' hdiagnosing' hfirst'
  have hsame' := (seen_of_visits hsame hv hv').2
  obtain ⟨f, hf⟩ := computeFingerprint_of_valid id hreason
  obtain ⟨f', hf'⟩ := computeFingerprint_of_valid id hreason'
  have hanchor : anchorProposal { digest := id } obs restartAction none = .ok (some f) := by
    rw [anchorProposal, hf]
    rfl
  have hanchor' : anchorProposal { digest := id } obs' restartAction none = .ok (some f') := by
    rw [anchorProposal, hf']
    rfl
  obtain ⟨u, c'', hu, hnode, _⟩ := proposing_visited hnextc hdiagnosingc hreason hanchor
  obtain ⟨u', d'', hu', hnode', _⟩ := proposing_visited hnextd hdiagnosingd hreason' hanchor'
  have hseen := congrArg Seen.replanContext (seen_of_visits hsame' hu hu').1
  simp only [seen, hnode, hnode', if_true, Option.some.injEq] at hseen
  rw [hu.before, hu'.before, hcontext, hcontext', Json.str.injEq] at hseen
  rw [← hleftover, ← hleftover']
  exact leftover_of_reason haction haction' hvalid hvalid' hpassed hpassed' hseen

end Apart

/-! ### Two requests -/

/-- Two initial states between which no surroundings tell, of runs that respect the cap:
they agree on what is read before it is written, and a count that is preset reaches the
cap within `MAX_REPLAN_CYCLES` replans. -/
structure Unsteering (s t : AgentState) : Prop where
  alike : Alike s t
  capped : Auditable s → capReached (replanCyclesOf s) 2 ≠ some false

/-- No visit is made in a state that the audit wrapper does not let pass. -/
theorem replans_unaudited {e : Surroundings} {c : Config} {m n k : ℕ}
    (hnext : c.next = some .diagnose) (h : ¬ Auditable c.state) : replans (e.drive m n k c) = 0 := by
  induction m generalizing n k c with
  | zero => rfl
  | succ m ih =>
    rcases turn_cases e n k c with ⟨c', hturn, hstate, hnext'⟩ | ⟨v, c', _, hnode, hbefore, _, hled⟩
    · rw [replans_missed hturn]
      exact ih (hnext'.trans hnext) (hstate ▸ h)
    · rw [hnext] at hnode
      have hs := auditable_of_led hled (Option.some.inj hnode).symm
      rw [hbefore] at hs
      exact absurd hs h

theorem bounded_of_capped {s : AgentState}
    (h : Auditable s → capReached (replanCyclesOf s) 2 ≠ some false) (e : Surroundings)
    (w : ToolContext) (m : ℕ) :
    (replans (e.drive m 0 0 (start s w)) : ℤ) ≤ maxReplanCycles := by
  by_cases hs : Auditable s
  · have hle := replans_le (e := e) (c := start s w) (m := m) (n := 0) (k := 0) (h hs)
    rw [maxReplanCycles]
    omega
  · rw [replans_unaudited rfl hs]
    decide

theorem unsteering_iff {s t : AgentState} :
    Unsteering s t ↔ SeenAlike s t ∧ ∀ (e : Surroundings) (w : ToolContext) (m : ℕ),
      (replans (e.drive m 0 0 (start s w)) : ℤ) ≤ maxReplanCycles ∧
        (replans (e.drive m 0 0 (start t w)) : ℤ) ≤ maxReplanCycles := by
  constructor
  · intro h
    have hcapped : Auditable t → capReached (replanCyclesOf t) 2 ≠ some false := by
      intro ht
      have hs := h.alike.auditable.mpr ht
      rw [← (h.alike.shared hs).cap]
      exact h.capped hs
    exact ⟨fun e w m => drive_alike rfl rfl h.alike,
      fun e w m => ⟨bounded_of_capped h.capped e w m, bounded_of_capped hcapped e w m⟩⟩
  · rintro ⟨hseen, hbounded⟩
    have hback : SeenAlike t s := fun e w m => (hseen e w m).symm
    have hboth := fun hs => auditable_of_seen hseen hs
    refine ⟨⟨⟨hboth, auditable_of_seen hback⟩, fun hs => ⟨?_, ?_, ?_⟩, fun hs => ?_⟩, fun hs => ?_⟩
    · exact runId_of_seen hseen hs (hboth hs)
    · exact cap_of_seen hseen hs (hboth hs)
    · exact context_of_seen hseen hs (hboth hs)
    · exact marks_of_seen hseen hs (hboth hs)
    · exact capped_of_bounded hs fun e w m => (hbounded e w m).1

/-- Two requests for one run, whose bodies differ, visit the same nodes, tell the reasoner
the same contexts, execute the same actions and respect the cap in whatever surroundings
exactly if their initial states are unsteering. -/
theorem unsteered_iff (a b : CreateRunRequest) (runId : String) :
    ((∀ (e : Surroundings) (w : ToolContext) (m : ℕ),
        (e.drive m 0 0 (startWorkflow runId a.initialState.state w)).map seen =
          (e.drive m 0 0 (startWorkflow runId b.initialState.state w)).map seen) ∧
      ∀ (e : Surroundings) (w : ToolContext) (m : ℕ),
        (replans (e.drive m 0 0 (startWorkflow runId a.initialState.state w)) : ℤ) ≤
            maxReplanCycles ∧
          (replans (e.drive m 0 0 (startWorkflow runId b.initialState.state w)) : ℤ) ≤
            maxReplanCycles) ↔
      Unsteering (a.input runId).state (b.input runId).state :=
  unsteering_iff.symm

/-- A body without entries, and one that presets a count far below zero. -/
theorem cap_lifted :
    ((insisting "idle" "").drive 10 0 0 (startWorkflow "run-1" {} (freshSandbox []))).map Visit.node ≠
        ((insisting "idle" "").drive 10 0 0 (startWorkflow "run-1"
          { replanCycles := some (.int (-100)) } (freshSandbox []))).map Visit.node ∧
      ¬ (replans ((insisting "idle" "").drive 10 0 0 (startWorkflow "run-1"
        { replanCycles := some (.int (-100)) } (freshSandbox []))) : ℤ) ≤ maxReplanCycles := by
  decide +kernel

end Presets
