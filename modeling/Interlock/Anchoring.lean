import Interlock.PlanningCycle

/-!
# Fingerprint anchoring

From a valid proposal on, the stored fingerprint is that of the stored action
over the stored observations. An approved action therefore executes only on a
sweep with the fingerprint it was anchored to.
-/

namespace Anchoring

open Dictionary PythonValues Tools DiagnosticSweep Fingerprint RiskPolicy Execution RunState Nodes
open Graph Transitions Walks PlanningCycle Relation

/-- `state_fingerprint == compute_fingerprint(observations, proposed_action)`. -/
def Anchored (rt : Runtime) (s : AgentState) : Prop :=
  ∃ obs action fingerprint, s.observations = some obs ∧ s.proposedAction = some (.str action) ∧
    computeFingerprint rt.digest obs action = .ok fingerprint ∧
    s.stateFingerprint = some (some fingerprint)

section Steps

variable {rt : Runtime} {v : Visit} {next : Option Node}

theorem anchored_of_proposal (hled : v.Led rt next) (hnode : v.node = .proposeAction)
    (hvalid : v.after.invalidProposalReason = some none) : Anchored rt v.after := by
  obtain ⟨_, obs, reason, fingerprint, hobs, _, hanchor, hafter⟩ := led_proposeAction hled hnode
  have hreason : reason = none := by
    rw [hafter] at hvalid
    simpa using hvalid
  obtain ⟨f, hf, hfingerprint⟩ := hanchor hreason
  rw [hafter]
  exact ⟨obs, v.answers.proposal.action, f, hobs, rfl, hf, by simp [hfingerprint]⟩

/-- A state that agrees on the three entries is anchored alike. -/
theorem Anchored.congr {s t : AgentState} (h : Anchored rt s)
    (hobs : t.observations = s.observations) (haction : t.proposedAction = s.proposedAction)
    (hf : t.stateFingerprint = s.stateFingerprint) : Anchored rt t := by
  obtain ⟨obs, action, fingerprint, h₁, h₂, h₃, h₄⟩ := h
  exact ⟨obs, action, fingerprint, hobs.trans h₁, haction.trans h₂, h₃, hf.trans h₄⟩

/-- The visits between two proposals: a reviewer's edit and a revalidation anchor
again, every other node leaves the three entries alone. -/
theorem anchored_step (hled : v.Led rt next) (hpropose : v.node ≠ .proposeAction)
    (hdiagnose : v.node ≠ .diagnose) (h : Anchored rt v.before) : Anchored rt v.after := by
  have hkept := led_kept hled
  by_cases hawait : v.node = .awaitApproval
  · obtain ⟨_, decided, approver, edit, _, _, hcases⟩ := led_awaitApproval hled hawait
    rcases hcases with ⟨_, hafter⟩ | ⟨newAction, obs, fingerprint, _, hobs, hf, hafter⟩
    · exact h.congr (by rw [hafter]) (by rw [hafter]) (by rw [hafter])
    · rw [hafter]
      exact ⟨obs, newAction, fingerprint, hobs, rfl, hf, rfl⟩
  · by_cases hrevalidate : v.node = .revalidate
    · obtain ⟨_, obs, action, fingerprint, anchored, _, haction, hf, _, hafter⟩ :=
        led_revalidate hled hrevalidate
      rw [hafter]
      exact ⟨obs, action, fingerprint, rfl, haction, hf, rfl⟩
    · exact h.congr (hkept.observations hdiagnose hrevalidate)
        (hkept.proposedAction hpropose hawait)
        (hkept.stateFingerprint hpropose hawait hrevalidate)

end Steps

section Runs

variable {rt : Runtime} {others : ToolContext → ToolContext → Prop} {runId : String}
variable {initialState : AgentState} {world w : ToolContext} {vs : List Visit} {s : AgentState}
variable {next : Option Node}

/-- Only a run that has not visited anything yet is about to diagnose. -/
theorem walk_diagnose (walk : Walk rt others initialState world vs s (some .diagnose) w) :
    vs = [] := by
  cases hvs : vs with
  | nil => rfl
  | cons v past =>
    subst hvs
    obtain ⟨_, _, hled, _⟩ := walk_cons walk
    have hedge := led_edge hled
    generalize v.node = n at hedge
    cases hedge

/-- From a valid proposal to the next proposal the state stays anchored. -/
theorem anchored_since_proposal {later older : List Visit} {p : Visit}
    (walk : Walk rt others initialState world (later ++ p :: older) s next w)
    (hp : p.node = .proposeAction) (hlater : ∀ v ∈ later, v.node ≠ .proposeAction)
    (hvalid : p.after.invalidProposalReason = some none) : Anchored rt s := by
  induction later generalizing s next w with
  | nil =>
    obtain ⟨hs, _, hled, _⟩ := walk_cons walk
    rw [hs]
    exact anchored_of_proposal hled hp hvalid
  | cons v later ih =>
    obtain ⟨hs, _, hled, u, hwalk, _⟩ := walk_cons walk
    have hbefore : Anchored rt v.before :=
      ih hwalk (fun k hk => hlater k (List.mem_cons_of_mem v hk))
    have hdiagnose : v.node ≠ .diagnose := by
      intro hnode
      rw [hnode] at hwalk
      have hnil := walk_diagnose hwalk
      simp at hnil
    rw [hs]
    exact anchored_step hled (hlater v List.mem_cons_self) hdiagnose hbefore

/-- A proposal that was sent on to its classification was valid. -/
theorem valid_of_routed {p : Visit} (hled : p.Led rt next) (hp : p.node = .proposeAction)
    (hrouted : textTruthy p.after.invalidProposalReason = false) :
    p.after.invalidProposalReason = some none := by
  obtain ⟨_, obs, reason, fingerprint, _, hreason, _, hafter⟩ := led_proposeAction hled hp
  rw [hafter] at hrouted ⊢
  cases reason with
  | none => rfl
  | some text =>
    have hne := validateProposal_reason hreason
    simp [textTruthy, hne] at hrouted

/-- The observations that the action of a granted cycle was anchored to: those
before the reviewer's edit, or those before the proposal. -/
def AnchoredTo (past : List Event) (awt : Visit) (action : String) (obs : Observations) : Prop :=
  (editedAction awt.answers.decision = .ok (some action) ∧ awt.before.observations = some obs) ∨
  (editedAction awt.answers.decision = .ok none ∧ ∃ p older, visits past = cycle past ++ p :: older ∧
    p.node = .proposeAction ∧ p.after.proposedAction = some (.str action) ∧
    p.before.observations = some obs)

/-- An execution in a cycle with an approval: the last sweep was taken after the
decision, and gives the executed action the fingerprint that it was anchored with. -/
def Revalidated (rt : Runtime) (past : List Event) (v : Visit) : Prop :=
  ∃ prep rev awt earlier action fresh anchor fingerprint,
    cycle past = prep :: rev :: awt :: earlier ∧ prep.node = .prepareExecution ∧
    rev.node = .revalidate ∧ awt.node = .awaitApproval ∧
    v.before.proposedAction = some (.str action) ∧
    gatherObservations rev.worldBefore = .ok fresh ∧
    computeFingerprint rt.digest fresh action = .ok fingerprint ∧
    AnchoredTo past awt action anchor ∧ computeFingerprint rt.digest anchor action = .ok fingerprint

/-- The mark and the classification keep what the proposal stored. -/
theorem kept_until_approval {mrk cls prop : Visit} {older : List Visit}
    (walk : Walk rt others initialState world (mrk :: cls :: prop :: older) s next w)
    (hmrk : mrk.node = .markAwaitingApproval) (hcls : cls.node = .classifyRisk) :
    s.proposedAction = prop.after.proposedAction ∧ s.observations = prop.after.observations ∧
      s.stateFingerprint = prop.after.stateFingerprint := by
  obtain ⟨hs, _, hledMrk, _⟩ := walk_cons walk
  obtain ⟨hmrkBefore, _, hwalk⟩ := walk_cons_cons walk
  obtain ⟨_, _, hledCls, _⟩ := walk_cons hwalk
  obtain ⟨hclsBefore, _, _⟩ := walk_cons_cons hwalk
  obtain ⟨_, hmrkAfter⟩ := led_markAwaitingApproval hledMrk hmrk
  obtain ⟨_, _, _, _, _, _, _, _, _, _, _, hclsAfter⟩ := led_classifyRisk hledCls hcls
  subst hs
  rw [hmrkAfter, hmrkBefore, hclsAfter, hclsBefore]
  exact ⟨rfl, rfl, rfl⟩

/-- The visits of a cycle with an approval that ends in an execution. -/
theorem approved_route {past : List Event} {v : Visit} {c : Config} (hrt : rt.revalidate = true)
    (run : Run rt others runId initialState world (.visit v :: past) c)
    (hexecute : v.node = .execute) (happroval : ∃ a ∈ cycle past, a.node = .awaitApproval) :
    ∃ prep rev awt mrk cls prop older w,
      visits past = prep :: rev :: awt :: mrk :: cls :: prop :: older ∧
      cycle past = [prep, rev, awt, mrk, cls] ∧
      Walk rt others (startWorkflow runId initialState world).state world
        (prep :: rev :: awt :: mrk :: cls :: prop :: older) v.before (some .execute) w ∧
      prep.node = .prepareExecution ∧ rev.node = .revalidate ∧ awt.node = .awaitApproval ∧
      mrk.node = .markAwaitingApproval ∧ cls.node = .classifyRisk ∧ prop.node = .proposeAction ∧
      prop.after.invalidProposalReason = some none ∧
      ∃ d, rev.after.driftDetected = some d ∧ d.truthy = false := by
  obtain ⟨_, _, _, b, hrun, hnext, hstate, _⟩ := run_visit_walk run
  obtain ⟨w, hwalk, _⟩ := run_walk hrun
  rw [hnext, hexecute, hstate] at hwalk
  obtain ⟨prep, hprep, hroute⟩ := walk_to_execution hwalk
  rcases hroute with ⟨cls, prop, older, hvs, hcls, hprop, _⟩ |
    ⟨rev, awt, mrk, cls, prop, older, hvs, hrev, hawt, hmrk, hcls, hprop, _, _, hdrift⟩ |
    ⟨_, _, _, _, _, _, _, _, _, _, hblind, _⟩
  · -- an autonomous cycle has no approval in it
    have hrecent : ∀ u ∈ [prep, cls], u.node ≠ .proposeAction := by simp [hprep, hcls]
    obtain ⟨a, ha, hnode⟩ := happroval
    rw [cycle_eq hvs hprop hrecent] at ha
    rcases List.mem_pair.mp ha with rfl | rfl
    · rw [hprep] at hnode
      cases hnode
    · rw [hcls] at hnode
      cases hnode
  · have hrecent : ∀ u ∈ [prep, rev, awt, mrk, cls], u.node ≠ .proposeAction := by
      simp [hprep, hrev, hawt, hmrk, hcls]
    have hcycle : cycle past = [prep, rev, awt, mrk, cls] := cycle_eq hvs hprop hrecent
    rw [hvs] at hwalk
    obtain ⟨_, _, hwalkRev⟩ := walk_cons_cons hwalk
    obtain ⟨_, _, hwalkAwt⟩ := walk_cons_cons hwalkRev
    obtain ⟨_, _, hwalkMrk⟩ := walk_cons_cons hwalkAwt
    obtain ⟨_, _, hwalkCls⟩ := walk_cons_cons hwalkMrk
    obtain ⟨_, _, hwalkProp⟩ := walk_cons_cons hwalkCls
    obtain ⟨_, _, hledProp, _⟩ := walk_cons hwalkProp
    have hvalid : prop.after.invalidProposalReason = some none := by
      obtain ⟨q, _, hq⟩ := walk_last (hcls ▸ hwalkProp) (by simp)
      obtain ⟨_, hrouted⟩ := to_classifyRisk hq
      cases hq.visits_eq
      exact valid_of_routed hledProp hprop hrouted
    exact ⟨prep, rev, awt, mrk, cls, prop, older, w, hvs, hcycle, hwalk, hprep, hrev, hawt, hmrk,
      hcls, hprop, hvalid, hdrift⟩
  · rw [hrt] at hblind
    cases hblind

theorem revalidated_execution {past : List Event} {v : Visit} {c : Config}
    (hrt : rt.revalidate = true)
    (run : Run rt others runId initialState world (.visit v :: past) c)
    (hexecute : v.node = .execute) (happroval : ∃ a ∈ cycle past, a.node = .awaitApproval) :
    Revalidated rt past v := by
  obtain ⟨prep, rev, awt, mrk, cls, prop, older, w, hvs, hcycle, hwalk, hprep, hrev, hawt, hmrk,
    hcls, hprop, hvalid, d, hd, hsteady⟩ := approved_route hrt run hexecute happroval
  have hvisits : visits past = cycle past ++ prop :: older := by rw [hcycle, hvs]; rfl
  obtain ⟨hlast, _, hledPrep, _⟩ := walk_cons hwalk
  obtain ⟨hprepBefore, _, hwalkRev⟩ := walk_cons_cons hwalk
  obtain ⟨_, _, hledRev, _⟩ := walk_cons hwalkRev
  obtain ⟨hrevBefore, _, hwalkAwt⟩ := walk_cons_cons hwalkRev
  obtain ⟨_, _, hledAwt, _⟩ := walk_cons hwalkAwt
  obtain ⟨hawtBefore, _, hwalkMrk⟩ := walk_cons_cons hwalkAwt
  obtain ⟨_, _, _, _, _, hprepAfter⟩ := led_prepareExecution hledPrep hprep
  obtain ⟨_, fresh, action, fingerprint, anchored, hfresh, haction, hf, hanchored, hrevAfter⟩ :=
    led_revalidate hledRev hrev
  have hsame : some fingerprint = anchored := by
    rw [hrevAfter] at hd
    cases hd
    simpa [Json.truthy] using hsteady
  have hexecuted : v.before.proposedAction = some (.str action) := by
    rw [hlast, hprepAfter, hprepBefore, hrevAfter]
    exact haction
  have hawtAction : awt.after.proposedAction = some (.str action) := by rw [← hrevBefore, haction]
  have hawtFingerprint : awt.after.stateFingerprint = some (some fingerprint) := by
    rw [← hrevBefore, hanchored, hsame]
  obtain ⟨_, decided, approver, edit, _, hedit, hcases⟩ := led_awaitApproval hledAwt hawt
  rcases hcases with ⟨hnone, hafter⟩ | ⟨newAction, obs, f, hsome, hobs, hf', hafter⟩
  · obtain ⟨hkeptAction, _, hkeptFingerprint⟩ := kept_until_approval hwalkMrk hmrk hcls
    rw [hafter] at hawtAction hawtFingerprint
    have hpropAction : prop.after.proposedAction = some (.str action) := by
      rw [← hkeptAction]
      exact hawtAction
    have hpropFingerprint : prop.after.stateFingerprint = some (some fingerprint) := by
      rw [← hkeptFingerprint]
      exact hawtFingerprint
    obtain ⟨_, _, hwalkCls⟩ := walk_cons_cons hwalkMrk
    obtain ⟨_, _, hwalkProp⟩ := walk_cons_cons hwalkCls
    obtain ⟨_, _, hledProp, _⟩ := walk_cons hwalkProp
    obtain ⟨_, obs, reason, stored, hobs, _, hanchor, hpropAfter⟩ :=
      led_proposeAction hledProp hprop
    rw [hpropAfter] at hpropAction hpropFingerprint
    cases hpropAction
    cases hpropFingerprint
    have hreason : reason = none := by
      rw [hpropAfter] at hvalid
      simpa using hvalid
    obtain ⟨f, hf', hstored⟩ := hanchor hreason
    cases hstored
    rw [hnone] at hedit
    exact ⟨prep, rev, awt, [mrk, cls], _, fresh, obs, _, hcycle, hprep, hrev, hawt, hexecuted,
      hfresh, hf, Or.inr ⟨hedit, prop, older, hvisits, hprop, by rw [hpropAfter], hobs⟩, hf'⟩
  · rw [hafter] at hawtAction hawtFingerprint
    cases hawtAction
    cases hawtFingerprint
    rw [hsome] at hedit
    exact ⟨prep, rev, awt, [mrk, cls], action, fresh, obs, fingerprint, hcycle, hprep, hrev, hawt,
      hexecuted, hfresh, hf, Or.inl ⟨hedit, hobs⟩, hf'⟩

/-- Between a valid proposal and the next one the stored fingerprint belongs to
the stored action and observations, and an execution after an approval follows a
sweep on which its action still has the fingerprint it was anchored with. -/
theorem fingerprint_anchoring {past : List Event} {c : Config} (hrt : rt.revalidate = true)
    (run : Run rt others runId initialState world past c) :
    (∀ later p older, visits past = later ++ p :: older → p.node = .proposeAction →
      p.after.invalidProposalReason = some none → (∀ v ∈ later, v.node ≠ .proposeAction) →
      Anchored rt c.state) ∧
    ∀ v rest, past = .visit v :: rest → v.node = .execute →
      (∃ a ∈ cycle rest, a.node = .awaitApproval) → Revalidated rt rest v := by
  constructor
  · intro later p older hvs hp hvalid hlater
    obtain ⟨w, hwalk, _⟩ := run_walk run
    rw [hvs] at hwalk
    exact anchored_since_proposal hwalk hp hlater hvalid
  · rintro v rest rfl hexecute happroval
    exact revalidated_execution hrt run hexecute happroval

end Runs

def approvedScaleMoves : List Move :=
  [.answer {}, .answer { proposal := { tool := "scale_service", target := "service_b" } },
    .answer { classification := { tier := "medium" } }, .answer {},
    .answer { decision := .obj [("decision", .str "approved")] }, .answer {}, .answer {}, .answer {}]

/-- A scaling that its reviewer approved is revalidated and executed. -/
theorem fingerprint_anchoring_scale :
    ∃ past v c, Run { digest := id } (fun _ _ => False) "run-1" {} (freshSandbox [])
      (.visit v :: past) c ∧ Anchored { digest := id } c.state ∧
      Revalidated { digest := id } past v := by
  obtain ⟨v, past, c, hplay, hcheck⟩ := endsIn_spec
    (p := fun v past _ => decide (v.node = .execute) &&
      (cycle past).any (fun a => decide (a.node = .awaitApproval)) &&
      (visits past).any isPropose &&
      (visits past).all (fun p => !isPropose p ||
        decide (p.after.invalidProposalReason = some none)))
    (show endsIn (play { digest := id } approvedScaleMoves []
      (startWorkflow "run-1" {} (freshSandbox []))) _ = true by decide +kernel)
  simp only [Bool.and_eq_true, decide_eq_true_eq, List.any_eq_true, List.all_eq_true,
    Bool.or_eq_true, Bool.not_eq_true'] at hcheck
  obtain ⟨⟨⟨hexecute, a, ha, hawait⟩, q, hq, hpropose⟩, hvalid⟩ := hcheck
  have run : Run { digest := id } (fun _ _ => False) "run-1" {} (freshSandbox [])
      (.visit v :: past) c := play_trace (by simp [Allowed, approvedScaleMoves]) .start hplay
  obtain ⟨p, older, hsplit, hp⟩ := since_split ⟨q, hq, hpropose⟩
  have hvisits : visits (.visit v :: past) = (v :: cycle past) ++ p :: older := by
    rw [cycle, List.cons_append, ← hsplit]
    rfl
  have hmem : p ∈ visits past := by rw [hsplit]; simp
  have hpvalid : p.after.invalidProposalReason = some none := by
    rcases hvalid p hmem with hnot | hvalid
    · rw [hp] at hnot
      cases hnot
    · exact hvalid
  have hlater : ∀ k ∈ v :: cycle past, k.node ≠ .proposeAction := by
    intro k hk
    rcases List.mem_cons.mp hk with rfl | hk
    · rw [hexecute]
      decide
    · simpa [isPropose] using not_of_mem_since hk
  obtain ⟨hanchored, hrevalidated⟩ := fingerprint_anchoring rfl run
  exact ⟨past, v, c, run, hanchored _ p older hvisits (by simpa [isPropose] using hp) hpvalid hlater,
    hrevalidated v past rfl hexecute ⟨a, ha, hawait⟩⟩

end Anchoring
