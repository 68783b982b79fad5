import Interlock.DriftDetection

/-!
# What audit records say

Every record copies the action, the tier and the idempotency key from the state that its
transition left. A new proposal or an edit replaces the action alone, so a record is
consistent exactly as long as the key and the tier at hand fit each action put in place.
-/

namespace AuditRecords

open PythonValues Tools DiagnosticSweep RiskPolicy RunState Nodes Graph Transitions Walks
open PlanningCycle
open DriftDetection (leakingAndFull)

/-! ### The record of a visit -/

theorem asOptionalStr_some_iff {model field t : String} {x : Option Json} :
    asOptionalStr model field x = .ok (some t) ↔ x = some (.str t) := by
  cases x with
  | none => simp [asOptionalStr]
  | some j => cases j <;> simp [asOptionalStr, asStr, Except.map]

/-- A field shows a text exactly if its entry is this text. -/
theorem shown_iff {model field t : String} {x : Option Json} {y : Option String}
    (h : asOptionalStr model field x = .ok y) : y = some t ↔ x = some (.str t) := by
  constructor
  · rintro rfl
    exact asOptionalStr_some_iff.mp h
  · intro hx
    rw [asOptionalStr_some_iff.mpr hx] at h
    exact (Except.ok.inj h).symm

/-- A record of the visit. -/
structure Shows (record : AuditRecord) (v : Visit) : Prop where
  runId : v.after.runId = some (.str record.runId)
  fromState : asOptionalStr "AuditRecord" "from_state" v.before.status = .ok record.fromState
  toState : asOptionalStr "AuditRecord" "to_state" v.after.status = .ok record.toState
  action : asOptionalStr "AuditRecord" "action_proposed" v.after.proposedAction =
    .ok record.actionProposed
  riskTier : asOptionalStr "AuditRecord" "risk_tier" v.after.riskTierFinal = .ok record.riskTier
  idempotencyKey : asOptionalStr "AuditRecord" "idempotency_key" v.after.idempotencyKey =
    .ok record.idempotencyKey
  timestamp : record.timestamp = v.answers.clock

theorem shows_of_auditRecord {v : Visit} {update : Update} {record : AuditRecord}
    (hafter : v.after = v.before.merge update)
    (h : auditRecord v.answers.clock v.node v.before update = .ok record) : Shows record v := by
  obtain ⟨hrunId, hclock, hfrom, hto, _, haction, htier, _, _, hkey⟩ := auditRecord_fields h
  rw [← hafter] at hrunId hto haction htier hkey
  exact ⟨hrunId, hfrom, hto, haction, htier, hkey, hclock⟩

/-- A visit appends its record. -/
theorem step_audit {rt : Runtime} {answers : Answers} {node : Node} {c c' : Config}
    (hnext : c.next = some node) (h : (step rt answers c).1 = .ok c') :
    ∃ record, c'.audit = c.audit ++ [record] ∧
      Shows record ⟨node, answers, c.state, c.world, c'.state, c'.world⟩ := by
  obtain ⟨record, henter, haudit⟩ := step_entered hnext h
  obtain ⟨update, _, hvalid, hmerge, _⟩ := enter_ok_iff.mp henter
  exact ⟨record, haudit, shows_of_auditRecord hmerge hvalid⟩

/-! ### Consistent records -/

/-- The action that a visit to `classify_risk` classified, and the tier it gave. -/
def classified (v : Visit) : Except PyError (String × String) := do
  let proposedAction ← requiredText "proposed_action" v.before.proposedAction
  let (tool, _) ← splitColon proposedAction
  let observations ← required "observations" v.before.observations
  let situational ← situationalFeatures observations proposedAction
  return (proposedAction, applyPolicy tool v.answers.classification.tier situational)

/-- The tier that `apply_policy` gave for the action when it was last classified. -/
def tierGiven (action : String) : List Visit → Option String
  | [] => none
  | v :: past =>
    match v.node, classified v with
    | .classifyRisk, .ok (proposedAction, tier) =>
      if proposedAction = action then some tier else tierGiven action past
    | _, _ => tierGiven action past

/-- The key is that of the run and the record's action, and the tier the one that was
given for this action in the visits so far. -/
structure Consistent (past : List Visit) (record : AuditRecord) : Prop where
  key : ∀ key, record.idempotencyKey = some key →
    ∃ action, record.actionProposed = some action ∧ key = idempotencyKey record.runId action
  tier : ∀ tier, record.riskTier = some tier →
    ∃ action, record.actionProposed = some action ∧ tierGiven action past = some tier
  forced : ∀ action tool target, record.actionProposed = some action →
    splitColon action = .ok (tool, target) → tool ∈ forcedHighTools →
    record.riskTier ≠ some "low" ∧ record.riskTier ≠ some "medium"

/-- Every record is consistent with the visits up to its own, of which the latest stand
first. -/
def SelfConsistent (past : List Visit) (audit : List AuditRecord) : Prop :=
  ∀ earlier record later, audit = earlier ++ record :: later →
    Consistent (past.drop later.length) record

theorem selfConsistent_nil {past : List Visit} : SelfConsistent past [] := by
  intro earlier record later h
  simp at h

theorem selfConsistent_snoc {past : List Visit} {v : Visit} {audit : List AuditRecord}
    {record : AuditRecord} :
    SelfConsistent (v :: past) (audit ++ [record]) ↔
      SelfConsistent past audit ∧ Consistent (v :: past) record := by
  constructor
  · intro h
    constructor
    · rintro earlier older later rfl
      simpa using h earlier older (later ++ [record]) (by simp)
    · exact h audit record [] rfl
  · rintro ⟨hpast, hlast⟩ earlier older later h
    rcases List.eq_nil_or_concat later with rfl | ⟨later, newest, rfl⟩
    · obtain ⟨_, hsame⟩ := List.append_inj' h rfl
      cases hsame
      exact hlast
    · rw [List.concat_eq_append, ← List.cons_append, ← List.append_assoc] at h
      obtain ⟨rfl, _⟩ := List.append_inj' h rfl
      simpa using hpast earlier older later rfl

/-! ### Keys and tiers that fit an action -/

/-- The key and the tier of the state are those of the action. -/
structure Fits (past : List Visit) (s : AgentState) (shown : Option Json) : Prop where
  key : ∀ key, s.idempotencyKey = some (.str key) → ∃ runId action,
    s.runId = some (.str runId) ∧ shown = some (.str action) ∧ key = idempotencyKey runId action
  tier : ∀ tier, s.riskTierFinal = some (.str tier) →
    ∃ action, shown = some (.str action) ∧ tierGiven action past = some tier

theorem fits_of_blank {past : List Visit} {s : AgentState} {shown : Option Json}
    (hkey : s.idempotencyKey = none) (htier : s.riskTierFinal = none) : Fits past s shown := by
  constructor
  · intro key h
    rw [hkey] at h
    cases h
  · intro tier h
    rw [htier] at h
    cases h

section Given

variable {rt : Runtime} {v : Visit} {next : Option Node} {past : List Visit} {action : String}

theorem tierGiven_of_not (h : v.node ≠ .classifyRisk) :
    tierGiven action (v :: past) = tierGiven action past := by
  rw [tierGiven]
  split
  · rename_i hnode _
    exact absurd hnode h
  · rfl

/-- What a classification gives for its action is the tier it leaves. -/
theorem tierGiven_classified (h : v.Led rt next) (hnode : v.node = .classifyRisk) :
    ∃ action tier, v.after.proposedAction = some (.str action) ∧
      v.after.riskTierFinal = some (.str tier) ∧
      v.after.idempotencyKey = v.before.idempotencyKey ∧
      tierGiven action (v :: past) = some tier := by
  obtain ⟨_, action, tool, target, obs, situational, _, haction, hsplit, hobs, hsituational, hafter⟩ :=
    led_classifyRisk h hnode
  have hclassified : classified v =
      .ok (action, applyPolicy tool v.answers.classification.tier situational) := by
    apply except_bind_ok_iff.mpr ⟨action, requiredText_ok_iff.mpr haction, ?_⟩
    apply except_bind_ok_iff.mpr ⟨(tool, target), hsplit, ?_⟩
    apply except_bind_ok_iff.mpr ⟨obs, required_ok_iff.mpr hobs, ?_⟩
    exact except_bind_ok_iff.mpr ⟨situational, hsituational, rfl⟩
  refine ⟨action, applyPolicy tool v.answers.classification.tier situational, ?_, ?_, ?_, ?_⟩
  · rw [hafter, haction]
  · rw [hafter]
  · rw [hafter]
  · simp only [tierGiven, hnode, hclassified, if_true]

/-- A tool that is forced high was given no other tier. -/
theorem tierGiven_forced {tool target tier : String} (hsplit : splitColon action = .ok (tool, target))
    (hforced : tool ∈ forcedHighTools) (h : tierGiven action past = some tier) : tier = "high" := by
  induction past with
  | nil => cases h
  | cons v past ih =>
    rw [tierGiven] at h
    split at h
    · rename_i proposedAction given _ hclassified
      split at h
      · rename_i hsame
        cases h
        subst hsame
        obtain ⟨a, ha, hclassified⟩ := except_bind_ok_iff.mp hclassified
        obtain ⟨⟨t, _⟩, ht, hclassified⟩ := except_bind_ok_iff.mp hclassified
        obtain ⟨_, _, hclassified⟩ := except_bind_ok_iff.mp hclassified
        obtain ⟨_, _, hclassified⟩ := except_bind_ok_iff.mp hclassified
        cases hclassified
        rw [hsplit] at ht
        cases ht
        exact if_pos hforced
      · exact ih h
    · exact ih h

/-- A record is consistent if the key and the tier it was copied with fit its action. -/
theorem consistent_iff {record : AuditRecord} (h : Shows record v) :
    Consistent past record ↔ Fits past v.after v.after.proposedAction := by
  constructor
  · intro hc
    constructor
    · intro key hk
      obtain ⟨action, ha, hsame⟩ := hc.key key ((shown_iff h.idempotencyKey).mpr hk)
      exact ⟨record.runId, action, h.runId, (shown_iff h.action).mp ha, hsame⟩
    · intro tier ht
      obtain ⟨action, ha, hgiven⟩ := hc.tier tier ((shown_iff h.riskTier).mpr ht)
      exact ⟨action, (shown_iff h.action).mp ha, hgiven⟩
  · intro hf
    have hgiven : ∀ tier, record.riskTier = some tier →
        ∃ action, record.actionProposed = some action ∧ tierGiven action past = some tier := by
      intro tier ht
      obtain ⟨action, ha, hgiven⟩ := hf.tier tier ((shown_iff h.riskTier).mp ht)
      exact ⟨action, (shown_iff h.action).mpr ha, hgiven⟩
    have hhigh : ∀ action tool target, record.actionProposed = some action →
        splitColon action = .ok (tool, target) → tool ∈ forcedHighTools →
        ∀ tier, record.riskTier = some tier → tier = "high" := by
      intro action tool target ha hsplit hforced tier ht
      obtain ⟨given, hshown, htierGiven⟩ := hgiven tier ht
      rw [ha] at hshown
      cases hshown
      exact tierGiven_forced hsplit hforced htierGiven
    refine ⟨?_, hgiven, ?_⟩
    · intro key hk
      obtain ⟨runId, action, hrunId, ha, rfl⟩ := hf.key key ((shown_iff h.idempotencyKey).mp hk)
      rw [h.runId] at hrunId
      cases hrunId
      exact ⟨action, (shown_iff h.action).mpr ha, rfl⟩
    · intro action tool target ha hsplit hforced
      have hhigh := hhigh action tool target ha hsplit hforced
      exact ⟨fun hlow => absurd (hhigh _ hlow) (by decide),
        fun hmedium => absurd (hhigh _ hmedium) (by decide)⟩

/-! ### What puts an action in place -/

/-- The action that the graph is entered with, a proposal, or an edit. -/
inductive Puts (v : Visit) : Option Json → Prop where
  | entered (h : v.node = .diagnose) : Puts v v.before.proposedAction
  | proposed (h : v.node = .proposeAction) : Puts v (some (.str v.answers.proposal.action))
  | edited {newAction : String} (h : v.node = .awaitApproval)
      (hedit : editedAction v.answers.decision = .ok (some newAction)) :
      Puts v (some (.str newAction))

/-- Whatever action the visit puts in place, the key and the tier at hand are its own. -/
def PutsFitting (past : List Visit) (v : Visit) : Prop :=
  ∀ shown, Puts v shown → Fits past v.before shown

/-- Which nodes write the entries that a record copies. -/
structure TagsKept (v : Visit) : Prop where
  proposedAction : v.node ≠ .proposeAction → v.node ≠ .awaitApproval →
    v.after.proposedAction = v.before.proposedAction
  key : v.node ≠ .prepareExecution → v.after.idempotencyKey = v.before.idempotencyKey
  tier : v.node ≠ .classifyRisk → v.after.riskTierFinal = v.before.riskTierFinal

theorem led_tagsKept (h : v.Led rt next) : TagsKept v := by
  have haction := (led_kept h).proposedAction
  cases hnode : v.node with
  | diagnose =>
    obtain ⟨_, _, _, hafter⟩ := led_diagnose h hnode
    exact ⟨haction, fun _ => by rw [hafter], fun _ => by rw [hafter]⟩
  | proposeAction =>
    obtain ⟨_, _, _, _, _, _, _, hafter⟩ := led_proposeAction h hnode
    exact ⟨haction, fun _ => by rw [hafter], fun _ => by rw [hafter]⟩
  | classifyRisk =>
    obtain ⟨_, _, _, _, _, _, _, _, _, _, _, hafter⟩ := led_classifyRisk h hnode
    exact ⟨haction, fun _ => by rw [hafter], fun hne => absurd hnode hne⟩
  | markAwaitingApproval =>
    obtain ⟨_, hafter⟩ := led_markAwaitingApproval h hnode
    exact ⟨haction, fun _ => by rw [hafter], fun _ => by rw [hafter]⟩
  | awaitApproval =>
    obtain ⟨_, _, _, _, _, _, ⟨_, hafter⟩ | ⟨_, _, _, _, _, _, hafter⟩⟩ := led_awaitApproval h hnode
    · exact ⟨haction, fun _ => by rw [hafter], fun _ => by rw [hafter]⟩
    · exact ⟨haction, fun _ => by rw [hafter], fun _ => by rw [hafter]⟩
  | revalidate =>
    obtain ⟨_, _, _, _, _, _, _, _, _, hafter⟩ := led_revalidate h hnode
    exact ⟨haction, fun _ => by rw [hafter], fun _ => by rw [hafter]⟩
  | prepareExecution =>
    obtain ⟨_, _, _, _, _, hafter⟩ := led_prepareExecution h hnode
    exact ⟨haction, fun hne => absurd hnode hne, fun _ => by rw [hafter]⟩
  | execute =>
    obtain ⟨_, _, _, _, _, _, hafter⟩ := led_execute h hnode
    exact ⟨haction, fun _ => by rw [hafter], fun _ => by rw [hafter]⟩
  | verify =>
    obtain ⟨_, _, _, _, _, _, _, hafter⟩ := led_verify h hnode
    exact ⟨haction, fun _ => by rw [hafter], fun _ => by rw [hafter]⟩
  | rollingBack =>
    obtain ⟨_, _, _, _, hafter⟩ := led_rollingBack h hnode
    exact ⟨haction, fun _ => by rw [hafter], fun _ => by rw [hafter]⟩
  | rolledBack =>
    obtain ⟨_, hafter⟩ := led_rolledBack h hnode
    exact ⟨haction, fun _ => by rw [hafter], fun _ => by rw [hafter]⟩
  | replan =>
    obtain ⟨_, _, _, hafter⟩ := led_replan h hnode
    exact ⟨haction, fun _ => by rw [hafter], fun _ => by rw [hafter]⟩
  | escalate =>
    obtain ⟨_, hafter⟩ := led_escalate h hnode
    exact ⟨haction, fun _ => by rw [hafter], fun _ => by rw [hafter]⟩
  | completed =>
    obtain ⟨_, hafter⟩ := led_completed h hnode
    exact ⟨haction, fun _ => by rw [hafter], fun _ => by rw [hafter]⟩

/-- A visit that writes no key and no tier leaves those of the state before. -/
theorem fits_untagged {shown : Option Json} (h : v.Led rt next) (hkey : v.node ≠ .prepareExecution)
    (htier : v.node ≠ .classifyRisk) :
    Fits (v :: past) v.after shown ↔ Fits past v.before shown := by
  have hkept := led_tagsKept h
  have hrunId := (led_kept h).runId
  constructor
  · rintro ⟨hk, ht⟩
    rw [hkept.key hkey, hrunId] at hk
    rw [hkept.tier htier] at ht
    exact ⟨hk, fun tier h => by simpa only [tierGiven_of_not htier] using ht tier h⟩
  · rintro ⟨hk, ht⟩
    rw [← hkept.key hkey, ← hrunId] at hk
    rw [← hkept.tier htier] at ht
    exact ⟨hk, fun tier h => by simpa only [tierGiven_of_not htier] using ht tier h⟩

/-- The classification of the action at hand fits it, and so does its key. -/
theorem fits_classified (h : v.Led rt next) (hnode : v.node = .classifyRisk)
    (hbefore : Fits past v.before v.before.proposedAction) :
    Fits (v :: past) v.after v.after.proposedAction := by
  obtain ⟨action, tier, haction, htier, hkey, hgiven⟩ := tierGiven_classified h hnode
  have hsame : v.after.proposedAction = v.before.proposedAction :=
    (led_kept h).proposedAction (by simp [hnode]) (by simp [hnode])
  constructor
  · intro key hk
    rw [hkey] at hk
    rw [(led_kept h).runId, hsame]
    exact hbefore.key key hk
  · intro tier' ht
    rw [htier] at ht
    cases ht
    exact ⟨action, haction, hgiven⟩

theorem fits_prepared (h : v.Led rt next) (hnode : v.node = .prepareExecution)
    (hbefore : Fits past v.before v.before.proposedAction) :
    Fits (v :: past) v.after v.after.proposedAction := by
  obtain ⟨_, runId, action, hrunId, haction, hafter⟩ := led_prepareExecution h hnode
  have hne : v.node ≠ .classifyRisk := by simp [hnode]
  constructor
  · intro key hk
    rw [hafter] at hk ⊢
    cases hk
    exact ⟨runId, action, hrunId, haction, rfl⟩
  · intro tier ht
    rw [(led_tagsKept h).tier hne] at ht
    obtain ⟨action', hshown, hgiven⟩ := hbefore.tier tier ht
    refine ⟨action', ?_, ?_⟩
    · rw [(led_kept h).proposedAction (by simp [hnode]) (by simp [hnode]), hshown]
    · rw [tierGiven_of_not hne, hgiven]

/-- What the record of a visit is copied from fits exactly if the action that the visit
puts in place, if it puts one, fits what was at hand. -/
theorem fits_after (h : v.Led rt next)
    (hbefore : v.node ≠ .diagnose → Fits past v.before v.before.proposedAction) :
    Fits (v :: past) v.after v.after.proposedAction ↔ PutsFitting past v := by
  by_cases hclassify : v.node = .classifyRisk
  · have hfits := fits_classified h hclassify (hbefore (by simp [hclassify]))
    refine ⟨fun _ shown hputs => ?_, fun _ => hfits⟩
    cases hputs with
    | entered hnode | proposed hnode | edited hnode _ => simp [hclassify] at hnode
  by_cases hprepare : v.node = .prepareExecution
  · have hfits := fits_prepared h hprepare (hbefore (by simp [hprepare]))
    refine ⟨fun _ shown hputs => ?_, fun _ => hfits⟩
    cases hputs with
    | entered hnode | proposed hnode | edited hnode _ => simp [hprepare] at hnode
  rw [fits_untagged h hprepare hclassify]
  have hput : ∀ shown, Puts v shown → v.after.proposedAction = shown := by
    intro shown hputs
    cases hputs with
    | entered hnode => exact (led_kept h).proposedAction (by simp [hnode]) (by simp [hnode])
    | proposed hnode =>
      obtain ⟨_, _, _, _, _, _, _, hafter⟩ := led_proposeAction h hnode
      rw [hafter]
    | edited hnode hedit =>
      obtain ⟨_, _, _, edit, _, hedit', hcases⟩ := led_awaitApproval h hnode
      rw [hedit] at hedit'
      cases hedit'
      rcases hcases with ⟨hnone, _⟩ | ⟨newAction, _, _, hsome, _, _, hafter⟩
      · cases hnone
      · cases hsome
        rw [hafter]
  constructor
  · intro hfits shown hputs
    rw [← hput shown hputs]
    exact hfits
  · intro hputs
    by_cases hsome : ∃ shown, Puts v shown
    · obtain ⟨shown, hshown⟩ := hsome
      rw [hput shown hshown]
      exact hputs shown hshown
    · have hkept : v.after.proposedAction = v.before.proposedAction := by
        by_cases hawait : v.node = .awaitApproval
        · obtain ⟨_, _, _, edit, _, hedit, hcases⟩ := led_awaitApproval h hawait
          rcases hcases with ⟨_, hafter⟩ | ⟨newAction, _, _, rfl, _, _, _⟩
          · rw [hafter]
          · exact absurd ⟨_, .edited hawait hedit⟩ hsome
        · exact (led_kept h).proposedAction (fun hnode => hsome ⟨_, .proposed hnode⟩) hawait
      rw [hkept]
      exact hbefore fun hnode => hsome ⟨_, .entered hnode⟩

end Given

/-! ### Runs -/

theorem along_of_forall {ℓ : Type} {C : List ℓ → ℓ → Prop} {past : List ℓ}
    (h : ∀ l ∈ past, ∀ older, C older l) : Along C past := by
  induction past with
  | nil => trivial
  | cons l rest ih =>
    exact ⟨h l List.mem_cons_self rest, ih fun m hm => h m (List.mem_cons_of_mem l hm)⟩

section Runs

variable {rt : Runtime} {others : ToolContext → ToolContext → Prop} {runId : String}
variable {initialState : AgentState} {world : ToolContext} {past : List Event} {c : Config}

/-- Only the first visit enters the graph. -/
theorem visits_of_next {node : Node} (run : Run rt others runId initialState world past c)
    (hnext : c.next = some node) (hnode : node ≠ .diagnose) : visits past ≠ [] := by
  obtain ⟨w, walk, _⟩ := run_walk run
  obtain ⟨v, older, hlast⟩ := walk_last walk (by simp [hnext, hnode])
  simp [hlast.visits_eq]

/-- The records so far are consistent exactly if every action that was put in place
fitted, and then the next visit finds what fits. -/
theorem records_fit (run : Run rt others runId initialState world past c) :
    (SelfConsistent (visits past) c.audit ↔ Along PutsFitting (visits past)) ∧
      (Along PutsFitting (visits past) → visits past ≠ [] →
        Fits (visits past) c.state c.state.proposedAction) := by
  induction run with
  | start => exact ⟨⟨fun _ => trivial, fun _ => selfConsistent_nil⟩, fun _ h => absurd rfl h⟩
  | snoc run hs ih =>
    cases hs with
    | others h => exact ih
    | visit hnext hstep =>
      obtain ⟨hiff, hfits⟩ := ih
      obtain ⟨record, haudit, hshows⟩ := step_audit hnext hstep
      have hled := step_ok hnext hstep
      have hafter := fun halong => fits_after hled fun hnode =>
        hfits halong (visits_of_next run hnext hnode)
      constructor
      · rw [haudit]
        change SelfConsistent (_ :: visits _) _ ↔ Along PutsFitting (_ :: visits _)
        rw [selfConsistent_snoc, hiff, consistent_iff hshows, Along, and_comm]
        exact and_congr_left hafter
      · rintro ⟨hputs, halong⟩ _
        exact (hafter halong).mpr hputs

/-- The audit log of a run is self-consistent if and only if every action that was put in
place, by the initial state, a proposal or an edit, found the key and the tier that are
its own, or none. -/
theorem records_consistent_iff (run : Run rt others runId initialState world past c) :
    SelfConsistent (visits past) c.audit ↔ Along PutsFitting (visits past) :=
  (records_fit run).1

end Runs

/-- A restart is classified low, executed and rolled back; then a rollback of the
deployment is proposed. -/
def restartThenRollback : List Move :=
  .answer {} :: autonomousMoves "restart_service" "service_c" none ++ rollbackMoves ++
    [.answer { proposal := { tool := "rollback_deployment", target := "service_c" } }]

/-- The record of the second proposal shows the tier and the key of the first. -/
theorem rollback_recorded_low :
    ∃ past c record, Run { digest := id } (fun _ _ => False) "run-1" {} leakingAndFull past c ∧
      record ∈ c.audit ∧ record.actionProposed = some "rollback_deployment:service_c" ∧
      record.riskTier = some "low" ∧
      record.idempotencyKey = some "run-1:restart_service:service_c" ∧
      ¬ SelfConsistent (visits past) c.audit := by
  obtain ⟨v, past, c, hplay, hcheck⟩ := endsIn_spec
    (p := fun _ _ c => c.audit.getLast?.any fun record : AuditRecord =>
      decide (record.actionProposed = some "rollback_deployment:service_c") &&
        decide (record.riskTier = some "low") &&
        decide (record.idempotencyKey = some "run-1:restart_service:service_c"))
    (show endsIn (play { digest := id } restartThenRollback []
      (startWorkflow "run-1" {} leakingAndFull)) _ = true by decide +kernel)
  simp only [Option.any_eq_true, Bool.and_eq_true, decide_eq_true_eq] at hcheck
  obtain ⟨record, hlast, ⟨haction, htier⟩, hkey⟩ := hcheck
  have run : Run { digest := id } (fun _ _ => False) "run-1" {} leakingAndFull (.visit v :: past) c :=
    play_trace (by simp [Allowed, restartThenRollback, autonomousMoves, rollbackMoves]) .start hplay
  obtain ⟨earlier, haudit⟩ := List.getLast?_eq_some_iff.mp hlast
  refine ⟨_, c, record, run, List.mem_of_getLast? hlast, haction, htier, hkey, ?_⟩
  intro hconsistent
  exact ((hconsistent earlier record [] haudit).forced _ "rollback_deployment" "service_c" haction
    (by decide +kernel) (by decide)).1 htier

/-- Nothing is at hand in a first cycle, so its records are consistent. -/
theorem first_cycle_consistent :
    ∃ past c, Run { digest := id } (fun _ _ => False) "run-1" {} leakingAndFull past c ∧
      (visits past).length = 9 ∧ SelfConsistent (visits past) c.audit := by
  obtain ⟨v, past, c, hplay, hcheck⟩ := endsIn_spec
    (p := fun v past _ => decide ((visits (.visit v :: past)).length = 9) &&
      (visits (.visit v :: past)).all fun u : Visit =>
        u.before.idempotencyKey.isNone && u.before.riskTierFinal.isNone ||
          decide (u.node ∉ [.diagnose, .proposeAction, .awaitApproval]))
    (show endsIn (play { digest := id } (.answer {} ::
      autonomousMoves "restart_service" "service_c" none ++ rollbackMoves) []
      (startWorkflow "run-1" {} leakingAndFull)) _ = true by decide +kernel)
  simp only [Bool.and_eq_true, decide_eq_true_eq, List.all_eq_true, Bool.or_eq_true,
    Option.isNone_iff_eq_none] at hcheck
  obtain ⟨hlength, hblank⟩ := hcheck
  have run : Run { digest := id } (fun _ _ => False) "run-1" {} leakingAndFull (.visit v :: past) c :=
    play_trace (by simp [Allowed, autonomousMoves, rollbackMoves]) .start hplay
  have hfitting : ∀ u ∈ visits (.visit v :: past), ∀ older, PutsFitting older u := by
    intro u hu older shown hputs
    rcases hblank u hu with ⟨hkey, htier⟩ | hnode
    · exact fits_of_blank hkey htier
    · cases hputs with
      | entered h | proposed h | edited h _ => simp [h] at hnode
  exact ⟨_, c, run, hlength, (records_consistent_iff run).mpr (along_of_forall hfitting)⟩

end AuditRecords
