import Interlock.ApprovalGate
import Interlock.AuditRecords
import Interlock.FramedActions
import Interlock.RegistryRows

/-!
# Evidence before effects

The audit records are written after the visits that they are about, and before the next
visit of the same call. An execution prepares itself one visit earlier than it acts, so
that whatever the server does to the sandbox has been announced in the log before, and
the announcement has been cleared before that.
-/

namespace AuditEvidence

open Dictionary PythonValues Tools Execution RunState Nodes Graph Transitions Walks Service Serving
open FramedActions
open ApprovalGate (isGranted_iff)
open AuditRecords (led_tagsKept)
open DiagnosticSweep (freshSandbox)
open RegistryRows (createCompleted)
open Suspension (DecisionRequest)

/-! ### Records as evidence -/

/-- The record of a low classification, or of a reviewer who granted the action. -/
def Clears (record : AuditRecord) : Prop :=
  (record.toState = some State.riskClassified.value ∧ record.riskTier = some "low") ∨
    (record.actor = .human ∧ (record.decision = some "approved" ∨ record.decision = some "edited"))

/-- The record of a run that is about to execute under `key`. -/
structure Announces (key : String) (record : AuditRecord) : Prop where
  toState : record.toState = some State.executing.value
  keyed : record.idempotencyKey = some key
  own : ∃ action, record.actionProposed = some action ∧ key = idempotencyKey record.runId action

/-- The log has cleared the action for the run. -/
def Cleared (audit : List AuditRecord) (runId action : String) : Prop :=
  ∃ g ∈ audit, Clears g ∧ g.runId = runId ∧ g.actionProposed = some action

/-- The log announces the key, and has cleared the announced action before. -/
def Announced (audit : List AuditRecord) (key : String) : Prop :=
  ∃ g record, [g, record].Sublist audit ∧ Clears g ∧ Announces key record ∧
    g.runId = record.runId ∧ g.actionProposed = record.actionProposed

section Logs

variable {audit : List AuditRecord} {runId action key : String} {record : AuditRecord}

theorem Cleared.append (h : Cleared audit runId action) (later : List AuditRecord) :
    Cleared (audit ++ later) runId action := by
  obtain ⟨g, hg, hclears⟩ := h
  exact ⟨g, List.mem_append_left _ hg, hclears⟩

theorem Announced.append (h : Announced audit key) (later : List AuditRecord) :
    Announced (audit ++ later) key := by
  obtain ⟨g, record, hsub, hclears⟩ := h
  exact ⟨g, record, hsub.trans (List.sublist_append_left _ _), hclears⟩

/-- What has been cleared can be announced. -/
theorem announced_of_cleared (h : Cleared audit record.runId action)
    (haction : record.actionProposed = some action) (hannounces : Announces key record) :
    Announced (audit ++ [record]) key := by
  obtain ⟨g, hg, hclears, hrun, hsame⟩ := h
  refine ⟨g, record, ?_, hclears, hannounces, hrun, hsame.trans haction.symm⟩
  exact (List.singleton_sublist.mpr hg).append (List.Sublist.refl [record])

end Logs

/-! ### What a node can do to the sandbox -/

section Nodes

variable {rt : Runtime} {answers : Answers} {node : Node} {s : AgentState}

theorem within_diagnose {R : ToolContext → ToolContext → Prop} [Std.Refl R] [IsTrans ToolContext R]
    (summary : String) : Within R (Nodes.diagnose summary) :=
  within_bind (within_read _) fun _ => within_pure _

theorem within_revalidate {R : ToolContext → ToolContext → Prop} [Std.Refl R]
    [IsTrans ToolContext R] : Within R (Nodes.revalidate rt s) :=
  within_bind (within_read _) fun _ => within_lift _

theorem within_verify {R : ToolContext → ToolContext → Prop} [Std.Refl R] [IsTrans ToolContext R] :
    Within R (Nodes.verify s) :=
  within_bind (within_lift _) fun _ => within_bind (within_lift _) fun _ =>
    within_bind (within_read _) fun _ => within_pure _

/-- Whether it returns or raises, a node that neither executes nor compensates leaves the
sandbox as it is. -/
theorem node_within {R : ToolContext → ToolContext → Prop} [Std.Refl R] [IsTrans ToolContext R]
    (hexecute : node ≠ .execute) (hrolling : node ≠ .rollingBack) :
    Within R (nodeFn rt answers node s) := by
  cases node with
  | diagnose => exact within_diagnose _
  | proposeAction => exact within_lift _
  | classifyRisk => exact within_lift _
  | markAwaitingApproval => exact within_pure _
  | awaitApproval => exact within_lift _
  | revalidate => exact within_revalidate
  | prepareExecution => exact within_lift _
  | execute => exact absurd rfl hexecute
  | verify => exact within_verify
  | rollingBack => exact absurd rfl hrolling
  | rolledBack => exact within_pure _
  | replan => exact within_lift _
  | escalate => exact within_pure _
  | completed => exact within_pure _

theorem post_store {α : Type} (service : String) (endpoint : MockService.Endpoint α) :
    Within (Same ToolContext.store) (post service endpoint) := by
  intro w
  rw [Same, run_post]
  cases w.client service <;> rfl

/-- A compensation leaves the ledger alone. -/
theorem compensation_store (c : Compensation) :
    Within (Same ToolContext.store) (applyCompensation c) := by
  cases c with
  | noop reason => exact within_pure _
  | scaleService => exact within_bind (post_store _ _) fun _ => within_pure _
  | applyConfigChange => exact within_bind (post_store _ _) fun _ => within_pure _
  | deploy => exact within_bind (post_store _ _) fun _ => within_pure _
  | reinsertRecords rows => exact fun _ => rfl

/-- A call writes no ledger entry but its own. -/
theorem call_store {call : ToolCall} {key other : String} (hother : key ≠ other) :
    Within (Same fun w => w.store.get? other) (call.run key) := by
  intro w
  rw [ToolCall.run_eq]
  cases hentry : w.store.get? key with
  | some existing => rw [runIdempotent_hit hentry]; rfl
  | none =>
    cases hperform : call.perform.run w with
    | mk r w' =>
      have hstore := perform_store hperform
      cases r with
      | error e =>
        rw [runIdempotent_raise hentry hperform]
        exact congrArg (fun store => Dict.get? store other) hstore
      | ok outcome =>
        rw [runIdempotent_miss hentry hperform]
        show Dict.get? (w'.store.setdefault key _) other = _
        rw [Dict.get?_setdefault, if_neg fun h => hother h.1, hstore]

/-- Whether it returns or raises, a node writes no ledger entry but that of the key at hand. -/
theorem node_store {other : String}
    (hother : node = .execute → s.idempotencyKey ≠ some (.str other)) :
    Within (Same fun w => w.store.get? other) (nodeFn rt answers node s) := by
  by_cases hexecute : node = .execute
  · subst hexecute
    refine within_bind (within_lift _) fun action => within_lift_bind fun key hkey => ?_
    have hne : key ≠ other := by
      rintro rfl
      exact hother rfl (requiredText_ok_iff.mp hkey)
    refine within_bind (within_lift_bind fun call _ => ?_) fun _ => within_pure _
    exact within_bind (call_store hne) fun _ => within_pure _
  · by_cases hrolling : node = .rollingBack
    · subst hrolling
      refine within_bind (within_lift _) fun c => within_bind ?_ fun _ => within_pure _
      exact (compensation_store c).mono fun w w' h =>
        congrArg (fun store => Dict.get? store other) h
    · exact node_within hexecute hrolling

end Nodes

/-! ### Checkpoints -/

/-- What the log holds about a run by the time that it is at `next`. -/
structure Evidenced (audit : List AuditRecord) (s : AgentState) (next : Option Node) : Prop where
  shown : next = some .classifyRisk ∨ next = some .markAwaitingApproval ∨
    next = some .awaitApproval → ∃ action, s.proposedAction = some (.str action)
  cleared : next = some .revalidate ∨ next = some .prepareExecution →
    ∃ runId action, s.runId = some (.str runId) ∧ s.proposedAction = some (.str action) ∧
      Cleared audit runId action
  announced : next = some .execute ∨ next = some .verify ∨ next = some .rollingBack →
    ∃ key, s.idempotencyKey = some (.str key) ∧ Announced audit key

/-- A run about to enter the graph needs no evidence. -/
theorem evidenced_diagnose (audit : List AuditRecord) (s : AgentState) :
    Evidenced audit s (some .diagnose) where
  shown := by simp
  cleared := by simp
  announced := by simp

theorem evidenced_input (s : Server) (runId : String) (body : CreateRunRequest) :
    Evidenced s.audit (s.input runId body).state (s.input runId body).next := by
  have hnext : (s.input runId body).next = some .diagnose := by
    rw [Server.input]
    split <;> rfl
  rw [hnext]
  exact evidenced_diagnose _ _

section Visits

variable {rt : Runtime} {answers : Answers} {node : Node} {s : AgentState} {w w' : ToolContext}
variable {audit : List AuditRecord} {update : Update} {record : AuditRecord} {next : Option Node}

theorem Evidenced.append {s : AgentState} (h : Evidenced audit s next) (later : List AuditRecord) :
    Evidenced (audit ++ later) s next where
  shown := h.shown
  cleared hnext := by
    obtain ⟨runId, action, hrun, haction, hcleared⟩ := h.cleared hnext
    exact ⟨runId, action, hrun, haction, hcleared.append later⟩
  announced hnext := by
    obtain ⟨key, hkey, hannounced⟩ := h.announced hnext
    exact ⟨key, hkey, hannounced.append later⟩

/-- The record of a granted decision clears the action that the run goes on with. -/
theorem cleared_by_grant {decision : Json} (h : awaitApproval rt decision s = .ok update)
    (hshown : ∃ action, s.proposedAction = some (.str action))
    (hrecord : auditRecord answers.clock .awaitApproval s update = .ok record)
    (hgranted : ∃ d, (s.merge update).approvalDecision = some d ∧ isGranted d = true) :
    ∃ runId action, (s.merge update).runId = some (.str runId) ∧
      (s.merge update).proposedAction = some (.str action) ∧
      Cleared (audit ++ [record]) runId action := by
  obtain ⟨hrun, _, _, _, hactor, haction, _, _, hdecision, _⟩ := auditRecord_fields hrecord
  obtain ⟨decided, approver, edit, _, _, hupdate⟩ := awaitApproval_ok h
  have hwritten : writtenDecision update = some decided ∧
      (s.merge update).approvalDecision = some decided ∧
      ∃ action, (s.merge update).proposedAction = some (.str action) := by
    rcases hupdate with ⟨_, rfl⟩ | ⟨newAction, _, _, _, _, _, rfl⟩
    · exact ⟨rfl, rfl, hshown⟩
    · exact ⟨rfl, rfl, newAction, rfl⟩
  obtain ⟨hwrites, hafter, action, hproposed⟩ := hwritten
  obtain ⟨d, hd, hgrant⟩ := hgranted
  rw [hafter, Option.some.injEq] at hd
  subst hd
  rw [hproposed] at haction
  refine ⟨record.runId, action, hrun, hproposed, record, by simp, Or.inr ⟨?_, ?_⟩, rfl, ?_⟩
  · rw [hactor, nodeActor, hwrites]
    rcases (isGranted_iff.mp hgrant) with rfl | rfl <;> rfl
  · rw [hwrites] at hdecision
    rcases (isGranted_iff.mp hgrant) with rfl | rfl
    · exact Or.inl (Except.ok.inj hdecision).symm
    · exact Or.inr (Except.ok.inj hdecision).symm
  · exact (Except.ok.inj haction).symm

theorem evidenced_visit (h : Evidenced audit s (some node))
    (hnode : (nodeFn rt answers node s).run w = (.ok update, w'))
    (hrecord : auditRecord answers.clock node s update = .ok record)
    (hroute : nextNode rt node (s.merge update) = .ok next) :
    Evidenced (audit ++ [record]) (s.merge update) next := by
  have hled : Visit.Led rt ⟨node, answers, s, w, s.merge update, w'⟩ next :=
    ⟨update, record, hnode, hrecord, rfl, hroute⟩
  have hedge := led_edge hled
  have hkept := led_kept hled
  have htags := led_tagsKept hled
  obtain ⟨hrun, _, _, hto, _, haction, htier, _, _, hkey⟩ := auditRecord_fields hrecord
  refine ⟨fun hnext => ?_, fun hnext => ?_, fun hnext => ?_⟩
  · cases hedge with
    | proposed =>
      obtain ⟨_, _, _, _, _, _, _, hafter⟩ := led_proposeAction hled rfl
      exact ⟨_, congrArg AgentState.proposedAction hafter⟩
    | gated =>
      obtain ⟨_, action, _, _, _, _, _, hbefore, _⟩ := led_classifyRisk hled rfl
      exact ⟨action, (hkept.proposedAction (by simp) (by simp)).trans hbefore⟩
    | marked =>
      obtain ⟨action, hbefore⟩ := h.shown (by simp)
      exact ⟨action, (hkept.proposedAction (by simp) (by simp)).trans hbefore⟩
    | _ => simp at hnext
  · cases hedge with
    | low hlow =>
      obtain ⟨_, action, _, _, _, _, _, hbefore, _, _, _, hafter⟩ := led_classifyRisk hled rfl
      have hproposed := (hkept.proposedAction (by simp) (by simp)).trans hbefore
      have hstatus : (s.merge update).status = some (.str State.riskClassified.value) :=
        congrArg AgentState.status hafter
      dsimp only at hproposed hlow
      rw [hproposed] at haction
      rw [hlow] at htier
      rw [hstatus] at hto
      exact ⟨record.runId, action, hrun, hproposed, record, by simp,
        Or.inl ⟨(Except.ok.inj hto).symm, (Except.ok.inj htier).symm⟩, rfl,
        (Except.ok.inj haction).symm⟩
    | granted hd hgranted =>
      simp only [nodeFn, Action.run_lift, Prod.mk.injEq] at hnode
      exact cleared_by_grant hnode.1 (h.shown (by simp)) hrecord ⟨_, hd, hgranted⟩
    | grantedBlind hd hgranted =>
      simp only [nodeFn, Action.run_lift, Prod.mk.injEq] at hnode
      exact cleared_by_grant hnode.1 (h.shown (by simp)) hrecord ⟨_, hd, hgranted⟩
    | steady =>
      obtain ⟨runId, action, hrunId, hbefore, hcleared⟩ := h.cleared (by simp)
      exact ⟨runId, action, hkept.runId.trans hrunId,
        (hkept.proposedAction (by simp) (by simp)).trans hbefore, hcleared.append _⟩
    | _ => simp at hnext
  · cases hedge with
    | prepared =>
      obtain ⟨runId, action, hrunId, hbefore, hcleared⟩ := h.cleared (by simp)
      obtain ⟨_, runId', action', hrunId', hbefore', hafter⟩ := led_prepareExecution hled rfl
      dsimp only at hrunId' hbefore'
      rw [hrunId', Option.some.injEq, Json.str.injEq] at hrunId
      rw [hbefore', Option.some.injEq, Json.str.injEq] at hbefore
      subst hrunId hbefore
      have hproposed := (hkept.proposedAction (by simp) (by simp)).trans hbefore'
      have hown := hkept.runId.trans hrunId'
      have hafterKey : (s.merge update).idempotencyKey =
          some (.str (idempotencyKey runId' action')) := congrArg AgentState.idempotencyKey hafter
      have hstatus : (s.merge update).status = some (.str State.executing.value) :=
        congrArg AgentState.status hafter
      dsimp only at hproposed hown
      rw [hown, Option.some.injEq, Json.str.injEq] at hrun
      subst hrun
      rw [hproposed] at haction
      rw [hafterKey] at hkey
      rw [hstatus] at hto
      have hshown : record.actionProposed = some action' := (Except.ok.inj haction).symm
      exact ⟨_, hafterKey, announced_of_cleared hcleared hshown
        ⟨(Except.ok.inj hto).symm, (Except.ok.inj hkey).symm, action', hshown, rfl⟩⟩
    | executed =>
      obtain ⟨key, hbefore, hannounced⟩ := h.announced (by simp)
      exact ⟨key, (htags.key (by simp)).trans hbefore, hannounced.append _⟩
    | failed =>
      obtain ⟨key, hbefore, hannounced⟩ := h.announced (by simp)
      exact ⟨key, (htags.key (by simp)).trans hbefore, hannounced.append _⟩
    | _ => simp at hnext

end Visits

/-! ### The server -/

/-- Others may do anything to the sandbox, but leave the ledger to the server. -/
def LedgerApart (_ : Server) : Label → Prop
  | .others before after => ∀ key, after.store.get? key = before.store.get? key
  | _ => True

/-- Every thread and every call has its evidence in the log, and so has every entry that
has come to the ledger since the server started over `world`. -/
structure Accounted (world : ToolContext) (s : Server) : Prop where
  everywhere : Everywhere (fun _ copy => Evidenced s.audit copy.state copy.next) s
  ledger : ∀ key, s.world.store.get? key ≠ world.store.get? key → Announced s.audit key

section Runs

variable {rt : Runtime} {s s' t : Server} {world : ToolContext} {request : Request}
variable {phase phase' : Phase} {progress : Progress} {answers : Answers} {i : ℕ}

theorem accounted_start (world : ToolContext) : Accounted world { world := world } where
  everywhere := everywhere_start world
  ledger := fun _ h => absurd rfl h

/-- The audit wrapper and the router leave what the node made of the sandbox. -/
theorem enter_world (node : Node) (c : Config) (w : ToolContext) :
    ((enter rt answers node c).run w).2 = ((nodeFn rt answers node c.state).run w).2 := by
  rw [enter, Action.run_bind, withAudit, Action.run_bind]
  cases (nodeFn rt answers node c.state).run w with
  | mk r w' =>
    cases r with
    | error e => rfl
    | ok update =>
      dsimp only
      rw [Action.run_bind, Action.run_lift]
      cases auditRecord answers.clock node c.state update with
      | error e => rfl
      | ok record =>
        dsimp only [Action.run_pure]
        rw [Action.run_bind, Action.run_lift]
        cases nextNode rt node (c.state.merge update) <;> rfl

theorem superstep_world (runId : String) (copy : Checkpoint) (saved : ℕ) (node : Node) :
    (superstep rt answers runId copy saved node s).2.2.world =
      ((nodeFn rt answers node copy.state).run s.world).2 := by
  rw [← enter_world node ⟨copy.state, copy.next, s.world, []⟩, superstep]
  cases (enter rt answers node ⟨copy.state, copy.next, s.world, []⟩).run s.world with
  | mk r w' => cases r <;> rfl

/-- A visit of a request, whether it returned or raised, is an entering of its node. -/
theorem serve_world {copy : Checkpoint} {saved : ℕ} {resume : Option DecisionRequest}
    (h : serve rt answers request s (.running copy saved resume) = some (progress, phase', s')) :
    s'.world = s.world ∨ ∃ node, copy.next = some node ∧
      s'.world = ((nodeFn rt (resumeWith answers resume) node copy.state).run s.world).2 := by
  rw [serve] at h
  cases hnext : copy.next with
  | none =>
    rw [hnext] at h
    cases h
    exact Or.inl rfl
  | some node =>
    simp only [hnext] at h
    split at h
    · cases h
      exact Or.inl rfl
    · rw [Option.some.injEq] at h
      refine Or.inr ⟨node, rfl, ?_⟩
      rw [← superstep_world request.runId copy saved node, h]

/-- Only a visit to `execute` or to `rolling_back` changes the sandbox, and it has its
evidence in the log. -/
theorem served_changes (h : Everywhere (fun _ copy => Evidenced s.audit copy.state copy.next) s)
    (hphase : s.requests.get? i = some ⟨request, phase⟩)
    (hserve : serve rt answers request s phase = some (progress, phase', s')) :
    s'.world = s.world ∨ ∃ copy saved resume key, phase = .running copy saved resume ∧
      (copy.next = some .execute ∨ copy.next = some .rollingBack) ∧
      copy.state.idempotencyKey = some (.str key) ∧ Announced s.audit key ∧
      ∀ other, other ≠ key → s'.world.store.get? other = s.world.store.get? other := by
  cases phase with
  | running copy saved resume =>
    obtain hsame | ⟨node, hnext, hworld⟩ := serve_world hserve
    · exact Or.inl hsame
    · by_cases hacts : node = .execute ∨ node = .rollingBack
      · have hevidenced := h.running _ _ _ _ _ hphase
        rw [hnext] at hevidenced
        obtain ⟨key, hkey, hannounced⟩ := hevidenced.announced (by
          rcases hacts with rfl | rfl <;> simp)
        refine Or.inr ⟨copy, saved, resume, key, rfl, ?_, hkey, hannounced, fun other hother => ?_⟩
        · rcases hacts with rfl | rfl <;> simp [hnext]
        · have hstore : Within (Same fun w => w.store.get? other)
              (nodeFn rt (resumeWith answers resume) node copy.state) :=
            node_store fun _ hsame => hother (by
              rw [hkey, Option.some.injEq, Json.str.injEq] at hsame
              exact hsame.symm)
          rw [hworld]
          exact hstore s.world
      · rw [not_or] at hacts
        left
        have hstill : Within (Same id) (nodeFn rt (resumeWith answers resume) node copy.state) :=
          node_within hacts.1 hacts.2
        rw [hworld]
        exact hstill s.world
  | _ =>
    left
    have hserved := served_of_serve hserve
    cases hserved <;> rfl

/-- The log only grows. -/
theorem served_audit (h : Served rt request s phase progress phase' s') :
    ∃ later, s'.audit = s.audit ++ later := by
  cases h with
  | visited => exact ⟨_, rfl⟩
  | _ => exact ⟨[], (List.append_nil _).symm⟩

theorem accounted_step {l : Label} (h : Accounted world s) (hs : Step rt s l s')
    (hapart : LedgerApart s l) : Accounted world s' := by
  cases hs with
  | posted _ => exact ⟨h.everywhere.put (by rintro _ _ _ ⟨⟩), h.ledger⟩
  | listed => exact h
  | others =>
    refine ⟨⟨h.everywhere.thread, h.everywhere.running⟩, fun key hkey => ?_⟩
    exact h.ledger key fun hsame => hkey ((hapart key).trans hsame)
  | @served _ _ request _ _ _ _ hphase hserve =>
    have hserved := served_of_serve hserve
    obtain ⟨later, hlog⟩ := served_audit hserved
    refine ⟨?_, fun key hkey => ?_⟩
    · cases hserved with
      | began hrequest =>
        refine (Everywhere.save h.everywhere (evidenced_input s _ _)).put ?_
        rintro _ _ _ ⟨⟩
        exact evidenced_input s _ _
      | loaded hthread =>
        refine h.everywhere.put ?_
        rintro _ _ _ ⟨⟩
        exact h.everywhere.thread _ _ hthread
      | @visited copy _ _ _ _ _ next record _ hnext _ henter =>
        have hcopy := h.everywhere.running _ _ _ _ _ hphase
        rw [hnext] at hcopy
        obtain ⟨update, hnode, hrecord, hstate, hroute⟩ :=
          (enter_ok_iff (c := ⟨_, _, s.world, []⟩)).mp henter
        subst hstate
        have hvisited := evidenced_visit hcopy hnode hrecord hroute
        have hold : Everywhere (fun _ copy => Evidenced (s.audit ++ [record]) copy.state copy.next)
            s := h.everywhere.imp fun _ _ hevidenced => hevidenced.append [record]
        have hsaved : Everywhere
            (fun _ copy => Evidenced (s.audit ++ [record]) copy.state copy.next) (s.save request.runId
              { copy with state := copy.state.merge update, next := next }) := hold.save hvisited
        refine Everywhere.put ⟨hsaved.thread, hsaved.running⟩ ?_
        rintro _ _ _ ⟨⟩
        exact hvisited
      | raised _ _ =>
        exact Everywhere.put ⟨h.everywhere.thread, h.everywhere.running⟩ (by rintro _ _ _ ⟨⟩)
      | upserted _ =>
        exact Everywhere.put ⟨h.everywhere.thread, h.everywhere.running⟩ (by rintro _ _ _ ⟨⟩)
      | _ => exact h.everywhere.put (by rintro _ _ _ ⟨⟩)
    · show Announced _ key
      have hannounced : Announced s.audit key := by
        rcases served_changes h.everywhere hphase hserve with hsame | ⟨_, _, _, own, _, _, _, hown,
          hothers⟩
        · refine h.ledger key fun hold => hkey (Eq.trans ?_ hold)
          exact congrArg (fun w => Dict.get? (ToolContext.store w) key) hsame
        · by_cases hkeys : key = own
          · exact hkeys ▸ hown
          · exact h.ledger key fun hold => hkey ((hothers key hkeys).trans hold)
      have hgrown := hannounced.append later
      rwa [← hlog] at hgrown

/-- Whatever is requested and in whatever order it is served: an entry of the ledger is never
without an earlier announcement in the audit log, of an action that a low tier or a reviewer
had cleared before; and no step of the server changes the sandbox before it is announced, nor
enters another key than the one that was. -/
theorem effects_announced {labels : List Label}
    (run : Trace ((server rt).restrict LedgerApart) { world := world } labels s) :
    (∀ key, s.world.store.get? key ≠ world.store.get? key → Announced s.audit key) ∧
      ∀ i request progress s', Step rt s (.served i request progress) s' → s'.world ≠ s.world →
        ∃ copy saved resume key,
          s.requests.get? i = some ⟨request, .running copy saved resume⟩ ∧
          (copy.next = some .execute ∨ copy.next = some .rollingBack) ∧
          copy.state.idempotencyKey = some (.str key) ∧ Announced s.audit key ∧
          ∀ other, other ≠ key → s'.world.store.get? other = s.world.store.get? other := by
  have haccounted : Accounted world s := by
    refine run.state_invariant (accounted_start world) ?_
    rintro _ _ _ h ⟨hapart, hs⟩
    exact accounted_step h hs hapart
  refine ⟨haccounted.ledger, fun i request progress s' hs hchanged => ?_⟩
  cases hs with
  | served hphase hserve =>
    rcases served_changes haccounted.everywhere hphase hserve with
      hsame | ⟨copy, saved, resume, key, rfl, hnext, hkey, hannounced, hothers⟩
    · exact absurd hsame hchanged
    · exact ⟨copy, saved, resume, key, hphase, hnext, hkey, hannounced, hothers⟩

end Runs

/-- Nobody but the server touches the sandbox. -/
def unshared (l : Label) : Bool :=
  match l with
  | .others _ _ => false
  | _ => true

theorem ledgerApart_of_check (s : Server) (l : Label) (h : unshared l = true) :
    LedgerApart s l := by
  cases l with
  | others before after => cases h
  | _ => trivial

/-- A restart that was classified low has been cleared and announced before it. -/
theorem restart_announced :
    ∃ labels s, Trace ((server { digest := id }).restrict LedgerApart)
        { world := freshSandbox [] } labels s ∧
      Announced s.audit "run-1:restart_service:service_b" := by
  obtain ⟨labels, s, hplay, hcheck⟩ := played_spec
    (p := fun (_ : List Label) (s : Server) =>
      (s.world.store.get? "run-1:restart_service:service_b").isSome)
    (show played (Service.play { digest := id } (fun _ l => unshared l)
      (createCompleted 0 0 { runId := some "run-1" }
          { tool := "restart_service", target := "service_b" }) []
      { world := freshSandbox [] }) _ = true by decide +kernel)
  have run := play_trace ledgerApart_of_check .start hplay
  refine ⟨labels, s, run, (effects_announced run).1 _ fun hsame => ?_⟩
  rw [hsame] at hcheck
  exact absurd hcheck (by decide)

end AuditEvidence
