import Interlock.Serving

/-!
# What a reviewer has seen

A reviewer reads the queue and decides later. The decision names the run and not the
proposal, and the run may have been rejected, planned again and suspended again in
between: an approval lets run whatever the thread holds when it is handed over.
-/

namespace SeenProposals

open Dictionary PythonValues Tools DiagnosticSweep Fingerprint RunState Nodes Graph Transitions
open Walks Suspension DecisionHonoured Service Serving

/-! ### Reads and executions -/

/-- What a client read last. -/
def lastRead (client : ℕ) : List Label → List RunStatusResponse
  | .listed reader rows :: past => if reader = client then rows else lastRead client past
  | _ :: past => lastRead client past
  | [] => []

/-- The row of its run that the client of request `i` had read before posting it. -/
def readBy (i : ℕ) : List Label → Option RunStatusResponse
  | .posted client j request :: past =>
    if j = i then (lastRead client past).find? fun row => row.runId = request.runId
    else readBy i past
  | _ :: past => readBy i past
  | [] => none

/-- The proposal that a row shows. -/
def shown (row : RunStatusResponse) : Option Json := row.proposedAction.map .str

def proposes (i : ℕ) : Label → Bool
  | .served j _ (.visited _ v _) => decide (j = i ∧ v.node = .proposeAction)
  | _ => false

/-- Handing the decision to this checkpoint goes on with the action `seen`: it is the one
at hand, or the edit that replaces it there. -/
structure Fits (seen : Option Json) (d : DecisionRequest) (copy : Checkpoint) : Prop where
  waiting : copy.next = some .awaitApproval →
    (d.edit = none → copy.state.proposedAction = seen) ∧
      ∀ edit, d.edit = some edit → seen = some (.str edit) ∨ Ungrounded copy.state edit
  otherwise : copy.next ≠ some .awaitApproval → copy.state.proposedAction = seen

/-- An approval fits the proposal that its reviewer read when it is handed over. -/
def UpToDate (past : List Label) : Label → Prop
  | .served i (.submitDecision _ d) (.loaded thread) => d.decision = .approved →
    ∀ row, readBy i past = some row → Fits (shown row) d thread.latest
  | _ => True

/-- An execution in the cycle that an approval let go on runs the action which the
reviewer read. -/
def RunsSeen (past : List Label) : Label → Prop
  | .served i (.submitDecision _ d) (.visited _ v _) => d.decision = .approved →
    v.node = .execute → (∀ l ∈ past, proposes i l = false) →
    ∀ row, readBy i past = some row → v.before.proposedAction = shown row
  | _ => True

/-- The call of a decision stands at the action `seen`, or is about to. -/
def StandsAt (seen : Option Json) (d : DecisionRequest) (copy : Checkpoint)
    (resume : Option DecisionRequest) : Prop :=
  (resume = none → copy.state.proposedAction = seen) ∧
    ∀ d', resume = some d' → d' = d ∧ Fits seen d copy

section Steps

variable {rt : Runtime} {s s' : Server} {past : List Label} {seen : Option Json}
variable {d : DecisionRequest} {copy : Checkpoint} {resume : Option DecisionRequest}

/-- A visit other than a proposal leaves the call at the action. -/
theorem standsAt_visit {answers : Answers} {node : Node} {state : AgentState}
    {next : Option Node} {world : ToolContext} (h : StandsAt seen d copy resume)
    (hnext : copy.next = some node) (hgoes : ¬ (node = .awaitApproval ∧ resume = none))
    (hpropose : node ≠ .proposeAction)
    (hled : Visit.Led rt
      ⟨node, resumeWith answers resume, copy.state, s.world, state, world⟩ next) :
    state.proposedAction = seen := by
  obtain ⟨hkept, hresume⟩ := h
  by_cases hawait : node = .awaitApproval
  · obtain ⟨d', rfl⟩ := Option.ne_none_iff_exists'.mp fun hnone => hgoes ⟨hawait, hnone⟩
    obtain ⟨rfl, hfits⟩ := hresume d' rfl
    obtain ⟨hplain, hedits⟩ := hfits.waiting (by rw [hnext, hawait])
    obtain ⟨hsame, hreplaced, _⟩ := led_resumed hled hawait rfl
    cases hedit : d'.edit with
    | none => exact (hsame hedit).trans (hplain hedit)
    | some edit =>
      obtain ⟨hafter, hgrounded⟩ := hreplaced edit hedit
      rcases hedits edit hedit with hseen | hungrounded
      · exact hafter.trans hseen.symm
      · exact absurd hungrounded hgrounded
  · have haction : copy.state.proposedAction = seen := by
      cases hresumed : resume with
      | none => exact hkept hresumed
      | some d' =>
        refine (hresume d' hresumed).2.otherwise ?_
        rw [hnext]
        exact fun hsome => hawait (Option.some.inj hsome)
    exact ((led_kept hled).proposedAction hpropose hawait).trans haction

/-- Executions do not wait for a decision. -/
theorem StandsAt.action_of_execute (h : StandsAt seen d copy resume)
    (hnext : copy.next = some .execute) : copy.state.proposedAction = seen := by
  obtain ⟨hkept, hresume⟩ := h
  cases hresumed : resume with
  | none => exact hkept hresumed
  | some d' =>
    refine (hresume d' hresumed).2.otherwise ?_
    rw [hnext]
    simp

/-- The read of a request is that of its posting. -/
theorem readBy_served (i j : ℕ) (request : Request) (progress : Progress) :
    readBy i (.served j request progress :: past) = readBy i past := rfl

/-- What every call of an approval relies on after a run whose approvals were up to date. -/
def Tracked (labels : List Label) (s : Server) : Prop :=
  ∀ i r d copy saved resume row,
    s.requests.get? i = some ⟨.submitDecision r d, .running copy saved resume⟩ →
    d.decision = .approved → (∀ l ∈ labels, proposes i l = false) →
    readBy i labels = some row → StandsAt (shown row) d copy resume

theorem tracked_step {l : Label} (h : Tracked past s) (hs : Step rt s l s')
    (hup : UpToDate past l) : Tracked (l :: past) s' := by
  intro i r d copy saved resume row hi happroved hpropose hread
  have hpropose' : ∀ l ∈ past, proposes i l = false :=
    fun l hl => hpropose l (List.mem_cons_of_mem _ hl)
  cases hs with
  | @posted client j request hfree =>
    by_cases hij : i = j
    · subst hij
      rw [requests_put, if_pos rfl] at hi
      cases hi
    · rw [requests_put, if_neg (Ne.symm hij)] at hi
      rw [readBy, if_neg (Ne.symm hij)] at hread
      exact h i r d copy saved resume row hi happroved hpropose' hread
  | listed => exact h i r d copy saved resume row hi happroved hpropose' hread
  | others => exact h i r d copy saved resume row hi happroved hpropose' hread
  | @served t j request phase phase' answers progress hphase hserve =>
    rw [readBy_served] at hread
    have hserved := served_of_serve hserve
    by_cases hij : i = j
    · subst hij
      rw [requests_put, if_pos rfl] at hi
      cases hi
      cases hserved with
      | began hrequest => cases hrequest
      | loaded hthread =>
        exact ⟨fun hnone => (by cases hnone), fun d' hd' =>
          ⟨(Option.some.inj hd').symm, hup happroved row hread⟩⟩
      | @visited copy saved resume _ node state next record world hnext hgoes henter =>
        have hstands := h i r d copy saved resume row hphase happroved hpropose' hread
        have hnode : node ≠ .proposeAction := by
          have hnot := hpropose _ List.mem_cons_self
          simpa [proposes] using hnot
        exact ⟨fun _ => standsAt_visit hstands hnext hgoes hnode (led_of_enter henter), by simp⟩
    · rw [requests_put, if_neg (Ne.symm hij), (served_frame (r := r) hserved).2] at hi
      exact h i r d copy saved resume row hi happroved hpropose' hread

theorem runsSeen_step {l : Label} (h : Tracked past s) (hs : Step rt s l s') :
    RunsSeen past l := by
  cases hs with
  | @served t i request phase phase' answers progress hphase hserve =>
    cases served_of_serve hserve with
    | @visited copy saved resume _ node state next record world hnext hgoes henter =>
      cases request with
      | createRun uuid body => trivial
      | submitDecision r d =>
        intro happroved hexecute hpropose row hread
        have hstands := h i r d copy saved resume row hphase happroved hpropose hread
        exact hstands.action_of_execute (hnext.trans (congrArg some hexecute))
    | _ => cases request <;> trivial
  | _ => trivial

/-- In whatever order reviewers read and decide: while every approval finds the proposal
that its reviewer read, every execution it leads to runs that proposal. -/
theorem approvals_run_seen {world : ToolContext} {labels : List Label}
    (run : Trace (server rt) { world := world } labels s) (hup : Along UpToDate labels) :
    Along RunsSeen labels := by
  have hinv : Along UpToDate labels → Along RunsSeen labels ∧ Tracked labels s := by
    refine run.invariant
      (P := fun labels s => Along UpToDate labels → Along RunsSeen labels ∧ Tracked labels s) ?_ ?_
    · intro _
      exact ⟨trivial, fun i r d copy saved resume row hi => by simp at hi⟩
    · rintro past b l c _ ih hs ⟨hup, hpast⟩
      obtain ⟨hseen, htracked⟩ := ih hpast
      exact ⟨⟨runsSeen_step htracked hs, hseen⟩, tracked_step htracked hs hup⟩
  exact (hinv hup).1

end Steps

/-! ### Exactly the proposal that was read -/

section Exactness

variable {rt : Runtime} {s : Server} {i n : ℕ} {q : Request} {copy : Checkpoint}
variable {d : DecisionRequest} {resume : Option DecisionRequest} {seen : Option Json}

/-- A call that alone is served goes wherever a run of the graph goes. -/
theorem serve_visit {answers : Answers} {node : Node} {c c' : Config}
    (hi : s.requests.get? i = some ⟨q, .running copy n resume⟩) (hstate : c.state = copy.state)
    (hnext : copy.next = some node) (hcnext : c.next = some node) (hworld : c.world = s.world)
    (hgoes : ¬ (node = .awaitApproval ∧ resume = none))
    (hstep : (step rt (resumeWith answers resume) c).1 = .ok c') :
    ∃ v record t m, Step rt s (.served i q (.visited n v record)) t ∧ v.node = node ∧
      t.requests.get? i = some ⟨q, .running { copy with state := c'.state, next := c'.next } m none⟩ ∧
      t.world = c'.world := by
  obtain ⟨record, henter⟩ := enter_of_step hstate hcnext hstep
  rw [hworld] at henter
  have hserve : serve rt answers q s (.running copy n resume) =
      some (superstep rt (resumeWith answers resume) q.runId copy n node s) := by
    rw [serve, hnext]
    exact if_neg hgoes
  rw [superstep, henter] at hserve
  refine ⟨_, record, _, s.nextSave q.runId, .served hi hserve, rfl, ?_, rfl⟩
  exact (requests_put i i _).trans (if_pos rfl)

/-- The server can serve one call along the rest of any cycle. -/
theorem serve_cycle {c c' : Config} (h : InCycle rt c c') (hpast : PastDecision c.next)
    (hi : s.requests.get? i = some ⟨q, .running copy n none⟩) (hstate : c.state = copy.state)
    (hnext : c.next = copy.next) (hworld : c.world = s.world) :
    ∃ labels t copy' m, Trace (server rt) s labels t ∧ (∀ l ∈ labels, proposes i l = false) ∧
      t.requests.get? i = some ⟨q, .running copy' m none⟩ ∧ c'.state = copy'.state ∧
      c'.next = copy'.next ∧ c'.world = t.world := by
  obtain ⟨later, run, hlater⟩ := h
  induction run with
  | start => exact ⟨[], s, copy, n, .start, by simp, hi, hstate, hnext, hworld⟩
  | @snoc past b c' e run hs ih =>
    cases hs with
    | @visit _ node answers hbnext hstep =>
      have hbefore : ∀ v ∈ visits past, v.node ≠ .proposeAction :=
        fun v hv => hlater v (List.mem_cons_of_mem _ hv)
      obtain ⟨labels, t, copy', m, hserved, hquiet, ht, hbstate, hbcopy, hbworld⟩ := ih hbefore
      have hnode : node ≠ .proposeAction := hlater _ List.mem_cons_self
      have hdecided : PastDecision b.next :=
        in_cycle (P := fun n _ => PastDecision n) (fun hled hpropose h => h.led hled hpropose)
          ⟨past, run, hbefore⟩ hpast
      rw [hbnext] at hdecided
      obtain ⟨v, record, t', m', hvisited, hv, ht', hworld'⟩ := serve_visit ht hbstate
        (hbcopy ▸ hbnext) hbnext hbworld (fun h => hdecided.not_await h.1) hstep
      refine ⟨_, t', _, m', hserved.snoc hvisited, ?_, ht', rfl, rfl, hworld'.symm⟩
      intro l hl
      rcases List.mem_cons.mp hl with rfl | hl
      · simpa [proposes, hv] using hnode
      · exact hquiet l hl
    | @others world h =>
      obtain ⟨labels, t, copy', m, hserved, hquiet, ht, hbstate, hbcopy, _⟩ := ih hlater
      refine ⟨_, { t with world := world }, copy', m, hserved.snoc .others, ?_, ht, hbstate,
        hbcopy, rfl⟩
      intro l hl
      rcases List.mem_cons.mp hl with rfl | hl
      · rfl
      · exact hquiet l hl

/-- However the server goes on, the cycle that request `i` lets go on executes `seen`. -/
def ExecutesOnly (rt : Runtime) (s : Server) (i : ℕ) (q : Request) (seen : Option Json) : Prop :=
  ∀ later t copy m resume, Trace (server rt) s later t → (∀ l ∈ later, proposes i l = false) →
    t.requests.get? i = some ⟨q, .running copy m resume⟩ → copy.next = some .execute →
    copy.state.proposedAction = seen

/-- What a decision that was handed over keeps while the server goes on. -/
def Standing (seen : Option Json) (d : DecisionRequest) : Phase → Prop
  | .running copy _ resume => StandsAt seen d copy resume
  | .returned _ | .answered _ => True
  | _ => False

theorem standing_serve {answers : Answers} {phase phase' : Phase} {progress : Progress} {t : Server}
    (hserve : serve rt answers q s phase = some (progress, phase', t))
    (hnot : proposes i (.served i q progress) = false) (h : Standing seen d phase) :
    Standing seen d phase' := by
  cases served_of_serve hserve with
  | @visited _ _ _ _ node _ _ _ _ hnext hgoes henter =>
    have hnode : node ≠ .proposeAction := by simpa [proposes] using hnot
    exact ⟨fun _ => standsAt_visit h hnext hgoes hnode (led_of_enter henter), by simp⟩
  | raised => trivial
  | returned => trivial
  | upserted => trivial
  | invalid => trivial
  | _ => exact h.elim

theorem standing_run {later : List Label} {t : Server} (run : Trace (server rt) s later t)
    (hquiet : ∀ l ∈ later, proposes i l = false)
    (hi : ∃ phase, s.requests.get? i = some ⟨q, phase⟩ ∧ Standing seen d phase) :
    ∃ phase, t.requests.get? i = some ⟨q, phase⟩ ∧ Standing seen d phase := by
  induction run with
  | start => exact hi
  | @snoc past b t l run hs ih =>
    obtain ⟨phase, hb, hstanding⟩ := ih fun l hl => hquiet l (List.mem_cons_of_mem _ hl)
    have hnot := hquiet l List.mem_cons_self
    cases hs with
    | @posted client j request hfree =>
      have hij : j ≠ i := by
        rintro rfl
        rw [hfree] at hb
        cases hb
      exact ⟨phase, ((requests_put j i _).trans (if_neg hij)).trans hb, hstanding⟩
    | listed => exact ⟨phase, hb, hstanding⟩
    | others => exact ⟨phase, hb, hstanding⟩
    | @served u j request before after answers progress hphase hserve =>
      by_cases hij : j = i
      · subst hij
        rw [hb] at hphase
        cases hphase
        exact ⟨after, (requests_put j j _).trans (if_pos rfl), standing_serve hserve hnot hstanding⟩
      · have hframe := (served_frame (r := q.runId) (served_of_serve hserve)).2
        refine ⟨phase, (requests_put j i _).trans ?_, hstanding⟩
        rw [if_neg hij, hframe, hb]

/-- At a suspension, an approval executes nothing but `seen` exactly if it fits it. -/
theorem executesOnly_iff {world : ToolContext} {labels : List Label} {r : String}
    (run : Trace (server rt) { world := world } labels s)
    (hi : s.requests.get? i = some ⟨.submitDecision r d, .running copy n (some d)⟩)
    (hnext : copy.next = some .awaitApproval) (happroved : d.decision = .approved) :
    ExecutesOnly rt s i (.submitDecision r d) seen ↔ Fits seen d copy := by
  constructor
  · intro honly
    obtain ⟨initialState, world₀, past, c₀, hrun, hstate₀, hnext₀⟩ := (backed run).running _ _ _ _ _ hi
    have hs := suspended_of_run hrun (hnext₀.trans hnext)
    rw [hstate₀] at hs
    obtain ⟨obs, action, fingerprint, hobs, haction, hf, _⟩ := hs.anchored
    -- a server that serves this call alone reaches the execution
    have reached : ∀ f, computeFingerprint rt.digest obs (resumedAction d action) = .ok f →
        some (.str (resumedAction d action)) = seen := by
      intro f hf
      let c : Config := ⟨copy.state, some .awaitApproval, s.world, []⟩
      obtain ⟨c₁, later, c', hstep, hrest, hcycle, hexecute, hran⟩ := granted_reaches_execution
        (c := c) d rfl hs hobs haction hf (isGranted_text.mpr (Or.inl happroved))
      have hpast := (resumed rfl hstep).2.2.1 (Or.inl happroved)
      have hvisit : (step rt (resumeWith {} (some d)) c).1 = .ok c₁ := hstep
      obtain ⟨v, record, t, m, hvisited, hv, ht, hworld⟩ :=
        serve_visit hi rfl hnext rfl rfl (by simp) hvisit
      obtain ⟨labels', t', copy', m', hserved, hquiet, ht', hcopy, hcnext, _⟩ :=
        serve_cycle ⟨later, hrest, hcycle⟩ hpast ht rfl rfl hworld.symm
      have hlabels : ∀ l ∈ labels' ++ [.served i (.submitDecision r d) (.visited n v record)],
          proposes i l = false := by
        intro l hl
        rcases List.mem_append.mp hl with hl | hl
        · exact hquiet l hl
        · rw [List.mem_singleton.mp hl]
          simp [proposes, hv]
      have hseen := honly _ t' copy' m' none ((Trace.start.snoc hvisited).trans hserved) hlabels ht'
        (hcnext ▸ hexecute)
      rw [← hcopy, hran] at hseen
      exact hseen
    refine ⟨fun _ => ⟨fun hedit => ?_, fun edit hedit => ?_⟩, fun h => absurd hnext h⟩
    · have hsame : resumedAction d action = action := by rw [resumedAction, hedit]; rfl
      rw [hsame] at reached
      exact haction.trans (reached fingerprint hf)
    · by_contra hnot
      obtain ⟨hother, hgrounded⟩ := not_or.mp hnot
      obtain ⟨f, hf'⟩ := grounded_fingerprint rt hobs hgrounded
      have hedited : resumedAction d action = edit := by rw [resumedAction, hedit]; rfl
      rw [hedited] at reached
      exact hother (reached f hf').symm
  · intro hfits later t copy' m resume hlater hquiet ht hexecute
    obtain ⟨phase, hphase, hstanding⟩ := standing_run hlater hquiet
      ⟨_, hi, (⟨by simp, fun d' hd' => ⟨(Option.some.inj hd').symm, hfits⟩⟩ : StandsAt seen d copy _)⟩
    rw [ht] at hphase
    cases hphase
    exact hstanding.action_of_execute hexecute

end Exactness

/-! ### A late approval -/

/-- The latest visit executes an action that an approval let go on whose reviewer had
read another one. -/
def executesUnseen (seen ran : String) : List Label → Bool
  | .served i (.submitDecision _ d) (.visited _ v _) :: past =>
    decide (d.decision = .approved) && decide (v.node = .execute) &&
      past.all (fun l : Label => !proposes i l) &&
      (readBy i past).any (fun row : RunStatusResponse => row.proposedAction == some seen) &&
      v.before.proposedAction.any (·.isStr ran)
  | _ => false

theorem unseen_of_check {seen ran : String} {labels : List Label}
    (h : executesUnseen seen ran labels = true) (hne : seen ≠ ran) : ¬ Along RunsSeen labels := by
  unfold executesUnseen at h
  split at h
  · simp only [Bool.and_eq_true, decide_eq_true_eq, List.all_eq_true, Bool.not_eq_true',
      Option.any_eq_true, beq_iff_eq] at h
    obtain ⟨⟨⟨⟨happroved, hnode⟩, hpropose⟩, row, hrow, hseen⟩, j, hran, hj⟩ := h
    rintro ⟨hruns, _⟩
    have hsame := hruns happroved hnode hpropose row hrow
    rw [hran, shown, hseen, Json.isStr_iff.mp hj, Option.map_some, Option.some.injEq,
      Json.str.injEq] at hsame
    exact hne hsame.symm
  · cases h

/-- One reviewer reads a scaling, another one rejects it, and the restart that is
proposed instead runs on the approval of the first. -/
theorem late_approval_runs_unseen :
    ∃ labels s, Trace (server { digest := id }) { world := freshSandbox [] } labels s ∧
      ¬ Along RunsSeen labels := by
  obtain ⟨labels, s, hplay, hcheck⟩ := played_spec
    (p := fun (labels : List Label) (_ : Server) =>
      executesUnseen "scale_service:service_b" "restart_service:service_b" labels)
    (show played (play { digest := id } (fun _ _ => true)
      (createSuspended 0 0 { runId := some "run-1" }
          { tool := "scale_service", target := "service_b" } "medium" ++
        .list 1 :: .post 2 1 (.submitDecision "run-1" { decision := .rejected }) ::
        (serves 1 [{}, {}, {}, {}, {},
          { proposal := { tool := "restart_service", target := "service_b" } },
          { classification := { tier := "medium" } }, {}, {}, {}] ++
        .post 1 2 (.submitDecision "run-1" { decision := .approved }) ::
        serves 2 (List.replicate 7 {}))) []
      { world := freshSandbox [] }) _ = true by decide +kernel)
  have run := play_trace (C := fun _ _ => True) (fun _ _ _ => trivial) .start hplay
  exact ⟨labels, s, run.of_restrict, unseen_of_check hcheck (by decide)⟩

/-- An approval without an edit, of the proposal that the thread holds. -/
def approvesRead (past : List Label) : Label → Bool
  | .served i (.submitDecision _ d) (.loaded thread) =>
    (readBy i past).all fun row => decide (d.edit = none) &&
      row.proposedAction.any fun action => thread.latest.state.proposedAction.any (·.isStr action)
  | _ => true

theorem upToDate_of_check {past : List Label} {l : Label} (h : approvesRead past l = true) :
    UpToDate past l := by
  unfold approvesRead at h
  split at h
  · intro _ row hrow
    rw [hrow, Option.all_some, Bool.and_eq_true, decide_eq_true_eq, Option.any_eq_true] at h
    obtain ⟨hedit, action, haction, hpending⟩ := h
    have hseen := Json.any_isStr_iff.mp hpending
    rw [show some (Json.str action) = shown row by rw [shown, haction]; rfl] at hseen
    refine ⟨fun _ => ⟨fun _ => hseen, fun edit hsome => ?_⟩, fun _ => hseen⟩
    rw [hedit] at hsome
    cases hsome
  · rename_i hother
    unfold UpToDate
    split
    · exact absurd rfl (hother _ _ _ _)
    · trivial

def alongReads : List Label → Bool
  | [] => true
  | l :: past => approvesRead past l && alongReads past

theorem along_of_check {labels : List Label} (h : alongReads labels = true) :
    Along UpToDate labels := by
  induction labels with
  | nil => trivial
  | cons l past ih =>
    obtain ⟨hl, hpast⟩ := Bool.and_eq_true_iff.mp h
    exact ⟨upToDate_of_check hl, ih hpast⟩

/-- A decision led to an execution. -/
def executes : Label → Bool
  | .served _ (.submitDecision _ _) (.visited _ v _) => decide (v.node = .execute)
  | _ => false

/-- An approval in time runs the action that was read. -/
theorem prompt_approval_runs_seen :
    ∃ labels s, Trace (server { digest := id }) { world := freshSandbox [] } labels s ∧
      Along UpToDate labels ∧ labels.any executes = true ∧ Along RunsSeen labels := by
  obtain ⟨labels, s, hplay, hcheck⟩ := played_spec
    (p := fun (labels : List Label) (_ : Server) => alongReads labels && labels.any executes)
    (show played (play { digest := id } (fun _ _ => true)
      (createSuspended 0 0 { runId := some "run-1" }
          { tool := "scale_service", target := "service_b" } "medium" ++
        .list 1 :: .post 1 1 (.submitDecision "run-1" { decision := .approved }) ::
        serves 1 (List.replicate 7 {})) []
      { world := freshSandbox [] }) _ = true by decide +kernel)
  rw [Bool.and_eq_true] at hcheck
  have run := play_trace (C := fun _ _ => True) (fun _ _ _ => trivial) .start hplay
  exact ⟨labels, s, run.of_restrict, along_of_check hcheck.1, hcheck.2,
    approvals_run_seen run.of_restrict (along_of_check hcheck.1)⟩

end SeenProposals
