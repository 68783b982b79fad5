import Interlock.QueueAgreement

/-!
# Racing decisions

Decision requests for one suspended run, served in any order. Each looks at the
registry, and what it found may be out of date when it resumes the graph. While the
requests take turns from that look on, a suspension is answered once.
-/

namespace DecisionRace

open Dictionary PythonValues Tools DiagnosticSweep RunState Nodes Graph Transitions Walks Suspension
open DecisionHonoured Service Serving QueueAgreement

/-! ### Suspensions and their answers -/

/-- A run that waits and is listed, with no request about it open. -/
structure Waiting (r : String) (s : Server) : Prop where
  listed : Listed (s.registry.get? r)
  interrupted : Interrupted (s.threads.get? r)
  alone : ∀ f ∈ s.requests.values, f.request.runId = r → isAnswered f = true

/-- All that is requested for the run are decisions. -/
def OnlyDecisions (r : String) : Label → Prop
  | .posted _ _ request => request.runId = r → ∃ d, request = .submitDecision r d
  | _ => True

/-- The checkpoint whose interrupt a step answered. -/
def answered (r : String) : Label → Option ℕ
  | .served _ request (.visited saved v _) =>
    if request.runId = r ∧ v.node = .awaitApproval then some saved else none
  | _ => none

/-- The suspension that the current cycle of a request goes back to. -/
def decidedAt (i : ℕ) : List Label → Option ℕ
  | .served j _ (.visited saved v _) :: past =>
    if j = i then
      if v.node = .awaitApproval then some saved
      else if v.node = .proposeAction then none
      else decidedAt i past
    else decidedAt i past
  | _ :: past => decidedAt i past
  | [] => none

/-- Request `i` gave the suspension at checkpoint `n` the decision `d`. -/
def Gave (r : String) (labels : List Label) (i n : ℕ) (d : DecisionRequest) : Prop :=
  ∃ v record, Label.served i (.submitDecision r d) (.visited n v record) ∈ labels ∧
    v.node = .awaitApproval

/-- An action was executed in the cycle that a decision on the suspension at `n` began. -/
def ExecutedAfter (r : String) (labels : List Label) (n : ℕ) : Prop :=
  ∃ later i request m v record older,
    labels = later ++ .served i request (.visited m v record) :: older ∧ request.runId = r ∧
      v.node = .execute ∧ decidedAt i older = some n

/-- Every suspension is answered once, the other requests get a conflict, and no action
is both rejected and executed. -/
structure DecidedOnce (r : String) (labels : List Label) (s : Server) : Prop where
  once : (labels.filterMap (answered r)).Nodup
  conflict : ∀ client i d code, Label.posted client i (.submitDecision r d) ∈ labels →
    s.requests.get? i = some ⟨.submitDecision r d, .answered code⟩ →
    code = 409 ∨ (∃ n, Gave r labels i n d) ∨
      Label.served i (.submitDecision r d) (.raised .awaitApproval) ∈ labels
  verdict : ∀ i n d, Gave r labels i n d → d.decision = .rejected → ¬ ExecutedAfter r labels n

/-- Decisions on the run, which take turns and whose calls are not cut off. -/
def race (rt : Runtime) (r : String) : System Server Label :=
  (server rt).restrict fun s l => OnlyDecisions r l ∧ TakesTurns r s l ∧ Delivered r s l

theorem unique_of_nodup {α β : Type} {f : α → Option β} {l : List α} {a b : α} {x : β}
    (h : (l.filterMap f).Nodup) (ha : a ∈ l) (hb : b ∈ l) (hfa : f a = some x)
    (hfb : f b = some x) : a = b := by
  by_contra hne
  have hpairs := List.pairwise_filterMap.mp h
  have hsymm : Std.Symm fun a a' => ∀ b, f a = some b → ∀ b', f a' = some b' → b ≠ b' :=
    ⟨fun a a' hs b hb b' hb' => (hs b' hb' b hb).symm⟩
  exact hpairs.forall ha hb hne x hfa x hfb rfl

section Race

variable {rt : Runtime} {r : String} {s₀ s s' : Server} {labels : List Label} {l : Label}

theorem Waiting.agrees (start : Waiting r s) : Agrees (s.registry.get? r) (s.threads.get? r) where
  known := by
    intro _ hnone
    obtain ⟨_, hrow, _⟩ := start.listed
    rw [hnone] at hrow
    cases hrow
  listed := ⟨fun _ => start.interrupted, fun _ => start.listed⟩

theorem orderly_of_race (start : Waiting r s₀) (run : Trace (race rt r) s₀ labels s) :
    Orderly r s := by
  refine run.state_invariant (P := Orderly r) ?_ ?_
  · refine .idle ?_ start.agrees
    intro i f hf hr
    exact not_engaged_of_answered (start.alone f (Dict.mem_values.mpr ⟨i, hf⟩) hr)
  · rintro b l c h ⟨⟨_, hturns, hdelivered⟩, hs⟩
    exact orderly_step h hs hturns hdelivered

/-- A request stays what it is, and once answered it is left alone. -/
theorem request_kept {i : ℕ} {f : InFlight} (run : Trace (race rt r) s₀ labels s)
    (h : s₀.requests.get? i = some f) :
    ∃ g, s.requests.get? i = some g ∧ g.request = f.request ∧ (isAnswered f = true → g = f) := by
  refine run.state_invariant (P := fun s => ∃ g, s.requests.get? i = some g ∧
    g.request = f.request ∧ (isAnswered f = true → g = f)) ⟨f, h, rfl, fun _ => rfl⟩ ?_
  rintro b l c ⟨g, hg, hrequest, hdone⟩ ⟨_, hs⟩
  cases hs with
  | @posted _ j request hnone =>
    have hij : i ≠ j := by
      rintro rfl
      rw [hg] at hnone
      cases hnone
    exact ⟨g, (requests_put_ne hij).trans hg, hrequest, hdone⟩
  | listed => exact ⟨g, hg, hrequest, hdone⟩
  | others => exact ⟨g, hg, hrequest, hdone⟩
  | @served t j request before after _ _ hphase hserve =>
    have hrequests := (served_frame (r := r) (served_of_serve hserve)).2
    by_cases hij : i = j
    · subst hij
      rw [hphase] at hg
      cases hg
      refine ⟨_, requests_put_self t i _, hrequest, fun hanswered => ?_⟩
      -- an answered request has no further step
      rw [← hdone hanswered] at hanswered
      cases before with
      | answered code => cases hserve
      | _ => cases hanswered
    · exact ⟨g, by rw [requests_put_ne hij, hrequests, hg], hrequest, hdone⟩

/-- The requests about the run that are served have been posted since. -/
theorem fresh_of_open {i : ℕ} {f : InFlight} (start : Waiting r s₀)
    (run : Trace (race rt r) s₀ labels s) (hi : s.requests.get? i = some f)
    (hr : f.request.runId = r) (hopen : isAnswered f = false) : s₀.requests.get? i = none := by
  by_contra hsome
  obtain ⟨f₀, hf₀⟩ := Option.ne_none_iff_exists'.mp hsome
  obtain ⟨g, hg, hrequest, hdone⟩ := request_kept run hf₀
  rw [hi] at hg
  cases hg
  have hanswered := start.alone f₀ (Dict.mem_values.mpr ⟨i, hf₀⟩) (hrequest ▸ hr)
  rw [hdone hanswered, hanswered] at hopen
  cases hopen

theorem fresh_of_posted {client i : ℕ} {request : Request} (run : Trace (race rt r) s₀ labels s)
    (h : Label.posted client i request ∈ labels) : s₀.requests.get? i = none := by
  obtain ⟨later, older, rfl⟩ := List.append_of_mem h
  obtain ⟨b, hearlier, _⟩ := run.split
  cases hearlier with
  | snoc hpast hs =>
    cases hs.2 with
    | posted hnone =>
      by_contra hsome
      obtain ⟨f₀, hf₀⟩ := Option.ne_none_iff_exists'.mp hsome
      obtain ⟨g, hg, _⟩ := request_kept hpast hf₀
      rw [hnone] at hg
      cases hg

/-! ### Every suspension is answered once -/

/-- Threads only get further checkpoints. -/
theorem saved_grows {t : Thread} (hs : Step rt s l s') (ht : s.threads.get? r = some t) :
    ∃ t', s'.threads.get? r = some t' ∧ t.saved ≤ t'.saved := by
  have hsave : ∀ runId copy, ∃ t', (s.save runId copy).threads.get? r = some t' ∧
      t.saved ≤ t'.saved := by
    intro runId copy
    rw [get?_save]
    split
    · rename_i hr
      subst hr
      refine ⟨_, rfl, ?_⟩
      simp only [Server.nextSave, ht]
      omega
    · exact ⟨t, ht, le_rfl⟩
  cases hs with
  | served hphase hserve =>
    cases served_of_serve hserve with
    | began _ => exact hsave _ _
    | visited _ _ _ => exact hsave _ _
    | _ => exact ⟨t, ht, le_rfl⟩
  | _ => exact ⟨t, ht, le_rfl⟩

/-- The checkpoint that a visit goes on from is the latest one, and the next is later. -/
theorem visit_of_holder {i saved : ℕ} {request : Request} {v : Visit} {record : AuditRecord}
    (horderly : Orderly request.runId s)
    (hs : Step rt s (.served i request (.visited saved v record)) s') :
    (∃ t, s.threads.get? request.runId = some t ∧ t.saved = saved) ∧
      ∃ t', s'.threads.get? request.runId = some t' ∧ saved < t'.saved := by
  obtain ⟨phase, phase', t, hphase, hserved, rfl⟩ := step_served hs
  cases hserved with
  | @visited copy _ resume _ _ state next _ world hnext hgoes henter =>
    obtain ⟨⟨hthread, _⟩, _⟩ := horderly.holder hphase rfl trivial
    refine ⟨⟨_, hthread, rfl⟩, _, (get?_save _ _).trans (if_pos rfl), ?_⟩
    simp only [Server.nextSave, hthread]
    omega

theorem answered_once (start : Waiting r s₀) (run : Trace (race rt r) s₀ labels s) :
    (labels.filterMap (answered r)).Nodup := by
  have hinv : (labels.filterMap (answered r)).Nodup ∧
      ∀ n ∈ labels.filterMap (answered r), ∃ t, s.threads.get? r = some t ∧ n < t.saved := by
    refine run.invariant (P := fun labels s => (labels.filterMap (answered r)).Nodup ∧
      ∀ n ∈ labels.filterMap (answered r), ∃ t, s.threads.get? r = some t ∧ n < t.saved) ?_ ?_
    · simp
    · rintro past b l c run ⟨hnodup, hbound⟩ ⟨_, hs⟩
      have hbound' : ∀ n ∈ past.filterMap (answered r),
          ∃ t, c.threads.get? r = some t ∧ n < t.saved := by
        intro n hn
        obtain ⟨t, ht, hlt⟩ := hbound n hn
        obtain ⟨t', ht', hle⟩ := saved_grows hs ht
        exact ⟨t', ht', by omega⟩
      cases hanswer : answered r l with
      | none =>
        rw [List.filterMap_cons_none hanswer]
        exact ⟨hnodup, hbound'⟩
      | some n =>
        -- a visit to the approval of the run, from its latest checkpoint
        obtain ⟨i, request, v, record, hl, hr⟩ : ∃ i request v record,
            l = .served i request (.visited n v record) ∧ request.runId = r := by
          unfold answered at hanswer
          split at hanswer
          · split at hanswer
            · rename_i hanswers
              cases hanswer
              exact ⟨_, _, _, _, rfl, hanswers.1⟩
            · cases hanswer
          · cases hanswer
        subst hl hr
        obtain ⟨⟨t, ht, hsaved⟩, t', ht', hlater⟩ :=
          visit_of_holder (orderly_of_race start run) hs
        rw [List.filterMap_cons_some hanswer, List.nodup_cons, List.forall_mem_cons]
        refine ⟨⟨?_, hnodup⟩, ⟨t', ht', hlater⟩, hbound'⟩
        intro hn
        obtain ⟨t₁, ht₁, hlt⟩ := hbound n hn
        rw [ht] at ht₁
        cases ht₁
        omega
  exact hinv.1

/-! ### The other requests get a conflict -/

theorem Gave.mono {i n : ℕ} {d : DecisionRequest} {labels' : List Label}
    (hsub : labels ⊆ labels') (h : Gave r labels i n d) : Gave r labels' i n d := by
  obtain ⟨v, record, hmem, hnode⟩ := h
  exact ⟨v, record, hsub hmem, hnode⟩

theorem Gave.cons {i n : ℕ} {d : DecisionRequest} (h : Gave r labels i n d) :
    Gave r (l :: labels) i n d := h.mono (List.subset_cons_self l labels)

/-- What has become of a decision request. -/
def Outcome (r : String) (labels : List Label) (i : ℕ) (d : DecisionRequest) : Phase → Prop
  | .looked existing => existing ≠ none
  | .running _ _ resume => (resume = none ∧ ∃ n, Gave r labels i n d) ∨ resume = some d
  | .returned _ => ∃ n, Gave r labels i n d
  | .answered code => code = 409 ∨ (∃ n, Gave r labels i n d) ∨
      Label.served i (.submitDecision r d) (.raised .awaitApproval) ∈ labels
  | .posted | .admitted => True

theorem Outcome.cons {i : ℕ} {d : DecisionRequest} {phase : Phase}
    (h : Outcome r labels i d phase) : Outcome r (l :: labels) i d phase := by
  cases phase with
  | running copy saved resume => exact h.imp_left fun ⟨hnone, n, hn⟩ => ⟨hnone, n, hn.cons⟩
  | returned copy =>
    obtain ⟨n, hn⟩ := h
    exact ⟨n, hn.cons⟩
  | answered code =>
    exact h.imp_right fun h => h.imp (fun ⟨n, hn⟩ => ⟨n, hn.cons⟩) (List.mem_cons_of_mem l)
  | _ => exact h

/-- A request that is about to hand its decision over stands at the interrupt. -/
theorem at_interrupt {i saved : ℕ} {request : Request} {copy : Checkpoint} {d : DecisionRequest}
    (horderly : Orderly r s) (hr : request.runId = r)
    (hphase : s.requests.get? i = some ⟨request, .running copy saved (some d)⟩) :
    copy.next = some .awaitApproval := by
  obtain ⟨⟨hthread, _, hwaiting⟩, _⟩ := horderly.holder hphase hr trivial
  obtain ⟨hagrees, hlisted⟩ := hwaiting (by simp)
  exact hagrees.interrupted hlisted hthread

theorem outcome_step {i : ℕ} {d : DecisionRequest} {phase phase' : Phase} {progress : Progress}
    (horderly : Orderly r s) (hregistered : s.registry.get? r ≠ none)
    (hphase : s.requests.get? i = some ⟨.submitDecision r d, phase⟩)
    (hserved : Served rt (.submitDecision r d) s phase progress phase' s')
    (h : Outcome r labels i d phase) :
    Outcome r (.served i (.submitDecision r d) progress :: labels) i d phase' := by
  cases hserved with
  | began hrequest => cases hrequest
  | looked _ => exact hregistered
  | unknown => exact absurd rfl h
  | conflict _ => exact Or.inl rfl
  | admitted _ => trivial
  | loaded _ => exact Or.inr rfl
  | lost hnone =>
    obtain ⟨⟨_, hagrees, hlisted⟩, _⟩ := horderly.holder hphase rfl trivial
    obtain ⟨t, ht, _⟩ := hagrees.listed.mp hlisted
    rw [show s.threads.get? r = none from hnone] at ht
    cases ht
  | @visited copy saved resume _ node state next record world hnext hgoes henter =>
    refine Or.inl ⟨rfl, ?_⟩
    rcases h with ⟨_, n, hn⟩ | rfl
    · exact ⟨n, hn.cons⟩
    · have hwaits := at_interrupt horderly rfl hphase
      rw [hnext, Option.some.injEq] at hwaits
      exact ⟨saved, _, _, List.mem_cons_self, hwaits⟩
  | @raised copy saved resume node world hnext hgoes =>
    rcases h with ⟨_, n, hn⟩ | rfl
    · exact Or.inr (Or.inl ⟨n, hn.cons⟩)
    · have hwaits := at_interrupt horderly rfl hphase
      rw [hnext, Option.some.injEq] at hwaits
      subst hwaits
      exact Or.inr (Or.inr List.mem_cons_self)
  | @returned copy saved resume hstops =>
    rcases h with ⟨_, n, hn⟩ | rfl
    · exact ⟨n, hn.cons⟩
    · have hwaits := at_interrupt horderly rfl hphase
      rcases hstops with hended | ⟨_, hnone⟩
      · rw [hended] at hwaits
        cases hwaits
      · cases hnone
  | upserted _ =>
    obtain ⟨n, hn⟩ := h
    exact Or.inr (Or.inl ⟨n, hn.cons⟩)
  | invalid =>
    obtain ⟨n, hn⟩ := h
    exact Or.inr (Or.inl ⟨n, hn.cons⟩)

theorem registered_step (h : s.registry.get? r ≠ none) (hs : Step rt s l s') :
    s'.registry.get? r ≠ none := by
  cases hs with
  | served hphase hserve =>
    cases served_of_serve hserve with
    | upserted _ =>
      change (s.upsert _).registry.get? r ≠ none
      rw [get?_upsert]
      split
      · simp
      · exact h
    | _ => exact h
  | _ => exact h

/-- Every new request about the run is a decision, and it has come to something. -/
theorem outcomes (start : Waiting r s₀) (run : Trace (race rt r) s₀ labels s) :
    s.registry.get? r ≠ none ∧ ∀ i request phase, s₀.requests.get? i = none →
      s.requests.get? i = some ⟨request, phase⟩ → request.runId = r →
      ∃ d, request = .submitDecision r d ∧ Outcome r labels i d phase := by
  refine run.invariant (P := fun labels s => s.registry.get? r ≠ none ∧
    ∀ i request phase, s₀.requests.get? i = none → s.requests.get? i = some ⟨request, phase⟩ →
      request.runId = r → ∃ d, request = .submitDecision r d ∧ Outcome r labels i d phase) ?_ ?_
  · obtain ⟨row, hrow, _⟩ := start.listed
    refine ⟨by simp [hrow], ?_⟩
    intro i request phase hfresh hi
    rw [hfresh] at hi
    cases hi
  · rintro past b l c run ⟨hregistered, h⟩ ⟨⟨honly, _⟩, hs⟩
    refine ⟨registered_step hregistered hs, ?_⟩
    intro j request phase hfresh hj hr
    have hothers : ∀ {t : Server} {i : ℕ} {f : InFlight}, t.requests = b.requests → j ≠ i →
        (t.put i f).requests.get? j = some ⟨request, phase⟩ →
        ∃ d, request = .submitDecision r d ∧ Outcome r (l :: past) j d phase := by
      intro t i f hrequests hji hj
      rw [requests_put_ne hji, hrequests] at hj
      obtain ⟨d, hd, houtcome⟩ := h j request phase hfresh hj hr
      exact ⟨d, hd, houtcome.cons⟩
    cases hs with
    | @posted _ i request' hfree =>
      by_cases hji : j = i
      · subst hji
        rw [requests_put_self] at hj
        cases hj
        obtain ⟨d, hd⟩ := honly hr
        exact ⟨d, hd, trivial⟩
      · exact hothers rfl hji hj
    | listed =>
      obtain ⟨d, hd, houtcome⟩ := h j request phase hfresh hj hr
      exact ⟨d, hd, houtcome.cons⟩
    | others =>
      obtain ⟨d, hd, houtcome⟩ := h j request phase hfresh hj hr
      exact ⟨d, hd, houtcome.cons⟩
    | @served t i request' before after _ progress hphase hserve =>
      have hserved := served_of_serve hserve
      by_cases hji : j = i
      · subst hji
        rw [requests_put_self] at hj
        cases hj
        obtain ⟨d, rfl, houtcome⟩ := h j _ before hfresh hphase hr
        exact ⟨d, rfl, outcome_step (orderly_of_race start run) hregistered hphase hserved houtcome⟩
      · exact hothers (served_frame (r := r) hserved).2 hji hj

/-! ### No action is both rejected and executed -/

theorem decidedAt_skip {i : ℕ} {past : List Label}
    (h : ∀ request saved v record, l ≠ .served i request (.visited saved v record)) :
    decidedAt i (l :: past) = decidedAt i past := by
  cases l with
  | served j request progress =>
    cases progress with
    | visited saved v record =>
      have hji : j ≠ i := by
        rintro rfl
        exact h request saved v record rfl
      rw [decidedAt, if_neg hji]
    | _ => rfl
  | _ => rfl

def Granted (d : DecisionRequest) : Prop := d.decision = .approved ∨ d.decision = .edited

/-- Until its first visit a request has decided nothing; from then on its cycle is the
one that its own decision began. -/
def CycleOf (r : String) (labels : List Label) (i : ℕ) (d : DecisionRequest) : Phase → Prop
  | .running copy _ none => ∀ n, decidedAt i labels = some n →
      Gave r labels i n d ∧ (Granted d ∨ TurnedDown copy.next)
  | .returned _ | .answered _ => True
  | _ => decidedAt i labels = none

theorem cycleOf_skip {i : ℕ} {d : DecisionRequest} {phase : Phase}
    (hskip : decidedAt i (l :: labels) = decidedAt i labels) (h : CycleOf r labels i d phase) :
    CycleOf r (l :: labels) i d phase := by
  cases phase with
  | running copy saved resume =>
    cases resume with
    | none =>
      intro n hn
      rw [hskip] at hn
      exact (h n hn).imp_left Gave.cons
    | some d' => exact hskip.trans h
  | returned copy => trivial
  | answered code => trivial
  | _ => exact hskip.trans h

theorem cycleOf_step {i : ℕ} {d : DecisionRequest} {phase phase' : Phase} {progress : Progress}
    (horderly : Orderly r s) (hphase : s.requests.get? i = some ⟨.submitDecision r d, phase⟩)
    (hserved : Served rt (.submitDecision r d) s phase progress phase' s')
    (houtcome : Outcome r labels i d phase) (h : CycleOf r labels i d phase) :
    CycleOf r (.served i (.submitDecision r d) progress :: labels) i d phase' := by
  cases hserved with
  | began hrequest => cases hrequest
  | @visited copy saved resume given node state next record world hnext hgoes henter =>
    have hled := led_of_enter henter
    intro n hn
    rw [decidedAt, if_pos rfl] at hn
    rcases houtcome with ⟨rfl, _⟩ | rfl
    · have hawait : node ≠ .awaitApproval := fun hnode => hgoes ⟨hnode, rfl⟩
      rw [if_neg hawait] at hn
      split at hn
      · cases hn
      · rename_i hpropose
        obtain ⟨hgave, hverdict⟩ := h n hn
        rw [hnext] at hverdict
        exact ⟨hgave.cons, hverdict.imp_right (turned_down_step hled hpropose)⟩
    · have hwaits := at_interrupt horderly rfl hphase
      rw [hnext, Option.some.injEq] at hwaits
      rw [if_pos hwaits, Option.some.injEq] at hn
      subst hn
      refine ⟨⟨_, _, List.mem_cons_self, hwaits⟩, ?_⟩
      by_cases hgranted : Granted d
      · exact Or.inl hgranted
      · exact Or.inr ((led_resumed hled hwaits rfl).2.2.2 hgranted)
  | raised _ _ => trivial
  | returned _ => trivial
  | upserted _ => trivial
  | invalid => trivial
  | unknown => trivial
  | conflict _ => trivial
  | lost _ => trivial
  | looked _ => exact (decidedAt_skip (by simp)).trans h
  | admitted _ => exact (decidedAt_skip (by simp)).trans h
  | loaded _ => exact (decidedAt_skip (by simp)).trans h

theorem cycles (start : Waiting r s₀) (run : Trace (race rt r) s₀ labels s) :
    (∀ i, s.requests.get? i = none → decidedAt i labels = none) ∧
      ∀ i d phase, s₀.requests.get? i = none →
        s.requests.get? i = some ⟨.submitDecision r d, phase⟩ → CycleOf r labels i d phase := by
  refine run.invariant (P := fun labels s =>
    (∀ i, s.requests.get? i = none → decidedAt i labels = none) ∧
      ∀ i d phase, s₀.requests.get? i = none →
        s.requests.get? i = some ⟨.submitDecision r d, phase⟩ → CycleOf r labels i d phase) ?_ ?_
  · refine ⟨fun i _ => rfl, ?_⟩
    intro i d phase hfresh hi
    rw [hfresh] at hi
    cases hi
  · rintro past b l c run ⟨hfree, h⟩ ⟨⟨honly, _⟩, hs⟩
    cases hs with
    | @posted client i request hnone =>
      have hskip : ∀ j, decidedAt j (.posted client i request :: past) = decidedAt j past :=
        fun j => decidedAt_skip (by simp)
      constructor
      · intro j hj
        by_cases hji : j = i
        · exact (hskip j).trans (hfree j (hji ▸ hnone))
        · rw [requests_put_ne hji] at hj
          exact (hskip j).trans (hfree j hj)
      · intro j d phase hfresh hj
        by_cases hji : j = i
        · subst hji
          rw [requests_put_self] at hj
          cases hj
          exact (hskip j).trans (hfree j hnone)
        · rw [requests_put_ne hji] at hj
          exact cycleOf_skip (hskip j) (h j d phase hfresh hj)
    | listed =>
      exact ⟨fun j hj => (decidedAt_skip (by simp)).trans (hfree j hj),
        fun j d phase hfresh hj =>
          cycleOf_skip (decidedAt_skip (by simp)) (h j d phase hfresh hj)⟩
    | others =>
      exact ⟨fun j hj => (decidedAt_skip (by simp)).trans (hfree j hj),
        fun j d phase hfresh hj =>
          cycleOf_skip (decidedAt_skip (by simp)) (h j d phase hfresh hj)⟩
    | @served t i request before after _ progress hphase hserve =>
      have hserved := served_of_serve hserve
      have hrequests := (served_frame (r := r) hserved).2
      have hskip : ∀ j, j ≠ i →
          decidedAt j (.served i request progress :: past) = decidedAt j past := by
        intro j hji
        refine decidedAt_skip ?_
        intro _ _ _ _ hl
        cases hl
        exact hji rfl
      constructor
      · intro j hj
        have hji : j ≠ i := by
          rintro rfl
          rw [requests_put_self] at hj
          cases hj
        rw [requests_put_ne hji, hrequests] at hj
        exact (hskip j hji).trans (hfree j hj)
      · intro j d phase hfresh hj
        by_cases hji : j = i
        · subst hji
          rw [requests_put_self] at hj
          cases hj
          obtain ⟨d', hd', houtcome⟩ := (outcomes start run).2 j _ before hfresh hphase rfl
          cases hd'
          exact cycleOf_step (orderly_of_race start run) hphase hserved houtcome
            (h j d before hfresh hphase)
        · rw [requests_put_ne hji, hrequests] at hj
          exact cycleOf_skip (hskip j hji) (h j d phase hfresh hj)

/-- An execution belongs to a cycle that was granted. -/
theorem executed_granted {n : ℕ} (start : Waiting r s₀) (run : Trace (race rt r) s₀ labels s)
    (h : ExecutedAfter r labels n) : ∃ i d, Gave r labels i n d ∧ Granted d := by
  obtain ⟨later, i, request, m, v, record, older, rfl, hr, hexecute, hdecided⟩ := h
  obtain ⟨b, hearlier, _⟩ := run.split
  cases hearlier with
  | @snoc _ a _ _ hpast hs =>
    obtain ⟨phase, phase', t, hphase, hserved, _⟩ := step_served hs.2
    have hopen : isAnswered ⟨request, phase⟩ = false := by
      cases hserved
      rfl
    have hfresh := fresh_of_open start hpast hphase hr hopen
    obtain ⟨d, rfl, houtcome⟩ := (outcomes start hpast).2 i request phase hfresh hphase hr
    have hcycle := (cycles start hpast).2 i d phase hfresh hphase
    cases hserved with
    | @visited copy saved resume given node state next _ world hnext hgoes henter =>
      rcases houtcome with ⟨rfl, _⟩ | rfl
      · obtain ⟨hgave, hverdict⟩ := hcycle n hdecided
        refine ⟨i, d, hgave.mono ?_, hverdict.resolve_right ?_⟩
        · intro l hl
          exact List.mem_append_right _ (List.mem_cons_of_mem _ hl)
        · intro hdown
          exact hdown.not_execute (hnext.trans (congrArg some hexecute))
      · rw [show decidedAt i older = none from hcycle] at hdecided
        cases hdecided

theorem verdict_kept {i n : ℕ} {d : DecisionRequest} (start : Waiting r s₀)
    (run : Trace (race rt r) s₀ labels s) (h : Gave r labels i n d)
    (hrejected : d.decision = .rejected) : ¬ ExecutedAfter r labels n := by
  intro hexecuted
  obtain ⟨j, e, hgave, hgranted⟩ := executed_granted start run hexecuted
  obtain ⟨v, record, hmem, hnode⟩ := h
  obtain ⟨v', record', hmem', hnode'⟩ := hgave
  have hsame := unique_of_nodup (answered_once start run) hmem hmem'
    (show answered r _ = some n from if_pos ⟨rfl, hnode⟩) (if_pos ⟨rfl, hnode'⟩)
  cases hsame
  rcases hgranted with happroved | hedited
  · rw [hrejected] at happroved
    cases happroved
  · rw [hrejected] at hedited
    cases hedited

/-- While the decisions for a suspended run take turns and their calls are not cut off,
one of them answers the suspension. -/
theorem decided_once (start : Waiting r s₀) (run : Trace (race rt r) s₀ labels s) :
    DecidedOnce r labels s where
  once := answered_once start run
  conflict := by
    intro client i d code hposted hi
    have hfresh := fresh_of_posted run hposted
    obtain ⟨d', hd', houtcome⟩ := (outcomes start run).2 i _ _ hfresh hi rfl
    cases hd'
    exact houtcome
  verdict := fun _ _ _ hgave hrejected => verdict_kept start run hgave hrejected

end Race

/-! ### Two reviewers -/

def waits (r : String) (s : Server) : Bool :=
  (s.registry.get? r).any (fun row : RunStatusResponse => row.status == awaitingApproval) &&
    (s.threads.get? r).any (fun t : Thread => decide (t.latest.next = some .awaitApproval)) &&
    s.requests.values.all fun f : InFlight => decide (f.request.runId = r) → isAnswered f

theorem waiting_of_check {r : String} {s : Server} (h : waits r s = true) : Waiting r s := by
  simp only [waits, Bool.and_eq_true, Option.any_eq_true, List.all_eq_true, decide_eq_true_eq,
    beq_iff_eq] at h
  obtain ⟨⟨hlisted, hinterrupted⟩, halone⟩ := h
  refine ⟨hlisted, hinterrupted, fun f hf hr => ?_⟩
  simpa [hr] using halone f hf

def decisionsOnly (r : String) (_ : Server) : Label → Bool
  | .posted _ _ (.createRun uuid body) => decide ((Request.createRun uuid body).runId ≠ r)
  | _ => true

theorem onlyDecisions_of_check {r : String} (s : Server) (l : Label)
    (h : decisionsOnly r s l = true) : OnlyDecisions r l := by
  cases l with
  | posted client i request =>
    intro hr
    cases request with
    | createRun uuid body => exact absurd hr (of_decide_eq_true h)
    | submitDecision runId d => exact ⟨d, by rw [← hr]; rfl⟩
  | _ => trivial

def rejects (r : String) (n : ℕ) : Label → Bool
  | .served _ (.submitDecision runId d) (.visited saved v _) =>
    decide (runId = r ∧ saved = n ∧ v.node = .awaitApproval ∧ d.decision = .rejected)
  | _ => false

/-- The latest visit executes what an earlier one rejected. -/
def executesRejected (r : String) (n : ℕ) : List Label → Bool
  | .served i request (.visited _ v _) :: older =>
    decide (request.runId = r ∧ v.node = .execute ∧ decidedAt i older = some n) &&
      older.any (rejects r n)
  | _ => false

theorem not_once_of_check {r : String} {n : ℕ} {labels : List Label} {s : Server}
    (h : executesRejected r n labels = true) : ¬ DecidedOnce r labels s := by
  intro honce
  unfold executesRejected at h
  split at h
  · obtain ⟨hlatest, hrejected⟩ := Bool.and_eq_true_iff.mp h
    obtain ⟨hr, hexecute, hdecided⟩ := of_decide_eq_true hlatest
    obtain ⟨l, hl, hrejects⟩ := List.any_eq_true.mp hrejected
    unfold rejects at hrejects
    split at hrejects
    · rename_i j runId d saved v record
      obtain ⟨rfl, rfl, hnode, hverdict⟩ := of_decide_eq_true hrejects
      exact honce.verdict j _ d ⟨v, record, List.mem_cons_of_mem _ hl, hnode⟩ hverdict
        ⟨[], _, _, _, _, _, _, rfl, hr, hexecute, hdecided⟩
    · cases hrejects
  · cases h

/-- Two requests find the run waiting and load it; one rejects it, and the other
approves it and executes. -/
def opposedDecisions : List Service.Move :=
  .post 1 1 (.submitDecision "run-1" { decision := .approved }) ::
    .post 2 2 (.submitDecision "run-1" { decision := .rejected }) ::
    (serves 1 [{}, {}, {}] ++ serves 2 [{}, {}, {}, {}] ++ serves 1 [{}, {}, {}, {}])

theorem rejected_and_executed :
    ∃ s₀ labels s, Waiting "run-1" s₀ ∧
      Trace ((server { digest := id }).restrict fun _ l => OnlyDecisions "run-1" l) s₀ labels s ∧
      ¬ DecidedOnce "run-1" labels s := by
  obtain ⟨_, s₀, _, hcheck⟩ := played_spec
    (p := fun (_ : List Label) (s₀ : Server) => waits "run-1" s₀ &&
      played (play { digest := id } (decisionsOnly "run-1") opposedDecisions [] s₀)
        fun (labels : List Label) (_ : Server) => executesRejected "run-1" 4 labels)
    (show played (play { digest := id } (fun _ _ => true) (createSuspended 0 0
        { runId := some "run-1" } { tool := "restart_service", target := "service_b" } "medium") []
      { world := freshSandbox [] }) _ = true by decide +kernel)
  obtain ⟨hwaits, hplayed⟩ := Bool.and_eq_true_iff.mp hcheck
  obtain ⟨labels, s, hplay, hrejected⟩ := played_spec hplayed
  exact ⟨s₀, labels, s, waiting_of_check hwaits, play_trace onlyDecisions_of_check .start hplay,
    not_once_of_check hrejected⟩

instance (row : Option RunStatusResponse) : Decidable (Listed row) :=
  decidable_of_iff (row.any (fun x => decide (x.status = awaitingApproval)) = true)
    (by simp [Listed, Option.any_eq_true])

instance : DecidablePred Engaged
  | .looked existing => inferInstanceAs (Decidable (Listed existing))
  | .admitted | .running _ _ _ | .returned _ => .isTrue trivial
  | .posted | .answered _ => .isFalse id

def takesTurns (r : String) (s : Server) : Label → Bool
  | .served _ _ .looked | .served _ _ (.began _) =>
    s.requests.values.all fun f => decide (f.request.runId = r → ¬ Engaged f.phase)
  | .served _ _ (.raised _) | .served _ _ .invalid => false
  | l => decisionsOnly r s l

theorem race_of_check {r : String} (s : Server) (l : Label) (h : takesTurns r s l = true) :
    OnlyDecisions r l ∧ TakesTurns r s l ∧ Delivered r s l := by
  have hfree : (s.requests.values.all fun f : InFlight =>
      decide (f.request.runId = r → ¬ Engaged f.phase)) = true →
      ∀ j f, s.requests.get? j = some f → f.request.runId = r → ¬ Engaged f.phase := by
    intro hall j f hj
    exact of_decide_eq_true (List.all_eq_true.mp hall f (Dict.mem_values.mpr ⟨j, hj⟩))
  cases l with
  | served i request progress =>
    cases progress with
    | looked => exact ⟨trivial, fun _ => hfree h, trivial⟩
    | began input => exact ⟨trivial, fun _ => hfree h, trivial⟩
    | raised node => cases h
    | invalid => cases h
    | _ => exact ⟨trivial, trivial, trivial⟩
  | posted client i request => exact ⟨onlyDecisions_of_check s _ h, trivial, trivial⟩
  | _ => exact ⟨trivial, trivial, trivial⟩

def conflicts (i : ℕ) : Label → Bool
  | .served j _ (.refused code) => decide (j = i ∧ code = 409)
  | _ => false

/-- The first of two reviewers approves, and the second one comes too late. -/
theorem late_rejection_conflicts :
    ∃ s₀ labels s, Waiting "run-1" s₀ ∧ Trace (race { digest := id } "run-1") s₀ labels s ∧
      labels.any (conflicts 2) = true ∧ DecidedOnce "run-1" labels s := by
  obtain ⟨_, s₀, _, hcheck⟩ := played_spec
    (p := fun (_ : List Label) (s₀ : Server) => waits "run-1" s₀ &&
      played (play { digest := id } (takesTurns "run-1")
        (.post 1 1 (.submitDecision "run-1" { decision := .approved }) ::
          serves 1 (List.replicate 11 {}) ++
          .post 2 2 (.submitDecision "run-1" { decision := .rejected }) ::
          serves 2 [{}, {}]) [] s₀)
        fun (labels : List Label) (_ : Server) => labels.any (conflicts 2))
    (show played (play { digest := id } (fun _ _ => true) (createSuspended 0 0
        { runId := some "run-1" } { tool := "restart_service", target := "service_b" } "medium") []
      { world := freshSandbox [] }) _ = true by decide +kernel)
  obtain ⟨hwaits, hplayed⟩ := Bool.and_eq_true_iff.mp hcheck
  obtain ⟨labels, s, hplay, hrefused⟩ := played_spec hplayed
  have start := waiting_of_check hwaits
  have run : Trace (race { digest := id } "run-1") s₀ labels s :=
    play_trace race_of_check .start hplay
  exact ⟨s₀, labels, s, start, run, hrefused, decided_once start run⟩

end DecisionRace
