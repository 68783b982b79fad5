import Interlock.Serving

/-!
# The queue and the graph

The registry is written once at the end of a graph call, from what the call returned.
While requests for a run take turns, and nothing raises that would cut a call off
between its first visit and that write, a run is listed for approval exactly if its
thread waits at the interrupt.
-/

namespace QueueAgreement

open Dictionary PythonValues Tools RunState Nodes Graph Transitions Walks Suspension
open DecisionHonoured Service Serving DiagnosticSweep

/-! ### Rows, threads and the requests between them -/

/-- A decision for the run passes the check of its status. -/
def Listed (row : Option RunStatusResponse) : Prop :=
  ∃ x, row = some x ∧ x.status = awaitingApproval

/-- There is an interrupt to answer. -/
def Interrupted (thread : Option Thread) : Prop :=
  ∃ t, thread = some t ∧ t.latest.next = some .awaitApproval

/-- What the registry says about a run agrees with its thread. -/
structure Agrees (row : Option RunStatusResponse) (thread : Option Thread) : Prop where
  known : thread ≠ none → row ≠ none
  listed : Listed row ↔ Interrupted thread

/-- A call that stops here writes the status that fits. -/
structure Labelled (copy : Checkpoint) : Prop where
  waits : copy.next = some .awaitApproval → copy.state.status = some (.str awaitingApproval)
  ended : copy.next = none → ∃ t, copy.state.status = some (.str t) ∧ t ≠ awaitingApproval

/-- From the moment that it found the run waiting, or that it starts the run, a request
is about to change the thread or the row. -/
def Engaged : Phase → Prop
  | .looked existing => Listed existing
  | .admitted | .running _ _ _ | .returned _ => True
  | .posted | .answered _ => False

/-- What an engaged request relies on. -/
def Holding (row : Option RunStatusResponse) (thread : Option Thread) (f : InFlight) : Prop :=
  match f.phase with
  | .looked existing => Listed existing ∧ f.request.resume ≠ none ∧ Agrees row thread ∧ Listed row
  | .admitted => f.request.resume ≠ none ∧ Agrees row thread ∧ Listed row
  | .running copy saved resume => thread = some ⟨copy, saved⟩ ∧
      (resume = none → Labelled copy) ∧ (resume ≠ none → Agrees row thread ∧ Listed row)
  | .returned copy => (∃ saved, thread = some ⟨copy, saved⟩) ∧ Labelled copy ∧
      (copy.next = none ∨ copy.next = some .awaitApproval)
  | .posted | .answered _ => False

theorem Holding.engaged {row : Option RunStatusResponse} {thread : Option Thread} {f : InFlight}
    (h : Holding row thread f) : Engaged f.phase := by
  obtain ⟨request, phase⟩ := f
  cases phase with
  | looked existing => exact h.1
  | posted => exact h.elim
  | answered code => exact h.elim
  | _ => trivial

/-- Nobody is engaged on the run, and row and thread agree; or one request is. -/
inductive Orderly (r : String) (s : Server) : Prop where
  | idle (hfree : ∀ i f, s.requests.get? i = some f → f.request.runId = r → ¬ Engaged f.phase)
      (hagrees : Agrees (s.registry.get? r) (s.threads.get? r))
  | held {i : ℕ} {f : InFlight} (hi : s.requests.get? i = some f) (hr : f.request.runId = r)
      (hholding : Holding (s.registry.get? r) (s.threads.get? r) f)
      (halone : ∀ j g, s.requests.get? j = some g → g.request.runId = r → Engaged g.phase → j = i)

/-- A request becomes engaged on the run only while no other is. -/
def TakesTurns (r : String) (s : Server) : Label → Prop
  | .served _ request .looked | .served _ request (.began _) => request.runId = r →
      ∀ j f, s.requests.get? j = some f → f.request.runId = r → ¬ Engaged f.phase
  | _ => True

/-- A call is cut off only inside the approval, or while the run is registered under a
status that does not list it; and what it returns is a valid response. -/
def Delivered (r : String) (s : Server) : Label → Prop
  | .served _ request (.raised node) => request.runId = r → node = .awaitApproval ∨
      ∃ row, s.registry.get? r = some row ∧ row.status ≠ awaitingApproval
  | .served _ request .invalid => request.runId ≠ r
  | _ => True

/-! ### Statuses -/

section Status

variable {rt : Runtime} {v : Visit} {next : Option Node} {copy : Checkpoint}

theorem labelled_of_led (hled : v.Led rt next) (hstate : copy.state = v.after)
    (hnext : copy.next = next) : Labelled copy := by
  have hedge := led_edge hled
  constructor
  · intro hwaits
    rw [hnext] at hwaits
    rw [hwaits] at hedge
    cases hnode : v.node with
    | markAwaitingApproval =>
      obtain ⟨_, hafter⟩ := led_markAwaitingApproval hled hnode
      rw [hstate, hafter]
      rfl
    | _ =>
      rw [hnode] at hedge
      cases hedge
  · intro hended
    rw [hnext] at hended
    rw [hended] at hedge
    cases hnode : v.node with
    | completed =>
      obtain ⟨_, hafter⟩ := led_completed hled hnode
      exact ⟨State.completed.value, by rw [hstate, hafter], by decide⟩
    | escalate =>
      obtain ⟨_, hafter⟩ := led_escalate hled hnode
      exact ⟨State.escalated.value, by rw [hstate, hafter], by decide⟩
    | _ =>
      rw [hnode] at hedge
      cases hedge

theorem labelled_of_diagnose (hnext : copy.next = some .diagnose) : Labelled copy where
  waits := by
    intro h
    rw [hnext] at h
    cases h
  ended := by
    intro h
    rw [hnext] at h
    cases h

/-- The row that a returned call writes lists the run exactly if it waits. -/
theorem agrees_of_response {runId : String} {row : RunStatusResponse} {saved : ℕ}
    (hlabelled : Labelled copy) (hstops : copy.next = none ∨ copy.next = some .awaitApproval)
    (hrow : toResponse runId copy.toChannels = .ok row) :
    Agrees (some row) (some ⟨copy, saved⟩) := by
  obtain ⟨_, hstatus⟩ := toResponse_ok hrow
  refine ⟨by simp, ?_⟩
  rcases hstops with hended | hwaits
  · obtain ⟨t, ht, hne⟩ := hlabelled.ended hended
    rw [ht] at hstatus
    have hrow : t = row.status := Except.ok.inj hstatus
    constructor
    · rintro ⟨_, ⟨⟩, hlisted⟩
      exact absurd (hrow.trans hlisted) hne
    · rintro ⟨_, ⟨⟩, hnext⟩
      rw [hended] at hnext
      cases hnext
  · rw [hlabelled.waits hwaits] at hstatus
    have hrow : awaitingApproval = row.status := Except.ok.inj hstatus
    exact ⟨fun _ => ⟨_, rfl, hwaits⟩, fun _ => ⟨row, rfl, hrow.symm⟩⟩

end Status

/-! ### One step -/

section Step

variable {rt : Runtime} {r : String} {s s' : Server}

/-- What happens elsewhere leaves a run as orderly as it was. -/
theorem Orderly.frame {i : ℕ} (h : Orderly r s)
    (hrow : s'.registry.get? r = s.registry.get? r) (hthread : s'.threads.get? r = s.threads.get? r)
    (hothers : ∀ j, j ≠ i → s'.requests.get? j = s.requests.get? j)
    (hbefore : ∀ f, s.requests.get? i = some f → f.request.runId = r → ¬ Engaged f.phase)
    (hafter : ∀ f, s'.requests.get? i = some f → f.request.runId = r → ¬ Engaged f.phase) :
    Orderly r s' := by
  cases h with
  | idle hfree hagrees =>
    refine .idle ?_ (by rw [hrow, hthread]; exact hagrees)
    intro j f hj hr
    by_cases hji : j = i
    · subst hji
      exact hafter f hj hr
    · rw [hothers j hji] at hj
      exact hfree j f hj hr
  | @held k f hk hr hholding halone =>
    have hki : k ≠ i := by
      rintro rfl
      exact hbefore f hk hr hholding.engaged
    refine .held (i := k) (f := f) ((hothers k hki).trans hk) hr
      (by rw [hrow, hthread]; exact hholding) ?_
    intro j g hj hgr hengaged
    by_cases hji : j = i
    · subst hji
      exact absurd hengaged (hafter g hj hgr)
    · rw [hothers j hji] at hj
      exact halone j g hj hgr hengaged

/-- A request becomes engaged. -/
theorem Orderly.engage {i : ℕ} {f : InFlight} (h : Orderly r s)
    (hfree : ∀ j g, s.requests.get? j = some g → g.request.runId = r → ¬ Engaged g.phase)
    (hi : s'.requests.get? i = some f) (hothers : ∀ j, j ≠ i → s'.requests.get? j = s.requests.get? j)
    (hr : f.request.runId = r)
    (hholding : Agrees (s.registry.get? r) (s.threads.get? r) →
      Holding (s'.registry.get? r) (s'.threads.get? r) f) : Orderly r s' := by
  cases h with
  | @held k g hk hgr hheld _ => exact absurd hheld.engaged (hfree k g hk hgr)
  | idle _ hagrees =>
    refine .held hi hr (hholding hagrees) ?_
    intro j g hj hgr hengaged
    by_contra hji
    rw [hothers j hji] at hj
    exact hfree j g hj hgr hengaged

/-- The engaged request of a run is the one that holds it. -/
theorem Orderly.holder {i : ℕ} {f : InFlight} (h : Orderly r s) (hi : s.requests.get? i = some f)
    (hr : f.request.runId = r) (hengaged : Engaged f.phase) :
    Holding (s.registry.get? r) (s.threads.get? r) f ∧
      ∀ j g, s.requests.get? j = some g → g.request.runId = r → Engaged g.phase → j = i := by
  cases h with
  | idle hfree _ => exact absurd hengaged (hfree i f hi hr)
  | @held k g hk _ hholding halone =>
    obtain rfl := halone i f hi hr hengaged
    rw [hi] at hk
    cases hk
    exact ⟨hholding, halone⟩

/-- The engaged request goes on, or is done and leaves row and thread in agreement. -/
theorem Orderly.advance {i : ℕ} {f f' : InFlight} (h : Orderly r s) (hi : s.requests.get? i = some f)
    (hr : f.request.runId = r) (hengaged : Engaged f.phase) (hi' : s'.requests.get? i = some f')
    (hothers : ∀ j, j ≠ i → s'.requests.get? j = s.requests.get? j) (hr' : f'.request.runId = r)
    (hnext : Holding (s.registry.get? r) (s.threads.get? r) f →
      Holding (s'.registry.get? r) (s'.threads.get? r) f' ∨
        (¬ Engaged f'.phase ∧ Agrees (s'.registry.get? r) (s'.threads.get? r))) :
    Orderly r s' := by
  obtain ⟨hholding, halone⟩ := h.holder hi hr hengaged
  have halone' : ∀ j g, s'.requests.get? j = some g → g.request.runId = r → Engaged g.phase → j = i := by
    intro j g hj hgr hg
    by_contra hji
    rw [hothers j hji] at hj
    exact hji (halone j g hj hgr hg)
  rcases hnext hholding with hholding' | ⟨hdone, hagrees⟩
  · exact .held hi' hr' hholding' halone'
  · refine .idle ?_ hagrees
    intro j g hj hgr hg
    obtain rfl := halone' j g hj hgr hg
    rw [hi'] at hj
    cases hj
    exact hdone hg

theorem requests_put_ne {t : Server} {i j : ℕ} {f : InFlight} (h : j ≠ i) :
    (t.put i f).requests.get? j = t.requests.get? j :=
  (requests_put i j f).trans (if_neg h.symm)

theorem requests_put_self (t : Server) (i : ℕ) (f : InFlight) :
    (t.put i f).requests.get? i = some f :=
  (requests_put i i f).trans (if_pos rfl)

/-- The interrupt that a listed run of an agreeing registry waits at. -/
theorem Agrees.interrupted {row : Option RunStatusResponse} {thread : Option Thread}
    (h : Agrees row thread) (hlisted : Listed row) {t : Thread} (ht : thread = some t) :
    t.latest.next = some .awaitApproval := by
  obtain ⟨t', ht', hnext⟩ := h.listed.mp hlisted
  rw [ht] at ht'
  cases ht'
  exact hnext

/-- The engaged request relies on the same things after each of its steps, or is done. -/
theorem holding_step {request : Request} {phase phase' : Phase} {progress : Progress} {i : ℕ}
    (hserved : Served rt request s phase progress phase' s')
    (hengaged : Engaged phase) (hdelivered : Delivered request.runId s (.served i request progress))
    (h : Holding (s.registry.get? request.runId) (s.threads.get? request.runId)
      ⟨request, phase⟩) :
    Holding (s'.registry.get? request.runId) (s'.threads.get? request.runId) ⟨request, phase'⟩ ∨
      (¬ Engaged phase' ∧
        Agrees (s'.registry.get? request.runId) (s'.threads.get? request.runId)) := by
  cases hserved with
  | began _ => exact hengaged.elim
  | looked _ => exact hengaged.elim
  | unknown => exact Or.inr ⟨id, h.2.2.1⟩
  | conflict _ => exact Or.inr ⟨id, h.2.2.1⟩
  | admitted _ => exact Or.inl h.2
  | loaded hthread =>
    obtain ⟨hresume, hagrees, hlisted⟩ := h
    exact Or.inl ⟨hthread, fun hnone => absurd hnone hresume, fun _ => ⟨hagrees, hlisted⟩⟩
  | lost _ => exact Or.inr ⟨id, h.2.1⟩
  | visited hnext hgoes henter =>
    refine Or.inl ⟨(get?_save _ _).trans (if_pos rfl), ?_, fun hnone => absurd rfl hnone⟩
    exact fun _ => labelled_of_led (led_of_enter henter) rfl rfl
  | @raised copy saved resume node world hnext hgoes =>
    refine Or.inr ⟨id, ?_⟩
    obtain ⟨hthread, _, hwaiting⟩ := h
    by_cases hresume : resume = none
    · have hawait : node ≠ .awaitApproval := fun hnode => hgoes ⟨hnode, hresume⟩
      obtain ⟨row, hrow, hstatus⟩ := (hdelivered rfl).resolve_left hawait
      change Agrees (s.registry.get? _) (s.threads.get? _)
      rw [hrow, hthread]
      refine ⟨by simp, ?_, ?_⟩
      · rintro ⟨_, ⟨⟩, hlisted⟩
        exact absurd hlisted hstatus
      · rintro ⟨_, ⟨⟩, hwaits⟩
        rw [hnext, Option.some.injEq] at hwaits
        exact absurd hwaits hawait
    · exact (hwaiting hresume).1
  | @returned copy saved resume hstops =>
    obtain ⟨hthread, hlabelled, hwaiting⟩ := h
    have hresume : resume = none := by
      by_contra hsome
      obtain ⟨hagrees, hlisted⟩ := hwaiting hsome
      rcases hstops with hended | ⟨_, hnone⟩
      · have hnext := hagrees.interrupted hlisted hthread
        rw [hended] at hnext
        cases hnext
      · exact hsome hnone
    exact Or.inl ⟨⟨saved, hthread⟩, hlabelled hresume, hstops.imp_right And.left⟩
  | upserted hrow =>
    obtain ⟨⟨saved, hthread⟩, hlabelled, hstops⟩ := h
    refine Or.inr ⟨id, ?_⟩
    have hset := (get?_upsert (s := s) (r := request.runId) _).trans (if_pos (toResponse_ok hrow).1)
    rw [hset]
    change Agrees _ (s.threads.get? _)
    rw [hthread]
    exact agrees_of_response hlabelled hstops hrow
  | invalid => exact absurd rfl hdelivered

theorem orderly_step {l : Label} (h : Orderly r s) (hs : Step rt s l s')
    (hturns : TakesTurns r s l) (hdelivered : Delivered r s l) : Orderly r s' := by
  cases hs with
  | @posted _ i request hfree =>
    refine h.frame (i := i) rfl rfl (fun j hj => requests_put_ne hj) ?_ ?_
    · intro f hf
      rw [hfree] at hf
      cases hf
    · intro f hf _
      rw [requests_put_self] at hf
      cases hf
      exact id
  | listed => exact h
  | others =>
    cases h with
    | idle hfree hagrees => exact .idle hfree hagrees
    | held hi hr hholding halone => exact .held hi hr hholding halone
  | @served t i request phase phase' answers progress hphase hserve =>
    have hserved := served_of_serve hserve
    obtain ⟨hframe, hrequests⟩ := served_frame (r := r) hserved
    have hothers : ∀ j, j ≠ i → (t.put i ⟨request, phase'⟩).requests.get? j = s.requests.get? j := by
      intro j hj
      rw [requests_put_ne hj, hrequests]
    have hself := requests_put_self t i ⟨request, phase'⟩
    by_cases hr : request.runId = r
    · subst hr
      by_cases hengaged : Engaged phase
      · have hholding := holding_step (i := i) hserved hengaged hdelivered
        exact h.advance hphase rfl hengaged hself hothers rfl hholding
      · -- a request that is not engaged yet becomes so, or touches nothing
        cases hserved with
        | began _ =>
          refine h.engage (hturns rfl) hself hothers rfl ?_
          refine fun _ => ⟨(get?_save _ _).trans (if_pos rfl), fun _ => ?_, fun hnone => absurd rfl hnone⟩
          refine labelled_of_diagnose ?_
          rw [Server.input]
          split <;> rfl
        | looked hrequest =>
          by_cases hlisted : Listed (s.registry.get? request.runId)
          · refine h.engage (hturns rfl) hself hothers rfl ?_
            refine fun hagrees => ⟨hlisted, ?_, hagrees, hlisted⟩
            rw [hrequest]
            simp [Request.resume]
          · refine h.frame (i := i) rfl rfl hothers ?_ ?_
            · intro f hf _
              rw [hphase] at hf
              cases hf
              exact hengaged
            · intro f hf _
              rw [hself] at hf
              cases hf
              exact hlisted
        | unknown | conflict _ =>
          refine h.frame (i := i) rfl rfl hothers ?_ ?_
          · intro f hf _
            rw [hphase] at hf
            cases hf
            exact hengaged
          · intro f hf _
            rw [hself] at hf
            cases hf
            exact id
        | admitted hstatus => exact absurd ⟨_, rfl, hstatus⟩ hengaged
        | _ => exact absurd trivial hengaged
    · obtain ⟨hrow, hthread⟩ := hframe hr
      refine h.frame (i := i) hrow hthread hothers ?_ ?_
      · intro f hf hfr
        rw [hphase] at hf
        cases hf
        exact absurd hfr hr
      · intro f hf hfr
        rw [hself] at hf
        cases hf
        exact absurd hfr hr

end Step

/-! ### Requests one by one -/

def isAnswered (f : InFlight) : Bool :=
  match f.phase with
  | .answered _ => true
  | _ => false

/-- Nothing is being served. -/
def Quiet (s : Server) : Prop := ∀ f ∈ s.requests.values, isAnswered f = true

instance (s : Server) : Decidable (Quiet s) := List.decidableBAll _ _

/-- Requests do not overlap. -/
def OneByOne (s : Server) : Label → Prop
  | .posted _ _ _ => Quiet s
  | _ => True

theorem not_engaged_of_answered {f : InFlight} (h : isAnswered f = true) : ¬ Engaged f.phase := by
  obtain ⟨request, phase⟩ := f
  cases phase with
  | answered code => exact id
  | _ => cases h

theorem Quiet.answered {s : Server} (h : Quiet s) {i : ℕ} {f : InFlight}
    (hf : s.requests.get? i = some f) : isAnswered f = true :=
  h f (Dict.mem_values.mpr ⟨i, hf⟩)

/-- At most one request is being served. -/
def Single (s : Server) : Prop :=
  ∀ i j f g, s.requests.get? i = some f → s.requests.get? j = some g → isAnswered f = false →
    isAnswered g = false → i = j

section Runs

variable {rt : Runtime} {s s' : Server} {l : Label}

theorem single_put {t : Server} {i : ℕ} {f : InFlight} (hrequests : t.requests = s.requests)
    (halone : ∀ j g, j ≠ i → s.requests.get? j = some g → isAnswered g = true) :
    Single (t.put i f) := by
  have hself : ∀ j g, (t.put i f).requests.get? j = some g → isAnswered g = false → j = i := by
    intro j g hj hg
    by_contra hji
    rw [requests_put_ne hji, hrequests] at hj
    rw [halone j g hji hj] at hg
    cases hg
  intro j k g g' hj hk hg hg'
  rw [hself j g hj hg, hself k g' hk hg']

theorem single_step (h : Single s) (hs : Step rt s l s') (hone : OneByOne s l) : Single s' := by
  cases hs with
  | posted _ => exact single_put rfl fun j g _ hj => hone.answered hj
  | listed => exact h
  | others => exact h
  | @served t i request phase phase' answers progress hphase hserve =>
    refine single_put (served_frame (r := request.runId) (served_of_serve hserve)).2 ?_
    intro j g hji hj
    by_contra hopen
    have hserving : isAnswered ⟨request, phase⟩ = false := by
      cases phase with
      | answered code => cases hserve
      | _ => rfl
    exact hji (h j i g _ hj hphase (by simpa using hopen) hserving)

/-- The one request that is being served has nobody to wait for. -/
theorem takesTurns_of_single (h : Single s) (hs : Step rt s l s') (r : String) :
    TakesTurns r s l := by
  cases hs with
  | @served t i request phase phase' answers progress hphase hserve =>
    have hposted : phase = .posted → ∀ j f, s.requests.get? j = some f → f.request.runId = r →
        ¬ Engaged f.phase := by
      rintro rfl j f hj _ hengaged
      have hopen : isAnswered f = false := by
        by_contra hanswered
        exact not_engaged_of_answered (by simpa using hanswered) hengaged
      obtain rfl := h j i f _ hj hphase hopen rfl
      rw [hphase] at hj
      cases hj
      exact hengaged
    cases served_of_serve hserve with
    | began _ => exact fun _ => hposted rfl
    | looked _ => exact fun _ => hposted rfl
    | _ => trivial
  | _ => trivial

theorem orderly_start (r : String) (world : ToolContext) : Orderly r { world := world } := by
  refine .idle (fun i f hf => by simp at hf) ⟨fun h => absurd rfl h, ?_⟩
  constructor
  · rintro ⟨_, hrow, _⟩
    simp at hrow
  · rintro ⟨_, hthread, _⟩
    simp at hthread

/-- After each of any sequence of requests that do not overlap, the queue agrees with the
graph. -/
theorem queue_agrees {world : ToolContext} {labels : List Label}
    (run : Trace ((server rt).restrict fun s l => OneByOne s l ∧ ∀ r, Delivered r s l)
      { world := world } labels s) (hquiet : Quiet s) (r : String) :
    Agrees (s.registry.get? r) (s.threads.get? r) := by
  have hinv : Single s ∧ Orderly r s := by
    refine run.state_invariant (P := fun s => Single s ∧ Orderly r s) ?_ ?_
    · exact ⟨fun i j f g hf => by simp at hf, orderly_start r world⟩
    · rintro b l c ⟨hsingle, horderly⟩ ⟨⟨hone, hdelivered⟩, hs⟩
      exact ⟨single_step hsingle hs hone,
        orderly_step horderly hs (takesTurns_of_single hsingle hs r) (hdelivered r)⟩
  cases hinv.2 with
  | idle _ hagrees => exact hagrees
  | held hi _ hholding _ =>
    exact absurd hholding.engaged (not_engaged_of_answered (hquiet.answered hi))

end Runs

def requestsApart (s : Server) : Label → Bool
  | .posted _ _ _ => decide (Quiet s)
  | _ => true

theorem oneByOne_of_check (s : Server) (l : Label) (h : requestsApart s l = true) :
    OneByOne s l := by
  cases l with
  | posted client i request =>
    have hquiet : Quiet s := of_decide_eq_true h
    exact hquiet
  | _ => trivial

/-- A proposal of parameters that no call can be made from, its approval, and the
execution that raises. -/
def raisingApproval : List Move :=
  createSuspended 0 0 { runId := some "run-1" }
    { tool := "scale_service", target := "service_b",
      parameters := some (.obj [("replicas", .str "two")]) } "medium" ++
  .post 0 1 (.submitDecision "run-1" { decision := .approved }) :: serves 1 (List.replicate 7 {})

theorem raised_approval_stays_listed :
    ∃ labels s, Trace ((server { digest := id }).restrict OneByOne)
        { world := freshSandbox [] } labels s ∧ Quiet s ∧
      ¬ Agrees (s.registry.get? "run-1") (s.threads.get? "run-1") := by
  obtain ⟨labels, s, hplay, hcheck⟩ := played_spec
    (p := fun (_ : List Label) (s : Server) => decide (Quiet s) &&
      (s.registry.get? "run-1").any (fun row : RunStatusResponse => row.status == awaitingApproval) &&
      (s.threads.get? "run-1").all (fun t : Thread => decide (t.latest.next = some .execute)))
    (show played (play { digest := id } requestsApart raisingApproval []
      { world := freshSandbox [] }) _ = true by decide +kernel)
  simp only [Bool.and_eq_true, decide_eq_true_eq] at hcheck
  obtain ⟨⟨hquiet, hlisted⟩, hthread⟩ := hcheck
  refine ⟨labels, s, play_trace oneByOne_of_check .start hplay, hquiet, ?_⟩
  intro hagrees
  obtain ⟨row, hrow, hstatus⟩ := (Option.any_eq_true _ _).mp hlisted
  obtain ⟨t, ht, hnext⟩ := hagrees.listed.mp ⟨row, hrow, by simpa using hstatus⟩
  rw [ht] at hthread
  simp [hnext] at hthread

/-- Requests apart, and no call that is cut off. -/
def deliveredApart (s : Server) (l : Label) : Bool :=
  requestsApart s l && match l with
    | .served _ _ (.raised _) | .served _ _ .invalid => false
    | _ => true

theorem delivered_of_check (s : Server) (l : Label) (h : deliveredApart s l = true) :
    OneByOne s l ∧ ∀ r, Delivered r s l := by
  obtain ⟨hapart, hdelivered⟩ := Bool.and_eq_true_iff.mp h
  refine ⟨oneByOne_of_check s l hapart, fun r => ?_⟩
  cases l with
  | served i request progress =>
    cases progress with
    | raised node => cases hdelivered
    | invalid => cases hdelivered
    | _ => trivial
  | _ => trivial

/-- A rejected run that is suspended again is listed again. -/
theorem rejected_run_listed :
    ∃ labels s, Trace ((server { digest := id }).restrict
        fun s l => OneByOne s l ∧ ∀ r, Delivered r s l) { world := freshSandbox [] } labels s ∧
      Quiet s ∧ Interrupted (s.threads.get? "run-1") ∧
      ∀ r, Agrees (s.registry.get? r) (s.threads.get? r) := by
  obtain ⟨labels, s, hplay, hcheck⟩ := played_spec
    (p := fun (_ : List Label) (s : Server) => decide (Quiet s) &&
      (s.threads.get? "run-1").any (fun t : Thread => decide (t.latest.next = some .awaitApproval)))
    (show played (play { digest := id } deliveredApart
      (createSuspended 0 0 { runId := some "run-1" }
          { tool := "scale_service", target := "service_b" } "medium" ++
        .post 0 1 (.submitDecision "run-1" { decision := .rejected }) ::
        serves 1 [{}, {}, {}, {}, {},
          { proposal := { tool := "restart_service", target := "service_b" } },
          { classification := { tier := "medium" } }, {}, {}, {}]) []
      { world := freshSandbox [] }) _ = true by decide +kernel)
  simp only [Bool.and_eq_true, decide_eq_true_eq] at hcheck
  obtain ⟨hquiet, hthread⟩ := hcheck
  have run := play_trace delivered_of_check .start hplay
  refine ⟨labels, s, run, hquiet, ?_, queue_agrees run hquiet⟩
  obtain ⟨t, ht, hnext⟩ := (Option.any_eq_true _ _).mp hthread
  exact ⟨t, ht, by simpa using hnext⟩

end QueueAgreement
