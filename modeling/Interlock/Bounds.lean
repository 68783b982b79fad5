import Interlock.Accounting

/-!
# Bounds on runs

A tariff prices the visits and says what a planning cycle can still cost from a node
on. As three replannings end a run, no run is charged more than three cycles; the
bounds on visits, calls, proposals, executions and approvals are instances.
-/

namespace Bounds

open Dictionary PythonValues Tools RunState Nodes Graph Transitions Walks PlanningCycle Accounting
open DriftDetection (leakingAndFull approvedMoves)

/-! ### The shape of a cycle -/

/-- The nodes after a node in the same cycle. -/
def successors : Node → List Node
  | .proposeAction => [.classifyRisk, .replan]
  | .classifyRisk => [.markAwaitingApproval, .prepareExecution]
  | .markAwaitingApproval => [.awaitApproval]
  | .awaitApproval => [.revalidate, .prepareExecution, .replan]
  | .revalidate => [.prepareExecution, .replan]
  | .prepareExecution => [.execute]
  | .execute => [.verify]
  | .verify => [.rollingBack]
  | .rollingBack => [.rolledBack]
  | .rolledBack => [.replan]
  | _ => []

/-- The edges, as far as a tariff tells them apart. -/
inductive Route (s : AgentState) (node : Node) : Option Node → Prop where
  | opening (h : node = .diagnose) : Route s node (some .proposeAction)
  | within {next : Node} (h : next ∈ successors node) : Route s node (some next)
  | again {cycles : Json} (h : node = .replan) (hc : s.replanCycles = some cycles)
      (hless : cycles.atLeast maxReplanCycles = .ok false) : Route s node (some .proposeAction)
  | exhausted {cycles : Json} (h : node = .replan) (hc : s.replanCycles = some cycles)
      (hmost : cycles.atLeast maxReplanCycles = .ok true) : Route s node (some .escalate)
  | lapsed (h : node = .awaitApproval) : Route s node (some .escalate)
  | verified (h : node = .verify) : Route s node (some .completed)
  | ended (h : node = .completed ∨ node = .escalate) : Route s node none

theorem route_of_edge {rt : Runtime} {s : AgentState} {node : Node} {next : Option Node}
    (h : Edge rt s node next) : Route s node next := by
  cases h with
  | diagnosed => exact .opening rfl
  | replanned hc hless => exact .again rfl hc hless
  | exhausted hc hmost => exact .exhausted rfl hc hmost
  | lapsed _ _ _ => exact .lapsed rfl
  | verified _ _ => exact .verified rfl
  | completed => exact .ended (Or.inl rfl)
  | escalated => exact .ended (Or.inr rfl)
  | _ => exact .within (by simp [successors])

/-! ### Tariffs -/

/-- What a visit to each node costs, and what is still due from it until its cycle has
replanned; `last` is the price of the node that ends the run. The charge starts anew at
the nodes `anew`. -/
structure Tariff where
  cost : Node → Nat
  due : Node → Nat
  last : Nat
  anew : Node → Bool

namespace Tariff

structure Sound (t : Tariff) : Prop where
  within : ∀ n, ∀ m ∈ successors n, t.cost n + t.due m ≤
    if t.anew n = true then t.cost .diagnose + t.due .proposeAction else t.due n
  replan : t.anew .replan = false ∧ t.cost .replan ≤ t.due .replan
  last : t.cost .completed ≤ t.last ∧ t.cost .escalate ≤ t.last

def charge (t : Tariff) : List Visit → Nat
  | [] => 0
  | v :: past => if t.anew v.node = true then t.cost v.node else t.charge past + t.cost v.node

/-- A whole run: the diagnosis, three cycles, and the end. -/
def total (t : Tariff) : Nat := t.cost .diagnose + 3 * t.due .proposeAction + t.last

/-- What a run with `k` replannings behind it can still be charged. -/
def owed (t : Tariff) (k : Nat) : Option Node → Nat
  | none => 0
  | some .diagnose => t.total
  | some .completed => t.last
  | some .escalate => t.last
  | some n => t.due n + (2 - k) * t.due .proposeAction + t.last

theorem owed_within {t : Tariff} {k : Nat} {n m : Node} (h : m ∈ successors n) :
    t.owed k (some m) = t.due m + (2 - k) * t.due .proposeAction + t.last ∧
      t.owed k (some n) = t.due n + (2 - k) * t.due .proposeAction + t.last := by
  cases n with
  | diagnose | replan | escalate | completed => simp [successors] at h
  | _ =>
    simp only [successors, List.mem_cons, List.not_mem_nil, or_false] at h
    rcases h with rfl | rfl | rfl <;> exact ⟨rfl, rfl⟩

theorem charge_cons_le (t : Tariff) (v : Visit) (past : List Visit) :
    t.charge (v :: past) ≤ t.charge past + t.cost v.node := by
  rw [charge]
  split <;> omega

end Tariff

/-! ### Replannings are counted -/

section Counted

variable {rt : Runtime} {others : ToolContext → ToolContext → Prop} {initialState : AgentState}
variable {world w : ToolContext} {vs : List Visit} {s : AgentState} {next : Option Node}

/-- The counter in the state is the number of replannings so far. -/
theorem cycles_counted (hinitial : initialState.replanCycles = none)
    (walk : Walk rt others initialState world vs s next w) :
    s.replanCycles.getD (.int 0) = .int (visitsTo .replan vs) := by
  induction walk with
  | start => rw [hinitial]; rfl
  | @visit past s w v next _ hbefore _ hled ih =>
    rw [visitsTo_cons]
    by_cases hnode : v.node = .replan
    · obtain ⟨_, cycles, hcycles, hafter⟩ := led_replan hled hnode
      rw [hbefore, ih] at hcycles
      cases hcycles
      rw [hafter, if_pos hnode]
      simp
    · rw [(led_marksKept hled).replanCycles hnode, hbefore, ih, if_neg hnode]
      simp

/-- A run that goes on has replanned at most twice. -/
theorem cycles_left (hinitial : initialState.replanCycles = none)
    (walk : Walk rt others initialState world vs s next w) :
    visitsTo .replan vs ≤ 3 ∧
      (next ≠ none → next ≠ some .escalate → visitsTo .replan vs ≤ 2) := by
  induction walk with
  | start => exact ⟨Nat.zero_le 3, fun _ _ => Nat.zero_le 2⟩
  | @visit past s w v next hwalk hbefore hworld hled ih =>
    have hcounted := cycles_counted hinitial (.visit hwalk hbefore hworld hled)
    have hroute := route_of_edge (led_edge hled)
    rw [visitsTo_cons] at hcounted ⊢
    obtain ⟨hmost, hopen⟩ := ih
    by_cases hnode : v.node = .replan
    · have hpast : visitsTo .replan past ≤ 2 := hopen (by simp) (by simp [hnode])
      rw [if_pos hnode] at hcounted ⊢
      refine ⟨by omega, ?_⟩
      intro _ hescalate
      cases hroute with
      | again _ hc hless =>
        rw [hc] at hcounted
        cases hcounted
        have hbound := of_decide_eq_false (Except.ok.inj hless)
        rw [maxReplanCycles] at hbound
        omega
      | exhausted _ _ _ => exact absurd rfl hescalate
      | opening h | lapsed h | verified h => rw [hnode] at h; cases h
      | within h => rw [hnode] at h; simp [successors] at h
      | ended h => rw [hnode] at h; simp at h
    · rw [if_neg hnode]
      refine ⟨by omega, ?_⟩
      intro hnone _
      by_cases hescalate : v.node = .escalate
      · cases hroute with
        | ended _ => exact absurd rfl hnone
        | opening h | lapsed h | verified h | again h _ _ | exhausted h _ _ =>
          rw [hescalate] at h; cases h
        | within h => rw [hescalate] at h; simp [successors] at h
      · have hpast := hopen (by simp) (by simpa using hescalate)
        omega

end Counted

/-! ### No run is charged more than three cycles -/

section Charged

variable {rt : Runtime} {others : ToolContext → ToolContext → Prop} {initialState : AgentState}
variable {world w : ToolContext} {vs : List Visit} {s : AgentState} {next : Option Node}
variable {t : Tariff}

/-- A visit pays for itself and leaves what the next node of its cycle has due. -/
theorem charge_within (ht : t.Sound) {v : Visit} {past : List Visit} {m : Node} {k : Nat}
    (h : m ∈ successors v.node) (hpast : t.charge past + t.owed k (some v.node) ≤ t.total) :
    t.charge (v :: past) + (t.due m + (2 - k) * t.due .proposeAction + t.last) ≤ t.total := by
  have hstep := ht.within v.node m h
  rw [(Tariff.owed_within h).2] at hpast
  rw [Tariff.charge]
  cases hanew : t.anew v.node with
  | true =>
    rw [hanew, if_pos rfl] at hstep
    rw [if_pos rfl, Tariff.total]
    have hcycles : (2 - k) * t.due .proposeAction ≤ 2 * t.due .proposeAction :=
      Nat.mul_le_mul_right _ (Nat.sub_le 2 k)
    omega
  | false =>
    rw [hanew, if_neg (by decide)] at hstep
    rw [if_neg (by decide)]
    omega

/-- One visit is paid from what is owed. -/
theorem charge_visit (ht : t.Sound) {v : Visit} {past : List Visit}
    (hroute : Route s v.node next)
    (hleft : next ≠ none → next ≠ some .escalate → visitsTo .replan (v :: past) ≤ 2)
    (hpast : t.charge past + t.owed (visitsTo .replan past) (some v.node) ≤ t.total) :
    t.charge (v :: past) + t.owed (visitsTo .replan (v :: past)) next ≤ t.total := by
  have hcons := t.charge_cons_le v past
  rw [visitsTo_cons] at hleft ⊢
  cases hroute with
  | opening h =>
    rw [h] at hpast hcons ⊢
    have hcycles : (2 - visitsTo .replan past) * t.due .proposeAction ≤
        2 * t.due .proposeAction := Nat.mul_le_mul_right _ (Nat.sub_le 2 _)
    simp only [Tariff.owed, Tariff.total, reduceCtorEq, if_false, Nat.add_zero] at hpast ⊢
    omega
  | @within next h =>
    have hreplan : v.node ≠ .replan := by
      intro hreplan
      rw [hreplan] at h
      simp [successors] at h
    rw [if_neg hreplan, Nat.add_zero, (Tariff.owed_within h).1]
    exact charge_within ht h hpast
  | again h _ _ =>
    have hk := hleft (by simp) (by simp)
    have hreplan := ht.replan
    rw [h, if_pos rfl] at hk
    rw [h] at hpast hcons ⊢
    have hcycles : (2 - visitsTo .replan past) * t.due .proposeAction =
        (2 - (visitsTo .replan past + 1)) * t.due .proposeAction + t.due .proposeAction := by
      obtain ⟨j, hj⟩ : ∃ j, 2 - visitsTo .replan past = j + 1 := ⟨1 - visitsTo .replan past, by omega⟩
      have hj' : 2 - (visitsTo .replan past + 1) = j := by omega
      rw [hj, hj', Nat.add_mul, Nat.one_mul]
    simp only [Tariff.owed, if_true] at hpast ⊢
    omega
  | exhausted h _ _ =>
    have hreplan := ht.replan
    rw [h] at hpast hcons ⊢
    simp only [Tariff.owed] at hpast ⊢
    omega
  | lapsed h =>
    have hpaid := charge_within (m := .replan) ht (by simp [h, successors]) hpast
    simp only [Tariff.owed]
    omega
  | verified h =>
    have hpaid := charge_within (m := .rollingBack) ht (by simp [h, successors]) hpast
    simp only [Tariff.owed]
    omega
  | ended h =>
    have hlast := ht.last
    rcases h with h | h
    · rw [h] at hpast hcons ⊢
      simp only [Tariff.owed] at hpast ⊢
      omega
    · rw [h] at hpast hcons ⊢
      simp only [Tariff.owed] at hpast ⊢
      omega

theorem charge_le (ht : t.Sound) (hinitial : initialState.replanCycles = none)
    (walk : Walk rt others initialState world vs s next w) :
    t.charge vs + t.owed (visitsTo .replan vs) next ≤ t.total := by
  induction walk with
  | start => exact Nat.le_of_eq (Nat.zero_add _)
  | visit hwalk hbefore hworld hled ih =>
    have hleft := (cycles_left hinitial (.visit hwalk hbefore hworld hled)).2
    exact charge_visit ht (route_of_edge (led_edge hled)) hleft ih

end Charged

/-! ### The tariffs of a run -/

/-- Every visit costs one. -/
def visitTariff : Tariff where
  cost := fun _ => 1
  due
    | .proposeAction => 11
    | .classifyRisk => 10
    | .markAwaitingApproval => 9
    | .awaitApproval => 8
    | .revalidate => 7
    | .prepareExecution => 6
    | .execute => 5
    | .verify => 4
    | .rollingBack => 3
    | .rolledBack => 2
    | .replan => 1
    | _ => 0
  last := 1
  anew := fun _ => false

theorem visitTariff_sound : visitTariff.Sound := by
  refine ⟨?_, by decide, by decide⟩
  intro n
  cases n <;> decide

/-- Every visit of the call in progress costs one; a suspension ends the call, so that
a cycle which asks for approval is charged no further. -/
def callTariff : Tariff where
  cost := fun _ => 1
  due
    | .proposeAction => 8
    | .classifyRisk => 7
    | .markAwaitingApproval => 1
    | .revalidate => 7
    | .prepareExecution => 6
    | .execute => 5
    | .verify => 4
    | .rollingBack => 3
    | .rolledBack => 2
    | .replan => 1
    | _ => 0
  last := 1
  anew := fun n => decide (n = .awaitApproval)

theorem callTariff_sound : callTariff.Sound := by
  refine ⟨?_, by decide, by decide⟩
  intro n
  cases n <;> decide

/-- Only visits to `target` cost, and only the nodes in `before` can still lead to one
in their cycle. -/
def countTariff (target : Node) (before : List Node) : Tariff where
  cost := fun n => if n = target then 1 else 0
  due := fun n => if n ∈ before then 1 else 0
  last := 0
  anew := fun _ => false

def beforeApproval : List Node :=
  [.proposeAction, .classifyRisk, .markAwaitingApproval, .awaitApproval]

def beforeExecution : List Node := beforeApproval ++ [.revalidate, .prepareExecution, .execute]

theorem proposals_sound : (countTariff .proposeAction [.proposeAction]).Sound := by
  refine ⟨?_, by decide, by decide⟩
  intro n
  cases n <;> decide

theorem approvals_sound : (countTariff .awaitApproval beforeApproval).Sound := by
  refine ⟨?_, by decide, by decide⟩
  intro n
  cases n <;> decide

theorem executions_sound : (countTariff .execute beforeExecution).Sound := by
  refine ⟨?_, by decide, by decide⟩
  intro n
  cases n <;> decide

theorem charge_visits (vs : List Visit) : visitTariff.charge vs = vs.length := by
  induction vs with
  | nil => rfl
  | cons v past ih => simp [Tariff.charge, visitTariff] at ih ⊢; omega

theorem charge_count (target : Node) (before : List Node) (vs : List Visit) :
    (countTariff target before).charge vs = visitsTo target vs := by
  induction vs with
  | nil => rfl
  | cons v past ih =>
    rw [visitsTo_cons, ← ih]
    rfl

/-- The visits of the call in progress: a resumption begins one with the completed
`await_approval`. -/
def currentCall : List Visit → List Visit
  | [] => []
  | v :: past => if v.node = .awaitApproval then [v] else v :: currentCall past

theorem charge_call (vs : List Visit) : callTariff.charge vs = (currentCall vs).length := by
  induction vs with
  | nil => rfl
  | cons v past ih =>
    rw [Tariff.charge, currentCall, ih]
    by_cases hawait : v.node = .awaitApproval
    · simp [callTariff, hawait]
    · simp [callTariff, hawait]

/-! ### Whole runs -/

/-- The bounds on a run that has made the visits `vs` and stands in `s`. -/
structure Bounded (vs : List Visit) (s : AgentState) : Prop where
  replans : visitsTo .replan vs ≤ 3
  proposals : visitsTo .proposeAction vs ≤ 3
  executions : visitsTo .execute vs ≤ 3
  approvals : visitsTo .awaitApproval vs ≤ 3
  cycles : s.replanCycles.getD (.int 0) = .int (visitsTo .replan vs)
  call : (currentCall vs).length ≤ 26
  visits : vs.length ≤ 35

theorem runs_bounded {rt : Runtime} {others : ToolContext → ToolContext → Prop} {runId : String}
    {initialState : AgentState} {world : ToolContext} {past : List Event} {c : Config}
    (hinitial : initialState.replanCycles = none)
    (run : Run rt others runId initialState world past c) : Bounded (visits past) c.state := by
  obtain ⟨w, walk, _⟩ := run_walk run
  have hstart : (startWorkflow runId initialState world).state.replanCycles = none := hinitial
  have hcharge : ∀ {t : Tariff}, t.Sound → t.charge (visits past) ≤ t.total := by
    intro t ht
    have hpaid := charge_le ht hstart walk
    omega
  have hproposals := hcharge proposals_sound
  have happrovals := hcharge approvals_sound
  have hexecutions := hcharge executions_sound
  have hcall := hcharge callTariff_sound
  have hvisits := hcharge visitTariff_sound
  rw [charge_count] at hproposals happrovals hexecutions
  rw [charge_call] at hcall
  rw [charge_visits] at hvisits
  exact ⟨(cycles_left hstart walk).1, hproposals, hexecutions, happrovals,
    cycles_counted hstart walk, hcall, hvisits⟩

/-- Three approved cycles whose actions are all rolled back. -/
def threeFailures : List Move :=
  .answer {} :: failure ++ failure ++ failure ++ [.answer {}]
where
  failure : List Move :=
    approvedMoves "scale_service" "service_c" ++ [.answer {}, .answer {}] ++ rollbackMoves

/-- The bounds hold of a run that reaches them. -/
theorem three_failures_bounded :
    ∃ past c, Run { digest := id } (fun _ _ => False) "run-1" {} leakingAndFull past c ∧
      c.next = none ∧ (visits past).length = 35 ∧ visitsTo .execute (visits past) = 3 ∧
      Bounded (visits past) c.state := by
  obtain ⟨v, past, c, hplay, hcheck⟩ := endsIn_spec
    (p := fun v past c => decide (c.next = none) &&
      decide ((visits (.visit v :: past)).length = 35) &&
      decide (visitsTo .execute (visits (.visit v :: past)) = 3))
    (show endsIn (play { digest := id } threeFailures []
      (startWorkflow "run-1" {} leakingAndFull)) _ = true by decide +kernel)
  simp only [Bool.and_eq_true, decide_eq_true_eq] at hcheck
  obtain ⟨⟨hnext, hlength⟩, hexecuted⟩ := hcheck
  have run : Run { digest := id } (fun _ _ => False) "run-1" {} leakingAndFull (.visit v :: past) c :=
    play_trace (by simp [Allowed, threeFailures, threeFailures.failure, rollbackMoves,
      approvedMoves]) .start hplay
  exact ⟨_, c, run, hnext, hlength, hexecuted, runs_bounded rfl run⟩

end Bounds
