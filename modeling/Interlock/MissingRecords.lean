import Interlock.Metrics
import Interlock.PlanningCycle
import Interlock.RecordedVisits

/-!
# Records that are missing

The completeness check compares neighbours only. A stretch of missing records goes
unnoticed at the start and at the end of a log, and between two records that are there
whenever the run has come back to the status in which the stretch began.
-/

namespace MissingRecords

open PythonValues Tools DiagnosticSweep RunState Nodes Graph Transitions Walks PlanningCycle
open AuditChain RecordedVisits
open Metrics (RunRow pct auditCompleteness)

/-! ### Lists without some positions -/

section Lists

variable {α : Type} {R : α → α → Prop} {S : Finset ℕ} {l : List α}

/-- A list without the positions in `S`, which are counted from `n`. -/
def without (S : Finset ℕ) : ℕ → List α → List α
  | _, [] => []
  | n, a :: rest => if n ∈ S then without S (n + 1) rest else a :: without S (n + 1) rest

theorem without_sublist (n : ℕ) : (without S n l).Sublist l := by
  induction l generalizing n with
  | nil => exact List.Sublist.slnil
  | cons a rest ih =>
    rw [without]
    split
    · exact (ih (n + 1)).cons a
    · exact (ih (n + 1)).cons_cons a

/-- The first position that is there. -/
theorem head_without_iff {n : ℕ} {b : α} :
    (without S n l).head? = some b ↔
      ∃ j, l[j]? = some b ∧ n + j ∉ S ∧ ∀ k < j, n + k ∈ S := by
  induction l generalizing n with
  | nil => simp [without]
  | cons a rest ih =>
    have hshift : ∀ k, n + 1 + k = n + (k + 1) := by
      intro k
      omega
    rw [without]
    split
    · rename_i hn
      rw [ih]
      simp only [hshift]
      constructor
      · rintro ⟨j, hj, hkept, hgone⟩
        refine ⟨j + 1, hj, hkept, ?_⟩
        intro k hk
        cases k with
        | zero => exact hn
        | succ k => exact hgone k (by omega)
      · rintro ⟨j, hj, hkept, hgone⟩
        cases j with
        | zero => exact absurd hn hkept
        | succ j => exact ⟨j, hj, hkept, fun k hk => hgone (k + 1) (by omega)⟩
    · rename_i hn
      constructor
      · intro hb
        cases hb
        exact ⟨0, rfl, hn, fun k hk => absurd hk (Nat.not_lt_zero k)⟩
      · rintro ⟨j, hj, _, hgone⟩
        cases j with
        | zero => exact hj
        | succ j => exact absurd (hgone 0 (Nat.succ_pos j)) hn

/-- A list with missing positions is a chain if each two positions that are there, with
only missing ones between them, are linked. -/
theorem isChain_without_iff {n : ℕ} :
    (without S n l).IsChain R ↔ ∀ i j a b, i < j → l[i]? = some a → l[j]? = some b → n + i ∉ S →
      n + j ∉ S → (∀ k, i < k → k < j → n + k ∈ S) → R a b := by
  induction l generalizing n with
  | nil => simp [without]
  | cons x rest ih =>
    have hshift : ∀ k, n + 1 + k = n + (k + 1) := by
      intro k
      omega
    have hlater : ∀ i j, (∀ k, i + 1 < k → k < j + 1 → n + k ∈ S) ↔
        ∀ k, i < k → k < j → n + (k + 1) ∈ S := by
      intro i j
      constructor
      · exact fun h k hik hkj => h (k + 1) (by omega) (by omega)
      · intro h k hik hkj
        obtain ⟨k, rfl⟩ : ∃ k', k = k' + 1 := ⟨k - 1, by omega⟩
        exact h k (by omega) (by omega)
    rw [without]
    split
    · rename_i hn
      rw [ih]
      simp only [hshift]
      constructor
      · intro h i j a b hij ha hb hi hj hgone
        cases i with
        | zero => exact absurd hn hi
        | succ i =>
          cases j with
          | zero => omega
          | succ j => exact h i j a b (by omega) ha hb hi hj ((hlater i j).mp hgone)
      · intro h i j a b hij ha hb hi hj hgone
        exact h (i + 1) (j + 1) a b (by omega) ha hb hi hj ((hlater i j).mpr hgone)
    · rename_i hn
      rw [List.isChain_cons, ih]
      simp only [hshift]
      constructor
      · rintro ⟨hfirst, h⟩ i j a b hij ha hb hi hj hgone
        cases j with
        | zero => omega
        | succ j =>
          cases i with
          | zero =>
            cases ha
            apply hfirst b
            rw [Option.mem_def, head_without_iff]
            simp only [hshift]
            exact ⟨j, hb, hj, fun k hk => hgone (k + 1) (by omega) (by omega)⟩
          | succ i => exact h i j a b (by omega) ha hb hi hj ((hlater i j).mp hgone)
      · intro h
        constructor
        · intro b hb
          rw [Option.mem_def, head_without_iff] at hb
          simp only [hshift] at hb
          obtain ⟨j, hb, hj, hgone⟩ := hb
          refine h 0 (j + 1) x b (by omega) rfl hb hn hj ?_
          intro k hk hkj
          obtain ⟨k, rfl⟩ : ∃ k', k = k' + 1 := ⟨k - 1, by omega⟩
          exact hgone k (by omega)
        · intro i j a b hij ha hb hi hj hgone
          exact h (i + 1) (j + 1) a b (by omega) ha hb hi hj ((hlater i j).mpr hgone)

/-- Where the whole list is a chain of `next b = last a`, a gap is closed if what is left
before it is what is left at its end. -/
theorem isChain_without_of_chain {β : Type} {first last : α → β}
    (h : l.IsChain fun a b => first b = last a) :
    (without S 0 l).IsChain (fun a b => first b = last a) ↔
      ∀ i j a c, i < j → j + 1 < l.length → l[i]? = some a → l[j]? = some c → i ∉ S → j + 1 ∉ S →
        (∀ k, i < k → k ≤ j → k ∈ S) → last c = last a := by
  have hstep : ∀ j b c, l[j]? = some c → l[j + 1]? = some b → first b = last c := by
    intro j b c hc hb
    obtain ⟨hj, rfl⟩ := List.getElem?_eq_some_iff.mp hc
    obtain ⟨hj', rfl⟩ := List.getElem?_eq_some_iff.mp hb
    exact List.isChain_iff_getElem.mp h j hj'
  rw [isChain_without_iff]
  simp only [Nat.zero_add]
  constructor
  · intro hlinked i j a c hij hj ha hc hi hj' hgone
    have hb : l[j + 1]? = some l[j + 1] := List.getElem?_eq_getElem hj
    rw [← hstep j _ c hc hb]
    exact hlinked i (j + 1) a _ (by omega) ha hb hi hj' fun k hik hkj => hgone k hik (by omega)
  · intro hclosed i j a b hij ha hb hi hj hgone
    obtain ⟨j, rfl⟩ : ∃ j', j = j' + 1 := ⟨j - 1, by omega⟩
    have hlength := (List.getElem?_eq_some_iff.mp hb).1
    have hc : l[j]? = some l[j] := List.getElem?_eq_getElem (by omega)
    rw [hstep j b _ hc hb]
    rcases Nat.lt_or_ge i j with hlt | hge
    · exact hclosed i j a _ hlt hlength ha hc hi hj fun k hik hkj => hgone k hik (by omega)
    · obtain rfl : i = j := by omega
      rw [hc] at ha
      rw [Option.some.inj ha]

end Lists

/-! ### The completeness check -/

/-- What is left of a log is reported incomplete, alone and as one run of any suite. -/
structure Detected (S : Finset ℕ) (log : List AuditRecord) : Prop where
  chain : isCompleteChain (without S 0 log) = false
  suite : ∀ (run : RunRow) (runs : List RunRow), run.auditRecords = without S 0 log →
    auditCompleteness (run :: runs) =
      pct (runs.countP fun r => isCompleteChain r.auditRecords) (runs.length + 1)

/-- Some stretch of missing records, with a record before and one after it, leads to
another status than it started from. -/
def Torn (S : Finset ℕ) (log : List AuditRecord) : Prop :=
  ∃ i j a c, i < j ∧ j + 1 < log.length ∧ log[i]? = some a ∧ log[j]? = some c ∧ i ∉ S ∧
    j + 1 ∉ S ∧ (∀ k, i < k → k ≤ j → k ∈ S) ∧ c.toState ≠ a.toState

theorem detected_of_incomplete {S : Finset ℕ} {log : List AuditRecord}
    (h : isCompleteChain (without S 0 log) = false) : Detected S log := by
  refine ⟨h, ?_⟩
  intro run runs hrun
  rw [auditCompleteness, List.countP_cons_of_neg (by simp [hrun, h]), List.length_cons]

theorem incomplete_iff_torn {S : Finset ℕ} {log : List AuditRecord} (hstamped : Stamped log)
    (hchain : log.IsChain Follows) : isCompleteChain (without S 0 log) = false ↔ Torn S log := by
  have hcomplete : isCompleteChain (without S 0 log) = true ↔ (without S 0 log).IsChain Follows :=
    isCompleteChain_iff (hstamped.sublist (without_sublist 0))
  have hclosed : (without S 0 log).IsChain Follows ↔ _ := isChain_without_of_chain hchain
  rw [← Bool.not_eq_true, hcomplete, hclosed, Torn]
  push Not
  rfl

section Runs

variable {rt : Runtime} {others : ToolContext → ToolContext → Prop} {runId : String}
variable {initialState : AgentState} {world : ToolContext} {past : List Event} {c : Config}

/-- What is missing from the log of a run is detected exactly if the log is torn: missing
records at its start or its end never are, nor those after which the run was back in the
status of the record before. -/
theorem detected_iff_torn (run : Run rt others runId initialState world past c)
    (hstamped : Stamped c.audit) (S : Finset ℕ) : Detected S c.audit ↔ Torn S c.audit := by
  rw [← incomplete_iff_torn hstamped (run_recorded run).chain]
  exact ⟨fun h => h.chain, detected_of_incomplete⟩

end Runs

/-- A restart that completes. -/
def restartAndVerify : List Move :=
  .answer {} :: autonomousMoves "restart_service" "service_a" none ++ [.answer {}, .answer {}]

/-- Neither the first record is missed, nor that of the execution, nor the last one, nor
all of them. -/
theorem missing_records_unnoticed :
    ∃ past c, Run { digest := id } (fun _ _ => False) "run-1" {} (freshSandbox []) past c ∧
      c.next = none ∧ c.state.status = some (.str "COMPLETED") ∧ Stamped c.audit ∧
      c.audit.length = 7 ∧
      ∀ S ∈ [{0}, {4}, {6}, Finset.range 7], ¬ Detected S c.audit := by
  obtain ⟨v, past, c, hplay, hcheck⟩ := endsIn_spec
    (p := fun _ _ c => decide (c.next = none) && c.state.status.any (·.isStr "COMPLETED") &&
      decide (Stamped c.audit) && decide (c.audit.length = 7) &&
      [{0}, {4}, {6}, Finset.range 7].all fun S => isCompleteChain (without S 0 c.audit))
    (show endsIn (play { digest := id } restartAndVerify []
      (startWorkflow "run-1" {} (freshSandbox []))) _ = true by decide +kernel)
  simp only [Bool.and_eq_true, decide_eq_true_eq, List.all_eq_true] at hcheck
  obtain ⟨⟨⟨⟨hnext, hstatus⟩, hstamped⟩, hlength⟩, hcomplete⟩ := hcheck
  have run : Run { digest := id } (fun _ _ => False) "run-1" {} (freshSandbox [])
      (.visit v :: past) c :=
    play_trace (by simp [Allowed, restartAndVerify, autonomousMoves]) .start hplay
  refine ⟨_, c, run, hnext, Json.any_isStr_iff.mp hstatus, hstamped, hlength, ?_⟩
  intro S hS hdetected
  have hchain := hdetected.chain
  rw [hcomplete S hS] at hchain
  cases hchain

/-- A missing classification is detected. -/
theorem missing_classification :
    ∃ past c, Run { digest := id } (fun _ _ => False) "run-1" {} (freshSandbox []) past c ∧
      c.next = none ∧ Detected {2} c.audit := by
  obtain ⟨v, past, c, hplay, hcheck⟩ := endsIn_spec
    (p := fun _ _ c => decide (c.next = none) && decide (Stamped c.audit) &&
      decide (3 < c.audit.length) &&
      c.audit[1]?.any fun a : AuditRecord => c.audit[2]?.any fun r : AuditRecord => decide (r.toState ≠ a.toState))
    (show endsIn (play { digest := id } restartAndVerify []
      (startWorkflow "run-1" {} (freshSandbox []))) _ = true by decide +kernel)
  simp only [Bool.and_eq_true, decide_eq_true_eq, Option.any_eq_true] at hcheck
  obtain ⟨⟨⟨hnext, hstamped⟩, hlength⟩, a, ha, r, hr, hne⟩ := hcheck
  have run : Run { digest := id } (fun _ _ => False) "run-1" {} (freshSandbox [])
      (.visit v :: past) c :=
    play_trace (by simp [Allowed, restartAndVerify, autonomousMoves]) .start hplay
  refine ⟨_, c, run, hnext, (detected_iff_torn run hstamped {2}).mpr ?_⟩
  refine ⟨1, 2, a, r, by omega, hlength, ha, hr, by decide, by decide, ?_, hne⟩
  intro k hk hk'
  obtain rfl : k = 2 := by omega
  exact Finset.mem_singleton_self 2

end MissingRecords
