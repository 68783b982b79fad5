import Mathlib.Data.List.GetD
import Mathlib.Data.List.Sort
import Mathlib.Algebra.Order.Floor.Ring
import Mathlib.Algebra.Order.Field.Basic
import Mathlib.Tactic.Linarith
import Mathlib.Tactic.Positivity

/-!
# Percentiles by linear interpolation

The percentile `q` of `n` values stands at the rank `q / 100 * (n - 1)` of the sorted values,
on the way between its two neighbours. It grows with `q`, and stays between the least and the
greatest value.
-/

namespace Percentiles

variable {K : Type} [Field K] [LinearOrder K] [IsStrictOrderedRing K] [FloorSemiring K]

/-- The value at a position; beyond the end it is the last one. -/
def valueAt (values : List K) (position : ℕ) : K :=
  values.getD (min position (values.length - 1)) 0

/-- The value at a rank that may lie between two positions. -/
def atRank (values : List K) (rank : K) : K :=
  valueAt values ⌊rank⌋₊ +
    (valueAt values (⌊rank⌋₊ + 1) - valueAt values ⌊rank⌋₊) * (rank - ⌊rank⌋₊)

/-- The value at the rank of `q`. -/
def percentile (values : List K) (q : K) : K :=
  atRank (values.insertionSort (· ≤ ·)) (q / 100 * ((values.length - 1 : ℕ) : K))

omit [IsStrictOrderedRing K] in
theorem percentile_sorted (values : List K) (q : K) :
    percentile (values.insertionSort (· ≤ ·)) q = percentile values q := by
  unfold percentile
  rw [(List.pairwise_insertionSort (· ≤ ·) values).insertionSort_eq, List.length_insertionSort]

section Sorted

variable {values : List K} {rank rank' : K}

omit [IsStrictOrderedRing K] [FloorSemiring K] in
theorem valueAt_mono (hsorted : values.Pairwise (· ≤ ·)) {i j : ℕ} (h : i ≤ j) :
    valueAt values i ≤ valueAt values j := by
  cases values with
  | nil => exact le_of_eq (by simp [valueAt])
  | cons a rest =>
    have hi : min i ((a :: rest).length - 1) < (a :: rest).length := by
      simp only [List.length_cons]
      omega
    have hj : min j ((a :: rest).length - 1) < (a :: rest).length := by
      simp only [List.length_cons]
      omega
    unfold valueAt
    rw [List.getD_eq_getElem _ _ hi, List.getD_eq_getElem _ _ hj]
    exact hsorted.rel_get_of_le (a := ⟨_, hi⟩) (b := ⟨_, hj⟩) (by
      simp only [Fin.mk_le_mk]
      omega)

omit [LinearOrder K] [IsStrictOrderedRing K] [FloorSemiring K] in
theorem valueAt_mem (hne : values ≠ []) (i : ℕ) : valueAt values i ∈ values := by
  have hpos : 0 < values.length := List.length_pos_iff.mpr hne
  have hi : min i (values.length - 1) < values.length := by omega
  unfold valueAt
  rw [List.getD_eq_getElem _ _ hi]
  exact List.getElem_mem hi

/-- A rank reads between its two neighbours. -/
theorem atRank_between (hsorted : values.Pairwise (· ≤ ·)) (hrank : 0 ≤ rank) :
    valueAt values ⌊rank⌋₊ ≤ atRank values rank ∧
      atRank values rank ≤ valueAt values (⌊rank⌋₊ + 1) := by
  have hstep : valueAt values ⌊rank⌋₊ ≤ valueAt values (⌊rank⌋₊ + 1) :=
    valueAt_mono hsorted (Nat.le_succ _)
  have hlow : (⌊rank⌋₊ : K) ≤ rank := Nat.floor_le hrank
  have hhigh : rank < ⌊rank⌋₊ + 1 := Nat.lt_floor_add_one rank
  unfold atRank
  constructor
  · nlinarith
  · nlinarith

theorem atRank_mono (hsorted : values.Pairwise (· ≤ ·)) (hrank : 0 ≤ rank) (h : rank ≤ rank') :
    atRank values rank ≤ atRank values rank' := by
  obtain hsame | hless := (Nat.floor_le_floor h).eq_or_lt
  · -- The same two neighbours, further on the way from one to the other.
    have hstep : valueAt values ⌊rank⌋₊ ≤ valueAt values (⌊rank⌋₊ + 1) :=
      valueAt_mono hsorted (Nat.le_succ _)
    unfold atRank
    rw [← hsame]
    nlinarith
  · calc atRank values rank ≤ valueAt values (⌊rank⌋₊ + 1) := (atRank_between hsorted hrank).2
      _ ≤ valueAt values ⌊rank'⌋₊ := valueAt_mono hsorted hless
      _ ≤ atRank values rank' := (atRank_between hsorted (hrank.trans h)).1

end Sorted

section Percentile

variable {values : List K} {q q' : K}

theorem percentile_mono (values : List K) (hq : 0 ≤ q) (h : q ≤ q') :
    percentile values q ≤ percentile values q' := by
  refine atRank_mono (List.pairwise_insertionSort _ values) (by positivity) ?_
  gcongr

/-- A percentile lies between two of the values. -/
theorem percentile_between (hne : values ≠ []) (hq : 0 ≤ q) :
    ∃ a ∈ values, ∃ b ∈ values, a ≤ percentile values q ∧ percentile values q ≤ b := by
  have hsorted : values.insertionSort (· ≤ ·) ≠ [] := by
    rw [Ne, ← List.length_eq_zero_iff, List.length_insertionSort, List.length_eq_zero_iff]
    exact hne
  have hrank : 0 ≤ q / 100 * ((values.length - 1 : ℕ) : K) := by positivity
  obtain ⟨hlow, hhigh⟩ := atRank_between (List.pairwise_insertionSort (· ≤ ·) values) hrank
  refine ⟨_, ?_, _, ?_, hlow, hhigh⟩
  · exact (List.mem_insertionSort _).mp (valueAt_mem hsorted _)
  · exact (List.mem_insertionSort _).mp (valueAt_mem hsorted _)

end Percentile

end Percentiles
