import Mathlib

/-!
# Rounding to a floating-point format

A number is rounded to the multiple of a unit that is nearest to it, where the unit depends on
the binary exponent of the number, and of two nearest ones to the even one.
-/

namespace FloatRounding

/-! ### Integers -/

/-- The integer below is nearer than the one above, or as near and even. -/
def RoundsDown (x : ℚ) : Prop :=
  x - ⌊x⌋ < 1 / 2 ∨ x - ⌊x⌋ = 1 / 2 ∧ ⌊x⌋ % 2 = 0

instance (x : ℚ) : Decidable (RoundsDown x) := by
  unfold RoundsDown
  infer_instance

/-- The nearest integer, and the even one of two. -/
def roundEven (x : ℚ) : ℤ := if RoundsDown x then ⌊x⌋ else ⌊x⌋ + 1

section Integers

variable {x y : ℚ}

theorem floor_le_roundEven (x : ℚ) : ⌊x⌋ ≤ roundEven x := by
  rw [roundEven]
  split <;> omega

theorem roundEven_le (x : ℚ) : roundEven x ≤ ⌊x⌋ + 1 := by
  rw [roundEven]
  split <;> omega

@[simp] theorem roundEven_intCast (n : ℤ) : roundEven n = n := by
  simp [roundEven, RoundsDown]

/-- Between two integers, what is below a number that is rounded down is so as well. -/
theorem RoundsDown.of_le (hy : RoundsDown y) (h : x ≤ y) (hfloor : ⌊x⌋ = ⌊y⌋) :
    RoundsDown x := by
  rw [RoundsDown, hfloor]
  rcases hy with hlow | ⟨htie, heven⟩
  · exact Or.inl (by linarith)
  · rcases h.eq_or_lt with rfl | hlt
    · exact Or.inr ⟨htie, heven⟩
    · exact Or.inl (by linarith)

theorem roundEven_mono (h : x ≤ y) : roundEven x ≤ roundEven y := by
  rcases (Int.floor_le_floor h).eq_or_lt with hfloor | hfloor
  · by_cases hy : RoundsDown y
    · rw [roundEven, roundEven, if_pos hy, if_pos (hy.of_le h hfloor), hfloor]
    · rw [roundEven.eq_1 y, if_neg hy, ← hfloor]
      exact roundEven_le x
  · exact (roundEven_le x).trans (Int.add_one_le_of_lt hfloor |>.trans (floor_le_roundEven y))

/-- The remainders of a number and its negative add up to one, and one of the two integers
below them is even. -/
theorem roundsDown_neg (hx : (⌊x⌋ : ℚ) ≠ x) :
    ⌊-x⌋ = -⌊x⌋ - 1 ∧ (RoundsDown (-x) ↔ ¬ RoundsDown x) := by
  have hlt : (⌊x⌋ : ℚ) < x := lt_of_le_of_ne (Int.floor_le x) hx
  have hfloor : ⌊-x⌋ = -⌊x⌋ - 1 := by
    rw [Int.floor_eq_iff]
    push_cast
    exact ⟨by linarith [Int.lt_floor_add_one x], by linarith⟩
  refine ⟨hfloor, ?_⟩
  have hrest : -x - (⌊-x⌋ : ℚ) = 1 - (x - ⌊x⌋) := by
    rw [hfloor]
    push_cast
    ring
  have hparity : ⌊-x⌋ % 2 = 0 ↔ ¬ ⌊x⌋ % 2 = 0 := by omega
  rw [RoundsDown, RoundsDown, hrest, hparity]
  rcases lt_trichotomy (x - ⌊x⌋) (1 / 2) with hlow | htie | hhigh
  · refine iff_of_false ?_ (not_not.mpr (Or.inl hlow))
    rintro (h | ⟨h, _⟩) <;> linarith
  · rw [htie]
    norm_num
  · refine iff_of_true (Or.inl (by linarith)) ?_
    rintro (h | ⟨h, _⟩) <;> linarith

theorem roundEven_neg (x : ℚ) : roundEven (-x) = -roundEven x := by
  by_cases hx : (⌊x⌋ : ℚ) = x
  · rw [← hx, ← Int.cast_neg, roundEven_intCast, roundEven_intCast]
  · obtain ⟨hfloor, hdown⟩ := roundsDown_neg hx
    rw [roundEven, roundEven, hfloor]
    by_cases h : RoundsDown x
    · rw [if_pos h, if_neg (mt hdown.mp (not_not.mpr h))]
      ring
    · rw [if_neg h, if_pos (hdown.mpr h)]
      ring

end Integers

/-! ### Formats -/

/-- A format has so many bits behind the leading one, its numbers are multiples of two to the
power of `least`, and from two to the power of `bound` on they are infinite. -/
structure Format where
  fractionBits : ℕ
  least : ℤ
  bound : ℕ

def binary64 : Format where
  fractionBits := 52
  least := -1074
  bound := 1024

namespace Format

/-- The exponent of the unit at `x`. -/
def exponent (f : Format) (x : ℚ) : ℤ := max (Int.log 2 |x| - f.fractionBits) f.least

/-- A number rounded to a multiple of its unit. -/
def round (f : Format) (x : ℚ) : ℚ := roundEven (x / 2 ^ f.exponent x) * 2 ^ f.exponent x

/-- The nearest number of the format, where the two powers of the bound stand for the
infinities. -/
def nearest (f : Format) (x : ℚ) : ℚ := max (-2 ^ f.bound) (min (2 ^ f.bound) (f.round x))

/-- A number of the format. -/
def Fits (f : Format) (x : ℚ) : Prop :=
  ∃ m e : ℤ, x = m * 2 ^ e ∧ |m| < 2 ^ (f.fractionBits + 1) ∧ f.least ≤ e ∧ |x| ≤ 2 ^ f.bound

section Rounding

variable {f : Format} {x y : ℚ}

theorem exponent_neg (f : Format) (x : ℚ) : f.exponent (-x) = f.exponent x := by
  rw [exponent, exponent, abs_neg]

theorem round_neg (f : Format) (x : ℚ) : f.round (-x) = -f.round x := by
  rw [round, round, exponent_neg, neg_div, roundEven_neg, Int.cast_neg, neg_mul]

/-- A multiple of the unit bounds what is rounded as it bounds the number. -/
theorem le_round_of_multiple {n : ℤ} (h : n * 2 ^ f.exponent x ≤ x) :
    n * 2 ^ f.exponent x ≤ f.round x := by
  have hunit : (0 : ℚ) < 2 ^ f.exponent x := by positivity
  have hn : n ≤ roundEven (x / 2 ^ f.exponent x) := by
    rw [← roundEven_intCast n]
    exact roundEven_mono ((le_div_iff₀ hunit).mpr h)
  rw [round]
  gcongr

theorem round_le_of_multiple {n : ℤ} (h : x ≤ n * 2 ^ f.exponent x) :
    f.round x ≤ n * 2 ^ f.exponent x := by
  have hunit : (0 : ℚ) < 2 ^ f.exponent x := by positivity
  have hn : roundEven (x / 2 ^ f.exponent x) ≤ n := by
    rw [← roundEven_intCast n]
    exact roundEven_mono ((div_le_iff₀ hunit).mpr h)
  rw [round]
  gcongr

/-- A power of two is a multiple of every smaller one. -/
theorem exists_multiple {k e : ℤ} (h : e ≤ k) : ∃ n : ℤ, (2 : ℚ) ^ k = n * 2 ^ e := by
  refine ⟨2 ^ (k - e).toNat, ?_⟩
  push_cast
  rw [← zpow_natCast, ← zpow_add₀ two_ne_zero, Int.toNat_of_nonneg (by omega), sub_add_cancel]

theorem round_nonneg (h : 0 ≤ x) : 0 ≤ f.round x := by
  have hmultiple := le_round_of_multiple (f := f) (x := x) (n := 0) (by simpa using h)
  simpa using hmultiple

theorem round_mono_of_pos (hx : 0 < x) (h : x ≤ y) : f.round x ≤ f.round y := by
  have hlog : Int.log 2 |x| ≤ Int.log 2 |y| := by
    rw [abs_of_pos hx, abs_of_pos (hx.trans_le h)]
    exact Int.log_mono_right hx h
  rcases eq_or_lt_of_le (by rw [exponent, exponent]; omega : f.exponent x ≤ f.exponent y) with
    hexponent | hexponent
  · rw [round, round, hexponent]
    gcongr
    exact roundEven_mono (by gcongr)
  · -- the power of two at the larger number lies between them
    have hbetween : f.exponent y ≤ Int.log 2 |y| ∧ Int.log 2 |x| + 1 ≤ Int.log 2 |y| := by
      rw [exponent, exponent] at hexponent
      rw [exponent]
      omega
    have hlow : x ≤ 2 ^ Int.log 2 |y| := by
      calc x ≤ 2 ^ (Int.log 2 |x| + 1) := by
            rw [abs_of_pos hx]
            exact_mod_cast (Int.lt_zpow_succ_log_self (b := 2) (by norm_num) x).le
        _ ≤ 2 ^ Int.log 2 |y| := zpow_le_zpow_right₀ (by norm_num) hbetween.2
    have hhigh : (2 : ℚ) ^ Int.log 2 |y| ≤ y := by
      rw [abs_of_pos (hx.trans_le h)]
      exact_mod_cast Int.zpow_log_le_self (b := 2) (by norm_num) (hx.trans_le h)
    obtain ⟨n, hn⟩ := exists_multiple (hexponent.le.trans hbetween.1)
    obtain ⟨m, hm⟩ := exists_multiple hbetween.1
    calc f.round x ≤ n * 2 ^ f.exponent x := round_le_of_multiple (hn ▸ hlow)
      _ = m * 2 ^ f.exponent y := hn.symm.trans hm
      _ ≤ f.round y := le_round_of_multiple (hm ▸ hhigh)

@[simp] theorem round_zero (f : Format) : f.round 0 = 0 := by
  rw [round, zero_div, ← Int.cast_zero, roundEven_intCast, Int.cast_zero, zero_mul]

theorem round_mono (f : Format) : Monotone f.round := by
  intro x y h
  rcases lt_or_ge 0 x with hx | hx
  · exact round_mono_of_pos hx h
  · rcases lt_or_ge y 0 with hy | hy
    · have hneg := round_mono_of_pos (f := f) (neg_pos.mpr hy) (neg_le_neg h)
      rw [round_neg, round_neg] at hneg
      exact neg_le_neg_iff.mp hneg
    · have hx' := round_nonneg (f := f) (neg_nonneg.mpr hx)
      rw [round_neg] at hx'
      exact (neg_nonneg.mp hx').trans (round_nonneg hy)

theorem nearest_mono (f : Format) : Monotone f.nearest :=
  fun _ _ h => max_le_max le_rfl (min_le_min le_rfl (f.round_mono h))

/-- A number of the format is rounded to itself. -/
theorem Fits.nearest (h : f.Fits x) : f.nearest x = x := by
  obtain ⟨m, e, rfl, hm, he, hbound⟩ := h
  have hround : f.round (m * 2 ^ e) = m * 2 ^ e := by
    rcases eq_or_ne m 0 with rfl | hm0
    · simp
    · have hpos : 0 < |(m : ℚ) * 2 ^ e| := by positivity
      have hlt : |(m : ℚ) * 2 ^ e| < 2 ^ ((f.fractionBits : ℤ) + 1 + e) := by
        rw [abs_mul, abs_of_pos (by positivity : (0 : ℚ) < 2 ^ e),
          zpow_add₀ (by norm_num) _ e]
        gcongr
        exact_mod_cast hm
      have hlog := (Int.lt_zpow_iff_log_lt (b := 2) (by norm_num) hpos).mp (by exact_mod_cast hlt)
      have hexponent : f.exponent (m * 2 ^ e) ≤ e := by
        rw [exponent]
        omega
      obtain ⟨n, hn⟩ := exists_multiple hexponent
      have hmultiple : (m : ℚ) * 2 ^ e = ((m * n : ℤ) : ℚ) * 2 ^ f.exponent (m * 2 ^ e) := by
        push_cast
        rw [mul_assoc, ← hn]
      exact le_antisymm ((round_le_of_multiple hmultiple.le).trans hmultiple.ge)
        (hmultiple.le.trans (le_round_of_multiple hmultiple.ge))
  rw [Format.nearest, hround, min_eq_right (abs_le.mp hbound).2, max_eq_right (abs_le.mp hbound).1]

end Rounding

end Format

/-! ### Double precision -/

/-- The double nearest to a number. -/
def nearest : ℚ → ℚ := binary64.nearest

/-- The sum of the doubles that two numbers stand for. -/
def plus (x y : ℚ) : ℚ := nearest (nearest x + nearest y)

/-- The product of the doubles that two numbers stand for. -/
def times (x y : ℚ) : ℚ := nearest (nearest x * nearest y)

example : plus (19999999999999998 / 10 ^ 16) 1 = 3 := by decide +kernel

example : times (57 / 100) 100 = nearest (5699999999999999 / 10 ^ 14) := by decide +kernel

section Doubles

variable {x y : ℚ} {n : ℤ}

theorem nearest_mono : Monotone nearest := binary64.nearest_mono

theorem nearest_intCast (h : |n| < 2 ^ 53) : nearest n = n := by
  refine Format.Fits.nearest ⟨n, 0, by simp, h, by decide, ?_⟩
  calc |(n : ℚ)| ≤ 2 ^ 53 := by exact_mod_cast h.le
    _ ≤ 2 ^ binary64.bound := pow_le_pow_right₀ (by norm_num) (by decide)

@[simp] theorem nearest_zero : nearest 0 = 0 := by
  exact_mod_cast nearest_intCast (n := 0) (by norm_num)

theorem nearest_nonneg (h : 0 ≤ x) : 0 ≤ nearest x := nearest_zero ▸ nearest_mono h

/-- A number that is at least a small integer stays so. -/
theorem le_nearest (hn : |n| < 2 ^ 53) (h : (n : ℚ) ≤ x) : (n : ℚ) ≤ nearest x :=
  nearest_intCast hn ▸ nearest_mono h

theorem le_plus (hn : |n| < 2 ^ 53) (h : (n : ℚ) ≤ nearest x) (hy : 0 ≤ y) :
    (n : ℚ) ≤ plus x y :=
  le_nearest hn (h.trans (le_add_of_nonneg_right (nearest_nonneg hy)))

end Doubles

end FloatRounding
