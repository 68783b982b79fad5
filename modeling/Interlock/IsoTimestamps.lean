import Mathlib

/-!
# ISO timestamps

`datetime.now(timezone.utc).isoformat()` writes fields of fixed width, and drops the
fraction of a second when it is zero. The texts are ordered as the readings of the clock
are, since the offset's `+` stands before the `.` of a fraction.
-/

namespace IsoTimestamps

/-- `n` in `w` decimal digits. -/
def pad : ℕ → ℕ → List Char
  | 0, _ => []
  | w + 1, n => Nat.digitChar (n / 10 ^ w) :: pad w (n % 10 ^ w)

theorem cons_le_iff {α : Type} [LinearOrder α] {a b : α} {l l' : List α} :
    a :: l ≤ b :: l' ↔ a < b ∨ a = b ∧ l ≤ l' := by
  rw [← not_lt, List.cons_lt_cons_iff, ← not_lt]
  rcases lt_trichotomy a b with hlt | rfl | hgt
  · simp [hlt, hlt.not_gt, hlt.ne']
  · simp
  · simp [hgt, hgt.not_gt, hgt.ne']

theorem digitChar_lt : ∀ d' < 10, ∀ d < d', Nat.digitChar d < Nat.digitChar d' := by decide

/-- Padded numbers are compared first, what follows them next. -/
theorem pad_append_le {w n n' : ℕ} {rest rest' : List Char} (hn : n' < 10 ^ w)
    (h : n < n' ∨ n = n' ∧ rest ≤ rest') : pad w n ++ rest ≤ pad w n' ++ rest' := by
  induction w generalizing n n' with
  | zero =>
    rcases h with hlt | ⟨_, hrest⟩
    · omega
    · exact hrest
  | succ w ih =>
    have hpos : 0 < 10 ^ w := Nat.pow_pos (by omega)
    have hdigit : n' / 10 ^ w < 10 := by
      rw [Nat.div_lt_iff_lt_mul hpos]
      rwa [pow_succ, Nat.mul_comm] at hn
    rw [pad, pad, List.cons_append, List.cons_append, cons_le_iff]
    rcases h with hlt | ⟨rfl, hrest⟩
    · rcases Nat.lt_or_ge (n / 10 ^ w) (n' / 10 ^ w) with hd | hd
      · exact Or.inl (digitChar_lt _ hdigit _ hd)
      · have hsame : n / 10 ^ w = n' / 10 ^ w :=
          le_antisymm (Nat.div_le_div_right hlt.le) hd
        have hmod : n % 10 ^ w < n' % 10 ^ w := by
          have hsplit := Nat.div_add_mod n (10 ^ w)
          have hsplit' := Nat.div_add_mod n' (10 ^ w)
          rw [hsame] at hsplit
          omega
        exact Or.inr ⟨by rw [hsame], ih (Nat.mod_lt _ hpos) (Or.inl hmod)⟩
    · exact Or.inr ⟨rfl, ih (Nat.mod_lt _ hpos) (Or.inr ⟨rfl, hrest⟩)⟩

theorem pad_sep_le {w n n' : ℕ} {sep : Char} {rest rest' : List Char} (hn : n' < 10 ^ w)
    (h : n < n' ∨ n = n' ∧ rest ≤ rest') : pad w n ++ sep :: rest ≤ pad w n' ++ sep :: rest' := by
  apply pad_append_le hn
  apply h.imp_right
  rintro ⟨hsame, hrest⟩
  exact ⟨hsame, cons_le_iff.mpr (Or.inr ⟨rfl, hrest⟩)⟩

/-- A reading of the clock, in UTC. -/
structure Moment where
  year : ℕ
  month : ℕ
  day : ℕ
  hour : ℕ
  minute : ℕ
  second : ℕ
  microsecond : ℕ
  year_lt : year < 10000
  month_le : month ≤ 12
  day_le : day ≤ 31
  hour_lt : hour < 24
  minute_lt : minute < 60
  second_lt : second < 60
  microsecond_lt : microsecond < 1000000

namespace Moment

variable (m : Moment)

def fields : List ℕ := [m.year, m.month, m.day, m.hour, m.minute, m.second, m.microsecond]

/-- Readings are earlier or later by their first different field. -/
instance : LE Moment := ⟨fun m m' => m.fields ≤ m'.fields⟩

instance (m m' : Moment) : Decidable (m ≤ m') := inferInstanceAs (Decidable (m.fields ≤ m'.fields))

def fraction : List Char :=
  if m.microsecond = 0 then [] else '.' :: pad 6 m.microsecond

def chars : List Char :=
  pad 4 m.year ++ '-' :: (pad 2 m.month ++ '-' :: (pad 2 m.day ++ 'T' :: (pad 2 m.hour ++
    ':' :: (pad 2 m.minute ++ ':' :: (pad 2 m.second ++ (m.fraction ++ "+00:00".toList))))))

/-- `isoformat()`. -/
def isoformat : String := String.ofList m.chars

end Moment

section Order

variable {m m' : Moment}

theorem fraction_le (h : m.microsecond ≤ m'.microsecond) :
    m.fraction ++ "+00:00".toList ≤ m'.fraction ++ "+00:00".toList := by
  have hoffset : "+00:00".toList = '+' :: "00:00".toList := by decide
  rw [Moment.fraction, Moment.fraction]
  split
  · split
    · exact le_refl _
    · rw [hoffset, List.nil_append, List.cons_append, cons_le_iff]
      exact Or.inl (by decide)
  · split
    · omega
    · rw [List.cons_append, List.cons_append, cons_le_iff]
      refine Or.inr ⟨rfl, pad_append_le m'.microsecond_lt ?_⟩
      rcases h.lt_or_eq with hless | hsame
      · exact Or.inl hless
      · exact Or.inr ⟨hsame, le_refl _⟩

/-- The texts of readings are ordered as the readings are. -/
theorem isoformat_le (h : m ≤ m') : m.isoformat ≤ m'.isoformat := by
  have hfields : m.fields ≤ m'.fields := h
  simp only [Moment.fields, cons_le_iff] at hfields
  have hyear : m'.year < 10 ^ 4 := m'.year_lt
  have hmonth : m'.month < 10 ^ 2 := lt_of_le_of_lt m'.month_le (by omega)
  have hday : m'.day < 10 ^ 2 := lt_of_le_of_lt m'.day_le (by omega)
  have hhour : m'.hour < 10 ^ 2 := m'.hour_lt.trans (by omega)
  have hminute : m'.minute < 10 ^ 2 := m'.minute_lt.trans (by omega)
  have hsecond : m'.second < 10 ^ 2 := m'.second_lt.trans (by omega)
  have htext : ∀ m : Moment, m.isoformat.toList = m.chars := fun m => String.toList_ofList
  rw [String.le_iff_toList_le, htext, htext, Moment.chars, Moment.chars]
  refine pad_sep_le hyear (hfields.imp_right (And.imp_right fun hfields => ?_))
  refine pad_sep_le hmonth (hfields.imp_right (And.imp_right fun hfields => ?_))
  refine pad_sep_le hday (hfields.imp_right (And.imp_right fun hfields => ?_))
  refine pad_sep_le hhour (hfields.imp_right (And.imp_right fun hfields => ?_))
  refine pad_sep_le hminute (hfields.imp_right (And.imp_right fun hfields => ?_))
  refine pad_append_le hsecond (hfields.imp_right (And.imp_right fun hfields => ?_))
  apply fraction_le
  rcases hfields with hless | ⟨hsame, _⟩
  · exact hless.le
  · exact hsame.le

end Order

/-- The first microsecond of a second follows its start. -/
example : (Moment.mk 2026 1 5 9 30 7 0 (by decide) (by decide) (by decide) (by decide) (by decide)
    (by decide) (by decide)).isoformat = "2026-01-05T09:30:07+00:00" := by decide +kernel

end IsoTimestamps
