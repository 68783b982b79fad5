import Interlock.PythonValues

/-!
# Canonical JSON text of a flat dictionary

`json.dumps(fields, sort_keys=True)` for a dictionary of scalars and lists of
integers. The text is a code that can be read from the left without lookahead
past a delimiter, so it determines the dictionary up to the order of its keys.
-/

namespace CanonicalJson

/-- A value of a flat dictionary. -/
inductive FieldValue where
  | none
  | int (n : Int)
  | float (x : ℚ)
  | str (s : String)
  | ints (ns : List Int)
  deriving DecidableEq, Repr

/-! ### Codes read from the left -/

section Codes

variable {α : Type}

/-- No text of the code is a proper beginning of another. -/
def PrefixFree (code : α → List Char) : Prop :=
  ∀ a b r s, code a ++ r = code b ++ s → a = b ∧ r = s

/-- What may follow a value inside a document. -/
def Stops (r : List Char) : Prop :=
  ∃ c rest, r = c :: rest ∧ (c = ',' ∨ c = ']' ∨ c = '}')

/-- Prefix-free as long as a delimiter follows. -/
def Delimited (code : α → List Char) : Prop :=
  ∀ a b r s, Stops r → Stops s → code a ++ r = code b ++ s → a = b ∧ r = s

/-- A code with a reader is prefix-free. -/
theorem prefixFree_of_reader {code : α → List Char} (reader : List Char → Option (α × List Char))
    (h : ∀ a r, reader (code a ++ r) = some (a, r)) : PrefixFree code := by
  intro a b r s heq
  have hread := h a r
  rw [heq, h b s] at hread
  cases hread
  exact ⟨rfl, rfl⟩

def Plain (cs : List Char) : Prop := ∀ c ∈ cs, c ≠ ',' ∧ c ≠ ']' ∧ c ≠ '}'

/-- Delimiters end a text that contains none. -/
theorem plain_split {u v r s : List Char} (hu : Plain u) (hv : Plain v) (hr : Stops r)
    (hs : Stops s) (h : u ++ r = v ++ s) : u = v ∧ r = s := by
  induction u generalizing v with
  | nil =>
    cases v with
    | nil => exact ⟨rfl, h⟩
    | cons c v =>
      obtain ⟨d, rest, rfl, hd⟩ := hr
      have hc := hv c List.mem_cons_self
      have heq : d = c := by
        rw [List.nil_append, List.cons_append] at h
        exact (List.cons.inj h).1
      subst d
      exact absurd hd (by simp [hc])
  | cons a u ih =>
    cases v with
    | nil =>
      obtain ⟨d, rest, rfl, hd⟩ := hs
      have ha := hu a List.mem_cons_self
      have heq : a = d := by
        rw [List.nil_append, List.cons_append] at h
        exact (List.cons.inj h).1
      subst d
      exact absurd hd (by simp [ha])
    | cons c v =>
      rw [List.cons_append, List.cons_append, List.cons.injEq] at h
      obtain ⟨rfl, hrest⟩ := h
      obtain ⟨rfl, hrs⟩ := ih (fun x hx => hu x (List.mem_cons_of_mem a hx))
        (fun x hx => hv x (List.mem_cons_of_mem a hx)) hrest
      exact ⟨rfl, hrs⟩

/-- The items after the first one, and the closing bracket. -/
def moreItems (close : Char) (code : α → List Char) : List α → List Char
  | [] => [close]
  | a :: rest => ',' :: ' ' :: code a ++ moreItems close code rest

def items (close : Char) (code : α → List Char) : List α → List Char
  | [] => [close]
  | a :: rest => code a ++ moreItems close code rest

variable {close : Char} {code : α → List Char}

theorem moreItems_stops (hclose : close = ']' ∨ close = '}') (l : List α) (r : List Char) :
    Stops (moreItems close code l ++ r) := by
  cases l with
  | nil => exact ⟨close, r, rfl, Or.inr hclose⟩
  | cons a rest => exact ⟨',', _, rfl, Or.inl rfl⟩

theorem moreItems_prefixFree (hclose : close = ']' ∨ close = '}') (hcode : Delimited code) :
    PrefixFree (moreItems close code) := by
  have hcomma : close ≠ ',' := by rcases hclose with rfl | rfl <;> decide
  intro l
  induction l with
  | nil =>
    intro m r s h
    cases m with
    | nil => exact ⟨rfl, (List.cons.inj h).2⟩
    | cons b m => exact absurd (List.cons.inj h).1 hcomma
  | cons a l ih =>
    intro m r s h
    cases m with
    | nil => exact absurd (List.cons.inj h).1.symm hcomma
    | cons b m =>
      simp only [moreItems, List.cons_append, List.append_assoc, List.cons.injEq, true_and] at h
      obtain ⟨rfl, hrest⟩ :=
        hcode a b _ _ (moreItems_stops hclose l r) (moreItems_stops hclose m s) h
      obtain ⟨rfl, hrs⟩ := ih m r s hrest
      exact ⟨rfl, hrs⟩

theorem items_prefixFree (hclose : close = ']' ∨ close = '}') (hcode : Delimited code)
    (hstart : ∀ a, ∃ c rest, code a = c :: rest ∧ c ≠ close) : PrefixFree (items close code) := by
  intro l m r s h
  cases l with
  | nil =>
    cases m with
    | nil => exact ⟨rfl, (List.cons.inj h).2⟩
    | cons b m =>
      obtain ⟨c, rest, hb, hne⟩ := hstart b
      simp only [items, hb, List.cons_append] at h
      exact absurd (List.cons.inj h).1.symm hne
  | cons a l =>
    cases m with
    | nil =>
      obtain ⟨c, rest, ha, hne⟩ := hstart a
      simp only [items, ha, List.cons_append] at h
      exact absurd (List.cons.inj h).1 hne
    | cons b m =>
      simp only [items, List.append_assoc] at h
      obtain ⟨rfl, hrest⟩ :=
        hcode a b _ _ (moreItems_stops hclose l r) (moreItems_stops hclose m s) h
      obtain ⟨rfl, hrs⟩ := moreItems_prefixFree hclose hcode l m r s hrest
      exact ⟨rfl, hrs⟩

end Codes

/-! ### Numbers -/

def digits (n : Nat) : List Char := Nat.toDigits 10 n

def signText (negative : Bool) : List Char := if negative then ['-'] else []

def intText (n : Int) : List Char := signText (decide (n < 0)) ++ digits n.natAbs

/-- The least number of decimals, at least one, that writes `x` exactly. -/
def decimals (x : ℚ) : Option Nat :=
  (List.range (x.den + 1)).find? (fun k => decide (1 ≤ k ∧ x.den ∣ 10 ^ k))

def padded (k : Nat) (cs : List Char) : List Char := List.replicate (k - cs.length) '0' ++ cs

/-- The magnitude as the shortest decimal, the way `repr` writes a float between
1e-4 and 1e16. Every float is a decimal; other rationals are written as fractions. -/
def magnitudeText (x : ℚ) : List Char :=
  match decimals x with
  | some k =>
    let scaled := x.num.natAbs * (10 ^ k / x.den)
    digits (scaled / 10 ^ k) ++ '.' :: padded k (digits (scaled % 10 ^ k))
  | none => digits x.num.natAbs ++ '/' :: digits x.den

def floatText (x : ℚ) : List Char := signText (decide (x < 0)) ++ magnitudeText x

theorem isDigit_of_mem_digits {n : Nat} {c : Char} (h : c ∈ digits n) : c.isDigit = true :=
  Nat.isDigit_of_mem_toDigits (by decide) (by decide) h

theorem ofDigits_digits (n : Nat) : Nat.ofDigitChars 10 (digits n) 0 = n :=
  Nat.ofDigitChars_ten_toDigits

theorem digits_injective {m n : Nat} (h : digits m = digits n) : m = n := by
  rw [← ofDigits_digits m, h, ofDigits_digits]

theorem digits_cons (n : Nat) : ∃ c rest, digits n = c :: rest ∧ c.isDigit = true := by
  cases h : digits n with
  | nil => exact absurd h Nat.toDigits_ne_nil
  | cons c rest =>
    exact ⟨c, rest, rfl, isDigit_of_mem_digits (h ▸ List.mem_cons_self)⟩

/-- A sign is recognised in front of a digit. -/
theorem sign_split {a b : Bool} {u v : List Char} (hu : ∃ c rest, u = c :: rest ∧ c.isDigit = true)
    (hv : ∃ c rest, v = c :: rest ∧ c.isDigit = true) (h : signText a ++ u = signText b ++ v) :
    a = b ∧ u = v := by
  obtain ⟨c, u, rfl, hc⟩ := hu
  obtain ⟨d, v, rfl, hd⟩ := hv
  have hdash : ∀ x : Char, x.isDigit = true → '-' ≠ x := by
    rintro x hx rfl
    revert hx
    decide
  cases a <;> cases b
  · exact ⟨rfl, h⟩
  · exact absurd (List.cons.inj h).1.symm (hdash c hc)
  · exact absurd (List.cons.inj h).1 (hdash d hd)
  · exact ⟨rfl, (List.cons.inj h).2⟩

theorem intText_injective {m n : Int} (h : intText m = intText n) : m = n := by
  obtain ⟨hsign, hdigits⟩ := sign_split (digits_cons _) (digits_cons _) h
  have habs := digits_injective hdigits
  have hsign' : m < 0 ↔ n < 0 := by simpa using hsign
  omega

theorem not_mem_digits {n : Nat} {c : Char} (h : c.isDigit = false) : c ∉ digits n := by
  intro hc
  rw [isDigit_of_mem_digits hc] at h
  cases h

theorem not_mem_padded {k n : Nat} {c : Char} (h : c.isDigit = false) :
    c ∉ padded k (digits n) := by
  intro hc
  rcases List.mem_append.mp hc with hc | hc
  · rw [(List.mem_replicate.mp hc).2] at h
    cases h
  · exact not_mem_digits h hc

theorem decimals_some {x : ℚ} {k : Nat} (h : decimals x = some k) : 0 < k ∧ x.den ∣ 10 ^ k := by
  have hk := List.find?_some h
  simpa [Nat.one_le_iff_ne_zero, Nat.pos_iff_ne_zero] using hk

/-- The figure that a whole part and a fraction stand for. -/
def readDecimal (whole fraction : List Char) : ℚ :=
  Nat.ofDigitChars 10 whole 0 + Nat.ofDigitChars 10 fraction 0 / 10 ^ fraction.length

theorem abs_eq_scaled {x : ℚ} {k : Nat} (hk : x.den ∣ 10 ^ k) :
    |x| = ((x.num.natAbs * (10 ^ k / x.den) : Nat) : ℚ) / 10 ^ k := by
  have hden : (x.den : ℚ) ≠ 0 := by exact_mod_cast x.den_nz
  have hpow : ((10 ^ k / x.den : Nat) : ℚ) = 10 ^ k / x.den := by
    rw [Nat.cast_div hk hden]
    push_cast
    rfl
  have hnum : ((x.num.natAbs : Nat) : ℚ) = |(x.num : ℚ)| :=
    (Nat.cast_natAbs x.num).trans Int.cast_abs
  rw [Nat.cast_mul, hpow, Rat.abs_def, Rat.divInt_eq_div, Int.cast_natCast, Int.cast_natCast,
    hnum]
  field_simp

theorem readDecimal_padded {k n : Nat} (hk : 0 < k) :
    readDecimal (digits (n / 10 ^ k)) (padded k (digits (n % 10 ^ k))) = (n : ℚ) / 10 ^ k := by
  have hlt : n % 10 ^ k < 10 ^ k := Nat.mod_lt _ (by positivity)
  have hlen : (digits (n % 10 ^ k)).length ≤ k :=
    (Nat.length_toDigits_le_iff (by decide) hk).mpr hlt
  have hlength : (padded k (digits (n % 10 ^ k))).length = k := by
    simp only [padded, List.length_append, List.length_replicate]
    omega
  have hvalue : Nat.ofDigitChars 10 (padded k (digits (n % 10 ^ k))) 0 = n % 10 ^ k := by
    rw [padded, Nat.ofDigitChars_append, Nat.ofDigitChars_replicate_zero, Nat.mul_zero,
      ofDigits_digits]
  have hsplit : ((10 ^ k * (n / 10 ^ k) + n % 10 ^ k : Nat) : ℚ) = n := by
    rw [Nat.div_add_mod]
  rw [readDecimal, hlength, hvalue, ofDigits_digits]
  rw [← hsplit]
  push_cast
  field_simp

theorem magnitudeText_cons (x : ℚ) :
    ∃ c rest, magnitudeText x = c :: rest ∧ c.isDigit = true := by
  unfold magnitudeText
  cases decimals x with
  | some k =>
    obtain ⟨c, rest, hdigits, hc⟩ := digits_cons (x.num.natAbs * (10 ^ k / x.den) / 10 ^ k)
    simp only [hdigits]
    exact ⟨c, _, rfl, hc⟩
  | none =>
    obtain ⟨c, rest, hdigits, hc⟩ := digits_cons x.num.natAbs
    simp only [hdigits]
    exact ⟨c, _, rfl, hc⟩

theorem abs_eq_of_magnitudeText {x y : ℚ} (h : magnitudeText x = magnitudeText y) :
    |x| = |y| := by
  unfold magnitudeText at h
  cases hx : decimals x with
  | some k =>
    cases hy : decimals y with
    | some l =>
      simp only [hx, hy] at h
      obtain ⟨hwhole, _, hfraction⟩ := (List.append_cons_inj_of_notMem
        (not_mem_digits (by decide)) (not_mem_padded (by decide))).mp h
      obtain ⟨hk, hdvd⟩ := decimals_some hx
      obtain ⟨hl, hdvd'⟩ := decimals_some hy
      rw [abs_eq_scaled hdvd, abs_eq_scaled hdvd', ← readDecimal_padded hk,
        ← readDecimal_padded hl, hwhole, hfraction]
    | none =>
      simp only [hx, hy] at h
      have hpoint := (List.append_cons_inj_of_notMem (not_mem_digits (by decide))
        (not_mem_padded (by decide))).mp h
      exact absurd hpoint.2.1 (by decide)
  | none =>
    cases hy : decimals y with
    | some l =>
      simp only [hx, hy] at h
      have hpoint := (List.append_cons_inj_of_notMem (not_mem_digits (by decide))
        (not_mem_digits (by decide))).mp h
      exact absurd hpoint.2.1 (by decide)
    | none =>
      simp only [hx, hy] at h
      obtain ⟨hnum, _, hden⟩ := (List.append_cons_inj_of_notMem
        (not_mem_digits (by decide)) (not_mem_digits (by decide))).mp h
      rw [Rat.abs_def, Rat.abs_def, digits_injective hnum, digits_injective hden]

theorem floatText_injective {x y : ℚ} (h : floatText x = floatText y) : x = y := by
  obtain ⟨hsign, hmagnitude⟩ := sign_split (magnitudeText_cons x) (magnitudeText_cons y) h
  have habs := abs_eq_of_magnitudeText hmagnitude
  have hsign' : x < 0 ↔ y < 0 := by simpa using hsign
  by_cases hx : x < 0
  · rw [abs_of_neg hx, abs_of_neg (hsign'.mp hx)] at habs
    exact neg_injective habs
  · have hy : ¬ y < 0 := fun hy => hx (hsign'.mpr hy)
    rwa [abs_of_nonneg (not_lt.mp hx), abs_of_nonneg (not_lt.mp hy)] at habs

example : String.ofList (floatText (3 / 20)) = "0.15" := by decide +kernel

/-! ### Strings -/

def shortEscape (c : Char) : Option Char :=
  if c = '"' then some '"'
  else if c = '\\' then some '\\'
  else if c = '\n' then some 'n'
  else if c = '\r' then some 'r'
  else if c = '\t' then some 't'
  else if c = Char.ofNat 8 then some 'b'
  else if c = Char.ofNat 12 then some 'f'
  else none

def hex4 (n : Nat) : List Char :=
  [Nat.digitChar (n / 4096 % 16), Nat.digitChar (n / 256 % 16), Nat.digitChar (n / 16 % 16),
    Nat.digitChar (n % 16)]

/-- A character outside printable ASCII is written as one code unit, or as a
surrogate pair. -/
def escapeChar (c : Char) : List Char :=
  match shortEscape c with
  | some e => ['\\', e]
  | none =>
    if 32 ≤ c.toNat ∧ c.toNat ≤ 126 then [c]
    else if c.toNat < 65536 then '\\' :: 'u' :: hex4 c.toNat
    else
      '\\' :: 'u' :: hex4 (55296 + (c.toNat - 65536) / 1024) ++
        '\\' :: 'u' :: hex4 (56320 + (c.toNat - 65536) % 1024)

def escaped (cs : List Char) : List Char := cs.flatMap escapeChar ++ ['"']

def strText (s : String) : List Char := '"' :: escaped s.toList

/-! The reader below inverts the escapes. -/

def hexValue (c : Char) : Nat := if c.isDigit then c.toNat - 48 else c.toNat - 87

def readHex4 : List Char → Option (Nat × List Char)
  | a :: b :: c :: d :: rest =>
    some (4096 * hexValue a + 256 * hexValue b + 16 * hexValue c + hexValue d, rest)
  | _ => none

def longEscape (e : Char) : Char :=
  if e = 'n' then '\n'
  else if e = 'r' then '\r'
  else if e = 't' then '\t'
  else if e = 'b' then Char.ofNat 8
  else if e = 'f' then Char.ofNat 12
  else e

def readUnit (n : Nat) (rest : List Char) : Option (Char × List Char) :=
  if n < 55296 ∨ 57344 ≤ n then some (Char.ofNat n, rest)
  else
    (readHex4 (rest.drop 2)).map fun p =>
      (Char.ofNat (65536 + (n - 55296) * 1024 + (p.1 - 56320)), p.2)

def unescapeChar : List Char → Option (Char × List Char)
  | [] => none
  | c :: rest =>
    if c = '\\' then
      match rest with
      | [] => none
      | e :: rest =>
        if e = 'u' then (readHex4 rest).bind fun p => readUnit p.1 p.2
        else some (longEscape e, rest)
    else some (c, rest)

theorem hexValue_digitChar : ∀ d < 16, hexValue (Nat.digitChar d) = d := by decide

theorem readHex4_hex4 {n : Nat} (h : n < 65536) (r : List Char) :
    readHex4 (hex4 n ++ r) = some (n, r) := by
  have ha := hexValue_digitChar (n / 4096 % 16) (Nat.mod_lt _ (by decide))
  have hb := hexValue_digitChar (n / 256 % 16) (Nat.mod_lt _ (by decide))
  have hc := hexValue_digitChar (n / 16 % 16) (Nat.mod_lt _ (by decide))
  have hd := hexValue_digitChar (n % 16) (Nat.mod_lt _ (by decide))
  simp only [hex4, List.cons_append, List.nil_append, readHex4, ha, hb, hc, hd]
  congr 2
  omega

theorem shortEscape_some {c e : Char} (h : shortEscape c = some e) :
    e ≠ 'u' ∧ longEscape e = c := by
  unfold shortEscape at h
  repeat' split at h
  all_goals first | contradiction | (cases h; subst c; decide)

theorem plain_of_shortEscape_none {c : Char} (h : shortEscape c = none) :
    c ≠ '"' ∧ c ≠ '\\' := by
  constructor
  · rintro rfl
    revert h
    decide
  · rintro rfl
    revert h
    decide

theorem readUnit_single {n : Nat} (h : n < 55296 ∨ 57344 ≤ n) (r : List Char) :
    readUnit n r = some (Char.ofNat n, r) :=
  if_pos h

/-- The high and the low surrogate carry the two halves of the offset. -/
theorem readUnit_pair {high low n : Nat} (h : 55296 ≤ high ∧ high < 57344)
    (hl : 56320 ≤ low ∧ low < 65536) (r : List Char)
    (hn : n = 65536 + (high - 55296) * 1024 + (low - 56320)) :
    readUnit high ('\\' :: 'u' :: (hex4 low ++ r)) = some (Char.ofNat n, r) := by
  have hnot : ¬ (high < 55296 ∨ 57344 ≤ high) := by omega
  rw [readUnit, if_neg hnot, List.drop_succ_cons, List.drop_succ_cons, List.drop_zero,
    readHex4_hex4 hl.2, Option.map_some, hn]

theorem unescapeChar_unit {n : Nat} (h : n < 65536) (r : List Char) :
    unescapeChar ('\\' :: 'u' :: (hex4 n ++ r)) = readUnit n r := by
  rw [unescapeChar, if_pos rfl]
  simp only [if_true]
  rw [readHex4_hex4 h, Option.bind_some]

theorem unescapeChar_escapeChar (c : Char) (r : List Char) :
    unescapeChar (escapeChar c ++ r) = some (c, r) := by
  unfold escapeChar
  cases hshort : shortEscape c with
  | some e =>
    obtain ⟨hu, hlong⟩ := shortEscape_some hshort
    simp [unescapeChar, hu, hlong]
  | none =>
    have hslash := (plain_of_shortEscape_none hshort).2
    have hvalid : c.toNat < 55296 ∨ 57343 < c.toNat ∧ c.toNat < 1114112 := c.valid
    by_cases hprint : 32 ≤ c.toNat ∧ c.toNat ≤ 126
    · simp [hprint, unescapeChar, hslash]
    · rw [if_neg hprint]
      by_cases hbmp : c.toNat < 65536
      · rw [if_pos hbmp, List.cons_append, List.cons_append, unescapeChar_unit hbmp,
          readUnit_single (by omega), Char.ofNat_toNat]
      · rw [if_neg hbmp, List.append_assoc, List.cons_append, List.cons_append, List.cons_append,
          List.cons_append, unescapeChar_unit (by omega), readUnit_pair (n := c.toNat) (by omega)
            (by omega) r (by omega), Char.ofNat_toNat]

theorem escapeChar_prefixFree : PrefixFree escapeChar :=
  prefixFree_of_reader unescapeChar unescapeChar_escapeChar

theorem escapeChar_cons (c : Char) : ∃ d rest, escapeChar c = d :: rest ∧ d ≠ '"' := by
  unfold escapeChar
  cases hshort : shortEscape c with
  | some e => exact ⟨'\\', [e], rfl, by decide⟩
  | none =>
    simp only
    split
    · exact ⟨c, [], rfl, (plain_of_shortEscape_none hshort).1⟩
    · split
      · exact ⟨'\\', _, rfl, by decide⟩
      · exact ⟨'\\', _, rfl, by decide⟩

/-- The closing quote ends a string, since no escape begins with one. -/
theorem escaped_prefixFree : PrefixFree escaped := by
  intro cs
  induction cs with
  | nil =>
    intro ds r s h
    cases ds with
    | nil => exact ⟨rfl, (List.cons.inj h).2⟩
    | cons d ds =>
      obtain ⟨e, rest, he, hne⟩ := escapeChar_cons d
      simp only [escaped, List.flatMap_cons, he, List.cons_append, List.flatMap_nil,
        List.nil_append] at h
      exact absurd (List.cons.inj h).1.symm hne
  | cons c cs ih =>
    intro ds r s h
    cases ds with
    | nil =>
      obtain ⟨e, rest, he, hne⟩ := escapeChar_cons c
      simp only [escaped, List.flatMap_cons, he, List.cons_append, List.flatMap_nil,
        List.nil_append] at h
      exact absurd (List.cons.inj h).1 hne
    | cons d ds =>
      simp only [escaped, List.flatMap_cons, List.append_assoc] at h
      obtain ⟨rfl, hrest⟩ := escapeChar_prefixFree c d _ _ h
      obtain ⟨rfl, hrs⟩ := ih ds r s (by simpa only [escaped, List.append_assoc] using hrest)
      exact ⟨rfl, hrs⟩

theorem strText_prefixFree : PrefixFree strText := by
  intro a b r s h
  obtain ⟨hab, hrs⟩ := escaped_prefixFree a.toList b.toList r s (List.cons.inj h).2
  exact ⟨String.toList_inj.mp hab, hrs⟩

/-! ### Values and documents -/

def valueText : FieldValue → List Char
  | .none => ['n', 'u', 'l', 'l']
  | .int n => intText n
  | .float x => floatText x
  | .str s => strText s
  | .ints ns => '[' :: items ']' intText ns

def entryText (e : String × FieldValue) : List Char := strText e.1 ++ ':' :: ' ' :: valueText e.2

def sortKeys (fields : List (String × FieldValue)) : List (String × FieldValue) :=
  fields.insertionSort (fun a b => a.1 ≤ b.1)

/-- `json.dumps(fields, sort_keys=True)`. -/
def dumps (fields : List (String × FieldValue)) : String :=
  String.ofList ('{' :: items '}' entryText (sortKeys fields))

theorem plain_signText (b : Bool) : Plain (signText b) := by
  cases b
  · intro c hc
    cases hc
  · intro c hc
    rw [List.mem_singleton.mp hc]
    decide

theorem plain_digits (n : Nat) : Plain (digits n) := by
  intro c hc
  have hd := isDigit_of_mem_digits hc
  refine ⟨?_, ?_, ?_⟩ <;> (rintro rfl; revert hd; decide)

theorem Plain.append {u v : List Char} (hu : Plain u) (hv : Plain v) : Plain (u ++ v) := by
  intro c hc
  rcases List.mem_append.mp hc with hc | hc
  · exact hu c hc
  · exact hv c hc

theorem Plain.cons {c : Char} {v : List Char} (hc : c ≠ ',' ∧ c ≠ ']' ∧ c ≠ '}')
    (hv : Plain v) : Plain (c :: v) := by
  intro d hd
  rcases List.mem_cons.mp hd with rfl | hd
  · exact hc
  · exact hv d hd

theorem plain_padded (k n : Nat) : Plain (padded k (digits n)) := by
  refine Plain.append ?_ (plain_digits n)
  intro c hc
  rw [(List.mem_replicate.mp hc).2]
  decide

theorem plain_intText (n : Int) : Plain (intText n) :=
  (plain_signText _).append (plain_digits _)

theorem plain_floatText (x : ℚ) : Plain (floatText x) := by
  refine (plain_signText _).append ?_
  unfold magnitudeText
  cases decimals x with
  | some k => exact (plain_digits _).append (.cons (by decide) (plain_padded _ _))
  | none => exact (plain_digits _).append (.cons (by decide) (plain_digits _))

theorem intText_delimited : Delimited intText := by
  intro m n r s hr hs h
  obtain ⟨htext, hrs⟩ := plain_split (plain_intText m) (plain_intText n) hr hs h
  exact ⟨intText_injective htext, hrs⟩

theorem intText_cons (n : Int) :
    ∃ c rest, intText n = c :: rest ∧ (c = '-' ∨ c.isDigit = true) := by
  unfold intText
  cases decide (n < 0) with
  | true => exact ⟨'-', _, rfl, Or.inl rfl⟩
  | false =>
    obtain ⟨c, rest, hdigits, hc⟩ := digits_cons n.natAbs
    exact ⟨c, rest, hdigits, Or.inr hc⟩

theorem floatText_cons (x : ℚ) :
    ∃ c rest, floatText x = c :: rest ∧ (c = '-' ∨ c.isDigit = true) := by
  unfold floatText
  cases decide (x < 0) with
  | true => exact ⟨'-', _, rfl, Or.inl rfl⟩
  | false =>
    obtain ⟨c, rest, htext, hc⟩ := magnitudeText_cons x
    exact ⟨c, rest, htext, Or.inr hc⟩

/-- A figure with a point or a bar in it is no integer. -/
theorem intText_ne_floatText (n : Int) (x : ℚ) : intText n ≠ floatText x := by
  intro h
  have hnot : ∀ c : Char, c.isDigit = false → c ≠ '-' → c ∉ intText n := by
    intro c hc hdash hmem
    rcases List.mem_append.mp hmem with hmem | hmem
    · cases hneg : decide (n < 0) with
      | true => simp [hneg, signText, hdash] at hmem
      | false => simp [hneg, signText] at hmem
    · exact not_mem_digits hc hmem
  have hmark : '.' ∈ floatText x ∨ '/' ∈ floatText x := by
    unfold floatText magnitudeText
    cases decimals x with
    | some k => simp
    | none => simp
  rw [← h] at hmark
  rcases hmark with hmark | hmark
  · exact hnot '.' (by decide) (by decide) hmark
  · exact hnot '/' (by decide) (by decide) hmark

/-- The kind of a value shows in the first character of its text; the two
kinds of numbers share theirs. -/
def kindOf (c : Char) : Nat :=
  if c = 'n' then 0 else if c = '"' then 2 else if c = '[' then 3 else 1

def kind : FieldValue → Nat
  | .none => 0
  | .int _ => 1
  | .float _ => 1
  | .str _ => 2
  | .ints _ => 3

theorem kindOf_number {c : Char} (h : c = '-' ∨ c.isDigit = true) : kindOf c = 1 := by
  rcases h with rfl | h
  · decide
  · have hn : c ≠ 'n' := by rintro rfl; revert h; decide
    have hquote : c ≠ '"' := by rintro rfl; revert h; decide
    have hbracket : c ≠ '[' := by rintro rfl; revert h; decide
    simp [kindOf, hn, hquote, hbracket]

theorem valueText_cons (v : FieldValue) :
    ∃ c rest, valueText v = c :: rest ∧ kindOf c = kind v := by
  cases v with
  | none => exact ⟨'n', _, rfl, rfl⟩
  | int n =>
    obtain ⟨c, rest, htext, hc⟩ := intText_cons n
    exact ⟨c, rest, htext, kindOf_number hc⟩
  | float x =>
    obtain ⟨c, rest, htext, hc⟩ := floatText_cons x
    exact ⟨c, rest, htext, kindOf_number hc⟩
  | str s => exact ⟨'"', _, rfl, rfl⟩
  | ints ns => exact ⟨'[', _, rfl, rfl⟩

theorem kind_eq {v w : FieldValue} {r s : List Char} (h : valueText v ++ r = valueText w ++ s) :
    kind v = kind w := by
  obtain ⟨c, rest, hv, hc⟩ := valueText_cons v
  obtain ⟨d, rest', hw, hd⟩ := valueText_cons w
  rw [hv, hw, List.cons_append, List.cons_append] at h
  rw [← hc, ← hd, (List.cons.inj h).1]

theorem intsText_prefixFree : PrefixFree (items ']' intText) := by
  refine items_prefixFree (Or.inl rfl) intText_delimited ?_
  intro n
  obtain ⟨c, rest, htext, hc⟩ := intText_cons n
  refine ⟨c, rest, htext, ?_⟩
  rintro rfl
  revert hc
  decide

theorem valueText_delimited : Delimited valueText := by
  intro v w r s hr hs h
  have hkind := kind_eq h
  cases v with
  | none =>
    cases w with
    | none => exact ⟨rfl, List.append_cancel_left h⟩
    | _ => simp [kind] at hkind
  | int n =>
    cases w with
    | int m =>
      obtain ⟨rfl, hrs⟩ := intText_delimited n m r s hr hs h
      exact ⟨rfl, hrs⟩
    | float x =>
      have htext := plain_split (plain_intText n) (plain_floatText x) hr hs h
      exact absurd htext.1 (intText_ne_floatText n x)
    | _ => simp [kind] at hkind
  | float x =>
    cases w with
    | int m =>
      have htext := plain_split (plain_floatText x) (plain_intText m) hr hs h
      exact absurd htext.1.symm (intText_ne_floatText m x)
    | float y =>
      obtain ⟨htext, hrs⟩ := plain_split (plain_floatText x) (plain_floatText y) hr hs h
      exact ⟨by rw [floatText_injective htext], hrs⟩
    | _ => simp [kind] at hkind
  | str a =>
    cases w with
    | str b =>
      obtain ⟨rfl, hrs⟩ := strText_prefixFree a b r s h
      exact ⟨rfl, hrs⟩
    | _ => simp [kind] at hkind
  | ints ns =>
    cases w with
    | ints ms =>
      obtain ⟨rfl, hrs⟩ := intsText_prefixFree ns ms r s (List.cons.inj h).2
      exact ⟨rfl, hrs⟩
    | _ => simp [kind] at hkind

theorem entryText_delimited : Delimited entryText := by
  rintro ⟨k, v⟩ ⟨l, w⟩ r s hr hs h
  simp only [entryText, List.append_assoc, List.cons_append] at h
  obtain ⟨rfl, hrest⟩ := strText_prefixFree k l _ _ h
  simp only [List.cons.injEq, true_and] at hrest
  obtain ⟨rfl, hrs⟩ := valueText_delimited v w r s hr hs hrest
  exact ⟨rfl, hrs⟩

/-- The canonical text determines the entries up to their order. -/
theorem perm_of_dumps {fields others : List (String × FieldValue)}
    (h : dumps fields = dumps others) : fields.Perm others := by
  have hcode : PrefixFree (items '}' entryText) :=
    items_prefixFree (Or.inr rfl) entryText_delimited (fun e => ⟨'"', _, rfl, by decide⟩)
  have htext := (List.cons.inj (String.ofList_injective h)).2
  have hsorted : sortKeys fields = sortKeys others :=
    (hcode (sortKeys fields) (sortKeys others) [] [] (by rw [htext])).1
  have hback : (sortKeys fields).Perm others := hsorted ▸ List.perm_insertionSort _ others
  exact (List.perm_insertionSort _ fields).symm.trans hback

/-- Two dictionaries with the same keys in the same order and the same text are equal. -/
theorem dumps_injective {fields others : List (String × FieldValue)}
    (keys : fields.map Prod.fst = others.map Prod.fst) (distinct : (others.map Prod.fst).Nodup)
    (h : dumps fields = dumps others) : fields = others := by
  have hperm := perm_of_dumps h
  refine List.ext_getElem hperm.length_eq ?_
  intro i hi hj
  have hmem : fields[i] ∈ others := hperm.subset (List.getElem_mem hi)
  have hkey : fields[i].1 = others[i].1 := by
    have hat := congrArg (fun l => l[i]?) keys
    simpa [hi, hj] using hat
  exact List.inj_on_of_nodup_map distinct hmem (List.getElem_mem hj) hkey

example : dumps [("kind", .str "order"), ("ids", .ints [2, 30])] =
    "\x7b\"ids\": [2, 30], \"kind\": \"order\"\x7d" := by decide +kernel

end CanonicalJson
