import Interlock.CanonicalJson
import Interlock.LineFiles

/-!
# JSON documents

`json.dumps` of a decoded document with its default separators, and `json.loads` of a
text that is one document. An object shows where it ends, so no beginning of its text and
no longer text is a document.
-/

namespace JsonDocuments

open PythonValues CanonicalJson LineFiles

/-! ### Writing -/

mutual

def valueText : Json → List Char
  | .null => ['n', 'u', 'l', 'l']
  | .bool true => ['t', 'r', 'u', 'e']
  | .bool false => ['f', 'a', 'l', 's', 'e']
  | .int n => intText n
  | .float x => floatText x
  | .nan => ['N', 'a', 'N']
  | .infinity false => ['I', 'n', 'f', 'i', 'n', 'i', 't', 'y']
  | .infinity true => ['-', 'I', 'n', 'f', 'i', 'n', 'i', 't', 'y']
  | .str s => strText s
  | .arr [] => ['[', ']']
  | .arr (v :: rest) => '[' :: (valueText v ++ moreElements rest)
  | .obj [] => ['{', '}']
  | .obj (m :: rest) => '{' :: (memberText m ++ moreMembers rest)

def moreElements : List Json → List Char
  | [] => [']']
  | v :: rest => ',' :: ' ' :: (valueText v ++ moreElements rest)

def memberText : String × Json → List Char
  | (k, v) => strText k ++ ':' :: ' ' :: valueText v

def moreMembers : List (String × Json) → List Char
  | [] => ['}']
  | m :: rest => ',' :: ' ' :: (memberText m ++ moreMembers rest)

end

/-- `json.dumps` of a dictionary. -/
def dumps (entries : List (String × Json)) : List Char := valueText (.obj entries)

/-! ### Reading -/

def jsonBlank (c : Char) : Bool := c = ' ' || c = '\t' || c = '\n' || c = '\r'

def skip (cs : List Char) : List Char := cs.dropWhile jsonBlank

def hexDigit (c : Char) : Option Nat :=
  if c.isDigit then some (c.toNat - 48)
  else if 'a' ≤ c ∧ c ≤ 'f' then some (c.toNat - 87)
  else if 'A' ≤ c ∧ c ≤ 'F' then some (c.toNat - 55)
  else none

def readUnit : List Char → Option (Nat × List Char)
  | a :: b :: c :: d :: rest => do
    let a ← hexDigit a
    let b ← hexDigit b
    let c ← hexDigit c
    let d ← hexDigit d
    some (4096 * a + 256 * b + 16 * c + d, rest)
  | _ => none

/-- The character of two halves of a surrogate pair. -/
def pairChar (high low : Nat) : Option Char :=
  if high < 56320 ∧ 56320 ≤ low ∧ low < 57344 then
    some (Char.ofNat (65536 + (high - 55296) * 1024 + (low - 56320)))
  else none

def isHalf (unit : Nat) : Bool := decide (55296 ≤ unit ∧ unit < 57344)

/-- The character after `\u`: a code unit, or two halves. A lone half is no character. -/
def readEscapedUnit (cs : List Char) : Option (Char × List Char) := do
  let (unit, rest) ← readUnit cs
  if isHalf unit then
    if rest.take 2 = ['\\', 'u'] then do
      let (low, rest) ← readUnit (rest.drop 2)
      let c ← pairChar unit low
      some (c, rest)
    else none
  else some (Char.ofNat unit, rest)

/-- One character of a string, written as it is or escaped. -/
def readChar : List Char → Option (Char × List Char)
  | [] => none
  | c :: rest =>
    if c = '\\' then
      match rest with
      | [] => none
      | e :: rest =>
        if e = 'u' then readEscapedUnit rest
        else if e ∈ ['"', '\\', '/', 'b', 'f', 'n', 'r', 't'] then some (longEscape e, rest)
        else none
    else if c.toNat < 32 then none
    else some (c, rest)

/-- The characters of a string up to its closing quote. -/
def readText : Nat → List Char → Option (List Char × List Char)
  | 0, _ => none
  | fuel + 1, cs =>
    match cs with
    | '"' :: rest => some ([], rest)
    | cs => do
      let (c, rest) ← readChar cs
      let (text, rest) ← readText fuel rest
      some (c :: text, rest)

def numberChar (c : Char) : Bool :=
  c.isDigit || c = '-' || c = '+' || c = '.' || c = 'e' || c = 'E' || c = '/'

def signed {α : Type} [Neg α] (negative : Bool) (x : α) : α := if negative then -x else x

def splitSign : List Char → Bool × List Char
  | [] => (false, [])
  | c :: rest => if c = '-' then (true, rest) else (false, c :: rest)

/-- `e12`, `E-5` or nothing. -/
def exponentOf : List Char → Option Int
  | [] => some 0
  | c :: rest =>
    if c = 'e' ∨ c = 'E' then
      let (negative, ds) := splitSign (if rest.head? = some '+' then rest.drop 1 else rest)
      if ds ≠ [] ∧ ds.all Char.isDigit then some (signed negative (Nat.ofDigitChars 10 ds 0 : Int))
      else none
    else none

/-- What follows the whole part of a number; a figure that is no decimal is a fraction. -/
def figureOf (negative : Bool) (whole : List Char) : List Char → Option Json
  | [] => some (.int (signed negative (Nat.ofDigitChars 10 whole 0 : Int)))
  | c :: rest =>
    if c = '/' then
      if rest ≠ [] ∧ rest.all Char.isDigit then
        some (.float (signed negative ((Nat.ofDigitChars 10 whole 0 : ℚ) /
          (Nat.ofDigitChars 10 rest 0 : ℚ))))
      else none
    else if c = '.' then
      let fraction := rest.takeWhile Char.isDigit
      if fraction = [] then none
      else (exponentOf (rest.dropWhile Char.isDigit)).map fun e =>
        .float (signed negative (readDecimal whole fraction * (10 : ℚ) ^ e))
    else (exponentOf (c :: rest)).map fun e =>
      .float (signed negative ((Nat.ofDigitChars 10 whole 0 : ℚ) * (10 : ℚ) ^ e))

/-- The number that a text is; a whole part has no zero in front. -/
def numberOf (token : List Char) : Option Json :=
  let (negative, cs) := splitSign token
  let whole := cs.takeWhile Char.isDigit
  if whole = [] ∨ (whole.head? = some '0' ∧ whole ≠ ['0']) then none
  else figureOf negative whole (cs.dropWhile Char.isDigit)

def readNumber (cs : List Char) : Option (Json × List Char) :=
  (numberOf (cs.takeWhile numberChar)).map fun v => (v, cs.dropWhile numberChar)

def expect (text : List Char) (v : Json) (cs : List Char) : Option (Json × List Char) :=
  if text.isPrefixOf cs then some (v, cs.drop text.length) else none

/-- The literal that begins with a character: the rest of its text and its value. -/
def literal (c : Char) : Option (List Char × Json) :=
  if c = 'n' then some (['u', 'l', 'l'], .null)
  else if c = 't' then some (['r', 'u', 'e'], .bool true)
  else if c = 'f' then some (['a', 'l', 's', 'e'], .bool false)
  else if c = 'N' then some (['a', 'N'], .nan)
  else if c = 'I' then some (['n', 'f', 'i', 'n', 'i', 't', 'y'], .infinity false)
  else none

def readAtom (c : Char) (rest : List Char) : Option (Json × List Char) :=
  match literal c with
  | some (text, v) => expect text v rest
  | none =>
    if c = '-' ∧ rest.head? = some 'I' then
      expect ['I', 'n', 'f', 'i', 'n', 'i', 't', 'y'] (.infinity true) rest
    else readNumber (c :: rest)

def endsWith (close : Char) (cs : List Char) : Bool := cs.head? = some close

mutual

def readValue : Nat → List Char → Option (Json × List Char)
  | 0, _ => none
  | _ + 1, [] => none
  | fuel + 1, c :: rest =>
    if c = '"' then (readText fuel rest).map fun p => (.str (String.ofList p.1), p.2)
    else if c = '[' then
      if endsWith ']' (skip rest) then some (.arr [], (skip rest).drop 1)
      else do
        let (v, rest) ← readValue fuel (skip rest)
        let (vs, rest) ← readElements fuel (skip rest)
        some (.arr (v :: vs), rest)
    else if c = '{' then
      if endsWith '}' (skip rest) then some (.obj [], (skip rest).drop 1)
      else do
        let (m, rest) ← readMember fuel (skip rest)
        let (ms, rest) ← readMembers fuel (skip rest)
        some (.obj (m :: ms), rest)
    else readAtom c rest

/-- The elements after the first one, up to the closing bracket. -/
def readElements : Nat → List Char → Option (List Json × List Char)
  | 0, _ => none
  | _ + 1, [] => none
  | fuel + 1, c :: rest =>
    if c = ']' then some ([], rest)
    else if c = ',' then do
      let (v, rest) ← readValue fuel (skip rest)
      let (vs, rest) ← readElements fuel (skip rest)
      some (v :: vs, rest)
    else none

def readMember : Nat → List Char → Option ((String × Json) × List Char)
  | 0, _ => none
  | _ + 1, [] => none
  | fuel + 1, c :: rest =>
    if c = '"' then do
      let (key, rest) ← readText fuel rest
      if endsWith ':' (skip rest) then do
        let (v, rest) ← readValue fuel (skip ((skip rest).drop 1))
        some ((String.ofList key, v), rest)
      else none
    else none

def readMembers : Nat → List Char → Option (List (String × Json) × List Char)
  | 0, _ => none
  | _ + 1, [] => none
  | fuel + 1, c :: rest =>
    if c = '}' then some ([], rest)
    else if c = ',' then do
      let (m, rest) ← readMember fuel (skip rest)
      let (ms, rest) ← readMembers fuel (skip rest)
      some (m :: ms, rest)
    else none

end

/-- `json.loads(text)` where the text is one object; anything else is none. -/
def loads (text : List Char) : Option (List (String × Json)) :=
  match readValue (text.length + 1) (skip text) with
  | some (.obj entries, rest) => if skip rest = [] then some entries else none
  | _ => none

/-! ### Strings -/

section Strings

variable {r : List Char}

theorem hexDigit_digitChar : ∀ d < 16, hexDigit (Nat.digitChar d) = some d := by decide

theorem readUnit_hex4 {n : Nat} (h : n < 65536) (r : List Char) :
    readUnit (hex4 n ++ r) = some (n, r) := by
  have ha := hexDigit_digitChar (n / 4096 % 16) (Nat.mod_lt _ (by decide))
  have hb := hexDigit_digitChar (n / 256 % 16) (Nat.mod_lt _ (by decide))
  have hc := hexDigit_digitChar (n / 16 % 16) (Nat.mod_lt _ (by decide))
  have hd := hexDigit_digitChar (n % 16) (Nat.mod_lt _ (by decide))
  simp only [hex4, List.cons_append, List.nil_append, readUnit, ha, hb, hc, hd,
    Option.bind_eq_bind, Option.bind_some]
  congr 2
  omega

theorem readEscapedUnit_single {n : Nat} (h : n < 55296 ∨ 57344 ≤ n) (hn : n < 65536)
    (r : List Char) : readEscapedUnit (hex4 n ++ r) = some (Char.ofNat n, r) := by
  have hwhole : isHalf n = false := by
    simp only [isHalf, decide_eq_false_iff_not]
    omega
  simp only [readEscapedUnit, readUnit_hex4 hn, Option.bind_eq_bind, Option.bind_some, hwhole,
    Bool.false_eq_true, if_false]

/-- The high and the low surrogate carry the two halves of the offset. -/
theorem readEscapedUnit_pair {high low : Nat} (h : 55296 ≤ high ∧ high < 56320)
    (hl : 56320 ≤ low ∧ low < 57344) (r : List Char) :
    readEscapedUnit (hex4 high ++ '\\' :: 'u' :: (hex4 low ++ r)) =
      some (Char.ofNat (65536 + (high - 55296) * 1024 + (low - 56320)), r) := by
  have hhalf : isHalf high = true := by
    simp only [isHalf, decide_eq_true_eq]
    omega
  have hpair : pairChar high low =
      some (Char.ofNat (65536 + (high - 55296) * 1024 + (low - 56320))) :=
    if_pos ⟨h.2, hl⟩
  simp only [readEscapedUnit, readUnit_hex4 (show high < 65536 by omega), Option.bind_eq_bind,
    Option.bind_some, hhalf, if_true, List.take_succ_cons, List.take_zero, List.drop_succ_cons,
    List.drop_zero, readUnit_hex4 (show low < 65536 by omega), hpair]

theorem shortEscape_mem {c e : Char} (h : shortEscape c = some e) :
    e ∈ ['"', '\\', '/', 'b', 'f', 'n', 'r', 't'] := by
  unfold shortEscape at h
  repeat' split at h
  all_goals first | contradiction | (cases h; decide)

theorem readChar_plain {c : Char} (hslash : c ≠ '\\') (h : 32 ≤ c.toNat) (rest : List Char) :
    readChar (c :: rest) = some (c, rest) := by
  have hcontrol : ¬ c.toNat < 32 := by omega
  simp [readChar, hslash, hcontrol]

theorem readChar_unit (rest : List Char) :
    readChar ('\\' :: 'u' :: rest) = readEscapedUnit rest := by
  simp [readChar]

theorem readChar_escapeChar (c : Char) (r : List Char) :
    readChar (escapeChar c ++ r) = some (c, r) := by
  unfold escapeChar
  cases hshort : shortEscape c with
  | some e =>
    obtain ⟨hu, hlong⟩ := shortEscape_some hshort
    simp only [List.cons_append, List.nil_append, readChar, if_true, if_neg hu,
      if_pos (shortEscape_mem hshort), hlong]
  | none =>
    have hslash := (plain_of_shortEscape_none hshort).2
    have hvalid : c.toNat < 55296 ∨ 57343 < c.toNat ∧ c.toNat < 1114112 := c.valid
    simp only
    by_cases hprint : 32 ≤ c.toNat ∧ c.toNat ≤ 126
    · rw [if_pos hprint, List.singleton_append, readChar_plain hslash hprint.1]
    · rw [if_neg hprint]
      by_cases hbmp : c.toNat < 65536
      · rw [if_pos hbmp, List.cons_append, List.cons_append, readChar_unit,
          readEscapedUnit_single (by omega) hbmp, Char.ofNat_toNat]
      · have hvalue : 65536 + (55296 + (c.toNat - 65536) / 1024 - 55296) * 1024 +
            (56320 + (c.toNat - 65536) % 1024 - 56320) = c.toNat := by
          omega
        rw [if_neg hbmp, List.append_assoc, List.cons_append, List.cons_append, List.cons_append,
          List.cons_append, readChar_unit, readEscapedUnit_pair (by omega) (by omega), hvalue,
          Char.ofNat_toNat]

theorem readText_cons {fuel : Nat} {c : Char} {rest : List Char} (h : c ≠ '"') :
    readText (fuel + 1) (c :: rest) = (readChar (c :: rest)).bind fun p =>
      (readText fuel p.2).bind fun q => some (p.1 :: q.1, q.2) := by
  rw [readText]
  · rfl
  · rintro rest' heq
    exact h (List.cons.inj heq).1

theorem readText_escaped (cs : List Char) {fuel : Nat} (h : (escaped cs).length ≤ fuel)
    (r : List Char) : readText fuel (escaped cs ++ r) = some (cs, r) := by
  induction cs generalizing fuel with
  | nil =>
    cases fuel with
    | zero => simp [escaped] at h
    | succ fuel => rfl
  | cons c cs ih =>
    obtain ⟨d, start, hd, hquote⟩ := escapeChar_cons c
    have hsplit : escaped (c :: cs) = escapeChar c ++ escaped cs := by
      simp [escaped]
    have hlength : (escaped (c :: cs)).length = start.length + 1 + (escaped cs).length := by
      rw [hsplit, hd, List.length_append, List.length_cons]
    cases fuel with
    | zero => omega
    | succ fuel =>
      have hchar := readChar_escapeChar c (escaped cs ++ r)
      rw [hsplit, List.append_assoc]
      rw [hd, List.cons_append] at hchar ⊢
      rw [readText_cons hquote, hchar, Option.bind_some]
      simp only [ih (by omega : (escaped cs).length ≤ fuel), Option.bind_some]

end Strings

/-! ### Numbers -/

section Numbers

/-- A run of characters ends where the next one is of another kind. -/
theorem span_append {p : Char → Bool} {ds r : List Char} (hds : ∀ c ∈ ds, p c = true)
    (hr : ∀ c ∈ r.head?, p c = false) :
    (ds ++ r).takeWhile p = ds ∧ (ds ++ r).dropWhile p = r := by
  induction ds with
  | nil =>
    cases r with
    | nil => exact ⟨rfl, rfl⟩
    | cons c r =>
      have hc : p c = false := hr c rfl
      simp [hc]
  | cons c ds ih =>
    obtain ⟨htake, hdrop⟩ := ih fun d hd => hds d (List.mem_cons_of_mem c hd)
    have hc := hds c List.mem_cons_self
    exact ⟨by rw [List.cons_append, List.takeWhile_cons_of_pos hc, htake],
      by rw [List.cons_append, List.dropWhile_cons_of_pos hc, hdrop]⟩

theorem digits_zero_head {n : Nat} (h : (digits n).head? = some '0') : digits n = ['0'] := by
  induction n using Nat.strong_induction_on with
  | _ n ih =>
    rw [digits, Nat.toDigits_eq_if (by decide)] at h ⊢
    by_cases hn : n < 10
    · rw [if_pos hn] at h ⊢
      rw [List.head?_cons, Option.some.injEq] at h
      rw [h]
    · rw [if_neg hn] at h
      have hhead : (digits (n / 10)).head? = some '0' := by
        obtain ⟨c, rest, hdigits, _⟩ := digits_cons (n / 10)
        change (digits (n / 10) ++ _).head? = _ at h
        rw [hdigits] at h ⊢
        exact h
      have hzero : digits (n / 10) = digits 0 := (ih (n / 10) (by omega) hhead).trans rfl
      have := digits_injective hzero
      omega

theorem splitSign_signText (negative : Bool) {ds : List Char} {n : Nat} {r : List Char}
    (h : ds = digits n ++ r) : splitSign (signText negative ++ ds) = (negative, ds) := by
  obtain ⟨c, rest, hdigits, hc⟩ := digits_cons n
  have hdash : c ≠ '-' := by
    rintro rfl
    revert hc
    decide
  rw [h, hdigits]
  cases negative <;> simp [signText, splitSign, hdash]

/-- The whole part of a number that begins with these digits. -/
theorem numberOf_digits (negative : Bool) (n : Nat) {r : List Char}
    (hr : ∀ c ∈ r.head?, c.isDigit = false) :
    numberOf (signText negative ++ (digits n ++ r)) = figureOf negative (digits n) r := by
  obtain ⟨htake, hdrop⟩ :=
    span_append (fun c hc => isDigit_of_mem_digits (n := n) hc) hr
  have hne : digits n ≠ [] := Nat.toDigits_ne_nil
  have hzero : ¬ (digits n = [] ∨ ((digits n).head? = some '0' ∧ digits n ≠ ['0'])) := by
    rintro (h | ⟨hhead, hmore⟩)
    · exact hne h
    · exact hmore (digits_zero_head hhead)
  simp only [numberOf, splitSign_signText negative rfl, htake, hdrop, if_neg hzero]

theorem numberOf_intText (n : Int) : numberOf (intText n) = some (.int n) := by
  have h := numberOf_digits (decide (n < 0)) n.natAbs (r := []) (by simp)
  rw [List.append_nil] at h
  rw [intText, h, figureOf, ofDigits_digits]
  congr 2
  by_cases hn : n < 0
  · simp only [hn, decide_true, signed, if_true]
    omega
  · simp only [hn, decide_false, signed, Bool.false_eq_true, if_false]
    omega

theorem signed_abs (x : ℚ) : signed (decide (x < 0)) |x| = x := by
  by_cases hx : x < 0
  · simp [signed, hx, abs_of_neg hx]
  · simp [signed, hx, abs_of_nonneg (not_lt.mp hx)]

theorem numberOf_floatText (x : ℚ) : numberOf (floatText x) = some (.float x) := by
  unfold floatText magnitudeText
  cases hx : decimals x with
  | some k =>
    obtain ⟨hk, hdvd⟩ := decimals_some hx
    have hfraction : ∀ c ∈ padded k (digits (x.num.natAbs * (10 ^ k / x.den) % 10 ^ k)),
        c.isDigit = true := by
      intro c hc
      rcases List.mem_append.mp hc with hc | hc
      · rw [(List.mem_replicate.mp hc).2]
        decide
      · exact isDigit_of_mem_digits hc
    have hne : padded k (digits (x.num.natAbs * (10 ^ k / x.den) % 10 ^ k)) ≠ [] := by
      intro hnil
      exact Nat.toDigits_ne_nil (List.append_eq_nil_iff.mp hnil).2
    obtain ⟨htake, hdrop⟩ := span_append (r := []) hfraction (by simp)
    rw [List.append_nil] at htake hdrop
    rw [numberOf_digits _ _ (by simp)]
    simp only [figureOf]
    rw [if_neg (by decide), if_pos trivial, htake, hdrop, if_neg hne]
    simp only [exponentOf, Option.map_some, zpow_zero, mul_one]
    rw [readDecimal_padded hk, ← abs_eq_scaled hdvd, signed_abs]
  | none =>
    have hden : digits x.den ≠ [] ∧ (digits x.den).all Char.isDigit = true :=
      ⟨Nat.toDigits_ne_nil, List.all_eq_true.mpr fun c hc => isDigit_of_mem_digits hc⟩
    rw [numberOf_digits _ _ (by simp)]
    simp only [figureOf, if_true]
    rw [if_pos hden, ofDigits_digits, ofDigits_digits]
    have habs : (x.num.natAbs : ℚ) / x.den = |x| := by
      rw [Rat.abs_def, Rat.divInt_eq_div, Int.cast_natCast, Int.cast_natCast]
    rw [habs, signed_abs]

theorem readNumber_append {token r : List Char} {v : Json}
    (htoken : ∀ c ∈ token, numberChar c = true) (hv : numberOf token = some v) (hr : Stops r) :
    readNumber (token ++ r) = some (v, r) := by
  have hstop : ∀ c ∈ r.head?, numberChar c = false := by
    obtain ⟨c, rest, rfl, hc⟩ := hr
    intro d hd
    cases hd
    rcases hc with rfl | rfl | rfl <;> decide
  obtain ⟨htake, hdrop⟩ := span_append htoken hstop
  rw [readNumber, htake, hdrop, hv]
  rfl

theorem numberChar_digit {c : Char} (h : c.isDigit = true) : numberChar c = true := by
  simp [numberChar, h]

theorem numberChar_signed (negative : Bool) {cs : List Char}
    (h : ∀ c ∈ cs, numberChar c = true) : ∀ c ∈ signText negative ++ cs, numberChar c = true := by
  intro c hc
  rcases List.mem_append.mp hc with hc | hc
  · cases negative with
    | true =>
      rw [List.mem_singleton.mp hc]
      decide
    | false => cases hc
  · exact h c hc

theorem numberChar_intText (n : Int) : ∀ c ∈ intText n, numberChar c = true :=
  numberChar_signed _ fun _ hc => numberChar_digit (isDigit_of_mem_digits hc)

theorem numberChar_floatText (x : ℚ) : ∀ c ∈ floatText x, numberChar c = true := by
  apply numberChar_signed
  unfold magnitudeText
  intro c hc
  cases hx : decimals x with
  | some k =>
    rw [hx] at hc
    rcases List.mem_append.mp hc with hc | hc
    · exact numberChar_digit (isDigit_of_mem_digits hc)
    · rcases List.mem_cons.mp hc with rfl | hc
      · decide
      · rcases List.mem_append.mp hc with hc | hc
        · rw [(List.mem_replicate.mp hc).2]
          decide
        · exact numberChar_digit (isDigit_of_mem_digits hc)
  | none =>
    rw [hx] at hc
    rcases List.mem_append.mp hc with hc | hc
    · exact numberChar_digit (isDigit_of_mem_digits hc)
    · rcases List.mem_cons.mp hc with rfl | hc
      · decide
      · exact numberChar_digit (isDigit_of_mem_digits hc)

/-- A text that begins with a digit, or with a sign and a digit, is no literal. -/
theorem readAtom_number {negative : Bool} {c d : Char} {cs rest : List Char}
    (hd : d.isDigit = true) (h : c :: rest = signText negative ++ d :: cs) :
    readAtom c rest = readNumber (c :: rest) := by
  cases negative with
  | true =>
    cases h
    have hI : d ≠ 'I' := by
      rintro rfl
      revert hd
      decide
    simp [readAtom, literal, hI]
  | false =>
    cases h
    have hne : ∀ e : Char, e.isDigit = false → c ≠ e := by
      rintro e he rfl
      rw [hd] at he
      cases he
    simp [readAtom, literal, hne 'n' (by decide), hne 't' (by decide), hne 'f' (by decide),
      hne 'N' (by decide), hne 'I' (by decide), hne '-' (by decide)]

end Numbers

/-! ### Reading what was written -/

section Documents

variable {fuel : Nat} {r : List Char}

theorem skip_cons {c : Char} (h : jsonBlank c = false) (rest : List Char) :
    skip (c :: rest) = c :: rest :=
  List.dropWhile_cons_of_neg (by simp [h])

theorem number_start (c : Char) (h : c = '-' ∨ c.isDigit = true) :
    c ≠ '"' ∧ c ≠ '[' ∧ c ≠ '{' ∧ c ≠ ']' ∧ jsonBlank c = false := by
  have hne : ∀ e : Char, e ≠ '-' → e.isDigit = false → c ≠ e := by
    rintro e hdash hdigit rfl
    rcases h with h | h
    · exact hdash h
    · rw [h] at hdigit
      cases hdigit
  refine ⟨hne _ (by decide) (by decide), hne _ (by decide) (by decide),
    hne _ (by decide) (by decide), hne _ (by decide) (by decide), ?_⟩
  simp [jsonBlank, hne ' ' (by decide) (by decide), hne '\t' (by decide) (by decide),
    hne '\n' (by decide) (by decide), hne '\r' (by decide) (by decide)]

/-- The text of a value begins with no blank, and with no closing bracket. -/
theorem valueText_start (v : Json) :
    ∃ c rest, valueText v = c :: rest ∧ jsonBlank c = false ∧ c ≠ ']' := by
  cases v with
  | null => exact ⟨'n', _, rfl, by decide, by decide⟩
  | bool b => cases b <;> exact ⟨_, _, rfl, by decide, by decide⟩
  | int n =>
    obtain ⟨c, rest, htext, hc⟩ := intText_cons n
    obtain ⟨_, _, _, hclose, hblank⟩ := number_start c hc
    exact ⟨c, rest, htext, hblank, hclose⟩
  | float x =>
    obtain ⟨c, rest, htext, hc⟩ := floatText_cons x
    obtain ⟨_, _, _, hclose, hblank⟩ := number_start c hc
    exact ⟨c, rest, htext, hblank, hclose⟩
  | nan => exact ⟨'N', _, rfl, by decide, by decide⟩
  | infinity b => cases b <;> exact ⟨_, _, rfl, by decide, by decide⟩
  | str s => exact ⟨'"', _, rfl, by decide, by decide⟩
  | arr vs => cases vs <;> exact ⟨'[', _, rfl, by decide, by decide⟩
  | obj ms => cases ms <;> exact ⟨'{', _, rfl, by decide, by decide⟩

theorem skip_valueText (v : Json) : skip (valueText v ++ r) = valueText v ++ r := by
  obtain ⟨c, rest, htext, hc, _⟩ := valueText_start v
  rw [htext, List.cons_append, skip_cons hc]

theorem skip_moreElements (vs : List Json) :
    skip (moreElements vs ++ r) = moreElements vs ++ r := by
  cases vs <;> exact skip_cons (by decide) _

theorem skip_memberText (m : String × Json) : skip (memberText m ++ r) = memberText m ++ r := by
  obtain ⟨k, v⟩ := m
  exact skip_cons (show jsonBlank '"' = false by decide) _

theorem skip_moreMembers (ms : List (String × Json)) :
    skip (moreMembers ms ++ r) = moreMembers ms ++ r := by
  cases ms <;> exact skip_cons (by decide) _

theorem moreElements_stops (vs : List Json) (r : List Char) : Stops (moreElements vs ++ r) := by
  cases vs with
  | nil => exact ⟨']', r, rfl, by simp⟩
  | cons v rest => exact ⟨',', _, rfl, by simp⟩

theorem moreMembers_stops (ms : List (String × Json)) (r : List Char) :
    Stops (moreMembers ms ++ r) := by
  cases ms with
  | nil => exact ⟨'}', r, rfl, by simp⟩
  | cons m rest => exact ⟨',', _, rfl, by simp⟩

theorem readValue_atom {c : Char} (hquote : c ≠ '"') (hbracket : c ≠ '[') (hbrace : c ≠ '{')
    (rest : List Char) : readValue (fuel + 1) (c :: rest) = readAtom c rest := by
  simp only [readValue, if_neg hquote, if_neg hbracket, if_neg hbrace]

theorem readValue_number {token : List Char} {v : Json} {negative : Bool} {d : Char}
    {cs : List Char} (htoken : token = signText negative ++ d :: cs) (hd : d.isDigit = true)
    (hchars : ∀ c ∈ token, numberChar c = true) (hv : numberOf token = some v) (hr : Stops r) :
    readValue (fuel + 1) (token ++ r) = some (v, r) := by
  have hnumber := readNumber_append hchars hv hr
  obtain ⟨c, rest, hsplit, hc⟩ : ∃ c rest, token = c :: rest ∧ (c = '-' ∨ c.isDigit = true) := by
    cases negative with
    | true => exact ⟨'-', _, htoken, Or.inl rfl⟩
    | false => exact ⟨d, cs, htoken, Or.inr hd⟩
  obtain ⟨hquote, hbracket, hbrace, _, _⟩ := number_start c hc
  have hatom : c :: (rest ++ r) = signText negative ++ d :: (cs ++ r) := by
    rw [← List.cons_append, ← hsplit, htoken, List.append_assoc, List.cons_append]
  rw [hsplit, List.cons_append] at hnumber ⊢
  rw [readValue_atom hquote hbracket hbrace, readAtom_number hd hatom, hnumber]

/-- The reader reads what the writer wrote, with fuel for every character. -/
structure Reads (fuel : Nat) : Prop where
  value : ∀ v r, (valueText v).length ≤ fuel → (Stops r ∨ ∃ ms, v = .obj ms) →
    readValue fuel (valueText v ++ r) = some (v, r)
  elements : ∀ vs r, (moreElements vs).length ≤ fuel →
    readElements fuel (moreElements vs ++ r) = some (vs, r)
  member : ∀ m r, (memberText m).length ≤ fuel → Stops r →
    readMember fuel (memberText m ++ r) = some (m, r)
  members : ∀ ms r, (moreMembers ms).length ≤ fuel →
    readMembers fuel (moreMembers ms ++ r) = some (ms, r)

theorem reads_zero : Reads 0 where
  value := by
    intro v r h _
    obtain ⟨c, rest, htext, _⟩ := valueText_start v
    rw [htext] at h
    simp at h
  elements := by
    intro vs r h
    cases vs <;> simp [moreElements] at h
  member := by
    rintro ⟨k, v⟩ r h _
    simp [memberText, strText] at h
  members := by
    intro ms r h
    cases ms <;> simp [moreMembers] at h

theorem reads_elements (ih : Reads fuel) (vs : List Json) (r : List Char)
    (h : (moreElements vs).length ≤ fuel + 1) :
    readElements (fuel + 1) (moreElements vs ++ r) = some (vs, r) := by
  cases vs with
  | nil => rfl
  | cons v rest =>
    simp only [moreElements, List.length_cons, List.length_append] at h
    have hvalue := ih.value v (moreElements rest ++ r) (by omega)
      (Or.inl (moreElements_stops rest r))
    have hrest := ih.elements rest r (by omega)
    have hskip : skip (' ' :: (valueText v ++ (moreElements rest ++ r))) =
        valueText v ++ (moreElements rest ++ r) :=
      (List.dropWhile_cons_of_pos (by decide)).trans (skip_valueText v)
    simp only [moreElements, List.cons_append, List.append_assoc, readElements]
    rw [if_neg (by decide), if_pos trivial, hskip, hvalue]
    simp only [Option.bind_eq_bind, Option.bind_some, skip_moreElements, hrest]

theorem reads_member (ih : Reads fuel) (m : String × Json) (r : List Char)
    (h : (memberText m).length ≤ fuel + 1) (hr : Stops r) :
    readMember (fuel + 1) (memberText m ++ r) = some (m, r) := by
  obtain ⟨k, v⟩ := m
  simp only [memberText, strText, List.length_cons, List.length_append] at h
  have hkey := readText_escaped k.toList (by omega : (escaped k.toList).length ≤ fuel)
    (':' :: ' ' :: (valueText v ++ r))
  have hvalue := ih.value v r (by omega) (Or.inl hr)
  have hcolon : skip (':' :: ' ' :: (valueText v ++ r)) = ':' :: ' ' :: (valueText v ++ r) :=
    skip_cons (by decide) _
  have hskip : skip (' ' :: (valueText v ++ r)) = valueText v ++ r :=
    (List.dropWhile_cons_of_pos (by decide)).trans (skip_valueText v)
  simp only [memberText, strText, List.cons_append, List.append_assoc, readMember]
  rw [if_pos trivial, hkey]
  simp only [Option.bind_eq_bind, Option.bind_some, hcolon, endsWith, List.head?_cons,
    List.drop_succ_cons, List.drop_zero, hskip, hvalue, decide_true, if_true,
    String.ofList_toList]

theorem reads_members (ih : Reads fuel) (ms : List (String × Json)) (r : List Char)
    (h : (moreMembers ms).length ≤ fuel + 1) :
    readMembers (fuel + 1) (moreMembers ms ++ r) = some (ms, r) := by
  cases ms with
  | nil => rfl
  | cons m rest =>
    simp only [moreMembers, List.length_cons, List.length_append] at h
    have hmember := ih.member m (moreMembers rest ++ r) (by omega) (moreMembers_stops rest r)
    have hrest := ih.members rest r (by omega)
    have hskip : skip (' ' :: (memberText m ++ (moreMembers rest ++ r))) =
        memberText m ++ (moreMembers rest ++ r) :=
      (List.dropWhile_cons_of_pos (by decide)).trans (skip_memberText m)
    simp only [moreMembers, List.cons_append, List.append_assoc, readMembers]
    rw [if_neg (by decide), if_pos trivial, hskip, hmember]
    simp only [Option.bind_eq_bind, Option.bind_some, skip_moreMembers, hrest]

theorem reads_array (ih : Reads fuel) (vs : List Json) (r : List Char)
    (h : (valueText (.arr vs)).length ≤ fuel + 1) :
    readValue (fuel + 1) (valueText (.arr vs) ++ r) = some (.arr vs, r) := by
  cases vs with
  | nil => rfl
  | cons v rest =>
    simp only [valueText, List.length_cons, List.length_append] at h
    have hvalue := ih.value v (moreElements rest ++ r) (by omega)
      (Or.inl (moreElements_stops rest r))
    have hrest := ih.elements rest r (by omega)
    have hopen : endsWith ']' (valueText v ++ (moreElements rest ++ r)) = false := by
      obtain ⟨c, start, htext, _, hclose⟩ := valueText_start v
      simp [endsWith, htext, hclose]
    simp only [valueText, List.cons_append, List.append_assoc, readValue]
    rw [if_neg (by decide), if_pos trivial, skip_valueText, hopen]
    simp only [Bool.false_eq_true, if_false, hvalue, Option.bind_eq_bind, Option.bind_some,
      skip_moreElements, hrest]

theorem reads_object (ih : Reads fuel) (ms : List (String × Json)) (r : List Char)
    (h : (valueText (.obj ms)).length ≤ fuel + 1) :
    readValue (fuel + 1) (valueText (.obj ms) ++ r) = some (.obj ms, r) := by
  cases ms with
  | nil => rfl
  | cons m rest =>
    simp only [valueText, List.length_cons, List.length_append] at h
    have hmember := ih.member m (moreMembers rest ++ r) (by omega) (moreMembers_stops rest r)
    have hrest := ih.members rest r (by omega)
    have hopen : endsWith '}' (memberText m ++ (moreMembers rest ++ r)) = false := by
      obtain ⟨k, v⟩ := m
      rfl
    simp only [valueText, List.cons_append, List.append_assoc, readValue]
    rw [if_neg (by decide), if_neg (by decide), if_pos trivial, skip_memberText, hopen]
    simp only [Bool.false_eq_true, if_false, hmember, Option.bind_eq_bind, Option.bind_some,
      skip_moreMembers, hrest]

theorem reads_value (ih : Reads fuel) (v : Json) (r : List Char)
    (h : (valueText v).length ≤ fuel + 1) (hr : Stops r ∨ ∃ ms, v = .obj ms) :
    readValue (fuel + 1) (valueText v ++ r) = some (v, r) := by
  cases v with
  | null => rfl
  | bool b => cases b <;> rfl
  | nan => rfl
  | infinity b => cases b <;> rfl
  | int n =>
    rcases hr with hr | ⟨ms, hms⟩
    · obtain ⟨d, cs, hdigits, hd⟩ := digits_cons n.natAbs
      exact readValue_number (by rw [valueText, intText, hdigits]) hd (numberChar_intText n)
        (numberOf_intText n) hr
    · cases hms
  | float x =>
    rcases hr with hr | ⟨ms, hms⟩
    · obtain ⟨d, cs, hdigits, hd⟩ := magnitudeText_cons x
      exact readValue_number (by rw [valueText, floatText, hdigits]) hd (numberChar_floatText x)
        (numberOf_floatText x) hr
    · cases hms
  | str s =>
    simp only [valueText, strText, List.length_cons] at h
    have htext := readText_escaped s.toList (by omega : (escaped s.toList).length ≤ fuel) r
    simp only [valueText, strText, List.cons_append, readValue, if_true, htext, Option.map_some,
      String.ofList_toList]
  | arr vs => exact reads_array ih vs r h
  | obj ms => exact reads_object ih ms r h

theorem reads (fuel : Nat) : Reads fuel := by
  induction fuel with
  | zero => exact reads_zero
  | succ fuel ih =>
    exact ⟨reads_value ih, reads_elements ih, reads_member ih, reads_members ih⟩

end Documents

/-! ### Texts that go on

A reader that has found the end of what it reads finds the same in a longer text. -/

section Longer

variable {cs rest u : List Char}

theorem readUnit_more {n : Nat} (h : readUnit cs = some (n, rest)) (u : List Char) :
    readUnit (cs ++ u) = some (n, rest ++ u) := by
  match cs, h with
  | a :: b :: c :: d :: cs, h =>
    simp only [List.cons_append, readUnit, Option.bind_eq_bind, Option.bind_eq_some_iff,
      Option.some.injEq, Prod.mk.injEq] at h ⊢
    obtain ⟨a', ha, b', hb, c', hc, d', hd, hn, rfl⟩ := h
    exact ⟨a', ha, b', hb, c', hc, d', hd, hn, rfl⟩

theorem readEscapedUnit_more {c : Char} (h : readEscapedUnit cs = some (c, rest))
    (u : List Char) : readEscapedUnit (cs ++ u) = some (c, rest ++ u) := by
  obtain ⟨⟨unit, later⟩, hunit, hrest⟩ := Option.bind_eq_some_iff.mp h
  refine Option.bind_eq_some_iff.mpr ⟨(unit, later ++ u), readUnit_more hunit u, ?_⟩
  simp only at hrest ⊢
  cases hhalf : isHalf unit with
  | false =>
    rw [hhalf, if_neg Bool.false_ne_true] at hrest
    rw [if_neg Bool.false_ne_true]
    cases hrest
    rfl
  | true =>
    rw [hhalf, if_pos rfl] at hrest
    rw [if_pos rfl]
    by_cases hslash : later.take 2 = ['\\', 'u']
    · obtain ⟨last, rfl⟩ : ∃ last, later = '\\' :: 'u' :: last :=
        ⟨later.drop 2, (List.take_append_drop 2 later).symm.trans (by rw [hslash]; rfl)⟩
      have hslash' : ('\\' :: 'u' :: last ++ u).take 2 = ['\\', 'u'] := rfl
      rw [if_pos hslash] at hrest
      rw [if_pos hslash']
      obtain ⟨⟨low, end'⟩, hlow, hpair⟩ := Option.bind_eq_some_iff.mp hrest
      obtain ⟨d, hd, hend⟩ := Option.bind_eq_some_iff.mp hpair
      have hmore : readUnit (last ++ u) = some (low, end' ++ u) := readUnit_more hlow u
      cases hend
      exact Option.bind_eq_some_iff.mpr ⟨_, hmore, Option.bind_eq_some_iff.mpr ⟨c, hd, rfl⟩⟩
    · rw [if_neg hslash] at hrest
      cases hrest

theorem readChar_more {c : Char} (h : readChar cs = some (c, rest)) (u : List Char) :
    readChar (cs ++ u) = some (c, rest ++ u) := by
  cases cs with
  | nil => cases h
  | cons d cs =>
    rw [List.cons_append]
    by_cases hslash : d = '\\'
    · subst hslash
      cases cs with
      | nil => cases h
      | cons e cs =>
        by_cases hu : e = 'u'
        · subst hu
          rw [readChar_unit] at h
          rw [List.cons_append, readChar_unit, readEscapedUnit_more h]
        · simp only [readChar, List.cons_append, if_true, if_neg hu] at h ⊢
          split at h
          · rename_i he
            rw [if_pos he]
            cases h
            rfl
          · cases h
    · simp only [readChar, if_neg hslash] at h ⊢
      split at h
      · cases h
      · rename_i hplain
        rw [if_neg hplain]
        cases h
        rfl

theorem readText_more {fuel fuel' : Nat} {text : List Char}
    (h : readText fuel cs = some (text, rest)) (hfuel : fuel ≤ fuel') (u : List Char) :
    readText fuel' (cs ++ u) = some (text, rest ++ u) := by
  induction fuel generalizing cs text fuel' with
  | zero => cases h
  | succ fuel ih =>
    obtain ⟨fuel', rfl⟩ : ∃ n, fuel' = n + 1 := ⟨fuel' - 1, by omega⟩
    cases cs with
    | nil => cases h
    | cons c cs =>
      by_cases hquote : c = '"'
      · subst hquote
        cases h
        rfl
      · rw [readText_cons hquote] at h
        obtain ⟨⟨d, later⟩, hchar, hrest⟩ := Option.bind_eq_some_iff.mp h
        obtain ⟨⟨more, last⟩, htext, hend⟩ := Option.bind_eq_some_iff.mp hrest
        have hchar' := readChar_more hchar u
        cases hend
        rw [List.cons_append] at hchar' ⊢
        rw [readText_cons hquote, hchar', Option.bind_some, ih htext (by omega)]
        rfl

theorem expect_more {text : List Char} {v v' : Json} (h : expect text v cs = some (v', rest))
    (u : List Char) : expect text v (cs ++ u) = some (v', rest ++ u) := by
  unfold expect at h ⊢
  split at h
  · rename_i hstarts
    cases h
    obtain ⟨later, rfl⟩ := List.isPrefixOf_iff_prefix.mp hstarts
    rw [if_pos (by simp [List.append_assoc])]
    simp [List.append_assoc]
  · cases h

theorem readNumber_more {v : Json} (h : readNumber cs = some (v, rest)) (hrest : rest ≠ [])
    (u : List Char) : readNumber (cs ++ u) = some (v, rest ++ u) := by
  obtain ⟨w, hnumber, hpair⟩ := Option.map_eq_some_iff.mp h
  cases hpair
  have hsplit := List.takeWhile_append_dropWhile (p := numberChar) (l := cs)
  have hall : ∀ c ∈ cs.takeWhile numberChar, numberChar c = true :=
    fun c hc => List.mem_takeWhile_imp hc
  have hstop : ∀ c ∈ (cs.dropWhile numberChar ++ u).head?, numberChar c = false := by
    intro c hc
    cases hdrop : cs.dropWhile numberChar with
    | nil => exact absurd hdrop hrest
    | cons d later =>
      rw [hdrop] at hc
      cases hc
      have hhead := List.head_dropWhile_not numberChar (l := cs) hrest
      simpa [hdrop] using hhead
  obtain ⟨htake, hdrop⟩ := span_append hall hstop
  rw [← List.append_assoc, hsplit] at htake hdrop
  rw [readNumber, htake, hdrop, hnumber]
  rfl

/-- A number alone leaves nothing. -/
theorem readNumber_single {c : Char} {v : Json} (h : readNumber [c] = some (v, rest)) :
    rest = [] := by
  obtain ⟨w, hnumber, hpair⟩ := Option.map_eq_some_iff.mp h
  cases hpair
  cases hc : numberChar c with
  | true => simp [hc]
  | false =>
    rw [List.takeWhile_cons_of_neg (by simp [hc])] at hnumber
    cases hnumber

theorem readAtom_more {c : Char} {v : Json} (h : readAtom c cs = some (v, rest))
    (hrest : rest ≠ []) (u : List Char) : readAtom c (cs ++ u) = some (v, rest ++ u) := by
  unfold readAtom at h ⊢
  cases hliteral : literal c with
  | some l =>
    rw [hliteral] at h
    exact expect_more h u
  | none =>
    rw [hliteral] at h
    simp only at h ⊢
    cases cs with
    | nil =>
      rw [if_neg (by simp)] at h
      exact absurd (readNumber_single h) hrest
    | cons d cs =>
      have hhead : (d :: cs ++ u).head? = (d :: cs).head? := rfl
      rw [hhead]
      by_cases hdash : c = '-' ∧ (d :: cs).head? = some 'I'
      · rw [if_pos hdash] at h
        rw [if_pos hdash]
        exact expect_more h u
      · rw [if_neg hdash] at h
        rw [if_neg hdash]
        exact readNumber_more h hrest u

theorem skip_more (h : skip cs ≠ []) (u : List Char) : skip (cs ++ u) = skip cs ++ u := by
  induction cs with
  | nil => exact absurd rfl h
  | cons c cs ih =>
    cases hc : jsonBlank c with
    | true =>
      have hskip : ∀ later, skip (c :: later) = skip later :=
        fun later => List.dropWhile_cons_of_pos hc
      rw [hskip] at h ⊢
      rw [List.cons_append, hskip, ih h]
    | false => rw [List.cons_append, skip_cons hc, skip_cons hc, List.cons_append]

theorem ne_nil_of_endsWith {close : Char} (h : endsWith close cs = true) : cs ≠ [] := by
  rintro rfl
  simp [endsWith] at h

theorem endsWith_more (close : Char) (h : cs ≠ []) (u : List Char) :
    endsWith close (cs ++ u) = endsWith close cs := by
  cases cs with
  | nil => exact absurd rfl h
  | cons c cs => rfl

theorem drop_more (h : cs ≠ []) (u : List Char) : (cs ++ u).drop 1 = cs.drop 1 ++ u := by
  cases cs with
  | nil => exact absurd rfl h
  | cons c cs => rfl

theorem ne_nil_of_skip (h : skip cs ≠ []) : cs ≠ [] := by
  rintro rfl
  exact h rfl

/-- With this fuel, and with any more of it, the readers do not look past what they read; a
number or a literal needs something behind it. -/
structure Settles (fuel : Nat) : Prop where
  value : ∀ {cs rest v fuel'}, readValue fuel cs = some (v, rest) → fuel ≤ fuel' →
    (rest ≠ [] ∨ cs.head? = some '{') → ∀ u,
      readValue fuel' (cs ++ u) = some (v, rest ++ u)
  elements : ∀ {cs rest vs fuel'}, readElements fuel cs = some (vs, rest) → fuel ≤ fuel' →
    ∀ u, readElements fuel' (cs ++ u) = some (vs, rest ++ u)
  member : ∀ {cs rest m fuel'}, readMember fuel cs = some (m, rest) → fuel ≤ fuel' →
    rest ≠ [] → ∀ u, readMember fuel' (cs ++ u) = some (m, rest ++ u)
  members : ∀ {cs rest ms fuel'}, readMembers fuel cs = some (ms, rest) → fuel ≤ fuel' →
    ∀ u, readMembers fuel' (cs ++ u) = some (ms, rest ++ u)

theorem readValue_ne_nil {fuel : Nat} {p : Json × List Char} (h : readValue fuel cs = some p) :
    cs ≠ [] := by
  rintro rfl
  cases fuel <;> cases h

theorem readElements_ne_nil {fuel : Nat} {p : List Json × List Char}
    (h : readElements fuel cs = some p) : cs ≠ [] := by
  rintro rfl
  cases fuel <;> cases h

theorem readMember_ne_nil {fuel : Nat} {p : (String × Json) × List Char}
    (h : readMember fuel cs = some p) : cs ≠ [] := by
  rintro rfl
  cases fuel <;> cases h

theorem readMembers_ne_nil {fuel : Nat} {p : List (String × Json) × List Char}
    (h : readMembers fuel cs = some p) : cs ≠ [] := by
  rintro rfl
  cases fuel <;> cases h

theorem settles_elements {fuel fuel' : Nat} (ih : Settles fuel) {vs : List Json}
    (h : readElements (fuel + 1) cs = some (vs, rest)) (hfuel : fuel ≤ fuel') (u : List Char) :
    readElements (fuel' + 1) (cs ++ u) = some (vs, rest ++ u) := by
  cases cs with
  | nil => cases h
  | cons c cs =>
    rw [List.cons_append]
    rw [readElements] at h ⊢
    by_cases hclose : c = ']'
    · rw [if_pos hclose] at h ⊢
      cases h
      rfl
    · rw [if_neg hclose] at h ⊢
      by_cases hcomma : c = ','
      · rw [if_pos hcomma] at h ⊢
        obtain ⟨⟨v, later⟩, hvalue, hmore⟩ := Option.bind_eq_some_iff.mp h
        obtain ⟨⟨ws, last⟩, hrest, hend⟩ := Option.bind_eq_some_iff.mp hmore
        have hlater := readElements_ne_nil hrest
        have hvalue' := ih.value hvalue hfuel (Or.inl (ne_nil_of_skip hlater)) u
        have hrest' := ih.elements hrest hfuel u
        cases hend
        rw [← skip_more (readValue_ne_nil hvalue)] at hvalue'
        rw [← skip_more hlater] at hrest'
        exact Option.bind_eq_some_iff.mpr
          ⟨_, hvalue', Option.bind_eq_some_iff.mpr ⟨_, hrest', rfl⟩⟩
      · rw [if_neg hcomma] at h
        cases h

theorem settles_members {fuel fuel' : Nat} (ih : Settles fuel) {ms : List (String × Json)}
    (h : readMembers (fuel + 1) cs = some (ms, rest)) (hfuel : fuel ≤ fuel') (u : List Char) :
    readMembers (fuel' + 1) (cs ++ u) = some (ms, rest ++ u) := by
  cases cs with
  | nil => cases h
  | cons c cs =>
    rw [List.cons_append]
    rw [readMembers] at h ⊢
    by_cases hclose : c = '}'
    · rw [if_pos hclose] at h ⊢
      cases h
      rfl
    · rw [if_neg hclose] at h ⊢
      by_cases hcomma : c = ','
      · rw [if_pos hcomma] at h ⊢
        obtain ⟨⟨m, later⟩, hmember, hmore⟩ := Option.bind_eq_some_iff.mp h
        obtain ⟨⟨ns, last⟩, hrest, hend⟩ := Option.bind_eq_some_iff.mp hmore
        have hlater := readMembers_ne_nil hrest
        have hmember' := ih.member hmember hfuel (ne_nil_of_skip hlater) u
        have hrest' := ih.members hrest hfuel u
        cases hend
        rw [← skip_more (readMember_ne_nil hmember)] at hmember'
        rw [← skip_more hlater] at hrest'
        exact Option.bind_eq_some_iff.mpr
          ⟨_, hmember', Option.bind_eq_some_iff.mpr ⟨_, hrest', rfl⟩⟩
      · rw [if_neg hcomma] at h
        cases h

theorem settles_member {fuel fuel' : Nat} (ih : Settles fuel) {m : String × Json}
    (h : readMember (fuel + 1) cs = some (m, rest)) (hfuel : fuel ≤ fuel') (hrest : rest ≠ [])
    (u : List Char) : readMember (fuel' + 1) (cs ++ u) = some (m, rest ++ u) := by
  cases cs with
  | nil => cases h
  | cons c cs =>
    rw [List.cons_append]
    rw [readMember] at h ⊢
    by_cases hquote : c = '"'
    · rw [if_pos hquote] at h ⊢
      obtain ⟨⟨key, later⟩, hkey, hmore⟩ := Option.bind_eq_some_iff.mp h
      refine Option.bind_eq_some_iff.mpr ⟨_, readText_more hkey hfuel u, ?_⟩
      simp only at hmore ⊢
      by_cases hcolon : endsWith ':' (skip later) = true
      · have hlater := ne_nil_of_endsWith hcolon
        rw [if_pos hcolon] at hmore
        rw [skip_more hlater, endsWith_more _ hlater, if_pos hcolon, drop_more hlater]
        obtain ⟨⟨v, last⟩, hvalue, hend⟩ := Option.bind_eq_some_iff.mp hmore
        cases hend
        have hvalue' := ih.value hvalue hfuel (Or.inl hrest) u
        rw [← skip_more (readValue_ne_nil hvalue)] at hvalue'
        exact Option.bind_eq_some_iff.mpr ⟨_, hvalue', rfl⟩
      · rw [if_neg hcolon] at hmore
        cases hmore
    · rw [if_neg hquote] at h
      cases h

theorem readValue_array {fuel : Nat} (rest : List Char) : readValue (fuel + 1) ('[' :: rest) =
    if endsWith ']' (skip rest) then some (.arr [], (skip rest).drop 1)
    else (readValue fuel (skip rest)).bind fun p =>
      (readElements fuel (skip p.2)).bind fun q => some (.arr (p.1 :: q.1), q.2) := by
  rw [readValue, if_neg (by decide), if_pos rfl]
  rfl

theorem readValue_object {fuel : Nat} (rest : List Char) :
    readValue (fuel + 1) ('{' :: rest) =
      if endsWith '}' (skip rest) then some (.obj [], (skip rest).drop 1)
      else (readMember fuel (skip rest)).bind fun p =>
        (readMembers fuel (skip p.2)).bind fun q => some (.obj (p.1 :: q.1), q.2) := by
  rw [readValue, if_neg (by decide), if_neg (by decide), if_pos rfl]
  rfl

theorem settles_array {fuel fuel' : Nat} (ih : Settles fuel) {v : Json}
    (h : readValue (fuel + 1) ('[' :: cs) = some (v, rest)) (hfuel : fuel ≤ fuel')
    (u : List Char) : readValue (fuel' + 1) ('[' :: (cs ++ u)) = some (v, rest ++ u) := by
  rw [readValue_array] at h ⊢
  by_cases hclose : endsWith ']' (skip cs) = true
  · have hne := ne_nil_of_endsWith hclose
    rw [if_pos hclose] at h
    rw [skip_more hne, endsWith_more _ hne, if_pos hclose, drop_more hne]
    cases h
    rfl
  · rw [if_neg hclose] at h
    obtain ⟨⟨w, later⟩, hvalue, hmore⟩ := Option.bind_eq_some_iff.mp h
    obtain ⟨⟨ws, last⟩, hrest, hend⟩ := Option.bind_eq_some_iff.mp hmore
    have hne := readValue_ne_nil hvalue
    have hlater := readElements_ne_nil hrest
    have hvalue' := ih.value hvalue hfuel (Or.inl (ne_nil_of_skip hlater)) u
    have hrest' := ih.elements hrest hfuel u
    cases hend
    rw [skip_more hne, endsWith_more _ hne, if_neg hclose, hvalue', Option.bind_some]
    simp only [skip_more hlater, hrest', Option.bind_some]

theorem settles_object {fuel fuel' : Nat} (ih : Settles fuel) {v : Json}
    (h : readValue (fuel + 1) ('{' :: cs) = some (v, rest)) (hfuel : fuel ≤ fuel')
    (u : List Char) : readValue (fuel' + 1) ('{' :: (cs ++ u)) = some (v, rest ++ u) := by
  rw [readValue_object] at h ⊢
  by_cases hclose : endsWith '}' (skip cs) = true
  · have hne := ne_nil_of_endsWith hclose
    rw [if_pos hclose] at h
    rw [skip_more hne, endsWith_more _ hne, if_pos hclose, drop_more hne]
    cases h
    rfl
  · rw [if_neg hclose] at h
    obtain ⟨⟨m, later⟩, hmember, hmore⟩ := Option.bind_eq_some_iff.mp h
    obtain ⟨⟨ms, last⟩, hrest, hend⟩ := Option.bind_eq_some_iff.mp hmore
    have hne := readMember_ne_nil hmember
    have hlater := readMembers_ne_nil hrest
    have hmember' := ih.member hmember hfuel (ne_nil_of_skip hlater) u
    have hrest' := ih.members hrest hfuel u
    cases hend
    rw [skip_more hne, endsWith_more _ hne, if_neg hclose, hmember', Option.bind_some]
    simp only [skip_more hlater, hrest', Option.bind_some]

theorem settles_value {fuel fuel' : Nat} (ih : Settles fuel) {v : Json}
    (h : readValue (fuel + 1) cs = some (v, rest)) (hfuel : fuel ≤ fuel')
    (hrest : rest ≠ [] ∨ cs.head? = some '{') (u : List Char) :
    readValue (fuel' + 1) (cs ++ u) = some (v, rest ++ u) := by
  cases cs with
  | nil => cases h
  | cons c cs =>
    rw [List.cons_append]
    by_cases hquote : c = '"'
    · rw [readValue, if_pos hquote] at h ⊢
      obtain ⟨⟨text, later⟩, htext, hend⟩ := Option.map_eq_some_iff.mp h
      cases hend
      rw [readText_more htext hfuel u]
      rfl
    · by_cases hbracket : c = '['
      · subst hbracket
        exact settles_array ih h hfuel u
      · by_cases hbrace : c = '{'
        · subst hbrace
          exact settles_object ih h hfuel u
        · rw [readValue_atom hquote hbracket hbrace] at h ⊢
          rcases hrest with hrest | hopen
          · exact readAtom_more h hrest u
          · exact absurd (Option.some.inj hopen) hbrace

theorem settles (fuel : Nat) : Settles fuel := by
  induction fuel with
  | zero =>
    constructor
    · intro cs rest v fuel' h
      cases h
    · intro cs rest vs fuel' h
      cases h
    · intro cs rest m fuel' h
      cases h
    · intro cs rest ms fuel' h
      cases h
  | succ fuel ih =>
    have hsucc : ∀ {fuel'}, fuel + 1 ≤ fuel' → ∃ n, fuel' = n + 1 ∧ fuel ≤ n :=
      fun {fuel'} h => ⟨fuel' - 1, by omega, by omega⟩
    constructor
    · intro cs rest v fuel' h hfuel hrest u
      obtain ⟨n, rfl, hn⟩ := hsucc hfuel
      exact settles_value ih h hn hrest u
    · intro cs rest vs fuel' h hfuel u
      obtain ⟨n, rfl, hn⟩ := hsucc hfuel
      exact settles_elements ih h hn u
    · intro cs rest m fuel' h hfuel hrest u
      obtain ⟨n, rfl, hn⟩ := hsucc hfuel
      exact settles_member ih h hn hrest u
    · intro cs rest ms fuel' h hfuel u
      obtain ⟨n, rfl, hn⟩ := hsucc hfuel
      exact settles_members ih h hn u

end Longer

/-! ### Objects on lines -/

section Lines

variable {entries : List (String × Json)} {text rest : List Char}

theorem dumps_start (entries : List (String × Json)) :
    ∃ rest, dumps entries = '{' :: rest := by
  cases entries <;> exact ⟨_, rfl⟩

theorem skip_object (rest : List Char) : skip ('{' :: rest) = '{' :: rest :=
  skip_cons (by decide) rest

/-- An object is read up to its end, whatever follows. -/
theorem readValue_dumps (entries : List (String × Json)) (r : List Char) {fuel : Nat}
    (h : (dumps entries).length ≤ fuel) :
    readValue fuel (dumps entries ++ r) = some (.obj entries, r) :=
  (reads fuel).value (.obj entries) r h (Or.inr ⟨entries, rfl⟩)

theorem loads_iff : loads text = some entries ↔ ∃ rest,
    readValue (text.length + 1) (skip text) = some (.obj entries, rest) ∧ skip rest = [] := by
  unfold loads
  constructor
  · intro h
    split at h
    · rename_i ms rest hread
      split at h
      · rename_i hrest
        cases h
        exact ⟨rest, hread, hrest⟩
      · cases h
    · cases h
  · rintro ⟨rest, hread, hrest⟩
    rw [hread]
    exact if_pos hrest

theorem loads_dumps (entries : List (String × Json)) : loads (dumps entries) = some entries := by
  obtain ⟨rest, hstart⟩ := dumps_start entries
  have hread := readValue_dumps entries [] (Nat.le_succ (dumps entries).length)
  rw [List.append_nil] at hread
  rw [loads_iff]
  refine ⟨[], ?_, rfl⟩
  rw [hstart, skip_object, ← hstart]
  exact hread

/-- A text that was torn is no document: read on, it would end too early. -/
theorem loads_torn (entries : List (String × Json)) (text : List Char)
    (hstarts : text <+: dumps entries) (hshort : text ≠ dumps entries) : loads text = none := by
  cases hloads : loads text with
  | none => rfl
  | some others =>
    obtain ⟨later, hread, _⟩ := loads_iff.mp hloads
    obtain ⟨u, hu⟩ := hstarts
    obtain ⟨rest, hstart⟩ := dumps_start entries
    cases text with
    | nil => cases hread
    | cons c text =>
      have hc : c = '{' := by
        rw [hstart, List.cons_append] at hu
        exact (List.cons.inj hu).1
      subst hc
      rw [skip_object] at hread
      have hlength : ('{' :: text).length + 1 ≤ (dumps entries).length + 1 := by
        rw [← hu, List.length_append]
        omega
      have hlonger := (settles _).value hread hlength (Or.inr rfl) u
      have hwhole := readValue_dumps entries [] (Nat.le_succ (dumps entries).length)
      rw [List.append_nil, ← hu] at hwhole
      rw [hu] at hlonger hwhole
      rw [hwhole] at hlonger
      obtain ⟨-, hnone⟩ := Prod.mk.inj (Option.some.inj hlonger)
      have hempty := (List.append_eq_nil_iff.mp hnone.symm).2
      rw [hempty, List.append_nil] at hu
      exact absurd hu hshort

theorem jsonBlank_of_not_blank {c : Char} (h : blank c = false) : jsonBlank c = false := by
  have hne : ∀ d : Char, blank d = true → c ≠ d := by
    rintro d hd rfl
    rw [h] at hd
    cases hd
  simp [jsonBlank, hne ' ' (by decide), hne '\t' (by decide), hne '\n' (by decide),
    hne '\r' (by decide)]

theorem loads_extra (entries : List (String × Json)) (c : Char) (rest : List Char)
    (hc : blank c = false) : loads (dumps entries ++ c :: rest) = none := by
  cases hloads : loads (dumps entries ++ c :: rest) with
  | none => rfl
  | some others =>
    obtain ⟨later, hread, hend⟩ := loads_iff.mp hloads
    obtain ⟨start, hstart⟩ := dumps_start entries
    have hlength : (dumps entries).length ≤ (dumps entries ++ c :: rest).length + 1 := by
      rw [List.length_append]
      omega
    have hwhole := readValue_dumps entries (c :: rest) hlength
    have hskip : skip (dumps entries ++ c :: rest) = dumps entries ++ c :: rest := by
      rw [hstart, List.cons_append, skip_object]
    rw [hskip, hwhole] at hread
    cases hread
    rw [skip_cons (jsonBlank_of_not_blank hc)] at hend
    cases hend

end Lines

/-! ### Printable text -/

def Printable (cs : List Char) : Prop := ∀ c ∈ cs, 32 ≤ c.toNat ∧ c.toNat ≤ 126

instance (cs : List Char) : Decidable (Printable cs) :=
  decidable_of_iff (cs.all fun c => decide (32 ≤ c.toNat ∧ c.toNat ≤ 126)) (by simp [Printable])

theorem Printable.append {cs ds : List Char} (hc : Printable cs) (hd : Printable ds) :
    Printable (cs ++ ds) := by
  intro c h
  rcases List.mem_append.mp h with h | h
  · exact hc c h
  · exact hd c h

theorem Printable.cons {c : Char} {cs : List Char} (hc : 32 ≤ c.toNat ∧ c.toNat ≤ 126)
    (h : Printable cs) : Printable (c :: cs) := by
  intro d hd
  rcases List.mem_cons.mp hd with rfl | hd
  · exact hc
  · exact h d hd

theorem printable_hex4 (n : Nat) : Printable (hex4 n) := by
  have hdigit : ∀ d < 16, 32 ≤ (Nat.digitChar d).toNat ∧ (Nat.digitChar d).toNat ≤ 126 := by
    decide
  intro c hc
  simp only [hex4, List.mem_cons, List.not_mem_nil, or_false] at hc
  rcases hc with rfl | rfl | rfl | rfl <;> exact hdigit _ (Nat.mod_lt _ (by decide))

theorem printable_escapeChar (c : Char) : Printable (escapeChar c) := by
  unfold escapeChar
  cases hshort : shortEscape c with
  | some e =>
    have he : Printable ['"', '\\', '/', 'b', 'f', 'n', 'r', 't'] := by decide
    exact .cons (by decide) (.cons (he e (shortEscape_mem hshort)) fun _ h => nomatch h)
  | none =>
    simp only
    split
    · rename_i hprint
      exact .cons hprint fun _ h => nomatch h
    · split
      · exact .cons (by decide) (.cons (by decide) (printable_hex4 _))
      · exact .append (.cons (by decide) (.cons (by decide) (printable_hex4 _)))
          (.cons (by decide) (.cons (by decide) (printable_hex4 _)))

theorem printable_strText (s : String) : Printable (strText s) := by
  refine .cons (by decide) (.append ?_ (.cons (by decide) fun _ h => nomatch h))
  intro c hc
  obtain ⟨d, _, hd⟩ := List.mem_flatMap.mp hc
  exact printable_escapeChar d c hd

theorem printable_number {cs : List Char} (h : ∀ c ∈ cs, numberChar c = true) : Printable cs := by
  intro c hc
  have hmarks : Printable ['-', '+', '.', 'e', 'E', '/'] := by decide
  have hn := h c hc
  simp only [numberChar, Bool.or_eq_true, decide_eq_true_eq, or_assoc] at hn
  rcases hn with hdigit | hmark
  · have hrange := Char.isDigit_iff_toNat.mp hdigit
    simp only [Char.reduceToNat] at hrange
    omega
  · exact hmarks c (by simpa using hmark)

mutual

theorem printable_valueText : ∀ v : Json, Printable (valueText v)
  | .null => by decide
  | .bool true => by decide
  | .bool false => by decide
  | .int n => printable_number (numberChar_intText n)
  | .float x => printable_number (numberChar_floatText x)
  | .nan => by decide
  | .infinity false => by decide
  | .infinity true => by decide
  | .str s => printable_strText s
  | .arr [] => by decide
  | .arr (v :: rest) =>
    .cons (by decide) ((printable_valueText v).append (printable_moreElements rest))
  | .obj [] => by decide
  | .obj (m :: rest) =>
    .cons (by decide) ((printable_memberText m).append (printable_moreMembers rest))

theorem printable_moreElements : ∀ vs : List Json, Printable (moreElements vs)
  | [] => by decide
  | v :: rest => .cons (by decide) (.cons (by decide)
      ((printable_valueText v).append (printable_moreElements rest)))

theorem printable_memberText : ∀ m : String × Json, Printable (memberText m)
  | (k, v) => (printable_strText k).append
      (.cons (by decide) (.cons (by decide) (printable_valueText v)))

theorem printable_moreMembers : ∀ ms : List (String × Json), Printable (moreMembers ms)
  | [] => by decide
  | m :: rest => .cons (by decide) (.cons (by decide)
      ((printable_memberText m).append (printable_moreMembers rest)))

end

theorem oneLine_dumps (entries : List (String × Json)) : OneLine (dumps entries) := by
  intro c hc
  have h := printable_valueText (.obj entries) c hc
  simp only [breaks, decide_eq_false_iff_not]
  omega

/-- JSON objects, one to a line. -/
def jsonLines : Codec (List (String × Json)) where
  dumps := dumps
  loads := loads
  loads_dumps := loads_dumps
  starts := by
    intro entries
    obtain ⟨rest, hstart⟩ := dumps_start entries
    exact ⟨'{', rest, hstart, by decide⟩
  oneLine := oneLine_dumps
  torn := loads_torn
  extra := loads_extra

end JsonDocuments
