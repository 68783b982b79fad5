import Mathlib

/-!
# Files of one record a line

Every record is appended to a text file as its text and a line feed, and a reader
takes the lines that show something. A file whose writer was stopped ends in the
beginning of a line; a writer that goes on from there glues the next record to it.
-/

namespace LineFiles

/-! ### Lines -/

/-- Where `str.splitlines` ends a line. -/
def breaks (c : Char) : Bool :=
  decide (10 ≤ c.toNat ∧ c.toNat ≤ 13 ∨ 28 ≤ c.toNat ∧ c.toNat ≤ 30 ∨ c.toNat = 133 ∨
    c.toNat = 8232 ∨ c.toNat = 8233)

/-- What `str.strip` takes off. -/
def blank (c : Char) : Bool :=
  decide (9 ≤ c.toNat ∧ c.toNat ≤ 13 ∨ 28 ≤ c.toNat ∧ c.toNat ≤ 32 ∨ c.toNat = 133 ∨
    c.toNat = 160 ∨ c.toNat = 5760 ∨ 8192 ≤ c.toNat ∧ c.toNat ≤ 8202 ∨ c.toNat = 8232 ∨
    c.toNat = 8233 ∨ c.toNat = 8239 ∨ c.toNat = 8287 ∨ c.toNat = 12288)

/-- `text.splitlines()`. A carriage return before a line feed ends a line of its own; the
empty line after it shows nothing. -/
def splitLines : List Char → List (List Char)
  | [] => []
  | c :: rest =>
    if breaks c then [] :: splitLines rest
    else
      match splitLines rest with
      | [] => [[c]]
      | line :: lines => (c :: line) :: lines

/-- `[line for line in text.splitlines() if line.strip()]`. -/
def visibleLines (text : List Char) : List (List Char) :=
  (splitLines text).filter fun line => line.any fun c => !blank c

/-- A text on one line, which `splitlines` takes whole. -/
def OneLine (text : List Char) : Prop := ∀ c ∈ text, breaks c = false

section Splitting

variable {text later : List Char}

theorem splitLines_cons {c : Char} (hc : breaks c = false) :
    splitLines (c :: later) = match splitLines later with
      | [] => [[c]]
      | line :: lines => (c :: line) :: lines := by
  rw [splitLines, if_neg (by simp [hc])]

theorem splitLines_ended (h : OneLine text) :
    splitLines (text ++ '\n' :: later) = text :: splitLines later := by
  induction text with
  | nil => rfl
  | cons c text ih =>
    have hc := h c List.mem_cons_self
    have hrest := ih fun d hd => h d (List.mem_cons_of_mem c hd)
    rw [List.cons_append, splitLines_cons hc, hrest]

theorem splitLines_last (h : OneLine text) (hne : text ≠ []) : splitLines text = [text] := by
  induction text with
  | nil => exact absurd rfl hne
  | cons c text ih =>
    have hc := h c List.mem_cons_self
    rw [splitLines_cons hc]
    by_cases htext : text = []
    · rw [htext]
      rfl
    · rw [ih (fun d hd => h d (List.mem_cons_of_mem c hd)) htext]

theorem splitLines_eq_nil (h : splitLines text = []) : text = [] := by
  cases text with
  | nil => rfl
  | cons c text =>
    rw [splitLines] at h
    split at h
    · cases h
    · split at h <;> cases h

/-- Joining two texts joins at most two lines. -/
theorem length_splitLines_append_le (text later : List Char) :
    (splitLines (text ++ later)).length ≤
      (splitLines text).length + (splitLines later).length := by
  induction text with
  | nil => simp [splitLines]
  | cons c text ih =>
    cases hc : breaks c with
    | true =>
      simp only [List.cons_append, splitLines, hc, if_true, List.length_cons]
      omega
    | false =>
      rw [List.cons_append, splitLines_cons hc, splitLines_cons hc]
      cases htext : splitLines text with
      | nil =>
        rw [splitLines_eq_nil htext, List.nil_append]
        cases splitLines later <;> simp
      | cons line lines =>
        rw [htext, List.length_cons] at ih
        cases hall : splitLines (text ++ later) with
        | nil =>
          simp only [List.length_cons, List.length_nil]
          omega
        | cons line' lines' =>
          rw [hall, List.length_cons] at ih
          simp only [List.length_cons]
          omega

/-- A line that was not ended takes in the next one. -/
theorem length_splitLines_glued (h : OneLine text) (hlater : later ≠ []) :
    (splitLines (text ++ later)).length = (splitLines later).length := by
  induction text with
  | nil => rfl
  | cons d text ih =>
    have hd := h d List.mem_cons_self
    have hrest := ih fun e he => h e (List.mem_cons_of_mem d he)
    rw [List.cons_append, splitLines_cons hd]
    cases hall : splitLines (text ++ later) with
    | nil => exact absurd (List.append_eq_nil_iff.mp (splitLines_eq_nil hall)).2 hlater
    | cons line lines =>
      rw [← hrest, hall]
      rfl

end Splitting

/-! ### Records and their texts -/

/-- A writer of records and its reader. The text of a record stands on one line and shows
where it ends: one that was torn, or runs on, is no record. -/
structure Codec (ρ : Type) where
  dumps : ρ → List Char
  loads : List Char → Option ρ
  loads_dumps : ∀ r, loads (dumps r) = some r
  starts : ∀ r, ∃ c rest, dumps r = c :: rest ∧ blank c = false
  oneLine : ∀ r, OneLine (dumps r)
  torn : ∀ r text, text <+: dumps r → text ≠ dumps r → loads text = none
  extra : ∀ r c rest, blank c = false → loads (dumps r ++ c :: rest) = none

namespace Codec

variable {ρ : Type} (J : Codec ρ)

def line (r : ρ) : List Char := J.dumps r ++ ['\n']

def written (rs : List ρ) : List Char := rs.flatMap J.line

/-- `[json.loads(line) for line in text.splitlines() if line.strip()]`. -/
def readAll (text : List Char) : Option (List ρ) := (visibleLines text).mapM J.loads

variable {J} {r : ρ} {rs : List ρ} {text later : List Char}

@[simp] theorem written_nil : J.written [] = [] := rfl

theorem written_append (rs rs' : List ρ) :
    J.written (rs ++ rs') = J.written rs ++ J.written rs' :=
  List.flatMap_append

theorem dumps_ne_nil (r : ρ) : J.dumps r ≠ [] := by
  obtain ⟨c, rest, htext, _⟩ := J.starts r
  rw [htext]
  exact List.cons_ne_nil c rest

/-- Whatever was written of a record shows. -/
theorem begins (h : text <+: J.dumps r) (hne : text ≠ []) :
    ∃ c rest, text = c :: rest ∧ blank c = false := by
  obtain ⟨c, rest, htext, hc⟩ := J.starts r
  cases text with
  | nil => exact absurd rfl hne
  | cons d text =>
    rw [htext, List.cons_prefix_cons] at h
    exact ⟨d, text, rfl, h.1 ▸ hc⟩

theorem oneLine_of_start (h : text <+: J.dumps r) : OneLine text :=
  fun c hc => J.oneLine r c (h.subset hc)

theorem visibleLines_cons {line : List Char} {lines : List (List Char)}
    (hsplit : splitLines text = line :: lines) {c : Char} {rest : List Char}
    (hline : line = c :: rest) (hc : blank c = false) :
    visibleLines text = line :: lines.filter fun line => line.any fun c => !blank c := by
  rw [visibleLines, hsplit, List.filter_cons_of_pos]
  simp [hline, hc]

theorem readAll_nil : J.readAll [] = some [] := rfl

/-- A line that was written whole is one record. -/
theorem readAll_line (r : ρ) (later : List Char) :
    J.readAll (J.line r ++ later) = (J.readAll later).map (r :: ·) := by
  obtain ⟨c, rest, htext, hc⟩ := J.starts r
  have hsplit : splitLines (J.line r ++ later) = J.dumps r :: splitLines later := by
    rw [line, List.append_assoc, List.singleton_append, splitLines_ended (J.oneLine r)]
  rw [readAll, visibleLines_cons hsplit htext hc, List.mapM_cons, J.loads_dumps]
  change (J.readAll later >>= fun rs => some (r :: rs)) = _
  cases J.readAll later <;> rfl

theorem readAll_written_append (rs : List ρ) (later : List Char) :
    J.readAll (J.written rs ++ later) = (J.readAll later).map (rs ++ ·) := by
  induction rs with
  | nil => simp [written]
  | cons r rs ih =>
    change J.readAll (J.line r ++ J.written rs ++ later) = _
    rw [List.append_assoc, readAll_line, ih, Option.map_map]
    rfl

theorem readAll_written (rs : List ρ) : J.readAll (J.written rs) = some rs := by
  have h := readAll_written_append (J := J) rs []
  simpa [readAll_nil] using h

/-- The last line need not be ended. -/
theorem readAll_dumps (r : ρ) : J.readAll (J.dumps r) = some [r] := by
  obtain ⟨c, rest, htext, hc⟩ := J.starts r
  have hsplit := splitLines_last (J.oneLine r) (dumps_ne_nil r)
  rw [readAll, visibleLines_cons hsplit htext hc, List.mapM_cons, J.loads_dumps]
  rfl

/-- One line that is no record spoils the file. -/
theorem readAll_none {line : List Char} {lines : List (List Char)} {c : Char} {rest : List Char}
    (hsplit : splitLines text = line :: lines) (hline : line = c :: rest)
    (hc : blank c = false) (hloads : J.loads line = none) : J.readAll text = none := by
  rw [readAll, visibleLines_cons hsplit hline hc, List.mapM_cons, hloads]
  rfl

theorem readAll_torn (h : text <+: J.dumps r) (hne : text ≠ []) (hshort : text ≠ J.dumps r) :
    J.readAll text = none := by
  obtain ⟨c, rest, htext, hc⟩ := begins h hne
  exact readAll_none (splitLines_last (oneLine_of_start h) hne) htext hc (J.torn r text h hshort)

/-- What goes on after a record that was not ended is glued to it. -/
theorem readAll_glued {r' : ρ} (h : text <+: J.dumps r') (hne : text ≠ [])
    (hlater : later = [] ∨ ∃ more, later = '\n' :: more) :
    J.readAll (J.dumps r ++ (text ++ later)) = none := by
  obtain ⟨c, rest, htext, hc⟩ := begins h hne
  obtain ⟨d, start, hstart, hd⟩ := J.starts r
  have hline : OneLine (J.dumps r ++ text) := by
    intro e he
    rcases List.mem_append.mp he with he | he
    · exact J.oneLine r e he
    · exact oneLine_of_start h e he
  have hloads : J.loads (J.dumps r ++ text) = none := by
    rw [htext]
    exact J.extra r c rest hc
  have hshown : J.dumps r ++ text = d :: (start ++ text) := by rw [hstart, List.cons_append]
  rw [← List.append_assoc]
  rcases hlater with rfl | ⟨more, rfl⟩
  · rw [List.append_nil]
    exact readAll_none (splitLines_last hline (by simp [hshown])) hshown hd hloads
  · exact readAll_none (splitLines_ended hline) hshown hd hloads

/-- The beginning of a file: some records whole, and the beginning of the next one. -/
theorem cut_written (h : text <+: J.written rs) :
    ∃ done rest u, rs = done ++ rest ∧ text = J.written done ++ u ∧
      (u = [] ∨ ∃ r more, rest = r :: more ∧ u <+: J.dumps r ∧ u ≠ []) := by
  induction rs generalizing text with
  | nil => exact ⟨[], [], [], rfl, List.prefix_nil.mp h, Or.inl rfl⟩
  | cons r rs ih =>
    have hall : text <+: J.line r ++ J.written rs := h
    rcases List.prefix_or_prefix_of_prefix hall (List.prefix_append _ _) with hline | hline
    · rcases List.prefix_concat_iff.mp hline with rfl | hbegun
      · exact ⟨[r], rs, [], rfl, by simp [written, line], Or.inl rfl⟩
      · by_cases hne : text = []
        · exact ⟨[], r :: rs, [], rfl, hne, Or.inl rfl⟩
        · exact ⟨[], r :: rs, text, rfl, rfl, Or.inr ⟨r, rs, rfl, hbegun, hne⟩⟩
    · obtain ⟨more, rfl⟩ := hline
      rw [List.prefix_append_right_inj] at hall
      obtain ⟨done, rest, u, rfl, rfl, hend⟩ := ih hall
      refine ⟨r :: done, rest, u, rfl, ?_, hend⟩
      rw [← List.append_assoc]
      rfl

/-- What was written after a record that was not ended is glued to it. -/
theorem readAll_glued_written (h : text <+: J.written rs) (hne : text ≠ []) (r : ρ) :
    J.readAll (J.dumps r ++ text) = none := by
  obtain ⟨done, rest, u, _, rfl, hend⟩ := cut_written h
  cases done with
  | nil =>
    rcases hend with rfl | ⟨r', more, _, hstarts, hbegun⟩
    · exact absurd rfl hne
    · have hglued := readAll_glued (r := r) hstarts hbegun (Or.inl rfl)
      rwa [List.append_nil] at hglued
  | cons r' done =>
    have hsplit : J.written (r' :: done) ++ u = J.dumps r' ++ '\n' :: (J.written done ++ u) := by
      simp [written, line]
    rw [hsplit]
    exact readAll_glued (List.prefix_refl _) (dumps_ne_nil r') (Or.inr ⟨_, rfl⟩)

/-- A file holds no more records than lines. -/
theorem length_le_of_readAll (h : J.readAll text = some rs) :
    rs.length ≤ (splitLines text).length := by
  have hlength : ∀ (lines : List (List Char)) (rs : List ρ), lines.mapM J.loads = some rs →
      rs.length = lines.length := by
    intro lines
    induction lines with
    | nil =>
      intro rs h
      cases h
      rfl
    | cons line lines ih =>
      intro rs h
      rw [List.mapM_cons] at h
      cases hline : J.loads line with
      | none =>
        rw [hline] at h
        cases h
      | some r =>
        cases hlines : lines.mapM J.loads with
        | none =>
          rw [hline, hlines] at h
          cases h
        | some rest =>
          rw [hline, hlines] at h
          cases h
          simp [ih rest hlines]
  rw [hlength _ rs h]
  exact List.length_filter_le _ _

theorem length_splitLines_written_append (rs : List ρ) (later : List Char) :
    (splitLines (J.written rs ++ later)).length = rs.length + (splitLines later).length := by
  induction rs with
  | nil => simp [written]
  | cons r rs ih =>
    change (splitLines (J.line r ++ J.written rs ++ later)).length = _
    rw [line, List.append_assoc, List.append_assoc, List.singleton_append,
      splitLines_ended (J.oneLine r), List.length_cons, ih, List.length_cons]
    omega

end Codec

end LineFiles
