import Interlock.FloatRounding

/-!
# Python values, exceptions and effects

The pieces of the host language that the agent's code leans on: JSON values as
`json.loads` returns them, truth values, the lax coercions of typed inputs,
`str.split` with a limit of one, and computations that act on a world and may
raise. A computation that raises keeps the world it had reached.
-/

namespace PythonValues

open FloatRounding (nearest plus)

/-- A decoded JSON document; integers and floats stay apart, and the decoder
also accepts the three non-finite literals. A float is kept as the number that it was
written as, and stands for the double nearest to that. -/
inductive Json where
  | null
  | bool (b : Bool)
  | int (n : Int)
  | float (x : ℚ)
  | nan
  | infinity (negative : Bool)
  | str (s : String)
  | arr (items : List Json)
  | obj (items : List (String × Json))

/-- The exceptions the modelled code can raise. -/
inductive PyError where
  | keyError (key : String)
  | valueError (message : String)
  | typeError (message : String)
  | attributeError (message : String)
  | validationError (model field : String)
  | httpStatusError (status : Nat)
  deriving DecidableEq, Repr

/-- Acting on a world of type `W`, with exceptions. -/
structure Action (W : Type) (α : Type) where
  run : W → Except PyError α × W

namespace Action

variable {W α β : Type}

instance : Monad (Action W) where
  pure a := ⟨fun w => (.ok a, w)⟩
  bind x f := ⟨fun w =>
    match x.run w with
    | (.ok a, w') => (f a).run w'
    | (.error e, w') => (.error e, w')⟩

/-- A computation that looks at no world. -/
def lift (x : Except PyError α) : Action W α := ⟨fun w => (x, w)⟩

/-- A read, which changes nothing. -/
def read (f : W → Except PyError α) : Action W α := ⟨fun w => (f w, w)⟩

@[simp] theorem run_pure (a : α) (w : W) : (pure a : Action W α).run w = (.ok a, w) := rfl

theorem run_bind (x : Action W α) (f : α → Action W β) (w : W) :
    (x >>= f).run w = match x.run w with
      | (.ok a, w') => (f a).run w'
      | (.error e, w') => (.error e, w') := rfl

theorem run_bind_of_ok {x : Action W α} {f : α → Action W β} {a : α} {w w' : W}
    (h : x.run w = (.ok a, w')) : (x >>= f).run w = (f a).run w' := by
  rw [run_bind, h]

theorem run_bind_of_error {x : Action W α} {f : α → Action W β} {e : PyError} {w w' : W}
    (h : x.run w = (.error e, w')) : (x >>= f).run w = (.error e, w') := by
  rw [run_bind, h]

/-- Peeling a sequence of computations that returned. -/
theorem run_bind_ok_iff {x : Action W α} {f : α → Action W β} {b : β} {w w'' : W} :
    (x >>= f).run w = (.ok b, w'') ↔
      ∃ a w', x.run w = (.ok a, w') ∧ (f a).run w' = (.ok b, w'') := by
  rw [run_bind]
  cases hx : x.run w with
  | mk r w' =>
    cases r with
    | ok a =>
      constructor
      · intro h; exact ⟨a, w', rfl, h⟩
      · rintro ⟨a', w₁, heq, h⟩
        cases heq
        exact h
    | error e =>
      constructor
      · intro h; cases h
      · rintro ⟨a', w₁, heq, _⟩
        cases heq

@[simp] theorem run_lift (x : Except PyError α) (w : W) : (lift x).run w = (x, w) := rfl

@[simp] theorem run_read (f : W → Except PyError α) (w : W) : (read f).run w = (f w, w) := rfl

end Action

/-- Peeling a computation that returned. -/
theorem except_bind_ok_iff {α β : Type} {x : Except PyError α} {f : α → Except PyError β} {b : β} :
    (x >>= f) = .ok b ↔ ∃ a, x = .ok a ∧ f a = .ok b := by
  cases x with
  | ok a => simp [bind, Except.bind]
  | error e => simp [bind, Except.bind]

/-- A result that returned is its value. -/
theorem eq_ok_of_toOption {α : Type} {x : Except PyError α} {a : α} (h : x.toOption = some a) :
    x = .ok a := by
  cases x with
  | error e => cases h
  | ok b => exact congrArg Except.ok (Option.some.inj h)

theorem eq_of_toOption {α : Type} {x y : Except PyError α} (h : x.toOption = y.toOption)
    (hok : x.toOption.isSome = true) : x = y := by
  cases x with
  | error e => cases hok
  | ok a =>
    cases y with
    | error e => cases h
    | ok b =>
      cases h
      rfl

namespace Json

/-- `bool(value)`. -/
def truthy : Json → Bool
  | null => false
  | bool b => b
  | int n => n != 0
  | float x => nearest x != 0
  | nan => true
  | infinity _ => true
  | str s => s != ""
  | arr items => !items.isEmpty
  | obj items => !items.isEmpty

/-- `value == text`. -/
def isStr (j : Json) (text : String) : Bool :=
  match j with
  | str s => s == text
  | _ => false

/-- `value is False`. -/
def isFalse : Json → Bool
  | bool b => !b
  | _ => false

/-- The value under a key of an object's items. -/
def item : List (String × Json) → String → Option Json
  | [], _ => none
  | (k, v) :: rest, key => if k = key then some v else item rest key

/-- `value.get(key)`; only dictionaries have the method. -/
def get (j : Json) (key : String) : Except PyError (Option Json) :=
  match j with
  | obj items => .ok (item items key)
  | _ => .error (.attributeError "object has no attribute 'get'")

/-- `value[key]` with a string key. -/
def getItem (j : Json) (key : String) : Except PyError Json :=
  match j with
  | obj items =>
    match item items key with
    | some v => .ok v
    | none => .error (.keyError key)
  | str _ => .error (.typeError "string indices must be integers")
  | arr _ => .error (.typeError "list indices must be integers or slices")
  | _ => .error (.typeError "object is not subscriptable")

/-- `value + 1` for the numbers of a decoded document. -/
def addOne : Json → Except PyError Json
  | bool b => .ok (int (if b then 2 else 1))
  | int n => .ok (int (n + 1))
  | float x => .ok (float (plus x 1))
  | nan => .ok nan
  | infinity negative => .ok (infinity negative)
  | _ => .error (.typeError "unsupported operand type(s) for +")

/-- `value >= bound`. -/
def atLeast (j : Json) (bound : Int) : Except PyError Bool :=
  match j with
  | bool b => .ok (decide (bound ≤ if b then 1 else 0))
  | int n => .ok (decide (bound ≤ n))
  | float x => .ok (decide ((bound : ℚ) ≤ nearest x))
  | nan => .ok false
  | infinity negative => .ok (!negative)
  | _ => .error (.typeError "'>=' not supported between these instances")

theorem isStr_iff {j : Json} {text : String} : j.isStr text = true ↔ j = .str text := by
  cases j <;> simp [isStr]

theorem any_isStr_iff {x : Option Json} {text : String} :
    x.any (·.isStr text) = true ↔ x = some (.str text) := by
  cases x with
  | none => simp
  | some j => simp [isStr_iff]

end Json

/-! ### Typed inputs

Typed models accept more than their declared type: an integer field also takes
a boolean, a float without a fractional part that fits in 64 bits, and a numeral in a string. -/

/-- The characters with the Unicode property `White_Space`. -/
def isWhiteSpace (c : Char) : Bool :=
  c.toNat ∈ [0x20, 0x85, 0xA0, 0x1680, 0x2028, 0x2029, 0x202F, 0x205F, 0x3000] ||
    (0x09 ≤ c.toNat && c.toNat ≤ 0x0D) || (0x2000 ≤ c.toNat && c.toNat ≤ 0x200A)

def strip (cs : List Char) : List Char :=
  ((cs.dropWhile isWhiteSpace).reverse.dropWhile isWhiteSpace).reverse

/-- What follows leading zeros, among which underscores may stand; of zeros alone, or before a
point, the last one is kept. -/
def afterZeros (last : Char) : List Char → Option (List Char)
  | [] => some [last]
  | c :: rest =>
    if c = '0' ∨ c = '_' then afterZeros c rest
    else if c = '.' then some (last :: c :: rest)
    else if c.isDigit ∨ c = '-' then some (c :: rest)
    else none

def stripLeadingZeros : List Char → Option (List Char)
  | [] => none
  | c :: rest =>
    if c = '0' then afterZeros c rest
    else if c.isDigit ∨ c = '-' then some (c :: rest)
    else none

/-- A numeral without its fraction, if that is all zeros. -/
def stripDecimalZeros (cs : List Char) : List Char :=
  let fraction := (cs.dropWhile (· ≠ '.')).drop 1
  if fraction ≠ [] ∧ fraction.all (· = '0') then cs.takeWhile (· ≠ '.') else cs

/-- A numeral without its underscores, if each stands between other characters. -/
def stripUnderscores (cs : List Char) : List Char :=
  if cs.head? = some '_' ∨ cs.getLast? = some '_' ∨ ['_', '_'] <:+: cs then cs
  else cs.filter (· ≠ '_')

/-- Digits without a needless zero in front. -/
def natOfDigits (ds : List Char) : Option Nat :=
  if ds ≠ [] ∧ ds.all Char.isDigit ∧ (ds.head? = some '0' → ds = ['0']) then
    some (Nat.ofDigitChars 10 ds 0)
  else none

/-- The integer of a JSON document, of at most 4300 characters. -/
def jsonInt (cs : List Char) : Option Int :=
  if 4300 < cs.length then none
  else
    match cs with
    | '-' :: ds => (natOfDigits ds).map fun n => -(n : Int)
    | ds => (natOfDigits ds).map Int.ofNat

def cleanedInt (cs : List Char) : Option Int := jsonInt (stripUnderscores (stripDecimalZeros cs))

/-- The numerals that an integer field takes: with white space around, a sign, leading zeros,
single underscores, and a fraction of zeros. -/
def intOfText (s : String) : Option Int :=
  match strip s.toList with
  | '+' :: '-' :: _ => none
  | '+' :: rest => (stripLeadingZeros rest).bind cleanedInt
  | '-' :: rest => (stripLeadingZeros rest).bind fun digits => cleanedInt ('-' :: digits)
  | cs => (stripLeadingZeros cs).bind cleanedInt

/-- The integer that a float is, if it is one of less than 64 bits. -/
def intOfFloat (x : ℚ) : Option Int :=
  let value := nearest x
  if value.den = 1 ∧ |value| < 2 ^ 63 then some value.num else none

/-- A field with the value that was read, or its error. -/
def validated {α : Type} (model field : String) : Option α → Except PyError α
  | some a => .ok a
  | none => .error (.validationError model field)

theorem validated_ok_iff {α : Type} {model field : String} {x : Option α} :
    (∃ a, validated model field x = .ok a) ↔ x.isSome = true := by
  cases x with
  | some a => exact iff_of_true ⟨a, rfl⟩ rfl
  | none => exact iff_of_false (by rintro ⟨_, h⟩; cases h) (by simp)

/-- Validation of an integer field. -/
def asInt (model field : String) : Json → Except PyError Int
  | .bool b => .ok (if b then 1 else 0)
  | .int n => .ok n
  | .float x => validated model field (intOfFloat x)
  | .str s => validated model field (intOfText s)
  | _ => .error (.validationError model field)

example : ["5\u000b", "\u00a05", " -1_0.0 ", "0_42", "+7"].map intOfText =
    [some 5, some 5, some (-10), some 42, some 7] := by decide +kernel

example : ["1.", "1__0", "+-1", "5e0", ""].map intOfText = List.replicate 5 none := by
  decide +kernel

/-- Validation of a string field, which coerces nothing. -/
def asStr (model field : String) : Json → Except PyError String
  | .str s => .ok s
  | _ => .error (.validationError model field)

/-- Validation of an optional string field; an absent value is `None`. -/
def asOptionalStr (model field : String) : Option Json → Except PyError (Option String)
  | none => .ok none
  | some .null => .ok none
  | some j => (asStr model field j).map some

/-- Validation of an optional list of integers. -/
def asOptionalInts (model field : String) : Option Json → Except PyError (Option (List Int))
  | none => .ok none
  | some .null => .ok none
  | some (.arr items) => (items.mapM (asInt model field)).map some
  | some _ => .error (.validationError model field)

/-! ### Strings -/

/-- Characters before and after the first colon. -/
def cutAtColon : List Char → Option (List Char × List Char)
  | [] => none
  | c :: rest => if c = ':' then some ([], rest) else (cutAtColon rest).map fun p => (c :: p.1, p.2)

/-- `left, right = text.split(":", 1)`. -/
def splitColon (text : String) : Except PyError (String × String) :=
  match cutAtColon text.toList with
  | some (left, right) => .ok (String.ofList left, String.ofList right)
  | none => .error (.valueError "not enough values to unpack (expected 2, got 1)")

theorem cutAtColon_append (left right : List Char) :
    ∃ p, cutAtColon (left ++ ':' :: right) = some p := by
  induction left with
  | nil => exact ⟨_, rfl⟩
  | cons c rest ih =>
    obtain ⟨p, hp⟩ := ih
    by_cases hc : c = ':'
    · exact ⟨([], rest ++ ':' :: right), by simp [cutAtColon, hc]⟩
    · exact ⟨(c :: p.1, p.2), by simp [cutAtColon, hc, hp]⟩

theorem cutAtColon_exact {left : List Char} (right : List Char) (h : ':' ∉ left) :
    cutAtColon (left ++ ':' :: right) = some (left, right) := by
  induction left with
  | nil => rfl
  | cons c rest ih =>
    rw [List.mem_cons, not_or] at h
    simp [cutAtColon, Ne.symm h.1, ih h.2]

theorem cutAtColon_eq {cs left right : List Char} (h : cutAtColon cs = some (left, right)) :
    cs = left ++ ':' :: right := by
  induction cs generalizing left with
  | nil => cases h
  | cons c rest ih =>
    by_cases hc : c = ':'
    · simp only [cutAtColon, if_pos hc, Option.some.injEq, Prod.mk.injEq] at h
      rw [← h.1, ← h.2, hc, List.nil_append]
    · simp only [cutAtColon, if_neg hc, Option.map_eq_some_iff, Prod.mk.injEq, Prod.exists] at h
      obtain ⟨l, r, hrest, hl, hr⟩ := h
      subst hl hr
      rw [List.cons_append, ← ih hrest]

/-- A text built around a colon always splits. -/
theorem splitColon_join (left right : String) :
    ∃ p, splitColon (left ++ ":" ++ right) = .ok p := by
  obtain ⟨p, hp⟩ := cutAtColon_append left.toList right.toList
  refine ⟨(String.ofList p.1, String.ofList p.2), ?_⟩
  have hl : (left ++ ":" ++ right).toList = left.toList ++ ':' :: right.toList := by simp
  simp only [splitColon, hl, hp]

theorem splitColon_exact {left : String} (right : String) (h : ':' ∉ left.toList) :
    splitColon (left ++ ":" ++ right) = .ok (left, right) := by
  have hlist : (left ++ ":" ++ right).toList = left.toList ++ ':' :: right.toList := by simp
  rw [splitColon, hlist, cutAtColon_exact _ h]
  simp

theorem splitColon_eq {text left right : String} (h : splitColon text = .ok (left, right)) :
    text = left ++ ":" ++ right := by
  unfold splitColon at h
  cases hc : cutAtColon text.toList with
  | none => simp [hc] at h
  | some p =>
    obtain ⟨l, r⟩ := p
    simp only [hc, Except.ok.injEq, Prod.mk.injEq] at h
    rw [← String.toList_inj, cutAtColon_eq hc, ← h.1, ← h.2]
    simp

/-- `repr` of a string of printable characters and control characters below 128:
single quotes unless only they occur inside. -/
def reprChar (quote : Char) (c : Char) : List Char :=
  if c = quote ∨ c = '\\' then ['\\', c]
  else if c = '\n' then ['\\', 'n']
  else if c = '\r' then ['\\', 'r']
  else if c = '\t' then ['\\', 't']
  else if c.toNat < 32 ∨ c.toNat = 127 then
    ['\\', 'x', Nat.digitChar (c.toNat / 16), Nat.digitChar (c.toNat % 16)]
  else [c]

def pyRepr (s : String) : String :=
  let single := Char.ofNat 39
  let double := Char.ofNat 34
  let quote := if single ∈ s.toList ∧ double ∉ s.toList then double else single
  String.ofList (quote :: s.toList.flatMap (reprChar quote) ++ [quote])

/-- `", ".join(parts)`. -/
def joinComma : List String → String
  | [] => ""
  | [s] => s
  | s :: rest => s ++ ", " ++ joinComma rest

def pyReprList (parts : List String) : String :=
  "[" ++ joinComma (parts.map pyRepr) ++ "]"

end PythonValues
