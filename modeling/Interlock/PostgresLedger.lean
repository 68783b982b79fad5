import Interlock.CanonicalJson
import Interlock.Dictionary
import Interlock.Tools

/-!
# Two ledgers behind one protocol

The idempotency ledger in memory hands back the dictionaries it was given. The one in
Postgres encodes them, and hands back what the driver makes of a JSONB column, which is
a text as long as no codec is registered.
-/

namespace PostgresLedger

open Dictionary PythonValues CanonicalJson

/-! ### Encoding -/

mutual

/-- `json.dumps(value)`. -/
def valueChars : Json → List Char
  | .null => "null".toList
  | .bool b => (if b then "true" else "false").toList
  | .int n => intText n
  | .float x => floatText x
  | .nan => "NaN".toList
  | .infinity negative => (if negative then "-Infinity" else "Infinity").toList
  | .str s => strText s
  | .arr items => '[' :: itemChars items
  | .obj members => '{' :: memberChars members

def itemChars : List Json → List Char
  | [] => [']']
  | [value] => valueChars value ++ [']']
  | value :: rest => valueChars value ++ ',' :: ' ' :: itemChars rest

def memberChars : List (String × Json) → List Char
  | [] => ['}']
  | [(key, value)] => strText key ++ ':' :: ' ' :: valueChars value ++ ['}']
  | (key, value) :: rest =>
    strText key ++ ':' :: ' ' :: valueChars value ++ ',' :: ' ' :: memberChars rest

end

def jsonDumps (value : Json) : String := String.ofList (valueChars value)

example : jsonDumps (.obj [("status", .str "healthy"), ("ids", .arr [.int 3, .null])]) =
    "\x7b\"status\": \"healthy\", \"ids\": [3, null]\x7d" := by
  decide +kernel

/-! ### The two stores -/

/-- The items of a dictionary that can be encoded. -/
abbrev Payload : Type := List (String × Json)

/-- What `get` returns for a recorded key. -/
structure StoredRow where
  toolName : String
  args : Json
  result : Json
  compensation : Json

/-- `ExecutedActionsStore`. -/
structure ExecutedActionsStore (σ : Type) where
  get : String → σ → Option StoredRow
  record : String → String → Payload → Payload → Payload → Action σ Unit

def inMemory : ExecutedActionsStore (Dict String StoredRow) where
  get := fun key rows => rows.get? key
  record := fun key toolName args result compensation => ⟨fun rows =>
    (.ok (), rows.setdefault key ⟨toolName, .obj args, .obj result, .obj compensation⟩)⟩

/-- The column type as the server has it: what it makes of a text, which it may refuse,
and the text that it gives back. -/
structure Jsonb (δ : Type) where
  parse : String → Except PyError δ
  text : δ → String

structure Columns (δ : Type) where
  toolName : String
  args : δ
  result : δ
  compensation : δ

/-- The row as the driver returns it, each JSONB column as its text. -/
def Columns.fetched {δ : Type} (jsonb : Jsonb δ) (row : Columns δ) : StoredRow where
  toolName := row.toolName
  args := .str (jsonb.text row.args)
  result := .str (jsonb.text row.result)
  compensation := .str (jsonb.text row.compensation)

/-- `INSERT ... ON CONFLICT (idempotency_key) DO NOTHING`. -/
def insertRow {δ : Type} (key : String) (row : Columns δ) : Action (Dict String (Columns δ)) Unit :=
  ⟨fun table => (.ok (), table.setdefault key row)⟩

def postgres {δ : Type} (jsonb : Jsonb δ) : ExecutedActionsStore (Dict String (Columns δ)) where
  get := fun key table => (table.get? key).map (Columns.fetched jsonb)
  record := fun key toolName args result compensation => do
    let args ← Action.lift (jsonb.parse (jsonDumps (.obj args)))
    let result ← Action.lift (jsonb.parse (jsonDumps (.obj result)))
    let compensation ← Action.lift (jsonb.parse (jsonDumps (.obj compensation)))
    insertRow key ⟨toolName, args, result, compensation⟩

/-! ### The wrapper over a store -/

/-- A field `dict` of a typed model. -/
def asDict (model field : String) : Json → Except PyError Payload
  | .obj members => .ok members
  | _ => .error (.validationError model field)

structure MutationResult where
  tool : String
  idempotencyKey : String
  idempotentReplay : Bool
  result : Payload
  compensation : Payload

/-- `_run_idempotent`, for a side effect that answers `performed`. -/
def runIdempotent {σ : Type} (store : ExecutedActionsStore σ) (toolName key : String)
    (args : Payload) (performed : Except PyError (Payload × Payload)) : Action σ MutationResult := do
  match ← (⟨fun s => (.ok (store.get key s), s)⟩ : Action σ (Option StoredRow)) with
  | some existing =>
    return {
      tool := toolName
      idempotencyKey := key
      idempotentReplay := true
      result := ← Action.lift (asDict "MutationResult" "result" existing.result)
      compensation := ← Action.lift (asDict "MutationResult" "compensation" existing.compensation) }
  | none =>
    let (result, compensation) ← Action.lift performed
    store.record key toolName args result compensation
    return {
      tool := toolName
      idempotencyKey := key
      idempotentReplay := false
      result := result
      compensation := compensation }

/-! ### The ledger of the tools

The tools keep typed entries in their ledger. Written as dictionaries, in whatever way, they
are what the wrapper over the store in memory keeps and answers.
-/

section Written

open Tools (ToolContext ToolCall Outcome LedgerEntry)

/-- How calls, results and compensations are written. -/
structure Written where
  args : ToolCall → Payload
  result : Tools.ExecutionResult → Payload
  compensation : Tools.Compensation → Payload

variable (d : Written)

def Written.row (entry : LedgerEntry) : StoredRow :=
  ⟨entry.toolName, .obj (d.args entry.args), .obj (d.result entry.result),
    .obj (d.compensation entry.compensation)⟩

def Written.performed (outcome : Outcome) : Payload × Payload :=
  (d.result outcome.result, d.compensation outcome.compensation)

def Written.answer (m : Tools.MutationResult) : MutationResult :=
  ⟨m.tool, m.idempotencyKey, m.idempotentReplay, d.result m.result, d.compensation m.compensation⟩

/-- The rows are the written entries of the ledger. -/
def Written.Keeps (rows : Dict String StoredRow) (w : ToolContext) : Prop :=
  ∀ key, rows.get? key = (w.store.get? key).map d.row

theorem tool_over_inMemory {rows : Dict String StoredRow} {w : ToolContext} (h : d.Keeps rows w)
    (call : ToolCall) (key : String) :
    ∃ rows', (runIdempotent inMemory call.toolName key (d.args call)
        ((call.perform.run w).1.map d.performed)).run rows =
          (((call.run key).run w).1.map d.answer, rows') ∧
      d.Keeps rows' ((call.run key).run w).2 := by
  have hlookup := h key
  cases hentry : w.store.get? key with
  | some entry =>
    rw [hentry] at hlookup
    refine ⟨rows, ?_, ?_⟩
    · rw [ToolCall.run_eq, Tools.runIdempotent_hit hentry]
      simp only [runIdempotent, Action.run_bind, inMemory, hlookup]
      rfl
    · rw [ToolCall.run_eq, Tools.runIdempotent_hit hentry]
      exact h
  | none =>
    rw [hentry] at hlookup
    cases hperform : call.perform.run w with
    | mk answer performed =>
      have hstore : performed.store = w.store := Tools.perform_store hperform
      cases answer with
      | error e =>
        refine ⟨rows, ?_, ?_⟩
        · rw [ToolCall.run_eq, Tools.runIdempotent_raise hentry hperform]
          simp only [runIdempotent, Action.run_bind, inMemory, hlookup]
          rfl
        · rw [ToolCall.run_eq, Tools.runIdempotent_raise hentry hperform]
          intro other
          rw [hstore]
          exact h other
      | ok outcome =>
        refine ⟨rows.setdefault key (d.row (call.entry outcome)), ?_, ?_⟩
        · rw [ToolCall.run_eq, Tools.runIdempotent_miss hentry hperform]
          simp only [runIdempotent, Action.run_bind, inMemory, hlookup]
          rfl
        · rw [ToolCall.run_eq, Tools.runIdempotent_miss hentry hperform]
          intro other
          rw [Dict.get?_setdefault, hlookup, Dict.get?_setdefault, hstore, hentry, h other]
          by_cases hother : key = other
          · simp [hother, ToolCall.entry]
          · simp [hother]

end Written

/-! ### Recorded keys -/

/-- One call of `record`. -/
structure RecordCall where
  key : String
  toolName : String
  args : Payload
  result : Payload
  compensation : Payload

/-- The state after calls of `record`, whether they return or raise. -/
def recordAll {σ : Type} (store : ExecutedActionsStore σ) : List RecordCall → σ → σ
  | [], s => s
  | c :: rest, s =>
    recordAll store rest ((store.record c.key c.toolName c.args c.result c.compensation).run s).2

section Recorded

variable {δ : Type} {jsonb : Jsonb δ} {calls : List RecordCall} {key : String}

/-- In memory the first recording of a key is kept, as dictionaries. -/
theorem inMemory_recordAll (rows : Dict String StoredRow) (key : String) :
    inMemory.get key (recordAll inMemory calls rows) =
      (rows.get? key).or ((calls.find? fun c => c.key = key).map fun c =>
        ⟨c.toolName, .obj c.args, .obj c.result, .obj c.compensation⟩) := by
  induction calls generalizing rows with
  | nil => simp [recordAll, inMemory]
  | cons c rest ih =>
    rw [recordAll, ih]
    change ((rows.setdefault c.key _).get? key).or _ = _
    rw [Dict.get?_setdefault]
    by_cases hkey : c.key = key
    · subst hkey
      cases hr : rows.get? c.key <;> simp
    · simp [hkey]

/-- Recording in Postgres leaves the other keys alone. -/
theorem postgres_record (table : Dict String (Columns δ)) (c : RecordCall) (h : c.key ≠ key) :
    (((postgres jsonb).record c.key c.toolName c.args c.result c.compensation).run table).2.get? key =
      table.get? key := by
  simp only [postgres, Action.run_bind, Action.run_lift]
  cases jsonb.parse (jsonDumps (.obj c.args)) with
  | error e => rfl
  | ok args =>
    cases jsonb.parse (jsonDumps (.obj c.result)) with
    | error e => rfl
    | ok result =>
      cases jsonb.parse (jsonDumps (.obj c.compensation)) with
      | error e => rfl
      | ok compensation =>
        simp only [insertRow, Dict.get?_setdefault, h, false_and, if_false]

theorem postgres_unrecorded (table : Dict String (Columns δ)) (h : ∀ c ∈ calls, c.key ≠ key) :
    (recordAll (postgres jsonb) calls table).get? key = table.get? key := by
  induction calls generalizing table with
  | nil => rfl
  | cons c rest ih =>
    rw [recordAll, ih _ fun c' hc' => h c' (List.mem_cons_of_mem c hc')]
    exact postgres_record table c (h c List.mem_cons_self)

end Recorded

/-! ### Agreement -/

/-- What a reader takes from a row: the result and the compensation. -/
def dicts (row : StoredRow) : Json × Json := (row.result, row.compensation)

/-- After the recordings both stores return the same dictionaries for the key, and a
replay over either returns those of the first recording. -/
structure Refines {δ : Type} (jsonb : Jsonb δ) (calls : List RecordCall) (key : String) : Prop where
  row : ((postgres jsonb).get key (recordAll (postgres jsonb) calls .empty)).map dicts =
    (inMemory.get key (recordAll inMemory calls .empty)).map dicts
  replay : ∀ first toolName args performed, (calls.find? fun c => c.key = key) = some first →
    ((runIdempotent inMemory toolName key args performed).run
        (recordAll inMemory calls .empty)).1 =
      .ok ⟨toolName, key, true, first.result, first.compensation⟩ ∧
    ((runIdempotent (postgres jsonb) toolName key args performed).run
        (recordAll (postgres jsonb) calls .empty)).1 =
      .ok ⟨toolName, key, true, first.result, first.compensation⟩

section Agreement

variable {δ : Type} {jsonb : Jsonb δ} {calls : List RecordCall} {key : String}

/-- A text is no dictionary. -/
theorem fetched_not_dict (row : Columns δ) (first : RecordCall) :
    dicts (row.fetched jsonb) ≠ (.obj first.result, .obj first.compensation) := by
  simp [dicts, Columns.fetched]

/-- The Postgres ledger returns what the one in memory returns exactly for the keys that
were never recorded. -/
theorem refines_iff : Refines jsonb calls key ↔ ∀ c ∈ calls, c.key ≠ key := by
  constructor
  · rintro ⟨hrow, _⟩ c hc hkey
    obtain ⟨first, hfirst⟩ : ∃ first, (calls.find? fun c => c.key = key) = some first := by
      apply Option.isSome_iff_exists.mp
      exact List.find?_isSome.mpr ⟨c, hc, by simp [hkey]⟩
    rw [inMemory_recordAll, hfirst, Dict.get?_empty, Option.none_or] at hrow
    cases hstored : (postgres jsonb).get key (recordAll (postgres jsonb) calls .empty) with
    | none =>
      rw [hstored] at hrow
      cases hrow
    | some row =>
      rw [hstored] at hrow
      obtain ⟨columns, _, rfl⟩ := Option.map_eq_some_iff.mp hstored
      exact fetched_not_dict columns first (Option.some.inj hrow)
  · intro h
    have hnone : (calls.find? fun c => c.key = key) = none := by
      apply List.find?_eq_none.mpr
      intro c hc
      simpa using h c hc
    constructor
    · have htable : (recordAll (postgres jsonb) calls .empty).get? key = none :=
        postgres_unrecorded .empty h
      have hpostgres : (postgres jsonb).get key (recordAll (postgres jsonb) calls .empty) = none :=
        Option.map_eq_none_iff.mpr htable
      rw [inMemory_recordAll, hnone, hpostgres]
      rfl
    · intro first toolName args performed hfirst
      rw [hnone] at hfirst
      cases hfirst

end Agreement

/-- A server that keeps a text as it is. -/
def verbatim : Jsonb String := ⟨.ok, id⟩

def recordedRestart : RecordCall where
  key := "pg-test:restart-service_a"
  toolName := "restart_service"
  args := [("service", .str "service_a")]
  result := [("status", .str "healthy")]
  compensation := [("type", .str "noop")]

/-- The recorded restart comes back from Postgres as texts, and its replay raises. -/
theorem restart_not_returned : ¬ Refines verbatim [recordedRestart] "pg-test:restart-service_a" := by
  intro h
  have hreplay := (h.replay recordedRestart "restart_service" [] (.ok ([], [])) rfl).2
  have hraises : ((runIdempotent (postgres verbatim) "restart_service" "pg-test:restart-service_a" []
      (.ok ([], []))).run (recordAll (postgres verbatim) [recordedRestart] .empty)).1 =
      .error (.validationError "MutationResult" "result") := rfl
  rw [hraises] at hreplay
  cases hreplay

end PostgresLedger
