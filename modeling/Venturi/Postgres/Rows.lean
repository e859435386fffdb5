import Venturi.Postgres.Adapter
import Venturi.Sql.Statement
import Venturi.Text.Crockford

namespace Venturi

open Sql

/-!
# Rows of the tables (`postgres/rows.rs`, `store.rs`, `migrations/`)

What the columns hold, and how a row is read back.

* `Status.asStr` / `fromDb`, `JournalOutcome.asStr` / `fromDb` — the text columns, and that
  nothing else parses.
* `UlidText` — the text form of an identifier, which the `ulid` crate writes and reads and the
  database collates.
* `jobsTable`, `journalTable` — the constraints and defaults of the schema.
* `jobFromRow`, `journalFromRow` — read a row by position; `jobFromRow_row`: a stored record is
  read back as it was.
-/

/-! ### Text columns -/

/-- `Status::as_str`. -/
def Status.asStr : Status → String
  | .pending => "pending"
  | .claimed => "claimed"
  | .completed => "completed"
  | .dead => "dead"

/-- `Status::from_db`. -/
def Status.fromDb (value : String) : Option Status :=
  match value with
  | "pending" => some .pending
  | "claimed" => some .claimed
  | "completed" => some .completed
  | "dead" => some .dead
  | _ => none

/-- `JournalOutcome::as_str`. -/
def JournalOutcome.asStr : JournalOutcome → String
  | .completed => "completed"
  | .paused => "paused"
  | .retried => "retried"
  | .dead => "dead"
  | .staleRecovered => "stale-recovered"
  | .released => "released"
  | .merged => "merged"

/-- `JournalOutcome::from_db`. -/
def JournalOutcome.fromDb (value : String) : Option JournalOutcome :=
  match value with
  | "completed" => some .completed
  | "paused" => some .paused
  | "retried" => some .retried
  | "dead" => some .dead
  | "stale-recovered" => some .staleRecovered
  | "released" => some .released
  | "merged" => some .merged
  | _ => none

/-- A status is read from exactly the text it is written as. -/
theorem Status.fromDb_eq_some {value : String} {status : Status} :
    Status.fromDb value = some status ↔ value = status.asStr := by
  constructor
  · intro h
    unfold Status.fromDb at h
    split at h <;> cases h <;> rfl
  · rintro rfl
    cases status <;> rfl

/-- An outcome is read from exactly the text it is written as. -/
theorem JournalOutcome.fromDb_eq_some {value : String} {outcome : JournalOutcome} :
    JournalOutcome.fromDb value = some outcome ↔ value = outcome.asStr := by
  constructor
  · intro h
    unfold JournalOutcome.fromDb at h
    split at h <;> cases h <;> rfl
  · rintro rfl
    cases outcome <;> rfl

@[simp] theorem Status.asStr_inj {status status' : Status} :
    status.asStr = status'.asStr ↔ status = status' := by
  rw [← Status.fromDb_eq_some, Status.fromDb_eq_some.mpr rfl, Option.some.injEq]

/-- The text form of an identifier, and where the database sorts a text before another. -/
structure UlidText where
  /-- `Ulid::to_string`. -/
  toString : Ulid → String
  /-- `Ulid::from_string`. -/
  fromString : String → Option Ulid
  before : String → String → Bool
  fromString_toString : ∀ id, fromString (toString id) = some id
  /-- Identifiers of one length are collated by their digits. -/
  before_toString : ∀ a b, before (toString a) (toString b) = decide (a < b)

@[simp] theorem UlidText.toString_inj (T : UlidText) {a b : Ulid} :
    T.toString a = T.toString b ↔ a = b := by
  refine ⟨fun h => ?_, congrArg _⟩
  have hb := T.fromString_toString b
  rw [← h, T.fromString_toString] at hb
  exact Option.some.inj hb

/-- An identifier in 26 letters, collated letter by letter. -/
def UlidText.crockford : UlidText where
  toString id := Text.encode 26 id.val
  fromString s :=
    if s.length = 26 then
      (Text.decode s).bind fun n => if h : n < 2 ^ 128 then some ⟨n, h⟩ else none
    else none
  before a b := decide (a < b)
  fromString_toString id := by
    have hfits : id.val < 32 ^ 26 := id.isLt.trans (by decide)
    rw [if_pos (Text.length_encode 26 id.val), Text.decode_encode hfits, Option.bind_some,
      dif_pos id.isLt]
  before_toString a b := by
    have ha : a.val < 32 ^ 26 := a.isLt.trans (by decide)
    have hb : b.val < 32 ^ 26 := b.isLt.trans (by decide)
    rw [decide_eq_decide]
    exact Text.encode_lt_iff ha hb

/-! ### Columns -/

/-- A value of a column; `seconds` is `interval '1 second'` times the bound number. -/
inductive Cell where
  | text (s : String)
  | int (n : Int)
  | time (t : DateTime)
  | seconds (d : Duration)
  | json (v : Value)
  deriving DecidableEq, Repr

/-- The instants of `timestamptz` end with the year 294276. -/
def endTimestamp : DateTime := 9224318016000000000000

/-- The values, as the database orders and adds them; `integer` has 32 bits.  An instant or an
    interval has been rounded by then (`Storage`). -/
def UlidText.engine (T : UlidText) : Engine Cell where
  lt
    | .text a, .text b => T.before a b
    | .int a, .int b => a < b
    | .time a, .time b => a < b
    | _, _ => false
  add
    | .int a, .int b =>
        if -(2 ^ 31) ≤ a + b ∧ a + b ≤ i32Max then .ok (.int (a + b)) else .error .outOfRange
    | .time t, .seconds d =>
        if t + d < endTimestamp then .ok (.time (t + d)) else .error .datetimeOverflow
    | _, _ => .error .outOfRange
  count
    | .int n => n
    | _ => 0

/-- The columns of the jobs table. -/
inductive JobColumn where
  | id
  | kind
  | payload
  | priority
  | status
  | createdAt
  | visibleAt
  | claimExpiresAt
  | claimedBy
  | finishedAt
  | runCount
  | failureCount
  | carry
  | dedupKey
  deriving DecidableEq, Repr

/-- The columns of the journal table. -/
inductive JournalColumn where
  | id
  | jobId
  | kind
  | runNo
  | recordedAt
  | outcome
  | note
  | attachment
  deriving DecidableEq, Repr

/-- `JOB_COLUMNS`. -/
def jobColumns : List JobColumn :=
  [.id, .kind, .payload, .priority, .status, .createdAt, .visibleAt, .claimExpiresAt, .claimedBy,
    .finishedAt, .runCount, .failureCount, .carry, .dedupKey]

/-- `JOURNAL_COLUMNS`. -/
def journalColumns : List JournalColumn :=
  [.id, .jobId, .kind, .runNo, .recordedAt, .outcome, .note, .attachment]

abbrev JobRow := Row JobColumn Cell

abbrev JournalRow := Row JournalColumn Cell

/-- The jobs table of the schema. -/
def jobsTable : TableDef JobColumn Cell where
  key := .id
  notNull := [.id, .kind, .payload, .priority, .status, .createdAt, .visibleAt, .runCount,
    .failureCount, .carry]
  default
    | .priority => some (.int 1)
    | .runCount | .failureCount => some (.int 0)
    | .carry => some (.json .null)
    | _ => none
  checks := [
    .isIn (.col .priority) [.int 0, .int 1, .int 2],
    .isIn (.col .status) [.text "pending", .text "claimed", .text "completed", .text "dead"]]

/-- The journal table of the schema. -/
def journalTable : TableDef JournalColumn Cell where
  key := .id
  notNull := [.id, .jobId, .kind, .runNo, .recordedAt, .outcome]
  default _ := none
  checks := [
    .isIn (.col .outcome) [.text "completed", .text "paused", .text "retried", .text "dead",
      .text "stale-recovered", .text "released", .text "merged"]]

/-! ### Reading a row -/

/-- Why a call of the adapter fails. -/
inductive Failure where
  | error (e : Error)
  | fault (f : Fault)
  /-- `Error::Config`. -/
  | config (message : String)
  /-- `Row::get` panics on the column at this position. -/
  | column (index : Nat)
  deriving DecidableEq, Repr

def Cell.text? : Datum Cell → Option String
  | some (.text s) => some s
  | _ => none

def Cell.int? : Datum Cell → Option Int
  | some (.int n) => some n
  | _ => none

/-- An instant beyond the clock of `chrono` cannot be read. -/
def Cell.time? : Datum Cell → Option DateTime
  | some (.time t) => if t ≤ maxUtc then some t else none
  | _ => none

def Cell.json? : Datum Cell → Option Value
  | some (.json v) => some v
  | _ => none

/-- An optional column. -/
def nullable {α : Type} (read : Datum Cell → Option α) : Datum Cell → Option (Option α)
  | none => some none
  | some c => (read (some c)).map some

/-- `Row::get`. -/
def rowGet {α : Type} (row : List (Datum Cell)) (read : Datum Cell → Option α) (index : Nat) :
    Except Failure α :=
  match row[index]?.bind read with
  | some a => .ok a
  | none => .error (.column index)

/-- The cast `i32 as u32`. -/
def asU32 (n : Int) : Nat := (n % 2 ^ 32).toNat

/-- `Option::ok_or_else` with `Error::Config`. -/
def orConfig {α : Type} (value : Option α) (message : String) : Except Failure α :=
  match value with
  | some a => .ok a
  | none => .error (.config message)

/-- `job_from_row`. -/
def jobFromRow (T : UlidText) (row : List (Datum Cell)) : Except Failure JobRecord := do
  let id ← rowGet row Cell.text? 0
  let id ← orConfig (T.fromString id) ("stored job id " ++ id.quote ++ " is not a valid ULID")
  let status ← rowGet row Cell.text? 4
  let status ← orConfig (Status.fromDb status)
    ("stored job status " ++ status.quote ++ " is unknown")
  return {
    id := id
    kind := ← rowGet row Cell.text? 1
    payload := ← rowGet row Cell.json? 2
    priority := ← rowGet row Cell.int? 3
    status := status
    createdAt := ← rowGet row Cell.time? 5
    visibleAt := ← rowGet row Cell.time? 6
    claimExpiresAt := ← rowGet row (nullable Cell.time?) 7
    claimedBy := ← rowGet row (nullable Cell.text?) 8
    finishedAt := ← rowGet row (nullable Cell.time?) 9
    runCount := asU32 (← rowGet row Cell.int? 10)
    failureCount := ← rowGet row Cell.int? 11
    carry := ← rowGet row Cell.json? 12
    dedupKey := ← rowGet row (nullable Cell.text?) 13 }

/-- `journal_from_row`; the `bigint` identity is positive. -/
def journalFromRow (T : UlidText) (row : List (Datum Cell)) : Except Failure JournalRecord := do
  let jobId ← rowGet row Cell.text? 1
  let jobId ← orConfig (T.fromString jobId)
    ("journal job_id " ++ jobId.quote ++ " is not a valid ULID")
  let outcome ← rowGet row Cell.text? 5
  let outcome ← orConfig (JournalOutcome.fromDb outcome)
    ("journal outcome " ++ outcome.quote ++ " is unknown")
  return {
    id := (← rowGet row Cell.int? 0).toNat
    jobId := jobId
    kind := ← rowGet row Cell.text? 2
    runNo := asU32 (← rowGet row Cell.int? 3)
    recordedAt := ← rowGet row Cell.time? 4
    outcome := outcome
    note := ← rowGet row (nullable Cell.text?) 6
    attachment := ← rowGet row (nullable Cell.json?) 7 }

/-! ### The rows of records -/

/-- The row that holds a job record. -/
@[simp] def JobRecord.row (T : UlidText) (r : JobRecord) : JobRow
  | .id => some (.text (T.toString r.id))
  | .kind => some (.text r.kind)
  | .payload => some (.json r.payload)
  | .priority => some (.int r.priority)
  | .status => some (.text r.status.asStr)
  | .createdAt => some (.time r.createdAt)
  | .visibleAt => some (.time r.visibleAt)
  | .claimExpiresAt => r.claimExpiresAt.map .time
  | .claimedBy => r.claimedBy.map .text
  | .finishedAt => r.finishedAt.map .time
  | .runCount => some (.int r.runCount)
  | .failureCount => some (.int r.failureCount)
  | .carry => some (.json r.carry)
  | .dedupKey => r.dedupKey.map .text

/-- The row that holds a journal entry. -/
def JournalRecord.row (T : UlidText) (e : JournalRecord) : JournalRow
  | .id => some (.int e.id)
  | .jobId => some (.text (T.toString e.jobId))
  | .kind => some (.text e.kind)
  | .runNo => some (.int e.runNo)
  | .recordedAt => some (.time e.recordedAt)
  | .outcome => some (.text e.outcome.asStr)
  | .note => e.note.map .text
  | .attachment => e.attachment.map .json

/-- The instants of a job. -/
def JobRecord.times (r : JobRecord) : List DateTime :=
  [r.createdAt, r.visibleAt] ++ r.claimExpiresAt.toList ++ r.finishedAt.toList

/-- The row of a job can be read: its run number and its instants are in range. -/
structure JobRecord.Readable (r : JobRecord) : Prop where
  runCount : r.runCount ≤ i32Max
  times : ∀ t ∈ r.times, t ≤ maxUtc

structure JournalRecord.Readable (e : JournalRecord) : Prop where
  runNo : e.runNo ≤ i32Max
  recordedAt : e.recordedAt ≤ maxUtc

/-- An instant in range is read as it was. -/
theorem Cell.time?_of_le {t : DateTime} (h : t ≤ maxUtc) : Cell.time? (some (.time t)) = some t :=
  if_pos h

/-- A number of an `integer` column that is not negative comes back as it was. -/
theorem asU32_natCast {n : Nat} (h : n ≤ i32Max) : asU32 n = n := by
  unfold asU32
  unfold i32Max at h
  omega

/-- Reading a column that is there. -/
theorem rowGet_eq {α : Type} {row : List (Datum Cell)} {read : Datum Cell → Option α} {index : Nat}
    {a : α} (h : row[index]?.bind read = some a) : rowGet row read index = .ok a := by
  rw [rowGet, h]

/-- A column that may be null is read as it was written. -/
theorem nullable_map {α : Type} {read : Datum Cell → Option α} {cell : α → Cell}
    {value : Option α} (hread : ∀ a ∈ value, read (some (cell a)) = some a) :
    nullable read (value.map cell) = some value := by
  cases value with
  | none => rfl
  | some a => simp [nullable, hread a rfl]

/-- **A stored job is read back as it was.** -/
theorem jobFromRow_row (T : UlidText) {r : JobRecord} (h : r.Readable) :
    jobFromRow T (jobColumns.map (r.row T)) = .ok r := by
  have hstatus : Status.fromDb r.status.asStr = some r.status := Status.fromDb_eq_some.mpr rfl
  have hcreated : rowGet (jobColumns.map (r.row T)) Cell.time? 5 = .ok r.createdAt :=
    rowGet_eq (Cell.time?_of_le (h.times _ (by simp [JobRecord.times])))
  have hvisible : rowGet (jobColumns.map (r.row T)) Cell.time? 6 = .ok r.visibleAt :=
    rowGet_eq (Cell.time?_of_le (h.times _ (by simp [JobRecord.times])))
  have hexpires : rowGet (jobColumns.map (r.row T)) (nullable Cell.time?) 7 =
      .ok r.claimExpiresAt :=
    rowGet_eq (nullable_map fun t ht =>
      Cell.time?_of_le (h.times t (by simp [JobRecord.times, Option.mem_def.mp ht])))
  have hclaimed : rowGet (jobColumns.map (r.row T)) (nullable Cell.text?) 8 = .ok r.claimedBy :=
    rowGet_eq (nullable_map fun _ _ => rfl)
  have hfinished : rowGet (jobColumns.map (r.row T)) (nullable Cell.time?) 9 = .ok r.finishedAt :=
    rowGet_eq (nullable_map fun t ht =>
      Cell.time?_of_le (h.times t (by simp [JobRecord.times, Option.mem_def.mp ht])))
  have hkey : rowGet (jobColumns.map (r.row T)) (nullable Cell.text?) 13 = .ok r.dedupKey :=
    rowGet_eq (nullable_map fun _ _ => rfl)
  have hid : rowGet (jobColumns.map (r.row T)) Cell.text? 0 = .ok (T.toString r.id) := rfl
  have htext : rowGet (jobColumns.map (r.row T)) Cell.text? 4 = .ok r.status.asStr := rfl
  have hcount : rowGet (jobColumns.map (r.row T)) Cell.int? 10 = .ok (r.runCount : Int) := rfl
  unfold jobFromRow
  rw [hid, hcreated, hvisible, hexpires, hclaimed, hfinished, hkey, htext, hcount]
  simp only [bind, Except.bind, pure, Except.pure, orConfig, T.fromString_toString, hstatus,
    asU32_natCast h.runCount]
  rfl

/-- **A stored entry is read back as it was.** -/
theorem journalFromRow_row (T : UlidText) {e : JournalRecord} (h : e.Readable) :
    journalFromRow T (journalColumns.map (e.row T)) = .ok e := by
  have houtcome : JournalOutcome.fromDb e.outcome.asStr = some e.outcome :=
    JournalOutcome.fromDb_eq_some.mpr rfl
  have hnote : rowGet (journalColumns.map (e.row T)) (nullable Cell.text?) 6 = .ok e.note :=
    rowGet_eq (nullable_map fun _ _ => rfl)
  have hattachment : rowGet (journalColumns.map (e.row T)) (nullable Cell.json?) 7 =
      .ok e.attachment := rowGet_eq (nullable_map fun _ _ => rfl)
  have hrecorded : rowGet (journalColumns.map (e.row T)) Cell.time? 4 = .ok e.recordedAt :=
    rowGet_eq (Cell.time?_of_le h.recordedAt)
  have hid : rowGet (journalColumns.map (e.row T)) Cell.int? 0 = .ok (e.id : Int) := rfl
  have hjob : rowGet (journalColumns.map (e.row T)) Cell.text? 1 = .ok (T.toString e.jobId) := rfl
  have htext : rowGet (journalColumns.map (e.row T)) Cell.text? 5 = .ok e.outcome.asStr := rfl
  have hno : rowGet (journalColumns.map (e.row T)) Cell.int? 3 = .ok (e.runNo : Int) := rfl
  unfold journalFromRow
  rw [hid, hjob, hnote, hattachment, hrecorded, htext, hno]
  simp only [bind, Except.bind, pure, Except.pure, orConfig, T.fromString_toString, houtcome,
    asU32_natCast h.runNo, Int.toNat_natCast]
  rfl

end Venturi
