import Mathlib.Algebra.Order.Ring.Int
import Mathlib.Data.List.Basic
import Mathlib.Order.Fin.Basic

namespace Venturi

/-!
# The storage vocabulary (`store.rs`, `error.rs`, `task.rs`)

The value types that cross the storage boundary: job rows, journal entries, the
settlement a worker applies, and the errors a store call returns.

Instants and durations are exact nanosecond counts.  Run numbers are `u32` in the
source and failure counts `i32`; both are unbounded here, and the bounds the code
enforces (`runNoToDb`, `saturatingAdd`) are explicit.
-/

/-! ### Scalars -/

/-- A 128-bit ULID, compared as its big-endian value. -/
abbrev Ulid := Fin (2 ^ 128)

/-- Numerals stand for identifiers. -/
instance Ulid.neZero : NeZero (2 ^ 128) := ⟨by decide⟩

/-- `DateTime<Utc>`: nanoseconds since the epoch. -/
abbrev DateTime := Int

/-- `std::time::Duration` in nanoseconds. -/
abbrev Duration := Nat

/-- `DateTime::<Utc>::MAX_UTC`, the last nanosecond of the year 262142. -/
def maxUtc : DateTime := 8210266876799999999999

/-- `add_duration`: saturates at `maxUtc`, also where `chrono::Duration::from_std` rejects
    the duration, which is above `i64::MAX` milliseconds. -/
def addDuration (now : DateTime) (delta : Duration) : DateTime :=
  if delta ≤ (2 ^ 63 - 1) * 1000000 then
    if now + delta ≤ maxUtc then now + delta else maxUtc
  else maxUtc

/-- `i32::MAX`. -/
def i32Max : Nat := 2 ^ 31 - 1

/-- `u32::MAX`. -/
def u32Max : Nat := 2 ^ 32 - 1

/-- `i32::saturating_add` of a non-negative amount. -/
def saturatingAdd (a : Int) (b : Nat) : Int := min (a + b) i32Max

/-- `serde_json::Value`.  The only question the crate asks of it is `is_null`, so any other
    value is its compact text.  What a `jsonb` column makes of it is up to `Storage`. -/
inductive Value where
  | null
  | json (text : String)
  deriving DecidableEq, Repr

/-- `Value::is_null`. -/
def Value.isNull : Value → Bool
  | .null => true
  | .json _ => false

/-! ### Lifecycle -/

/-- The lifecycle state of a job. -/
inductive Status where
  | pending
  | claimed
  | completed
  | dead
  deriving DecidableEq, Repr

/-- The outcome recorded by one journal entry. -/
inductive JournalOutcome where
  | completed
  | paused
  | retried
  | dead
  | staleRecovered
  | released
  | merged
  deriving DecidableEq, Repr

/-- `JournalOutcome::is_failure`: whether the outcome counts toward the backstop. -/
def JournalOutcome.isFailure : JournalOutcome → Bool
  | .retried | .dead | .staleRecovered => true
  | .completed | .paused | .released | .merged => false

/-- A scheduling tier. -/
inductive Priority where
  | high
  | normal
  | low
  deriving DecidableEq, Repr

/-- `Priority::as_smallint`. -/
def Priority.asSmallint : Priority → Int
  | .high => 0
  | .normal => 1
  | .low => 2

/-- `Priority::from_smallint`. -/
def Priority.fromSmallint (value : Int) : Option Priority :=
  if value = 0 then some .high
  else if value = 1 then some .normal
  else if value = 2 then some .low
  else none

/-- The numeric tiers that parse are the three the schema's `CHECK` admits. -/
theorem Priority.fromSmallint_isSome {value : Int} :
    (Priority.fromSmallint value).isSome ↔ 0 ≤ value ∧ value ≤ 2 := by
  unfold Priority.fromSmallint
  split_ifs <;> simp only [Option.isSome_some, Option.isSome_none, true_iff, Bool.false_eq_true,
    false_iff, not_and, not_le] <;> omega

@[simp] theorem Priority.fromSmallint_asSmallint (p : Priority) :
    Priority.fromSmallint p.asSmallint = some p := by cases p <;> rfl

/-- A tier is stored as 0, 1 or 2. -/
theorem Priority.asSmallint_mem (p : Priority) : 0 ≤ p.asSmallint ∧ p.asSmallint ≤ 2 := by
  cases p <;> simp [asSmallint]

/-! ### Errors -/

/-- Why the server refuses a statement of the adapter. -/
inductive SqlState where
  | uniqueViolation
  | checkViolation
  | foreignKeyViolation
  | numericValueOutOfRange
  | datetimeFieldOverflow
  | characterNotInRepertoire
  deriving DecidableEq, Repr

/-- `Error`, without the variants only connection set-up and migration raise. -/
inductive Error where
  | database (state : SqlState)
  | serialization (message : String)
  | unknownKind (kind : String)
  | invalidPriority (priority : Int)
  | runNumberOutOfRange (runNo : Nat)
  deriving DecidableEq, Repr

/-- The `Display` text of an error, which a dead job's journal note carries. -/
def Error.display : Error → String
  | .database _ => "while talking to PostgreSQL: db error"
  | .serialization message => "while (de)serializing a job payload or carry: " ++ message
  | .unknownKind kind => "no handler registered for job kind " ++ kind.quote
  | .invalidPriority priority =>
      "invalid priority tier " ++ toString priority ++ ": expected 0 (high), 1 (normal), or 2 (low)"
  | .runNumberOutOfRange runNo =>
      "run number " ++ toString runNo ++ " exceeds the storable range"

/-! ### Records -/

/-- A job row. -/
structure JobRecord where
  id : Ulid
  kind : String
  payload : Value
  priority : Int
  status : Status
  createdAt : DateTime
  visibleAt : DateTime
  claimExpiresAt : Option DateTime
  claimedBy : Option String
  finishedAt : Option DateTime
  runCount : Nat
  failureCount : Int
  carry : Value
  dedupKey : Option String
  deriving DecidableEq, Repr

/-- One append-only journal entry. -/
structure JournalRecord where
  id : Nat
  jobId : Ulid
  kind : String
  runNo : Nat
  recordedAt : DateTime
  outcome : JournalOutcome
  note : Option String
  attachment : Option Value
  deriving DecidableEq, Repr

/-- Parameters for inserting a brand-new pending job. -/
structure NewJob where
  id : Ulid
  kind : String
  payload : Value
  priority : Int
  createdAt : DateTime
  visibleAt : DateTime
  carry : Value
  dedupKey : Option String
  deriving DecidableEq, Repr

/-- `NewJob::validate`: reject a tier outside the supported range. -/
def NewJob.validate (job : NewJob) : Except Error Unit :=
  if (Priority.fromSmallint job.priority).isNone then .error (.invalidPriority job.priority)
  else .ok ()

/-- The pending row both stores insert for a new job. -/
def NewJob.record (job : NewJob) : JobRecord where
  id := job.id
  kind := job.kind
  payload := job.payload
  priority := job.priority
  status := .pending
  createdAt := job.createdAt
  visibleAt := job.visibleAt
  claimExpiresAt := none
  claimedBy := none
  finishedAt := none
  runCount := 0
  failureCount := 0
  carry := job.carry
  dedupKey := job.dedupKey

/-- A journal entry to append with a transition of its job. -/
structure JournalAppend where
  kind : String
  runNo : Nat
  recordedAt : DateTime
  outcome : JournalOutcome
  note : Option String
  attachment : Option Value
  deriving DecidableEq, Repr

/-- The stored form of an appended entry. -/
def JournalAppend.record (journal : JournalAppend) (jobId : Ulid) (id : Nat) : JournalRecord where
  id := id
  jobId := jobId
  kind := journal.kind
  runNo := journal.runNo
  recordedAt := journal.recordedAt
  outcome := journal.outcome
  note := journal.note
  attachment := journal.attachment

@[simp] theorem JournalAppend.record_id (journal : JournalAppend) (jobId : Ulid) (id : Nat) :
    (journal.record jobId id).id = id := rfl

@[simp] theorem JournalAppend.record_jobId (journal : JournalAppend) (jobId : Ulid) (id : Nat) :
    (journal.record jobId id).jobId = jobId := rfl

@[simp] theorem JournalAppend.record_runNo (journal : JournalAppend) (jobId : Ulid) (id : Nat) :
    (journal.record jobId id).runNo = journal.runNo := rfl

@[simp] theorem JournalAppend.record_outcome (journal : JournalAppend) (jobId : Ulid) (id : Nat) :
    (journal.record jobId id).outcome = journal.outcome := rfl

/-- A guarded settlement of a claimed job. -/
inductive Settlement where
  | complete (finishedAt : DateTime)
  | retry (visibleAt : DateTime) (failureCount : Int) (carry : Value)
  | pause (visibleAt : DateTime) (carry : Value)
  | dead (finishedAt : DateTime) (failureCount : Int)
  | release (visibleAt : DateTime)
  deriving DecidableEq, Repr

/-- What a Replace or With merge writes. -/
structure MergePayload where
  payload : Value
  carry : Value
  priority : Int
  deriving DecidableEq, Repr

/-- Which terminal jobs a cleanup deletes. -/
structure CleanupCriteria where
  finishedBefore : DateTime
  kind : Option String
  status : Option Status
  deriving DecidableEq, Repr

end Venturi
