import Mathlib.Data.Prod.Lex
import Mathlib.Algebra.Order.Ring.Int
import Venturi.Sql.Table
import Venturi.Store.Records

namespace Venturi

open Sql

/-!
# The PostgreSQL adapter (`postgres/mod.rs`, `migrations/`)

The two tables of the schema and the statements the adapter runs against them.

* `PostgresStore` — the jobs and journal tables under the schema's constraints: the
  primary keys are part of the table types, the `CHECK` on `priority` and the foreign key
  of the journal are fields.
* `updateJobs`, `appendJournal`, … — single statements; a write that would break a
  constraint is an error.
* `guardedUpdate` — the shape `settle`, `recover` and `merge_into` share: one guarded
  `UPDATE`, and an `INSERT` into the journal in the same transaction when it applied.

Each operation is one transaction, so an error carries no state: nothing was written.
`now` is the database clock, and `rank` the order a scan visits the rows in, which decides
between rows an `ORDER BY` leaves tied.
-/

/-- `CHECK (priority IN (0, 1, 2))`. -/
def JobRecord.ValidTier (r : JobRecord) : Prop := 0 ≤ r.priority ∧ r.priority ≤ 2

instance (r : JobRecord) : Decidable r.ValidTier :=
  inferInstanceAs (Decidable (0 ≤ r.priority ∧ r.priority ≤ 2))

/-- A state of the database that the schema admits. -/
@[ext] structure PostgresStore where
  jobs : Table JobRecord.id
  journal : Serial JournalRecord.id
  tiers : ∀ r ∈ jobs.rows, r.ValidTier
  references : ∀ e ∈ journal.rows, (jobs.find? e.jobId).isSome

namespace PostgresStore

/-- The migrated, still empty database. -/
def empty : PostgresStore where
  jobs := Table.empty
  journal := Serial.empty
  tiers := by simp
  references := by simp

/-! ### Single statements -/

/-- `INSERT INTO jobs`. -/
def insertJob (s : PostgresStore) (r : JobRecord) : Except Error PostgresStore :=
  if hr : r.ValidTier then
    match h : s.jobs.insert r with
    | none => .error (.database .uniqueViolation)
    | some jobs => .ok {
        jobs := jobs
        journal := s.journal
        tiers := by
          intro r' hr'
          rw [Table.rows_insert h, List.mem_append, List.mem_singleton] at hr'
          rcases hr' with hr' | rfl
          · exact s.tiers r' hr'
          · exact hr
        references := by
          intro e he
          rw [Table.find?_insert h]
          split
          · rfl
          · exact s.references e he }
  else .error (.database .checkViolation)

/-- `UPDATE jobs SET … WHERE …`, with the number of affected rows. -/
def updateJobs (s : PostgresStore) (p : JobRecord → Bool) (set : JobRecord → JobRecord)
    (hset : ∀ r, (set r).id = r.id) : Except Error (Nat × PostgresStore) :=
  if h : ∀ r ∈ s.jobs.rows, p r → (set r).ValidTier then
    .ok (s.jobs.affected p, {
      jobs := s.jobs.update p set hset
      journal := s.journal
      tiers := by
        intro r' hr'
        obtain ⟨r, hr, rfl⟩ := Table.mem_update.mp hr'
        by_cases hp : p r
        · simpa [hp] using h r hr hp
        · simpa [hp] using s.tiers r hr
      references := by
        intro e he
        rw [Table.find?_update, Option.isSome_map]
        exact s.references e he })
  else .error (.database .checkViolation)

/-- `DELETE FROM jobs WHERE …`, cascading to the journal, with the number of deleted rows. -/
def deleteJobs (s : PostgresStore) (p : JobRecord → Bool) : Nat × PostgresStore :=
  (s.jobs.affected p, {
    jobs := s.jobs.delete p
    journal := s.journal.delete (fun e => (s.jobs.find? e.jobId).any p)
    tiers := fun r hr => s.tiers r (Table.mem_delete.mp hr).1
    references := by
      intro e he
      obtain ⟨hmem, hkeep⟩ := Serial.mem_delete.mp he
      obtain ⟨r, hr⟩ := Option.isSome_iff_exists.mp (s.references e hmem)
      rw [Table.find?_delete, hr]
      simpa [hr] using hkeep })

/-- `INSERT INTO journal`. -/
def appendJournal (s : PostgresStore) (id : Ulid) (journal : JournalAppend) :
    Except Error PostgresStore :=
  if h : (s.jobs.find? id).isSome then
    .ok {
      jobs := s.jobs
      journal := s.journal.append (journal.record id) (journal.record_id id)
      tiers := s.tiers
      references := by
        intro e he
        rcases Serial.mem_append.mp he with he | rfl
        · exact s.references e he
        · exact h }
  else .error (.database .foreignKeyViolation)

/-- `SELECT … FROM journal WHERE job_id = $1 ORDER BY id`. -/
def journalOf (s : PostgresStore) (id : Ulid) : List JournalRecord :=
  s.journal.select (fun e => e.jobId = id)

/-! ### Shared pieces of the operations -/

/-- `run_no_to_db`: the column holds a signed 32-bit integer. -/
def runNoToDb (runNo : Nat) : Except Error Nat :=
  if runNo ≤ i32Max then .ok runNo else .error (.runNumberOutOfRange runNo)

/-- One guarded `UPDATE` of the row `id` that is journaled, in the same transaction, only
    when it applied. -/
def guardedUpdate (s : PostgresStore) (id : Ulid) (guard : JobRecord → Bool)
    (set : JobRecord → JobRecord) (hset : ∀ r, (set r).id = r.id) (journal : JournalAppend) :
    Except Error (Bool × PostgresStore) := do
  let (affected, s) ← s.updateJobs guard set hset
  if affected > 0 then
    let s ← s.appendJournal id journal
    return (true, s)
  else
    return (false, s)

end PostgresStore

/-- The claim gate: pending, visible, of a requested kind, at or below the floor tier. -/
def JobRecord.eligible (kinds : List String) (priorityFloor : Int) (now : DateTime)
    (r : JobRecord) : Bool :=
  r.status = .pending ∧ r.visibleAt ≤ now ∧ r.kind ∈ kinds ∧ priorityFloor ≤ r.priority

/-- The `SET` clause of the claim. -/
def JobRecord.claim (r : JobRecord) (claimedBy : String) (expires : DateTime) : JobRecord :=
  { r with
    status := .claimed
    claimedBy := some claimedBy
    claimExpiresAt := some expires
    runCount := r.runCount + 1 }

/-- The ownership guard: claimed by this identity at this claim epoch. -/
def JobRecord.owned (id : Ulid) (claimedBy : String) (runNo : Nat) (r : JobRecord) : Bool :=
  r.id = id ∧ r.claimedBy = some claimedBy ∧ r.runCount = runNo ∧ r.status = .claimed

/-- The lease test of `find_stale` and `recover`; a `NULL` expiry is never stale. -/
def JobRecord.stale (now : DateTime) (r : JobRecord) : Bool :=
  r.status = .claimed ∧ r.claimExpiresAt.any (· < now)

/-- The guard of a recovery: still stale, at the observed claim epoch. -/
def JobRecord.recoverable (id : Ulid) (runNo : Nat) (now : DateTime) (r : JobRecord) : Bool :=
  r.id = id ∧ r.stale now ∧ r.runCount = runNo

/-- The guard of a merge. -/
def JobRecord.mergeable (id : Ulid) (r : JobRecord) : Bool := r.id = id ∧ r.status = .pending

/-- The dedup candidates of a key. -/
def JobRecord.dedupCandidate (kind dedupKey : String) (r : JobRecord) : Bool :=
  r.kind = kind ∧ r.dedupKey = some dedupKey ∧ r.status = .pending

section Guards

variable {r : JobRecord} {id : Ulid} {claimedBy : String} {runNo : Nat} {now : DateTime}

/-- What the `WHERE` of the claim says, and how it is bounded by the floor. -/
theorem JobRecord.eligible_iff {kinds : List String} {floor : Int} :
    r.eligible kinds floor now ↔
      r.status = .pending ∧ r.visibleAt ≤ now ∧ r.kind ∈ kinds ∧ floor ≤ r.priority := by
  simp [eligible]

/-- What the guard of a settlement or a lease says: the job, its worker, its run, and that it is
    claimed. -/
theorem JobRecord.owned_iff :
    r.owned id claimedBy runNo ↔
      r.id = id ∧ r.claimedBy = some claimedBy ∧ r.runCount = runNo ∧ r.status = .claimed := by
  simp [owned]

/-- What `find_stale` looks for: a claimed job whose lease is over. -/
theorem JobRecord.stale_iff :
    r.stale now ↔
      r.status = .claimed ∧ ∃ expiry, r.claimExpiresAt = some expiry ∧ expiry < now := by
  cases h : r.claimExpiresAt <;> simp [stale, h]

/-- What the guard of a recovery says: the job is stale, and still in the run that was listed. -/
theorem JobRecord.recoverable_iff :
    r.recoverable id runNo now ↔ r.id = id ∧ r.stale now ∧ r.runCount = runNo := by
  simp [recoverable]

/-- What the guard of a merge says: the job is pending. -/
theorem JobRecord.mergeable_iff : r.mergeable id ↔ r.id = id ∧ r.status = .pending := by
  simp [mergeable]

/-! Each guard of a journaled update is confined to the row it names. -/

theorem JobRecord.owned_id (r : JobRecord) (h : r.owned id claimedBy runNo) : r.id = id :=
  (owned_iff.mp h).1

theorem JobRecord.recoverable_id (r : JobRecord) (h : r.recoverable id runNo now) : r.id = id :=
  (recoverable_iff.mp h).1

theorem JobRecord.mergeable_id (r : JobRecord) (h : r.mergeable id) : r.id = id :=
  (mergeable_iff.mp h).1

/-- What `dedup_candidate` looks for: a pending job of the kind under the key. -/
theorem JobRecord.dedupCandidate_iff {kind dedupKey : String} :
    r.dedupCandidate kind dedupKey ↔
      r.kind = kind ∧ r.dedupKey = some dedupKey ∧ r.status = .pending := by
  simp [dedupCandidate]

end Guards

/-- The `SET` clause of each settlement. -/
def Settlement.set (settlement : Settlement) (r : JobRecord) : JobRecord :=
  match settlement with
  | .complete finishedAt =>
      { r with
        status := .completed, finishedAt := some finishedAt
        claimedBy := none, claimExpiresAt := none }
  | .retry visibleAt failureCount carry =>
      { r with
        status := .pending, visibleAt := visibleAt, failureCount := failureCount, carry := carry
        claimedBy := none, claimExpiresAt := none }
  | .pause visibleAt carry =>
      { r with
        status := .pending, visibleAt := visibleAt, carry := carry
        claimedBy := none, claimExpiresAt := none }
  | .dead finishedAt failureCount =>
      { r with
        status := .dead, finishedAt := some finishedAt, failureCount := failureCount
        claimedBy := none, claimExpiresAt := none }
  | .release visibleAt =>
      { r with
        status := .pending, visibleAt := visibleAt
        claimedBy := none, claimExpiresAt := none }

/-- The `SET` clause of a recovery. -/
def JobRecord.repend (r : JobRecord) (visibleAt : DateTime) (failureCount : Int) : JobRecord :=
  { r with
    status := .pending, visibleAt := visibleAt, failureCount := failureCount
    claimedBy := none, claimExpiresAt := none }

/-- The `SET` clause of a lease extension. -/
def JobRecord.extend (r : JobRecord) (expires : DateTime) : JobRecord :=
  { r with claimExpiresAt := some expires }

/-- The `SET` clause of a merge; a Keep assigns `dedup_key` to itself. -/
def JobRecord.merge (update : Option MergePayload) (r : JobRecord) : JobRecord :=
  match update with
  | some u => { r with payload := u.payload, carry := u.carry, priority := u.priority }
  | none => { r with dedupKey := r.dedupKey }

/-- The `WHERE` clause of a cleanup. -/
def CleanupCriteria.matches (c : CleanupCriteria) (r : JobRecord) : Bool :=
  r.finishedAt.any (· < c.finishedBefore) && c.kind.all (r.kind = ·) && c.status.all (r.status = ·)

@[simp] theorem JobRecord.claim_id (claimedBy : String) (expires : DateTime) (r : JobRecord) :
    (r.claim claimedBy expires).id = r.id := rfl

@[simp] theorem JobRecord.repend_id (visibleAt : DateTime) (failureCount : Int) (r : JobRecord) :
    (r.repend visibleAt failureCount).id = r.id := rfl

@[simp] theorem JobRecord.extend_id (expires : DateTime) (r : JobRecord) :
    (r.extend expires).id = r.id := rfl

@[simp] theorem Settlement.set_id (st : Settlement) (r : JobRecord) : (st.set r).id = r.id := by
  cases st <;> rfl

@[simp] theorem Settlement.set_priority (st : Settlement) (r : JobRecord) :
    (st.set r).priority = r.priority := by cases st <;> rfl

@[simp] theorem Settlement.set_runCount (st : Settlement) (r : JobRecord) :
    (st.set r).runCount = r.runCount := by cases st <;> rfl

/-- Every settlement ends the claim. -/
theorem Settlement.set_status_ne (st : Settlement) (r : JobRecord) :
    (st.set r).status ≠ .claimed := by cases st <;> simp [set]

@[simp] theorem JobRecord.merge_id (u : Option MergePayload) (r : JobRecord) :
    (r.merge u).id = r.id := by cases u <;> rfl

@[simp] theorem JobRecord.merge_runCount (u : Option MergePayload) (r : JobRecord) :
    (r.merge u).runCount = r.runCount := by cases u <;> rfl

@[simp] theorem JobRecord.merge_status (u : Option MergePayload) (r : JobRecord) :
    (r.merge u).status = r.status := by cases u <;> rfl

namespace PostgresStore

/-! ### The operations of the `Store` trait -/

/-- `PostgresStore::enqueue`. -/
def enqueue (s : PostgresStore) (job : NewJob) : Except Error (Unit × PostgresStore) := do
  job.validate
  let s ← s.insertJob job.record
  return ((), s)

/-- `PostgresStore::claim_next`. -/
def claimNext (s : PostgresStore) (now : DateTime) (rank : Ulid → Nat) (kinds : List String)
    (priorityFloor : Int) (lease : Duration) (claimedBy : String) :
    Except Error (Option JobRecord × PostgresStore) := do
  let eligible := (s.jobs.scan rank).filter (JobRecord.eligible kinds priorityFloor now)
  match (orderBy (fun r => toLex (r.priority, r.createdAt)) eligible).head? with
  | none => return (none, s)
  | some r =>
    -- `run_count + 1` overflows the integer column at its maximum.
    if r.runCount + 1 ≤ i32Max then
      let (_, s) ← s.updateJobs (fun r' => r'.id = r.id)
        (fun r' => r'.claim claimedBy (now + lease)) (JobRecord.claim_id claimedBy (now + lease))
      return (some (r.claim claimedBy (now + lease)), s)
    else
      throw (.database .numericValueOutOfRange)

/-- `PostgresStore::settle`. -/
def settle (s : PostgresStore) (id : Ulid) (claimedBy : String) (runNo : Nat)
    (settlement : Settlement) (journal : JournalAppend) : Except Error (Bool × PostgresStore) := do
  let runNo ← runNoToDb runNo
  let _ ← runNoToDb journal.runNo
  s.guardedUpdate id (JobRecord.owned id claimedBy runNo) settlement.set settlement.set_id journal

/-- `PostgresStore::recover`. -/
def recover (s : PostgresStore) (now : DateTime) (id : Ulid) (visibleAt : DateTime)
    (failureCount : Int) (runNo : Nat) (journal : JournalAppend) :
    Except Error (Bool × PostgresStore) := do
  let runNo ← runNoToDb runNo
  let _ ← runNoToDb journal.runNo
  s.guardedUpdate id (JobRecord.recoverable id runNo now)
    (fun r => r.repend visibleAt failureCount) (JobRecord.repend_id visibleAt failureCount) journal

/-- `PostgresStore::extend_lease`. -/
def extendLease (s : PostgresStore) (now : DateTime) (id : Ulid) (claimedBy : String) (runNo : Nat)
    (lease : Duration) : Except Error (Bool × PostgresStore) := do
  let runNo ← runNoToDb runNo
  let (affected, s) ← s.updateJobs (JobRecord.owned id claimedBy runNo)
    (fun r => r.extend (now + lease)) (JobRecord.extend_id (now + lease))
  return (affected > 0, s)

/-- `PostgresStore::merge_into`. -/
def mergeInto (s : PostgresStore) (id : Ulid) (update : Option MergePayload)
    (journal : JournalAppend) : Except Error (Bool × PostgresStore) := do
  let _ ← runNoToDb journal.runNo
  s.guardedUpdate id (JobRecord.mergeable id) (JobRecord.merge update) (JobRecord.merge_id update)
    journal

/-- `PostgresStore::cleanup`. -/
def cleanup (s : PostgresStore) (criteria : CleanupCriteria) : Except Error (Nat × PostgresStore) :=
  .ok (s.deleteJobs criteria.matches)

/-- `PostgresStore::find_stale`: at most 100 expired claims, the earliest expiry first. -/
def findStale (s : PostgresStore) (now : DateTime) (rank : Ulid → Nat) : List JobRecord :=
  let expired := (s.jobs.scan rank).filter (JobRecord.stale now)
  (orderBy (fun r => r.claimExpiresAt.getD 0) expired).take 100

/-- `PostgresStore::dedup_candidate`: the oldest pending job of the key. -/
def dedupCandidate (s : PostgresStore) (rank : Ulid → Nat) (kind dedupKey : String) :
    Option JobRecord :=
  let candidates := (s.jobs.scan rank).filter (JobRecord.dedupCandidate kind dedupKey)
  (orderBy JobRecord.createdAt candidates).head?

/-- `PostgresStore::next_visible_at`. -/
def nextVisibleAt (s : PostgresStore) (now : DateTime) (kinds : List String) : Option DateTime :=
  ((s.jobs.rows.filter (fun r => r.status = .pending ∧ r.kind ∈ kinds ∧ now < r.visibleAt)).map
    JobRecord.visibleAt).min?

/-- `PostgresStore::job`. -/
def job (s : PostgresStore) (id : Ulid) : Option JobRecord := s.jobs.find? id

end PostgresStore

end Venturi
