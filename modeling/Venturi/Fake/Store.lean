import Mathlib.Logic.Relation
import Venturi.Postgres.Adapter
import Venturi.Store.Call

namespace Venturi

open Sql

/-!
# The in-memory store (`test_support.rs`)

`FakeStore` keeps the jobs in a hash map and the journal in a vector.  It runs the same
row updates as the adapter, so those are shared; what differs is what it does not check:
no tier `CHECK` on a merge, no error on a reused id, no range check on a run number.

`rank` is the visiting order of the map.  `run_count += 1` panics at `u32::MAX`, with the
other claim columns already written and the mutex poisoned, so no later call gets in.
-/

/-- The state behind a `FakeStore`. -/
structure FakeStore where
  jobs : Table JobRecord.id
  journal : List JournalRecord
  nextJournalId : Nat
  forceNextMergeIntoMiss : Bool
  poisoned : Bool

namespace FakeStore

/-- `FakeStore::new`. -/
def new : FakeStore := ⟨Table.empty, [], 0, false, false⟩

/-- A write through `jobs.get_mut(&id)`. -/
def write (s : FakeStore) (r : JobRecord) : FakeStore := { s with jobs := s.jobs.put r }

/-- Push a journal entry under the next id. -/
def push (s : FakeStore) (id : Ulid) (journal : JournalAppend) : FakeStore :=
  { s with
    journal := s.journal ++ [journal.record id s.nextJournalId]
    nextJournalId := s.nextJournalId + 1 }

/-! ### The operations -/

/-- `FakeStore::enqueue`. -/
def enqueue (s : FakeStore) (job : NewJob) : Except Error Unit × FakeStore :=
  match job.validate with
  | .error e => (.error e, s)
  | .ok () => (.ok (), s.write job.record)

/-- The key `claim_next` minimises. -/
def claimKey (r : JobRecord) : Int ×ₗ DateTime ×ₗ Ulid :=
  toLex (r.priority, toLex (r.createdAt, r.id))

/-- The best of the jobs visited so far. -/
def better (best : Option JobRecord) (job : JobRecord) : Option JobRecord :=
  match best with
  | none => some job
  | some b => if claimKey job < claimKey b then some job else some b

/-- `FakeStore::claim_next`; no reply is a panic. -/
def claimNext (s : FakeStore) (now : DateTime) (rank : Ulid → Nat) (kinds : List String)
    (priorityFloor : Int) (lease : Duration) (claimedBy : String) :
    Option (Option JobRecord) × FakeStore :=
  let eligible := (s.jobs.scan rank).filter (JobRecord.eligible kinds priorityFloor now)
  match eligible.foldl better none with
  | none => (some none, s)
  | some r =>
    let expires := addDuration now lease
    if r.runCount + 1 ≤ u32Max then
      (some (some (r.claim claimedBy expires)), s.write (r.claim claimedBy expires))
    else
      let row :=
        { r with status := .claimed, claimedBy := some claimedBy, claimExpiresAt := some expires }
      (none, { s.write row with poisoned := true })

/-- `FakeStore::settle`. -/
def settle (s : FakeStore) (id : Ulid) (claimedBy : String) (runNo : Nat)
    (settlement : Settlement) (journal : JournalAppend) : Bool × FakeStore :=
  match s.jobs.find? id with
  | none => (false, s)
  | some job =>
    if ¬ job.owned id claimedBy runNo then (false, s)
    else (true, (s.write (settlement.set job)).push id journal)

/-- `FakeStore::recover`. -/
def recover (s : FakeStore) (now : DateTime) (id : Ulid) (visibleAt : DateTime)
    (failureCount : Int) (runNo : Nat) (journal : JournalAppend) : Bool × FakeStore :=
  match s.jobs.find? id with
  | none => (false, s)
  | some job =>
    if ¬ job.recoverable id runNo now then (false, s)
    else (true, (s.write (job.repend visibleAt failureCount)).push id journal)

/-- `FakeStore::extend_lease`. -/
def extendLease (s : FakeStore) (now : DateTime) (id : Ulid) (claimedBy : String) (runNo : Nat)
    (lease : Duration) : Bool × FakeStore :=
  match s.jobs.find? id with
  | none => (false, s)
  | some job =>
    if ¬ job.owned id claimedBy runNo then (false, s)
    else (true, s.write (job.extend (addDuration now lease)))

/-- `FakeStore::merge_into`; the forced miss clears itself. -/
def mergeInto (s : FakeStore) (id : Ulid) (update : Option MergePayload) (journal : JournalAppend) :
    Bool × FakeStore :=
  if s.forceNextMergeIntoMiss then (false, { s with forceNextMergeIntoMiss := false })
  else match s.jobs.find? id with
    | none => (false, s)
    | some job =>
      if job.status ≠ .pending then (false, s)
      else (true, (s.write (job.merge update)).push id journal)

/-- Drop one job and its journal entries. -/
def remove (s : FakeStore) (id : Ulid) : FakeStore :=
  { s with
    jobs := s.jobs.delete (fun r => r.id = id)
    journal := s.journal.filter (fun e => e.jobId ≠ id) }

/-- `FakeStore::cleanup`. -/
def cleanup (s : FakeStore) (rank : Ulid → Nat) (criteria : CleanupCriteria) : Nat × FakeStore :=
  let toRemove := ((s.jobs.scan rank).filter criteria.matches).map JobRecord.id
  (toRemove.length, toRemove.foldl remove s)

/-- `FakeStore::journal`. -/
def journalOf (s : FakeStore) (id : Ulid) : List JournalRecord :=
  orderBy JournalRecord.id (s.journal.filter (fun e => e.jobId = id))

/-- `FakeStore::find_stale`. -/
def findStale (s : FakeStore) (now : DateTime) (rank : Ulid → Nat) : List JobRecord :=
  (s.jobs.scan rank).filter (JobRecord.stale now)

/-- `FakeStore::dedup_candidate`. -/
def dedupCandidate (s : FakeStore) (rank : Ulid → Nat) (kind dedupKey : String) :
    Option JobRecord :=
  let candidates := (s.jobs.scan rank).filter (JobRecord.dedupCandidate kind dedupKey)
  (orderBy (fun r => toLex (r.createdAt, r.id)) candidates).head?

/-- `FakeStore::next_visible_at`. -/
def nextVisibleAt (s : FakeStore) (now : DateTime) (kinds : List String) : Option DateTime :=
  ((s.jobs.rows.filter (fun r => r.status = .pending ∧ now < r.visibleAt ∧ r.kind ∈ kinds)).map
    JobRecord.visibleAt).min?

/-- `FakeStore::job`. -/
def job (s : FakeStore) (id : Ulid) : Option JobRecord := s.jobs.find? id

/-! ### Executing a call -/

/-- A call that replies. -/
def reply {α : Type} (p : α × FakeStore) : Option (Except Error α) × FakeStore :=
  (some (.ok p.1), p.2)

/-- Execute a call on a store whose mutex is not poisoned. -/
def execLocked (s : FakeStore) (env : Env) :
    (c : Call) → Option (Except Error c.Answer) × FakeStore
  | .enqueue job => (some (s.enqueue job).1, (s.enqueue job).2)
  | .claimNext kinds floor lease claimedBy =>
      let (o, s) := s.claimNext env.now env.rank kinds floor lease claimedBy
      (o.map .ok, s)
  | .settle id claimedBy runNo settlement journal =>
      reply (s.settle id claimedBy runNo settlement journal)
  | .journal id => reply (s.journalOf id, s)
  | .nextVisibleAt kinds => reply (s.nextVisibleAt env.now kinds, s)
  | .dedupCandidate kind dedupKey => reply (s.dedupCandidate env.rank kind dedupKey, s)
  | .findStale => reply (s.findStale env.now env.rank, s)
  | .recover id visibleAt failureCount runNo journal =>
      reply (s.recover env.now id visibleAt failureCount runNo journal)
  | .extendLease id claimedBy runNo lease => reply (s.extendLease env.now id claimedBy runNo lease)
  | .job id => reply (s.job id, s)
  | .cleanup criteria => reply (s.cleanup env.rank criteria)
  | .mergeInto id update journal => reply (s.mergeInto id update journal)

/-- Execute a call; no reply is a panic, which a poisoned mutex turns every call into. -/
def exec (s : FakeStore) (env : Env) (c : Call) : Option (Except Error c.Answer) × FakeStore :=
  if s.poisoned then (none, s) else s.execLocked env c

/-- A merge write of a tier in range. -/
def mergesValidTier : Call → Prop
  | .mergeInto _ (some u) _ => 0 ≤ u.priority ∧ u.priority ≤ 2
  | _ => True

/-- One step: a call, or the test seam that forces the next merge to miss. -/
inductive Step (s : FakeStore) : FakeStore → Prop
  | call (env : Env) (c : Call) (htier : mergesValidTier c) : Step s (s.exec env c).2
  | forceNextMergeIntoMiss : Step s { s with forceNextMergeIntoMiss := true }

/-- The states any calls lead to from the empty store. -/
abbrev Reachable : FakeStore → Prop := Relation.ReflTransGen Step new

end FakeStore

end Venturi
