import Venturi.Store.Call
import Venturi.Trace.Program

namespace Venturi

open Trace

/-!
# The deduplicating enqueue (`queue.rs`, `task.rs`, `context.rs`)

`Queue::submit` reads a candidate, lets the task decide, and writes the decision: three
store calls, not one transaction.  So it is a program, whose store calls interleave with
those of other parties.
-/

/-! ### Programs over a store -/

/-- What a party can do between two lines of its own code. -/
inductive Effect where
  /-- A call of the `Store` trait. -/
  | call (c : Call)
  /-- `Utc::now()`. -/
  | now
  /-- `Ulid::new()`. -/
  | newUlid

/-- What it gets back. -/
abbrev Effect.Answer : Effect → Type
  | .call c => Except Error c.Answer
  | .now => DateTime
  | .newUlid => Ulid

/-- Code that may return an `Error`. -/
abbrev StoreProgram : Type → Type := ExceptT Error (Program Effect.Answer)

namespace StoreProgram

/-- `store.call(…).await?`. -/
def call (c : Call) : StoreProgram c.Answer := ExceptT.mk (Program.perform (Effect.call c))

/-- `Utc::now()`. -/
def now : StoreProgram DateTime := ExceptT.lift (Program.perform Effect.now)

/-- `Ulid::new()`. -/
def newUlid : StoreProgram Ulid := ExceptT.lift (Program.perform Effect.newUlid)

/-- A `serde_json` conversion under `?`. -/
def json {α : Type} : Except String α → StoreProgram α
  | .ok a => return a
  | .error message => throw (.serialization message)

/-! The operations each of these performs. -/

section Run

variable {α β : Type}

theorem run_call_bind {c : Call} {f : c.Answer → StoreProgram β} :
    (call c >>= f).run = .op (.call c) (fun reply =>
      match reply with
      | .ok a => (f a).run
      | .error e => .ret (.error e)) := by
  refine congrArg (Program.op (Effect.call c)) (funext fun reply => ?_)
  rcases reply with e | a <;> rfl

theorem run_now_bind {f : DateTime → StoreProgram β} :
    (now >>= f).run = .op .now (fun t => (f t).run) := rfl

theorem run_newUlid_bind {f : Ulid → StoreProgram β} :
    (newUlid >>= f).run = .op .newUlid (fun id => (f id).run) := rfl

/-- Code that performs an operation after a conversion did not fail in it. -/
theorem follows_json {x : Except String α} {f : α → StoreProgram β}
    {e : Program.Act Effect.Answer} {es : List (Program.Act Effect.Answer)}
    {q : Program Effect.Answer (Except Error β)}
    (h : Program.Follows (json x >>= f).run (e :: es) q) :
    ∃ a, x = .ok a ∧ Program.Follows (f a).run (e :: es) q := by
  cases x with
  | ok a => exact ⟨a, rfl, h⟩
  | error message => exact absurd h Program.not_follows_ret

end Run

end StoreProgram

/-! ### Tasks -/

/-- `JournalEntry`. -/
structure JournalEntry where
  runNo : Nat
  recordedAt : DateTime
  outcome : JournalOutcome
  note : Option String
  attachment : Option Value
  deriving DecidableEq, Repr

/-- `JournalEntry::from_record`. -/
def JournalEntry.fromRecord (record : JournalRecord) : JournalEntry :=
  ⟨record.runNo, record.recordedAt, record.outcome, record.note, record.attachment⟩

/-- `Pending`: what `Task::merge` sees of the existing job. -/
structure Pending (T Carry : Type) where
  payload : T
  carry : Carry
  runCount : Nat
  journal : List JournalEntry

/-- `Merge`. -/
inductive Merge (T Carry : Type) where
  | keep
  | replace
  | with (task : T) (carry : Carry)
  | independent

/-- `Task`, as its implementation for the payload type `T`: the JSON encodings of the
    payload and the carry, and the policy methods an enqueue asks. -/
structure Task (T Carry : Type) where
  kind : String
  toValue : T → Except String Value
  fromValue : Value → Except String T
  carryToValue : Carry → Except String Value
  carryFromValue : Value → Except String Carry
  carryDefault : Carry
  priority : T → Priority
  dedupKey : T → Option String
  merge : T → Pending T Carry → Merge T Carry

/-- `if carry.is_null() { Default } else { from_value(carry)? }`. -/
def Task.decodeCarry {T Carry : Type} (τ : Task T Carry) (carry : Value) : Except String Carry :=
  if carry.isNull then .ok τ.carryDefault else τ.carryFromValue carry

/-! ### The enqueue -/

namespace Queue

open StoreProgram

/-- The `merged` journal entry `Queue::apply_merge` records. -/
def mergedEntry (candidate : JobRecord) (now : DateTime) : JournalAppend where
  kind := candidate.kind
  runNo := candidate.runCount
  recordedAt := now
  outcome := .merged
  note := some "enqueue merged into pending job"
  attachment := none

variable {T Carry : Type} (τ : Task T Carry)

/-- `Queue::insert`. -/
def insert (task : T) (createdAt visibleAt : DateTime) (dedupKey : Option String) :
    StoreProgram Ulid := do
  let id ← newUlid
  let payload ← json (τ.toValue task)
  let carry ← json (τ.carryToValue τ.carryDefault)
  let job : NewJob := {
    id := id
    kind := τ.kind
    payload := payload
    priority := (τ.priority task).asSmallint
    createdAt := createdAt
    visibleAt := visibleAt
    carry := carry
    dedupKey := dedupKey }
  call (.enqueue job)
  return id

/-- `Queue::apply_merge`. -/
def applyMerge (candidate : JobRecord) (update : Option MergePayload) (incoming : T)
    (createdAt visibleAt : DateTime) (key : String) : StoreProgram Ulid := do
  let recordedAt ← now
  if ← call (.mergeInto candidate.id update (mergedEntry candidate recordedAt)) then
    return candidate.id
  else
    insert τ incoming createdAt visibleAt (some key)

/-- The part of `Queue::submit` after the candidate and its journal are read. -/
def resolve (task : T) (createdAt visibleAt : DateTime) (key : String) (candidate : JobRecord)
    (pending : Pending T Carry) : StoreProgram Ulid := do
  match τ.merge task pending with
  | .independent => insert τ task createdAt visibleAt (some key)
  | .keep => applyMerge τ candidate none task createdAt visibleAt key
  | .replace =>
      let payload ← json (τ.toValue task)
      let carry ← json (τ.carryToValue τ.carryDefault)
      let update : MergePayload := ⟨payload, carry, (τ.priority task).asSmallint⟩
      applyMerge τ candidate (some update) task createdAt visibleAt key
  | .with merged carry =>
      let payload ← json (τ.toValue merged)
      let carry ← json (τ.carryToValue carry)
      let update : MergePayload := ⟨payload, carry, (τ.priority merged).asSmallint⟩
      applyMerge τ candidate (some update) task createdAt visibleAt key

/-- `Queue::submit`. -/
def submit (task : T) (createdAt visibleAt : DateTime) : StoreProgram Ulid := do
  match τ.dedupKey task with
  | none => insert τ task createdAt visibleAt none
  | some key =>
    match ← call (.dedupCandidate τ.kind key) with
    | none => insert τ task createdAt visibleAt (some key)
    | some candidate =>
      let payload ← json (τ.fromValue candidate.payload)
      let carry ← json (τ.decodeCarry candidate.carry)
      let journal ← call (.journal candidate.id)
      let pending : Pending T Carry :=
        ⟨payload, carry, candidate.runCount, journal.map JournalEntry.fromRecord⟩
      resolve τ task createdAt visibleAt key candidate pending

/-! ### Following a submission -/

section Follows

open Trace.Program

variable {τ} {task : T} {createdAt visibleAt now : DateTime} {key : String}
  {candidate : JobRecord} {read journal write : Act Effect.Answer}
  {rest : Program Effect.Answer (Except Error Ulid)}

/-- What `Queue::apply_merge` goes on with after `merge_into`. -/
def afterMerge (τ : Task T Carry) (candidate : JobRecord) (incoming : T)
    (createdAt visibleAt : DateTime) (key : String) :
    Except Error Bool → Program Effect.Answer (Except Error Ulid)
  | .ok true => .ret (.ok candidate.id)
  | .ok false => (insert τ incoming createdAt visibleAt (some key)).run
  | .error e => .ret (.error e)

/-- A merge reads the clock and writes the candidate. -/
theorem follows_applyMerge {update : Option MergePayload}
    (h : Follows (applyMerge τ candidate update task createdAt visibleAt key).run
      [⟨.now, now⟩, write] rest) :
    ∃ reply, write = ⟨.call (.mergeInto candidate.id update (mergedEntry candidate now)), reply⟩ ∧
      rest = afterMerge τ candidate task createdAt visibleAt key reply := by
  rw [applyMerge, run_now_bind] at h
  obtain ⟨_, hnow, h⟩ := follows_op.mp h
  obtain rfl : now = _ := eq_of_heq (Sigma.mk.inj hnow).2
  rw [run_call_bind] at h
  obtain ⟨reply, hwrite, hdone⟩ := follows_op.mp h
  -- it goes on as `mergeInto` replied
  refine ⟨reply, hwrite, (follows_nil.mp hdone).trans ?_⟩
  rcases reply with e | _ | _ <;> rfl

/-- A decision that goes on with the clock is a merge, under a tier of the task. -/
theorem follows_resolve {pending : Pending T Carry}
    (h : Follows (resolve τ task createdAt visibleAt key candidate pending).run
      [⟨.now, now⟩, write] rest) :
    ∃ update : Option MergePayload, (∀ u ∈ update, 0 ≤ u.priority ∧ u.priority ≤ 2) ∧
      Follows (applyMerge τ candidate update task createdAt visibleAt key).run
        [⟨.now, now⟩, write] rest := by
  unfold resolve at h
  split at h
  · -- an independent insert starts with a fresh id
    rw [insert, run_newUlid_bind] at h
    obtain ⟨_, hop, -⟩ := follows_op.mp h
    cases hop
  · exact ⟨none, by simp, h⟩
  · obtain ⟨payload, -, h⟩ := follows_json h
    obtain ⟨carry, -, h⟩ := follows_json h
    refine ⟨some ⟨payload, carry, (τ.priority task).asSmallint⟩, ?_, h⟩
    rintro _ ⟨⟩
    exact Priority.asSmallint_mem _
  · rename_i merged carry _
    obtain ⟨payload, -, h⟩ := follows_json h
    obtain ⟨carry, -, h⟩ := follows_json h
    refine ⟨some ⟨payload, carry, (τ.priority merged).asSmallint⟩, ?_, h⟩
    rintro _ ⟨⟩
    exact Priority.asSmallint_mem _

/-- **A submission that read a candidate and goes on with the clock merges into it**: it
    read the candidate's journal, and its last call is the merge. -/
theorem follows_submit {reply : Except Error (Option JobRecord)}
    (h : Follows (submit τ task createdAt visibleAt).run
      [⟨.call (.dedupCandidate τ.kind key), reply⟩, journal, ⟨.now, now⟩, write] rest)
    (hreply : reply = .ok (some candidate)) :
    ∃ (update : Option MergePayload) (answer : Except Error Bool),
      (∀ u ∈ update, 0 ≤ u.priority ∧ u.priority ≤ 2) ∧
      write = ⟨.call (.mergeInto candidate.id update (mergedEntry candidate now)), answer⟩ ∧
      rest = afterMerge τ candidate task createdAt visibleAt key answer := by
  subst hreply
  unfold submit at h
  split at h
  · -- a task without a key inserts
    rw [insert, run_newUlid_bind] at h
    obtain ⟨_, hop, -⟩ := follows_op.mp h
    cases hop
  · rw [run_call_bind] at h
    obtain ⟨_, hread, h⟩ := follows_op.mp h
    cases hread
    obtain ⟨payload, -, h⟩ := follows_json h
    obtain ⟨carry, -, h⟩ := follows_json h
    rw [run_call_bind] at h
    obtain ⟨entries, -, h⟩ := follows_op.mp h
    rcases entries with e | entries
    · -- a failed journal read ends the submission
      exact absurd h not_follows_ret
    · obtain ⟨update, htier, h⟩ := follows_resolve h
      obtain ⟨answer, hwrite, hrest⟩ := follows_applyMerge h
      exact ⟨update, answer, htier, hwrite, hrest⟩

end Follows

end Queue

end Venturi
