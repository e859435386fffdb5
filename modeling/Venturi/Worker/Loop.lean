import Venturi.Collections.Map
import Venturi.Queue.Submit
import Venturi.Trace.Run
import Venturi.Worker.Settlement

namespace Venturi

open Collections

/-!
# The worker's loop (`worker/mod.rs`, `worker/registry.rs`)

`Worker::run` as a machine: a control state for every place where the code awaits, and the
three structures it keeps, the tasks of the `JoinSet`, the jobs it tracks in flight and the
count of them by kind.

* `Loop.Step` — every transition of `run`, `recover_stale`, `claim_with_fallback`,
  `apply_task_lease`, `history_for`, `spawn`, `wait_duration`, `reap`, `drain`,
  `force_finish` and `release`, and what the outside does to the machine: a task ends, the
  shutdown token is cancelled.
* A store call and its reply are the label of a step, so the machine runs against any store.
* The random choices of `select!`, the order of the `JoinSet` and of the hash maps, the
  clock readings and the task ids are open.
-/

/-! ### The registry -/

/-- One registered kind: its optional concurrency cap, and what `Task::lease` says of a
    payload (`none` also where the payload does not decode). -/
structure Entry where
  cap : Option Nat
  lease : Value → Option Duration

/-- The registered kinds, in the order the hash map lists them. -/
abbrev Registry := Map String Entry

namespace Registry

/-- `Registry::kinds`. -/
def kinds (registry : Registry) : List String := registry.keys

/-- `Registry::cap`. -/
def cap (registry : Registry) (kind : String) : Option Nat :=
  (registry.lookup kind).bind Entry.cap

/-- `Registry::lease_for`. -/
def leaseFor (registry : Registry) (kind : String) (payload : Value) : Option Duration :=
  (registry.lookup kind).bind (fun entry => entry.lease payload)

end Registry

/-- `clamp_lease`: between a second and 365 days. -/
def clampLease (lease : Duration) : Duration :=
  max (10 ^ 9) (min lease (365 * 24 * 60 * 60 * 10 ^ 9))

/-! ### Choosing what to claim -/

/-- `FLOOR_ALL`. -/
def floorAll : Int := 0

/-- `FLOOR_NORMAL`. -/
def floorNormal : Int := 1

/-- `FLOOR_LOW`. -/
def floorLow : Int := 2

/-- `floor_for`. -/
def floorFor (counter : Nat) (ratio : Option Nat) : Int :=
  match ratio with
  | some r =>
      if 2 ≤ r then
        if counter % (r * r) = 0 then floorLow
        else if counter % r = 0 then floorNormal
        else floorAll
      else floorAll
  | none => floorAll

/-- `u64::wrapping_add(1)`. -/
def wrappingSucc (counter : Nat) : Nat := (counter + 1) % 2 ^ 64

/-- `Worker::claimable_kinds`. -/
def claimableKinds (registry : Registry) (byKind : Tally String) : List String :=
  registry.kinds.filter (fun kind =>
    match registry.cap kind with
    | some cap => (byKind.lookup kind).getD 0 < cap
    | none => true)

/-- `release_slot`. -/
def releaseSlot (byKind : Tally String) (kind : String) : Tally String := byKind.release kind

namespace Worker

variable (w : Worker)

/-- The lease `Worker::apply_task_lease` puts on a claimed job, if it changes it. -/
def taskLease (registry : Registry) (job : JobRecord) : Option Duration :=
  match registry.leaseFor job.kind job.payload with
  | some lease => if clampLease lease = w.config.lease then none else some (clampLease lease)
  | none => none

/-- `Worker::wait_duration`, for the reply of `next_visible_at`. -/
def waitDuration (now : DateTime) (reply : Except Error (Option DateTime)) : Duration :=
  match reply with
  | .ok (some at_) => min (max (at_ - now).toNat (5 * 10 ^ 6)) w.config.pollMax
  | .ok none => w.config.pollMax
  | .error _ => w.config.pollMax

end Worker

/-! ### The state of the loop -/

/-- `tokio::task::Id`. -/
abbrev TaskId := Nat

/-- How a task ends: the handler's future returned, or the join fails (an abort). -/
inductive TaskResult where
  | returned (report : Except Error RunReport)
  | failed

/-- A task of the `JoinSet`: the claimed job it runs, the history it was handed, and how it
    ended, once it did. -/
structure RunTask where
  job : JobRecord
  history : List JournalEntry
  result : Option TaskResult

/-- The code a joined task is handled by: `reap` in the loop, `reap` in `drain`, or
    `force_finish`. -/
inductive Stage where
  | looping
  | draining
  | forcing
  deriving DecidableEq

/-- Where the worker is. -/
inductive Phase where
  /-- About to scan for stale claims. -/
  | scanning
  /-- In the recovery pass, with these stale claims left. -/
  | recovering (now : DateTime) (stale : List JobRecord)
  /-- At the head of the loop that fills the free slots. -/
  | filling
  /-- In `claim_with_fallback`, before its first claim. -/
  | claiming (claimable : List String) (floor : Int)
  /-- In `claim_with_fallback`, before its unconstrained claim. -/
  | fallingBack (claimable : List String)
  /-- A claimed job, before its lease override. -/
  | leasing (job : JobRecord)
  /-- A claimed job, before its history is read. -/
  | loading (job : JobRecord)
  /-- A claimed job, before its task is spawned. -/
  | spawning (job : JobRecord) (history : List JournalEntry)
  /-- Before `next_visible_at`. -/
  | measuring
  /-- At the `select!` of the loop. -/
  | waiting (wait : Duration)
  /-- A joined run, before it is settled. -/
  | settling (finished : FinishedRun) (stage : Stage)
  /-- At the `select!` of `drain`. -/
  | draining
  /-- Past `abort_all`, joining what is left. -/
  | forcing
  /-- Releasing the jobs that are left. -/
  | releasing (jobs : List InflightJob)
  | returned

/-- Where the worker goes on after a joined task. -/
def Stage.phase : Stage → Phase
  | .looping => .scanning
  | .draining => .draining
  | .forcing => .forcing

/-- The state of `Worker::run`. -/
structure Loop where
  phase : Phase
  running : Map TaskId RunTask
  inflight : Map TaskId InflightJob
  byKind : Tally String
  claimCounter : Nat
  /-- Whether the shutdown token is cancelled. -/
  shutdown : Bool

namespace Loop

/-- The worker is called; one without kinds returns at once. -/
def start (registry : Registry) : Loop where
  phase := if registry.kinds = [] then .returned else .scanning
  running := ∅
  inflight := ∅
  byKind := ∅
  claimCounter := 0
  shutdown := false

variable (st : Loop)

/-- The worker goes on elsewhere. -/
def goto (phase : Phase) : Loop := { st with phase := phase }

/-- Spawn the task of a claimed job and track it. -/
def spawn (id : TaskId) (job : JobRecord) (history : List JournalEntry) : Loop :=
  { st with
    byKind := st.byKind.take job.kind
    running := st.running.insert id ⟨job, history, none⟩
    inflight := st.inflight.insert id job.inflight }

/-- Take a joined task out of the `JoinSet`. -/
def join (id : TaskId) : Loop := { st with running := st.running.erase id }

/-- `inflight.remove`. -/
def untrack (id : TaskId) : Loop := { st with inflight := st.inflight.erase id }

/-- The bookkeeping of `Worker::reap`. -/
def reap (id : TaskId) : Loop :=
  match st.inflight.lookup id with
  | some job => { st.untrack id with byKind := releaseSlot st.byKind job.kind }
  | none => st

/-- A task ends. -/
def finish (id : TaskId) (task : RunTask) (result : TaskResult) : Loop :=
  { st with running := st.running.insert id { task with result := some result } }

end Loop

/-! ### The transitions -/

/-- What a step of the loop shows. -/
inductive LoopLabel where
  /-- A store call of the worker, with its reply. -/
  | call (c : Call) (reply : Except Error c.Answer)
  /-- The code goes on without an effect outside. -/
  | internal
  /-- A task is spawned for a claimed job. -/
  | spawned (id : TaskId) (job : JobRecord)
  /-- A task ends. -/
  | ended (id : TaskId) (job : JobRecord) (result : TaskResult)
  /-- The worker joins a task. -/
  | joined (id : TaskId)
  /-- A notification, or the wait is over. -/
  | woken
  /-- The drain deadline fires. -/
  | deadline
  /-- The shutdown token is cancelled. -/
  | cancelled

section Step

variable (fl : ℚ → ℚ) (registry : Registry) (w : Worker)

/-- One step of `Worker::run`. -/
inductive Loop.Step : Loop → LoopLabel → Loop → Prop
  -- recover_stale
  | scan {st : Loop} (h : st.phase = .scanning) (now : DateTime) (stale : List JobRecord) :
      Step st (.call .findStale (.ok stale)) (st.goto (.recovering now stale))
  | scanFailed {st : Loop} (h : st.phase = .scanning) (error : Error) :
      Step st (.call .findStale (.error error)) (st.goto .filling)
  | recover {st : Loop} {now : DateTime} {job : JobRecord} {stale : List JobRecord}
      (h : st.phase = .recovering now (job :: stale)) (reply : Except Error Bool) :
      Step st (.call (w.recovery fl now job) reply) (st.goto (.recovering now stale))
  | recovered {st : Loop} {now : DateTime} (h : st.phase = .recovering now []) :
      Step st .internal (st.goto .filling)
  -- the loop that fills the free slots
  | full {st : Loop} (h : st.phase = .filling)
      (hfull : w.config.concurrency ≤ st.running.keys.length) :
      Step st .internal (st.goto .measuring)
  | stopFilling {st : Loop} (h : st.phase = .filling)
      (hroom : st.running.keys.length < w.config.concurrency) (hshutdown : st.shutdown = true) :
      Step st .internal (st.goto .draining)
  | capped {st : Loop} (h : st.phase = .filling)
      (hroom : st.running.keys.length < w.config.concurrency) (hshutdown : st.shutdown = false)
      (hcapped : claimableKinds registry st.byKind = []) :
      Step st .internal (st.goto .measuring)
  | claim {st : Loop} (h : st.phase = .filling)
      (hroom : st.running.keys.length < w.config.concurrency) (hshutdown : st.shutdown = false)
      (hkinds : claimableKinds registry st.byKind ≠ []) :
      Step st .internal { st with
        claimCounter := wrappingSucc st.claimCounter
        phase := .claiming (claimableKinds registry st.byKind)
          (floorFor (wrappingSucc st.claimCounter) w.config.priorityRatio) }
  -- claim_with_fallback
  | claimed {st : Loop} {kinds : List String} {floor : Int} (h : st.phase = .claiming kinds floor)
      (job : JobRecord) :
      Step st (.call (.claimNext kinds floor w.config.lease w.identity) (.ok (some job)))
        (st.goto (.leasing job))
  | nothing {st : Loop} {kinds : List String} {floor : Int} (h : st.phase = .claiming kinds floor)
      (hfloor : floor = floorAll) :
      Step st (.call (.claimNext kinds floor w.config.lease w.identity) (.ok none))
        (st.goto .measuring)
  | fallBack {st : Loop} {kinds : List String} {floor : Int} (h : st.phase = .claiming kinds floor)
      (hfloor : floor ≠ floorAll) :
      Step st (.call (.claimNext kinds floor w.config.lease w.identity) (.ok none))
        (st.goto (.fallingBack kinds))
  | claimFailed {st : Loop} {kinds : List String} {floor : Int}
      (h : st.phase = .claiming kinds floor) (error : Error) :
      Step st (.call (.claimNext kinds floor w.config.lease w.identity) (.error error))
        (st.goto .measuring)
  | claimedAny {st : Loop} {kinds : List String} (h : st.phase = .fallingBack kinds)
      (job : JobRecord) :
      Step st (.call (.claimNext kinds floorAll w.config.lease w.identity) (.ok (some job)))
        (st.goto (.leasing job))
  | nothingAny {st : Loop} {kinds : List String} (h : st.phase = .fallingBack kinds) :
      Step st (.call (.claimNext kinds floorAll w.config.lease w.identity) (.ok none))
        (st.goto .measuring)
  | claimAnyFailed {st : Loop} {kinds : List String} (h : st.phase = .fallingBack kinds)
      (error : Error) :
      Step st (.call (.claimNext kinds floorAll w.config.lease w.identity) (.error error))
        (st.goto .measuring)
  -- apply_task_lease, history_for, spawn
  | extend {st : Loop} {job : JobRecord} {lease : Duration} (h : st.phase = .leasing job)
      (hlease : w.taskLease registry job = some lease) (reply : Except Error Bool) :
      Step st (.call (.extendLease job.id w.identity job.runCount lease) reply)
        (st.goto (.loading job))
  | keepLease {st : Loop} {job : JobRecord} (h : st.phase = .leasing job)
      (hlease : w.taskLease registry job = none) :
      Step st .internal (st.goto (.loading job))
  | load {st : Loop} {job : JobRecord} (h : st.phase = .loading job)
      (records : List JournalRecord) :
      Step st (.call (.journal job.id) (.ok records))
        (st.goto (.spawning job (records.map JournalEntry.fromRecord)))
  | loadFailed {st : Loop} {job : JobRecord} (h : st.phase = .loading job) (error : Error) :
      Step st (.call (.journal job.id) (.error error)) (st.goto (.spawning job []))
  | spawn {st : Loop} {job : JobRecord} {history : List JournalEntry}
      (h : st.phase = .spawning job history) (id : TaskId) (hnew : id ∉ st.running) :
      Step st (.spawned id job) ((st.spawn id job history).goto .filling)
  -- the wait
  | measure {st : Loop} (h : st.phase = .measuring) (now : DateTime)
      (reply : Except Error (Option DateTime)) :
      Step st (.call (.nextVisibleAt registry.kinds) reply)
        (st.goto (.waiting (w.waitDuration now reply)))
  | stop {st : Loop} {wait : Duration} (h : st.phase = .waiting wait)
      (hshutdown : st.shutdown = true) :
      Step st .internal (st.goto .draining)
  | wake {st : Loop} {wait : Duration} (h : st.phase = .waiting wait) :
      Step st .woken (st.goto .scanning)
  -- reap, in the loop and in drain
  | reapRun {st : Loop} {stage : Stage} {id : TaskId} {job : JobRecord}
      {history : List JournalEntry} {report : Except Error RunReport}
      (h : (stage = .looping ∧ ∃ wait, st.phase = .waiting wait) ∨
        (stage = .draining ∧ st.phase = .draining))
      (htask : st.running.lookup id = some ⟨job, history, some (.returned report)⟩) :
      Step st (.joined id) (((st.join id).reap id).goto (.settling (job.finished report) stage))
  | reapFailed {st : Loop} {stage : Stage} {id : TaskId} {job : JobRecord}
      {history : List JournalEntry}
      (h : (stage = .looping ∧ ∃ wait, st.phase = .waiting wait) ∨
        (stage = .draining ∧ st.phase = .draining))
      (htask : st.running.lookup id = some ⟨job, history, some .failed⟩) :
      Step st (.joined id) (((st.join id).reap id).goto stage.phase)
  | settle {st : Loop} {finished : FinishedRun} {stage : Stage}
      (h : st.phase = .settling finished stage) (now : DateTime) (reply : Except Error Bool) :
      Step st (.call (w.settle fl now finished) reply) (st.goto stage.phase)
  -- the end of drain
  | drained {st : Loop} (h : st.phase = .draining) (hempty : st.running.keys = []) :
      Step st .internal (st.goto .forcing)
  | deadline {st : Loop} (h : st.phase = .draining) (hleft : st.running.keys ≠ []) :
      Step st .deadline (st.goto .forcing)
  -- force_finish
  | forceRun {st : Loop} {id : TaskId} {job : JobRecord} {history : List JournalEntry}
      {report : Except Error RunReport} (h : st.phase = .forcing)
      (htask : st.running.lookup id = some ⟨job, history, some (.returned report)⟩) :
      Step st (.joined id)
        (((st.join id).untrack id).goto (.settling (job.finished report) .forcing))
  | forceFailed {st : Loop} {id : TaskId} {job : JobRecord} {history : List JournalEntry}
      (h : st.phase = .forcing)
      (htask : st.running.lookup id = some ⟨job, history, some .failed⟩) :
      Step st (.joined id) (st.join id)
  | forced {st : Loop} {jobs : List InflightJob} (h : st.phase = .forcing)
      (hempty : st.running.keys = []) (hjobs : jobs.Perm st.inflight.values) :
      Step st .internal { st with inflight := ∅, phase := .releasing jobs }
  | release {st : Loop} {job : InflightJob} {jobs : List InflightJob}
      (h : st.phase = .releasing (job :: jobs)) (now : DateTime) (reply : Except Error Bool) :
      Step st (.call (w.release now job) reply) (st.goto (.releasing jobs))
  | done {st : Loop} (h : st.phase = .releasing []) : Step st .internal (st.goto .returned)
  -- what the outside does
  | ended {st : Loop} {id : TaskId} {task : RunTask} (htask : st.running.lookup id = some task)
      (hrunning : task.result = none) (result : TaskResult) :
      Step st (.ended id task.job result) (st.finish id task result)
  | cancelled {st : Loop} : Step st .cancelled { st with shutdown := true }

end Step

end Venturi
