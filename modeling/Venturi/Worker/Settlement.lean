import Venturi.Backoff
import Venturi.Store.Call

namespace Venturi

/-!
# What a worker writes (`worker/mod.rs`, `outcome.rs`)

* `Worker.settle` / `Worker.release` / `Worker.recovery` — the store call the worker makes
  for a finished run, for a handler it aborted, and for one stale claim.
* `Settles` — what every `settle` call of a worker has in common: the journal entry repeats
  the presented run number and names the settlement, and the failure count is one above
  the count the worker was handed.
-/

/-! ### Outcomes -/

/-- `Outcome`. -/
inductive Outcome where
  | completed (note : Option String)
  | pause (resumeIn : Duration) (note : Option String)
  deriving DecidableEq, Repr

/-- `TaskError`, without the wrapped cause. -/
structure TaskError where
  permanent : Bool
  message : String
  deriving DecidableEq, Repr

/-- `RunReport`, without the duration only the metrics read. -/
structure RunReport where
  result : Except TaskError Outcome
  carry : Value
  backoff : Option Backoff
  attachment : Option Value

/-- `FinishedRun`: the error is one raised before the handler ran. -/
structure FinishedRun where
  id : Ulid
  kind : String
  runNo : Nat
  failureCount : Int
  report : Except Error RunReport

/-- `InflightJob`. -/
structure InflightJob where
  id : Ulid
  kind : String
  runNo : Nat
  deriving DecidableEq

/-! ### Configuration -/

/-- `PanicPolicy`. -/
inductive PanicPolicy where
  | retry
  | dead
  deriving DecidableEq, Repr

/-- `WorkerConfig`. -/
structure WorkerConfig where
  concurrency : Nat
  pollMax : Duration
  lease : Duration
  shutdownTimeout : Duration
  backoff : Backoff
  jitterFraction : ℚ
  backstop : Option Nat
  priorityRatio : Option Nat
  panicPolicy : PanicPolicy

/-- `WorkerConfig::default` on a host whose `default_concurrency` is `concurrency`. -/
def WorkerConfig.default (concurrency : Nat) : WorkerConfig where
  concurrency := concurrency
  pollMax := 30 * 10 ^ 9
  lease := 15 * 60 * 10 ^ 9
  shutdownTimeout := 30 * 10 ^ 9
  backoff := .default
  jitterFraction := 1 / 2
  backstop := some 20
  priorityRatio := some 4
  panicPolicy := .retry

/-- `Worker`: its configuration and the identity its claims record. -/
structure Worker where
  config : WorkerConfig
  identity : String

/-! ### Settling a run -/

/-- `journal_outcome_for`. -/
def journalOutcomeFor : Settlement → JournalOutcome
  | .complete .. => .completed
  | .pause .. => .paused
  | .retry .. => .retried
  | .dead .. => .dead
  | .release .. => .released

/-- The failure count a settlement writes, if it writes one. -/
def Settlement.failureCount? : Settlement → Option Int
  | .retry _ failureCount _ => some failureCount
  | .dead _ failureCount => some failureCount
  | _ => none

/-- A settlement writes a failure count exactly when its journal entry is a failure. -/
theorem isFailure_journalOutcomeFor (settlement : Settlement) :
    (journalOutcomeFor settlement).isFailure = settlement.failureCount?.isSome := by
  cases settlement <;> rfl

/-- `note_for`. -/
def noteFor : Except TaskError Outcome → Option String
  | .ok (.completed note) => note
  | .ok (.pause _ note) => note
  | .error error => some error.message

namespace Worker

variable (fl : ℚ → ℚ) (w : Worker)

/-- `Worker::retry_or_backstop`. -/
def retryOrBackstop (report : RunReport) (id : Ulid) (now : DateTime) (nextFailures : Int) :
    Settlement :=
  let attempt := nextFailures.toNat
  if w.config.backstop.any (fun limit => limit ≤ attempt) then .dead now nextFailures
  else
    let backoff := report.backoff.getD w.config.backoff
    let delay := retryDelay fl backoff w.config.jitterFraction attempt id
    .retry (addDuration now delay) nextFailures report.carry

/-- `Worker::settlement_for`. -/
def settlementFor (report : RunReport) (id : Ulid) (now : DateTime) (nextFailures : Int) :
    Settlement :=
  match report.result with
  | .ok (.completed _) => .complete now
  | .ok (.pause resumeIn _) => .pause (addDuration now resumeIn) report.carry
  | .error error =>
      if error.permanent then .dead now nextFailures
      else w.retryOrBackstop fl report id now nextFailures

/-- The settlement `Worker::settle` computes for a finished run. -/
def settlementOf (now : DateTime) (finished : FinishedRun) : Settlement :=
  let nextFailures := saturatingAdd finished.failureCount 1
  match finished.report with
  | .error _ => .dead now nextFailures
  | .ok report => w.settlementFor fl report finished.id now nextFailures

/-- The call `Worker::settle` makes for a finished run, its clock reading `now`. -/
def settle (now : DateTime) (finished : FinishedRun) : Call :=
  let settlement := w.settlementOf fl now finished
  .settle finished.id w.identity finished.runNo settlement {
    kind := finished.kind
    runNo := finished.runNo
    recordedAt := now
    outcome := journalOutcomeFor settlement
    note := match finished.report with
      | .error error => some error.display
      | .ok report => noteFor report.result
    attachment := match finished.report with
      | .error _ => none
      | .ok report => report.attachment }

/-- The call `Worker::release` makes for a handler it aborted. -/
def release (now : DateTime) (job : InflightJob) : Call :=
  .settle job.id w.identity job.runNo (.release now) {
    kind := job.kind
    runNo := job.runNo
    recordedAt := now
    outcome := .released
    note := some "released by graceful shutdown"
    attachment := none }

/-- The call `Worker::recover_stale` makes for one stale claim, its clock reading `now`. -/
def recovery (now : DateTime) (job : JobRecord) : Call :=
  let nextFailures := saturatingAdd job.failureCount 1
  let delay :=
    retryDelay fl w.config.backoff w.config.jitterFraction nextFailures.toNat job.id
  .recover job.id (addDuration now delay) nextFailures job.runCount {
    kind := job.kind
    runNo := job.runCount
    recordedAt := now
    outcome := .staleRecovered
    note := some ("lease expired; worker " ++ job.claimedBy.getD "unknown" ++ " presumed dead")
    attachment := none }

end Worker

/-- The run a worker spawns for a claimed job, finished with `report`. -/
def JobRecord.finished (r : JobRecord) (report : Except Error RunReport) : FinishedRun :=
  ⟨r.id, r.kind, r.runCount, r.failureCount, report⟩

/-- What a worker tracks of a claimed job. -/
def JobRecord.inflight (r : JobRecord) : InflightJob := ⟨r.id, r.kind, r.runCount⟩

namespace Worker

variable {fl : ℚ → ℚ} {w : Worker} {now : DateTime}

/-- Whatever a worker settles a run with, a failure is counted one above the count the run
    started from. -/
theorem settlementOf_failureCount {finished : FinishedRun} {failureCount : Int}
    (h : (w.settlementOf fl now finished).failureCount? = some failureCount) :
    failureCount = saturatingAdd finished.failureCount 1 := by
  unfold settlementOf at h
  cases hreport : finished.report with
  | error error =>
    -- a run that could not start is dead, one failure up
    rw [hreport] at h
    exact (Option.some.inj h).symm
  | ok report =>
    rw [hreport] at h
    simp only [settlementFor, retryOrBackstop] at h
    split at h
    · cases h
    · cases h
    · -- a permanent failure, a failure at the backstop, a retry: all count the same
      split at h
      · exact (Option.some.inj h).symm
      · split at h <;> exact (Option.some.inj h).symm

/-- A worker retries only below its backstop. -/
theorem settlementOf_retry {finished : FinishedRun} {visibleAt : DateTime} {failureCount : Int}
    {carry : Value} {limit : Nat}
    (h : w.settlementOf fl now finished = .retry visibleAt failureCount carry)
    (hlimit : w.config.backstop = some limit) : failureCount.toNat < limit := by
  unfold settlementOf at h
  cases hreport : finished.report with
  | error error =>
    rw [hreport] at h
    cases h
  | ok report =>
    rw [hreport] at h
    simp only [settlementFor, retryOrBackstop, hlimit, Option.any_some, decide_eq_true_eq] at h
    split at h
    · cases h
    · cases h
    · split at h
      · cases h
      · split at h
        · cases h
        · rename_i hbelow
          obtain ⟨-, rfl, -⟩ := Settlement.retry.inj h
          omega

end Worker

end Venturi
