import Venturi.Postgres.Adapter
import Venturi.Store.Call

namespace Venturi

/-!
# The lifecycle of one job

The abstract model under the claims about whole runs: a job is its row together with its
own journal, and every call either leaves a job alone or takes one step of the machine
below.  The store is then nothing but a family of such machines, one for each id
(`PostgresStore.exec_view` in `Postgres/Refine.lean`), so an invariant of all jobs is
proved on one job.
-/

/-- A job: its row and its journal in order. -/
structure Job where
  row : JobRecord
  log : List JournalRecord

/-- One step of a job under a call at database time `now`. -/
inductive Job.Step (now : DateTime) : Call → Mark → Option Job → Option Job → Prop
  | enqueue {job : NewJob} :
      Step now (.enqueue job) .opened none (some ⟨job.record, []⟩)
  | claim {kinds : List String} {floor : Int} {lease : Duration} {claimedBy : String}
      {row : JobRecord} {log : List JournalRecord}
      (heligible : row.eligible kinds floor now) (hmax : row.runCount < i32Max) :
      Step now (.claimNext kinds floor lease claimedBy) (.handed (row.runCount + 1))
        (some ⟨row, log⟩) (some ⟨row.claim claimedBy (now + lease), log⟩)
  | settle {claimedBy : String} {settlement : Settlement} {journal : JournalAppend}
      {row : JobRecord} {log : List JournalRecord} {n : Nat}
      (howned : row.owned row.id claimedBy row.runCount) :
      Step now (.settle row.id claimedBy row.runCount settlement journal) (.closed row.runCount)
        (some ⟨row, log⟩) (some ⟨settlement.set row, log ++ [journal.record row.id n]⟩)
  | recover {visibleAt : DateTime} {failureCount : Int} {journal : JournalAppend}
      {row : JobRecord} {log : List JournalRecord} {n : Nat} (hstale : row.stale now) :
      Step now (.recover row.id visibleAt failureCount row.runCount journal)
        (.closed row.runCount) (some ⟨row, log⟩)
        (some ⟨row.repend visibleAt failureCount, log ++ [journal.record row.id n]⟩)
  | extendLease {claimedBy : String} {lease : Duration} {row : JobRecord}
      {log : List JournalRecord} (howned : row.owned row.id claimedBy row.runCount) :
      Step now (.extendLease row.id claimedBy row.runCount lease)
        (.extended row.runCount (now + lease)) (some ⟨row, log⟩)
        (some ⟨row.extend (now + lease), log⟩)
  | cleanup {criteria : CleanupCriteria} {row : JobRecord} {log : List JournalRecord}
      (hmatches : criteria.matches row) :
      Step now (.cleanup criteria) .quiet (some ⟨row, log⟩) none
  | merge {update : Option MergePayload} {journal : JournalAppend} {row : JobRecord}
      {log : List JournalRecord} {n : Nat} (hpending : row.status = .pending) :
      Step now (.mergeInto row.id update journal) .quiet (some ⟨row, log⟩)
        (some ⟨row.merge update, log ++ [journal.record row.id n]⟩)

/-- A settlement that took effect was by the owner. -/
theorem Job.Step.settle_inv {now : DateTime} {id : Ulid} {claimedBy : String} {runNo : Nat}
    {settlement : Settlement} {journal : JournalAppend} {mark : Mark} {j : Job} {job' : Option Job}
    (h : Job.Step now (.settle id claimedBy runNo settlement journal) mark (some j) job') :
    j.row.owned id claimedBy runNo ∧ mark = .closed runNo ∧
      ∃ n, job' = some ⟨settlement.set j.row, j.log ++ [journal.record id n]⟩ := by
  cases h with
  | settle howned => exact ⟨howned, rfl, _, rfl⟩

/-- A recovery that took effect found the claim expired, at the epoch it names. -/
theorem Job.Step.recover_inv {now visibleAt : DateTime} {id : Ulid} {failureCount : Int}
    {runNo : Nat} {journal : JournalAppend} {mark : Mark} {j : Job} {job' : Option Job}
    (h : Job.Step now (.recover id visibleAt failureCount runNo journal) mark (some j) job') :
    j.row.recoverable id runNo now ∧ mark = .closed runNo ∧
      ∃ n, job' = some ⟨j.row.repend visibleAt failureCount, j.log ++ [journal.record id n]⟩ := by
  cases h with
  | recover hstale => exact ⟨JobRecord.recoverable_iff.mpr ⟨rfl, hstale, rfl⟩, rfl, _, rfl⟩

/-- A merge that took effect found the job pending. -/
theorem Job.Step.merge_inv {now : DateTime} {id : Ulid} {update : Option MergePayload}
    {journal : JournalAppend} {mark : Mark} {j : Job} {job' : Option Job}
    (h : Job.Step now (.mergeInto id update journal) mark (some j) job') :
    j.row.id = id ∧ j.row.status = .pending ∧
      ∃ n, job' = some ⟨j.row.merge update, j.log ++ [journal.record id n]⟩ := by
  cases h with
  | merge hpending => exact ⟨rfl, hpending, _, rfl⟩

section Epoch

variable {now : DateTime} {c : Call} {mark : Mark} {j j' : Job} {job job' : Option Job}

/-- Only an insert steps from no job. -/
theorem Job.Step.opened_of_none (h : Job.Step now c mark none job') : mark = .opened := by
  cases h
  rfl

/-- It inserts the new job with an empty journal. -/
theorem Job.Step.enqueue_of_none (h : Job.Step now c mark none (some j')) :
    ∃ new, c = .enqueue new ∧ j' = ⟨new.record, []⟩ := by
  cases h
  exact ⟨_, rfl, rfl⟩

/-- **A step never goes back to an earlier run**, and one that leaves the job claimed at the
    run it was at is a lease extension: it writes the expiry and no other column. -/
theorem Job.Step.epoch (h : Job.Step now c mark (some j) (some j')) :
    j.row.runCount ≤ j'.row.runCount ∧
      (j'.row.status = .claimed → j'.row.runCount = j.row.runCount →
        j.row.status = .claimed ∧ ∃ expiry, j'.row = { j.row with claimExpiresAt := expiry }) := by
  cases h with
  | claim =>
    refine ⟨Nat.le_succ _, fun _ hrun => ?_⟩
    exact absurd hrun (Nat.succ_ne_self _)
  | settle =>
    refine ⟨by simp, fun hclaimed => ?_⟩
    exact absurd hclaimed (Settlement.set_status_ne _ _)
  | recover => exact ⟨le_refl _, nofun⟩
  | extendLease howned =>
    obtain ⟨-, -, -, hclaimed⟩ := JobRecord.owned_iff.mp howned
    exact ⟨le_refl _, fun _ _ => ⟨hclaimed, _, rfl⟩⟩
  | merge hpending =>
    refine ⟨by simp, fun hclaimed => ?_⟩
    simp [hpending] at hclaimed

/-! ### Epochs that are over -/

/-- The job is never again claimed at the run number `n`. -/
def Past (n : Nat) (job : Option Job) : Prop :=
  ∀ j ∈ job, n ≤ j.row.runCount ∧ ¬ (j.row.status = .claimed ∧ j.row.runCount = n)

/-- **One step keeps an epoch over**, unless it inserts the job anew. -/
theorem Past.step {n : Nat} (h : Past n job) (hs : Job.Step now c mark job job')
    (hmark : mark ≠ .opened) : Past n job' := by
  intro j' hj'
  obtain rfl : job' = some j' := hj'
  cases job with
  | none => exact absurd hs.opened_of_none hmark
  | some j =>
    obtain ⟨hle, hnot⟩ := h j rfl
    obtain ⟨hgrows, hsame⟩ := hs.epoch
    refine ⟨hle.trans hgrows, fun hclaim => ?_⟩
    obtain ⟨hclaimed, hrun⟩ := hclaim
    -- the run count did not move, so the job was claimed at `n` before
    have hstill : j'.row.runCount = j.row.runCount := by omega
    obtain ⟨hbefore, -⟩ := hsame hclaimed hstill
    exact hnot ⟨hbefore, hstill.symm.trans hrun⟩

end Epoch

end Venturi
