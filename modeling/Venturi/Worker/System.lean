import Venturi.Job.Epochs
import Venturi.Queue.Submit
import Venturi.Worker.Settlement

namespace Venturi

open Sql PostgresStore

/-!
# Workers and queues over one store

* `Made` — the calls a party can make after a history: a worker settles, releases or
  extends only what a claim of its identity returned, a recovery is for a job some scan
  listed, a merge is for a candidate some read returned.  Nothing bounds how many parties
  there are, how often they repeat a call, or how late they make it.
* `Snapshot` — the invariant behind absolute writes: a record a worker holds is the stored
  row, up to the expiry, as long as the row is claimed at the epoch of the record.
* `SystemRun.job` — the induction rule: in a run of the system a call that takes effect on
  a job is `SoundFor` its current row.
-/

/-! ### The calls of the parties -/

/-- A claim of `w` returned `r`. -/
def ClaimedBy (tr : History) (w : Worker) (r : JobRecord) : Prop :=
  ∃ m ∈ tr, ∃ env kinds floor lease,
    m.label = ⟨env, .claimNext kinds floor lease w.identity, .ok (some r)⟩

/-- A stale scan listed `r`. -/
def ListedStale (tr : History) (r : JobRecord) : Prop :=
  ∃ m ∈ tr, ∃ env rs, m.label = ⟨env, .findStale, .ok rs⟩ ∧ r ∈ rs

/-- A dedup read returned `r`. -/
def ReadCandidate (tr : History) (r : JobRecord) : Prop :=
  ∃ m ∈ tr, ∃ env kind key, m.label = ⟨env, .dedupCandidate kind key, .ok (some r)⟩

section Made

variable (fl : ℚ → ℚ) (workers : Worker → Prop)

/-- The calls some worker or queue can make after the history `tr`. -/
inductive Made (tr : History) : Call → Prop
  | enqueue (job : NewJob) : Made tr (.enqueue job)
  | claimNext {w : Worker} (hw : workers w) (kinds : List String) (floor : Int) :
      Made tr (.claimNext kinds floor w.config.lease w.identity)
  | settle {w : Worker} {r : JobRecord} (hw : workers w) (hclaim : ClaimedBy tr w r)
      (now : DateTime) (report : Except Error RunReport) :
      Made tr (w.settle fl now (r.finished report))
  | release {w : Worker} {r : JobRecord} (hw : workers w) (hclaim : ClaimedBy tr w r)
      (now : DateTime) : Made tr (w.release now r.inflight)
  | extendLease {w : Worker} {r : JobRecord} (hw : workers w) (hclaim : ClaimedBy tr w r)
      (lease : Duration) : Made tr (.extendLease r.id w.identity r.runCount lease)
  | recover {w : Worker} {r : JobRecord} (hw : workers w) (hstale : ListedStale tr r)
      (now : DateTime) : Made tr (w.recovery fl now r)
  | mergeInto {candidate : JobRecord} (hread : ReadCandidate tr candidate)
      (update : Option MergePayload) (now : DateTime) :
      Made tr (.mergeInto candidate.id update (Queue.mergedEntry candidate now))
  | cleanup (criteria : CleanupCriteria) : Made tr (.cleanup criteria)
  | journal (id : Ulid) : Made tr (.journal id)
  | nextVisibleAt (kinds : List String) : Made tr (.nextVisibleAt kinds)
  | dedupCandidate (kind key : String) : Made tr (.dedupCandidate kind key)
  | findStale : Made tr .findStale
  | job (id : Ulid) : Made tr (.job id)

/-- The runs of any number of these workers, and of queues, over one store. -/
abbrev SystemRun : History → PostgresStore → Prop :=
  Trace.Run PostgresStore.empty (fun tr s e s' => s.Step e s' ∧ Made fl workers tr e.call)

end Made

/-- A run of the system is one of the store. -/
theorem SystemRun.run {fl : ℚ → ℚ} {workers : Worker → Prop} {tr : History} {s : PostgresStore}
    (h : SystemRun fl workers tr s) : PostgresStore.Run tr s := h.mono (fun _ _ _ _ hs => hs.1)

/-! ### Records the parties hold -/

/-- The records an event gave to a worker or a queue. -/
def Event.snapshots : Event → List JobRecord
  | ⟨_, .claimNext .., .ok (some r)⟩ => [r]
  | ⟨_, .findStale, .ok rs⟩ => rs
  | ⟨_, .dedupCandidate .., .ok (some r)⟩ => [r]
  | _ => []

/-- The job against a record of it: never behind the record's epoch, and the row of the
    record, up to the expiry, while it is claimed at that epoch. -/
def Snapshot (r : JobRecord) (job : Option Job) : Prop :=
  ∀ j ∈ job, r.runCount ≤ j.row.runCount ∧
    (j.row.status = .claimed → j.row.runCount = r.runCount →
      ∃ expiry, j.row = { r with claimExpiresAt := expiry })

/-- A record is current when it is handed out. -/
theorem snapshots_stored {s s' : PostgresStore} {e : Event} {r : JobRecord} (hs : s.Step e s')
    (hr : r ∈ e.snapshots) : s'.view r.id = some ⟨r, s'.journalOf r.id⟩ := by
  obtain ⟨env, c, reply⟩ := e
  cases c with
  | claimNext kinds floor lease claimedBy =>
    simp only [Step, exec] at hs
    rcases commit_eq hs with ⟨o, hok, rfl⟩ | ⟨_, -, rfl, -⟩
    · rcases claimNext_cases hok with ⟨rfl, -⟩ | ⟨job, -, -, -, -, rfl, hview⟩
      · cases hr
      · obtain rfl : r = job.row.claim claimedBy (env.now + lease) := List.mem_singleton.mp hr
        have hjob : s'.view job.row.id =
            some ⟨job.row.claim claimedBy (env.now + lease), job.log⟩ := by
          rw [hview, Function.update_self]
        have hlog : job.log = s'.journalOf job.row.id := (view_eq_some.mp hjob).2
        exact hlog ▸ hjob
    · cases hr
  | findStale =>
    simp only [Step, exec] at hs
    obtain ⟨rfl, rfl⟩ := Prod.mk.inj hs
    exact (mem_findStale hr).1
  | dedupCandidate kind key =>
    simp only [Step, exec] at hs
    obtain ⟨hreply, rfl⟩ := Prod.mk.inj hs
    cases ho : s.dedupCandidate env.rank kind key with
    | none =>
      rw [ho] at hreply
      subst hreply
      cases hr
    | some c =>
      rw [ho] at hreply
      subst hreply
      obtain rfl : r = c := List.mem_singleton.mp hr
      exact (dedupCandidate_cases ho).1
  | _ => cases reply <;> cases hr

/-- **One step keeps a record current or past**, unless it inserts the job anew. -/
theorem Snapshot.step {r : JobRecord} {now : DateTime} {c : Call} {mark : Mark}
    {job job' : Option Job} (h : Snapshot r job) (hs : Job.Step now c mark job job')
    (hmark : mark ≠ .opened) : Snapshot r job' := by
  intro j' hj'
  obtain rfl : job' = some j' := hj'
  cases job with
  | none => exact absurd hs.opened_of_none hmark
  | some j =>
    obtain ⟨hle, hrow⟩ := h j rfl
    obtain ⟨hgrows, hsame⟩ := hs.epoch
    refine ⟨hle.trans hgrows, fun hclaimed hrun => ?_⟩
    have hstill : j'.row.runCount = j.row.runCount := by omega
    -- the expiry is the one column the record may be behind on
    obtain ⟨hbefore, expiry, hrow'⟩ := hsame hclaimed hstill
    obtain ⟨expiry₀, hrow₀⟩ := hrow hbefore (hstill.symm.trans hrun)
    exact ⟨expiry, by rw [hrow', hrow₀]⟩

/-- Every record a party was handed stays current or past. -/
theorem snapshot_of_run {tr : History} {s : PostgresStore} (h : PostgresStore.Run tr s)
    (hfresh : FreshIds tr) {m : Trace.Move PostgresStore Event} (hm : m ∈ tr) {r : JobRecord}
    (hr : r ∈ m.label.snapshots) : Snapshot r (s.view r.id) := by
  obtain ⟨tr₁, tr₂, rfl⟩ := List.append_of_mem hm
  obtain ⟨-, hs, hrun⟩ := h.split
  -- the record is the stored row just after the event, and its id is used by then
  have hstored := snapshots_stored hs hr
  have hfresh₁ : FreshIds (tr₁ ++ [m]) := by
    rw [List.append_cons] at hfresh
    exact hfresh.of_append
  have hborn : r.id ∈ enqueued (tr₁ ++ [m]) := mem_enqueued_of_view hrun hfresh₁ hstored
  refine PostgresStore.Run.jobSince (J := fun _ job => Snapshot r job) hborn ?_
    (fun _ _ _ hsnap _ => hsnap) (fun _ _ _ hsnap hmark hstep => hsnap.step hstep hmark) h hfresh
  rw [hstored]
  rintro _ ⟨⟩
  exact ⟨le_refl _, fun _ _ => ⟨r.claimExpiresAt, rfl⟩⟩

/-! ### What the parties promise -/

/-- What a call that takes effect on `row` owes to it. -/
def Call.SoundFor (workers : Worker → Prop) (row : JobRecord) : Call → Prop
  | .settle _ _ runNo settlement entry =>
      entry.runNo = runNo ∧ entry.outcome = journalOutcomeFor settlement ∧
      (∀ failureCount ∈ settlement.failureCount?,
        failureCount = saturatingAdd row.failureCount 1) ∧
      ∃ w, workers w ∧ ∀ visibleAt failureCount carry,
        settlement = .retry visibleAt failureCount carry →
          ∀ limit ∈ w.config.backstop, failureCount.toNat < limit
  | .recover _ _ failureCount runNo entry =>
      entry.runNo = runNo ∧ entry.outcome = .staleRecovered ∧
      failureCount = saturatingAdd row.failureCount 1
  | .mergeInto _ _ entry => entry.outcome = .merged ∧ entry.runNo ≤ row.runCount
  | _ => True

section System

variable {fl : ℚ → ℚ} {workers : Worker → Prop} {tr : History} {s : PostgresStore}

/-- The claim a worker holds, against the job now. -/
theorem ClaimedBy.snapshot {w : Worker} {r : JobRecord} (hclaim : ClaimedBy tr w r)
    (h : PostgresStore.Run tr s) (hfresh : FreshIds tr) : Snapshot r (s.view r.id) := by
  obtain ⟨m, hm, env, kinds, floor, lease, hlabel⟩ := hclaim
  apply snapshot_of_run h hfresh hm
  rw [hlabel]
  exact List.mem_singleton_self r

/-- The stale record a worker holds, against the job now. -/
theorem ListedStale.snapshot {r : JobRecord} (hstale : ListedStale tr r)
    (h : PostgresStore.Run tr s) (hfresh : FreshIds tr) : Snapshot r (s.view r.id) := by
  obtain ⟨m, hm, env, rs, hlabel, hr⟩ := hstale
  apply snapshot_of_run h hfresh hm
  rw [hlabel]
  exact hr

/-- The failure count of a current record is that of the row. -/
theorem Snapshot.failureCount {r : JobRecord} {j : Job} (h : Snapshot r (some j))
    (hclaimed : j.row.status = .claimed) (hrun : j.row.runCount = r.runCount) :
    j.row.failureCount = r.failureCount := by
  obtain ⟨expiry, hrow⟩ := (h j rfl).2 hclaimed hrun
  rw [hrow]

/-- The candidate a queue holds, against the job now. -/
theorem ReadCandidate.snapshot {r : JobRecord} (hread : ReadCandidate tr r)
    (h : PostgresStore.Run tr s) (hfresh : FreshIds tr) : Snapshot r (s.view r.id) := by
  obtain ⟨m, hm, env, kind, key, hlabel⟩ := hread
  apply snapshot_of_run h hfresh hm
  rw [hlabel]
  exact List.mem_singleton_self r

/-- **A call of the system that takes effect on a job is sound for its current row.** The
    epoch guard is what makes the caller's record current. -/
theorem Made.soundFor {c : Call} {now : DateTime} {mark : Mark} {j : Job} {job' : Option Job}
    (hmade : Made fl workers tr c) (h : PostgresStore.Run tr s) (hfresh : FreshIds tr)
    (hj : s.view j.row.id = some j) (hs : Job.Step now c mark (some j) job') :
    c.SoundFor workers j.row := by
  cases hmade with
  | @settle w r hw hclaim now' report =>
    -- the guard compares the run number of the record with that of the row
    obtain ⟨howned, -⟩ := hs.settle_inv
    obtain ⟨hid, -, hrun, hclaimed⟩ := JobRecord.owned_iff.mp howned
    have hview : s.view r.id = some j := (congrArg s.view hid).symm.trans hj
    have hsnap : Snapshot r (some j) := hview ▸ hclaim.snapshot h hfresh
    have hcount : j.row.failureCount = r.failureCount := hsnap.failureCount hclaimed hrun
    refine ⟨rfl, rfl, fun failureCount hfc => ?_, w, hw, fun visibleAt fc carry hretry => ?_⟩
    · rw [hcount]
      exact Worker.settlementOf_failureCount hfc
    · exact fun limit hlimit => Worker.settlementOf_retry hretry hlimit
  | @release w r hw hclaim now' =>
    -- a release writes no failure count, so it needs no current record
    exact ⟨rfl, rfl, by simp [Settlement.failureCount?], w, hw, by simp⟩
  | @recover w r hw hstale now' =>
    obtain ⟨hrec, -⟩ := hs.recover_inv
    obtain ⟨hid, hexpired, hrun⟩ := JobRecord.recoverable_iff.mp hrec
    obtain ⟨hclaimed, -⟩ := JobRecord.stale_iff.mp hexpired
    have hview : s.view r.id = some j := (congrArg s.view hid).symm.trans hj
    have hsnap : Snapshot r (some j) := hview ▸ hstale.snapshot h hfresh
    have hcount : j.row.failureCount = r.failureCount := hsnap.failureCount hclaimed hrun
    refine ⟨rfl, rfl, ?_⟩
    rw [hcount]
  | @mergeInto candidate hread update now' =>
    have hid : j.row.id = candidate.id := hs.merge_inv.1
    have hview : s.view candidate.id = some j := (congrArg s.view hid).symm.trans hj
    exact ⟨rfl, (hread.snapshot h hfresh j hview).1⟩
  | _ => trivial

/-- **Induction over the life of one job in the system.** -/
theorem SystemRun.job {I : History → Option Job → Prop} {id : Ulid}
    (h0 : I [] none)
    (hquiet : ∀ tr job m, I tr job → m.label.mark id = .quiet → I (tr ++ [m]) job)
    (hstep : ∀ tr job job' m, I tr job → m.before.view id = job →
      (∀ j ∈ job, m.label.call.SoundFor workers j.row) →
      Job.Step m.label.env.now m.label.call (m.label.mark id) job job' → I (tr ++ [m]) job')
    (h : SystemRun fl workers tr s) (hfresh : FreshIds tr) : I tr (s.view id) := by
  refine Trace.Run.invariant (I := fun tr s => FreshIds tr → I tr (s.view id)) ?_ ?_ h hfresh
  · exact fun _ => h0
  · intro tr s e s' hrun hI hs hfresh
    obtain ⟨hs, hmade⟩ := hs
    have hfresh' : FreshIds tr := hfresh.of_append
    rcases exec_view hs id with ⟨hview, hmark⟩ | hjob
    · exact hview ▸ hquiet tr (s.view id) ⟨s, e, s'⟩ (hI hfresh') hmark
    · refine hstep tr (s.view id) (s'.view id) ⟨s, e, s'⟩ (hI hfresh') rfl (fun j hj => ?_) hjob
      have hid : j.row.id = id := view_id hj
      have hj' : s.view j.row.id = some j := hid ▸ hj
      exact hmade.soundFor (SystemRun.run hrun) hfresh' hj' (Option.mem_def.mp hj ▸ hjob)

end System

/-! ### A sample system -/

/-- One worker, `w`, under the default configuration. -/
def sampleWorker : Worker := ⟨WorkerConfig.default 1, "w"⟩

/-- The system of this worker alone. -/
def sampleWorkers (w : Worker) : Prop := w = sampleWorker

/-- The sample job is enqueued, … -/
def sampleEnqueue : Trace.Move PostgresStore Event :=
  PostgresStore.empty.next (.ofNow 0) (.enqueue sampleJob)

/-- … claimed by the worker, … -/
def sampleClaimed : Trace.Move PostgresStore Event :=
  sampleEnqueue.after.next (.ofNow 0)
    (.claimNext ["feed"] 0 sampleWorker.config.lease sampleWorker.identity)

/-- … as this row, … -/
def sampleRow : JobRecord := sampleJob.record.claim "w" (0 + sampleWorker.config.lease)

/-- … and its handler fails, retryably. -/
def sampleFailed : Trace.Move PostgresStore Event :=
  sampleClaimed.after.next (.ofNow 1)
    (sampleWorker.settle id 1
      (sampleRow.finished (.ok ⟨.error ⟨false, "boom"⟩, .null, none, none⟩)))

/-- The sample worker claimed the sample job. -/
theorem sampleRow_claimedBy :
    ClaimedBy [sampleEnqueue, sampleClaimed] sampleWorker sampleRow :=
  ⟨sampleClaimed, by simp, _, _, _, _, rfl⟩

/-- It settles its failure. -/
theorem sampleFailed_run :
    SystemRun id sampleWorkers [sampleEnqueue, sampleClaimed, sampleFailed]
      sampleFailed.after := by
  have hw : sampleWorkers sampleWorker := rfl
  refine .snoc (.snoc (.snoc .start ⟨rfl, .enqueue sampleJob⟩) ⟨rfl, ?claim⟩) ⟨rfl, ?settle⟩
  case claim => exact .claimNext hw ["feed"] 0
  case settle => exact .settle hw sampleRow_claimedBy 1 _

end Venturi
