import Venturi.Fake.Mirror
import Venturi.Postgres.Programs
import Venturi.Worker.System

namespace Venturi

open Sql Trace

/-!
# A recovery pass (`worker/mod.rs`, `postgres/mod.rs`)

One pass of a worker that is alone with the database, and any number of them.

* `Worker.recoverStale` — the pass as a program: one scan, one clock reading, one guarded update
  for each scanned job.
* `EarliestStale` — what a scan returns: at most 100 expired claims, the earliest first.
* `Recovers` — what the updates do: every scanned job is re-pended and journaled, and nothing
  else changes.
* `Recovers.stale_le` / `Passes.leaves` — each pass leaves 100 fewer of the claims that were
  expired at the start.
-/

/-! ### The pass -/

/-- The loop of `Worker::recover_stale`; an error is only logged. -/
def Worker.recoverEach (fl : ℚ → ℚ) (w : Worker) (now : DateTime) :
    List JobRecord → Program Effect.Answer Unit
  | [] => return ()
  | job :: stale => do
    let _ ← Program.perform (Effect.call (w.recovery fl now job))
    w.recoverEach fl now stale

/-- `Worker::recover_stale`. -/
def Worker.recoverStale (fl : ℚ → ℚ) (w : Worker) : Program Effect.Answer Unit := do
  match ← Program.perform (Effect.call .findStale) with
  | .error _ => return ()
  | .ok stale =>
    let now ← Program.perform Effect.now
    w.recoverEach fl now stale

/-- A recovered row: pending and unclaimed, with one failure more, from the delay of that failure
    on; every other column stays. -/
def Worker.recovered (fl : ℚ → ℚ) (w : Worker) (now : DateTime) (r : JobRecord) : JobRecord :=
  let nextFailures := saturatingAdd r.failureCount 1
  let delay := retryDelay fl w.config.backoff w.config.jitterFraction nextFailures.toNat r.id
  { r with
    status := .pending
    visibleAt := addDuration now delay
    failureCount := nextFailures
    claimExpiresAt := none
    claimedBy := none }

/-! ### A worker alone with the database -/

/-- Nobody else steps in, every call gets through to the database, and the clock of the database
    does not go back. -/
structure Unhindered (tr : List StoreTurn) : Prop where
  solo : Solo tr
  served : ∀ m ∈ owns tr, ∀ c reply, m.label.2 = ⟨.call c, reply⟩ →
    m.before.Step ⟨m.label.1, c, reply⟩ m.after
  clock : (owns tr).Pairwise (fun m m' => m.label.1.now ≤ m'.label.1.now)

/-- The instant of the first operation. -/
def scanTime (tr : List StoreTurn) : Option DateTime := (owns tr).head?.map (fun m => m.label.1.now)

/-- What is unhindered is so after its first call. -/
theorem Unhindered.of_own {m : OwnMove} {tr : List StoreTurn} (h : Unhindered (.own m :: tr)) :
    Unhindered tr where
  solo t ht := h.solo t (List.mem_cons_of_mem _ ht)
  served m' hm' := h.served m' (List.mem_cons_of_mem _ hm')
  clock := (List.pairwise_cons.mp h.clock).2

theorem Unhindered.of_append {tr tr' : List StoreTurn} (h : Unhindered (tr ++ tr')) :
    Unhindered tr ∧ Unhindered tr' := by
  obtain ⟨hsolo, hserved, hclock⟩ := h
  rw [owns_append] at hserved hclock
  obtain ⟨hserved, hserved'⟩ := List.forall_mem_append.mp hserved
  obtain ⟨hclock, hclock', -⟩ := List.pairwise_append.mp hclock
  obtain ⟨hsolo, hsolo'⟩ := List.forall_mem_append.mp hsolo
  exact ⟨⟨hsolo, hserved, hclock⟩, ⟨hsolo', hserved', hclock'⟩⟩

/-- A run number fits its column. -/
def PostgresStore.InColumns (s : PostgresStore) : Prop := ∀ r ∈ s.jobs.rows, r.runCount ≤ i32Max

/-- A step leaves the rows in the range of their columns. -/
theorem PostgresStore.InColumns.step {s s' : PostgresStore} {e : Event} (h : s.InColumns)
    (hs : s.Step e s') : s'.InColumns := by
  intro r' hr'
  rcases hs.origin hr' with ⟨r, hr, -, hcount⟩ | ⟨new, -, rfl⟩
  · exact hcount (h r hr)
  · exact Nat.zero_le _

/-- It does in every run of the database. -/
theorem inColumns_of_run {tr : History} {s : PostgresStore} (h : PostgresStore.Run tr s) :
    s.InColumns :=
  Trace.Run.invariant (I := fun _ s => s.InColumns) (fun _ hr => nomatch hr)
    (fun _ _ _ _ _ hI hs => hI.step hs) h

/-! ### The scan -/

/-- An expired claim stays expired. -/
theorem JobRecord.stale_mono {r : JobRecord} {t₀ t : DateTime} (h : r.stale t₀) (ht : t₀ ≤ t) :
    r.stale t := by
  obtain ⟨hclaimed, expiry, hexpiry, hlt⟩ := JobRecord.stale_iff.mp h
  exact JobRecord.stale_iff.mpr ⟨hclaimed, expiry, hexpiry, hlt.trans_le ht⟩

section Scan

variable {s : PostgresStore} {t₀ t : DateTime} {rank : Ulid → Nat}

/-- At most 100 of the claims expired at `t`, the earliest first. -/
structure EarliestStale (s : PostgresStore) (t : DateTime) (batch : List JobRecord) : Prop where
  stale : ∀ r ∈ batch, r ∈ s.jobs.rows ∧ r.stale t
  nodup : (batch.map JobRecord.id).Nodup
  length : batch.length = min (s.jobs.rows.countP (JobRecord.stale t)) 100
  earliest : ∀ r ∈ batch, ∀ r' ∈ s.jobs.rows, r'.stale t → r' ∉ batch →
    ∀ expiry expiry', r.claimExpiresAt = some expiry → r'.claimExpiresAt = some expiry' →
      expiry ≤ expiry'

/-- **`find_stale`** returns them. -/
theorem earliestStale_findStale : EarliestStale s t (s.findStale t rank) where
  stale r hr := by
    obtain ⟨hscan, hstale⟩ := List.mem_filter.mp (mem_orderBy.mp (List.mem_of_mem_take hr))
    exact ⟨Table.mem_scan.mp hscan, hstale⟩
  nodup := by
    have hscan : ((s.jobs.scan rank).map JobRecord.id).Nodup :=
      (Table.perm_scan.map JobRecord.id).nodup_iff.mpr s.jobs.nodup
    have hstale : (((s.jobs.scan rank).filter (JobRecord.stale t)).map JobRecord.id).Nodup :=
      hscan.sublist (List.filter_sublist.map JobRecord.id)
    have hsorted : ((orderBy (fun r => r.claimExpiresAt.getD 0)
        ((s.jobs.scan rank).filter (JobRecord.stale t))).map JobRecord.id).Nodup :=
      (perm_orderBy.map JobRecord.id).nodup_iff.mpr hstale
    exact hsorted.sublist ((List.take_sublist 100 _).map JobRecord.id)
  length := by
    have hscan : ((s.jobs.scan rank).filter (JobRecord.stale t)).length =
        s.jobs.rows.countP (JobRecord.stale t) := by
      rw [← List.countP_eq_length_filter, Table.perm_scan.countP_eq]
    show ((orderBy _ _).take 100).length = _
    rw [List.length_take, perm_orderBy.length_eq, hscan, Nat.min_comm]
  earliest r hr r' hr' hstale hleft expiry expiry' hexpiry hexpiry' := by
    have hle := orderBy_take_le hr
      (List.mem_filter.mpr ⟨Table.mem_scan.mpr hr', hstale⟩) hleft
    simpa only [hexpiry, hexpiry', Option.getD_some] using hle

/-- A batch that is not full leaves no expired claim out. -/
theorem EarliestStale.full {batch : List JobRecord} (h : EarliestStale s t batch)
    {r : JobRecord} (hr : r ∈ s.jobs.rows) (hstale : r.stale t) (hleft : r ∉ batch) :
    batch.length = 100 := by
  have hlength := h.length
  -- the batch and the claim left out are distinct expired claims
  have hsub : (r :: batch).Subperm (s.jobs.rows.filter (JobRecord.stale t)) := by
    refine List.subperm_of_subset (List.nodup_cons.mpr ⟨hleft, h.nodup.of_map _⟩) ?_
    refine List.forall_mem_cons.mpr ⟨List.mem_filter.mpr ⟨hr, hstale⟩, fun r' hr' => ?_⟩
    exact List.mem_filter.mpr (h.stale r' hr')
  have hcount := hsub.length_le
  rw [List.length_cons, ← List.countP_eq_length_filter] at hcount
  omega

/-- When a claim that had expired by an earlier instant is left out, the batch is full, and all of
    it had expired by then. -/
theorem EarliestStale.expired {batch : List JobRecord} (h : EarliestStale s t batch)
    (ht : t₀ ≤ t) {r : JobRecord} (hr : r ∈ s.jobs.rows) (hstale : r.stale t₀)
    (hleft : r ∉ batch) : batch.length = 100 ∧ ∀ r' ∈ batch, r'.stale t₀ := by
  have hstale' : r.stale t := JobRecord.stale_mono hstale ht
  refine ⟨h.full hr hstale' hleft, fun r' hr' => ?_⟩
  obtain ⟨-, expiry, hexpiry, hlt⟩ := JobRecord.stale_iff.mp hstale
  obtain ⟨hclaimed', expiry', hexpiry', -⟩ := JobRecord.stale_iff.mp (h.stale r' hr').2
  have hle := h.earliest r' hr' r hr hstale' hleft _ _ hexpiry' hexpiry
  exact JobRecord.stale_iff.mpr ⟨hclaimed', expiry', hexpiry', hle.trans_lt hlt⟩

end Scan

/-! ### The updates -/

/-- The recovery of these rows: each is re-pended and gains one entry, and no other job
    changes. -/
structure Recovers (fl : ℚ → ℚ) (w : Worker) (now : DateTime) (s s' : PostgresStore)
    (batch : List JobRecord) : Prop where
  recovered : ∀ r ∈ batch, ∃ entry : JournalRecord,
    entry.jobId = r.id ∧ entry.outcome = .staleRecovered ∧ entry.runNo = r.runCount ∧
      s'.view r.id = some ⟨w.recovered fl now r, s.journalOf r.id ++ [entry]⟩
  rest : ∀ id, (∀ r ∈ batch, r.id ≠ id) → s'.view id = s.view id

section Updates

variable {fl : ℚ → ℚ} {w : Worker} {now t : DateTime} {s s' : PostgresStore} {r : JobRecord}
  {batch : List JobRecord} {tr : List StoreTurn}

/-- One recovery, of a row that is stored, at an instant its lease has expired. -/
theorem recover_step {env : Env} {reply : Except Error Bool} (hcolumns : s.InColumns)
    (hr : r ∈ s.jobs.rows) (hstale : r.stale t) (ht : t ≤ env.now)
    (hs : s.Step ⟨env, w.recovery fl now r, reply⟩ s') :
    ∃ entry : JournalRecord, entry.jobId = r.id ∧ entry.outcome = .staleRecovered ∧
      entry.runNo = r.runCount ∧ s'.view = Function.update s.view r.id
        (some ⟨w.recovered fl now r, s.journalOf r.id ++ [entry]⟩) := by
  have hjob : s.view r.id = some ⟨r, s.journalOf r.id⟩ :=
    PostgresStore.view_eq_some.mpr ⟨Table.find?_key hr, rfl⟩
  -- the lease has not come back since the scan
  have hrecoverable : r.recoverable r.id r.runCount env.now :=
    JobRecord.recoverable_iff.mpr ⟨rfl, JobRecord.stale_mono hstale ht, rfl⟩
  obtain ⟨visibleAt, failureCount, journal, hcall, hrow, hrunNo, houtcome⟩ :
      ∃ visibleAt failureCount journal,
        w.recovery fl now r = .recover r.id visibleAt failureCount r.runCount journal ∧
        w.recovered fl now r = r.repend visibleAt failureCount ∧
        journal.runNo = r.runCount ∧ journal.outcome = .staleRecovered :=
    ⟨_, _, _, rfl, rfl, rfl, rfl⟩
  obtain ⟨n, s₁, hok, hview⟩ := PostgresStore.recover_hit visibleAt failureCount (hcolumns r hr)
    (hrunNo.le.trans (hcolumns r hr)) hjob hrecoverable
  have hexec : s.exec env (.recover r.id visibleAt failureCount r.runCount journal) =
      (.ok true, s₁) := by
    rw [PostgresStore.exec, hok]
    rfl
  have hs₁ : s₁ = s' := by
    have hafter : (s.exec env (w.recovery fl now r)).2 = s' := congrArg Prod.snd hs
    rwa [hcall, hexec] at hafter
  subst hs₁
  exact ⟨journal.record r.id n, rfl, houtcome, hrunNo, hrow ▸ hview⟩

/-- A row stored under another id is as it was. -/
theorem view_of_update {s₁ : PostgresStore} {id : Ulid} {job : Option Job}
    (hview : s₁.view = Function.update s.view id job) (hr : r ∈ s.jobs.rows) (hne : r.id ≠ id) :
    s₁.view r.id = some ⟨r, s.journalOf r.id⟩ := by
  rw [hview, Function.update_of_ne hne]
  exact PostgresStore.view_eq_some.mpr ⟨Table.find?_key hr, rfl⟩

/-- One recovery, and the recovery of rows under other ids after it. -/
theorem Recovers.cons {s₁ : PostgresStore} {entry : JournalRecord} (hjobId : entry.jobId = r.id)
    (houtcome : entry.outcome = .staleRecovered) (hrunNo : entry.runNo = r.runCount)
    (hview : s₁.view = Function.update s.view r.id
      (some ⟨w.recovered fl now r, s.journalOf r.id ++ [entry]⟩))
    (hrows : ∀ r' ∈ batch, r' ∈ s.jobs.rows) (hnew : ∀ r' ∈ batch, r'.id ≠ r.id)
    (hbatch : Recovers fl w now s₁ s' batch) : Recovers fl w now s s' (r :: batch) := by
  refine ⟨List.forall_mem_cons.mpr ⟨⟨entry, hjobId, houtcome, hrunNo, ?_⟩, fun r' hr' => ?_⟩,
    fun id hid => ?_⟩
  · rw [hbatch.rest r.id hnew, hview, Function.update_self]
  · obtain ⟨entry', hjobId', houtcome', hrunNo', hview'⟩ := hbatch.recovered r' hr'
    have hbefore := view_of_update hview (hrows r' hr') (hnew r' hr')
    have hlog : s.journalOf r'.id = s₁.journalOf r'.id :=
      (PostgresStore.view_eq_some.mp hbefore).2
    exact ⟨entry', hjobId', houtcome', hrunNo', hlog ▸ hview'⟩
  · obtain ⟨hfirst, hid⟩ := List.forall_mem_cons.mp hid
    rw [hbatch.rest id hid, hview, Function.update_of_ne (Ne.symm hfirst)]

/-- **The updates of a pass**, one after the other: the rows are stored under different ids, so
    each is still as it was scanned when its turn comes. -/
theorem recovers_recoverEach (hcolumns : s.InColumns) (hrows : ∀ r ∈ batch, r ∈ s.jobs.rows)
    (hnodup : (batch.map JobRecord.id).Nodup) (hstale : ∀ r ∈ batch, r.stale t)
    (hexec : StoreProgram.Exec (w.recoverEach fl now batch) s tr (.ret ()) s')
    (hunhindered : Unhindered tr) (ht : ∀ m ∈ owns tr, t ≤ m.label.1.now) :
    Recovers fl w now s s' batch := by
  induction batch generalizing s tr with
  | nil =>
    obtain ⟨rfl, rfl⟩ := hexec.of_ret_solo hunhindered.solo
    exact ⟨List.forall_mem_nil _, fun _ _ => rfl⟩
  | cons r batch ih =>
    obtain ⟨hr, hrows⟩ := List.forall_mem_cons.mp hrows
    obtain ⟨hid, hnodup⟩ := List.nodup_cons.mp hnodup
    have hnew : ∀ r' ∈ batch, r'.id ≠ r.id :=
      fun r' hr' heq => hid (heq ▸ List.mem_map_of_mem hr')
    obtain ⟨hexpired, hstale⟩ := List.forall_mem_cons.mp hstale
    obtain ⟨env, reply, s₁, tr', rfl, -, hsolo, hrest⟩ := hexec.of_op_solo hunhindered.solo
    obtain ⟨hfirst, ht⟩ := List.forall_mem_cons.mp ht
    have hstep := hunhindered.served _ List.mem_cons_self _ _ rfl
    obtain ⟨entry, hjobId, houtcome, hrunNo, hview⟩ :=
      recover_step hcolumns hr hexpired hfirst hstep
    have hrows₁ : ∀ r' ∈ batch, r' ∈ s₁.jobs.rows := by
      intro r' hr'
      have hafter := view_of_update hview (hrows r' hr') (hnew r' hr')
      exact Table.mem_of_find? (PostgresStore.view_eq_some.mp hafter).1
    have hbatch := ih (hcolumns.step hstep) hrows₁ hnodup hstale hrest hunhindered.of_own ht
    exact hbatch.cons hjobId houtcome hrunNo hview hrows hnew

/-- **One pass** scans for the earliest expired claims and recovers them, at the instant its own
    clock shows after the scan. -/
theorem recovers_recoverStale (hcolumns : s.InColumns)
    (hexec : StoreProgram.Exec (w.recoverStale fl) s tr (.ret ()) s')
    (hunhindered : Unhindered tr) :
    ∃ t now batch, scanTime tr = some t ∧ (∃ m ∈ owns tr, m.label.2 = ⟨.now, now⟩) ∧
      EarliestStale s t batch ∧ Recovers fl w now s s' batch := by
  obtain ⟨env, reply, s₁, tr₁, rfl, -, hsolo, hrest⟩ := hexec.of_op_solo hunhindered.solo
  have hscan : s.exec env .findStale = (reply, s₁) :=
    hunhindered.served _ List.mem_cons_self _ _ rfl
  obtain ⟨hreply, hsame⟩ := Prod.mk.inj hscan
  subst hreply hsame
  -- the clock of the worker
  obtain ⟨env', now, s₂, tr₂, rfl, hnow, -, hrest⟩ := hrest.of_op_solo hsolo
  have hsame := hnow.of_now.symm
  subst hsame
  have hbatch : EarliestStale s env.now (s.findStale env.now env.rank) := earliestStale_findStale
  refine ⟨env.now, now, _, rfl, ⟨⟨s, (env', ⟨.now, now⟩), s⟩, by simp, rfl⟩, hbatch, ?_⟩
  have hclock := (List.pairwise_cons.mp hunhindered.clock).1
  exact recovers_recoverEach hcolumns (fun r hr => (hbatch.stale r hr).1) hbatch.nodup
    (fun r hr => (hbatch.stale r hr).2) hrest hunhindered.of_own.of_own
    (fun m hm => hclock m (List.mem_cons_of_mem _ hm))

end Updates

/-! ### Pass after pass -/

/-- Consecutive passes, with the turns of each. -/
inductive Passes (fl : ℚ → ℚ) (w : Worker) :
    PostgresStore → List (List StoreTurn) → PostgresStore → Prop
  | none (s : PostgresStore) : Passes fl w s [] s
  | pass {s s₁ s' : PostgresStore} {tr : List StoreTurn} {trs : List (List StoreTurn)}
      (h : StoreProgram.Exec (w.recoverStale fl) s tr (.ret ()) s₁)
      (hrest : Passes fl w s₁ trs s') : Passes fl w s (tr :: trs) s'

section Passes

variable {fl : ℚ → ℚ} {w : Worker} {now t t₀ : DateTime} {s s' : PostgresStore} {r : JobRecord}
  {batch : List JobRecord} {tr : List StoreTurn} {trs : List (List StoreTurn)}

/-- What a pass does to a stored row: it is recovered if it was in the batch, else unchanged. -/
theorem Recovers.find? (h : Recovers fl w now s s' batch) (hr : r ∈ s.jobs.rows)
    (hrows : ∀ r' ∈ batch, r' ∈ s.jobs.rows) :
    s'.jobs.find? r.id = some (if r ∈ batch then w.recovered fl now r else r) := by
  split
  · rename_i hmem
    obtain ⟨_, -, -, -, hview⟩ := h.recovered r hmem
    exact (PostgresStore.view_eq_some.mp hview).1
  · rename_i hmem
    have hid : ∀ r' ∈ batch, r'.id ≠ r.id := by
      intro r' hr' hid
      exact hmem (s.jobs.eq_of_key_eq (hrows r' hr') hr hid ▸ hr')
    have hview : s'.view r.id = some ⟨r, s.journalOf r.id⟩ := by
      rw [h.rest r.id hid]
      exact PostgresStore.view_eq_some.mpr ⟨Table.find?_key hr, rfl⟩
    exact (PostgresStore.view_eq_some.mp hview).1

/-- A row after a pass was recovered in it, or is a row from before that was not scanned. -/
theorem Recovers.origin (h : Recovers fl w now s s' batch) (hr : r ∈ s'.jobs.rows) :
    (∃ r' ∈ batch, r = w.recovered fl now r') ∨ (r ∈ s.jobs.rows ∧ r ∉ batch) := by
  have hview' : s'.view r.id = some ⟨r, s'.journalOf r.id⟩ :=
    PostgresStore.view_eq_some.mpr ⟨Table.find?_key hr, rfl⟩
  by_cases hid : ∃ r' ∈ batch, r'.id = r.id
  · obtain ⟨r', hr', hid⟩ := hid
    obtain ⟨_, -, -, -, hview⟩ := h.recovered r' hr'
    rw [hid, hview'] at hview
    exact .inl ⟨r', hr', congrArg Job.row (Option.some.inj hview)⟩
  · have hid' : ∀ r' ∈ batch, r'.id ≠ r.id := fun r' hr' heq => hid ⟨r', hr', heq⟩
    have hview : s.view r.id = some ⟨r, s'.journalOf r.id⟩ := (h.rest r.id hid').symm.trans hview'
    exact .inr ⟨Table.mem_of_find? (PostgresStore.view_eq_some.mp hview).1,
      fun hmem => hid' r hmem rfl⟩

/-- So does a recovery pass. -/
theorem Recovers.inColumns (h : Recovers fl w now s s' batch) (hcolumns : s.InColumns)
    (hrows : ∀ r' ∈ batch, r' ∈ s.jobs.rows) : s'.InColumns := by
  intro r hr
  rcases h.origin hr with ⟨r', hr', rfl⟩ | ⟨hr, -⟩
  · exact hcolumns r' (hrows r' hr')
  · exact hcolumns r hr

/-- A claim that is expired after a pass is from before, and was not scanned. -/
theorem Recovers.stale_before (h : Recovers fl w now s s' batch) (hr : r ∈ s'.jobs.rows)
    (hstale : r.stale t₀) : r ∈ s.jobs.rows ∧ r ∉ batch := by
  rcases h.origin hr with ⟨r', -, rfl⟩ | hbefore
  · -- a recovered row is pending
    cases (JobRecord.stale_iff.mp hstale).1
  · exact hbefore

/-- **A pass leaves 100 fewer of the claims expired by an earlier instant**, or none: the batch
    takes the earliest first. -/
theorem Recovers.stale_le (h : Recovers fl w now s s' batch) (hbatch : EarliestStale s t batch)
    (ht : t₀ ≤ t) : s'.jobs.rows.countP (JobRecord.stale t₀) ≤
      s.jobs.rows.countP (JobRecord.stale t₀) - 100 := by
  have hrows : ∀ r ∈ batch, r ∈ s.jobs.rows := fun r hr => (hbatch.stale r hr).1
  rw [List.countP_eq_length_filter, List.countP_eq_length_filter]
  cases hleft : s'.jobs.rows.filter (JobRecord.stale t₀) with
  | nil => exact Nat.zero_le _
  | cons r left =>
    have hr : r ∈ s'.jobs.rows.filter (JobRecord.stale t₀) := hleft ▸ List.mem_cons_self
    obtain ⟨hr, hstale⟩ := List.mem_filter.mp hr
    obtain ⟨hr, hout⟩ := h.stale_before hr hstale
    -- the whole batch expired no later than the claim left out
    obtain ⟨hfull, hearlier⟩ := hbatch.expired ht hr hstale hout
    rw [← hleft, ← hfull]
    have hsub : (batch ++ s'.jobs.rows.filter (JobRecord.stale t₀)).Subperm
        (s.jobs.rows.filter (JobRecord.stale t₀)) := by
      refine List.subperm_of_subset ?_ ?_
      · refine List.nodup_append.mpr ⟨hbatch.nodup.of_map _, s'.jobs.nodup.of_map _ |>.filter _, ?_⟩
        rintro r₁ hr₁ r₂ hr₂ rfl
        obtain ⟨hr₂, hstale₂⟩ := List.mem_filter.mp hr₂
        exact (h.stale_before hr₂ hstale₂).2 hr₁
      · refine List.append_subset.mpr ⟨fun r' hr' => ?_, fun r' hr' => ?_⟩
        · exact List.mem_filter.mpr ⟨hrows r' hr', hearlier r' hr'⟩
        · obtain ⟨hr', hstale'⟩ := List.mem_filter.mp hr'
          exact List.mem_filter.mpr ⟨(h.stale_before hr' hstale').1, hstale'⟩
    have hlength := hsub.length_le
    rw [List.length_append] at hlength
    omega

/-- The row of a claim is still as it was, or pending. -/
def Awaits (s : PostgresStore) (r : JobRecord) : Prop :=
  ∃ r', s.jobs.find? r.id = some r' ∧ (r' = r ∨ r'.status = .pending)

/-- A pass keeps it so. -/
theorem Recovers.awaits (h : Recovers fl w now s s' batch) (hbatch : EarliestStale s t batch)
    (hr : Awaits s r) : Awaits s' r := by
  obtain ⟨r', hfind, hcase⟩ := hr
  have hr' : r' ∈ s.jobs.rows := Table.mem_of_find? hfind
  have hid : r'.id = r.id := Table.key_of_find? hfind
  have hafter := h.find? hr' (fun r' hr' => (hbatch.stale r' hr').1)
  rw [hid] at hafter
  refine ⟨_, hafter, ?_⟩
  split
  · exact .inr rfl
  · exact hcase

/-- **What passes leave**: 100 fewer each of the claims expired by an earlier instant, and every
    claim as it was or pending. -/
theorem Passes.leaves (h : Passes fl w s trs s') (hcolumns : s.InColumns)
    (hunhindered : Unhindered trs.flatten) (ht : ∀ m ∈ owns trs.flatten, t₀ ≤ m.label.1.now) :
    s'.jobs.rows.countP (JobRecord.stale t₀) ≤
        s.jobs.rows.countP (JobRecord.stale t₀) - 100 * trs.length ∧
      ∀ r, Awaits s r → Awaits s' r := by
  induction h with
  | none s => exact ⟨le_refl _, fun _ hr => hr⟩
  | @pass s s₁ s' tr trs hexec hrest ih =>
    rw [List.flatten_cons] at hunhindered ht
    obtain ⟨hfirst, hlater⟩ := hunhindered.of_append
    rw [owns_append] at ht
    obtain ⟨htfirst, htlater⟩ := List.forall_mem_append.mp ht
    obtain ⟨t, now, batch, hscan, -, hbatch, hrecovers⟩ :=
      recovers_recoverStale hcolumns hexec hfirst
    have ht₀ : t₀ ≤ t := by
      obtain ⟨m, hm, rfl⟩ := Option.map_eq_some_iff.mp hscan
      exact htfirst m (List.mem_of_head? hm)
    have hcolumns₁ := hrecovers.inColumns hcolumns (fun r hr => (hbatch.stale r hr).1)
    obtain ⟨hcount, hawaits⟩ := ih hcolumns₁ hlater htlater
    have hpass := hrecovers.stale_le hbatch ht₀
    refine ⟨?_, fun r hr => hawaits r (hrecovers.awaits hbatch hr)⟩
    rw [List.length_cons]
    omega

end Passes

/-- **Recovery passes.** A worker alone with the database recovers in one pass the expired claims
    with the earliest expiry, all of them or 100, and changes no other job; and after as many
    passes as it takes batches of 100, every claim that was expired at the first scan is
    pending. -/
theorem recovery_passes (fl : ℚ → ℚ) (w : Worker) :
    (∀ s tr s', s.InColumns → StoreProgram.Exec (w.recoverStale fl) s tr (.ret ()) s' →
      Unhindered tr → ∃ t now batch, scanTime tr = some t ∧
        (∃ m ∈ owns tr, m.label.2 = ⟨.now, now⟩) ∧ EarliestStale s t batch ∧
        Recovers fl w now s s' batch) ∧
    ∀ s tr trs s' t, s.InColumns → Passes fl w s (tr :: trs) s' →
      Unhindered (tr :: trs).flatten → scanTime tr = some t →
      (s.jobs.rows.countP (JobRecord.stale t) + 99) / 100 ≤ (tr :: trs).length →
      ∀ r ∈ s.jobs.rows, r.stale t →
        ∃ r', s'.jobs.find? r.id = some r' ∧ r'.status = .pending := by
  refine ⟨fun s tr s' => recovers_recoverStale, ?_⟩
  intro s tr trs s' t hcolumns hpasses hunhindered hscan henough r hr hstale
  -- no operation is earlier than the first
  have ht : ∀ m ∈ owns (tr :: trs).flatten, t ≤ m.label.1.now := by
    obtain ⟨m₀, hm₀, rfl⟩ := Option.map_eq_some_iff.mp hscan
    obtain ⟨ms, hms⟩ := List.head?_eq_some_iff.mp hm₀
    have hclock := hunhindered.clock
    rw [List.flatten_cons, owns_append, hms] at hclock ⊢
    refine List.forall_mem_cons.mpr ⟨le_refl _, ?_⟩
    exact (List.pairwise_cons.mp hclock).1
  obtain ⟨hcount, hawaits⟩ := hpasses.leaves hcolumns hunhindered ht
  obtain ⟨r', hfind, rfl | hpending⟩ := hawaits r ⟨r, Table.find?_key hr, .inl rfl⟩
  · -- a claim that is still as it was would be left
    have hmem : r' ∈ s'.jobs.rows.filter (JobRecord.stale t) :=
      List.mem_filter.mpr ⟨Table.mem_of_find? hfind, hstale⟩
    have hpos := List.length_pos_of_mem hmem
    rw [← List.countP_eq_length_filter] at hpos
    omega
  · exact ⟨r', hfind, hpending⟩

/-! ### A sample pass -/

/-- A party's code, run in one environment with nobody else around, is unhindered. -/
theorem unhindered_amid {α : Type} (p : Program Effect.Answer α) (env : Env) (id : Ulid)
    (s : PostgresStore) :
    Unhindered (p.amid env (PostgresStore.answer env id) PostgresStore.react [] s).1 where
  solo := p.amid_solo s
  served := by
    have hexec : Exec (fun s env' o a s' => env' = env ∧ s.answer env id o = (a, s'))
        PostgresStore.Step p s
        (p.amid env (PostgresStore.answer env id) PostgresStore.react [] s).1
        (.ret (p.amid env (PostgresStore.answer env id) PostgresStore.react [] s).2.1)
        (p.amid env (PostgresStore.answer env id) PostgresStore.react [] s).2.2 :=
      Exec.amid (fun _ _ => ⟨rfl, rfl⟩) (fun _ _ => rfl) p [] s
    rintro ⟨before, ⟨env', act⟩, after⟩ hm c reply rfl
    obtain ⟨rfl, hanswer⟩ := hexec.performed _ hm
    exact hanswer
  clock := by
    have henv : ∀ m ∈ owns (p.amid env (PostgresStore.answer env id) PostgresStore.react [] s).1,
        m.label.1 = env := p.amid_env [] s
    refine List.Pairwise.imp_of_mem (R := fun _ _ => True) ?_ (List.pairwise_of_forall (by simp))
    intro m m' hm hm' _
    rw [henv m hm, henv m' hm']

/-- Three claims, of which two expire at 10 and 15 and one lives on. -/
def sampleExpired : PostgresStore :=
  (PostgresStore.empty.replay [
    (.ofNow 0, .enqueue sampleJob),
    (.ofNow 0, .enqueue { sampleJob with id := 1, createdAt := 1 }),
    (.ofNow 0, .enqueue { sampleJob with id := 2, createdAt := 2 }),
    (.ofNow 0, .claimNext ["feed"] 0 10 "w"),
    (.ofNow 5, .claimNext ["feed"] 0 10 "w"),
    (.ofNow 10, .claimNext ["feed"] 0 (10 ^ 13) "w")]).2

example : sampleExpired.jobs.rows.map (fun r => (r.id, decide (r.stale (10 ^ 12)))) =
    [(0, true), (1, true), (2, false)] := by
  decide

/-- The sample worker recovers, a thousand seconds after the start. -/
def sampleRecovery : List StoreTurn × Unit × PostgresStore :=
  (sampleWorker.recoverStale id).amid (.ofNow (10 ^ 12))
    (PostgresStore.answer (.ofNow (10 ^ 12)) 0) PostgresStore.react [] sampleExpired

/-- The pass over the sample store recovers the expired claims, and they are pending. -/
theorem recovery_passes_sampleExpired :
    (∃ now batch, EarliestStale sampleExpired (10 ^ 12) batch ∧
      Recovers id sampleWorker now sampleExpired sampleRecovery.2.2 batch) ∧
    ∀ r ∈ sampleExpired.jobs.rows, r.stale (10 ^ 12) →
      ∃ r', sampleRecovery.2.2.jobs.find? r.id = some r' ∧ r'.status = .pending := by
  have hexec : StoreProgram.Exec (sampleWorker.recoverStale id) sampleExpired
      sampleRecovery.1 (.ret ()) sampleRecovery.2.2 :=
    Exec.amid (PostgresStore.performs_answer _ 0) PostgresStore.step_react _ [] _
  have hunhindered : Unhindered sampleRecovery.1 := unhindered_amid _ _ 0 _
  have hflat : Unhindered [sampleRecovery.1].flatten := by
    rwa [List.flatten_cons, List.flatten_nil, List.append_nil]
  have hcolumns : ∀ r ∈ sampleExpired.jobs.rows, r.runCount ≤ i32Max := by decide
  have hscan : scanTime sampleRecovery.1 = some (10 ^ 12) := rfl
  obtain ⟨hpass, hpasses⟩ := recovery_passes id sampleWorker
  constructor
  · obtain ⟨t, now, batch, ht, -, hbatch, hrecovers⟩ :=
      hpass sampleExpired sampleRecovery.1 sampleRecovery.2.2 hcolumns hexec hunhindered
    obtain rfl := Option.some.inj (hscan.symm.trans ht)
    exact ⟨now, batch, hbatch, hrecovers⟩
  · exact hpasses sampleExpired sampleRecovery.1 [] sampleRecovery.2.2 (10 ^ 12) hcolumns
      (.pass hexec (.none _)) hflat hscan (by decide)

end Venturi
