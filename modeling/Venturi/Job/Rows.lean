import Venturi.Postgres.Runs

namespace Venturi

open Sql PostgresStore

/-!
# What holds of every row

* `JobRecord.Coherent` — the columns of a row agree with its status.  Every `SET` clause
  keeps it, whichever store runs it.
* `coherent_of_run` — every stored row is coherent.
* `jobs_kept` — an enqueued job stays until a cleanup removes it, a terminal job is frozen,
  and a cleanup, which looks at `finished_at` and never at liveness, removes exactly the
  terminal jobs it is meant to.
-/

/-! ### Coherent rows -/

/-- Completed or dead. -/
def JobRecord.Terminal (r : JobRecord) : Prop := r.status = .completed ∨ r.status = .dead

instance (r : JobRecord) : Decidable r.Terminal :=
  inferInstanceAs (Decidable (r.status = .completed ∨ r.status = .dead))

theorem JobRecord.not_terminal_of_pending {r : JobRecord} (h : r.status = .pending) :
    ¬ r.Terminal := by simp [Terminal, h]

theorem JobRecord.not_terminal_of_claimed {r : JobRecord} (h : r.status = .claimed) :
    ¬ r.Terminal := by simp [Terminal, h]

/-- The columns of a row agree with its status. -/
structure JobRecord.Coherent (r : JobRecord) : Prop where
  claimed : r.status = .claimed ↔ r.claimedBy.isSome
  leased : r.status = .claimed ↔ r.claimExpiresAt.isSome
  finished : r.finishedAt.isSome ↔ r.Terminal
  counted : r.status ≠ .pending → 1 ≤ r.runCount

section Coherent

variable {r : JobRecord}

/-- An enqueued row is coherent. -/
theorem NewJob.coherent (job : NewJob) : job.record.Coherent := by
  constructor <;> simp [record, JobRecord.Terminal]

theorem JobRecord.Coherent.claim (h : r.Coherent) (hpending : r.status = .pending)
    (claimedBy : String) (expires : DateTime) : (r.claim claimedBy expires).Coherent := by
  have hfinished := h.finished
  constructor <;> simp_all [JobRecord.claim, Terminal]

/-- A settlement of a claimed row finishes it exactly when it makes it terminal. -/
theorem JobRecord.Coherent.settle (h : r.Coherent) (hclaimed : r.status = .claimed)
    (settlement : Settlement) : (settlement.set r).Coherent := by
  have hfinished := h.finished
  have hcounted := h.counted
  cases settlement <;> constructor <;> simp_all [Settlement.set, Terminal]

theorem JobRecord.Coherent.repend (h : r.Coherent) (hclaimed : r.status = .claimed)
    (visibleAt : DateTime) (failureCount : Int) : (r.repend visibleAt failureCount).Coherent := by
  have hfinished := h.finished
  constructor <;> simp_all [JobRecord.repend, Terminal]

theorem JobRecord.Coherent.extend (h : r.Coherent) (hclaimed : r.status = .claimed)
    (expires : DateTime) : (r.extend expires).Coherent := by
  have hleased := h.leased
  exact ⟨h.claimed, by simp [JobRecord.extend, hclaimed], h.finished, h.counted⟩

theorem JobRecord.Coherent.merge (h : r.Coherent) (update : Option MergePayload) :
    (r.merge update).Coherent := by
  cases update <;> exact ⟨h.claimed, h.leased, h.finished, h.counted⟩

end Coherent

/-- **One step keeps a coherent job coherent.** -/
theorem Job.Step.coherent {now : DateTime} {c : Call} {mark : Mark} {job job' : Option Job}
    (h : Job.Step now c mark job job') (hjob : ∀ j ∈ job, j.row.Coherent) :
    ∀ j ∈ job', j.row.Coherent := by
  cases h with
  | @enqueue new =>
    rintro _ ⟨⟩
    show new.record.Coherent
    exact new.coherent
  | @claim _ _ lease claimedBy row _ heligible =>
    rintro _ ⟨⟩
    show (row.claim claimedBy (now + lease)).Coherent
    exact (hjob _ rfl).claim (JobRecord.eligible_iff.mp heligible).1 _ _
  | @settle _ settlement _ row _ _ howned =>
    rintro _ ⟨⟩
    show (settlement.set row).Coherent
    exact (hjob _ rfl).settle (JobRecord.owned_iff.mp howned).2.2.2 _
  | @recover visibleAt failureCount _ row _ _ hstale =>
    rintro _ ⟨⟩
    show (row.repend visibleAt failureCount).Coherent
    exact (hjob _ rfl).repend (JobRecord.stale_iff.mp hstale).1 _ _
  | @extendLease _ lease row _ howned =>
    rintro _ ⟨⟩
    show (row.extend (now + lease)).Coherent
    exact (hjob _ rfl).extend (JobRecord.owned_iff.mp howned).2.2.2 _
  | cleanup => simp
  | @merge update _ row =>
    rintro _ ⟨⟩
    show (row.merge update).Coherent
    exact (hjob _ rfl).merge _

/-- Every row of every reachable state is coherent. -/
theorem coherent_of_run {tr : History} {s : PostgresStore} (h : PostgresStore.Run tr s) :
    ∀ id, ∀ j ∈ s.view id, j.row.Coherent := by
  intro id
  refine PostgresStore.Run.job (I := fun _ job => ∀ j ∈ job, j.row.Coherent) (by simp) ?_ ?_ h
  · exact fun _ _ _ hI _ => hI
  · exact fun _ _ _ _ hI _ _ hs => hs.coherent hI

/-! ### Jobs stay, terminal jobs are frozen -/

/-- The columns no call rewrites. -/
def JobRecord.identity (r : JobRecord) : Ulid × String × DateTime × Option String :=
  (r.id, r.kind, r.createdAt, r.dedupKey)

namespace Job.Step

variable {now : DateTime} {c : Call} {mark : Mark} {j j' : Job} {job' : Option Job}

/-- A step that keeps a job keeps its identity columns. -/
theorem identity (h : Job.Step now c mark (some j) (some j')) :
    j'.row.identity = j.row.identity := by
  cases h with
  | settle => rename_i settlement _ _ _ _ _; cases settlement <;> rfl
  | merge => rename_i update _ _ _ _ _; cases update <;> rfl
  | _ => rfl

/-- Only a cleanup removes a job. -/
theorem removed (h : Job.Step now c mark (some j) none) : ∃ criteria, c = .cleanup criteria := by
  cases h
  exact ⟨_, rfl⟩

/-- Only a cleanup takes a step of a terminal job. -/
theorem of_terminal (h : Job.Step now c mark (some j) job') (hterm : j.row.Terminal) :
    ∃ criteria, c = .cleanup criteria := by
  unfold JobRecord.Terminal at hterm
  cases h with
  | cleanup => exact ⟨_, rfl⟩
  | claim heligible => simp [(JobRecord.eligible_iff.mp heligible).1] at hterm
  | settle howned => simp [(JobRecord.owned_iff.mp howned).2.2.2] at hterm
  | recover hstale => simp [(JobRecord.stale_iff.mp hstale).1] at hterm
  | extendLease howned => simp [(JobRecord.owned_iff.mp howned).2.2.2] at hterm
  | merge hpending => simp [hpending] at hterm

end Job.Step

/-- A cleanup that removed the job `id`. -/
def RemovedBy (id : Ulid) (m : Trace.Move PostgresStore Event) : Prop :=
  (∃ criteria, m.label.call = .cleanup criteria) ∧ (m.before.view id).isSome ∧
    m.after.view id = none

/-- A job stays, under the same identity, until a cleanup removes it. -/
theorem kept_until_cleanup {tr₁ tr₂ : History} {m : Trace.Move PostgresStore Event}
    {s : PostgresStore} {new : NewJob} {env : Env}
    (h : PostgresStore.Run (tr₁ ++ m :: tr₂) s) (hm : m.label = ⟨env, .enqueue new, .ok ()⟩) :
    (∃ j, s.view new.id = some j ∧ j.row.identity = new.record.identity) ∨
      ∃ m' ∈ tr₂, RemovedBy new.id m' := by
  refine Trace.Run.since (J := fun tr s =>
    (∃ j, s.view new.id = some j ∧ j.row.identity = new.record.identity) ∨
      ∃ m' ∈ tr, RemovedBy new.id m') ?_ ?_ h
  · intro _ hs
    rw [hm] at hs
    rcases commit_eq hs with ⟨_, hok, -⟩ | ⟨_, -, herr, -⟩
    · rw [(enqueue_cases hok).2, Function.update_self]
      exact .inl ⟨_, rfl, rfl⟩
    · cases herr
  · rintro tr s e s' - (⟨j, hj, hid⟩ | ⟨m', hm', hrem⟩) hs
    · -- the job is still there: it stutters, goes, or takes a step
      rcases exec_view hs new.id with ⟨hview, -⟩ | hjob
      · exact .inl ⟨j, hview.trans hj, hid⟩
      · rw [hj] at hjob
        cases hj' : s'.view new.id with
        | none =>
          rw [hj'] at hjob
          refine .inr ⟨⟨s, e, s'⟩, by simp, hjob.removed, ?_, hj'⟩
          exact hj ▸ rfl
        | some j' =>
          rw [hj'] at hjob
          exact .inl ⟨j', rfl, hjob.identity.trans hid⟩
    · exact .inr ⟨m', List.mem_append_left _ hm', hrem⟩

/-- A terminal job is frozen: only a cleanup changes its row or its journal. -/
theorem terminal_frozen {s s' : PostgresStore} {e : Event} (h : s.Step e s') {id : Ulid} {j : Job}
    (hj : s.view id = some j) (hterm : j.row.Terminal)
    (hcall : ∀ criteria, e.call ≠ .cleanup criteria) : s'.view id = some j := by
  rcases exec_view h id with ⟨hview, -⟩ | hjob
  · exact hview.trans hj
  · rw [hj] at hjob
    obtain ⟨criteria, hc⟩ := hjob.of_terminal hterm
    exact absurd hc (hcall criteria)

/-! ### Cleanup is exact -/

/-- What a cleanup is meant to remove: a terminal job, finished strictly before the cut-off,
    of the optional kind and status. -/
def CleanupCriteria.Removes (c : CleanupCriteria) (r : JobRecord) : Prop :=
  r.Terminal ∧ (∃ f ∈ r.finishedAt, f < c.finishedBefore) ∧ (∀ k ∈ c.kind, r.kind = k) ∧
    (∀ st ∈ c.status, r.status = st)

instance (c : CleanupCriteria) : DecidablePred c.Removes := fun r =>
  inferInstanceAs (Decidable (r.Terminal ∧ (∃ f ∈ r.finishedAt, f < c.finishedBefore) ∧
    (∀ k ∈ c.kind, r.kind = k) ∧ (∀ st ∈ c.status, r.status = st)))

/-- On coherent rows the `WHERE` clause says what a cleanup is meant to remove. -/
theorem CleanupCriteria.matches_iff {c : CleanupCriteria} {r : JobRecord} (h : r.Coherent) :
    c.matches r ↔ c.Removes r := by
  have hclause : c.matches r ↔ (∃ f ∈ r.finishedAt, f < c.finishedBefore) ∧
      (∀ k ∈ c.kind, r.kind = k) ∧ (∀ st ∈ c.status, r.status = st) := by
    simp [CleanupCriteria.matches, and_assoc, Option.any_eq_true, Option.all_eq_true]
  rw [hclause, Removes]
  constructor
  · -- only a terminal row has a finish time
    rintro ⟨⟨f, hf, hlt⟩, hrest⟩
    exact ⟨h.finished.mp (Option.isSome_iff_exists.mpr ⟨f, hf⟩), ⟨f, hf, hlt⟩, hrest⟩
  · exact fun hr => hr.2

/-- **A cleanup removes exactly what it is meant to**, rows and journal, and returns the
    number of removed rows. -/
theorem cleanup_exact {s s' : PostgresStore} {criteria : CleanupCriteria} {n : Nat}
    (hcoherent : ∀ r ∈ s.jobs.rows, r.Coherent) (h : s.cleanup criteria = .ok (n, s')) :
    n = s.jobs.rows.countP criteria.Removes ∧
    s'.jobs.rows = s.jobs.rows.filter (fun r => ¬ criteria.Removes r) ∧
    (∀ e, e ∈ s'.journal.rows ↔
      e ∈ s.journal.rows ∧ ∀ r ∈ s.jobs.rows, r.id = e.jobId → ¬ criteria.Removes r) := by
  obtain ⟨rfl, rfl⟩ := Prod.mk.inj (Except.ok.inj h)
  refine ⟨List.countP_congr fun r hr => ?_, List.filter_congr fun r hr => ?_, fun e => ?_⟩
  · simpa using CleanupCriteria.matches_iff (hcoherent r hr)
  · have hiff : criteria.matches r ↔ criteria.Removes r :=
      CleanupCriteria.matches_iff (hcoherent r hr)
    by_cases hm : criteria.matches r
    · simp [hm, hiff.mp hm]
    · have hkeep : ¬ criteria.Removes r := fun hrem => hm (hiff.mpr hrem)
      simp [hm, hkeep]
  · -- an entry goes with the one row it references
    show e ∈ (s.journal.delete _).rows ↔ _
    rw [Serial.mem_delete]
    refine and_congr_right fun he => ?_
    obtain ⟨row, hrow⟩ := Option.isSome_iff_exists.mp (s.references e he)
    obtain ⟨hmem, hid⟩ := Table.find?_eq_some.mp hrow
    rw [hrow, Option.any_some, CleanupCriteria.matches_iff (hcoherent row hmem)]
    constructor
    · intro hnot r hr hrid
      exact s.jobs.eq_of_key_eq hr hmem (hrid.trans hid.symm) ▸ hnot
    · exact fun hall => hall row hmem hid

/-- **No job is lost and terminal jobs are frozen.** In every run: an enqueued job stays
    in the table under the same id, kind, creation time and key until a cleanup removes it;
    only a cleanup changes a terminal row or its journal; and every cleanup removes exactly
    the terminal rows it is meant to, with their journal entries, and returns their
    number, so it leaves every pending and claimed job alone. -/
theorem jobs_kept {tr : History} {s : PostgresStore} (h : PostgresStore.Run tr s) :
    (∀ tr₁ m tr₂, tr = tr₁ ++ m :: tr₂ →
      ∀ env new, m.label = ⟨env, .enqueue new, .ok ()⟩ →
        (∃ j, s.view new.id = some j ∧ j.row.identity = new.record.identity) ∨
          ∃ m' ∈ tr₂, RemovedBy new.id m') ∧
    (∀ m ∈ tr, (∀ criteria, m.label.call ≠ .cleanup criteria) →
      ∀ id, ∀ j ∈ m.before.view id, j.row.Terminal → m.after.view id = some j) ∧
    (∀ m ∈ tr, ∀ env criteria r, m.label = ⟨env, .cleanup criteria, r⟩ →
      r = .ok (m.before.jobs.rows.countP criteria.Removes) ∧
      m.after.jobs.rows = m.before.jobs.rows.filter (fun r => ¬ criteria.Removes r) ∧
      (∀ e, e ∈ m.after.journal.rows ↔ e ∈ m.before.journal.rows ∧
        ∀ r ∈ m.before.jobs.rows, r.id = e.jobId → ¬ criteria.Removes r) ∧
      (∀ r ∈ m.before.jobs.rows, ¬ r.Terminal → r ∈ m.after.jobs.rows)) := by
  refine ⟨?_, ?_, ?_⟩
  · rintro tr₁ m tr₂ rfl env new hm
    exact kept_until_cleanup h hm
  · intro m hm hcall id j hj hterm
    obtain ⟨tr₁, tr₂, rfl⟩ := List.append_of_mem hm
    exact terminal_frozen h.split.2.1 hj hterm hcall
  · intro m hm env criteria r hlabel
    obtain ⟨tr₁, tr₂, rfl⟩ := List.append_of_mem hm
    obtain ⟨hrun, hs, -⟩ := h.split
    have hcoherent : ∀ r ∈ m.before.jobs.rows, r.Coherent := fun r hr =>
      coherent_of_run hrun r.id ⟨r, _⟩ (view_eq_some.mpr ⟨Table.find?_key hr, rfl⟩)
    rw [hlabel] at hs
    simp only [Step, exec] at hs
    rcases commit_eq hs with ⟨n, hok, rfl⟩ | ⟨_, herr, -⟩
    · obtain ⟨rfl, hrows, hjournal⟩ := cleanup_exact hcoherent hok
      refine ⟨rfl, hrows, hjournal, fun r hr hlive => ?_⟩
      rw [hrows, List.mem_filter]
      exact ⟨hr, by simpa using fun hrem => hlive hrem.1⟩
    · cases herr

/-- The sample job, completed at time 1 and cleaned up at time 9. -/
def sampleCleaned : List (Env × Call) :=
  sampleCompleted ++ [(.ofNow 9, .cleanup ⟨5, some "feed", none⟩)]

/-- The sample job is kept as it was enqueued, or a cleanup has removed it. -/
theorem jobs_kept_sampleCleaned :
    (∃ j, (empty.replay sampleCleaned).2.view 0 = some j ∧
        j.row.identity = sampleJob.record.identity) ∨
      ∃ m' ∈ (empty.replay sampleCleaned).1.tail, RemovedBy 0 m' :=
  (jobs_kept (run_replay sampleCleaned)).1 [] (empty.next (.ofNow 0) (.enqueue sampleJob)) _ rfl
    (.ofNow 0) sampleJob rfl

end Venturi
