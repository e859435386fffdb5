import Venturi.Worker.Journal

namespace Venturi

open Sql PostgresStore Trace.Program

/-!
# Merging across a claim

`Queue::submit` decides on a candidate it read, and `merge_into` writes the decision if the
candidate is pending, whatever its `run_count` is by then.  A candidate that was claimed in
between and put back to pending is merged into all the same: its payload and carry are
overwritten, and the journal records the run number that was read.

* `repended` — the last claim of a job in a history ended in pending.
* `Since` — what a history without merges did to a job that was read as pending.
* `merge_exact_iff` — a merge is applied only to the job it was computed from, exactly when
  the candidate was not claimed and put back to pending in between.
* `merge_ignores_epoch` — a run in which it was.
-/

/-! ### Claims that end in pending -/

/-- A call that, when it closes an epoch, puts the job back to pending. -/
def Call.repends : Call → Bool
  | .settle _ _ _ (.pause ..) _ => true
  | .settle _ _ _ (.retry ..) _ => true
  | .settle _ _ _ (.release ..) _ => true
  | .recover .. => true
  | _ => false

/-- Whether the last claim of the job `id` ended in pending, after one more event. -/
def Event.repended (id : Ulid) (before : Bool) (e : Event) : Bool :=
  match e.mark id with
  | .handed _ => false
  | .closed _ => e.call.repends
  | _ => before

/-- **Put back.** The job `id` was claimed during the history, and its last claim ended in
    pending: a pause, a retry, a release or a recovery, with no claim since. -/
def repended (id : Ulid) (tr : History) : Bool :=
  tr.foldl (fun before m => m.label.repended id before) false

theorem repended_snoc {id : Ulid} {tr : History} {m : Trace.Move PostgresStore Event} :
    repended id (tr ++ [m]) = m.label.repended id (repended id tr) := by
  simp [repended]

/-- A settlement ends in pending exactly when its call puts the job back. -/
theorem Settlement.set_pending_iff {settlement : Settlement} {id : Ulid} {claimedBy : String}
    {runNo : Nat} {entry : JournalAppend} {r : JobRecord} :
    (settlement.set r).status = .pending ↔
      (Call.settle id claimedBy runNo settlement entry).repends = true := by
  cases settlement <;> simp [Settlement.set, Call.repends]

/-- **Where a pending job comes from**: it was inserted, or its claim was closed by a call that
    puts it back, or it was pending, of the same kind and visible from the same time on. -/
theorem Job.Step.pending_inv {now : DateTime} {c : Call} {mark : Mark} {job : Option Job} {j' : Job}
    (h : Job.Step now c mark job (some j')) (hpending : j'.row.status = .pending) :
    (∃ new, c = .enqueue new ∧ mark = .opened ∧ j'.row = new.record) ∨
      ∃ j, job = some j ∧ ((c.repends ∧ ∃ n, mark = .closed n) ∨
        (j.row.status = .pending ∧ j.row.kind = j'.row.kind ∧
          j.row.visibleAt = j'.row.visibleAt)) := by
  cases h with
  | enqueue => exact .inl ⟨_, rfl, rfl, rfl⟩
  | claim => cases hpending
  | settle => exact .inr ⟨_, rfl, .inl ⟨Settlement.set_pending_iff.mp hpending, _, rfl⟩⟩
  | recover => exact .inr ⟨_, rfl, .inl ⟨rfl, _, rfl⟩⟩
  | @extendLease _ _ row _ howned =>
    have hclaimed : row.status = .claimed := (JobRecord.owned_iff.mp howned).2.2.2
    exact absurd (hclaimed.symm.trans hpending) (by decide)
  | @merge update _ _ _ _ hbefore =>
    refine .inr ⟨_, rfl, .inr ⟨hbefore, ?_⟩⟩
    cases update <;> exact ⟨rfl, rfl⟩

/-! ### A job since it was read -/

/-- The job after a history without merges, that starts at the pending row `r`: the row and
    its log as they were, as long as it was not claimed, and pending after a claim exactly
    when it was put back. -/
inductive Since (r : JobRecord) (log : List JournalRecord) (tr : History) : Option Job → Prop
  | unclaimed (hhanded : handedOut r.id tr = []) (hrepended : repended r.id tr = false) :
      Since r log tr (some ⟨r, log⟩)
  | claimed {job : Option Job} (hhanded : handedOut r.id tr ≠ [])
      (hpending : (∃ j ∈ job, j.row.status = .pending) ↔ repended r.id tr = true) :
      Since r log tr job

namespace Since

variable {r : JobRecord} {log : List JournalRecord} {tr : History} {job job' : Option Job}
  {m : Trace.Move PostgresStore Event}

/-- A step that claims and closes nothing and keeps the job out of, or in, pending. -/
theorem quiet (h : Since r log tr job) (hhanded : (m.label.mark r.id).handed? = none)
    (hclosed : (m.label.mark r.id).closed? = none)
    (hsame : job = some ⟨r, log⟩ → job' = some ⟨r, log⟩)
    (hpending : (∃ j ∈ job', j.row.status = .pending) ↔ ∃ j ∈ job, j.row.status = .pending) :
    Since r log (tr ++ [m]) job' := by
  have hh : handedOut r.id (tr ++ [m]) = handedOut r.id tr := by
    rw [handedOut_snoc, hhanded]
    exact List.append_nil _
  have hr : repended r.id (tr ++ [m]) = repended r.id tr := by
    rw [repended_snoc, Event.repended]
    cases hmark : m.label.mark r.id <;> simp_all [Mark.handed?, Mark.closed?]
  cases h with
  | unclaimed hnone hrep =>
    obtain rfl := hsame rfl
    exact .unclaimed (hh.trans hnone) (hr.trans hrep)
  | claimed hsome hiff => exact .claimed (hh ▸ hsome) (by rw [hpending, hr, hiff])

/-- A claim leaves a job that is not pending. -/
theorem claim {n : Nat} {j : Job} (hmark : m.label.mark r.id = .handed n)
    (hclaimed : j.row.status = .claimed) : Since r log (tr ++ [m]) (some j) := by
  have hh : handedOut r.id (tr ++ [m]) ≠ [] := by
    rw [handedOut_snoc, hmark]
    simp [Mark.handed?]
  have hr : repended r.id (tr ++ [m]) = false := by
    rw [repended_snoc, Event.repended, hmark]
  exact .claimed hh (by simp [hr, hclaimed])

/-- The end of a claim leaves the job pending exactly when the call puts it back. -/
theorem close (h : Since r log tr job) {n : Nat} {j : Job} (hne : job ≠ some ⟨r, log⟩)
    (hmark : m.label.mark r.id = .closed n)
    (hst : j.row.status = .pending ↔ m.label.call.repends = true) :
    Since r log (tr ++ [m]) (some j) := by
  cases h with
  | unclaimed => exact absurd rfl hne
  | claimed hsome =>
    apply Since.claimed
    · rw [handedOut_snoc]
      exact List.append_ne_nil_of_left_ne_nil hsome _
    · have hr : repended r.id (tr ++ [m]) = m.label.call.repends := by
        rw [repended_snoc, Event.repended, hmark]
      simpa [hr] using hst

/-- **One step without a merge.** -/
theorem step (h : Since r log tr job) (hr : r.status = .pending)
    (hcoherent : ∀ j ∈ job, j.row.Coherent) (hopened : m.label.mark r.id ≠ .opened)
    (hid : ∀ j ∈ job, j.row.id = r.id)
    (hmerge : ∀ update entry, m.label.call ≠ .mergeInto r.id update entry)
    (hs : Job.Step m.label.env.now m.label.call (m.label.mark r.id) job job') :
    Since r log (tr ++ [m]) job' := by
  -- a row that is not pending is not the one that was read
  have hother : ∀ (row : JobRecord) (l : List JournalRecord), row.status = .claimed →
      some (⟨row, l⟩ : Job) ≠ some ⟨r, log⟩ := by
    rintro row l hclaimed ⟨⟩
    simp [hr] at hclaimed
  generalize hcall : m.label.call = c at hs
  generalize hmark : m.label.mark r.id = mark at hs
  cases hs with
  | enqueue => exact absurd hmark hopened
  | claim => exact claim hmark rfl
  | settle howned =>
    obtain ⟨-, -, -, hclaimed⟩ := JobRecord.owned_iff.mp howned
    exact h.close (hother _ _ hclaimed) hmark (by rw [hcall]; exact Settlement.set_pending_iff)
  | recover hstale =>
    obtain ⟨hclaimed, -⟩ := JobRecord.stale_iff.mp hstale
    exact h.close (hother _ _ hclaimed) hmark (by simp [hcall, Call.repends, JobRecord.repend])
  | extendLease howned =>
    obtain ⟨-, -, -, hclaimed⟩ := JobRecord.owned_iff.mp howned
    refine h.quiet (hmark ▸ rfl) (hmark ▸ rfl) (fun hsame => ?_) ?_
    · exact absurd hsame (hother _ _ hclaimed)
    · simp [JobRecord.extend]
  | @cleanup criteria row l hmatches =>
    -- a cleanup removes terminal rows only
    have hterm : row.Terminal :=
      ((CleanupCriteria.matches_iff (hcoherent _ rfl)).mp hmatches).1
    have hlive : row.status ≠ .pending := by
      rcases hterm with hst | hst <;> simp [hst]
    refine h.quiet (hmark ▸ rfl) (hmark ▸ rfl) (fun hsame => ?_) ?_
    · cases hsame
      exact absurd hr hlive
    · simp [hlive]
  | @merge update entry row l n hpending =>
    have hrow : row.id = r.id := hid _ rfl
    exact absurd (hrow ▸ hcall) (hmerge update entry)

end Since

/-! ### Journals in order -/

/-- The run numbers of a journal never decrease. -/
def InOrder (log : List JournalRecord) : Prop := (log.map JournalRecord.runNo).Pairwise (· ≤ ·)

instance (log : List JournalRecord) : Decidable (InOrder log) :=
  inferInstanceAs (Decidable (List.Pairwise _ _))

/-- An entry at the run count of the row keeps the journal in order. -/
theorem InOrder.snoc {log : List JournalRecord} {e : JournalRecord} (h : InOrder log)
    (hle : ∀ e' ∈ log, e'.runNo ≤ e.runNo) : InOrder (log ++ [e]) := by
  unfold InOrder at *
  rw [List.map_append, List.pairwise_append]
  refine ⟨h, List.pairwise_singleton _ _, fun a ha b hb => ?_⟩
  obtain ⟨e', he', rfl⟩ := List.mem_map.mp ha
  obtain rfl := List.mem_singleton.mp hb
  exact hle e' he'

/-- No journal entry is of a run the row has not counted yet. -/
def Job.Current (j : Job) : Prop := ∀ e ∈ j.log, e.runNo ≤ j.row.runCount

theorem Job.Current.snoc {j : Job} {row : JobRecord} {e : JournalRecord} (h : j.Current)
    (hle : j.row.runCount ≤ row.runCount) (he : e.runNo ≤ row.runCount) :
    Job.Current ⟨row, j.log ++ [e]⟩ := by
  intro e' he'
  rcases List.mem_append.mp he' with he' | he'
  · exact (h e' he').trans hle
  · exact List.mem_singleton.mp he' ▸ he

section System

variable {fl : ℚ → ℚ} {workers : Worker → Prop} {tr : History} {s : PostgresStore}

/-- **One sound step journals no run before its time.** -/
theorem Job.Step.current {now : DateTime} {c : Call} {mark : Mark} {job job' : Option Job}
    (hs : Job.Step now c mark job job') (h : ∀ j ∈ job, j.Current)
    (hsound : ∀ j ∈ job, c.SoundFor workers j.row) : ∀ j ∈ job', j.Current := by
  cases hs with
  | enqueue =>
    rintro _ ⟨⟩
    simp [Job.Current]
  | claim =>
    rintro _ ⟨⟩ e he
    have hle := h _ rfl e he
    exact Nat.le_succ_of_le hle
  | @settle _ settlement entry =>
    rintro _ ⟨⟩
    have hno : entry.runNo = _ := (hsound _ rfl).1
    apply (h _ rfl).snoc
    · simp
    · simp [hno]
  | @recover _ _ entry =>
    rintro _ ⟨⟩
    have hno : entry.runNo = _ := (hsound _ rfl).1
    exact (h _ rfl).snoc (le_refl _) (le_of_eq hno)
  | @extendLease _ _ row log =>
    rintro _ ⟨⟩
    exact h ⟨row, log⟩ rfl
  | cleanup => simp
  | merge =>
    rintro _ ⟨⟩
    apply (h _ rfl).snoc
    · simp
    · simpa using (hsound _ rfl).2

/-- Every job of the system is current. -/
theorem current_of_run (h : SystemRun fl workers tr s) (hfresh : FreshIds tr) (id : Ulid) :
    ∀ j ∈ s.view id, j.Current := by
  refine SystemRun.job (I := fun _ job => ∀ j ∈ job, j.Current) (by simp)
    (fun _ _ _ hI _ => hI) ?_ h hfresh
  exact fun _ _ _ _ hI _ hsound hs => hs.current hI hsound

end System

/-! ### A submission that merges -/

/-- The operation of a recorded call, with its answer. -/
def Event.act (e : Event) : Act Effect.Answer := ⟨.call e.call, e.reply⟩

/-- The journal entry of a `merge_into` that returned `true`. -/
def Event.mergedEntry? : Event → Option JournalAppend
  | ⟨_, .mergeInto _ _ entry, .ok true⟩ => some entry
  | _ => none

/-- **One submission in a run of the system**, with its three store calls and what any other
    parties did before and in between: it read a candidate, read the journal, and its last
    call is the merge.  No other merge goes to the candidate in between. -/
structure MergingSubmit (fl : ℚ → ℚ) (workers : Worker → Prop) {T Carry : Type}
    (τ : Task T Carry) (task : T) (createdAt visibleAt : DateTime) where
  past : History
  read : Trace.Move PostgresStore Event
  between₁ : History
  journal : Trace.Move PostgresStore Event
  between₂ : History
  write : Trace.Move PostgresStore Event
  env : Env
  key : String
  candidate : JobRecord
  recordedAt : DateTime
  rest : Trace.Program Effect.Answer (Except Error Ulid)
  run : SystemRun fl workers (past ++ read :: (between₁ ++ journal :: between₂) ++ [write])
    write.after
  fresh : FreshIds (past ++ read :: (between₁ ++ journal :: between₂) ++ [write])
  hread : read.label = ⟨env, .dedupCandidate τ.kind key, .ok (some candidate)⟩
  follows : Follows (Queue.submit τ task createdAt visibleAt).run
    [read.label.act, journal.label.act, ⟨.now, recordedAt⟩, write.label.act] rest
  alone : ∀ m ∈ between₁ ++ journal :: between₂, ∀ update entry,
    m.label.call ≠ .mergeInto candidate.id update entry

namespace MergingSubmit

variable {fl : ℚ → ℚ} {workers : Worker → Prop} {T Carry : Type} {τ : Task T Carry} {task : T}
  {createdAt visibleAt : DateTime} (x : MergingSubmit fl workers τ task createdAt visibleAt)

/-- What happened between the candidate read and the merge write. -/
def between : History := x.between₁ ++ x.journal :: x.between₂

/-- The candidate was claimed between the read and the write. -/
def Claimed : Prop := handedOut x.candidate.id x.between ≠ []

/-- **The merge is applied only to the job it was computed from.**  `candidate` is the row
    `Task::merge` was shown. -/
structure Exact : Prop where
  /-- If `merge_into` returned `true`, the candidate was not claimed in between, and its row
      just before the write is as it was read. -/
  applied : ∀ entry, x.write.label.mergedEntry? = some entry →
    ¬ x.Claimed ∧ ∃ j, x.write.before.view x.candidate.id = some j ∧
      j.row.runCount = x.candidate.runCount ∧ j.row.payload = x.candidate.payload ∧
      j.row.carry = x.candidate.carry ∧ entry.runNo = j.row.runCount
  /-- A journal in order at the read is in order after the write. -/
  ordered : ∀ entry, x.write.label.mergedEntry? = some entry →
    InOrder (x.read.before.journalOf x.candidate.id) →
      InOrder (x.write.after.journalOf x.candidate.id)
  /-- If the candidate was claimed in between, the submission goes on with an insert. -/
  fallback : x.Claimed →
    x.rest = (Queue.insert τ task createdAt visibleAt (some x.key)).run

/-- The candidate as it was stored at the read. -/
theorem read_before : x.read.before.view x.candidate.id =
    some ⟨x.candidate, x.read.before.journalOf x.candidate.id⟩ ∧
      x.candidate.status = .pending ∧ x.read.after = x.read.before := by
  have hrun := x.run.of_snoc.1
  obtain ⟨-, ⟨hs, -⟩, -⟩ := hrun.split
  rw [x.hread] at hs
  simp only [Step, exec] at hs
  obtain ⟨hreply, hafter⟩ := Prod.mk.inj hs
  obtain ⟨hview, hcand, -⟩ := dedupCandidate_cases (Except.ok.inj hreply)
  exact ⟨hview, (JobRecord.dedupCandidate_iff.mp hcand).2.2, hafter.symm⟩

/-- The candidate up to the write. -/
theorem since : Since x.candidate (x.read.before.journalOf x.candidate.id) x.between
    (x.write.before.view x.candidate.id) := by
  have hrun := x.run.of_snoc.1
  have hfresh : FreshIds (x.past ++ x.read :: x.between) := x.fresh.of_append
  obtain ⟨hview, hpending, hafter⟩ := x.read_before
  obtain ⟨hrun₁, -, -⟩ := hrun.split
  have hborn : x.candidate.id ∈ enqueued x.past :=
    mem_enqueued_of_view (SystemRun.run hrun₁) hfresh.of_append hview
  have hborn' : x.candidate.id ∈ enqueued (x.past ++ [x.read]) := by
    rw [enqueued_snoc]
    exact List.mem_append_left _ hborn
  refine PostgresStore.Run.jobSince (J := fun tr job =>
    (∀ m ∈ tr, ∀ update entry, m.label.call ≠ .mergeInto x.candidate.id update entry) →
      Since x.candidate (x.read.before.journalOf x.candidate.id) tr job)
    hborn' ?_ ?_ ?_ (SystemRun.run hrun) hfresh x.alone
  · intro _
    rw [hafter, hview]
    exact .unclaimed rfl rfl
  · intro tr job m hI hmark halone
    have hsince := hI (fun m' hm' => halone m' (List.mem_append_left _ hm'))
    exact hsince.quiet (by rw [hmark]; rfl) (by rw [hmark]; rfl) (fun hsame => hsame) Iff.rfl
  · intro tr m hrun hI hopened hjob halone
    have hsince := hI (fun m' hm' => halone m' (List.mem_append_left _ hm'))
    exact hsince.step hpending (coherent_of_run hrun _) hopened (fun j hj => view_id hj)
      (halone m (by simp)) hjob

/-- The write is the merge, of a run number that can be stored and a valid tier. -/
theorem write_merges : ∃ (update : Option MergePayload) (env : Env) (reply : Except Error Bool),
    (∀ u ∈ update, 0 ≤ u.priority ∧ u.priority ≤ 2) ∧
    x.write.label = ⟨env, .mergeInto x.candidate.id update
      (Queue.mergedEntry x.candidate x.recordedAt), reply⟩ ∧
    x.rest = Queue.afterMerge τ x.candidate task createdAt visibleAt x.key reply := by
  have hfollows := x.follows
  rw [x.hread] at hfollows
  obtain ⟨update, reply, htier, hwrite, hrest⟩ := Queue.follows_submit hfollows rfl
  refine ⟨update, x.write.label.env, reply, htier, ?_, hrest⟩
  generalize x.write.label = e at hwrite
  obtain ⟨env, c, r⟩ := e
  cases hwrite
  rfl

/-- The run count of the candidate fits its column. -/
theorem runCount_le : x.candidate.runCount ≤ i32Max := by
  have hrun := x.run.of_snoc.1
  have hfresh : FreshIds (x.past ++ x.read :: x.between) := x.fresh.of_append
  obtain ⟨hrun₁, -, -⟩ := hrun.split
  obtain ⟨k, hk, -, hcount⟩ :=
    (epochs_of_run (SystemRun.run hrun₁) hfresh.of_append x.candidate.id).counted
  exact (hcount _ x.read_before.1).trans_le hk

/-- The merge applies exactly when the candidate is pending. -/
theorem write_applies {j : Job} (hj : x.write.before.view x.candidate.id = some j)
    (hpending : j.row.status = .pending) :
    x.write.label.mergedEntry? = some (Queue.mergedEntry x.candidate x.recordedAt) ∧
      ∃ n, x.write.after.journalOf x.candidate.id =
        j.log ++ [(Queue.mergedEntry x.candidate x.recordedAt).record x.candidate.id n] := by
  obtain ⟨update, env, reply, htier, hlabel, -⟩ := x.write_merges
  have hs := x.run.of_snoc.2.1.1
  have hhit : j.row.mergeable x.candidate.id := JobRecord.mergeable_iff.mpr ⟨view_id hj, hpending⟩
  obtain ⟨n, s', hok, hview⟩ :=
    mergeInto_hit (Queue.mergedEntry x.candidate x.recordedAt) x.runCount_le htier hj hhit
  rw [hlabel] at hs ⊢
  simp only [Step, exec, hok] at hs
  obtain ⟨rfl, hafter⟩ := Prod.mk.inj hs
  refine ⟨rfl, n, ?_⟩
  have hjob := congrFun hview x.candidate.id
  rw [hafter, Function.update_self] at hjob
  exact (view_eq_some.mp hjob).2.symm

/-- The merge misses when the candidate is not pending, and the submission inserts. -/
theorem write_misses (hmiss : ∀ j, x.write.before.view x.candidate.id = some j →
    j.row.status ≠ .pending) :
    x.write.label.mergedEntry? = none ∧
      x.rest = (Queue.insert τ task createdAt visibleAt (some x.key)).run := by
  obtain ⟨update, env, reply, htier, hlabel, hrest⟩ := x.write_merges
  have hs := x.run.of_snoc.2.1.1
  have hno : x.write.before.mergeInto x.candidate.id update
      (Queue.mergedEntry x.candidate x.recordedAt) = .ok (false, x.write.before) :=
    mergeInto_miss update x.runCount_le
      (fun j hj hg => hmiss j hj (JobRecord.mergeable_iff.mp hg).2)
  rw [hlabel] at hs ⊢
  simp only [Step, exec, hno] at hs
  obtain ⟨rfl, -⟩ := Prod.mk.inj hs
  exact ⟨rfl, hrest⟩

end MergingSubmit

/-- **A merge is applied only to the job it was computed from, exactly when the candidate was
    not put back to pending in between.** -/
theorem merge_exact_iff {fl : ℚ → ℚ} {workers : Worker → Prop} {T Carry : Type}
    {τ : Task T Carry} {task : T} {createdAt visibleAt : DateTime}
    (x : MergingSubmit fl workers τ task createdAt visibleAt) :
    x.Exact ↔ repended x.candidate.id x.between = false := by
  have hsince := x.since
  have hpending := x.read_before.2.1
  generalize hjob : x.write.before.view x.candidate.id = job at hsince
  cases hsince with
  | unclaimed hnone hrep =>
    -- the row is the one that was read
    refine ⟨fun _ => hrep, fun _ => ?_⟩
    obtain ⟨hentry, n, hlog⟩ := x.write_applies hjob hpending
    have hunclaimed : ¬ x.Claimed := fun hclaimed => hclaimed hnone
    refine ⟨fun entry he => ?_, fun entry _ hordered => ?_,
      fun hclaimed => absurd hclaimed hunclaimed⟩
    · obtain rfl := Option.some.inj (hentry.symm.trans he)
      exact ⟨hunclaimed, _, hjob, rfl, rfl, rfl, rfl⟩
    · -- the entry's run is the newest in the journal
      have hcurrent := current_of_run x.run.of_snoc.1 x.fresh.of_append x.candidate.id _ hjob
      rw [hlog]
      exact hordered.snoc hcurrent
  | claimed hsome hiff =>
    constructor
    · intro hexact
      by_contra hrep
      -- the row is pending again, so the merge applies to a claimed candidate
      obtain ⟨j, hj, hst⟩ := hiff.mpr (Bool.not_eq_false _ ▸ hrep)
      obtain ⟨hentry, -⟩ := x.write_applies (hjob.trans hj) hst
      exact (hexact.applied _ hentry).1 hsome
    · -- the candidate is claimed, terminal or gone: the guard misses
      intro hrep
      have hmiss : ∀ j, x.write.before.view x.candidate.id = some j → j.row.status ≠ .pending := by
        intro j hj hst
        have hput := hiff.mp ⟨j, hjob.symm.trans hj, hst⟩
        simp [hrep] at hput
      obtain ⟨hentry, hrest⟩ := x.write_misses hmiss
      refine ⟨fun entry he => ?_, fun entry he => ?_, fun _ => hrest⟩
      · simp [hentry] at he
      · simp [hentry] at he

/-! ### A sample submission -/

/-- A task whose payload and carry are plain JSON, of kind `feed` under the key `k`; a
    collision replaces the pending payload. -/
def sampleTask : Task Value Value where
  kind := "feed"
  toValue := .ok
  fromValue := .ok
  carryToValue := .ok
  carryFromValue := .ok
  carryDefault := .null
  priority _ := .normal
  dedupKey _ := some "k"
  merge _ _ := .replace

/-- What a submission of the payload `2` writes into the sample job. -/
def sampleMergeInto : Call :=
  .mergeInto 0 (some ⟨.json "2", .null, 1⟩) (Queue.mergedEntry sampleJob.record 1)

/-- A submission reads the sample job, … -/
def sampleRead : Trace.Move PostgresStore Event :=
  sampleEnqueue.after.next (.ofNow 0) (.dedupCandidate "feed" "k")

/-- … and merges into it. -/
def sampleSubmit : MergingSubmit id sampleWorkers sampleTask (.json "2") 0 0 where
  past := [sampleEnqueue]
  read := sampleRead
  between₁ := []
  journal := sampleRead.after.next (.ofNow 1) (.journal 0)
  between₂ := []
  write := sampleRead.after.next (.ofNow 1) sampleMergeInto
  env := .ofNow 0
  key := "k"
  candidate := sampleJob.record
  recordedAt := 1
  rest := .ret (.ok 0)
  run := by
    have hread : ReadCandidate [sampleEnqueue, sampleRead,
        sampleRead.after.next (.ofNow 1) (.journal 0)] sampleJob.record :=
      ⟨sampleRead, by simp, .ofNow 0, "feed", "k", rfl⟩
    exact .snoc (.snoc (.snoc (.snoc .start ⟨rfl, .enqueue sampleJob⟩)
      ⟨rfl, .dedupCandidate "feed" "k"⟩) ⟨rfl, .journal 0⟩) ⟨rfl, .mergeInto hread _ 1⟩
  fresh := by decide
  hread := rfl
  follows := .step (.step (.step (.step (.done _))))
  alone := by
    intro m hm update entry
    obtain rfl := List.mem_singleton.mp hm
    exact nofun

/-- The sample merge is exact. -/
theorem merge_exact_iff_sampleSubmit : sampleSubmit.Exact :=
  (merge_exact_iff sampleSubmit).mpr (by decide)

/-- A worker claims the job after the read, … -/
def abaClaimed : Trace.Move PostgresStore Event :=
  sampleRead.after.next (.ofNow 0)
    (.claimNext ["feed"] 0 sampleWorker.config.lease sampleWorker.identity)

/-- … its handler checkpoints the carry `7` and pauses, … -/
def abaPaused : Trace.Move PostgresStore Event :=
  abaClaimed.after.next (.ofNow 1) (sampleWorker.settle id 1
    (sampleRow.finished (.ok ⟨.ok (.pause 0 none), .json "7", none, none⟩)))

/-- … and the submission goes on. -/
def abaSubmit : MergingSubmit id sampleWorkers sampleTask (.json "2") 0 0 where
  past := [sampleEnqueue]
  read := sampleRead
  between₁ := [abaClaimed, abaPaused]
  journal := abaPaused.after.next (.ofNow 1) (.journal 0)
  between₂ := []
  write := abaPaused.after.next (.ofNow 1) sampleMergeInto
  env := .ofNow 0
  key := "k"
  candidate := sampleJob.record
  recordedAt := 1
  rest := .ret (.ok 0)
  run := by
    have hw : sampleWorkers sampleWorker := rfl
    have hclaim : ClaimedBy [sampleEnqueue, sampleRead, abaClaimed] sampleWorker sampleRow :=
      ⟨abaClaimed, by simp, _, _, _, _, rfl⟩
    have hread : ReadCandidate [sampleEnqueue, sampleRead, abaClaimed, abaPaused,
        abaPaused.after.next (.ofNow 1) (.journal 0)] sampleJob.record :=
      ⟨sampleRead, by simp, .ofNow 0, "feed", "k", rfl⟩
    exact .snoc (.snoc (.snoc (.snoc (.snoc (.snoc .start ⟨rfl, .enqueue sampleJob⟩)
      ⟨rfl, .dedupCandidate "feed" "k"⟩) ⟨rfl, .claimNext hw ["feed"] 0⟩)
      ⟨rfl, .settle hw hclaim 1 _⟩) ⟨rfl, .journal 0⟩) ⟨rfl, .mergeInto hread _ 1⟩
  fresh := by decide
  hread := rfl
  follows := .step (.step (.step (.step (.done _))))
  alone := by
    intro m hm update entry
    simp only [List.cons_append, List.nil_append, List.mem_cons, List.not_mem_nil, or_false] at hm
    rcases hm with rfl | rfl | rfl <;> exact nofun

/-- **A merge does not ask the claim epoch.** The carry a run has just checkpointed is
    overwritten by a decision made before the run, and journaled under its run number. -/
theorem merge_ignores_epoch :
    ¬ ∀ x : MergingSubmit id sampleWorkers sampleTask (.json "2") 0 0, x.Exact := by
  intro h
  have happlied := (h abaSubmit).applied _ rfl
  have hclaimed : handedOut 0 abaSubmit.between = [1] := by decide
  refine happlied.1 (fun hnone => ?_)
  have hnil : handedOut 0 abaSubmit.between = [] := hnone
  simp [hclaimed] at hnil

end Venturi
