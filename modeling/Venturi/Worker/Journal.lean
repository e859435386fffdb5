import Venturi.Job.Rows
import Venturi.Worker.System

namespace Venturi

open Sql PostgresStore

/-!
# The journal determines the row

* `Journaled` — the invariant of one job: its execution entries are numbered 1, 2, … up to
  the row's `run_count`, the run in progress excepted, and a completed or dead entry is
  the last one and agrees with the status.
* `journal_hole_free` — the claimed form of it, for every job of every reachable state.
* `failures_counted` — the failure count of a row is the number of failures its journal
  records, and only an entry that records a failure moves it.
-/

/-! ### Executions -/

/-- The journal entries of a job that record an execution, in order. -/
def Job.executions (j : Job) : List JournalRecord := j.log.filter (fun e => e.outcome ≠ .merged)

/-- The executions that are over: the one of a claimed row is still running. -/
def JobRecord.finishedRuns (r : JobRecord) : Nat :=
  if r.status = .claimed then r.runCount - 1 else r.runCount

/-- The status a terminal outcome leaves the job in. -/
def JournalOutcome.final? : JournalOutcome → Option Status
  | .completed => some .completed
  | .dead => some .dead
  | _ => none

/-- A settlement leaves the row in the status its journal entry names. -/
theorem Settlement.set_status (settlement : Settlement) (r : JobRecord) :
    (settlement.set r).status = (journalOutcomeFor settlement).final?.getD .pending := by
  cases settlement <;> rfl

/-- No settlement is journaled as a merge. -/
theorem journalOutcomeFor_ne_merged (settlement : Settlement) :
    journalOutcomeFor settlement ≠ .merged := by
  cases settlement <;> simp [journalOutcomeFor]

/-- Each terminal status has one outcome, and no other outcome is final. -/
theorem JournalOutcome.final?_cases {outcome : JournalOutcome} {st : Status}
    (h : outcome.final? = some st) :
    (outcome = .completed ∧ st = .completed) ∨ (outcome = .dead ∧ st = .dead) := by
  cases outcome <;> simp only [final?, reduceCtorEq, Option.some.injEq] at h
  · exact .inl ⟨rfl, h.symm⟩
  · exact .inr ⟨rfl, h.symm⟩

/-- A final status is a terminal one. -/
theorem JournalOutcome.final?_eq_some {outcome : JournalOutcome} {st : Status}
    (h : outcome.final? = some st) : st = .completed ∨ st = .dead :=
  (final?_cases h).imp And.right And.right

/-- **The invariant of a job and its journal.** -/
structure Job.Journaled (j : Job) : Prop where
  /-- Finished executions are numbered without gap or repeat. -/
  numbered : j.executions.map JournalRecord.runNo = List.range' 1 j.row.finishedRuns
  /-- A live job has no terminal entry. -/
  live : ¬ j.row.Terminal → ∀ e ∈ j.log, e.outcome.final? = none
  /-- A terminal job has exactly one, the last, and it names the status. -/
  final : j.row.Terminal → ∃ l e, j.log = l ++ [e] ∧ (∀ e' ∈ l, e'.outcome.final? = none) ∧
    e.outcome.final? = some j.row.status

namespace Job.Journaled

variable {j : Job} {r : JobRecord} {e : JournalRecord}

/-- An execution that ends is journaled under its run number, and the row follows the
    outcome of the entry. -/
theorem execution (h : j.Journaled) (hcoherent : j.row.Coherent)
    (hclaimed : j.row.status = .claimed) (hrun : r.runCount = j.row.runCount)
    (hst : r.status = e.outcome.final?.getD .pending)
    (hno : e.runNo = j.row.runCount) (hmerged : e.outcome ≠ .merged) :
    Journaled ⟨r, j.log ++ [e]⟩ := by
  have hlive : ∀ e' ∈ j.log, e'.outcome.final? = none :=
    h.live (JobRecord.not_terminal_of_claimed hclaimed)
  have hpos : 1 ≤ j.row.runCount := hcoherent.counted (by simp [hclaimed])
  have hopen : r.status ≠ .claimed := by
    rw [hst]
    cases hfinal : e.outcome.final? with
    | none => simp
    | some st => rcases JournalOutcome.final?_eq_some hfinal with rfl | rfl <;> simp
  refine ⟨?_, fun hnot e' he' => ?_, fun hterm => ⟨j.log, e, rfl, hlive, ?_⟩⟩
  · -- runs 1 .. n - 1 are journaled, and the entry is run n
    have hbefore : j.executions.map JournalRecord.runNo = List.range' 1 (j.row.runCount - 1) := by
      rw [h.numbered, JobRecord.finishedRuns, if_pos hclaimed]
    have hafter : Job.executions ⟨r, j.log ++ [e]⟩ = j.executions ++ [e] := by
      simp [Job.executions, List.filter_append, hmerged]
    have hcount : j.row.runCount - 1 + 1 = r.runCount := by omega
    rw [hafter, List.map_append, hbefore, JobRecord.finishedRuns, if_neg hopen, ← hcount,
      List.range'_concat]
    congr 1
    simp only [List.map_cons, List.map_nil, hno]
    congr 1
    omega
  · rcases List.mem_append.mp he' with he' | he'
    · exact hlive e' he'
    · obtain rfl := List.mem_singleton.mp he'
      cases hfinal : e'.outcome.final? with
      | none => rfl
      | some st =>
        have hstatus : r.status = st := by rw [hst, hfinal]; rfl
        have hterm : r.status = .completed ∨ r.status = .dead := by
          rw [hstatus]
          exact JournalOutcome.final?_eq_some hfinal
        exact absurd hterm hnot
  · show e.outcome.final? = some r.status
    cases hfinal : e.outcome.final? with
    | none =>
      -- the row would be pending
      have hpending : r.status = .pending := by rw [hst, hfinal]; rfl
      exact absurd hterm (JobRecord.not_terminal_of_pending hpending)
    | some st => rw [hst, hfinal]; rfl

/-- Claiming a pending job starts the next run and journals nothing. -/
theorem claim (h : j.Journaled) (hpending : j.row.status = .pending) (claimedBy : String)
    (expires : DateTime) : Journaled ⟨j.row.claim claimedBy expires, j.log⟩ := by
  have hlive : ∀ e ∈ j.log, e.outcome.final? = none :=
    h.live (JobRecord.not_terminal_of_pending hpending)
  refine ⟨?_, fun _ => hlive, fun hterm => ?_⟩
  · have hbefore : j.executions.map JournalRecord.runNo = List.range' 1 j.row.runCount := by
      rw [h.numbered, JobRecord.finishedRuns, if_neg (by simp [hpending])]
    exact hbefore
  · exact absurd hterm (JobRecord.not_terminal_of_claimed rfl)

/-- A merge into a pending job is journaled, but it is no execution. -/
theorem merge (h : j.Journaled) (hpending : j.row.status = .pending)
    (update : Option MergePayload) (hmerged : e.outcome = .merged) :
    Journaled ⟨j.row.merge update, j.log ++ [e]⟩ := by
  have hlive : ∀ e' ∈ j.log, e'.outcome.final? = none :=
    h.live (JobRecord.not_terminal_of_pending hpending)
  refine ⟨?_, fun _ e' he' => ?_, fun hterm => ?_⟩
  · have hafter : Job.executions ⟨j.row.merge update, j.log ++ [e]⟩ = j.executions := by
      simp [Job.executions, List.filter_append, hmerged]
    rw [hafter, h.numbered]
    simp [JobRecord.finishedRuns, hpending]
  · rcases List.mem_append.mp he' with he' | he'
    · exact hlive e' he'
    · obtain rfl := List.mem_singleton.mp he'
      rw [hmerged]
      rfl
  · have hlive' : (j.row.merge update).status = .pending := by simpa using hpending
    exact absurd hterm (JobRecord.not_terminal_of_pending hlive')

/-- **One sound step keeps the journal in order.** -/
theorem step {workers : Worker → Prop} {now : DateTime} {c : Call} {mark : Mark}
    {job job' : Option Job} (h : ∀ j ∈ job, j.Journaled) (hcoherent : ∀ j ∈ job, j.row.Coherent)
    (hsound : ∀ j ∈ job, c.SoundFor workers j.row) (hs : Job.Step now c mark job job') :
    ∀ j ∈ job', j.Journaled := by
  cases hs with
  | enqueue =>
    rintro _ ⟨⟩
    exact ⟨rfl, by simp, fun hterm => absurd hterm (JobRecord.not_terminal_of_pending rfl)⟩
  | claim heligible =>
    rintro _ ⟨⟩
    exact (h _ rfl).claim (JobRecord.eligible_iff.mp heligible).1 _ _
  | @settle claimedBy settlement journal row log n howned =>
    rintro _ ⟨⟩
    obtain ⟨hno, houtcome, -⟩ := hsound _ rfl
    have hst : (settlement.set row).status = journal.outcome.final?.getD .pending := by
      rw [houtcome, Settlement.set_status]
    have hmerged : journal.outcome ≠ .merged := houtcome ▸ journalOutcomeFor_ne_merged settlement
    exact (h _ rfl).execution (hcoherent _ rfl) (JobRecord.owned_iff.mp howned).2.2.2
      (Settlement.set_runCount settlement row) hst hno hmerged
  | @recover visibleAt failureCount journal row log n hstale =>
    rintro _ ⟨⟩
    obtain ⟨hno, houtcome, -⟩ := hsound _ rfl
    have hst : (row.repend visibleAt failureCount).status =
        journal.outcome.final?.getD .pending := by rw [houtcome]; rfl
    have hmerged : journal.outcome ≠ .merged := by simp [houtcome]
    have hclaimed : row.status = .claimed := (JobRecord.stale_iff.mp hstale).1
    exact (h _ rfl).execution (hcoherent _ rfl) hclaimed rfl hst hno hmerged
  | extendLease howned =>
    -- the expiry is no part of the invariant
    rintro _ ⟨⟩
    have hj := h _ rfl
    exact ⟨hj.numbered, hj.live, hj.final⟩
  | cleanup => simp
  | @merge update journal row log n hpending =>
    rintro _ ⟨⟩
    exact (h _ rfl).merge hpending update (hsound _ rfl).1

end Job.Journaled

/-! ### The journal is hole free -/

/-- What the journal of a job says about its row. -/
structure Job.HoleFree (j : Job) : Prop where
  /-- The finished executions are 1, 2, …, in this order. -/
  numbered : j.executions.map JournalRecord.runNo = List.range' 1 j.row.finishedRuns
  /-- A pending job that has run was re-pended by its last execution. -/
  repended : j.row.status = .pending → 0 < j.row.runCount →
    ∃ e ∈ j.executions.getLast?, e.outcome = .paused ∨ e.outcome = .retried ∨
      e.outcome = .staleRecovered ∨ e.outcome = .released
  completed : j.row.status = .completed ↔ ∃ e ∈ j.executions.getLast?, e.outcome = .completed
  dead : j.row.status = .dead ↔ ∃ e ∈ j.executions.getLast?, e.outcome = .dead
  /-- Nothing follows a terminal entry, merges included. -/
  last : ∀ l₁ e l₂, j.log = l₁ ++ e :: l₂ → e.outcome = .completed ∨ e.outcome = .dead → l₂ = []

/-- A final status has one outcome. -/
theorem JournalOutcome.final?_inj {o o' : JournalOutcome} {st : Status} (h : o.final? = some st)
    (h' : o'.final? = some st) : o = o' := by
  rcases final?_cases h with ⟨rfl, rfl⟩ | ⟨rfl, rfl⟩ <;>
    rcases final?_cases h' with ⟨rfl, hst⟩ | ⟨rfl, hst⟩ <;> first | rfl | cases hst

namespace Job.Journaled

variable {j : Job}

/-- The last execution names the terminal status, and only then is the job in it. -/
theorem final_iff (h : j.Journaled) {o : JournalOutcome} {st : Status} (ho : o.final? = some st) :
    j.row.status = st ↔ ∃ e ∈ j.executions.getLast?, e.outcome = o := by
  constructor
  · intro hst
    have hterm : j.row.Terminal := by
      rw [JobRecord.Terminal, hst]
      exact JournalOutcome.final?_eq_some ho
    obtain ⟨l, e, hlog, -, hfinal⟩ := h.final hterm
    have heo : e.outcome = o := JournalOutcome.final?_inj (hst ▸ hfinal) ho
    have hmerged : e.outcome ≠ .merged := by
      intro hm
      simp [hm, JournalOutcome.final?] at hfinal
    refine ⟨e, ?_, heo⟩
    simp [Job.executions, hlog, List.filter_append, hmerged]
  · rintro ⟨e, he, rfl⟩
    have hmem : e ∈ j.log := (List.mem_filter.mp (List.mem_of_getLast? he)).1
    by_cases hterm : j.row.Terminal
    · -- no entry before the last is final
      obtain ⟨l, e', hlog, hbefore, hfinal⟩ := h.final hterm
      rw [hlog] at hmem
      rcases List.mem_append.mp hmem with hl | hl
      · simp [hbefore e hl] at ho
      · obtain rfl := List.mem_singleton.mp hl
        exact Option.some.inj (hfinal.symm.trans ho)
    · simp [h.live hterm e hmem] at ho

/-- A terminal entry ends the journal. -/
theorem last (h : j.Journaled) {l₁ l₂ : List JournalRecord} {e : JournalRecord}
    (hlog : j.log = l₁ ++ e :: l₂) (he : e.outcome.final? ≠ none) : l₂ = [] := by
  have hmem : e ∈ j.log := by simp [hlog]
  have hterm : j.row.Terminal := by
    by_contra hlive
    exact he (h.live hlive e hmem)
  obtain ⟨l, e', hlog', hbefore, -⟩ := h.final hterm
  rcases List.eq_nil_or_concat l₂ with rfl | ⟨l₂', x, rfl⟩
  · rfl
  · -- otherwise the entry stands before the last one
    have hsplit : l ++ [e'] = (l₁ ++ e :: l₂') ++ [x] := by
      rw [← hlog', hlog]
      simp
    obtain ⟨rfl, -⟩ := List.append_inj' hsplit rfl
    exact absurd (hbefore e (by simp)) he

/-- An execution of a live job that is over put it back to pending. -/
theorem repended (h : j.Journaled) (hpending : j.row.status = .pending)
    (hrun : 0 < j.row.runCount) :
    ∃ e ∈ j.executions.getLast?, e.outcome = .paused ∨ e.outcome = .retried ∨
      e.outcome = .staleRecovered ∨ e.outcome = .released := by
  have hlength : j.executions.length = j.row.runCount := by
    have hnumbered := congrArg List.length h.numbered
    simpa [JobRecord.finishedRuns, hpending] using hnumbered
  -- it has run, and every finished run is journaled
  have hne : j.executions ≠ [] := by
    intro hnil
    rw [hnil, List.length_nil] at hlength
    omega
  refine ⟨j.executions.getLast hne, List.getLast?_eq_some_getLast hne, ?_⟩
  obtain ⟨hmem, hmerged⟩ := List.mem_filter.mp (List.getLast_mem hne)
  have hlive : (j.executions.getLast hne).outcome.final? = none :=
    h.live (JobRecord.not_terminal_of_pending hpending) _ hmem
  cases ho : (j.executions.getLast hne).outcome <;>
    simp_all [JournalOutcome.final?, Job.executions]

/-- A journaled job has a journal without holes. -/
theorem holeFree (h : j.Journaled) : j.HoleFree where
  numbered := h.numbered
  repended := h.repended
  completed := h.final_iff rfl
  dead := h.final_iff rfl
  last := by
    intro l₁ e l₂ hlog he
    apply h.last hlog
    rcases he with he | he <;> simp [he, JournalOutcome.final?]

end Job.Journaled

section System

variable {fl : ℚ → ℚ} {workers : Worker → Prop} {tr : History} {s : PostgresStore}

/-- Every job of the system is journaled. -/
theorem journaled_of_run (h : SystemRun fl workers tr s) (hfresh : FreshIds tr) (id : Ulid) :
    ∀ j ∈ s.view id, j.Journaled := by
  have hboth : ∀ j ∈ s.view id, j.row.Coherent ∧ j.Journaled := by
    refine SystemRun.job (I := fun _ job => ∀ j ∈ job, j.row.Coherent ∧ j.Journaled)
      (by simp) (fun _ _ _ hI _ => hI) ?_ h hfresh
    intro tr job job' m hI _ hsound hs j' hj'
    have hcoherent : ∀ j ∈ job, j.row.Coherent := fun j hj => (hI j hj).1
    exact ⟨hs.coherent hcoherent j' hj',
      Job.Journaled.step (fun j hj => (hI j hj).2) hcoherent hsound hs j' hj'⟩
  exact fun j hj => (hboth j hj).2

/-- **The journal is a hole-free event log that determines the row.** In every run of any
    workers and queues over one store, in every state, for every job. -/
theorem journal_hole_free (h : SystemRun fl workers tr s) (hfresh : FreshIds tr) (id : Ulid)
    (j : Job) (hj : s.view id = some j) : j.HoleFree :=
  (journaled_of_run h hfresh id j hj).holeFree

/-- The journal of the sample job has no hole after its first failure. -/
theorem journal_hole_free_sampleFailed :
    ∃ j, sampleFailed.after.view 0 = some j ∧ j.HoleFree :=
  ⟨_, rfl, journal_hole_free sampleFailed_run (by decide) 0 _ rfl⟩

/-! ### The failure budget -/

/-- The failures a journal records. -/
def failures (log : List JournalRecord) : Nat := log.countP (fun e => e.outcome.isFailure)

/-- The row counts the failures of its journal, up to the largest storable count. -/
def Job.Counted (j : Job) : Prop := j.row.failureCount = min (failures j.log : Int) i32Max

theorem failures_snoc {log : List JournalRecord} {e : JournalRecord} :
    failures (log ++ [e]) = failures log + if e.outcome.isFailure then 1 else 0 := by
  simp [failures, List.countP_append, List.countP_singleton]

/-- How one step moves the failure count: not at all, or with a journaled failure. -/
def CountsStep (j j' : Job) : Prop :=
  (j'.row.failureCount = j.row.failureCount ∧ failures j'.log = failures j.log) ∨
    ∃ e, j'.log = j.log ++ [e] ∧ e.outcome.isFailure ∧
      j'.row.failureCount = saturatingAdd j.row.failureCount 1

/-- The failure count after a settlement: the one it writes, or the old one. -/
theorem Settlement.set_failureCount (settlement : Settlement) (r : JobRecord) :
    (settlement.set r).failureCount = settlement.failureCount?.getD r.failureCount := by
  cases settlement <;> rfl

/-- **One sound step counts a failure exactly when it journals one.** -/
theorem Job.Step.countsStep {now : DateTime} {c : Call} {mark : Mark} {j j' : Job}
    (hs : Job.Step now c mark (some j) (some j')) (hsound : c.SoundFor workers j.row) :
    CountsStep j j' := by
  cases hs with
  | claim => exact .inl ⟨rfl, rfl⟩
  | @settle claimedBy settlement journal row log n =>
    obtain ⟨-, houtcome, hcount, -⟩ := hsound
    have hfailure : journal.outcome.isFailure = settlement.failureCount?.isSome := by
      rw [houtcome, isFailure_journalOutcomeFor]
    cases hfc : settlement.failureCount? with
    | none =>
      -- neither the row nor the journal counts
      rw [hfc] at hfailure
      refine .inl ⟨by rw [Settlement.set_failureCount, hfc]; rfl, ?_⟩
      simp [failures_snoc, hfailure]
    | some failureCount =>
      -- both count one more
      rw [hfc] at hfailure
      refine .inr ⟨_, rfl, hfailure, ?_⟩
      rw [Settlement.set_failureCount, hfc]
      exact hcount failureCount hfc
  | @recover visibleAt failureCount journal row log n =>
    obtain ⟨-, houtcome, hcount⟩ := hsound
    refine .inr ⟨_, rfl, ?_, hcount⟩
    show journal.outcome.isFailure = true
    rw [houtcome]
    rfl
  | extendLease => exact .inl ⟨rfl, rfl⟩
  | @merge update journal row log n =>
    have hfailure : journal.outcome.isFailure = false := by
      have hmerged : journal.outcome = .merged := hsound.1
      rw [hmerged]
      rfl
    refine .inl ⟨by cases update <;> rfl, ?_⟩
    simp [failures_snoc, hfailure]

/-- Counting on keeps the row at the failures of its journal. -/
theorem CountsStep.counted {j j' : Job} (hs : CountsStep j j') (h : j.Counted) : j'.Counted := by
  unfold Job.Counted at *
  rcases hs with ⟨hcount, hlog⟩ | ⟨e, hlog, hfailure, hcount⟩
  · rw [hcount, hlog, h]
  · rw [hcount, hlog, failures_snoc, if_pos hfailure, h, saturatingAdd]
    omega

/-- Counting on never lowers the failure count of a counted row. -/
theorem CountsStep.le {j j' : Job} (hs : CountsStep j j') (h : j.Counted) :
    j.row.failureCount ≤ j'.row.failureCount := by
  unfold Job.Counted at h
  rcases hs with ⟨hcount, -⟩ | ⟨e, -, -, hcount⟩
  · exact le_of_eq hcount.symm
  · rw [hcount, saturatingAdd]
    omega

/-- Every job of the system is counted. -/
theorem counted_of_run (h : SystemRun fl workers tr s) (hfresh : FreshIds tr) (id : Ulid) :
    ∀ j ∈ s.view id, j.Counted := by
  refine SystemRun.job (I := fun _ job => ∀ j ∈ job, j.Counted) (by simp)
    (fun _ _ _ hI _ => hI) ?_ h hfresh
  intro tr job job' m hI _ hsound hs j' hj'
  cases hjob : job with
  | none =>
    subst hjob
    obtain rfl : job' = some j' := hj'
    obtain ⟨new, -, rfl⟩ := hs.enqueue_of_none
    rfl
  | some j =>
    subst hjob
    obtain rfl : job' = some j' := hj'
    exact (hs.countsStep (hsound j rfl)).counted (hI j rfl)

/-- **The failure budget equals the recorded failures.** In every state of every run the
    failure count of a job is the number of failures in its journal, as long as that number
    can be stored.  A step moves it only by journaling a failure, so no pause, release,
    completion or merge does, nor a call that returned `false`; and no step lowers it. -/
theorem failures_counted (h : SystemRun fl workers tr s) (hfresh : FreshIds tr) :
    (∀ id j, s.view id = some j → j.row.failureCount = min (failures j.log : Int) i32Max) ∧
    (∀ m ∈ tr, ∀ id j j', m.before.view id = some j → m.after.view id = some j' →
      CountsStep j j' ∧ j.row.failureCount ≤ j'.row.failureCount) ∧
    (∀ m ∈ tr, m.label.refused → m.after = m.before) := by
  refine ⟨fun id j hj => counted_of_run h hfresh id j hj, ?_, ?_⟩
  · intro m hm id j j' hj hj'
    obtain ⟨tr₁, tr₂, rfl⟩ := List.append_of_mem hm
    obtain ⟨hrun, ⟨hs, hmade⟩, -⟩ := h.split
    have hfresh₁ : FreshIds tr₁ := hfresh.of_append
    have hcounts : CountsStep j j' := by
      rcases exec_view hs id with ⟨hview, -⟩ | hjob
      · have hsame : j' = j := Option.some.inj (hj'.symm.trans (hview.trans hj))
        rw [hsame]
        exact .inl ⟨rfl, rfl⟩
      · rw [hj, hj'] at hjob
        have hid : m.before.view j.row.id = some j := (view_id hj).symm ▸ hj
        exact hjob.countsStep (hmade.soundFor (SystemRun.run hrun) hfresh₁ hid hjob)
    exact ⟨hcounts, hcounts.le (counted_of_run hrun hfresh₁ id j hj)⟩
  · intro m hm hrefused
    obtain ⟨tr₁, tr₂, rfl⟩ := List.append_of_mem hm
    exact refused_unchanged h.split.2.1.1 hrefused

/-- The sample job counts the one failure its journal has. -/
theorem failures_counted_sampleFailed :
    ∃ j, sampleFailed.after.view 0 = some j ∧
      j.row.failureCount = min (failures j.log : Int) i32Max :=
  ⟨_, rfl, (failures_counted sampleFailed_run (by decide)).1 0 _ rfl⟩

end System

end Venturi
