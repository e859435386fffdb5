import Mathlib.Logic.Function.Basic
import Venturi.Fake.Rows
import Venturi.Sql.Keyset
import Venturi.Store.History
import Venturi.Store.Stats

namespace Venturi

open Sql Collections

/-!
# The jobs of the in-memory store (`test_support.rs`)

* `FakeStore.queryJobs`, `FakeStore.stats` — the queries.
* `FakeStore.view` — the job `id` with its journal, and what each write does to it.
* `foldl_better_eq_some` — the fold of `claim_next` finds the job with the least key.
-/

namespace FakeStore

/-! ### The queries -/

/-- `FakeStore::query_jobs`. -/
def queryJobs (s : FakeStore) (rank : Ulid → Nat) (filter : HistoryFilter) : List JobRecord :=
  let jobs := descending JobRecord.position
    ((s.jobs.scan rank).filter (fun r => filter.matches r && filter.older r))
  match filter.limit with
  | none => jobs
  | some limit => jobs.take (max limit 0).toNat

/-- `FakeStore::stats`. -/
def stats (s : FakeStore) (now : DateTime) (rank : Ulid → Nat) : Store.Snapshot :=
  (s.jobs.scan rank).foldl (Store.Snapshot.count now) Store.Snapshot.default

/-- **`stats`** describes the jobs, whatever order it visits them in. -/
theorem of_stats (s : FakeStore) (now : DateTime) (rank : Ulid → Nat) :
    (s.stats now rank).Of now (s.jobs.scan rank).reverse :=
  Store.Snapshot.of_foldl now (s.jobs.scan rank)

/-! ### The view of one job -/

/-- The job `id`. -/
def view (s : FakeStore) (id : Ulid) : Option Job :=
  (s.jobs.find? id).map (fun row => ⟨row, s.journalOf id⟩)

variable {s : FakeStore} {id : Ulid} {r : JobRecord}

/-- The journal is stored in order. -/
theorem journalOf_eq (h : s.WellFormed) (id : Ulid) :
    s.journalOf id = s.journal.filter (fun e => e.jobId = id) :=
  orderBy_eq_self ((h.increasing.filter _).imp (fun hlt => le_of_lt hlt))

/-- A journal is under increasing ids. -/
theorem increasing_journalOf (h : s.WellFormed) (id : Ulid) :
    (s.journalOf id).Pairwise (fun a b => a.id < b.id) := by
  rw [journalOf_eq h]
  exact h.increasing.filter _

/-- A job that is not stored has no journal. -/
theorem journalOf_eq_nil (h : s.WellFormed) (hid : s.jobs.find? id = none) :
    s.journalOf id = [] := by
  rw [journalOf_eq h, List.filter_eq_nil_iff]
  intro e he hjob
  have hstored := h.references e he
  rw [of_decide_eq_true hjob, hid] at hstored
  cases hstored

/-- A write changes one row. -/
theorem view_write (s : FakeStore) (r : JobRecord) :
    (s.write r).view = Function.update s.view r.id (some ⟨r, s.journalOf r.id⟩) := by
  funext id
  have hfind : (s.write r).jobs.find? id = if r.id = id then some r else s.jobs.find? id :=
    Table.find?_put s.jobs r id
  rw [view, hfind]
  by_cases hid : id = r.id
  · subst hid
    rw [if_pos rfl, Function.update_self]
    rfl
  · rw [if_neg (Ne.symm hid), Function.update_of_ne hid]
    rfl

/-- A write that is journaled. -/
theorem view_write_push (h : s.WellFormed) (hid : r.id = id) (journal : JournalAppend) :
    ((s.write r).push id journal).view = Function.update s.view id
      (some ⟨r, s.journalOf id ++ [journal.record id s.nextJournalId]⟩) := by
  have hincreasing : (s.journal ++ [journal.record id s.nextJournalId]).Pairwise
      (fun a b => a.id < b.id) := by
    rw [List.pairwise_append]
    refine ⟨h.increasing, List.pairwise_singleton _ _, fun a ha b hb => ?_⟩
    obtain rfl := List.mem_singleton.mp hb
    exact h.below a ha
  have hsorted : ∀ id', ((s.write r).push id journal).journalOf id' =
      (s.journal ++ [journal.record id s.nextJournalId]).filter (fun e => e.jobId = id') :=
    fun id' => orderBy_eq_self ((hincreasing.filter _).imp (fun hlt => le_of_lt hlt))
  have hfind : ∀ id', ((s.write r).push id journal).jobs.find? id' =
      if r.id = id' then some r else s.jobs.find? id' := Table.find?_put s.jobs r
  funext id'
  rw [view, hfind, hsorted, List.filter_append]
  by_cases hid' : id' = id
  · subst hid'
    rw [if_pos hid, Function.update_self, journalOf_eq h]
    simp
  · -- the entry belongs to another job
    have hne : r.id ≠ id' := fun h => hid' (h.symm.trans hid)
    rw [if_neg hne, Function.update_of_ne hid', view, journalOf_eq h]
    simp [Ne.symm hid']

/-- A removal drops one job with its journal. -/
theorem view_remove (h : s.WellFormed) (id id' : Ulid) :
    (s.remove id).view id' = if id' = id then none else s.view id' := by
  have hfind : (s.remove id).jobs.find? id' =
      (s.jobs.find? id').filter (fun r => !decide (r.id = id)) := Table.find?_delete s.jobs _ id'
  rw [view, hfind]
  by_cases hid : id' = id
  · rw [if_pos hid, Option.map_eq_none_iff, Option.filter_eq_none_iff]
    intro r hr
    simp [Table.key_of_find? hr, hid]
  · rw [if_neg hid, view, journalOf_eq h, journalOf_eq (h.remove id)]
    have hentries : (s.remove id).journal.filter (fun e => e.jobId = id') =
        s.journal.filter (fun e => e.jobId = id') := by
      rw [remove, List.filter_filter]
      refine List.filter_congr (fun e _ => ?_)
      by_cases he : e.jobId = id'
      · simp [he, hid]
      · simp [he]
    rw [hentries]
    cases hr : s.jobs.find? id' with
    | none => rfl
    | some r =>
      have hne : r.id ≠ id := fun h => hid ((Table.key_of_find? hr).symm.trans h)
      rw [Option.filter_some_pos (by simp [hne])]

/-- **A cleanup** drops the jobs it lists. -/
theorem view_foldl_remove (h : s.WellFormed) (ids : List Ulid) (id : Ulid) :
    (ids.foldl remove s).view id = if id ∈ ids then none else s.view id := by
  induction ids generalizing s with
  | nil => simp
  | cons id' ids ih =>
    rw [List.foldl_cons, ih (h.remove id'), view_remove h]
    by_cases hid : id = id'
    · simp [hid]
    · simp [hid]

/-- A cleanup leaves the seam and the mutex alone. -/
theorem foldl_remove_flags (s : FakeStore) (ids : List Ulid) :
    (ids.foldl remove s).poisoned = s.poisoned ∧
      (ids.foldl remove s).forceNextMergeIntoMiss = s.forceNextMergeIntoMiss := by
  induction ids generalizing s with
  | nil => exact ⟨rfl, rfl⟩
  | cons id ids ih => exact ih (s.remove id)

/-! ### Guarded writes -/

/-- The shape `settle`, `recover` and `merge_into` share: a row that passes a guard is
    rewritten and journaled. -/
def guardedWrite (s : FakeStore) (id : Ulid) (guard : JobRecord → Bool)
    (set : JobRecord → JobRecord) (journal : JournalAppend) : Bool × FakeStore :=
  match s.jobs.find? id with
  | none => (false, s)
  | some job => if ¬ guard job then (false, s) else (true, (s.write (set job)).push id journal)

theorem settle_eq (s : FakeStore) (id : Ulid) (claimedBy : String) (runNo : Nat)
    (settlement : Settlement) (journal : JournalAppend) :
    s.settle id claimedBy runNo settlement journal =
      s.guardedWrite id (JobRecord.owned id claimedBy runNo) settlement.set journal := rfl

theorem recover_eq (s : FakeStore) (now : DateTime) (id : Ulid) (visibleAt : DateTime)
    (failureCount : Int) (runNo : Nat) (journal : JournalAppend) :
    s.recover now id visibleAt failureCount runNo journal =
      s.guardedWrite id (JobRecord.recoverable id runNo now)
        (fun r => r.repend visibleAt failureCount) journal := rfl

/-- `merge_into` that is not forced to miss is a guarded write of the merged row. -/
theorem mergeInto_eq (hforce : s.forceNextMergeIntoMiss = false) (id : Ulid)
    (update : Option MergePayload) (journal : JournalAppend) :
    s.mergeInto id update journal =
      s.guardedWrite id (JobRecord.mergeable id) (JobRecord.merge update) journal := by
  rw [mergeInto, hforce, guardedWrite]
  cases hjob : s.jobs.find? id with
  | none => rfl
  | some job =>
    have hid : job.id = id := Table.key_of_find? hjob
    by_cases hpending : job.status = .pending <;> simp [JobRecord.mergeable, hid, hpending]

/-! ### The fold of `claim_next` -/

/-- The better of two candidates is at most either. -/
theorem better_eq_some (best : Option JobRecord) (job : JobRecord) :
    ∃ b, better best job = some b ∧ claimKey b ≤ claimKey job ∧
      ∀ b' ∈ best, claimKey b ≤ claimKey b' := by
  cases best with
  | none => exact ⟨job, rfl, le_refl _, by simp⟩
  | some b =>
    unfold better
    by_cases hlt : claimKey job < claimKey b
    · refine ⟨job, by simp [hlt], le_refl _, fun b' hb' => ?_⟩
      obtain rfl := Option.some.inj hb'
      exact le_of_lt hlt
    · refine ⟨b, by simp [hlt], not_lt.mp hlt, fun b' hb' => ?_⟩
      obtain rfl := Option.some.inj hb'
      exact le_refl _

/-- The fold finds a job, unless there is none. -/
theorem foldl_better_eq_none {rows : List JobRecord} {best : Option JobRecord}
    (h : rows.foldl better best = none) : rows = [] ∧ best = none := by
  induction rows generalizing best with
  | nil => exact ⟨rfl, h⟩
  | cons job rows ih =>
    obtain ⟨b, hb, -⟩ := better_eq_some best job
    rw [List.foldl_cons, hb] at h
    cases (ih h).2

/-- The best job of a scan comes before all of them. -/
theorem foldl_better_le {rows : List JobRecord} {best : Option JobRecord}
    (h : rows.foldl better best = some r) :
    (∀ b ∈ best, claimKey r ≤ claimKey b) ∧ ∀ r' ∈ rows, claimKey r ≤ claimKey r' := by
  induction rows generalizing best with
  | nil =>
    obtain rfl : best = some r := h
    exact ⟨fun b hb => Option.some.inj hb ▸ le_refl _, List.forall_mem_nil _⟩
  | cons job rows ih =>
    obtain ⟨b, hb, hjob, hbest⟩ := better_eq_some best job
    rw [List.foldl_cons, hb] at h
    obtain ⟨hle, hrows⟩ := ih h
    have hrb : claimKey r ≤ claimKey b := hle b rfl
    refine ⟨fun b' hb' => hrb.trans (hbest b' hb'), fun r' hr' => ?_⟩
    rcases List.mem_cons.mp hr' with rfl | hr'
    · exact hrb.trans hjob
    · exact hrows r' hr'

/-- **The fold finds the job with the least key.** -/
theorem foldl_better_eq_some {rows : List JobRecord} (h : rows.foldl better none = some r) :
    r ∈ rows ∧ ∀ r' ∈ rows, claimKey r ≤ claimKey r' := by
  refine ⟨?_, (foldl_better_le h).2⟩
  rcases foldl_better_mem h with hnone | hmem
  · cases hnone
  · exact hmem

end FakeStore

end Venturi
