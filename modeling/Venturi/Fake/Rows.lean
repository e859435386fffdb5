import Venturi.Fake.Store
import Venturi.Job.Rows

namespace Venturi

open Sql

/-!
# Both stores keep their rows well formed

* `FakeStore.WellFormed` — the invariant of the in-memory store, which nothing but its own
  code protects: coherent rows of a valid tier, and a journal under increasing ids whose
  entries refer to stored jobs.
* `rows_wellFormed` — every reachable state of either store is well formed.
-/

/-- A row as the schema and the lifecycle intend it. -/
structure JobRecord.WellFormed (r : JobRecord) : Prop where
  coherent : r.Coherent
  tier : r.ValidTier

namespace JobRecord.WellFormed

variable {r : JobRecord}

theorem claim (h : r.WellFormed) (hpending : r.status = .pending) (claimedBy : String)
    (expires : DateTime) : (r.claim claimedBy expires).WellFormed :=
  ⟨h.coherent.claim hpending claimedBy expires, h.tier⟩

theorem settle (h : r.WellFormed) (hclaimed : r.status = .claimed) (settlement : Settlement) :
    (settlement.set r).WellFormed := by
  refine ⟨h.coherent.settle hclaimed settlement, ?_⟩
  rw [ValidTier, Settlement.set_priority]
  exact h.tier

theorem repend (h : r.WellFormed) (hclaimed : r.status = .claimed) (visibleAt : DateTime)
    (failureCount : Int) : (r.repend visibleAt failureCount).WellFormed :=
  ⟨h.coherent.repend hclaimed visibleAt failureCount, h.tier⟩

theorem extend (h : r.WellFormed) (hclaimed : r.status = .claimed) (expires : DateTime) :
    (r.extend expires).WellFormed := ⟨h.coherent.extend hclaimed expires, h.tier⟩

theorem merge (h : r.WellFormed) {update : Option MergePayload}
    (htier : ∀ u ∈ update, 0 ≤ u.priority ∧ u.priority ≤ 2) : (r.merge update).WellFormed := by
  refine ⟨h.coherent.merge update, ?_⟩
  cases update with
  | none => exact h.tier
  | some u => exact htier u rfl

end JobRecord.WellFormed

/-- A new job that passes its own validation becomes a well-formed row. -/
theorem NewJob.wellFormed {job : NewJob} (h : job.validate = .ok ()) : job.record.WellFormed := by
  refine ⟨job.coherent, ?_⟩
  unfold NewJob.validate at h
  split at h
  · cases h
  · rename_i hsome
    rw [Option.isNone_iff_eq_none, ← ne_eq, Option.ne_none_iff_isSome] at hsome
    exact Priority.fromSmallint_isSome.mp hsome

namespace FakeStore

/-- The invariant of the in-memory store. -/
structure WellFormed (s : FakeStore) : Prop where
  rows : ∀ r ∈ s.jobs.rows, r.WellFormed
  references : ∀ e ∈ s.journal, (s.jobs.find? e.jobId).isSome
  increasing : s.journal.Pairwise (fun a b => a.id < b.id)
  below : ∀ e ∈ s.journal, e.id < s.nextJournalId

namespace WellFormed

variable {s : FakeStore}

theorem new : FakeStore.new.WellFormed := by
  constructor <;> simp [FakeStore.new]

/-- The invariant reads neither the seam nor the mutex. -/
theorem flags (h : s.WellFormed) (force poisoned : Bool) :
    WellFormed { s with forceNextMergeIntoMiss := force, poisoned := poisoned } :=
  ⟨h.rows, h.references, h.increasing, h.below⟩

/-- Writing a well-formed row. -/
theorem write (h : s.WellFormed) {r : JobRecord} (hr : r.WellFormed) : (s.write r).WellFormed where
  rows := by
    intro r' hr'
    simp only [FakeStore.write, Table.put, List.mem_append, List.mem_filter,
      List.mem_singleton] at hr'
    rcases hr' with ⟨hr', -⟩ | rfl
    · exact h.rows r' hr'
    · exact hr
  references := by
    intro e he
    simp only [FakeStore.write, Table.find?_put]
    split
    · rfl
    · exact h.references e he
  increasing := h.increasing
  below := h.below

/-- Journaling a stored job. -/
theorem push (h : s.WellFormed) {id : Ulid} (hid : (s.jobs.find? id).isSome)
    (journal : JournalAppend) : (s.push id journal).WellFormed where
  rows := h.rows
  references := by
    intro e he
    rcases List.mem_append.mp he with he | he
    · exact h.references e he
    · obtain rfl := List.mem_singleton.mp he
      exact hid
  increasing := by
    rw [FakeStore.push, List.pairwise_append]
    refine ⟨h.increasing, List.pairwise_singleton _ _, fun a ha b hb => ?_⟩
    obtain rfl := List.mem_singleton.mp hb
    exact h.below a ha
  below := by
    intro e he
    rcases List.mem_append.mp he with he | he
    · exact Nat.lt_succ_of_lt (h.below e he)
    · obtain rfl := List.mem_singleton.mp he
      exact Nat.lt_succ_self _

/-- A row written under its own id is there to be journaled. -/
theorem write_push (h : s.WellFormed) {r : JobRecord} {id : Ulid} (hr : r.WellFormed)
    (hid : r.id = id) (journal : JournalAppend) : ((s.write r).push id journal).WellFormed := by
  refine (h.write hr).push ?_ journal
  rw [FakeStore.write, Table.find?_put, if_pos hid]
  rfl

/-- Removing a job with its journal. -/
theorem remove (h : s.WellFormed) (id : Ulid) : (s.remove id).WellFormed where
  rows := fun r hr => h.rows r (Table.mem_delete.mp hr).1
  references := by
    intro e he
    obtain ⟨he, hne⟩ := List.mem_filter.mp he
    obtain ⟨r, hr⟩ := Option.isSome_iff_exists.mp (h.references e he)
    have hkeep : r.id ≠ id := by
      rw [Table.key_of_find? hr]
      simpa using hne
    simp [FakeStore.remove, Table.find?_delete, hr, hkeep]
  increasing := h.increasing.filter _
  below := fun e he => h.below e (List.mem_filter.mp he).1

end WellFormed

/-- The best of a list is one of its jobs. -/
theorem foldl_better_mem {rows : List JobRecord} {best : Option JobRecord} {r : JobRecord}
    (h : rows.foldl better best = some r) : best = some r ∨ r ∈ rows := by
  induction rows generalizing best with
  | nil => exact .inl h
  | cons job rows ih =>
    rcases ih h with hbest | hmem
    · cases best with
      | none => exact .inr (by simp [Option.some.inj hbest])
      | some b =>
        simp only [better] at hbest
        split at hbest
        · exact .inr (by simp [Option.some.inj hbest])
        · exact .inl hbest
    · exact .inr (List.mem_cons_of_mem _ hmem)

variable {s : FakeStore}

theorem WellFormed.claimNext (h : s.WellFormed) (now : DateTime) (rank : Ulid → Nat)
    (kinds : List String) (floor : Int) (lease : Duration) (claimedBy : String) :
    (s.claimNext now rank kinds floor lease claimedBy).2.WellFormed := by
  unfold FakeStore.claimNext
  simp only
  split
  · exact h
  · rename_i r hr
    obtain ⟨hscan, heligible⟩ : r ∈ s.jobs.scan rank ∧ r.eligible kinds floor now := by
      rcases foldl_better_mem hr with hnone | hmem
      · cases hnone
      · exact List.mem_filter.mp hmem
    have hrow : r.WellFormed := h.rows r (Table.mem_scan.mp hscan)
    have hclaim : (r.claim claimedBy (addDuration now lease)).WellFormed :=
      hrow.claim (JobRecord.eligible_iff.mp heligible).1 _ _
    split
    · exact h.write hclaim
    · -- the increment overflows: the row is claimed with its old run count
      rename_i hmax
      have hcount : 1 ≤ r.runCount := by
        simp only [u32Max] at hmax
        omega
      have hrow' : WellFormed (s.write { r with
          status := .claimed, claimedBy := some claimedBy
          claimExpiresAt := some (addDuration now lease) }) :=
        h.write ⟨⟨hclaim.coherent.claimed, hclaim.coherent.leased, hclaim.coherent.finished,
          fun _ => hcount⟩, hclaim.tier⟩
      exact hrow'.flags _ true

theorem WellFormed.settle (h : s.WellFormed) (id : Ulid) (claimedBy : String) (runNo : Nat)
    (settlement : Settlement) (journal : JournalAppend) :
    (s.settle id claimedBy runNo settlement journal).2.WellFormed := by
  unfold FakeStore.settle
  split
  · exact h
  · rename_i job hjob
    obtain ⟨hmem, hid⟩ := Table.find?_eq_some.mp hjob
    split
    · exact h
    · rename_i howned
      have hclaimed := (JobRecord.owned_iff.mp (not_not.mp howned)).2.2.2
      exact h.write_push ((h.rows job hmem).settle hclaimed settlement)
        ((Settlement.set_id settlement job).trans hid) journal

theorem WellFormed.recover (h : s.WellFormed) (now : DateTime) (id : Ulid) (visibleAt : DateTime)
    (failureCount : Int) (runNo : Nat) (journal : JournalAppend) :
    (s.recover now id visibleAt failureCount runNo journal).2.WellFormed := by
  unfold FakeStore.recover
  split
  · exact h
  · rename_i job hjob
    obtain ⟨hmem, hid⟩ := Table.find?_eq_some.mp hjob
    split
    · exact h
    · rename_i hrec
      obtain ⟨-, hstale, -⟩ := JobRecord.recoverable_iff.mp (not_not.mp hrec)
      have hclaimed := (JobRecord.stale_iff.mp hstale).1
      exact h.write_push ((h.rows job hmem).repend hclaimed visibleAt failureCount) hid journal

theorem WellFormed.extendLease (h : s.WellFormed) (now : DateTime) (id : Ulid) (claimedBy : String)
    (runNo : Nat) (lease : Duration) :
    (s.extendLease now id claimedBy runNo lease).2.WellFormed := by
  unfold FakeStore.extendLease
  split
  · exact h
  · rename_i job hjob
    obtain ⟨hmem, hid⟩ := Table.find?_eq_some.mp hjob
    split
    · exact h
    · rename_i howned
      have hclaimed := (JobRecord.owned_iff.mp (not_not.mp howned)).2.2.2
      exact h.write ((h.rows job hmem).extend hclaimed (addDuration now lease))

theorem WellFormed.mergeInto (h : s.WellFormed) (id : Ulid) {update : Option MergePayload}
    (journal : JournalAppend) (htier : ∀ u ∈ update, 0 ≤ u.priority ∧ u.priority ≤ 2) :
    (s.mergeInto id update journal).2.WellFormed := by
  unfold FakeStore.mergeInto
  split
  · exact h.flags false s.poisoned
  · split
    · exact h
    · rename_i job hjob
      obtain ⟨hmem, hid⟩ := Table.find?_eq_some.mp hjob
      split
      · exact h
      · have hid' : (job.merge update).id = id := (JobRecord.merge_id update job).trans hid
        exact h.write_push ((h.rows job hmem).merge htier) hid' journal

theorem WellFormed.cleanup (h : s.WellFormed) (rank : Ulid → Nat) (criteria : CleanupCriteria) :
    (s.cleanup rank criteria).2.WellFormed := by
  have hfold : ∀ (ids : List Ulid) (s : FakeStore), s.WellFormed →
      (ids.foldl FakeStore.remove s).WellFormed := by
    intro ids
    induction ids with
    | nil => exact fun _ hs => hs
    | cons id ids ih => exact fun _ hs => ih _ (hs.remove id)
  exact hfold _ s h

/-- **One step keeps the in-memory store well formed.** -/
theorem WellFormed.step {s' : FakeStore} (h : s.WellFormed) (hs : Step s s') : s'.WellFormed := by
  cases hs with
  | forceNextMergeIntoMiss => exact h.flags true s.poisoned
  | call env c htier =>
    unfold exec
    split
    · exact h
    cases c with
    | enqueue job =>
      simp only [execLocked, FakeStore.enqueue]
      split
      · exact h
      · rename_i hvalid
        exact h.write (NewJob.wellFormed hvalid)
    | claimNext kinds floor lease claimedBy => exact h.claimNext _ _ _ _ _ _
    | settle id claimedBy runNo settlement journal => exact h.settle _ _ _ _ _
    | recover id visibleAt failureCount runNo journal => exact h.recover _ _ _ _ _ _
    | extendLease id claimedBy runNo lease => exact h.extendLease _ _ _ _ _
    | mergeInto id update journal =>
      refine h.mergeInto id journal (fun u hu => ?_)
      obtain rfl : update = some u := hu
      exact htier
    | cleanup criteria => exact h.cleanup _ _
    | journal _ | nextVisibleAt _ | dedupCandidate _ _ | findStale | job _ => exact h

/-- Every state that the store in memory reaches is well formed. -/
theorem wellFormed_of_reachable (h : Reachable s) : s.WellFormed := by
  induction h with
  | refl => exact WellFormed.new
  | tail _ hs ih => exact ih.step hs

end FakeStore

/-- A tier in range is one of the three tiers. -/
theorem JobRecord.ValidTier.cases {r : JobRecord} (h : r.ValidTier) :
    r.priority = 0 ∨ r.priority = 1 ∨ r.priority = 2 := by
  unfold JobRecord.ValidTier at h
  omega

/-- **Row well-formedness.** In every reachable state of either store: a row is claimed
    exactly when it has a claimant, and exactly when it has an expiry; it has a finish
    time exactly when it is completed or dead; its tier is one of three; it ran at least
    once unless it is pending; and every journal entry refers to a stored job.  The journal
    of the in-memory store has strictly increasing ids below its next id. -/
theorem rows_wellFormed :
    (∀ tr s, PostgresStore.Run tr s →
      (∀ r ∈ s.jobs.rows, r.Coherent ∧ (r.priority = 0 ∨ r.priority = 1 ∨ r.priority = 2)) ∧
      (∀ e ∈ s.journal.rows, ∃ r ∈ s.jobs.rows, r.id = e.jobId)) ∧
    (∀ s, FakeStore.Reachable s →
      (∀ r ∈ s.jobs.rows, r.Coherent ∧ (r.priority = 0 ∨ r.priority = 1 ∨ r.priority = 2)) ∧
      (∀ e ∈ s.journal, ∃ r ∈ s.jobs.rows, r.id = e.jobId) ∧
      s.journal.Pairwise (fun a b => a.id < b.id) ∧ ∀ e ∈ s.journal, e.id < s.nextJournalId) := by
  constructor
  · intro tr s h
    refine ⟨fun r hr => ⟨?_, (s.tiers r hr).cases⟩, fun e he => ?_⟩
    · exact coherent_of_run h r.id ⟨r, _⟩
        (PostgresStore.view_eq_some.mpr ⟨Table.find?_key hr, rfl⟩)
    · obtain ⟨r, hr⟩ := Option.isSome_iff_exists.mp (s.references e he)
      exact ⟨r, Table.find?_eq_some.mp hr⟩
  · intro s h
    have hwell := FakeStore.wellFormed_of_reachable h
    refine ⟨fun r hr => ⟨(hwell.rows r hr).coherent, (hwell.rows r hr).tier.cases⟩,
      fun e he => ?_, hwell.increasing, hwell.below⟩
    obtain ⟨r, hr⟩ := Option.isSome_iff_exists.mp (hwell.references e he)
    exact ⟨r, Table.find?_eq_some.mp hr⟩

/-- After one completed run of the sample job in either store. -/
theorem rows_wellFormed_sample :
    (∀ r ∈ (PostgresStore.empty.replay sampleCompleted).2.jobs.rows, r.Coherent) ∧
      (∀ r ∈ (FakeStore.new.exec (.ofNow 0) (.enqueue sampleJob)).2.jobs.rows, r.Coherent) :=
  ⟨fun r hr => ((rows_wellFormed.1 _ _ (PostgresStore.run_replay sampleCompleted)).1 r hr).1,
    fun r hr => ((rows_wellFormed.2 _ (.single (.call (.ofNow 0) (.enqueue sampleJob) trivial))).1
      r hr).1⟩

end Venturi
