import Venturi.Fake.Reads
import Venturi.Postgres.Locks
import Venturi.Postgres.Pages
import Venturi.Postgres.Stats

namespace Venturi

open Sql

/-!
# The two stores side by side

* `Mirrors` — the in-memory store holds the jobs of the database, with journals that differ
  in their entry ids only, and answers calls.
* `PostgresStore.Orderly` — no two jobs share a creation time, and every run count fits its
  column.
* `Simulates` — the relation the stores stay in; one lemma for each operation says that the
  replies agree and that the stores still mirror each other.
-/

/-- A journal entry without its id. -/
def JournalRecord.unnumbered (e : JournalRecord) : JournalRecord := { e with id := 0 }

/-- The same entries under ids of the same order. -/
structure SameEntries (l l' : List JournalRecord) : Prop where
  entries : l.map JournalRecord.unnumbered = l'.map JournalRecord.unnumbered
  left : l.Pairwise (fun a b => a.id < b.id)
  right : l'.Pairwise (fun a b => a.id < b.id)

/-- Jobs that differ in the ids of their journal entries only. -/
structure Job.Alike (j j' : Job) : Prop where
  row : j.row = j'.row
  log : j.log.map JournalRecord.unnumbered = j'.log.map JournalRecord.unnumbered

/-- Both journals get one more entry. -/
theorem Job.Alike.push {j j' : Job} (h : j.Alike j') (row : JobRecord) (journal : JournalAppend)
    (id : Ulid) (n n' : Nat) :
    Job.Alike ⟨row, j.log ++ [journal.record id n]⟩ ⟨row, j'.log ++ [journal.record id n']⟩ := by
  refine ⟨rfl, ?_⟩
  rw [List.map_append, List.map_append, h.log]
  rfl

/-- The in-memory store holds the jobs of the database and answers calls. -/
structure Mirrors (f : FakeStore) (s : PostgresStore) : Prop where
  jobs : ∀ id, Option.Rel Job.Alike (f.view id) (s.view id)
  unlocked : f.poisoned = false
  unforced : f.forceNextMergeIntoMiss = false

/-- What the agreement rests on in the database. -/
structure PostgresStore.Orderly (s : PostgresStore) : Prop where
  distinct : ∀ r ∈ s.jobs.rows, ∀ r' ∈ s.jobs.rows, r.createdAt = r'.createdAt → r = r'
  counted : ∀ r ∈ s.jobs.rows, r.runCount ≤ i32Max

/-- The relation the two stores stay in. -/
structure Simulates (f : FakeStore) (s : PostgresStore) : Prop extends Mirrors f s where
  wellFormed : f.WellFormed
  orderly : s.Orderly

/-! ### The database answers -/

namespace PostgresStore

variable {s : PostgresStore} {id : Ulid} {claimedBy : String} {runNo : Nat} {now : DateTime}
  {journal : JournalAppend}

/-- An `enqueue` of an id that is not stored fails on its tier only. -/
theorem enqueue_ok {new : NewJob} (hid : s.jobs.find? new.id = none)
    (hvalid : new.validate = .ok ()) : ∃ s', s.enqueue new = .ok ((), s') := by
  have htier : new.record.ValidTier := (NewJob.wellFormed hvalid).tier
  have hinsert : s.jobs.insert new.record ≠ none := by
    rw [ne_eq, Table.insert_eq_none, not_not]
    exact hid
  simp only [enqueue, hvalid, bind, Except.bind, insertJob, dif_pos htier]
  split
  · rename_i hnone
    split at hnone
    · rename_i hnone'
      exact absurd hnone' hinsert
    · cases hnone
  · exact ⟨_, rfl⟩

/-- With run numbers in range a `settle` answers. -/
theorem settle_ok (settlement : Settlement) (hrun : runNo ≤ i32Max)
    (hjournal : journal.runNo ≤ i32Max) :
    ∃ b s', s.settle id claimedBy runNo settlement journal = .ok (b, s') := by
  by_cases hhit : ∃ job, s.view id = some job ∧ job.row.owned id claimedBy runNo
  · obtain ⟨job, hjob, howned⟩ := hhit
    obtain ⟨s', hok⟩ := settle_hit settlement hrun hjournal hjob howned
    exact ⟨true, s', hok⟩
  · refine ⟨false, s, ?_⟩
    rw [settle_miss hrun (fun job hjob howned => hhit ⟨job, hjob, howned⟩),
      runNoToDb_eq_ok.mpr ⟨hjournal, rfl⟩]
    rfl

/-- So does a `recover`. -/
theorem recover_ok (visibleAt : DateTime) (failureCount : Int) (hrun : runNo ≤ i32Max)
    (hjournal : journal.runNo ≤ i32Max) :
    ∃ b s', s.recover now id visibleAt failureCount runNo journal = .ok (b, s') := by
  by_cases hhit : ∃ job, s.view id = some job ∧ job.row.recoverable id runNo now
  · obtain ⟨job, hjob, hrec⟩ := hhit
    obtain ⟨_, s', hok, -⟩ := recover_hit visibleAt failureCount hrun hjournal hjob hrec
    exact ⟨true, s', hok⟩
  · refine ⟨false, s, ?_⟩
    rw [recover_miss hrun (fun job hjob hrec => hhit ⟨job, hjob, hrec⟩),
      runNoToDb_eq_ok.mpr ⟨hjournal, rfl⟩]
    rfl

/-- So does an `extend_lease`. -/
theorem extendLease_ok (lease : Duration) (hrun : runNo ≤ i32Max) :
    ∃ b s', s.extendLease now id claimedBy runNo lease = .ok (b, s') := by
  by_cases hhit : ∃ job, s.view id = some job ∧ job.row.owned id claimedBy runNo
  · obtain ⟨job, hjob, howned⟩ := hhit
    rcases updateJobs_hit (fun r => r.extend (now + lease)) (JobRecord.extend_id (now + lease))
      JobRecord.owned_id hjob howned with ⟨htier, -⟩ | ⟨-, n, s', -, hok, -⟩
    · exact absurd (s.tiers _ (Table.mem_of_find? (view_eq_some.mp hjob).1)) htier
    · refine ⟨n > 0, s', ?_⟩
      simp only [extendLease, runNoToDb_eq_ok.mpr ⟨hrun, rfl⟩, bind, Except.bind, hok]
      rfl
  · exact ⟨false, s, extendLease_miss hrun (fun job hjob howned => hhit ⟨job, hjob, howned⟩)⟩

/-- So does a `merge_into` of a tier in range. -/
theorem mergeInto_ok {update : Option MergePayload}
    (htier : ∀ u ∈ update, 0 ≤ u.priority ∧ u.priority ≤ 2) (hjournal : journal.runNo ≤ i32Max) :
    ∃ b s', s.mergeInto id update journal = .ok (b, s') := by
  by_cases hhit : ∃ job, s.view id = some job ∧ job.row.mergeable id
  · obtain ⟨job, hjob, hmergeable⟩ := hhit
    obtain ⟨_, s', hok, -⟩ := mergeInto_hit journal hjournal htier hjob hmergeable
    exact ⟨true, s', hok⟩
  · refine ⟨false, s, mergeInto_miss update hjournal (fun job hjob hmergeable => ?_)⟩
    exact hhit ⟨job, hjob, hmergeable⟩

end PostgresStore

/-! ### Order in the database -/

section Order

variable {s s' : PostgresStore} {e : Event} {r' : JobRecord}

/-- A step keeps the run count in range. -/
theorem Job.Step.counted {now : DateTime} {c : Call} {mark : Mark} {j j' : Job}
    (h : Job.Step now c mark (some j) (some j')) (hj : j.row.runCount ≤ i32Max) :
    j'.row.runCount ≤ i32Max := by
  cases h with
  | claim _ hmax => exact hmax
  | settle =>
    rename_i settlement _ _ _ _ _
    exact (Settlement.set_runCount settlement _).le.trans hj
  | merge =>
    rename_i update _ _ _ _ _
    exact (JobRecord.merge_runCount update _).le.trans hj
  | recover | extendLease => exact hj

/-- A row after a step was a row before, or was inserted. -/
theorem PostgresStore.Step.origin (hs : s.Step e s') (hr' : r' ∈ s'.jobs.rows) :
    (∃ r ∈ s.jobs.rows, r.identity = r'.identity ∧
      (r.runCount ≤ i32Max → r'.runCount ≤ i32Max)) ∨
    ∃ new, e.call = .enqueue new ∧ r' = new.record := by
  have hview' : s'.view r'.id = some ⟨r', s'.journalOf r'.id⟩ :=
    PostgresStore.view_eq_some.mpr ⟨Table.find?_key hr', rfl⟩
  rcases PostgresStore.exec_view hs r'.id with ⟨hsame, -⟩ | hstep
  · rw [hview'] at hsame
    have hr : r' ∈ s.jobs.rows :=
      Table.mem_of_find? (PostgresStore.view_eq_some.mp hsame.symm).1
    exact .inl ⟨r', hr, rfl, id⟩
  · rw [hview'] at hstep
    cases hview : s.view r'.id with
    | none =>
      rw [hview] at hstep
      obtain ⟨new, hcall, hjob⟩ := hstep.enqueue_of_none
      exact .inr ⟨new, hcall, congrArg Job.row hjob⟩
    | some j =>
      rw [hview] at hstep
      have hr : j.row ∈ s.jobs.rows := Table.mem_of_find? (PostgresStore.view_eq_some.mp hview).1
      exact .inl ⟨j.row, hr, hstep.identity.symm, hstep.counted⟩

/-- **A step keeps the order**, when it inserts at a creation time of its own. -/
theorem PostgresStore.Orderly.step (h : s.Orderly) (hs : s.Step e s')
    (hnew : ∀ new, e.call = .enqueue new → ∀ r ∈ s.jobs.rows, r.createdAt ≠ new.createdAt) :
    s'.Orderly where
  distinct a ha b hb hab := by
    have hcolumns : ∀ {r r' : JobRecord}, r.identity = r'.identity →
        r.id = r'.id ∧ r.createdAt = r'.createdAt := by
      intro r r' h
      simp only [JobRecord.identity, Prod.mk.injEq] at h
      exact ⟨h.1, h.2.2.1⟩
    rcases hs.origin ha with ⟨r₁, hr₁, hsame₁, -⟩ | ⟨new₁, hcall₁, rfl⟩
    · obtain ⟨hid₁, hcreated₁⟩ := hcolumns hsame₁
      rcases hs.origin hb with ⟨r₂, hr₂, hsame₂, -⟩ | ⟨new₂, hcall₂, rfl⟩
      · obtain ⟨hid₂, hcreated₂⟩ := hcolumns hsame₂
        have heq : r₁ = r₂ :=
          h.distinct r₁ hr₁ r₂ hr₂ (hcreated₁.trans (hab.trans hcreated₂.symm))
        exact s'.jobs.eq_of_key_eq ha hb (hid₁.symm.trans ((congrArg _ heq).trans hid₂))
      · exact absurd (hcreated₁.trans hab) (hnew new₂ hcall₂ r₁ hr₁)
    · rcases hs.origin hb with ⟨r₂, hr₂, hsame₂, -⟩ | ⟨new₂, hcall₂, rfl⟩
      · obtain ⟨-, hcreated₂⟩ := hcolumns hsame₂
        exact absurd (hcreated₂.trans hab.symm) (hnew new₁ hcall₁ r₂ hr₂)
      · obtain rfl := Call.enqueue.inj (hcall₁.symm.trans hcall₂)
        rfl
  counted r' hr' := by
    rcases hs.origin hr' with ⟨r, hr, -, hcount⟩ | ⟨new, -, rfl⟩
    · exact hcount (h.counted r hr)
    · exact Nat.zero_le _

end Order

/-! ### The jobs they share -/

namespace Mirrors

variable {f f' : FakeStore} {s s' : PostgresStore}

/-- Both stores have the same row under an id. -/
theorem find? (h : Mirrors f s) (id : Ulid) : f.jobs.find? id = s.jobs.find? id := by
  have hrel := h.jobs id
  unfold FakeStore.view PostgresStore.view at hrel
  cases hf : f.jobs.find? id with
  | none =>
    rw [hf] at hrel
    cases hs : s.jobs.find? id with
    | none => rfl
    | some r =>
      rw [hs] at hrel
      cases hrel
  | some r =>
    rw [hf] at hrel
    cases hs : s.jobs.find? id with
    | none =>
      rw [hs] at hrel
      cases hrel
    | some r' =>
      rw [hs] at hrel
      cases hrel with
      | some halike => exact congrArg some halike.row

/-- The two tables hold the same rows. -/
theorem rows (h : Mirrors f s) : f.jobs.rows.Perm s.jobs.rows := Table.perm_of_find? h.find?

/-- So do their scans, in whatever order each goes. -/
theorem scan (h : Mirrors f s) (rank rank' : Ulid → Nat) :
    (f.jobs.scan rank).Perm (s.jobs.scan rank') :=
  Table.perm_scan.trans (h.rows.trans Table.perm_scan.symm)

/-- A stored job in both stores. -/
theorem view (h : Mirrors f s) {id : Ulid} {r : JobRecord} (hr : f.jobs.find? id = some r) :
    f.view id = some ⟨r, f.journalOf id⟩ ∧ s.view id = some ⟨r, s.journalOf id⟩ ∧
      Job.Alike ⟨r, f.journalOf id⟩ ⟨r, s.journalOf id⟩ := by
  have hf : f.view id = some ⟨r, f.journalOf id⟩ := by rw [FakeStore.view, hr]; rfl
  have hs : s.view id = some ⟨r, s.journalOf id⟩ :=
    PostgresStore.view_eq_some.mpr ⟨(h.find? id).symm.trans hr, rfl⟩
  refine ⟨hf, hs, ?_⟩
  have hrel := h.jobs id
  rw [hf, hs] at hrel
  cases hrel with
  | some halike => exact halike

/-- A job of the database is in memory, with a journal that differs in its ids only. -/
theorem of_view (h : Mirrors f s) {id : Ulid} {j : Job} (hj : s.view id = some j) :
    f.jobs.find? id = some j.row ∧ Job.Alike ⟨j.row, f.journalOf id⟩ j := by
  have hr : f.jobs.find? id = some j.row :=
    (h.find? id).trans (PostgresStore.view_eq_some.mp hj).1
  obtain ⟨-, hs, halike⟩ := h.view hr
  rw [hj] at hs
  exact ⟨hr, (Option.some.inj hs).symm ▸ halike⟩

/-- The same change at one id. -/
theorem update (h : Mirrors f s) {id : Ulid} {j j' : Job} (halike : j.Alike j')
    (hf : f'.view = Function.update f.view id (some j))
    (hs : s'.view = Function.update s.view id (some j'))
    (hflags : f'.poisoned = f.poisoned ∧
      f'.forceNextMergeIntoMiss = f.forceNextMergeIntoMiss) : Mirrors f' s' where
  jobs id' := by
    rw [hf, hs]
    by_cases hid : id' = id
    · subst hid
      rw [Function.update_self, Function.update_self]
      exact .some halike
    · rw [Function.update_of_ne hid, Function.update_of_ne hid]
      exact h.jobs id'
  unlocked := hflags.1.trans h.unlocked
  unforced := hflags.2.trans h.unforced

end Mirrors

/-! ### Reads -/

namespace Simulates

variable {f : FakeStore} {s : PostgresStore} {rank rank' : Ulid → Nat} {now : DateTime}
  {id : Ulid}

/-- **`journal`** returns the same entries. -/
theorem journal (h : Simulates f s) (id : Ulid) :
    SameEntries (f.journalOf id) (s.journalOf id) where
  entries := by
    cases hr : f.jobs.find? id with
    | none =>
      rw [FakeStore.journalOf_eq_nil h.wellFormed hr,
        PostgresStore.journalOf_eq_nil ((h.find? id).symm.trans hr)]
    | some r => exact (h.view hr).2.2.log
  left := FakeStore.increasing_journalOf h.wellFormed id
  right := by
    rw [PostgresStore.journalOf, Serial.select_eq]
    exact s.journal.increasing.filter _

/-- **`query_jobs`** returns the same jobs in the same order. -/
theorem queryJobs (h : Simulates f s) (rank : Ulid → Nat) {filter : HistoryFilter}
    (hlimit : ∀ limit ∈ filter.limit, 0 ≤ limit) :
    s.queryJobs filter = .ok (f.queryJobs rank filter) := by
  have hperm : ((f.jobs.scan rank).filter (fun r => filter.matches r && filter.older r)).Perm
      (s.jobs.rows.filter (fun r => filter.matches r && filter.older r)) :=
    (Table.perm_scan.trans h.rows).filter _
  have hids : (((f.jobs.scan rank).filter (fun r => filter.matches r && filter.older r)).map
      JobRecord.id).Nodup := by
    refine List.Nodup.sublist (List.filter_sublist.map _) ?_
    exact (Table.perm_scan.map JobRecord.id).nodup_iff.mpr f.jobs.nodup
  have hpositions : (((f.jobs.scan rank).filter (fun r => filter.matches r && filter.older r)).map
      (fun r => OrderDual.toDual r.position)).Nodup := by
    refine List.Nodup.of_map (fun p => (ofLex (OrderDual.ofDual p)).2) ?_
    rw [List.map_map]
    exact hids
  have hsorted : descending JobRecord.position
        ((f.jobs.scan rank).filter (fun r => filter.matches r && filter.older r)) =
      descending JobRecord.position
        (s.jobs.rows.filter (fun r => filter.matches r && filter.older r)) :=
    orderBy_perm hperm hpositions
  unfold PostgresStore.queryJobs FakeStore.queryJobs
  rw [hsorted]
  cases hl : filter.limit with
  | none => rfl
  | some limit =>
    have hnonneg : 0 ≤ limit := hlimit limit hl
    simp only [hnonneg, if_true, max_eq_left hnonneg]

/-- **`stats`** returns the same snapshot. -/
theorem stats (h : Simulates f s) (now : DateTime) (rank : Ulid → Nat) :
    (f.stats now rank).Same (s.statsAt now) := by
  have hjobs : (f.jobs.scan rank).reverse.Perm s.jobs.rows :=
    (List.reverse_perm _).trans (Table.perm_scan.trans h.rows)
  exact (f.of_stats now rank).same (s.of_statsAt now) hjobs

/-- **`next_visible_at`** returns the same time. -/
theorem nextVisibleAt (h : Simulates f s) (kinds : List String) :
    f.nextVisibleAt now kinds = s.nextVisibleAt now kinds := by
  unfold FakeStore.nextVisibleAt PostgresStore.nextVisibleAt
  have hclauses : f.jobs.rows.filter
        (fun r => r.status = .pending ∧ now < r.visibleAt ∧ r.kind ∈ kinds) =
      f.jobs.rows.filter (fun r => r.status = .pending ∧ r.kind ∈ kinds ∧ now < r.visibleAt) := by
    refine List.filter_congr (fun r _ => ?_)
    rw [decide_eq_decide]
    tauto
  rw [hclauses]
  exact min?_perm ((h.rows.filter _).map _)

/-- **`find_stale`** returns the same jobs while they fit one batch. -/
theorem findStale (h : Simulates f s)
    (hbatch : f.jobs.rows.countP (JobRecord.stale now) ≤ 100) :
    (f.findStale now rank).Perm (s.findStale now rank') := by
  have hexpired : ((f.jobs.scan rank).filter (JobRecord.stale now)).Perm
      ((s.jobs.scan rank').filter (JobRecord.stale now)) := (h.scan rank rank').filter _
  have hlength : (orderBy (fun r => r.claimExpiresAt.getD 0)
      ((s.jobs.scan rank').filter (JobRecord.stale now))).length ≤ 100 := by
    rw [perm_orderBy.length_eq, ← hexpired.length_eq, ← List.countP_eq_length_filter,
      Table.perm_scan.countP_eq]
    exact hbatch
  unfold FakeStore.findStale PostgresStore.findStale
  rw [List.take_of_length_le hlength]
  exact hexpired.trans perm_orderBy.symm

/-- **`dedup_candidate`** returns the same job: the oldest one is unique. -/
theorem dedupCandidate (h : Simulates f s) (kind dedupKey : String) :
    f.dedupCandidate rank kind dedupKey = s.dedupCandidate rank' kind dedupKey := by
  have hcandidates : ((f.jobs.scan rank).filter (JobRecord.dedupCandidate kind dedupKey)).Perm
      ((s.jobs.scan rank').filter (JobRecord.dedupCandidate kind dedupKey)) :=
    (h.scan rank rank').filter _
  unfold FakeStore.dedupCandidate PostgresStore.dedupCandidate
  simp only
  cases hs : (orderBy JobRecord.createdAt
      ((s.jobs.scan rank').filter (JobRecord.dedupCandidate kind dedupKey))).head? with
  | none =>
    rw [orderBy_head?_eq_none] at hs ⊢
    exact (hs ▸ hcandidates).eq_nil
  | some r =>
    obtain ⟨hr, hleast⟩ := orderBy_head?_eq_some hs
    cases hf : (orderBy (fun r => toLex (r.createdAt, r.id))
        ((f.jobs.scan rank).filter (JobRecord.dedupCandidate kind dedupKey))).head? with
    | none =>
      rw [orderBy_head?_eq_none] at hf
      have hmem := hcandidates.mem_iff.mpr hr
      rw [hf] at hmem
      exact absurd hmem List.not_mem_nil
    | some r' =>
      obtain ⟨hr', hleast'⟩ := orderBy_head?_eq_some hf
      have hrow : r ∈ s.jobs.rows := Table.mem_scan.mp (List.mem_of_mem_filter hr)
      have hmem' := hcandidates.mem_iff.mp hr'
      have hrow' : r' ∈ s.jobs.rows := Table.mem_scan.mp (List.mem_of_mem_filter hmem')
      have hle : r.createdAt ≤ r'.createdAt := hleast r' hmem'
      have hle' : r'.createdAt ≤ r.createdAt :=
        Prod.Lex.monotone_fst _ _ (hleast' r (hcandidates.mem_iff.mpr hr))
      rw [h.orderly.distinct r' hrow' r hrow (le_antisymm hle' hle)]

/-! ### Guarded writes -/

/-- **A guarded write** that the database performed, or found nothing for, does the same to
    both stores. -/
theorem guardedWrite (h : Simulates f s) {guard : JobRecord → Bool} {set : JobRecord → JobRecord}
    {journal : JournalAppend} {b : Bool} {s' : PostgresStore} (hset : ∀ r, (set r).id = r.id)
    (hcases : (b = false ∧ s' = s ∧ ∀ job, s.view id = some job → ¬ guard job.row) ∨
      (b = true ∧ ∃ job n, s.view id = some job ∧ guard job.row ∧
        s'.view = Function.update s.view id
          (some ⟨set job.row, job.log ++ [journal.record id n]⟩))) :
    (f.guardedWrite id guard set journal).1 = b ∧
      Mirrors (f.guardedWrite id guard set journal).2 s' := by
  unfold FakeStore.guardedWrite
  rcases hcases with ⟨rfl, rfl, hmiss⟩ | ⟨rfl, job, n, hjob, hguard, hview⟩
  · cases hr : f.jobs.find? id with
    | none => exact ⟨rfl, h.toMirrors⟩
    | some r =>
      have hno : ¬ guard r := hmiss _ (h.view hr).2.1
      simp only
      rw [if_pos hno]
      exact ⟨rfl, h.toMirrors⟩
  · obtain ⟨hr, halike⟩ := h.of_view hjob
    have hid : job.row.id = id := Table.key_of_find? hr
    simp only [hr]
    rw [if_neg (not_not.mpr hguard)]
    refine ⟨rfl, h.update ?_ (FakeStore.view_write_push h.wellFormed ((hset _).trans hid) journal)
      hview ⟨rfl, rfl⟩⟩
    exact halike.push _ journal id _ n

/-- **`settle`** agrees. -/
theorem settle (h : Simulates f s) (id : Ulid) (claimedBy : String) {runNo : Nat}
    (settlement : Settlement) {journal : JournalAppend} (hrun : runNo ≤ i32Max)
    (hjournal : journal.runNo ≤ i32Max) :
    ∃ b s', s.settle id claimedBy runNo settlement journal = .ok (b, s') ∧
      (f.settle id claimedBy runNo settlement journal).1 = b ∧
      Mirrors (f.settle id claimedBy runNo settlement journal).2 s' := by
  have hanswer : ∃ b s', s.settle id claimedBy runNo settlement journal = .ok (b, s') :=
    PostgresStore.settle_ok settlement hrun hjournal
  obtain ⟨b, s', hok⟩ := hanswer
  rw [FakeStore.settle_eq]
  exact ⟨b, s', hok, h.guardedWrite settlement.set_id (PostgresStore.settle_cases hok)⟩

/-- **`recover`** agrees. -/
theorem recover (h : Simulates f s) (now : DateTime) (id : Ulid) (visibleAt : DateTime)
    (failureCount : Int) {runNo : Nat} {journal : JournalAppend} (hrun : runNo ≤ i32Max)
    (hjournal : journal.runNo ≤ i32Max) :
    ∃ b s', s.recover now id visibleAt failureCount runNo journal = .ok (b, s') ∧
      (f.recover now id visibleAt failureCount runNo journal).1 = b ∧
      Mirrors (f.recover now id visibleAt failureCount runNo journal).2 s' := by
  have hanswer : ∃ b s', s.recover now id visibleAt failureCount runNo journal = .ok (b, s') :=
    PostgresStore.recover_ok visibleAt failureCount hrun hjournal
  obtain ⟨b, s', hok⟩ := hanswer
  rw [FakeStore.recover_eq]
  exact ⟨b, s', hok, h.guardedWrite (JobRecord.repend_id visibleAt failureCount)
    (PostgresStore.recover_cases hok)⟩

/-- **`merge_into`** agrees. -/
theorem mergeInto (h : Simulates f s) (id : Ulid) {update : Option MergePayload}
    {journal : JournalAppend} (htier : ∀ u ∈ update, 0 ≤ u.priority ∧ u.priority ≤ 2)
    (hjournal : journal.runNo ≤ i32Max) :
    ∃ b s', s.mergeInto id update journal = .ok (b, s') ∧
      (f.mergeInto id update journal).1 = b ∧ Mirrors (f.mergeInto id update journal).2 s' := by
  have hanswer : ∃ b s', s.mergeInto id update journal = .ok (b, s') :=
    PostgresStore.mergeInto_ok htier hjournal
  obtain ⟨b, s', hok⟩ := hanswer
  rw [FakeStore.mergeInto_eq h.unforced]
  exact ⟨b, s', hok, h.guardedWrite (JobRecord.merge_id update)
    (PostgresStore.mergeInto_cases hok)⟩

/-- **`extend_lease`** agrees. -/
theorem extendLease (h : Simulates f s) (id : Ulid) (claimedBy : String) {runNo : Nat}
    {lease : Duration} (hrun : runNo ≤ i32Max) (hlease : addDuration now lease = now + lease) :
    ∃ b s', s.extendLease now id claimedBy runNo lease = .ok (b, s') ∧
      (f.extendLease now id claimedBy runNo lease).1 = b ∧
      Mirrors (f.extendLease now id claimedBy runNo lease).2 s' := by
  have hanswer : ∃ b s', s.extendLease now id claimedBy runNo lease = .ok (b, s') :=
    PostgresStore.extendLease_ok lease hrun
  obtain ⟨b, s', hok⟩ := hanswer
  refine ⟨b, s', hok, ?_⟩
  unfold FakeStore.extendLease
  rw [hlease]
  rcases PostgresStore.extendLease_cases hok with
    ⟨rfl, rfl, hmiss⟩ | ⟨rfl, job, hjob, howned, hview⟩
  · cases hr : f.jobs.find? id with
    | none => exact ⟨rfl, h.toMirrors⟩
    | some r =>
      have hno : ¬ r.owned id claimedBy runNo := hmiss _ (h.view hr).2.1
      simp only
      rw [if_pos hno]
      exact ⟨rfl, h.toMirrors⟩
  · obtain ⟨hr, halike⟩ := h.of_view hjob
    obtain rfl : job.row.id = id := Table.key_of_find? hr
    simp only [hr]
    rw [if_neg (not_not.mpr howned)]
    refine ⟨rfl, h.update ?_ (FakeStore.view_write f _) hview ⟨rfl, rfl⟩⟩
    exact ⟨rfl, halike.log⟩

/-! ### Inserting, claiming and removing -/

/-- **`enqueue`** of an id that is not stored agrees. -/
theorem enqueue (h : Simulates f s) {new : NewJob} (hid : f.jobs.find? new.id = none) :
    (f.enqueue new).1 = (s.commit (s.enqueue new)).1 ∧
      Mirrors (f.enqueue new).2 (s.commit (s.enqueue new)).2 := by
  unfold FakeStore.enqueue
  cases hvalid : new.validate with
  | error e =>
    have herr : s.enqueue new = .error e := by
      simp only [PostgresStore.enqueue, hvalid]
      rfl
    rw [herr]
    exact ⟨rfl, h.toMirrors⟩
  | ok u =>
    obtain ⟨s', hok⟩ := PostgresStore.enqueue_ok ((h.find? new.id).symm.trans hid) hvalid
    rw [hok]
    obtain ⟨-, hview⟩ := PostgresStore.enqueue_cases hok
    have hlog : f.journalOf new.record.id = [] := FakeStore.journalOf_eq_nil h.wellFormed hid
    have hwrite : (f.write new.record).view =
        Function.update f.view new.id (some ⟨new.record, []⟩) := by
      have hwrite := FakeStore.view_write f new.record
      rw [hlog] at hwrite
      exact hwrite
    exact ⟨rfl, h.update ⟨rfl, rfl⟩ hwrite hview ⟨rfl, rfl⟩⟩

/-- **`cleanup`** removes the same jobs. -/
theorem cleanup (h : Simulates f s) (rank : Ulid → Nat) (criteria : CleanupCriteria) :
    ∃ n s', s.cleanup criteria = .ok (n, s') ∧ (f.cleanup rank criteria).1 = n ∧
      Mirrors (f.cleanup rank criteria).2 s' := by
  obtain ⟨n, s', hok⟩ : ∃ n s', s.cleanup criteria = .ok (n, s') := ⟨_, _, rfl⟩
  obtain ⟨hn, hview⟩ := PostgresStore.cleanup_cases hok
  refine ⟨n, s', hok, ?_, ?_⟩
  · show (((f.jobs.scan rank).filter criteria.matches).map JobRecord.id).length = n
    rw [List.length_map, ← List.countP_eq_length_filter, Table.perm_scan.countP_eq,
      h.rows.countP_eq, hn]
    rfl
  · have hflags := FakeStore.foldl_remove_flags f
      (((f.jobs.scan rank).filter criteria.matches).map JobRecord.id)
    refine ⟨fun id => ?_, hflags.1.trans h.unlocked, hflags.2.trans h.unforced⟩
    have hremoved := FakeStore.view_foldl_remove h.wellFormed
      (((f.jobs.scan rank).filter criteria.matches).map JobRecord.id) id
    unfold FakeStore.cleanup
    rw [hremoved, hview]
    cases hs : s.view id with
    | none =>
      have hf : f.view id = none := by
        rw [FakeStore.view, h.find?, PostgresStore.view_eq_none.mp hs]
        rfl
      rw [hf, ite_self]
      exact .none
    | some j =>
      obtain ⟨hr, halike⟩ := h.of_view hs
      -- the ids that are removed are those of the rows the criteria match
      have hmem : id ∈ ((f.jobs.scan rank).filter criteria.matches).map JobRecord.id ↔
          criteria.matches j.row := by
        rw [List.mem_map]
        constructor
        · rintro ⟨r, hr', hid⟩
          obtain ⟨hscan, hmatches⟩ := List.mem_filter.mp hr'
          have hfind : f.jobs.find? id = some r := hid ▸ Table.find?_key (Table.mem_scan.mp hscan)
          rw [hr] at hfind
          exact Option.some.inj hfind ▸ hmatches
        · intro hmatches
          obtain ⟨hmem, hid⟩ := Table.find?_eq_some.mp hr
          exact ⟨j.row, List.mem_filter.mpr ⟨Table.mem_scan.mpr hmem, hmatches⟩, hid⟩
      by_cases hmatches : criteria.matches j.row
      · rw [if_pos (hmem.mpr hmatches), Option.filter_some_neg (by simp [hmatches])]
        exact .none
      · rw [if_neg (fun hid => hmatches (hmem.mp hid)), Option.filter_some_pos (by simp [hmatches]),
          FakeStore.view, hr]
        exact .some halike

/-- The order of the claim key, without its tie-break. -/
theorem claimKey_le {r r' : JobRecord} (h : FakeStore.claimKey r ≤ FakeStore.claimKey r') :
    toLex (r.priority, r.createdAt) ≤ toLex (r'.priority, r'.createdAt) := by
  rw [FakeStore.claimKey, FakeStore.claimKey, Prod.Lex.toLex_le_toLex] at h
  rw [Prod.Lex.toLex_le_toLex]
  rcases h with hlt | ⟨heq, hrest⟩
  · exact .inl hlt
  · exact .inr ⟨heq, Prod.Lex.monotone_fst _ _ hrest⟩

/-- **`claim_next`** claims the same job: the first one is unique. -/
theorem claimNext (h : Simulates f s) (rank' : Ulid → Nat) (kinds : List String) (floor : Int)
    {lease : Duration} (claimedBy : String) (hlease : addDuration now lease = now + lease)
    (hmax : ∀ r, (f.claimNext now rank kinds floor lease claimedBy).1 = some (some r) →
      r.runCount ≤ i32Max) :
    ∃ o s', s.claimNext now rank' kinds floor lease claimedBy = .ok (o, s') ∧
      (f.claimNext now rank kinds floor lease claimedBy).1 = some o ∧
      Mirrors (f.claimNext now rank kinds floor lease claimedBy).2 s' := by
  have heligible : ((f.jobs.scan rank).filter (JobRecord.eligible kinds floor now)).Perm
      ((s.jobs.scan rank').filter (JobRecord.eligible kinds floor now)) :=
    (h.scan rank rank').filter _
  have hrows : ∀ r ∈ (s.jobs.scan rank').filter (JobRecord.eligible kinds floor now),
      r ∈ s.jobs.rows := fun r hr => Table.mem_scan.mp (List.mem_of_mem_filter hr)
  have hdatabase : s.claimNext now rank' kinds floor lease claimedBy = s.claimFirst
      ((s.jobs.scan rank').filter (JobRecord.eligible kinds floor now)) now lease claimedBy := rfl
  rw [hdatabase]
  unfold FakeStore.claimNext at hmax ⊢
  rw [hlease] at hmax ⊢
  cases hbest : ((f.jobs.scan rank).filter (JobRecord.eligible kinds floor now)).foldl
      FakeStore.better none with
  | none =>
    -- nothing is eligible in either store
    obtain ⟨hempty, -⟩ := FakeStore.foldl_better_eq_none hbest
    rcases PostgresStore.claimFirst_cases now lease claimedBy hrows with
      ⟨-, hok⟩ | ⟨r, hhead, -⟩
    · exact ⟨none, s, hok, by simp only [hbest], by simpa only [hbest] using h.toMirrors⟩
    · obtain ⟨hr, -⟩ := orderBy_head?_eq_some hhead
      have hmem := heligible.mem_iff.mpr hr
      rw [hempty] at hmem
      exact absurd hmem List.not_mem_nil
  | some r =>
    obtain ⟨hr, hleast⟩ := FakeStore.foldl_better_eq_some hbest
    have hr' := heligible.mem_iff.mp hr
    have hcount : r.runCount ≤ i32Max := h.orderly.counted r (hrows r hr')
    -- what fits the column of the database fits the `u32` in memory
    have hfits : r.runCount + 1 ≤ u32Max := hcount.trans_lt (by decide)
    simp only [hbest, hfits, if_true] at hmax ⊢
    have hnext : r.runCount + 1 ≤ i32Max := hmax _ rfl
    rcases PostgresStore.claimFirst_cases now lease claimedBy hrows with
      ⟨hempty, -⟩ | ⟨r₀, hhead, hcases⟩
    · rw [hempty] at hr'
      exact absurd hr' List.not_mem_nil
    · -- the row the database read first has the least key, so it is the same job
      obtain ⟨hr₀, hfirst⟩ := orderBy_head?_eq_some hhead
      have hkey : toLex (r₀.priority, r₀.createdAt) = toLex (r.priority, r.createdAt) :=
        le_antisymm (hfirst r hr') (claimKey_le (hleast r₀ (heligible.mem_iff.mpr hr₀)))
      have hcreated : r₀.createdAt = r.createdAt := congrArg (fun p => (ofLex p).2) hkey
      obtain rfl := h.orderly.distinct r₀ (hrows r₀ hr₀) r (hrows r hr') hcreated
      rcases hcases with ⟨-, s', hview, hok⟩ | ⟨hover, -⟩
      · refine ⟨_, s', hok, rfl, h.update ?_ (FakeStore.view_write f _) hview ⟨rfl, rfl⟩⟩
        have hfind : f.jobs.find? r₀.id = some r₀ :=
          Table.find?_key (Table.mem_scan.mp (List.mem_of_mem_filter hr))
        exact ⟨rfl, (h.view hfind).2.2.log⟩
      · omega

end Simulates

end Venturi
