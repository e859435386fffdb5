import Mathlib.Logic.Function.Basic
import Venturi.Job.Lifecycle

namespace Venturi

open Sql

/-!
# The adapter refines the family of job machines

`PostgresStore.view s id` reads the job `id` out of the two tables.  Each operation has one
specification lemma that says what a successful call did to the view — nothing, or a
change at one id — and `exec_view` collects them: seen through `view`, a step of the
adapter is at every id a stutter or a step of `Job.Step`.
-/

namespace PostgresStore

variable {s s' : PostgresStore}

/-! ### Executing a call -/

/-- An operation as a transaction: an error leaves the database as it was. -/
def commit {α : Type} (s : PostgresStore) :
    Except Error (α × PostgresStore) → Except Error α × PostgresStore
  | .ok (a, s') => (.ok a, s')
  | .error e => (.error e, s)

/-- Execute a call. -/
def exec (s : PostgresStore) (env : Env) : (c : Call) → Except Error c.Answer × PostgresStore
  | .enqueue job => s.commit (s.enqueue job)
  | .claimNext kinds floor lease claimedBy =>
      s.commit (s.claimNext env.now env.rank kinds floor lease claimedBy)
  | .settle id claimedBy runNo settlement journal =>
      s.commit (s.settle id claimedBy runNo settlement journal)
  | .journal id => (.ok (s.journalOf id), s)
  | .nextVisibleAt kinds => (.ok (s.nextVisibleAt env.now kinds), s)
  | .dedupCandidate kind dedupKey => (.ok (s.dedupCandidate env.rank kind dedupKey), s)
  | .findStale => (.ok (s.findStale env.now env.rank), s)
  | .recover id visibleAt failureCount runNo journal =>
      s.commit (s.recover env.now id visibleAt failureCount runNo journal)
  | .extendLease id claimedBy runNo lease =>
      s.commit (s.extendLease env.now id claimedBy runNo lease)
  | .job id => (.ok (s.job id), s)
  | .cleanup criteria => s.commit (s.cleanup criteria)
  | .mergeInto id update journal => s.commit (s.mergeInto id update journal)

/-- The event `e` takes `s` to `s'`. -/
def Step (s : PostgresStore) (e : Event) (s' : PostgresStore) : Prop :=
  s.exec e.env e.call = (e.reply, s')

/-- A committed or failed transaction. -/
theorem commit_eq {α : Type} {x : Except Error (α × PostgresStore)} {r : Except Error α}
    (h : s.commit x = (r, s')) :
    (∃ a, x = .ok (a, s') ∧ r = .ok a) ∨ (∃ e, x = .error e ∧ r = .error e ∧ s' = s) := by
  rcases x with e | ⟨a, s''⟩
  · obtain ⟨rfl, rfl⟩ := Prod.mk.inj h
    exact .inr ⟨e, rfl, rfl, rfl⟩
  · obtain ⟨rfl, rfl⟩ := Prod.mk.inj h
    exact .inl ⟨a, rfl, rfl⟩

/-- A transaction succeeds exactly when its statements do, one after the other. -/
theorem bind_eq_ok {α β : Type} {x : Except Error α} {f : α → Except Error β} {b : β} :
    (x >>= f) = .ok b ↔ ∃ a, x = .ok a ∧ f a = .ok b := by
  rcases x with e | a
  · exact ⟨fun h => (nomatch h), fun ⟨_, h, _⟩ => (nomatch h)⟩
  · exact ⟨fun h => ⟨a, rfl, h⟩, fun ⟨_, ha, h⟩ => Except.ok.inj ha ▸ h⟩

/-- A run number is stored as it is, if it fits an `integer` column. -/
theorem runNoToDb_eq_ok {n m : Nat} : runNoToDb n = .ok m ↔ n ≤ i32Max ∧ n = m := by
  unfold runNoToDb
  split_ifs with h <;> simp [h]

/-! ### The view of one job -/

/-- The job `id`, read out of the two tables. -/
def view (s : PostgresStore) (id : Ulid) : Option Job :=
  (s.jobs.find? id).map (fun row => ⟨row, s.journalOf id⟩)

/-- A job in view is its row and its journal. -/
theorem view_eq_some {id : Ulid} {job : Job} :
    s.view id = some job ↔ s.jobs.find? id = some job.row ∧ job.log = s.journalOf id := by
  rw [view, Option.map_eq_some_iff]
  constructor
  · rintro ⟨row, hrow, rfl⟩
    exact ⟨hrow, rfl⟩
  · rintro ⟨hrow, hlog⟩
    exact ⟨job.row, hrow, by rw [← hlog]⟩

/-- No job is in view exactly if no row is under the id. -/
theorem view_eq_none {id : Ulid} : s.view id = none ↔ s.jobs.find? id = none := by
  rw [view, Option.map_eq_none_iff]

/-- A viewed row is stored under its own id. -/
theorem view_id {id : Ulid} {job : Job} (h : s.view id = some job) : job.row.id = id :=
  Table.key_of_find? (view_eq_some.mp h).1

/-- The log of a job holds entries of that job only. -/
theorem mem_journalOf {id : Ulid} {e : JournalRecord} :
    e ∈ s.journalOf id ↔ e ∈ s.journal.rows ∧ e.jobId = id := by
  simp [journalOf, Serial.select]

/-- A job that is not stored has no journal entries. -/
theorem journalOf_eq_nil {id : Ulid} (h : s.jobs.find? id = none) : s.journalOf id = [] := by
  rw [List.eq_nil_iff_forall_not_mem]
  intro e he
  obtain ⟨hmem, rfl⟩ := mem_journalOf.mp he
  simpa [h] using s.references e hmem

/-! ### Single statements -/

/-- Inserting a row opens a job with an empty log. -/
theorem insertJob_view {r : JobRecord} (h : s.insertJob r = .ok s') :
    s.view r.id = none ∧ s'.view = Function.update s.view r.id (some ⟨r, []⟩) := by
  unfold insertJob at h
  split at h
  · split at h
    · simp at h
    · rename_i jobs hins
      obtain rfl := Except.ok.inj h
      have hnone : s.jobs.find? r.id = none := Table.find?_of_insert hins
      refine ⟨view_eq_none.mpr hnone, funext fun id => ?_⟩
      rw [view, Table.find?_insert hins]
      by_cases hid : id = r.id
      · subst hid
        have hlog : s.journalOf r.id = [] := journalOf_eq_nil hnone
        rw [Function.update_self, if_pos rfl, Option.map_some]
        congr 2
      · rw [Function.update_of_ne hid, if_neg (Ne.symm hid)]
        rfl
  · simp at h

/-- A cascading delete drops every matching job with its log and no other job. -/
theorem deleteJobs_view {p : JobRecord → Bool} (id : Ulid) :
    (s.deleteJobs p).2.view id = (s.view id).filter (fun job => !p job.row) := by
  have hfind : (s.deleteJobs p).2.jobs.find? id = (s.jobs.find? id).filter (fun r => !p r) :=
    Table.find?_delete s.jobs p id
  cases hid : s.jobs.find? id with
  | none =>
    rw [view_eq_none.mpr hid, Option.filter_none, view_eq_none, hfind, hid, Option.filter_none]
  | some row =>
    have hjob : s.view id = some ⟨row, s.journalOf id⟩ := view_eq_some.mpr ⟨hid, rfl⟩
    by_cases hp : p row
    · rw [hjob, Option.filter_some_neg (by simp [hp]), view_eq_none, hfind, hid,
        Option.filter_some_neg (by simp [hp])]
    · have hlog : (s.deleteJobs p).2.journalOf id = s.journalOf id := by
        refine Serial.select_delete_disjoint (fun e _ he => ?_)
        simp only [decide_eq_true_eq] at he
        simpa [he, hid] using hp
      rw [hjob, Option.filter_some_pos (by simp [hp]), view_eq_some, hfind, hid,
        Option.filter_some_pos (by simp [hp])]
      exact ⟨rfl, hlog.symm⟩

section GuardedUpdate

variable {id : Ulid} {guard : JobRecord → Bool} (set : JobRecord → JobRecord)
  (hset : ∀ r, (set r).id = r.id)

/-- An update whose guard is confined to the id and misses changes nothing. -/
theorem updateJobs_miss (hguard : ∀ r, guard r → r.id = id)
    (hmiss : ∀ job, s.view id = some job → ¬ guard job.row) :
    s.updateJobs guard set hset = .ok (0, s) := by
  have hnone : ¬ 0 < s.jobs.affected guard := by
    rw [Table.affected_pos_iff hguard]
    rintro ⟨r, hr, hg⟩
    exact hmiss ⟨r, s.journalOf id⟩ (view_eq_some.mpr ⟨hr, rfl⟩) hg
  have hzero : s.jobs.affected guard = 0 := by omega
  have hcheck : ∀ r ∈ s.jobs.rows, guard r → (set r).ValidTier := by
    intro r hr hg
    have hfind : s.jobs.find? id = some r := hguard r hg ▸ Table.find?_key hr
    exact absurd ((Table.affected_pos_iff hguard).mpr ⟨r, hfind, hg⟩) hnone
  unfold updateJobs
  rw [dif_pos hcheck]
  simp only [hzero, Except.ok.injEq, Prod.mk.injEq, true_and]
  have hsame : s.jobs.update guard set hset = s.jobs := Table.update_of_affected_eq_zero hzero
  exact PostgresStore.ext hsame rfl

/-- An update whose guard hits the job `id` changes the row of that job alone, unless the
    new row breaks the `CHECK`. -/
theorem updateJobs_hit {job : Job} (hguard : ∀ r, guard r → r.id = id)
    (hjob : s.view id = some job) (hhit : guard job.row) :
    (¬ (set job.row).ValidTier ∧
      s.updateJobs guard set hset = .error (.database .checkViolation)) ∨
    ((set job.row).ValidTier ∧ ∃ n s', 0 < n ∧ s.updateJobs guard set hset = .ok (n, s') ∧
      s'.view = Function.update s.view id (some ⟨set job.row, job.log⟩)) := by
  obtain ⟨hrow, hlog⟩ := view_eq_some.mp hjob
  -- the `CHECK` runs on the one row the guard admits
  have hiff : (∀ r ∈ s.jobs.rows, guard r → (set r).ValidTier) ↔ (set job.row).ValidTier := by
    constructor
    · exact fun h => h _ (Table.mem_of_find? hrow) hhit
    · intro h r hr hg
      have hfind := Table.find?_key hr
      rw [hguard r hg, hrow] at hfind
      exact Option.some.inj hfind ▸ h
  unfold updateJobs
  by_cases htier : (set job.row).ValidTier
  · rw [dif_pos (hiff.mpr htier)]
    refine .inr ⟨htier, _, _, ?_, rfl, funext fun id' => ?_⟩
    · exact (Table.affected_pos_iff hguard).mpr ⟨job.row, hrow, hhit⟩
    · by_cases hid : id' = id
      · subst hid
        rw [Function.update_self, view, Table.find?_update_self hrow hhit, hlog]
        rfl
      · rw [Function.update_of_ne hid, view, Table.find?_update_of_ne hguard hid]
        rfl
  · rw [dif_neg (fun h => htier (hiff.mp h))]
    exact .inl ⟨htier, rfl⟩

/-- A journal insert for a stored job extends the log of that job alone. -/
theorem appendJournal_view {job : Job} (journal : JournalAppend) (hjob : s.view id = some job) :
    ∃ n s', s.appendJournal id journal = .ok s' ∧
      s'.view = Function.update s.view id (some ⟨job.row, job.log ++ [journal.record id n]⟩) := by
  obtain ⟨hrow, hlog⟩ := view_eq_some.mp hjob
  unfold appendJournal
  rw [dif_pos (by simp [hrow])]
  refine ⟨s.journal.next, _, rfl, funext fun id' => ?_⟩
  by_cases hid : id' = id
  · subst hid
    rw [Function.update_self, view]
    simp only [hrow, Option.map_some, Option.some.injEq, Job.mk.injEq, true_and]
    rw [hlog]
    have hlog' : (s.journal.append (journal.record id') (journal.record_id id')).select
        (fun e => e.jobId = id') = s.journalOf id' ++ [journal.record id' s.journal.next] :=
      Serial.select_append_pos (by simp)
    exact hlog'
  · -- the entry belongs to another job
    have hlog' : (s.journal.append (journal.record id) (journal.record_id id)).select
        (fun e => e.jobId = id') = s.journalOf id' :=
      Serial.select_append_neg (by simp [Ne.symm hid])
    rw [Function.update_of_ne hid, view, view]
    simp only [journalOf] at hlog' ⊢
    rw [hlog']

variable {journal : JournalAppend}

/-- A guarded update that misses returns `false` and changes nothing. -/
theorem guardedUpdate_miss (hguard : ∀ r, guard r → r.id = id)
    (hmiss : ∀ job, s.view id = some job → ¬ guard job.row) :
    s.guardedUpdate id guard set hset journal = .ok (false, s) := by
  unfold guardedUpdate
  rw [updateJobs_miss set hset hguard hmiss]
  rfl

/-- A guarded update that hits returns `true` and journals the change, unless the new row
    breaks the `CHECK`. -/
theorem guardedUpdate_hit {job : Job} (journal : JournalAppend) (hguard : ∀ r, guard r → r.id = id)
    (hjob : s.view id = some job) (hhit : guard job.row) :
    (¬ (set job.row).ValidTier ∧
      s.guardedUpdate id guard set hset journal = .error (.database .checkViolation)) ∨
    ((set job.row).ValidTier ∧ ∃ n s', s.guardedUpdate id guard set hset journal = .ok (true, s') ∧
      s'.view = Function.update s.view id
        (some ⟨set job.row, job.log ++ [journal.record id n]⟩)) := by
  unfold guardedUpdate
  rcases updateJobs_hit set hset hguard hjob hhit with
    ⟨htier, hupd⟩ | ⟨htier, k, s₁, hk, hupd, hview⟩
  · exact .inl ⟨htier, by rw [hupd]; rfl⟩
  · -- the job is still stored when its entry is inserted
    have hjob₁ : s₁.view id = some ⟨set job.row, job.log⟩ := by rw [hview, Function.update_self]
    obtain ⟨n, s₂, happ, hview₂⟩ := appendJournal_view journal hjob₁
    refine .inr ⟨htier, n, s₂, ?_, by rw [hview₂, hview, Function.update_idem]⟩
    rw [hupd]
    show (if k > 0 then _ else _) = _
    rw [if_pos hk, happ]
    rfl

/-- **What a guarded update does.** -/
theorem guardedUpdate_cases {b : Bool} (hguard : ∀ r, guard r → r.id = id)
    (h : s.guardedUpdate id guard set hset journal = .ok (b, s')) :
    (b = false ∧ s' = s ∧ ∀ job, s.view id = some job → ¬ guard job.row) ∨
    (b = true ∧ ∃ job n, s.view id = some job ∧ guard job.row ∧
      s'.view = Function.update s.view id
        (some ⟨set job.row, job.log ++ [journal.record id n]⟩)) := by
  by_cases hhit : ∃ job, s.view id = some job ∧ guard job.row
  · obtain ⟨job, hjob, hg⟩ := hhit
    rcases guardedUpdate_hit set hset journal hguard hjob hg with
      ⟨-, herr⟩ | ⟨-, n, s'', hok, hview⟩
    · rw [herr] at h
      simp at h
    · rw [hok] at h
      obtain ⟨rfl, rfl⟩ := Prod.mk.inj (Except.ok.inj h)
      exact .inr ⟨rfl, job, n, hjob, hg, hview⟩
  · have hmiss : ∀ job, s.view id = some job → ¬ guard job.row :=
      fun job hjob hg => hhit ⟨job, hjob, hg⟩
    rw [guardedUpdate_miss set hset hguard hmiss] at h
    obtain ⟨rfl, rfl⟩ := Prod.mk.inj (Except.ok.inj h)
    exact .inl ⟨rfl, rfl, hmiss⟩

end GuardedUpdate

/-! ### What each operation does -/

section Operations

variable {id : Ulid} {claimedBy : String} {runNo : Nat} {now : DateTime}

/-- **`enqueue`** opens a new job. -/
theorem enqueue_cases {job : NewJob} {u : Unit} (h : s.enqueue job = .ok (u, s')) :
    s.view job.id = none ∧ s'.view = Function.update s.view job.id (some ⟨job.record, []⟩) := by
  obtain ⟨-, -, h⟩ := bind_eq_ok.mp h
  obtain ⟨s₁, hins, h⟩ := bind_eq_ok.mp h
  obtain rfl := (Prod.mk.inj (Except.ok.inj h)).2
  exact insertJob_view (r := job.record) hins

/-- **`claim_next`** claims an eligible row with the least `(priority, created_at)`, or
    finds none eligible. -/
theorem claimNext_cases {rank : Ulid → Nat} {kinds : List String} {floor : Int} {lease : Duration}
    {o : Option JobRecord}
    (h : s.claimNext now rank kinds floor lease claimedBy = .ok (o, s')) :
    (o = none ∧ s' = s ∧ ∀ id job, s.view id = some job → ¬ job.row.eligible kinds floor now) ∨
    (∃ job, s.view job.row.id = some job ∧ job.row.eligible kinds floor now ∧
      job.row.runCount < i32Max ∧
      (∀ id' job', s.view id' = some job' → job'.row.eligible kinds floor now →
        toLex (job.row.priority, job.row.createdAt) ≤
          toLex (job'.row.priority, job'.row.createdAt)) ∧
      o = some (job.row.claim claimedBy (now + lease)) ∧
      s'.view = Function.update s.view job.row.id
        (some ⟨job.row.claim claimedBy (now + lease), job.log⟩)) := by
  simp only [claimNext] at h
  split at h
  · -- nothing was eligible
    rename_i hnone
    obtain ⟨rfl, rfl⟩ := Prod.mk.inj (Except.ok.inj h)
    refine .inl ⟨rfl, rfl, fun id job hjob he => ?_⟩
    have hmem := Table.mem_of_find? (view_eq_some.mp hjob).1
    have hempty := orderBy_head?_eq_none.mp hnone
    have hin : job.row ∈ (s.jobs.scan rank).filter (JobRecord.eligible kinds floor now) :=
      List.mem_filter.mpr ⟨Table.mem_scan.mpr hmem, he⟩
    rw [hempty] at hin
    exact absurd hin List.not_mem_nil
  · rename_i r hsome
    obtain ⟨hr, hleast⟩ := orderBy_head?_eq_some hsome
    obtain ⟨hscan, he⟩ := List.mem_filter.mp hr
    have hrow : s.jobs.find? r.id = some r := Table.find?_key (Table.mem_scan.mp hscan)
    have hjob : s.view r.id = some ⟨r, s.journalOf r.id⟩ := view_eq_some.mpr ⟨hrow, rfl⟩
    split at h
    · rename_i hmax
      obtain ⟨⟨n, s₁⟩, hupd, h⟩ := bind_eq_ok.mp h
      obtain ⟨rfl, rfl⟩ := Prod.mk.inj (Except.ok.inj h)
      refine .inr ⟨⟨r, s.journalOf r.id⟩, hjob, he, hmax, ?_, rfl, ?_⟩
      · intro id' job' hjob' he'
        have hmem' := Table.mem_of_find? (view_eq_some.mp hjob').1
        exact hleast _ (List.mem_filter.mpr ⟨Table.mem_scan.mpr hmem', he'⟩)
      · have hself : ∀ r' : JobRecord, decide (r'.id = r.id) = true → r'.id = r.id := by simp
        rcases updateJobs_hit (fun r' => r'.claim claimedBy (now + lease))
          (JobRecord.claim_id claimedBy (now + lease)) hself hjob (by simp) with
          ⟨-, herr⟩ | ⟨-, k, s₂, -, hok, hview⟩
        · rw [herr] at hupd
          simp at hupd
        · rw [hok] at hupd
          obtain ⟨-, rfl⟩ := Prod.mk.inj (Except.ok.inj hupd)
          exact hview
    · simp [throw, throwThe, MonadExceptOf.throw] at h

/-- **`settle`** settles and journals the job if the caller owns it at this epoch. -/
theorem settle_cases {settlement : Settlement} {journal : JournalAppend} {b : Bool}
    (h : s.settle id claimedBy runNo settlement journal = .ok (b, s')) :
    (b = false ∧ s' = s ∧ ∀ job, s.view id = some job → ¬ job.row.owned id claimedBy runNo) ∨
    (b = true ∧ ∃ job n, s.view id = some job ∧ job.row.owned id claimedBy runNo ∧
      s'.view = Function.update s.view id
        (some ⟨settlement.set job.row, job.log ++ [journal.record id n]⟩)) := by
  obtain ⟨_, hn, h₁⟩ := bind_eq_ok.mp h
  obtain ⟨-, rfl⟩ := runNoToDb_eq_ok.mp hn
  obtain ⟨-, -, h₂⟩ := bind_eq_ok.mp h₁
  exact guardedUpdate_cases _ _ JobRecord.owned_id h₂

/-- A `settle` that hits applies: no settlement moves a row out of its tier. -/
theorem settle_hit (settlement : Settlement) {journal : JournalAppend} {job : Job}
    (hrun : runNo ≤ i32Max) (hjournal : journal.runNo ≤ i32Max) (hjob : s.view id = some job)
    (hhit : job.row.owned id claimedBy runNo) :
    ∃ s', s.settle id claimedBy runNo settlement journal = .ok (true, s') := by
  have htier : (settlement.set job.row).ValidTier := by
    rw [JobRecord.ValidTier, Settlement.set_priority]
    exact s.tiers _ (Table.mem_of_find? (view_eq_some.mp hjob).1)
  simp only [settle, runNoToDb_eq_ok.mpr ⟨hrun, rfl⟩, runNoToDb_eq_ok.mpr ⟨hjournal, rfl⟩, bind,
    Except.bind]
  rcases guardedUpdate_hit _ settlement.set_id journal JobRecord.owned_id hjob hhit with
    ⟨hbad, -⟩ | ⟨-, -, s', hok, -⟩
  · exact absurd htier hbad
  · exact ⟨s', hok⟩

/-- A `settle` that misses changes nothing; only its journal entry can still be an error. -/
theorem settle_miss {settlement : Settlement} {journal : JournalAppend} (hrun : runNo ≤ i32Max)
    (hmiss : ∀ job, s.view id = some job → ¬ job.row.owned id claimedBy runNo) :
    s.settle id claimedBy runNo settlement journal =
      (runNoToDb journal.runNo).map (fun _ => (false, s)) := by
  simp only [settle, runNoToDb_eq_ok.mpr ⟨hrun, rfl⟩, bind, Except.bind]
  rw [guardedUpdate_miss settlement.set settlement.set_id JobRecord.owned_id hmiss]
  cases runNoToDb journal.runNo <;> rfl

/-- **`recover`** re-pends and journals the job if it is still stale at this epoch. -/
theorem recover_cases {visibleAt : DateTime} {failureCount : Int} {journal : JournalAppend}
    {b : Bool} (h : s.recover now id visibleAt failureCount runNo journal = .ok (b, s')) :
    (b = false ∧ s' = s ∧ ∀ job, s.view id = some job → ¬ job.row.recoverable id runNo now) ∨
    (b = true ∧ ∃ job n, s.view id = some job ∧ job.row.recoverable id runNo now ∧
      s'.view = Function.update s.view id
        (some ⟨job.row.repend visibleAt failureCount, job.log ++ [journal.record id n]⟩)) := by
  obtain ⟨_, hn, h₁⟩ := bind_eq_ok.mp h
  obtain ⟨-, rfl⟩ := runNoToDb_eq_ok.mp hn
  obtain ⟨-, -, h₂⟩ := bind_eq_ok.mp h₁
  exact guardedUpdate_cases _ _ JobRecord.recoverable_id h₂

/-- A `recover` that hits applies: a recovery keeps the tier. -/
theorem recover_hit (visibleAt : DateTime) (failureCount : Int) {journal : JournalAppend}
    {job : Job} (hrun : runNo ≤ i32Max) (hjournal : journal.runNo ≤ i32Max)
    (hjob : s.view id = some job) (hhit : job.row.recoverable id runNo now) :
    ∃ n s', s.recover now id visibleAt failureCount runNo journal = .ok (true, s') ∧
      s'.view = Function.update s.view id
        (some ⟨job.row.repend visibleAt failureCount, job.log ++ [journal.record id n]⟩) := by
  have hrow : job.row.ValidTier := s.tiers _ (Table.mem_of_find? (view_eq_some.mp hjob).1)
  have htier : (job.row.repend visibleAt failureCount).ValidTier := hrow
  simp only [recover, runNoToDb_eq_ok.mpr ⟨hrun, rfl⟩, runNoToDb_eq_ok.mpr ⟨hjournal, rfl⟩, bind,
    Except.bind]
  rcases guardedUpdate_hit _ (JobRecord.repend_id visibleAt failureCount) journal
    JobRecord.recoverable_id hjob hhit with ⟨hbad, -⟩ | ⟨-, hit⟩
  · exact absurd htier hbad
  · exact hit

/-- A `recover` that misses changes nothing; only its journal entry can still be an error. -/
theorem recover_miss {visibleAt : DateTime} {failureCount : Int} {journal : JournalAppend}
    (hrun : runNo ≤ i32Max)
    (hmiss : ∀ job, s.view id = some job → ¬ job.row.recoverable id runNo now) :
    s.recover now id visibleAt failureCount runNo journal =
      (runNoToDb journal.runNo).map (fun _ => (false, s)) := by
  simp only [recover, runNoToDb_eq_ok.mpr ⟨hrun, rfl⟩, bind, Except.bind]
  rw [guardedUpdate_miss _ (JobRecord.repend_id visibleAt failureCount)
    JobRecord.recoverable_id hmiss]
  cases runNoToDb journal.runNo <;> rfl

/-- **`extend_lease`** moves the expiry if the caller owns the job at this epoch. -/
theorem extendLease_cases {lease : Duration} {b : Bool}
    (h : s.extendLease now id claimedBy runNo lease = .ok (b, s')) :
    (b = false ∧ s' = s ∧ ∀ job, s.view id = some job → ¬ job.row.owned id claimedBy runNo) ∨
    (b = true ∧ ∃ job, s.view id = some job ∧ job.row.owned id claimedBy runNo ∧
      s'.view = Function.update s.view id (some ⟨job.row.extend (now + lease), job.log⟩)) := by
  obtain ⟨_, hn, h₁⟩ := bind_eq_ok.mp h
  obtain ⟨-, rfl⟩ := runNoToDb_eq_ok.mp hn
  obtain ⟨⟨k, s₁⟩, hupd, h₂⟩ := bind_eq_ok.mp h₁
  obtain ⟨rfl, rfl⟩ := Prod.mk.inj (Except.ok.inj h₂)
  by_cases hhit : ∃ job, s.view id = some job ∧ job.row.owned id claimedBy runNo
  · obtain ⟨job, hjob, hg⟩ := hhit
    rcases updateJobs_hit (fun r => r.extend (now + lease)) (JobRecord.extend_id (now + lease))
      JobRecord.owned_id hjob hg with
      ⟨-, herr⟩ | ⟨-, k', s₂, hk, hok, hview⟩
    · rw [herr] at hupd
      simp at hupd
    · rw [hok] at hupd
      obtain ⟨rfl, rfl⟩ := Prod.mk.inj (Except.ok.inj hupd)
      exact .inr ⟨by simpa using hk, job, hjob, hg, hview⟩
  · have hmiss : ∀ job, s.view id = some job → ¬ job.row.owned id claimedBy runNo :=
      fun job hjob hg => hhit ⟨job, hjob, hg⟩
    rw [updateJobs_miss _ _ JobRecord.owned_id hmiss] at hupd
    obtain ⟨rfl, rfl⟩ := Prod.mk.inj (Except.ok.inj hupd)
    exact .inl ⟨rfl, rfl, hmiss⟩

/-- An `extend_lease` that misses changes nothing. -/
theorem extendLease_miss {lease : Duration} (hrun : runNo ≤ i32Max)
    (hmiss : ∀ job, s.view id = some job → ¬ job.row.owned id claimedBy runNo) :
    s.extendLease now id claimedBy runNo lease = .ok (false, s) := by
  simp only [extendLease, runNoToDb_eq_ok.mpr ⟨hrun, rfl⟩, bind, Except.bind]
  rw [updateJobs_miss _ (JobRecord.extend_id (now + lease)) JobRecord.owned_id hmiss]
  rfl

/-- **`merge_into`** merges into and journals the job if it is still pending. -/
theorem mergeInto_cases {update : Option MergePayload} {journal : JournalAppend} {b : Bool}
    (h : s.mergeInto id update journal = .ok (b, s')) :
    (b = false ∧ s' = s ∧ ∀ job, s.view id = some job → ¬ job.row.mergeable id) ∨
    (b = true ∧ ∃ job n, s.view id = some job ∧ job.row.mergeable id ∧
      s'.view = Function.update s.view id
        (some ⟨job.row.merge update, job.log ++ [journal.record id n]⟩)) := by
  obtain ⟨-, -, h⟩ := bind_eq_ok.mp h
  exact guardedUpdate_cases _ _ JobRecord.mergeable_id h

/-- A `merge_into` of a valid tier that hits applies. -/
theorem mergeInto_hit {update : Option MergePayload} (journal : JournalAppend) {job : Job}
    (hjournal : journal.runNo ≤ i32Max) (htier : ∀ u ∈ update, 0 ≤ u.priority ∧ u.priority ≤ 2)
    (hjob : s.view id = some job) (hhit : job.row.mergeable id) :
    ∃ n s', s.mergeInto id update journal = .ok (true, s') ∧
      s'.view = Function.update s.view id
        (some ⟨job.row.merge update, job.log ++ [journal.record id n]⟩) := by
  have hvalid : (job.row.merge update).ValidTier := by
    cases update with
    | none => exact s.tiers _ (Table.mem_of_find? (view_eq_some.mp hjob).1)
    | some u => exact htier u rfl
  simp only [mergeInto, runNoToDb_eq_ok.mpr ⟨hjournal, rfl⟩, bind, Except.bind]
  rcases guardedUpdate_hit _ (JobRecord.merge_id update) journal JobRecord.mergeable_id hjob
    hhit with ⟨hbad, -⟩ | ⟨-, hit⟩
  · exact absurd hvalid hbad
  · exact hit

/-- A `merge_into` that misses changes nothing. -/
theorem mergeInto_miss (update : Option MergePayload) {journal : JournalAppend}
    (hjournal : journal.runNo ≤ i32Max)
    (hmiss : ∀ job, s.view id = some job → ¬ job.row.mergeable id) :
    s.mergeInto id update journal = .ok (false, s) := by
  simp only [mergeInto, runNoToDb_eq_ok.mpr ⟨hjournal, rfl⟩, bind, Except.bind]
  exact guardedUpdate_miss _ (JobRecord.merge_id update) JobRecord.mergeable_id hmiss

/-- **`cleanup`** drops every matching job with its log and no other job. -/
theorem cleanup_cases {criteria : CleanupCriteria} {n : Nat}
    (h : s.cleanup criteria = .ok (n, s')) :
    n = s.jobs.affected criteria.matches ∧
      ∀ id, s'.view id = (s.view id).filter (fun job => !criteria.matches job.row) := by
  have hs : s.deleteJobs criteria.matches = (n, s') := Except.ok.inj h
  obtain ⟨rfl, rfl⟩ := Prod.mk.inj hs
  exact ⟨rfl, deleteJobs_view⟩

/-- **`dedup_candidate`** finds an oldest pending job of the key, as it is stored. -/
theorem dedupCandidate_cases {rank : Ulid → Nat} {kind dedupKey : String} {r : JobRecord}
    (h : s.dedupCandidate rank kind dedupKey = some r) :
    s.view r.id = some ⟨r, s.journalOf r.id⟩ ∧ r.dedupCandidate kind dedupKey ∧
      ∀ id job, s.view id = some job → job.row.dedupCandidate kind dedupKey →
        r.createdAt ≤ job.row.createdAt := by
  obtain ⟨hmem, hleast⟩ := orderBy_head?_eq_some h
  obtain ⟨hscan, hcand⟩ := List.mem_filter.mp hmem
  refine ⟨view_eq_some.mpr ⟨Table.find?_key (Table.mem_scan.mp hscan), rfl⟩, hcand, ?_⟩
  intro id job hjob hc
  have hrow := Table.mem_of_find? (view_eq_some.mp hjob).1
  exact hleast _ (List.mem_filter.mpr ⟨Table.mem_scan.mpr hrow, hc⟩)

/-- **`find_stale`** lists expired claims, as they are stored. -/
theorem mem_findStale {rank : Ulid → Nat} {r : JobRecord} (h : r ∈ s.findStale now rank) :
    s.view r.id = some ⟨r, s.journalOf r.id⟩ ∧ r.stale now := by
  obtain ⟨hscan, hstale⟩ := List.mem_filter.mp (mem_orderBy.mp (List.mem_of_mem_take h))
  exact ⟨view_eq_some.mpr ⟨Table.find?_key (Table.mem_scan.mp hscan), rfl⟩, hstale⟩

end Operations

/-! ### The refinement -/

/-- A view that changed at one id by a step of its job is a stutter at every other id. -/
theorem step_at {now : DateTime} {c : Call} {e : Event} {id₀ : Ulid} {mark : Mark} {job : Job}
    (hview : s'.view = Function.update s.view id₀ (some job))
    (hmark : ∀ id, e.mark id = if id₀ = id then mark else .quiet)
    (hs : Job.Step now c mark (s.view id₀) (some job)) (id : Ulid) :
    (s'.view id = s.view id ∧ e.mark id = .quiet) ∨
      Job.Step now c (e.mark id) (s.view id) (s'.view id) := by
  rw [hmark, hview]
  by_cases hid : id₀ = id
  · subst hid
    rw [if_pos rfl, Function.update_self]
    exact .inr hs
  · rw [if_neg hid, Function.update_of_ne (Ne.symm hid)]
    exact .inl ⟨rfl, rfl⟩

/-- **Refinement.** At every id, a step of the adapter is a stutter that hands out and
    closes nothing there, or a step of the job machine. -/
theorem exec_view {env : Env} {c : Call} {r : Except Error c.Answer}
    (h : s.exec env c = (r, s')) (id : Ulid) :
    (s'.view id = s.view id ∧ Event.mark id ⟨env, c, r⟩ = .quiet) ∨
      Job.Step env.now c (Event.mark id ⟨env, c, r⟩) (s.view id) (s'.view id) := by
  cases c with
  | enqueue job =>
    simp only [exec] at h
    rcases commit_eq h with ⟨a, hok, rfl⟩ | ⟨err, -, rfl, rfl⟩
    · obtain ⟨hnone, hview⟩ := enqueue_cases hok
      refine step_at hview (fun _ => rfl) ?_ id
      rw [hnone]
      exact .enqueue
    · exact .inl ⟨rfl, rfl⟩
  | claimNext kinds floor lease claimedBy =>
    simp only [exec] at h
    rcases commit_eq h with ⟨a, hok, rfl⟩ | ⟨err, -, rfl, rfl⟩
    · rcases claimNext_cases hok with ⟨rfl, rfl, -⟩ | ⟨job, hjob, he, hmax, -, rfl, hview⟩
      · exact .inl ⟨rfl, rfl⟩
      · refine step_at hview (fun _ => rfl) ?_ id
        rw [hjob]
        exact .claim he hmax
    · exact .inl ⟨rfl, rfl⟩
  | settle id₀ claimedBy runNo settlement journal =>
    simp only [exec] at h
    rcases commit_eq h with ⟨a, hok, rfl⟩ | ⟨err, -, rfl, rfl⟩
    · rcases settle_cases hok with ⟨rfl, rfl, -⟩ | ⟨rfl, job, n, hjob, hg, hview⟩
      · exact .inl ⟨rfl, rfl⟩
      · obtain ⟨rfl, -, rfl, -⟩ := JobRecord.owned_iff.mp hg
        refine step_at hview (fun _ => rfl) ?_ id
        rw [hjob]
        exact .settle hg
    · exact .inl ⟨rfl, rfl⟩
  | recover id₀ visibleAt failureCount runNo journal =>
    simp only [exec] at h
    rcases commit_eq h with ⟨a, hok, rfl⟩ | ⟨err, -, rfl, rfl⟩
    · rcases recover_cases hok with ⟨rfl, rfl, -⟩ | ⟨rfl, job, n, hjob, hg, hview⟩
      · exact .inl ⟨rfl, rfl⟩
      · obtain ⟨rfl, hstale, rfl⟩ := JobRecord.recoverable_iff.mp hg
        refine step_at hview (fun _ => rfl) ?_ id
        rw [hjob]
        exact .recover hstale
    · exact .inl ⟨rfl, rfl⟩
  | extendLease id₀ claimedBy runNo lease =>
    simp only [exec] at h
    rcases commit_eq h with ⟨a, hok, rfl⟩ | ⟨err, -, rfl, rfl⟩
    · rcases extendLease_cases hok with ⟨rfl, rfl, -⟩ | ⟨rfl, job, hjob, hg, hview⟩
      · exact .inl ⟨rfl, rfl⟩
      · obtain ⟨rfl, -, rfl, -⟩ := JobRecord.owned_iff.mp hg
        refine step_at hview (fun _ => rfl) ?_ id
        rw [hjob]
        exact .extendLease hg
    · exact .inl ⟨rfl, rfl⟩
  | mergeInto id₀ update journal =>
    simp only [exec] at h
    rcases commit_eq h with ⟨a, hok, rfl⟩ | ⟨err, -, rfl, rfl⟩
    · rcases mergeInto_cases hok with ⟨rfl, rfl, -⟩ | ⟨rfl, job, n, hjob, hg, hview⟩
      · exact .inl ⟨rfl, rfl⟩
      · obtain ⟨rfl, hpending⟩ := JobRecord.mergeable_iff.mp hg
        -- a merge leaves no mark of its own
        refine step_at hview (fun _ => (ite_self _).symm) ?_ id
        rw [hjob]
        exact .merge hpending
    · exact .inl ⟨rfl, rfl⟩
  | cleanup criteria =>
    simp only [exec] at h
    rcases commit_eq h with ⟨a, hok, rfl⟩ | ⟨err, -, rfl, rfl⟩
    · obtain ⟨-, hview⟩ := cleanup_cases hok
      rw [hview id]
      cases hjob : s.view id with
      | none => exact .inl ⟨rfl, rfl⟩
      | some job =>
        by_cases hm : criteria.matches job.row
        · rw [Option.filter_some_neg (by simp [hm])]
          exact .inr (.cleanup hm)
        · rw [Option.filter_some_pos (by simp [hm])]
          exact .inl ⟨rfl, rfl⟩
    · exact .inl ⟨rfl, rfl⟩
  | journal _ | nextVisibleAt _ | dedupCandidate _ _ | findStale | job _ =>
    obtain ⟨rfl, rfl⟩ := Prod.mk.inj h
    exact .inl ⟨rfl, rfl⟩

end PostgresStore

end Venturi
