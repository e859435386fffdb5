import Venturi.Postgres.Statements

namespace Venturi

open Sql PostgresStore

/-!
# The statements do what the model says

`Tables.of` is the rows that hold a state of the model; on them every statement that writes has
the effect and the reply of the model's operation.

* `updateJobs_of`, `appendJournal_of`, `guardedUpdate_of` — one statement, from what its clauses
  say of a record.
* `settle_of`, `enqueue_of`, … — the calls.
* `Clauses.Says` — the clauses built at run time: each placeholder is of the value pushed for it.
-/

variable {T : UlidText} {env : ServerEnv} {s s' : PostgresStore}

/-- The tables that hold a state. -/
def Tables.of (T : UlidText) (s : PostgresStore) : Tables where
  jobs := s.jobs.rows.map (JobRecord.row T)
  journal := s.journal.rows.map (JournalRecord.row T)
  next := s.journal.next

/-- What the server contributes, as the model has it. -/
def ServerEnv.toEnv (T : UlidText) (env : ServerEnv) : Env where
  now := env.now
  rank id := env.rank (some (.text (T.toString id)))

/-- Every row can be read. -/
structure PostgresStore.Readable (s : PostgresStore) : Prop where
  jobs : ∀ r ∈ s.jobs.rows, r.Readable
  journal : ∀ e ∈ s.journal.rows, e.Readable

/-! ### Rows of records -/

/-- No two rows of the jobs table have one primary key. -/
theorem nodup_jobKeys (T : UlidText) (s : PostgresStore) :
    (s.jobs.rows.map fun r => r.row T jobsTable.key).Nodup := by
  have hinj : Function.Injective fun id => some (Cell.text (T.toString id)) := by
    intro a b h
    exact T.toString_inj.mp (Cell.text.inj (Option.some.inj h))
  have hnodup := s.jobs.nodup.map hinj
  rwa [List.map_map] at hnodup

/-- No two rows of the journal table have one primary key. -/
theorem nodup_journalKeys (T : UlidText) (s : PostgresStore) :
    (s.journal.rows.map fun e => e.row T journalTable.key).Nodup := by
  have hinj : Function.Injective fun n : Nat => some (Cell.int n) := by
    intro a b h
    exact Int.ofNat.inj (Cell.int.inj (Option.some.inj h))
  have hids : (s.journal.rows.map JournalRecord.id).Nodup :=
    List.pairwise_map.mpr (s.journal.increasing.imp Nat.ne_of_lt)
  have hnodup := hids.map hinj
  rwa [List.map_map] at hnodup

/-- The tables and the store are scanned in the same order. -/
theorem scanJobs_of : (Tables.of T s).scanJobs env =
    (s.jobs.scan (env.toEnv T).rank).map (JobRecord.row T) := by
  refine (List.map_insertionSort _ _ _ _ fun r _ r' _ => ?_).symm
  exact Iff.rfl

/-- The `CHECK` of the jobs table admits the row of a job exactly if its tier is valid. -/
theorem admits_row (x : Ctx Cell) (r : JobRecord) :
    admits x jobsTable.checks (r.row T) = decide r.ValidTier := by
  have hstatus : Cell.text r.status.asStr ∈
      [Cell.text "pending", .text "claimed", .text "completed", .text "dead"] := by
    cases r.status <;> simp [Status.asStr]
  have htier : Cell.int r.priority ∈ [Cell.int 0, .int 1, .int 2] ↔ r.ValidTier := by
    simp only [List.mem_cons, List.not_mem_nil, Cell.int.injEq, or_false]
    unfold JobRecord.ValidTier
    omega
  simp only [admits, jobsTable, List.all_cons, List.all_nil, Cond.eval, Term.eval, JobRecord.row,
    Option.map_some, hstatus, htier]
  by_cases hvalid : r.ValidTier <;> simp [hvalid]

/-- The constraints of the schema admit the row of a record in a valid tier. -/
theorem check_row (x : Ctx Cell) (r : JobRecord) :
    jobsTable.check x (r.row T) = if r.ValidTier then .ok () else .error .check := by
  have hnull : (jobsTable.notNull.any fun c => (r.row T c).isNone) = false := rfl
  simp only [TableDef.check, hnull, admits_row, Bool.false_eq_true, if_false, decide_eq_true_eq]

/-- The journal table has no `CHECK` that an entry could fail. -/
theorem check_journalRow (x : Ctx Cell) (e : JournalRecord) :
    journalTable.check x (e.row T) = .ok () := by
  have hnull : (journalTable.notNull.any fun c => (e.row T c).isNone) = false := rfl
  have houtcome : Cell.text e.outcome.asStr ∈
      [Cell.text "completed", .text "paused", .text "retried", .text "dead",
        .text "stale-recovered", .text "released", .text "merged"] := by
    cases e.outcome <;> simp [JournalOutcome.asStr]
  have hadmits : admits x journalTable.checks (e.row T) = true := by
    simp only [admits, journalTable, List.all_cons, List.all_nil, Cond.eval, Term.eval,
      JournalRecord.row, Option.map_some, houtcome]
    rfl
  simp only [TableDef.check, hnull, hadmits, Bool.false_eq_true, if_false, if_true]

/-! ### One statement -/

section Statements

variable {params : List (Param Cell)} {p : JobRecord → Bool} {set : JobRecord → JobRecord}

/-- **An update** does to the tables what the model's does to the state. -/
theorem updateJobs_of {u : Update JobColumn Cell} {selects : JobRow → Bool}
    (hset : ∀ r, (set r).id = r.id)
    (harity : params.length = max (setsArity u.sets) u.target.arity)
    (hselect : u.target.select (Tables.ctx T env params) ((Tables.of T s).scanJobs env) =
      .ok selects)
    (hp : ∀ r ∈ s.jobs.rows, selects (r.row T) = p r)
    (hassign : ∀ r ∈ s.jobs.rows, p r →
      assign (Tables.ctx T env params) (r.row T) u.sets = .ok ((set r).row T)) :
    (Tables.of T s).updateJobs T env u params =
      ((s.updateJobs p set hset).map fun x =>
        (((s.jobs.rows.filter p).map set).map (JobRecord.row T), Tables.of T x.2)).mapError
          Failure.error := by
  have hstep : ∀ r ∈ s.jobs.rows, p r → jobsTable.set (Tables.ctx T env params) u.sets (r.row T) =
      if (set r).ValidTier then .ok ((set r).row T) else .error .check := by
    intro r hr hpr
    rw [TableDef.set, hassign r hr hpr]
    simp only [bind, Except.bind, check_row]
    split_ifs <;> rfl
  have hkey : ∀ r ∈ s.jobs.rows, p r → (set r).row T jobsTable.key = r.row T jobsTable.key := by
    intro r _ _
    show some (Cell.text _) = some (Cell.text _)
    rw [hset]
  have hrun := Update.run_map (u := u) harity hselect hp hstep hkey (nodup_jobKeys T s)
  have hjobs : (Tables.of T s).jobs = s.jobs.rows.map (JobRecord.row T) := rfl
  rw [Tables.updateJobs, hjobs, hrun, PostgresStore.updateJobs]
  by_cases hvalid : ∀ r ∈ s.jobs.rows, p r → (set r).ValidTier
  · rw [if_pos hvalid, dif_pos hvalid]
    rfl
  · rw [if_neg hvalid, dif_neg hvalid]
    rfl

/-- An id is in the jobs table exactly if the store has a job under it. -/
theorem any_id (id : Ulid) :
    ((Tables.of T s).jobs.any fun r => r .id = some (.text (T.toString id))) =
      (s.jobs.find? id).isSome := by
  have hid (r : JobRecord) : (r.row T .id = some (.text (T.toString id))) ↔ r.id = id := by
    show some (Cell.text _) = some (Cell.text _) ↔ _
    rw [Option.some.injEq, Cell.text.injEq, T.toString_inj]
  simp only [Tables.of, List.any_map, Function.comp_def, hid, Table.find?, List.isSome_find?]

/-- **A journal entry** is inserted as the model's is. -/
theorem appendJournal_of (id : Ulid) (journal : JournalAppend) :
    (Tables.of T s).appendJournal T env id journal.runNo journal =
      ((s.appendJournal id journal).map (Tables.of T)).mapError Failure.error := by
  let entry := journal.record id s.journal.next
  let base : JournalRow :=
    Function.update journalTable.default .id (some (.int s.journal.next))
  let x := Tables.ctx T env (journal.params T id journal.runNo)
  have hassign : assign x base journalInsert.values = .ok (entry.row T) := by
    refine congrArg Except.ok (funext fun c => ?_)
    cases c <;> rfl
  have hset : journalTable.set x journalInsert.values base =
      if True then .ok (entry.row T) else .error .check := by
    rw [TableDef.set, hassign]
    simp only [bind, Except.bind, check_journalRow]
    rfl
  have hfresh : entry.row T journalTable.key ∉
      s.journal.rows.map fun e => e.row T journalTable.key := by
    intro hmem
    obtain ⟨e, he, hid⟩ := List.mem_map.mp hmem
    have hid : e.id = s.journal.next := Int.ofNat.inj (Cell.int.inj (Option.some.inj hid))
    exact absurd (s.journal.below e he) (by omega)
  have hrun := InsertInto.run_map (i := journalInsert) rfl hset (nodup_journalKeys T s)
  rw [if_pos trivial, if_neg hfresh] at hrun
  have hjournal : journalInsert.run journalTable base x (Tables.of T s).journal =
      .ok ((s.journal.rows ++ [entry]).map (JournalRecord.row T)) := hrun
  rw [Tables.appendJournal, PostgresStore.appendJournal]
  show (do
    let rows ← (journalInsert.run journalTable base x (Tables.of T s).journal).mapError
      Failure.ofFault
    _) = _
  rw [hjournal]
  simp only [Except.mapError, bind, Except.bind, any_id]
  by_cases hjob : (s.jobs.find? id).isSome
  · rw [if_pos hjob, dif_pos hjob]
    rfl
  · rw [if_neg hjob, dif_neg hjob]
    rfl

/-- An update affects as many rows as its condition selects. -/
theorem affected_of_updateJobs {n : Nat} {hset : ∀ r, (set r).id = r.id}
    (h : s.updateJobs p set hset = .ok (n, s')) : n = (s.jobs.rows.filter p).length := by
  unfold PostgresStore.updateJobs at h
  split at h
  · obtain ⟨rfl, -⟩ := Prod.mk.inj (Except.ok.inj h)
    exact List.countP_eq_length_filter
  · cases h

section All

variable {u : Update JobColumn Cell} {conds : List (Cond JobColumn Cell)}
  {hset : ∀ r, (set r).id = r.id}

variable (hset) in
/-- An update whose condition is on each row alone. -/
theorem updateAll_of (htarget : u.target = .all conds)
    (harity : params.length = max (setsArity u.sets) u.target.arity)
    (hp : ∀ r ∈ s.jobs.rows, holds (Tables.ctx T env params) conds (r.row T) = p r)
    (hassign : ∀ r ∈ s.jobs.rows, p r →
      assign (Tables.ctx T env params) (r.row T) u.sets = .ok ((set r).row T)) :
    (Tables.of T s).updateJobs T env u params =
      ((s.updateJobs p set hset).map fun x =>
        (((s.jobs.rows.filter p).map set).map (JobRecord.row T), Tables.of T x.2)).mapError
          Failure.error := by
  refine updateJobs_of hset harity ?_ hp hassign
  rw [htarget]
  rfl

/-- **An update** says whether it applied, as the model's does. -/
theorem affected_of (htarget : u.target = .all conds)
    (harity : params.length = max (setsArity u.sets) u.target.arity)
    (hp : ∀ r ∈ s.jobs.rows, holds (Tables.ctx T env params) conds (r.row T) = p r)
    (hassign : ∀ r ∈ s.jobs.rows, p r →
      assign (Tables.ctx T env params) (r.row T) u.sets = .ok ((set r).row T)) :
    ((Tables.of T s).updateJobs T env u params >>= fun x =>
        Except.ok (decide (x.1.length > 0), x.2)) =
      ((s.updateJobs p set hset >>= fun x => Except.ok (decide (x.1 > 0), x.2)).map fun x =>
        (x.1, Tables.of T x.2)).mapError Failure.error := by
  rw [updateAll_of hset htarget harity hp hassign]
  cases hupdate : s.updateJobs p set hset with
  | error e => rfl
  | ok x =>
    have hn := affected_of_updateJobs hupdate
    simp only [Except.map, Except.mapError, bind, Except.bind, List.length_map, ← hn]

/-- **A journaled update** does to the tables what the model's does to the state. -/
theorem guardedUpdate_of (id : Ulid) (journal : JournalAppend) (htarget : u.target = .all conds)
    (harity : params.length = max (setsArity u.sets) u.target.arity)
    (hp : ∀ r ∈ s.jobs.rows, holds (Tables.ctx T env params) conds (r.row T) = p r)
    (hassign : ∀ r ∈ s.jobs.rows, p r →
      assign (Tables.ctx T env params) (r.row T) u.sets = .ok ((set r).row T)) :
    (Tables.of T s).guardedUpdate T env u params id journal.runNo journal =
      ((s.guardedUpdate id p set hset journal).map fun x =>
        (x.1, Tables.of T x.2)).mapError Failure.error := by
  rw [Tables.guardedUpdate, updateAll_of hset htarget harity hp hassign,
    PostgresStore.guardedUpdate]
  cases hupdate : s.updateJobs p set hset with
  | error e => rfl
  | ok x =>
    obtain ⟨n, s₁⟩ := x
    have hn := affected_of_updateJobs hupdate
    simp only [Except.map, Except.mapError, bind, Except.bind, List.length_map, ← hn]
    by_cases hpos : n > 0
    · rw [if_pos hpos, if_pos hpos, appendJournal_of]
      cases s₁.appendJournal id journal <;> rfl
    · rw [if_neg hpos, if_neg hpos]
      rfl

end All

/-- Job rows are decoded as the jobs they store. -/
theorem mapM_jobFromRow {rs : List JobRecord} (h : ∀ r ∈ rs, r.Readable) :
    (rs.map fun r => jobColumns.map (r.row T)).mapM (jobFromRow T) = .ok rs := by
  induction rs with
  | nil => rfl
  | cons r rs ih =>
    obtain ⟨hr, hrs⟩ := List.forall_mem_cons.mp h
    rw [List.map_cons, List.mapM_cons, jobFromRow_row T hr, ih hrs]
    rfl

/-- **A query** of the tables returns the rows of what the model's selects. -/
theorem run_select_of {q : Select JobColumn Cell} {κ : Type} [LinearOrder κ]
    {key : JobRecord → κ} {limit : Option Nat} (hcolumns : q.columns = jobColumns)
    (harity : params.length = q.arity) (hbound : q.bound (Tables.ctx T env params) = .ok limit)
    (hp : ∀ r ∈ s.jobs.rows, holds (Tables.ctx T env params) q.conds (r.row T) = p r)
    (hkey : ∀ r ∈ s.jobs.rows, ∀ r' ∈ s.jobs.rows, p r → p r' →
      (key r ≤ key r' ↔ sorted T.engine (r.row T) (r'.row T) q.order = true)) :
    q.run (Tables.ctx T env params) ((Tables.of T s).scanJobs env) =
      .ok ((cut limit (orderBy key ((s.jobs.scan (env.toEnv T).rank).filter p))).map
        fun r => jobColumns.map (r.row T)) := by
  have hpick : q.pick (Tables.ctx T env params)
      ((s.jobs.scan (env.toEnv T).rank).map (JobRecord.row T)) =
        .ok ((cut limit (orderBy key ((s.jobs.scan (env.toEnv T).rank).filter p))).map
          (JobRecord.row T)) :=
    Select.pick_map hbound (fun r hr => hp r (Table.mem_scan.mp hr))
      fun r hr r' hr' => hkey r (Table.mem_scan.mp hr) r' (Table.mem_scan.mp hr')
  rw [Select.run, bind_eq harity, scanJobs_of, hpick, hcolumns]
  simp only [bind, Except.bind, pure, Except.pure, List.map_map]
  rfl

end Statements

/-! ### What the clauses say of a record -/

/-- A nullable text column equals a value. -/
@[simp] theorem text_eq_iff {v : Option String} {text : String} :
    ((v.map Cell.text).bind fun a => some (decide (a = .text text))) = some true ↔
      v = some text := by
  cases v <;> simp

/-- A nullable instant is before another. -/
@[simp] theorem time_lt_iff {v : Option DateTime} {t : DateTime} :
    ((v.map Cell.time).bind fun a => some (T.engine.lt a (.time t))) = some true ↔
      ∃ a, v = some a ∧ a < t := by
  cases v <;> simp [UlidText.engine]

/-- The guard of a settlement or a lease on a row: the job is claimed by this worker in this run.
    -/
theorem holds_owned (r : JobRecord) (id : Ulid) (claimedBy : String) (runNo : Nat)
    (rest : List (Param Cell)) :
    holds (Tables.ctx T env ([bound (.text (T.toString id)), bound (.text claimedBy),
      bound (.int runNo)] ++ rest)) ownedConds (r.row T) = r.owned id claimedBy runNo := by
  simp [ownedConds, JobRecord.owned, Bool.decide_and]

/-- The `SET` of a settlement on the row of a job makes it the row of the settled job. -/
theorem assign_settlement (settlement : Settlement) (r : JobRecord) (guard : List (Param Cell))
    (hguard : guard.length = 3) :
    assign (Tables.ctx T env (guard ++ settlement.params)) (r.row T) settlement.sets =
      .ok ((settlement.set r).row T) := by
  obtain ⟨a, b, c, rfl⟩ := List.length_eq_three.mp hguard
  cases settlement <;>
    refine congrArg Except.ok (funext fun column => ?_) <;> cases column <;> rfl

/-- A lease that ends in the range of the clock is added. -/
theorem eval_lease {params : List (Param Cell)} {r : JobRow} {lease : Duration} {n : Nat}
    (hlease : env.now + lease ≤ maxUtc)
    (hparam : (Tables.ctx T env params).scalar n = some (.seconds lease)) :
    (Expr.add (.term .now) (.term (.param n))).eval (Tables.ctx T env params) r =
      .ok (some (.time (env.now + lease))) := by
  have hrange : env.now + lease < endTimestamp := hlease.trans_lt (by decide)
  have hvalue : (Expr.term (.param n)).eval (Tables.ctx T env params) r =
      .ok (some (.seconds lease)) := congrArg Except.ok hparam
  rw [Expr.eval_add (u := .time env.now) rfl hvalue]
  show Except.map some (if env.now + lease < endTimestamp then _ else _) = _
  rw [if_pos hrange]
  rfl

/-! ### The calls -/

/-- A run number is checked before anything is sent. -/
theorem runNoToDb_bind {α β : Type} {n : Nat} {f : Nat → Except Error α} {g : α → β}
    {f' : Nat → Except Failure β} (h : f' n = ((f n).map g).mapError Failure.error) :
    (Tables.runNoToDb n >>= f') = ((runNoToDb n >>= f).map g).mapError Failure.error := by
  unfold Tables.runNoToDb PostgresStore.runNoToDb
  split_ifs
  · exact h
  · rfl

/-- `settle`, as its statements run it. -/
theorem settle_of (id : Ulid) (claimedBy : String) (runNo : Nat) (settlement : Settlement)
    (journal : JournalAppend) :
    (Tables.of T s).settle T env id claimedBy runNo settlement journal =
      ((s.settle id claimedBy runNo settlement journal).map fun x =>
        (x.1, Tables.of T x.2)).mapError Failure.error := by
  refine runNoToDb_bind (runNoToDb_bind (guardedUpdate_of id journal rfl ?_
    (fun r _ => holds_owned r id claimedBy runNo _)
    fun r _ _ => assign_settlement settlement r _ rfl))
  cases settlement <;> rfl

/-- `recover`, as its statements run it. -/
theorem recover_of (id : Ulid) (visibleAt : DateTime) (failureCount : Int) (runNo : Nat)
    (journal : JournalAppend) :
    (Tables.of T s).recover T env id visibleAt failureCount runNo journal =
      ((s.recover env.now id visibleAt failureCount runNo journal).map fun x =>
        (x.1, Tables.of T x.2)).mapError Failure.error := by
  refine runNoToDb_bind (runNoToDb_bind (guardedUpdate_of id journal rfl rfl (fun r _ => ?_)
    fun r _ _ => congrArg Except.ok (funext fun column => ?_)))
  · rw [Bool.eq_iff_iff, JobRecord.recoverable_iff, JobRecord.stale_iff]
    simp [and_assoc]
  · cases column <;> rfl

/-- `merge_into`, as its statements run it. -/
theorem mergeInto_of (id : Ulid) (update : Option MergePayload) (journal : JournalAppend) :
    (Tables.of T s).mergeInto T env id update journal =
      ((s.mergeInto id update journal).map fun x =>
        (x.1, Tables.of T x.2)).mapError Failure.error := by
  refine runNoToDb_bind (guardedUpdate_of id journal rfl ?_ (fun r _ => ?_) fun r _ _ => ?_)
  · cases update <;> rfl
  · rw [Bool.eq_iff_iff, JobRecord.mergeable_iff]
    cases update <;> simp
  · cases update <;> refine congrArg Except.ok (funext fun column => ?_) <;> cases column <;> rfl

/-- `extend_lease`, as its statement runs it. -/
theorem extendLease_of (id : Ulid) (claimedBy : String) (runNo : Nat) {lease : Duration}
    (hlease : env.now + lease ≤ maxUtc) :
    (Tables.of T s).extendLease T env id claimedBy runNo lease =
      ((s.extendLease env.now id claimedBy runNo lease).map fun x =>
        (x.1, Tables.of T x.2)).mapError Failure.error := by
  refine runNoToDb_bind (affected_of rfl rfl
    (fun r _ => holds_owned r id claimedBy runNo [bound (.seconds lease)]) fun r _ _ => ?_)
  rw [extendUpdate]
  simp only [assign]
  rw [eval_lease hlease rfl]
  refine congrArg Except.ok (funext fun column => ?_)
  cases column <;> rfl

/-- The insert of a job's row is rejected by its tier, or by its id, or it is appended. -/
theorem insertJob_of (r : JobRecord) :
    (s.insertJob r).map (Tables.of T) =
      if r.ValidTier then
        if s.jobs.insert r = none then .error (.database .uniqueViolation)
        else .ok { Tables.of T s with jobs := (s.jobs.rows ++ [r]).map (JobRecord.row T) }
      else .error (.database .checkViolation) := by
  unfold insertJob
  by_cases hvalid : r.ValidTier
  · rw [dif_pos hvalid, if_pos hvalid]
    split
    · next hinsert => rw [if_pos hinsert]; rfl
    · next jobs hinsert =>
      rw [if_neg (by simp [hinsert])]
      simp only [Except.map, Tables.of, Table.rows_insert hinsert]
  · rw [dif_neg hvalid, if_neg hvalid]
    rfl

/-- `enqueue`, as its statements run it. -/
theorem enqueue_of (job : NewJob) :
    (Tables.of T s).enqueue T env job =
      ((s.enqueue job).map fun x => (x.1, Tables.of T x.2)).mapError Failure.error := by
  let x := Tables.ctx T env (job.params T)
  have hassign : assign x jobsTable.default enqueueInsert.values = .ok (job.record.row T) := by
    refine congrArg Except.ok (funext fun column => ?_)
    cases column <;> rfl
  have hset : jobsTable.set x enqueueInsert.values jobsTable.default =
      if job.record.ValidTier then .ok (job.record.row T) else .error .check := by
    rw [TableDef.set, hassign]
    simp only [bind, Except.bind, check_row]
    split_ifs <;> rfl
  have hrun := InsertInto.run_map (i := enqueueInsert) rfl hset (nodup_jobKeys T s)
  have hmem : job.record.row T jobsTable.key ∈ s.jobs.rows.map (fun r => r.row T jobsTable.key) ↔
      s.jobs.insert job.record = none := by
    rw [Table.insert_eq_none, ne_eq, Table.find?_eq_none, List.mem_map]
    simp [jobsTable]
  have hinsert : ((s.insertJob job.record >>= fun s => Except.ok ((), s)).map fun x =>
      (x.1, Tables.of T x.2)) =
        ((s.insertJob job.record).map (Tables.of T)).map fun t => ((), t) := by
    cases s.insertJob job.record <;> rfl
  rw [Tables.enqueue, PostgresStore.enqueue]
  cases job.validate with
  | error e => rfl
  | ok _ =>
    show ((enqueueInsert.run jobsTable jobsTable.default x
        (s.jobs.rows.map (JobRecord.row T))).mapError Failure.ofFault >>= _) =
      ((s.insertJob job.record >>= fun s => Except.ok ((), s)).map _).mapError Failure.error
    rw [hrun, hinsert, insertJob_of]
    simp only [hmem]
    split_ifs <;> rfl

/-! ### Clauses built at run time -/

/-- The row comparison of the keyset bound. -/
theorem rowBelow_position (r : JobRecord) (createdAt : DateTime) (id : Ulid) :
    rowBelow T.engine [some (.time r.createdAt), some (.text (T.toString r.id))]
        [some (.time createdAt), some (.text (T.toString id))] =
      some (decide (r.position < toLex (createdAt, id))) := by
  simp only [rowBelow, Cell.time.injEq, Cell.text.injEq, T.toString_inj]
  rw [JobRecord.position]
  by_cases htime : r.createdAt = createdAt
  · by_cases hid : r.id = id
    · simp [htime, hid]
    · simp [Prod.Lex.toLex_lt_toLex, htime, hid, UlidText.engine, T.before_toString]
  · simp [Prod.Lex.toLex_lt_toLex, htime, UlidText.engine]

/-- Whatever is bound after them, the clauses say `p` of a record; and each value bound is that
    of a placeholder. -/
structure Clauses.Says (T : UlidText) (env : ServerEnv) (b : Clauses) (p : JobRecord → Bool) :
    Prop where
  holds : ∀ rest r, holds (Tables.ctx T env (b.params ++ rest)) b.conds (r.row T) = p r
  arity : highest (b.conds.map Cond.arity) = b.params.length

namespace Clauses.Says

variable {b : Clauses} {p : JobRecord → Bool} {cond : Nat → Cond JobColumn Cell}

/-- The value pushed last stands under its own placeholder. -/
theorem scalar_push (T : UlidText) (env : ServerEnv) (params rest : List (Param Cell))
    (value : Cell) :
    (Tables.ctx T env ((params ++ [bound value]) ++ rest)).scalar (params ++ [bound value]).length =
      some value := by
  simp

/-- **A pushed clause** is about the pushed value, and the clauses before it keep theirs. -/
theorem push (h : b.Says T env p) {value : Cell} {q : JobRecord → Bool}
    (hcond : ∀ params n r, (Tables.ctx T env params).scalar n = some value →
      ((cond n).eval (Tables.ctx T env params) (r.row T) = some true ↔ q r))
    (harity : ∀ n, (cond n).arity = n) :
    (b.push value cond).Says T env fun r => p r && q r := by
  refine ⟨fun rest r => ?_, ?_⟩
  · have hold := h.holds (bound value :: rest) r
    have hnew := hcond _ _ r (scalar_push T env b.params rest value)
    rw [List.append_cons] at hold
    show Sql.holds (Tables.ctx T env (b.params ++ [bound value] ++ rest)) (b.conds ++ _) _ = _
    rw [holds_append, hold]
    congr 1
    rw [Bool.eq_iff_iff, ← hnew, Sql.holds, List.all_cons, List.all_nil, Bool.and_true,
      decide_eq_true_iff]
  · simp only [Clauses.push, List.map_append, highest_append, h.arity, List.length_append]
    simp [highest, harity]

/-- A field that is not set adds nothing. -/
theorem pushSome {α : Type} (h : b.Says T env p) {value : Option α} {cell : α → Cell}
    {q : α → JobRecord → Bool}
    (hcond : ∀ a params n r, (Tables.ctx T env params).scalar n = some (cell a) →
      ((cond n).eval (Tables.ctx T env params) (r.row T) = some true ↔ q a r))
    (harity : ∀ n, (cond n).arity = n) :
    (b.pushSome (value.map cell) cond).Says T env fun r => p r && value.all (q · r) := by
  cases value with
  | none => simpa [Clauses.pushSome] using h
  | some a => simpa [Clauses.pushSome] using h.push (hcond a) harity

/-- The builder adds the conditions on kind and status, where they are asked for. -/
theorem pushKind (h : b.Says T env p) (kind : Option String) (status : Option Status) :
    (b.pushKind kind status).Says T env
      fun r => p r && kind.all (r.kind = ·) && status.all (r.status = ·) := by
  refine (h.pushSome (fun a params n r hn => ?_) fun n => ?_).pushSome
    (fun a params n r hn => ?_) fun n => ?_
  · simp only [is, Cond.eval, Term.eval, hn]
    simp
  · exact Nat.zero_max n
  · simp only [is, Cond.eval, Term.eval, hn]
    simp
  · exact Nat.zero_max n

/-- **The keyset bound** is on the position of a row. -/
theorem pushCursor (h : b.Says T env p) (cursor : Option (DateTime × Ulid)) :
    (b.pushCursor T cursor).Says T env
      fun r => p r && cursor.all (fun cursor => r.position < toLex cursor) := by
  cases cursor with
  | none => simpa [Clauses.pushCursor] using h
  | some cursor =>
    obtain ⟨createdAt, id⟩ := cursor
    refine ⟨fun rest r => ?_, ?_⟩
    · let params := b.params ++ [bound (.time createdAt)] ++ [bound (.text (T.toString id))]
      have hold := h.holds (bound (.time createdAt) :: bound (.text (T.toString id)) :: rest) r
      rw [List.append_cons, List.append_cons] at hold
      have hts := scalar_push T env b.params
        (bound (.text (T.toString id)) :: rest) (.time createdAt)
      rw [List.append_cons] at hts
      have hid := scalar_push T env (b.params ++ [bound (.time createdAt)]) rest
        (.text (T.toString id))
      show Sql.holds (Tables.ctx T env (params ++ rest)) (b.conds ++ _) _ = _
      rw [holds_append, hold]
      congr 1
      rw [Sql.holds, List.all_cons, List.all_nil, Bool.and_true, Cond.eval]
      simp only [List.map_cons, List.map_nil, Term.eval, params, hts, hid]
      show decide (rowBelow T.engine [some (.time r.createdAt), some (.text (T.toString r.id))] _ =
        some true) = _
      rw [rowBelow_position]
      simp
    · simp only [Clauses.pushCursor, List.map_append, highest_append, h.arity, List.length_append]
      simp only [highest, List.map_cons, List.map_nil, Cond.arity, Term.arity, List.foldr_cons,
        List.foldr_nil, List.length_cons, List.length_nil, List.cons_append, List.nil_append]
      omega

end Clauses.Says

/-- `cleanup`, as its statement runs it. -/
theorem cleanup_of (criteria : CleanupCriteria) :
    (Tables.of T s).cleanup T env criteria =
      ((s.cleanup criteria).map fun x => (x.1, Tables.of T x.2)).mapError Failure.error := by
  have hfirst : (Clauses.mk [bound (.time criteria.finishedBefore)] [.isNotNull (.col .finishedAt),
      .cmp .lt (.col .finishedAt) (.param 1)]).Says T env
        fun r => r.finishedAt.any (· < criteria.finishedBefore) := by
    refine ⟨fun rest r => ?_, rfl⟩
    cases hfinished : r.finishedAt <;> simp [hfinished, UlidText.engine]
  have hclauses := hfirst.pushKind criteria.kind criteria.status
  have hp : ∀ r ∈ s.jobs.rows,
      holds (Tables.ctx T env criteria.statement.1) criteria.statement.2.conds (r.row T) =
        criteria.matches r := by
    intro r _
    have hr := hclauses.holds [] r
    rwa [List.append_nil] at hr
  have hrun := DeleteFrom.run_map hclauses.arity.symm hp
  -- an entry goes exactly when its job does
  let keeps (e : JournalRow) : Bool :=
    !((s.jobs.rows.filter criteria.matches).map (JobRecord.row T)).any fun r => r .id = e .jobId
  have hkeeps : ∀ e ∈ s.journal.rows,
      keeps (e.row T) = !((s.jobs.find? e.jobId).any criteria.matches) := by
    intro e _
    refine congrArg not ?_
    rw [Bool.eq_iff_iff, List.any_eq_true, Option.any_eq_true]
    constructor
    · rintro ⟨_, hrow, hid⟩
      obtain ⟨r, hmem, rfl⟩ := List.mem_map.mp hrow
      obtain ⟨hr, hmatches⟩ := List.mem_filter.mp hmem
      have hid : r.id = e.jobId := by simpa [JournalRecord.row] using hid
      exact ⟨r, Table.find?_eq_some.mpr ⟨hr, hid⟩, hmatches⟩
    · rintro ⟨r, hfind, hmatches⟩
      obtain ⟨hr, hid⟩ := Table.find?_eq_some.mp hfind
      refine ⟨r.row T, List.mem_map_of_mem (List.mem_filter.mpr ⟨hr, hmatches⟩), ?_⟩
      simp [JournalRecord.row, hid]
  have hkept := filter_map_of hkeeps
  rw [Tables.cleanup, PostgresStore.cleanup]
  show ((criteria.statement.2.run (Tables.ctx T env criteria.statement.1)
    (s.jobs.rows.map (JobRecord.row T))).mapError Failure.ofFault >>= _) = _
  rw [hrun]
  show Except.ok (_, Tables.mk _ (List.filter keeps (s.journal.rows.map (JournalRecord.row T))) _) =
    _
  rw [hkept, List.length_map, ← List.countP_eq_length_filter]
  rfl

end Venturi
