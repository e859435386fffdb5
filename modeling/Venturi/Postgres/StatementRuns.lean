import Venturi.Postgres.StatementCalls
import Venturi.Postgres.Storage
import Venturi.Worker.Recovery
import Venturi.Worker.Selection

namespace Venturi

open Sql PostgresStore

/-!
# Runs of the statements

* `selectJobs_of`, `claimNext_of`, `queryJobs_of`, … — a query returns the records the model's
  selects: every row it reads parses.
* `exec_of` — one call.
* `PostgresStore.Readable.step` — a row can be read while the instants stored are in range.
* `statements_refine` — a run of calls against the tables behind a storage is a run of the model
  behind it, with the same replies.
-/

variable {T : UlidText} {env : ServerEnv} {s s' : PostgresStore}

/-! ### The queries -/

section Queries

variable {params : List (Param Cell)} {p : JobRecord → Bool} {q : Select JobColumn Cell}
  {κ : Type} [LinearOrder κ] {key : JobRecord → κ}

/-- `query_opt` over a statement with `LIMIT 1` returns the first row. -/
theorem optional_head? {α β : Type} (f : α → β) (l : List α) :
    optional ((l.take 1).map f) = .ok (l.head?.map f) := by
  cases l <;> rfl

/-- A row of the table that was read, if any, is decoded as itself. -/
theorem mapM_option (hs : s.Readable) {r? : Option JobRecord}
    (hr : ∀ r ∈ r?, r ∈ s.jobs.rows) :
    (r?.map fun r => jobColumns.map (r.row T)).mapM (jobFromRow T) = .ok r? := by
  cases r? with
  | none => rfl
  | some r =>
    simp only [Option.map_some, Option.mapM_some]
    rw [jobFromRow_row T (hs.jobs r (hr r rfl))]
    rfl

/-- **The first row** a query selects. -/
theorem selectJob_of (hs : s.Readable) (hcolumns : q.columns = jobColumns)
    (harity : params.length = q.arity)
    (hbound : q.bound (Tables.ctx T env params) = .ok (some 1))
    (hp : ∀ r ∈ s.jobs.rows, holds (Tables.ctx T env params) q.conds (r.row T) = p r)
    (hkey : ∀ r ∈ s.jobs.rows, ∀ r' ∈ s.jobs.rows, p r → p r' →
      (key r ≤ key r' ↔ sorted T.engine (r.row T) (r'.row T) q.order = true)) :
    (Tables.of T s).selectJob T env q params =
      .ok (orderBy key ((s.jobs.scan (env.toEnv T).rank).filter p)).head? := by
  rw [Tables.selectJob, run_select_of hcolumns harity hbound hp hkey]
  simp only [Except.mapError, bind, Except.bind, cut, optional_head?]
  refine mapM_option hs fun r hr => ?_
  have hmem := mem_orderBy.mp (List.mem_of_mem_head? hr)
  exact Table.mem_scan.mp (List.mem_of_mem_filter hmem)

/-- **The rows** a query selects. -/
theorem selectJobs_of (hs : s.Readable) {limit : Option Nat} (hcolumns : q.columns = jobColumns)
    (harity : params.length = q.arity) (hbound : q.bound (Tables.ctx T env params) = .ok limit)
    (hp : ∀ r ∈ s.jobs.rows, holds (Tables.ctx T env params) q.conds (r.row T) = p r)
    (hkey : ∀ r ∈ s.jobs.rows, ∀ r' ∈ s.jobs.rows, p r → p r' →
      (key r ≤ key r' ↔ sorted T.engine (r.row T) (r'.row T) q.order = true)) :
    (Tables.of T s).selectJobs T env q params =
      .ok (cut limit (orderBy key ((s.jobs.scan (env.toEnv T).rank).filter p))) := by
  rw [Tables.selectJobs, run_select_of hcolumns harity hbound hp hkey]
  refine mapM_jobFromRow fun r hr => hs.jobs r ?_
  have hmem : r ∈ orderBy key ((s.jobs.scan (env.toEnv T).rank).filter p) := by
    cases limit with
    | none => exact hr
    | some n => exact List.mem_of_mem_take hr
  exact Table.mem_scan.mp (List.mem_of_mem_filter (mem_orderBy.mp hmem))

end Queries

section Order

variable {r r' : JobRow} {c : JobColumn} {order : List (JobColumn × Dir)}

/-- An `ORDER BY` of a time and further terms decides by the time, then by those. -/
theorem sorted_time {a b : DateTime} (hr : r c = some (.time a)) (hr' : r' c = some (.time b)) :
    sorted T.engine r r' ((c, .asc) :: order) =
      if a = b then sorted T.engine r r' order else decide (a < b) := by
  simp [sorted, hr, hr', Dir.before, UlidText.engine]

theorem sorted_int {a b : Int} (hr : r c = some (.int a)) (hr' : r' c = some (.int b)) :
    sorted T.engine r r' ((c, .asc) :: order) =
      if a = b then sorted T.engine r r' order else decide (a < b) := by
  simp [sorted, hr, hr', Dir.before, UlidText.engine]

end Order

/-- `find_stale`, as its statement runs it. -/
theorem findStale_of (hs : s.Readable) :
    (Tables.of T s).findStale T env = .ok (s.findStale env.now (env.toEnv T).rank) := by
  have hbound : staleSelect.bound (Tables.ctx T env []) = .ok (some 100) := rfl
  refine selectJobs_of hs rfl rfl hbound (fun r _ => ?_) fun r _ r' _ hr hr' => ?_
  · rw [Bool.eq_iff_iff, JobRecord.stale_iff]
    simp [staleSelect]
  · obtain ⟨-, expires, hexpires, -⟩ := JobRecord.stale_iff.mp hr
    obtain ⟨-, expires', hexpires', -⟩ := JobRecord.stale_iff.mp hr'
    rw [hexpires, hexpires', staleSelect, sorted_time (a := expires) (b := expires')]
    · show expires ≤ expires' ↔ _
      split_ifs with heq
      · simp [heq, sorted]
      · simp [lt_iff_le_and_ne, heq]
    · simp [hexpires]
    · simp [hexpires']

/-- `dedup_candidate`, as its statement runs it. -/
theorem dedupCandidate_of (hs : s.Readable) (kind dedupKey : String) :
    (Tables.of T s).dedupCandidate T env kind dedupKey =
      .ok (s.dedupCandidate (env.toEnv T).rank kind dedupKey) := by
  refine selectJob_of hs rfl rfl rfl (fun r _ => ?_) fun r _ r' _ hr hr' => ?_
  · rw [Bool.eq_iff_iff, JobRecord.dedupCandidate_iff]
    simp [candidateSelect]
  · rw [candidateSelect, sorted_time rfl rfl]
    split_ifs with heq
    · simp [heq, sorted]
    · simp [lt_iff_le_and_ne, heq]

/-- At most one row is stored under an id. -/
theorem filter_id {rows : List JobRecord} (h : rows.Perm s.jobs.rows) (id : Ulid) :
    rows.filter (fun r => r.id = id) = (s.jobs.find? id).toList := by
  have hnodup : (rows.filter fun r => r.id = id).Nodup :=
    (h.nodup_iff.mpr s.jobs.nodup.of_map).filter _
  have hperm : (rows.filter fun r => r.id = id).Perm (s.jobs.find? id).toList := by
    refine (List.perm_ext_iff_of_nodup hnodup (by cases s.jobs.find? id <;> simp)).mpr fun r => ?_
    simp [Table.find?_eq_some, h.mem_iff]
  cases hfind : s.jobs.find? id with
  | none => exact (hfind ▸ hperm).eq_nil
  | some r => exact (hfind ▸ hperm).eq_singleton

/-- `job`, as its statement runs it. -/
theorem job_of (hs : s.Readable) (id : Ulid) :
    (Tables.of T s).job T env id = .ok (s.job id) := by
  have hrun : jobSelect.run (Tables.ctx T env [bound (.text (T.toString id))])
      ((Tables.of T s).scanJobs env) =
        .ok ((cut none (orderBy (fun _ => ()) ((s.jobs.scan (env.toEnv T).rank).filter
          fun r => r.id = id))).map fun r => jobColumns.map (r.row T)) := by
    refine run_select_of rfl rfl rfl (fun r _ => ?_) fun r _ r' _ _ _ => ?_
    · simp [jobSelect]
    · simp [jobSelect, sorted]
  rw [Tables.job, Tables.selectJob, hrun, filter_id Table.perm_scan]
  have hone : optional ((cut none (orderBy (fun _ => ()) (s.jobs.find? id).toList)).map
      fun r => jobColumns.map (r.row T)) =
        .ok ((s.jobs.find? id).map fun r => jobColumns.map (r.row T)) := by
    cases s.jobs.find? id <;> rfl
  simp only [Except.mapError, bind, Except.bind, hone]
  exact mapM_option hs fun r hr => Table.mem_of_find? hr

/-- Journal rows are decoded as the entries they store. -/
theorem mapM_journalFromRow {es : List JournalRecord} (h : ∀ e ∈ es, e.Readable) :
    (es.map fun e => journalColumns.map (e.row T)).mapM (journalFromRow T) = .ok es := by
  induction es with
  | nil => rfl
  | cons e es ih =>
    obtain ⟨he, hes⟩ := List.forall_mem_cons.mp h
    rw [List.map_cons, List.mapM_cons, journalFromRow_row T he, ih hes]
    rfl

/-- `journal`, as its statement runs it. -/
theorem journalOf_of (hs : s.Readable) (id : Ulid) :
    (Tables.of T s).journalOf T env id = .ok (s.journalOf id) := by
  let rank (e : JournalRecord) := env.rank (some (.int e.id))
  let ofJob (e : JournalRecord) : Bool := e.jobId = id
  let x := Tables.ctx T env [bound (.text (T.toString id))]
  have hscan : (Tables.of T s).scanJournal env =
      (orderBy rank s.journal.rows).map (JournalRecord.row T) := by
    refine (List.map_insertionSort _ _ _ _ fun e _ e' _ => ?_).symm
    exact Iff.rfl
  have hbound : journalSelect.bound x = .ok none := rfl
  have harity : x.bind journalSelect.arity = .ok () := rfl
  have hpick : journalSelect.pick x ((orderBy rank s.journal.rows).map (JournalRecord.row T)) =
      .ok ((orderBy JournalRecord.id ((orderBy rank s.journal.rows).filter ofJob)).map
        (JournalRecord.row T)) := by
    refine Select.pick_map hbound (fun e _ => ?_) fun e _ e' _ _ _ => ?_
    · simp [journalSelect, JournalRecord.row, ofJob, x]
    · simp [journalSelect, sorted, JournalRecord.row, Dir.before, UlidText.engine, x]
      omega
  -- the identity is unique, so the order of the scan does not show
  have hids : (((orderBy rank s.journal.rows).filter ofJob).map JournalRecord.id).Nodup := by
    refine List.Nodup.sublist (List.filter_sublist.map _) ?_
    refine (perm_orderBy.map JournalRecord.id).nodup_iff.mpr ?_
    exact List.pairwise_map.mpr (s.journal.increasing.imp Nat.ne_of_lt)
  have hselect : orderBy JournalRecord.id ((orderBy rank s.journal.rows).filter ofJob) =
      s.journalOf id := orderBy_perm (perm_orderBy.filter ofJob) hids
  have hrun : journalSelect.run x ((Tables.of T s).scanJournal env) =
      .ok ((s.journalOf id).map fun e => journalColumns.map (e.row T)) := by
    rw [Select.run, harity, hscan, hpick, hselect]
    simp only [bind, Except.bind, pure, Except.pure, List.map_map]
    rfl
  rw [Tables.journalOf, hrun]
  refine mapM_journalFromRow fun e he => hs.journal e ?_
  exact (mem_journalOf.mp he).1

/-- `next_visible_at`, as its statement runs it. -/
theorem nextVisibleAt_of (hs : s.Readable) (kinds : List String) :
    (Tables.of T s).nextVisibleAt T env kinds = .ok (s.nextVisibleAt env.now kinds) := by
  let x := Tables.ctx T env [.array (kinds.map .text)]
  let upcoming (r : JobRecord) : Bool :=
    r.status = .pending ∧ r.kind ∈ kinds ∧ env.now < r.visibleAt
  have hrows : (s.jobs.rows.map (JobRecord.row T)).filter (holds x nextVisibleSelect.conds) =
      (s.jobs.rows.filter upcoming).map (JobRecord.row T) := by
    refine filter_map_of fun r _ => ?_
    simp [nextVisibleSelect, upcoming, x, UlidText.engine]
  have harity : x.bind (highest (nextVisibleSelect.conds.map Cond.arity)) = .ok () := rfl
  have hleast : least T.engine
      (((s.jobs.rows.filter upcoming).map JobRecord.visibleAt).map (some ∘ Cell.time)) =
        (s.nextVisibleAt env.now kinds).map .time := least_map (fun _ _ => rfl) _
  have hrun : nextVisibleSelect.run x (Tables.of T s).jobs =
      .ok ((s.nextVisibleAt env.now kinds).map .time) := by
    show nextVisibleSelect.run x (s.jobs.rows.map (JobRecord.row T)) = _
    rw [SelectMin.run, harity, hrows, List.map_map]
    rw [List.map_map] at hleast
    exact congrArg Except.ok hleast
  rw [Tables.nextVisibleAt, hrun]
  refine rowGet_eq (nullable_map fun t ht => Cell.time?_of_le ?_)
  obtain ⟨r, hr, rfl⟩ := List.mem_map.mp (List.min?_mem ht)
  exact (hs.jobs r (List.mem_of_mem_filter hr)).times _ (by simp [JobRecord.times])

/-! ### The claim -/

section Claim

variable {params : List (Param Cell)} {kinds : List String} {floor : Int} {lease : Duration}
  {claimedBy : String}

/-- The subselect finds the row the model claims. -/
theorem claimSelect_pick :
    claimSelect.pick (Tables.ctx T env (claimParams kinds floor lease claimedBy))
        ((Tables.of T s).scanJobs env) =
      .ok ((orderBy (fun r => toLex (r.priority, r.createdAt))
        ((s.jobs.scan (env.toEnv T).rank).filter
          (JobRecord.eligible kinds floor env.now))).head?.toList.map (JobRecord.row T)) := by
  let x := Tables.ctx T env (claimParams kinds floor lease claimedBy)
  have hbound : claimSelect.bound x = .ok (some 1) := rfl
  rw [scanJobs_of, ← List.take_one]
  refine Select.pick_map hbound (fun r _ => ?_) fun r _ r' _ _ _ => ?_
  · rw [Bool.eq_iff_iff, JobRecord.eligible_iff]
    simp [claimSelect, claimParams, x, UlidText.engine]
  · show _ ↔ sorted T.engine _ _ claimSelect.order = true
    rw [claimSelect, Prod.Lex.toLex_le_toLex, sorted_int rfl rfl, sorted_time rfl rfl]
    split_ifs with hpriority hcreated
    · simp [hpriority, hcreated, sorted]
    · simp [hpriority, lt_iff_le_and_ne, hcreated]
    · simp [hpriority]

/-- `integer` addition of one. -/
theorem add_one (n : Nat) : T.engine.add (.int n) (.int 1) =
    if n + 1 ≤ i32Max then .ok (.int ((n + 1 : Nat) : Int)) else .error .outOfRange := by
  have hrange : (-(2 ^ 31) ≤ (n : Int) + 1 ∧ (n : Int) + 1 ≤ i32Max) ↔ n + 1 ≤ i32Max := by omega
  simp only [UlidText.engine, hrange, Nat.cast_add, Nat.cast_one]

/-- The claim of a row, unless its run count is at the end of the column. -/
theorem assign_claim (hlease : env.now + lease ≤ maxUtc) (r : JobRecord) :
    assign (Tables.ctx T env (claimParams kinds floor lease claimedBy)) (r.row T)
        claimUpdate.sets =
      if r.runCount + 1 ≤ i32Max then .ok ((r.claim claimedBy (env.now + lease)).row T)
      else .error .outOfRange := by
  let x := Tables.ctx T env (claimParams kinds floor lease claimedBy)
  have hcount : (Expr.add (.term (.col .runCount)) (.term (lit (.int 1)))).eval x (r.row T) =
      if r.runCount + 1 ≤ i32Max then .ok (some (.int ((r.runCount + 1 : Nat) : Int)))
      else .error .outOfRange := by
    have hengine : x.engine = T.engine := rfl
    rw [Expr.eval_add (u := .int r.runCount) (v := .int 1) rfl rfl, hengine, add_one]
    split_ifs <;> rfl
  rw [claimUpdate]
  simp only [assign]
  rw [hcount, eval_lease hlease rfl]
  split_ifs with hmax
  · refine congrArg Except.ok (funext fun column => ?_)
    cases column <;> rfl
  · rfl

/-- The `SET` of the claim on the row of a job: it is that of the claimed job, or the run count is
    out of range. -/
theorem set_claim (hlease : env.now + lease ≤ maxUtc) {r : JobRecord} (hvalid : r.ValidTier) :
    jobsTable.set (Tables.ctx T env (claimParams kinds floor lease claimedBy)) claimUpdate.sets
        (r.row T) =
      if r.runCount + 1 ≤ i32Max then .ok ((r.claim claimedBy (env.now + lease)).row T)
      else .error .outOfRange := by
  have hclaimed : (r.claim claimedBy (env.now + lease)).ValidTier := hvalid
  rw [TableDef.set, assign_claim hlease]
  by_cases hmax : r.runCount + 1 ≤ i32Max
  · simp only [if_pos hmax, bind, Except.bind, check_row, if_pos hclaimed]
    rfl
  · simp only [if_neg hmax]
    rfl

/-- No row is claimed. -/
theorem run_claim_none (h : claimSelect.pick (Tables.ctx T env
      (claimParams kinds floor lease claimedBy)) ((Tables.of T s).scanJobs env) = .ok []) :
    claimUpdate.run jobsTable (Tables.ctx T env (claimParams kinds floor lease claimedBy))
        ((Tables.of T s).scanJobs env) (s.jobs.rows.map (JobRecord.row T)) =
      .ok ([], s.jobs.rows.map (JobRecord.row T)) := by
  let x := Tables.ctx T env (claimParams kinds floor lease claimedBy)
  have hselect : claimUpdate.target.select x ((Tables.of T s).scanJobs env) =
      .ok fun _ => false := by
    rw [claimUpdate, Target.select, h]
    rfl
  have hset : ∀ r ∈ s.jobs.rows, (fun _ => false) r = true →
      jobsTable.set x claimUpdate.sets (r.row T) = if True then .ok (r.row T) else .error .check :=
    fun _ _ h => Bool.noConfusion h
  have hrun := Update.run_map rfl hselect (fun _ _ => rfl) hset (fun _ _ _ => rfl)
    (nodup_jobKeys T s)
  show claimUpdate.run jobsTable x _ _ = _
  simpa using hrun

/-- The row the subselect found is claimed. -/
theorem run_claim_some (hlease : env.now + lease ≤ maxUtc) {r : JobRecord} (hr : r ∈ s.jobs.rows)
    (h : claimSelect.pick (Tables.ctx T env (claimParams kinds floor lease claimedBy))
      ((Tables.of T s).scanJobs env) = .ok [r.row T]) :
    claimUpdate.run jobsTable (Tables.ctx T env (claimParams kinds floor lease claimedBy))
        ((Tables.of T s).scanJobs env) (s.jobs.rows.map (JobRecord.row T)) =
      if r.runCount + 1 ≤ i32Max then
        .ok ([(r.claim claimedBy (env.now + lease)).row T],
          (s.jobs.rows.map fun r' => if r'.id = r.id then r'.claim claimedBy (env.now + lease)
            else r').map (JobRecord.row T))
      else .error .outOfRange := by
  let x := Tables.ctx T env (claimParams kinds floor lease claimedBy)
  have hselect : claimUpdate.target.select x ((Tables.of T s).scanJobs env) =
      .ok fun r' => (r.row T .id).isSome ∧ r' .id = r.row T .id := by
    rw [claimUpdate, Target.select, h]
    rfl
  have hset : ∀ r' ∈ s.jobs.rows, decide (r'.id = r.id) = true →
      jobsTable.set x claimUpdate.sets (r'.row T) =
        if r'.runCount + 1 ≤ i32Max then .ok ((r'.claim claimedBy (env.now + lease)).row T)
        else .error .outOfRange := fun r' hr' _ => set_claim hlease (s.tiers r' hr')
  have hrun := Update.run_map (p := fun r' => decide (r'.id = r.id))
    (g := fun r' => r'.claim claimedBy (env.now + lease)) rfl hselect (by simp) hset
    (fun _ _ _ => rfl) (nodup_jobKeys T s)
  have hfind : s.jobs.find? r.id = some r := Table.find?_key hr
  have hvalid : (∀ r' ∈ s.jobs.rows, decide (r'.id = r.id) = true → r'.runCount + 1 ≤ i32Max) ↔
      r.runCount + 1 ≤ i32Max := by
    refine ⟨fun h => h r hr (by simp), fun h r' hr' hid => ?_⟩
    rwa [s.jobs.eq_of_key_eq hr' hr (by simpa using hid)]
  rw [filter_id (List.Perm.refl _), hfind] at hrun
  simp only [hvalid] at hrun
  show claimUpdate.run jobsTable x _ _ = _
  simpa using hrun

end Claim

/-- A claimed row can be read. -/
theorem readable_claim {r : JobRecord} {claimedBy : String} {expires : DateTime} (h : r.Readable)
    (hmax : r.runCount + 1 ≤ i32Max) (hexpires : expires ≤ maxUtc) :
    (r.claim claimedBy expires).Readable := by
  refine ⟨hmax, fun t ht => ?_⟩
  have htimes : t = expires ∨ t ∈ r.times := by
    simp only [JobRecord.times, JobRecord.claim, Option.toList_some] at ht ⊢
    simp only [List.mem_append, List.mem_cons, List.not_mem_nil, or_false] at ht ⊢
    tauto
  rcases htimes with rfl | ht
  · exact hexpires
  · exact h.times t ht

/-- `claim_next`, as its statement runs it. -/
theorem claimNext_of (hs : s.Readable) (kinds : List String) (floor : Int) {lease : Duration}
    (claimedBy : String) (hlease : env.now + lease ≤ maxUtc) :
    (Tables.of T s).claimNext T env kinds floor lease claimedBy =
      ((s.exec (env.toEnv T) (.claimNext kinds floor lease claimedBy)).1.mapError Failure.error,
        Tables.of T (s.exec (env.toEnv T) (.claimNext kinds floor lease claimedBy)).2) := by
  have hpick : claimSelect.pick (Tables.ctx T env (claimParams kinds floor lease claimedBy))
      ((Tables.of T s).scanJobs env) = _ := claimSelect_pick
  have hrows : (Tables.of T s).jobs = s.jobs.rows.map (JobRecord.row T) := rfl
  have hexec : s.exec (env.toEnv T) (.claimNext kinds floor lease claimedBy) =
      s.commit (s.claimNext env.now (env.toEnv T).rank kinds floor lease claimedBy) := rfl
  rw [hexec, PostgresStore.claimNext, Tables.claimNext, Tables.updateJobs, hrows]
  generalize hfirst : (orderBy (fun r => toLex (r.priority, r.createdAt))
    ((s.jobs.scan (env.toEnv T).rank).filter (JobRecord.eligible kinds floor env.now))).head? =
      first at hpick
  cases first with
  | none =>
    rw [run_claim_none hpick]
    rfl
  | some r =>
    have hr : r ∈ s.jobs.rows := by
      have hmem := mem_orderBy.mp (List.mem_of_mem_head? hfirst)
      exact Table.mem_scan.mp (List.mem_of_mem_filter hmem)
    rw [run_claim_some hlease hr hpick]
    by_cases hmax : r.runCount + 1 ≤ i32Max
    · have hvalid : ∀ r' ∈ s.jobs.rows, decide (r'.id = r.id) = true →
          (r'.claim claimedBy (env.now + lease)).ValidTier := fun r' hr' _ => s.tiers r' hr'
      have hread : jobFromRow T
          (jobColumns.map ((r.claim claimedBy (env.now + lease)).row T)) =
            .ok (r.claim claimedBy (env.now + lease)) :=
        jobFromRow_row T (readable_claim (hs.jobs r hr) hmax hlease)
      simp only [if_pos hmax, PostgresStore.updateJobs, dif_pos hvalid]
      simp only [Except.mapError, bind, Except.bind, pure, Except.pure, List.map_cons, List.map_nil,
        optional, Option.mapM_some, hread]
      simp [commit, Tables.of, Table.update, Functor.map, Except.map]
    · simp only [if_neg hmax]
      rfl

/-! ### The history -/

/-- A bound on the finish time. -/
theorem Clauses.Says.pushFinished {b : Clauses} {p : JobRecord → Bool} (h : b.Says T env p)
    {op : Comparison} {before : DateTime → DateTime → Bool}
    (hop : ∀ a t, op.holds T.engine (.time a) (.time t) = before a t) (limit : Option DateTime) :
    (b.pushSome (limit.map .time) fun n => .cmp op (.col .finishedAt) (.param n)).Says T env
      fun r => p r && limit.all fun t => r.finishedAt.any (before · t) := by
  refine h.pushSome (fun t params n r hn => ?_) fun n => ?_
  · simp only [Cond.eval, Term.eval, hn]
    cases hfinished : r.finishedAt with
    | none => simp [hfinished]
    | some a => simpa [hfinished] using congrArg (· = true) (hop a t)
  · exact Nat.zero_max n

/-- **The clauses of the history query** say what its fields ask. -/
theorem HistoryFilter.clauses_holds (f : HistoryFilter) :
    (f.clauses T).Says T env fun r => f.matches r && f.older r := by
  have hempty : (Clauses.mk [] []).Says T env fun _ => true := ⟨fun _ _ => rfl, rfl⟩
  have hsince (a t : DateTime) :
      Comparison.ge.holds T.engine (.time a) (.time t) = decide (t ≤ a) := by
    show (!decide (a < t)) = decide (t ≤ a)
    rw [← decide_not, decide_eq_decide, not_lt]
  have huntil (a t : DateTime) :
      Comparison.lt.holds T.engine (.time a) (.time t) = decide (a < t) := rfl
  have hclauses := (((hempty.pushKind f.kind f.status).pushFinished hsince
    f.finishedSince).pushFinished huntil f.finishedUntil).pushCursor f.createdBefore
  exact hclauses

/-- The rows descend in creation time and id. -/
theorem sorted_history (r r' : JobRecord) :
    sorted T.engine (r.row T) (r'.row T) [(.createdAt, .desc), (.id, .desc)] = true ↔
      r'.position ≤ r.position := by
  rw [JobRecord.position, JobRecord.position, Prod.Lex.toLex_le_toLex]
  by_cases hcreated : r.createdAt = r'.createdAt
  · by_cases hid : r.id = r'.id
    · simp [sorted, hcreated, hid]
    · have hne : r'.id ≠ r.id := Ne.symm hid
      simp [sorted, hcreated, hid, Dir.before, UlidText.engine, T.before_toString,
        lt_iff_le_and_ne, hne]
  · have hne : r'.createdAt ≠ r.createdAt := Ne.symm hcreated
    simp [sorted, hcreated, hne, Dir.before, UlidText.engine]

/-- Positions are distinct, so the order of the scan does not show. -/
theorem descending_scan (rank : Ulid → Nat) (p : JobRecord → Bool) :
    orderBy (fun r => OrderDual.toDual r.position) ((s.jobs.scan rank).filter p) =
      descending JobRecord.position (s.jobs.rows.filter p) := by
  have hperm : ((s.jobs.scan rank).filter p).Perm (s.jobs.rows.filter p) :=
    Table.perm_scan.filter p
  have hids : (((s.jobs.scan rank).filter p).map JobRecord.id).Nodup :=
    ((Table.perm_scan.map _).nodup_iff.mpr s.jobs.nodup).sublist (List.filter_sublist.map _)
  refine orderBy_perm hperm (List.Nodup.of_map (fun p => (ofLex (OrderDual.ofDual p)).2) ?_)
  rw [List.map_map]
  exact hids

/-- The query of the history, with the clauses and the limit it was built with. -/
theorem selectHistory_of {params : List (Param Cell)} {f : HistoryFilter}
    {conds : List (Cond JobColumn Cell)} {limit : Option (Term JobColumn Cell)} {n : Option Nat}
    (hs : s.Readable) (harity : params.length = (historySelect conds limit).arity)
    (hbound : (historySelect conds limit).bound (Tables.ctx T env params) = .ok n)
    (hholds : ∀ r : JobRecord,
      holds (Tables.ctx T env params) conds (r.row T) = (f.matches r && f.older r)) :
    (Tables.of T s).selectJobs T env (historySelect conds limit) params =
      .ok (cut n (descending JobRecord.position
        (s.jobs.rows.filter fun r => f.matches r && f.older r))) := by
  rw [← descending_scan (env.toEnv T).rank]
  exact selectJobs_of hs rfl harity hbound (fun r _ => hholds r)
    fun r _ r' _ _ _ => (sorted_history r r').symm

/-- What the query reports. -/
def Failure.ofQuery : QueryError → Failure
  | .negativeLimit => .fault .negativeLimit
  | .refused e => .error e

/-- `query_jobs`, as the statement its builder makes runs it. -/
theorem queryJobs_of (hs : s.Readable) (f : HistoryFilter) :
    (Tables.of T s).queryJobs T env f =
      (s.queryJobs f).mapError Failure.ofQuery := by
  let b := f.clauses T
  have hclauses : b.Says T env fun r => f.matches r && f.older r := f.clauses_holds
  rw [Tables.queryJobs, HistoryFilter.statement, PostgresStore.queryJobs]
  cases f.limit with
  | none =>
    have hholds (r : JobRecord) := hclauses.holds [] r
    simp only [List.append_nil] at hholds
    have harity : b.params.length = (historySelect b.conds none).arity := by
      rw [Select.arity, historySelect, hclauses.arity]
      exact (Nat.max_zero _).symm
    exact selectHistory_of hs harity rfl hholds
  | some limit =>
    let params := b.params ++ [bound (.int limit)]
    have harity : params.length = (historySelect b.conds (some (.param params.length))).arity := by
      rw [Select.arity, historySelect, hclauses.arity]
      simp [params, Term.arity]
    have hvalue : (Tables.ctx T env params).scalar params.length = some (.int limit) := by
      simp [params]
    have hbound : (historySelect b.conds (some (.param params.length))).bound
        (Tables.ctx T env params) =
          if 0 ≤ limit then .ok (some limit.toNat) else .error .negativeLimit := by
      rw [Select.bound, historySelect]
      simp only [Option.bind_some, Term.eval, hvalue]
      rfl
    show (Tables.of T s).selectJobs T env (historySelect b.conds (some (.param params.length)))
      params = _
    by_cases hlimit : 0 ≤ limit
    · rw [if_pos hlimit] at hbound
      rw [selectHistory_of hs harity hbound (hclauses.holds [bound (.int limit)])]
      simp only [if_pos hlimit]
      rfl
    · rw [if_neg hlimit] at hbound
      simp only [if_neg hlimit]
      rw [Tables.selectJobs, Select.run, bind_eq harity, Select.pick, hbound]
      rfl

/-! ### One call -/

/-- The lease a call adds to the clock of the database. -/
def Call.lease? : Call → Option Duration
  | .claimNext _ _ lease _ | .extendLease _ _ _ lease => some lease
  | _ => none

/-- A statement that fails leaves the tables as they were. -/
theorem commit_of {α : Type} (x : Except Error (α × PostgresStore)) :
    (Tables.of T s).commit ((x.map fun y => (y.1, Tables.of T y.2)).mapError Failure.error) =
      ((s.commit x).1.mapError Failure.error, Tables.of T (s.commit x).2) := by
  cases x <;> rfl

/-- **A call** against the tables replies as the model does, and leaves its rows, when a lease it
    adds ends in the range of the clock. -/
theorem exec_of (hs : s.Readable) {c : Call}
    (hlease : ∀ lease ∈ c.lease?, env.now + lease ≤ maxUtc) :
    (Tables.of T s).exec T env c =
      ((s.exec (env.toEnv T) c).1.mapError Failure.error,
        Tables.of T (s.exec (env.toEnv T) c).2) := by
  cases c with
  | enqueue job => rw [Tables.exec, enqueue_of, commit_of, PostgresStore.exec]
  | claimNext kinds floor lease claimedBy =>
    exact claimNext_of hs kinds floor claimedBy (hlease lease rfl)
  | settle id claimedBy runNo settlement journal =>
    rw [Tables.exec, settle_of, commit_of, PostgresStore.exec]
  | recover id visibleAt failureCount runNo journal =>
    rw [Tables.exec, recover_of, commit_of]
    rfl
  | extendLease id claimedBy runNo lease =>
    rw [Tables.exec, extendLease_of id claimedBy runNo (hlease lease rfl), commit_of]
    rfl
  | cleanup criteria => rw [Tables.exec, cleanup_of, commit_of, PostgresStore.exec]
  | mergeInto id update journal => rw [Tables.exec, mergeInto_of, commit_of, PostgresStore.exec]
  | journal id => exact congrArg (·, Tables.of T s) (journalOf_of hs id)
  | nextVisibleAt kinds => exact congrArg (·, Tables.of T s) (nextVisibleAt_of hs kinds)
  | dedupCandidate kind dedupKey =>
    exact congrArg (·, Tables.of T s) (dedupCandidate_of hs kind dedupKey)
  | findStale => exact congrArg (·, Tables.of T s) (findStale_of hs)
  | job id => exact congrArg (·, Tables.of T s) (job_of hs id)

/-! ### Rows stay readable -/

/-- The instant a settlement stores. -/
def Settlement.time : Settlement → DateTime
  | .complete finishedAt | .dead finishedAt _ => finishedAt
  | .retry visibleAt _ _ | .pause visibleAt _ | .release visibleAt => visibleAt

/-- The instants a call stores. -/
def Call.times (now : DateTime) : Call → List DateTime
  | .enqueue new => [new.createdAt, new.visibleAt]
  | .claimNext _ _ lease _ | .extendLease _ _ _ lease => [now + lease]
  | .settle _ _ _ settlement entry => [settlement.time, entry.recordedAt]
  | .recover _ visibleAt _ _ entry => [visibleAt, entry.recordedAt]
  | .mergeInto _ _ entry => [entry.recordedAt]
  | _ => []

/-- The end of the lease a call grants is one of the times it writes. -/
theorem Call.mem_times_of_lease {c : Call} {now : DateTime} {lease : Duration}
    (h : c.lease? = some lease) : now + lease ∈ c.times now := by
  cases c <;> simp_all [Call.lease?, Call.times]

/-- **An instant of a job** was there before the step, or is of the call. -/
theorem Job.Step.times {now t : DateTime} {c : Call} {mark : Mark} {job : Option Job} {j' : Job}
    (h : Job.Step now c mark job (some j')) (ht : t ∈ j'.row.times) :
    t ∈ c.times now ∨ ∃ j ∈ job, t ∈ j.row.times := by
  cases h with
  | enqueue => exact .inl (by simpa [JobRecord.times, NewJob.record, Call.times] using ht)
  | claim | extendLease =>
    simp only [JobRecord.times, JobRecord.claim, JobRecord.extend, Call.times] at ht ⊢
    simp at ht ⊢
    tauto
  | @settle _ settlement =>
    cases settlement <;>
      simp [JobRecord.times, Settlement.set, Settlement.time, Call.times] at ht ⊢ <;> tauto
  | recover =>
    simp [JobRecord.times, JobRecord.repend, Call.times] at ht ⊢
    tauto
  | @merge update =>
    cases update <;> simp [JobRecord.times, JobRecord.merge, Call.times] at ht ⊢ <;> tauto

section Integers

variable {e : JournalRecord} {n : Nat}

/-- A guarded update writes no journal entry but the one it was given. -/
theorem mem_journal_guardedUpdate {id : Ulid} {guard : JobRecord → Bool}
    {set : JobRecord → JobRecord} {hset : ∀ r, (set r).id = r.id} {journal : JournalAppend}
    {applied : Bool} (h : s.guardedUpdate id guard set hset journal = .ok (applied, s'))
    (he : e ∈ s'.journal.rows) :
    e ∈ s.journal.rows ∨ ∃ n, e = journal.record id n := by
  obtain ⟨⟨affected, s₁⟩, hupdate, h⟩ := bind_eq_ok.mp h
  rw [← updateJobs_journal hupdate]
  simp only at h
  split at h
  · obtain ⟨s₂, happend, h⟩ := bind_eq_ok.mp h
    obtain ⟨-, rfl⟩ := Prod.mk.inj (Except.ok.inj h)
    unfold PostgresStore.appendJournal at happend
    split at happend
    · obtain rfl := Except.ok.inj happend
      have hentry : e ∈ (s₁.journal.append (journal.record id) (journal.record_id id)).rows := he
      rcases Serial.mem_append.mp hentry with he | rfl
      · exact .inl he
      · exact .inr ⟨_, rfl⟩
    · cases happend
  · obtain ⟨-, rfl⟩ := Prod.mk.inj (Except.ok.inj h)
    exact .inl he

/-- A call appends only its own entry, whose run number it has checked. -/
theorem mem_journal_of_step {event : Event} (h : s.Step event s') (he : e ∈ s'.journal.rows) :
    e ∈ s.journal.rows ∨
      e.runNo ≤ i32Max ∧ e.recordedAt ∈ event.call.times event.env.now := by
  obtain ⟨env, c, reply⟩ := event
  simp only [PostgresStore.Step] at h
  cases c with
  | enqueue job =>
    rcases commit_eq h with ⟨a, hok, -⟩ | ⟨err, -, -, rfl⟩
    · obtain ⟨_, -, hok⟩ := bind_eq_ok.mp hok
      obtain ⟨s₁, hinsert, hok⟩ := bind_eq_ok.mp hok
      obtain ⟨-, rfl⟩ := Prod.mk.inj (Except.ok.inj hok)
      unfold PostgresStore.insertJob at hinsert
      split at hinsert
      · split at hinsert
        · cases hinsert
        · obtain rfl := Except.ok.inj hinsert
          exact .inl he
      · cases hinsert
    · exact .inl he
  | claimNext kinds floor lease claimedBy =>
    rcases commit_eq h with ⟨a, hok, -⟩ | ⟨err, -, -, rfl⟩
    · rw [claimNext_journal hok] at he
      exact .inl he
    · exact .inl he
  | settle id _ runNo _ journal | recover id _ _ runNo journal =>
    -- the entry carries the run number that was checked
    rcases commit_eq h with ⟨a, hok, -⟩ | ⟨err, -, -, rfl⟩
    · obtain ⟨_, -, hok⟩ := bind_eq_ok.mp hok
      obtain ⟨n, hno, hok⟩ := bind_eq_ok.mp hok
      obtain ⟨hno, -⟩ := runNoToDb_eq_ok.mp hno
      refine (mem_journal_guardedUpdate hok he).imp_right ?_
      rintro ⟨k, rfl⟩
      exact ⟨hno, by simp [Call.times, JournalAppend.record]⟩
    · exact .inl he
  | mergeInto id update journal =>
    -- a merge checks the run number of its entry
    rcases commit_eq h with ⟨a, hok, -⟩ | ⟨err, -, -, rfl⟩
    · obtain ⟨n, hno, hok⟩ := bind_eq_ok.mp hok
      obtain ⟨hno, -⟩ := runNoToDb_eq_ok.mp hno
      refine (mem_journal_guardedUpdate hok he).imp_right ?_
      rintro ⟨k, rfl⟩
      exact ⟨hno, by simp [Call.times, JournalAppend.record]⟩
    · exact .inl he
  | extendLease id claimedBy runNo lease =>
    rcases commit_eq h with ⟨a, hok, -⟩ | ⟨err, -, -, rfl⟩
    · obtain ⟨_, -, hok⟩ := bind_eq_ok.mp hok
      obtain ⟨⟨n, s₁⟩, hupdate, hok⟩ := bind_eq_ok.mp hok
      obtain ⟨-, rfl⟩ := Prod.mk.inj (Except.ok.inj hok)
      rw [updateJobs_journal hupdate] at he
      exact .inl he
    · exact .inl he
  | cleanup criteria =>
    simp only [PostgresStore.exec] at h
    rcases commit_eq h with ⟨a, hok, -⟩ | ⟨err, -, -, rfl⟩
    · obtain ⟨-, rfl⟩ := Prod.mk.inj (Except.ok.inj hok)
      exact .inl (Serial.mem_delete.mp he).1
    · exact .inl he
  | journal _ | nextVisibleAt _ | dedupCandidate _ _ | findStale | job _ =>
    obtain ⟨-, rfl⟩ := Prod.mk.inj h
    exact .inl he

end Integers

/-- **Rows stay readable**, when the instants a call stores are in the range of the clock. -/
theorem PostgresStore.Readable.step {event : Event} (hs : s.Readable) (h : s.Step event s')
    (htimes : ∀ t ∈ event.call.times event.env.now, t ≤ maxUtc) : s'.Readable := by
  have hcolumns : s.InColumns := fun r hr => (hs.jobs r hr).runCount
  refine ⟨fun r' hr' => ⟨hcolumns.step h r' hr', fun t ht => ?_⟩, fun e he => ?_⟩
  · have hview' : s'.view r'.id = some ⟨r', s'.journalOf r'.id⟩ :=
      view_eq_some.mpr ⟨Table.find?_key hr', rfl⟩
    -- the row is as before, or was written with the times of the call
    rcases exec_view h r'.id with ⟨hsame, -⟩ | hstep
    · have hr : r' ∈ s.jobs.rows := Table.mem_of_find? (view_eq_some.mp (hsame ▸ hview')).1
      exact (hs.jobs r' hr).times t ht
    · rw [hview'] at hstep
      rcases hstep.times ht with ht | ⟨j, hj, ht⟩
      · exact htimes t ht
      · exact (hs.jobs j.row (Table.mem_of_find? (view_eq_some.mp hj).1)).times t ht
  · rcases mem_journal_of_step h he with he | ⟨hno, ht⟩
    · exact hs.journal e he
    · exact ⟨hno, htimes _ ht⟩

/-! ### Runs -/

/-- A call against the tables, with its reply. -/
structure TablesEvent where
  env : ServerEnv
  call : Call
  reply : Except Failure call.Answer

/-- A call against the tables behind a storage. -/
def Storage.execTables (st : Storage) (T : UlidText) (t : Tables) (env : ServerEnv) (c : Call) :
    Except Failure c.Answer × Tables :=
  st.through Failure.error t (t.exec T env) c

/-- `query_jobs` against the tables behind a storage. -/
def Storage.queryTables (st : Storage) (T : UlidText) (t : Tables) (env : ServerEnv)
    (filter : HistoryFilter) : Except Failure (List JobRecord) := do
  let filter ← (st.filter filter).mapError Failure.error
  t.queryJobs T env filter

/-- The runs of the tables under any calls of any parties. -/
abbrev Tables.Run (st : Storage) (T : UlidText) :
    List (Trace.Move Tables TablesEvent) → Tables → Prop :=
  Trace.Run Tables.empty fun _ t e t' => st.execTables T t e.env e.call = (e.reply, t')

/-- The instants that are stored for the call are in the range of the clock. -/
def Storage.InRange (st : Storage) (e : TablesEvent) : Prop :=
  ∀ c, st.call e.call = .ok c → ∀ t ∈ c.times e.env.now, t ≤ maxUtc

/-- One recorded call, against the tables and against the model. -/
structure Represents (T : UlidText) (m : Trace.Move Tables TablesEvent)
    (m' : Trace.Move PostgresStore Event) : Prop where
  before : m.before = Tables.of T m'.before
  after : m.after = Tables.of T m'.after
  label : ∃ env c reply, m.label = ⟨env, c, reply.mapError Failure.error⟩ ∧
    m'.label = ⟨env.toEnv T, c, reply⟩

section Runs

variable {st : Storage} {c : Call}

/-- A call whose entry is refused adds no lease. -/
theorem lease?_of_entry {e : Error} (h : st.call c = .error (.entry e)) : c.lease? = none := by
  cases c with
  | claimNext | extendLease => exact absurd h Storage.statement_ne_entry
  | _ => rfl

/-- **A call behind a storage** replies as the model does there, and leaves its rows. -/
theorem execTables_of (hs : s.Readable)
    (hrange : ∀ c', st.call c = .ok c' → ∀ t ∈ c'.times env.now, t ≤ maxUtc) :
    st.execTables T (Tables.of T s) env c =
      ((st.exec s (env.toEnv T) c).1.mapError Failure.error,
        Tables.of T (st.exec s (env.toEnv T) c).2) := by
  refine Storage.through_map rfl (fun c' hc => ?_) fun e he => ?_
  · exact exec_of hs fun lease hlease => hrange c' hc _ (Call.mem_times_of_lease hlease)
  · have hnone := lease?_of_entry he
    exact congrArg Prod.fst (exec_of hs (by simp [hnone]))

/-- The instants of a stored event are those of the stored call. -/
theorem readable_step {e : Event} (hs : s.Readable) (h : st.Step s e s')
    (hrange : ∀ c, st.call e.call = .ok c → ∀ t ∈ c.times e.env.now, t ≤ maxUtc) :
    s'.Readable := by
  rcases h.stored with ⟨e', he', hstep⟩ | ⟨-, rfl⟩
  · obtain ⟨c', hc, rfl⟩ := Storage.event_eq_some he'
    exact hs.step hstep (hrange c' hc)
  · exact hs

/-- A query that the storage takes is answered from the tables as from the store. -/
theorem queryTables_of (hs : s.Readable) (filter : HistoryFilter) :
    st.queryTables T (Tables.of T s) env filter =
      (st.queryJobs s filter).mapError Failure.ofQuery := by
  unfold Storage.queryTables Storage.queryJobs
  cases st.filter filter with
  | error e => rfl
  | ok stored => exact queryJobs_of hs stored

/-- **The statements refine the model.** Any calls against the tables behind a storage, at any
    times and whatever order the scans take, as long as the instants they store are in the range
    of the clock, are a run of the model behind that storage: each call gets the model's reply, so
    that none fails but as the model does, and the tables hold the rows of the model's state.  In
    it the history query returns the model's page, for every filter. -/
theorem statements_refine {tr : List (Trace.Move Tables TablesEvent)} {t : Tables}
    (h : Tables.Run st T tr t) (hrange : ∀ m ∈ tr, st.InRange m.label) :
    ∃ tr' s, st.Run tr' s ∧ t = Tables.of T s ∧ List.Forall₂ (Represents T) tr tr' ∧
      ∀ env filter, st.queryTables T t env filter =
        (st.queryJobs s filter).mapError Failure.ofQuery := by
  suffices hrun : ∃ tr' s, st.Run tr' s ∧ s.Readable ∧ t = Tables.of T s ∧
      List.Forall₂ (Represents T) tr tr' by
    obtain ⟨tr', s, hmodel, hs, rfl, hmirrors⟩ := hrun
    exact ⟨tr', s, hmodel, rfl, hmirrors, fun _ filter => queryTables_of hs filter⟩
  induction h with
  | start =>
    have hreadable : PostgresStore.empty.Readable :=
      ⟨fun _ hr => (nomatch hr), fun _ he => (nomatch he)⟩
    exact ⟨[], PostgresStore.empty, .start, hreadable, rfl, .nil⟩
  | @snoc tr t t' e _ hstep ih =>
    obtain ⟨hrange, hhere⟩ := List.forall_mem_append.mp hrange
    have hlast : st.InRange e := hhere _ (List.mem_singleton_self _)
    obtain ⟨tr', s, hmodel, hs, rfl, hmirrors⟩ := ih hrange
    obtain ⟨env, c, reply⟩ := e
    -- the model takes the same call
    obtain ⟨hreply, hafter⟩ := Prod.mk.inj ((execTables_of hs hlast).symm.trans hstep)
    have hstep' : st.Step s ⟨env.toEnv T, c, (st.exec s (env.toEnv T) c).1⟩
        (st.exec s (env.toEnv T) c).2 := rfl
    refine ⟨_, _, hmodel.snoc hstep', readable_step hs hstep' hlast, hafter.symm, ?_⟩
    refine List.rel_append hmirrors (.cons ⟨rfl, hafter.symm, env, c, _, ?_, rfl⟩ .nil)
    rw [hreply]

end Runs

/-- Run a list of calls against the tables. -/
def Tables.replay (st : Storage) (T : UlidText) (t : Tables) :
    List (ServerEnv × Call) → List (Trace.Move Tables TablesEvent) × Tables
  | [] => ([], t)
  | (env, c) :: calls =>
      let (reply, t') := st.execTables T t env c
      let (tr, t'') := t'.replay st T calls
      (⟨t, ⟨env, c, reply⟩, t'⟩ :: tr, t'')

/-- What a list of calls does to the tables is a run. -/
theorem Tables.Run.replay {st : Storage} {tr : List (Trace.Move Tables TablesEvent)} {t : Tables}
    (h : Tables.Run st T tr t) (calls : List (ServerEnv × Call)) :
    Tables.Run st T (tr ++ (t.replay st T calls).1) (t.replay st T calls).2 := by
  induction calls generalizing tr t with
  | nil => simpa [Tables.replay] using h
  | cons ec calls ih =>
    obtain ⟨env, c⟩ := ec
    have hrun := ih (h.snoc (e := ⟨env, c, (st.execTables T t env c).1⟩) rfl)
    rw [List.append_assoc] at hrun
    exact hrun

/-- The labels of a replay are of its calls. -/
theorem Tables.mem_replay {st : Storage} {t : Tables} {calls : List (ServerEnv × Call)}
    {m : Trace.Move Tables TablesEvent} (h : m ∈ (t.replay st T calls).1) :
    (m.label.env, m.label.call) ∈ calls := by
  induction calls generalizing t with
  | nil => cases h
  | cons ec calls ih =>
    obtain ⟨env, c⟩ := ec
    rcases List.mem_cons.mp h with rfl | h
    · exact List.mem_cons_self
    · exact List.mem_cons_of_mem _ (ih h)

/-- The sample job is enqueued, claimed and completed, by the statements. -/
def sampleStatements : List (ServerEnv × Call) :=
  sampleCompleted.map fun x => (⟨x.1.now, fun _ => 0⟩, x.2)

example : (Tables.empty.replay .nullFree .crockford sampleStatements).1.map
    (fun m => m.after.jobs.map fun r => r .status) =
      [[some (.text "pending")], [some (.text "claimed")], [some (.text "completed")]] := by
  decide +kernel

/-- The sample calls, run as statements on the tables, run as calls on the store. -/
theorem statements_refine_sampleStatements :
    ∃ tr' s, Storage.nullFree.Run tr' s ∧
      (Tables.empty.replay .nullFree .crockford sampleStatements).2 = Tables.of .crockford s ∧
      List.Forall₂ (Represents .crockford)
        (Tables.empty.replay .nullFree .crockford sampleStatements).1 tr' ∧
      ∀ env filter, Storage.nullFree.queryTables .crockford
        (Tables.empty.replay .nullFree .crockford sampleStatements).2 env filter =
          (Storage.nullFree.queryJobs s filter).mapError Failure.ofQuery := by
  refine statements_refine (Tables.Run.replay .start sampleStatements) fun m hm c hc t ht => ?_
  have hkept : ∀ x ∈ sampleStatements, Storage.nullFree.Keeps x.2 := by
    intro x hx
    simp only [sampleStatements, sampleCompleted, sampleClaim, List.map_append, List.map_cons,
      List.map_nil, List.mem_append, List.mem_cons, List.not_mem_nil, or_false] at hx
    rcases hx with (rfl | rfl) | rfl <;> rfl
  have htimes : ∀ x ∈ sampleStatements, ∀ t ∈ x.2.times x.1.now, t ≤ maxUtc := by
    decide
  have hmem := Tables.mem_replay hm
  obtain rfl := Except.ok.inj ((hkept _ hmem).symm.trans hc)
  exact htimes _ hmem t ht

end Venturi
