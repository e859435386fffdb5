import Venturi.Job.Rows
import Venturi.Store.Stats
import Venturi.Trace.Concurrent

namespace Venturi

open Sql Collections Trace List

/-!
# The three queries of `stats` (`postgres/mod.rs`)

`stats` runs three statements outside a transaction, so other parties can step in between.

* `PostgresStore.select` — what each of the queries returns.
* `stats` — the code; `PostgresStore.statsAt` is what it returns when nobody steps in.
* `Undisturbed` — there is an instant such that no step between it and any of the queries
  changes what that query counts.
* `stats_point_in_time` — then the counts are those of the state of that instant.
* `Call.touches` — the statuses a call moves jobs between; it disturbs no other count.
* `counted_twice` — in general they are those of no state: a job that is claimed between the
  first query and the second counts as pending and as claimed.
-/

/-! ### The queries -/

/-- The statements of `stats`. -/
inductive StatsQuery where
  /-- `SELECT kind, count(*), min(created_at) … WHERE status = 'pending' GROUP BY kind`. -/
  | pending
  /-- `SELECT count(*) … WHERE status = 'claimed'`. -/
  | claimed
  /-- `SELECT kind, count(*) … WHERE status = 'dead' GROUP BY kind`. -/
  | dead
  deriving DecidableEq, Repr

/-- What a statement returns.  The minimum over a group is a nullable column. -/
abbrev StatsQuery.Rows : StatsQuery → Type
  | .pending => List (String × Nat × Option DateTime)
  | .claimed => Nat
  | .dead => List (String × Nat)

namespace PostgresStore

/-- `… WHERE status = …`. -/
def withStatus (s : PostgresStore) (status : Status) : List JobRecord :=
  s.jobs.rows.filter (fun r => r.status = status)

/-- The rows a statement of `stats` returns. -/
def select (s : PostgresStore) : (q : StatsQuery) → q.Rows
  | .pending => (groupBy JobRecord.kind (s.withStatus .pending)).map
      (fun g => (g.1, g.2.length, (g.2.map JobRecord.createdAt).min?))
  | .claimed => (s.withStatus .claimed).length
  | .dead => (groupBy JobRecord.kind (s.withStatus .dead)).map (fun g => (g.1, g.2.length))

end PostgresStore

/-- The snapshot `stats` assembles from the rows.  A group has rows, so its minimum is not
    `NULL`. -/
def StatsQuery.snapshot (now : DateTime) (rows : (q : StatsQuery) → q.Rows) : Store.Snapshot where
  pendingByKind := Map.collect ((rows .pending).map (fun row => (row.1, row.2.1)))
  oldestPendingAge :=
    Map.collect ((rows .pending).map (fun row => (row.1, age now (row.2.2.getD now))))
  claimed := rows .claimed
  deadByKind := Map.collect (rows .dead)

/-- What `stats` returns when nobody steps in. -/
def PostgresStore.statsAt (s : PostgresStore) (now : DateTime) : Store.Snapshot :=
  StatsQuery.snapshot now s.select

/-! ### What a snapshot of one state shows -/

/-- The query counts the same in both states. -/
def StatsQuery.Agrees : StatsQuery → PostgresStore → PostgresStore → Prop
  | .pending, s, s' => kindsWith .pending s.jobs.rows ~ kindsWith .pending s'.jobs.rows
  | .claimed, s, s' =>
      (kindsWith .claimed s.jobs.rows).length = (kindsWith .claimed s'.jobs.rows).length
  | .dead, s, s' => kindsWith .dead s.jobs.rows ~ kindsWith .dead s'.jobs.rows

instance (q : StatsQuery) (s s' : PostgresStore) : Decidable (q.Agrees s s') :=
  match q with
  | .pending => inferInstanceAs (Decidable (_ ~ _))
  | .claimed => inferInstanceAs (Decidable (_ = _))
  | .dead => inferInstanceAs (Decidable (_ ~ _))

/-- To show the same to a query is an equivalence of states. -/
theorem StatsQuery.agrees_equivalence (q : StatsQuery) : Equivalence q.Agrees := by
  cases q with
  | pending => exact ⟨fun _ => .refl _, .symm, .trans⟩
  | claimed => exact ⟨fun _ => rfl, .symm, .trans⟩
  | dead => exact ⟨fun _ => .refl _, .symm, .trans⟩

/-- **Counts taken in three states show a fourth** that agrees with each on what was counted
    there. -/
theorem StatsQuery.shows_of_agrees (now : DateTime) (state : StatsQuery → PostgresStore)
    {u : PostgresStore} (h : ∀ q : StatsQuery, q.Agrees (state q) u) :
    (StatsQuery.snapshot now (fun q => (state q).select q)).Shows u.jobs.rows where
  pending := by
    have hcounts : Tally.Counts _ (kindsWith .pending (state .pending).jobs.rows) :=
      counts_collect_groupBy
    simp only [snapshot, PostgresStore.select, List.map_map]
    exact hcounts.perm (h .pending)
  claimed := by
    have hcount : (kindsWith .claimed (state .claimed).jobs.rows).length =
        (kindsWith .claimed u.jobs.rows).length := h .claimed
    rw [← hcount]
    exact (List.length_map _).symm
  dead := by
    have hcounts : Tally.Counts _ (kindsWith .dead (state .dead).jobs.rows) :=
      counts_collect_groupBy
    exact hcounts.perm (h .dead)

/-- **What `stats` returns when nobody steps in** describes the state. -/
theorem PostgresStore.of_statsAt (s : PostgresStore) (now : DateTime) :
    (s.statsAt now).Of now s.jobs.rows where
  shows := StatsQuery.shows_of_agrees now (fun _ => s) (fun q => q.agrees_equivalence.refl s)
  oldest kind := by
    have hlookup := lookup_collect_groupBy JobRecord.kind (s.withStatus .pending) kind
      (fun g => age now ((g.map JobRecord.createdAt).min?.getD now))
    have htimes : ((s.withStatus .pending).filter (fun r => r.kind = kind)).map
        JobRecord.createdAt = pendingTimes kind s.jobs.rows := by
      rw [pendingTimes, withStatus, List.filter_filter]
      congr 2
      funext r
      rw [Bool.and_comm, Bool.decide_and]
    simp only [statsAt, StatsQuery.snapshot, select, List.map_map]
    refine hlookup.trans ?_
    rw [htimes]
    split
    · rename_i hk
      -- the group has a row
      have hne : pendingTimes kind s.jobs.rows ≠ [] := by
        obtain ⟨r, hr, hkind⟩ := List.mem_map.mp hk
        have hgroup : r ∈ (s.withStatus .pending).filter (fun r => r.kind = kind) :=
          List.mem_filter.mpr ⟨hr, decide_eq_true hkind⟩
        exact htimes ▸ List.ne_nil_of_mem (List.mem_map_of_mem hgroup)
      cases hmin : (pendingTimes kind s.jobs.rows).min? with
      | none => exact absurd (List.min?_eq_none_iff.mp hmin) hne
      | some t => rfl
    · rename_i hk
      have hnil : pendingTimes kind s.jobs.rows = [] := by
        rw [← htimes, List.map_eq_nil_iff, List.filter_eq_nil_iff]
        intro r hr hkind
        exact hk (List.mem_map.mpr ⟨r, hr, of_decide_eq_true hkind⟩)
      rw [hnil]
      rfl

/-! ### The code -/

/-- An operation of the code. -/
inductive StatsOp where
  /-- `Utc::now()`. -/
  | now
  | query (q : StatsQuery)

/-- What it gets back. -/
abbrev StatsOp.Answer : StatsOp → Type
  | .now => DateTime
  | .query q => Except Error q.Rows

/-- `conn.query(…).await?`. -/
def StatsQuery.run (q : StatsQuery) : ExceptT Error (Program StatsOp.Answer) q.Rows :=
  ExceptT.mk (Program.perform (StatsOp.query q))

/-- `PostgresStore::stats`. -/
def stats : ExceptT Error (Program StatsOp.Answer) Store.Snapshot := do
  let now ← ExceptT.lift (Program.perform StatsOp.now)
  let pending ← StatsQuery.pending.run
  let claimed ← StatsQuery.claimed.run
  let dead ← StatsQuery.dead.run
  return StatsQuery.snapshot now fun
    | .pending => pending
    | .claimed => claimed
    | .dead => dead

/-- An operation reads the state committed at its moment, or fails; either way the database
    stays as it is. -/
inductive PostgresStore.Reads (s : PostgresStore) (now : DateTime) :
    (o : StatsOp) → o.Answer → PostgresStore → Prop
  | now : Reads s now .now now s
  | rows (q : StatsQuery) : Reads s now (.query q) (.ok (s.select q)) s
  | failed (q : StatsQuery) (e : Error) : Reads s now (.query q) (.error e) s

/-- One step while `stats` is under way. -/
abbrev StatsTurn : Type := Turn PostgresStore DateTime StatsOp.Answer Event

/-- The executions of `stats` among the calls of other parties. -/
abbrev StatsExec : Program StatsOp.Answer (Except Error Store.Snapshot) → PostgresStore →
    List StatsTurn → Program StatsOp.Answer (Except Error Store.Snapshot) → PostgresStore → Prop :=
  Exec PostgresStore.Reads PostgresStore.Step

section Code

variable {s s' : PostgresStore} {now : DateTime} {tr : List StatsTurn}
  {p q : Program StatsOp.Answer (Except Error Store.Snapshot)}

/-- A query leaves the store as it was. -/
theorem PostgresStore.Reads.unchanged {o : StatsOp} {a : o.Answer} (h : s.Reads now o a s') :
    s' = s := by
  cases h <;> rfl

/-- What a query returns is what it selects. -/
theorem PostgresStore.Reads.of_ok {k : StatsQuery} {rows : k.Rows}
    (h : s.Reads now (.query k) (.ok rows) s') : rows = s.select k := by
  generalize hreply : (Except.ok rows : Except Error k.Rows) = reply at h
  cases h with
  | rows => exact Except.ok.inj hreply
  | failed => cases hreply

/-- **A query that answered** did so from the state it ran in, and the rest of the code went on
    with its rows. -/
theorem StatsExec.of_query {k : StatsQuery} {snapshot : Store.Snapshot}
    {f : k.Rows → ExceptT Error (Program StatsOp.Answer) Store.Snapshot}
    (h : StatsExec (k.run >>= f).run s tr (.ret (.ok snapshot)) s') :
    ∃ m tr', .own m ∈ tr ∧ m.label.2.1 = .query k ∧ tr' ⊆ tr ∧
      StatsExec (f (m.before.select k)).run m.before tr' (.ret (.ok snapshot)) s' := by
  obtain ⟨ms, s₁, now, reply, s₂, tr', rfl, -, hown, hrest⟩ := Exec.of_op h
  obtain rfl := hown.unchanged
  rcases reply with e | rows
  · -- the code ended with the error
    obtain ⟨herr, -⟩ := Exec.of_ret hrest
    cases herr
  · obtain rfl := hown.of_ok
    refine ⟨_, tr', List.mem_append_right _ List.mem_cons_self, rfl, fun t ht => ?_, hrest⟩
    exact List.mem_append_right _ (List.mem_cons_of_mem _ ht)

/-- **`stats` assembles the rows each query found** in the state it ran in. -/
theorem stats_rows {snapshot : Store.Snapshot}
    (h : StatsExec stats.run s tr (.ret (.ok snapshot)) s') :
    ∃ (now : DateTime) (state : StatsQuery → PostgresStore),
      snapshot = StatsQuery.snapshot now (fun q => (state q).select q) ∧
      ∀ q, ∃ m, .own m ∈ tr ∧ m.label.2.1 = .query q ∧ m.before = state q := by
  obtain ⟨ms, s₀, now, t, s₁, tr₀, rfl, -, -, h₀⟩ := Exec.of_op h
  obtain ⟨m₁, tr₁, hm₁, hq₁, hsub₁, h₁⟩ := StatsExec.of_query h₀
  obtain ⟨m₂, tr₂, hm₂, hq₂, hsub₂, h₂⟩ := StatsExec.of_query h₁
  obtain ⟨m₃, tr₃, hm₃, hq₃, -, h₃⟩ := StatsExec.of_query h₂
  obtain ⟨hsnapshot, -⟩ := Exec.of_ret h₃
  have hsub₀ : tr₀ ⊆ ms.map .other ++ .own ⟨s₀, (now, ⟨.now, t⟩), s₁⟩ :: tr₀ :=
    fun x hx => List.mem_append_right _ (List.mem_cons_of_mem _ hx)
  let state : StatsQuery → PostgresStore
    | .pending => m₁.before
    | .claimed => m₂.before
    | .dead => m₃.before
  refine ⟨t, state, ?_, fun q => ?_⟩
  · rw [Except.ok.inj hsnapshot]
    congr 1
    funext q
    cases q <;> rfl
  · cases q with
    | pending => exact ⟨m₁, hsub₀ hm₁, hq₁, rfl⟩
    | claimed => exact ⟨m₂, hsub₀ (hsub₁ hm₂), hq₂, rfl⟩
    | dead => exact ⟨m₃, hsub₀ (hsub₁ (hsub₂ hm₃)), hq₃, rfl⟩

/-- **When nobody steps in** `stats` returns the snapshot of the one state. -/
theorem stats_solo {snapshot : Store.Snapshot}
    (h : StatsExec stats.run s tr (.ret (.ok snapshot)) s') (hsolo : Solo tr) :
    ∃ now, snapshot = s.statsAt now := by
  obtain ⟨now, state, rfl, hstate⟩ := stats_rows h
  have hsame : ∀ q, state q = s := by
    intro q
    obtain ⟨m, hm, -, hbefore⟩ := hstate q
    obtain ⟨j, hj⟩ := List.mem_iff_getElem?.mp hm
    have hmem : ∀ t ∈ between tr 0 j, t ∈ tr :=
      fun t ht => List.mem_of_mem_take (List.mem_of_mem_drop ht)
    have hown : ∀ m', .own m' ∈ between tr 0 j → m'.before = m'.after :=
      fun m' hm' => (h.performed m' (mem_owns.mpr (hmem _ hm'))).unchanged.symm
    have hother : ∀ m', .other m' ∈ between tr 0 j → m'.before = m'.after :=
      fun m' hm' => absurd (hsolo _ (hmem _ hm')) Bool.false_ne_true
    rw [← hbefore, ← stateAt_of_own hj, ← h.agree eq_equivalence 0 j hown hother]
    exact h.start_eq.symm
  refine ⟨now, ?_⟩
  simp only [hsame]
  rfl

end Code

/-! ### The instant of a snapshot -/

/-- The step of another party leaves what the query counts as it was. -/
def StatsQuery.KeptBy (q : StatsQuery) : StatsTurn → Prop
  | .own _ => True
  | .other m => q.Agrees m.before m.after

instance (q : StatsQuery) (t : StatsTurn) : Decidable (q.KeptBy t) :=
  match t with
  | .own _ => inferInstanceAs (Decidable True)
  | .other m => inferInstanceAs (Decidable (q.Agrees m.before m.after))

/-- The query a turn performs. -/
def asked : StatsTurn → Option StatsQuery
  | .own m => match m.label.2.1 with
    | .now => none
    | .query q => some q
  | .other _ => none

/-- There is an instant such that no step between it and any query changes what that query
    counts. -/
def Undisturbed (tr : List StatsTurn) : Prop :=
  ∃ i, ∀ q j, tr[j]?.bind asked = some q → ∀ t ∈ between tr i j, q.KeptBy t

/-- The states of the database while `stats` was under way. -/
def passed (tr : List StatsTurn) (s' : PostgresStore) : List PostgresStore :=
  tr.map Turn.before ++ [s']

/-- **What a query counted is what there was at the instant.** -/
theorem agrees_at {p q : Program StatsOp.Answer (Except Error Store.Snapshot)}
    {s s' : PostgresStore} {tr : List StatsTurn} (h : StatsExec p s tr q s') {k : StatsQuery}
    {i j : Nat} {m : Move PostgresStore (DateTime × Program.Act StatsOp.Answer)}
    (hm : tr[j]? = some (.own m)) (hkept : ∀ t ∈ between tr i j, k.KeptBy t) :
    k.Agrees m.before (stateAt tr s' i) := by
  have hown : ∀ m', .own m' ∈ between tr i j → k.Agrees m'.before m'.after := by
    intro m' hm'
    have hmem : .own m' ∈ tr := List.mem_of_mem_take (List.mem_of_mem_drop hm')
    rw [(h.performed m' (mem_owns.mpr hmem)).unchanged]
    exact k.agrees_equivalence.refl _
  have hagree := h.agree k.agrees_equivalence i j hown (fun m' hm' => hkept _ hm')
  rw [stateAt_of_own hm] at hagree
  exact k.agrees_equivalence.symm hagree

/-- **A snapshot is point-in-time when it is undisturbed.** In every execution of `stats` among
    any calls of other parties: if there is an instant such that no step between it and the
    pending query changes the pending counts, none between it and the claimed query changes
    the claimed count, and none between it and the dead query changes the dead counts, then
    the counts returned are those of one state the call passed through. -/
theorem stats_point_in_time {s s' : PostgresStore} {tr : List StatsTurn}
    {snapshot : Store.Snapshot} (h : StatsExec stats.run s tr (.ret (.ok snapshot)) s')
    (hquiet : Undisturbed tr) : ∃ u ∈ passed tr s', snapshot.Shows u.jobs.rows := by
  obtain ⟨now, state, rfl, hstate⟩ := stats_rows h
  obtain ⟨i, hkept⟩ := hquiet
  refine ⟨stateAt tr s' i, stateAt_mem tr s' i, StatsQuery.shows_of_agrees now state (fun q => ?_)⟩
  obtain ⟨m, hm, hq, hbefore⟩ := hstate q
  obtain ⟨j, hj⟩ := List.mem_iff_getElem?.mp hm
  have hasked : tr[j]?.bind asked = some q := by
    rw [hj, Option.bind_some, asked, hq]
  rw [← hbefore]
  exact agrees_at h hj (hkept q j hasked)

/-! ### Which calls move a count -/

/-- The status a statement counts. -/
def StatsQuery.status : StatsQuery → Status
  | .pending => .pending
  | .claimed => .claimed
  | .dead => .dead

/-- Equal rows of a status count the same. -/
theorem StatsQuery.agrees_of_perm {q : StatsQuery} {s s' : PostgresStore}
    (h : kindsWith q.status s.jobs.rows ~ kindsWith q.status s'.jobs.rows) : q.Agrees s s' := by
  cases q with
  | pending => exact h
  | claimed => exact h.length_eq
  | dead => exact h

/-- The status a settlement leaves the job in. -/
def Settlement.status : Settlement → Status
  | .complete .. => .completed
  | .retry .. | .pause .. | .release .. => .pending
  | .dead .. => .dead

/-- The statuses a call takes jobs out of, or puts them in. -/
def Call.touches : Call → Status → Bool
  | .enqueue _, status => status = .pending
  | .claimNext .., status => status = .pending ∨ status = .claimed
  | .settle _ _ _ settlement _, status => status = .claimed ∨ status = settlement.status
  | .recover .., status => status = .claimed ∨ status = .pending
  | .cleanup _, status => status = .completed ∨ status = .dead
  | _, _ => false

/-- The kind of a job, if it has this status. -/
def kindWith (status : Status) (job : Option Job) : Option String :=
  (job.filter (fun j => j.row.status = status)).map (fun j => j.row.kind)

/-- A job counts for its kind if it has the status. -/
theorem kindWith_some {status : Status} {j : Job} :
    kindWith status (some j) = if j.row.status = status then some j.row.kind else none := by
  by_cases h : j.row.status = status <;> simp [kindWith, h]

/-- It does not count where its status is another one. -/
theorem kindWith_of_ne {status : Status} {j : Job} (h : j.row.status ≠ status) :
    kindWith status (some j) = none := by
  rw [kindWith_some, if_neg h]

/-- **A step leaves the statuses its call does not touch.** -/
theorem Job.Step.untouched {now : DateTime} {c : Call} {mark : Mark} {job job' : Option Job}
    {status : Status} (h : Job.Step now c mark job job')
    (hcoherent : ∀ j ∈ job, j.row.Coherent) (htouch : ¬ c.touches status) :
    kindWith status job' = kindWith status job := by
  cases h with
  | enqueue =>
    have hpending : status ≠ .pending := by simpa [Call.touches] using htouch
    exact kindWith_of_ne hpending.symm
  | claim heligible =>
    have hpending := (JobRecord.eligible_iff.mp heligible).1
    have hother : status ≠ .pending ∧ status ≠ .claimed := by simpa [Call.touches] using htouch
    rw [kindWith_of_ne hother.2.symm, kindWith_of_ne (hpending ▸ hother.1.symm)]
  | @settle _ settlement _ row _ _ howned =>
    have hclaimed := (JobRecord.owned_iff.mp howned).2.2.2
    have hother : status ≠ .claimed ∧ status ≠ settlement.status := by
      simpa [Call.touches] using htouch
    have hset : (settlement.set row).status = settlement.status := by cases settlement <;> rfl
    rw [kindWith_of_ne (hset ▸ hother.2.symm), kindWith_of_ne (hclaimed ▸ hother.1.symm)]
  | recover hstale =>
    have hclaimed := (JobRecord.stale_iff.mp hstale).1
    have hother : status ≠ .claimed ∧ status ≠ .pending := by simpa [Call.touches] using htouch
    rw [kindWith_of_ne hother.2.symm, kindWith_of_ne (hclaimed ▸ hother.1.symm)]
  | extendLease => rw [kindWith_some, kindWith_some, JobRecord.extend]
  | cleanup hmatches =>
    have hremoved := (CleanupCriteria.matches_iff (hcoherent _ rfl)).mp hmatches
    have hother : status ≠ .completed ∧ status ≠ .dead := by simpa [Call.touches] using htouch
    refine (kindWith_of_ne ?_).symm
    rcases hremoved.1 with hst | hst
    · exact hst ▸ hother.1.symm
    · exact hst ▸ hother.2.symm
  | @merge update => cases update <;> rw [kindWith_some, kindWith_some, JobRecord.merge]

/-- **A step of the store agrees with every count its call does not touch.** -/
theorem PostgresStore.Step.agrees {s s' : PostgresStore} {e : Event} {q : StatsQuery}
    (h : s.Step e s') (hcoherent : ∀ id, ∀ j ∈ s.view id, j.row.Coherent)
    (htouch : ¬ e.call.touches q.status) : q.Agrees s s' := by
  have hrow (s : PostgresStore) (id : Ulid) :
      ((s.jobs.find? id).filter (fun r => r.status = q.status)).map JobRecord.kind =
        kindWith q.status (s.view id) := by
    rw [PostgresStore.view]
    cases s.jobs.find? id with
    | none => rfl
    | some r => by_cases hst : r.status = q.status <;> simp [kindWith, Option.filter_some, hst]
  refine StatsQuery.agrees_of_perm (Table.perm_filter_map (fun id => ?_))
  rw [hrow, hrow]
  rcases PostgresStore.exec_view h id with ⟨hview, -⟩ | hstep
  · rw [hview]
  · exact (hstep.untouched (hcoherent id) htouch).symm

/-- **A snapshot is undisturbed by calls that touch other counts.** `stats` in a reachable state:
    it is enough that between one instant and each query other parties make only calls that
    do not touch the status the query counts. -/
theorem undisturbed_of_untouched {tr₀ : History} {s s' : PostgresStore} {tr : List StatsTurn}
    {p q : Program StatsOp.Answer (Except Error Store.Snapshot)} (hrun : PostgresStore.Run tr₀ s)
    (h : StatsExec p s tr q s') {i : Nat} (hcalls : ∀ k j, tr[j]?.bind asked = some k →
      ∀ m, .other m ∈ between tr i j → ¬ m.label.call.touches k.status) : Undisturbed tr := by
  have hcoherent : ∀ t ∈ tr, ∀ id, ∀ j ∈ t.before.view id, j.row.Coherent := by
    refine h.keeps (I := fun s => ∀ id, ∀ j ∈ s.view id, j.row.Coherent) ?_ ?_
      (coherent_of_run hrun)
    · exact fun _ _ _ _ _ hs hI => hs.unchanged ▸ hI
    · intro s e s' hs hI id
      rcases PostgresStore.exec_view hs id with ⟨hview, -⟩ | hstep
      · exact hview ▸ hI id
      · exact hstep.coherent (hI id)
  refine ⟨i, fun k j hk t ht => ?_⟩
  cases t with
  | own m => trivial
  | other m =>
    have hmem : .other m ∈ tr := List.mem_of_mem_take (List.mem_of_mem_drop ht)
    exact (h.stepped m hmem).agrees (hcoherent _ hmem) (hcalls k j hk m ht)

/-! ### A job that moves while it is counted -/

/-- Read at one time. -/
def PostgresStore.read (now : DateTime) (s : PostgresStore) : (o : StatsOp) →
    o.Answer × PostgresStore
  | .now => (now, s)
  | .query q => (.ok (s.select q), s)

/-- What the store answers to a query it reads. -/
theorem PostgresStore.reads_read (now : DateTime) (s : PostgresStore) (o : StatsOp) :
    s.Reads now o (s.read now o).1 (s.read now o).2 := by
  cases o with
  | now => exact .now
  | query q => exact .rows q

/-- `stats` from a database on, at one time, while others make the calls the schedule lists
    before each of its operations. -/
def statsAmid (now : DateTime) (schedule : List (List (Env × Call))) (s : PostgresStore) :
    List StatsTurn × Except Error Store.Snapshot × PostgresStore :=
  stats.run.amid now (PostgresStore.read now)
    (fun s i => (⟨i.1, i.2, (s.exec i.1 i.2).1⟩, (s.exec i.1 i.2).2)) schedule s

/-- `stats` amid the calls of others is one of its executions. -/
theorem exec_statsAmid (now : DateTime) (schedule : List (List (Env × Call)))
    (s : PostgresStore) : StatsExec stats.run s (statsAmid now schedule s).1
      (.ret (statsAmid now schedule s).2.1) (statsAmid now schedule s).2.2 :=
  Exec.amid (PostgresStore.reads_read now) (fun _ _ => rfl) stats.run schedule s

/-- One pending job. -/
def sampleOne : PostgresStore := (PostgresStore.empty.replay [(.ofNow 0, .enqueue sampleJob)]).2

/-- A second job is enqueued between the first query and the second. -/
def sampleCounted : List StatsTurn × Except Error Store.Snapshot × PostgresStore :=
  statsAmid 9 [[], [], [(.ofNow 9, .enqueue { sampleJob with id := 1 })], []] sampleOne

/-- The snapshot that the sample call returns shows a state it passed. -/
theorem stats_point_in_time_sampleCounted :
    ∃ snapshot, sampleCounted.2.1 = .ok snapshot ∧
      ∃ u ∈ passed sampleCounted.1 sampleCounted.2.2, snapshot.Shows u.jobs.rows := by
  -- the instant is that of the first query
  have hkept : ∀ q ∈ [StatsQuery.pending, .claimed, .dead], ∀ j < 5,
      sampleCounted.1[j]?.bind asked = some q → ∀ t ∈ between sampleCounted.1 1 j, q.KeptBy t := by
    decide
  refine ⟨_, rfl, stats_point_in_time (exec_statsAmid 9 _ sampleOne) ⟨1, fun q j hq => ?_⟩⟩
  have hj : j < 5 := by
    obtain ⟨t, ht, -⟩ := Option.bind_eq_some_iff.mp hq
    exact (List.getElem?_eq_some_iff.mp ht).1
  exact hkept q (by cases q <;> decide) j hj hq

/-- A turn of `stats`, or an `enqueue`, `claim_next`, `settle`, `recover` or `cleanup` of
    another party. -/
def moves : StatsTurn → Bool
  | .own _ => true
  | .other m => match m.label.call with
    | .enqueue _ | .claimNext .. | .settle .. | .recover .. | .cleanup _ => true
    | _ => false

/-- The job is claimed between the first query and the second. -/
def sampleTorn : List StatsTurn × Except Error Store.Snapshot × PostgresStore :=
  statsAmid 9 [[], [], [(.ofNow 9, .claimNext ["feed"] 0 9 "w")], []] sampleOne

/-- The one job counts as pending and as claimed, which it is in no state. -/
theorem counted_twice :
    ¬ ∀ tr₀ s, PostgresStore.Run tr₀ s → ∀ tr snapshot s',
      StatsExec stats.run s tr (.ret (.ok snapshot)) s' → (∀ t ∈ tr, moves t) →
        ∃ u ∈ passed tr s', snapshot.Shows u.jobs.rows := by
  intro h
  obtain ⟨u, hu, hshows⟩ := h _ sampleOne (PostgresStore.run_replay _) sampleTorn.1 _ sampleTorn.2.2
    (exec_statsAmid 9 _ sampleOne) (by decide)
  have hpending := hshows.pending "feed"
  have hclaimed := hshows.claimed
  have hnone : ∀ u ∈ passed sampleTorn.1 sampleTorn.2.2,
      ¬ ((kindsWith .pending u.jobs.rows).count "feed" = 1 ∧
        (kindsWith .claimed u.jobs.rows).length = 1) := by
    decide
  refine hnone u hu ⟨?_, hclaimed.symm⟩
  by_contra hcount
  split at hpending
  · cases hpending
  · exact hcount (Option.some.inj hpending).symm

end Venturi
