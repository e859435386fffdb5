import Mathlib.Data.List.Pairwise
import Venturi.Job.Rows
import Venturi.Sql.Keyset
import Venturi.Store.History

namespace Venturi

open Sql PostgresStore

/-!
# Walking the history in pages (`postgres/mod.rs`, `tests/pagination.rs`)

* `PostgresStore.queryJobs` — the history query.
* `Pages` — a walk through its pages, each request over the state of its own moment.
* `Pages.walk` — it is a walk by keyset over the matching rows.
* `pages_exact` — the walk descends, returns what matches, misses nothing that stays, and
  over a store that does not change it is the filtered table.
* `createdAt_of_run` — in a run under fresh ids a job is never seen under two creation times.
-/

/-! ### The query -/

/-- What the server rejects in a query. -/
inductive QueryError where
  | negativeLimit
  /-- A value of the filter. -/
  | refused (e : Error)
  deriving DecidableEq, Repr

namespace PostgresStore

/-- `PostgresStore::query_jobs`. -/
def queryJobs (s : PostgresStore) (filter : HistoryFilter) : Except QueryError (List JobRecord) :=
  let rows := descending JobRecord.position
    (s.jobs.rows.filter (fun r => filter.matches r && filter.older r))
  match filter.limit with
  | none => .ok rows
  | some limit => if 0 ≤ limit then .ok (rows.take limit.toNat) else .error .negativeLimit

/-- The rows that match a filter. -/
def matching (s : PostgresStore) (filter : HistoryFilter) : List JobRecord :=
  s.jobs.rows.filter filter.matches

variable {s : PostgresStore} {f : HistoryFilter} {limit : Int}

/-- No two rows stand in one place. -/
theorem nodup_matching (s : PostgresStore) (f : HistoryFilter) :
    ((s.matching f).map JobRecord.position).Nodup := by
  have hids : ((s.matching f).map JobRecord.id).Nodup :=
    s.jobs.nodup.sublist (List.filter_sublist.map _)
  refine List.Nodup.of_map (fun p => (ofLex p).2) ?_
  rw [List.map_map]
  exact hids

/-- One page of the history is a page of the matching rows. -/
theorem queryJobs_page (hlimit : 0 ≤ limit) (cursor : Option (DateTime × Ulid)) :
    s.queryJobs (f.page cursor limit) =
      .ok (page JobRecord.position limit.toNat (cursor.map toLex) (s.matching f)) := by
  have hrows : s.jobs.rows.filter (fun r => f.matches r && (f.page cursor limit).older r) =
      (s.matching f).filter (fun r => (cursor.map toLex).all (r.position < ·)) := by
    rw [matching, List.filter_filter]
    refine List.filter_congr (fun r _ => ?_)
    rw [Bool.and_comm]
    cases cursor <;> rfl
  show (if 0 ≤ limit then Except.ok _ else _) = _
  rw [if_pos hlimit, Sql.page, ← hrows]
  rfl

end PostgresStore

/-! ### The walk -/

/-- A walk through the pages of a filter from a cursor on: the state each request found and the
    page it returned, up to the first empty page. -/
inductive Pages (f : HistoryFilter) (limit : Int) :
    Option (DateTime × Ulid) → List (PostgresStore × List JobRecord) → Prop
  | stop {cursor : Option (DateTime × Ulid)} {s : PostgresStore}
      (h : s.queryJobs (f.page cursor limit) = .ok []) : Pages f limit cursor [(s, [])]
  | next {cursor : Option (DateTime × Ulid)} {s : PostgresStore} {p : List JobRecord}
      {last : JobRecord} {reads : List (PostgresStore × List JobRecord)}
      (hpage : s.queryJobs (f.page cursor limit) = .ok p) (hlast : p.getLast? = some last)
      (h : Pages f limit (some (last.createdAt, last.id)) reads) :
      Pages f limit cursor ((s, p) :: reads)

section Pages

variable {f : HistoryFilter} {limit : Int} {cursor : Option (DateTime × Ulid)}
  {reads : List (PostgresStore × List JobRecord)}

/-- The matching rows each request found, and the page it returned. -/
def matchingReads (f : HistoryFilter) (reads : List (PostgresStore × List JobRecord)) :
    List (List JobRecord × List JobRecord) :=
  reads.map (fun x => (x.1.matching f, x.2))

/-- **The walk is a walk by keyset over the matching rows.** -/
theorem Pages.walk (h : Pages f limit cursor reads) (hlimit : 0 ≤ limit) :
    Walk JobRecord.position limit.toNat (cursor.map toLex) (matchingReads f reads) := by
  induction h with
  | stop hempty =>
    rw [queryJobs_page hlimit] at hempty
    exact .stop (Except.ok.inj hempty)
  | next hpage hlast _ ih =>
    rw [queryJobs_page hlimit] at hpage
    exact .next (Except.ok.inj hpage) hlast ih

/-- The rows of all pages. -/
def pagedRows (reads : List (PostgresStore × List JobRecord)) : List JobRecord :=
  reads.flatMap Prod.snd

/-- The rows of the walk are those of its pages. -/
theorem returned_matchingReads : returned (matchingReads f reads) = pagedRows reads := by
  rw [returned, matchingReads, List.flatMap_map]
  rfl

/-- A job has one creation time in all the states read. -/
def StableCreation (reads : List (PostgresStore × List JobRecord)) : Prop :=
  ∀ x ∈ reads, ∀ x' ∈ reads, ∀ r ∈ x.1.jobs.rows, ∀ r' ∈ x'.1.jobs.rows, r.id = r'.id →
    r.createdAt = r'.createdAt

/-- Every page is of the matching rows of the state its request found. -/
theorem Pages.mem_read (h : Pages f limit cursor reads) (hlimit : 0 ≤ limit)
    {x : PostgresStore × List JobRecord} (hx : x ∈ reads) {r : JobRecord} (hr : r ∈ x.2) :
    r ∈ x.1.jobs.rows ∧ f.matches r :=
  List.mem_filter.mp ((h.walk hlimit).mem_read (List.mem_map_of_mem hx) hr)

/-- In no state do two matching rows share a position. -/
theorem nodup_matchingReads :
    ∀ x ∈ matchingReads f reads, (x.1.map JobRecord.position).Nodup := by
  intro x hx
  obtain ⟨y, -, rfl⟩ := List.mem_map.mp hx
  exact nodup_matching y.1 f

/-- Every row returned is a matching row of a state read. -/
theorem Pages.exists_read (h : Pages f limit cursor reads) (hlimit : 0 ≤ limit) {r : JobRecord}
    (hr : r ∈ pagedRows reads) : ∃ x ∈ reads, r ∈ x.1.jobs.rows ∧ f.matches r := by
  obtain ⟨x, hx, hrx⟩ := List.mem_flatMap.mp hr
  exact ⟨x, hx, h.mem_read hlimit hx hrx⟩

/-- Under one id, the rows of all the states stand in one place. -/
theorem StableCreation.position_eq (h : StableCreation reads)
    {x x' : PostgresStore × List JobRecord} (hx : x ∈ reads) (hx' : x' ∈ reads)
    {r r' : JobRecord} (hr : r ∈ x.1.jobs.rows)
    (hr' : r' ∈ x'.1.jobs.rows) (hid : r.id = r'.id) : r.position = r'.position := by
  unfold JobRecord.position
  rw [h x hx x' hx' r hr r' hr' hid, hid]

/-- What a walk returns descends. -/
theorem Pages.pairwise (h : Pages f limit cursor reads) (hlimit : 0 ≤ limit) :
    (pagedRows reads).Pairwise (fun a b => b.position < a.position) := by
  have hreturned := (h.walk hlimit).pairwise nodup_matchingReads
  rwa [returned_matchingReads] at hreturned

/-- No job comes twice. -/
theorem Pages.nodup_ids (h : Pages f limit cursor reads) (hlimit : 0 ≤ limit)
    (hstable : StableCreation reads) : ((pagedRows reads).map JobRecord.id).Nodup := by
  refine List.pairwise_map.mpr ((h.pairwise hlimit).imp_of_mem (fun ha hb hlt hid => ?_))
  obtain ⟨x, hx, hax, -⟩ := h.exists_read hlimit ha
  obtain ⟨y, hy, hby, -⟩ := h.exists_read hlimit hb
  rw [hstable.position_eq hx hy hax hby hid] at hlt
  exact lt_irrefl _ hlt

/-- **A job that is there and matches in all the states is returned.** -/
theorem Pages.complete (h : Pages f limit none reads) (hlimit : 1 ≤ limit)
    (hstable : StableCreation reads) {id : Ulid}
    (hpresent : ∀ x ∈ reads, ∃ r ∈ x.1.jobs.rows, r.id = id ∧ f.matches r) :
    id ∈ (pagedRows reads).map JobRecord.id := by
  have hwalk := h.walk (by omega : 0 ≤ limit)
  obtain ⟨x, hx⟩ := List.exists_mem_of_ne_nil reads (by cases h <;> exact List.cons_ne_nil _ _)
  obtain ⟨r, hr, hid, -⟩ := hpresent x hx
  -- the job stands in the place of this row in all the states
  have hplace : ∀ y ∈ matchingReads f reads, ∃ r' ∈ y.1, r'.position = r.position := by
    intro y hy
    obtain ⟨x', hx', rfl⟩ := List.mem_map.mp hy
    obtain ⟨r', hr', hid', hmatches⟩ := hpresent x' hx'
    exact ⟨r', List.mem_filter.mpr ⟨hr', hmatches⟩,
      hstable.position_eq hx' hx hr' hr (hid'.trans hid.symm)⟩
  obtain ⟨r', hr', hpos⟩ := hwalk.complete nodup_matchingReads (by omega) rfl hplace
  rw [returned_matchingReads] at hr'
  refine List.mem_map.mpr ⟨r', hr', ?_⟩
  have hid' : r'.id = r.id := congrArg (fun p => (ofLex p).2) hpos
  exact hid'.trans hid

/-- **Over a state that stays as it is, a walk returns the filtered table in descending
    order.** -/
theorem Pages.constant (h : Pages f limit none reads) (hlimit : 1 ≤ limit) {s : PostgresStore}
    (hsame : ∀ x ∈ reads, x.1 = s) :
    pagedRows reads = descending JobRecord.position (s.matching f) := by
  have hrows : ∀ y ∈ matchingReads f reads, y.1 = s.matching f := by
    intro y hy
    obtain ⟨x, hx, rfl⟩ := List.mem_map.mp hy
    show x.1.matching f = s.matching f
    rw [hsame x hx]
  have hwalk := (h.walk (by omega : 0 ≤ limit)).constant (nodup_matching s f) (by omega) hrows
  rwa [returned_matchingReads] at hwalk

/-- Over a state that stays as it is, a walk comes to an end. -/
theorem Pages.exists_constant (hlimit : 0 ≤ limit) (s : PostgresStore) (f : HistoryFilter) :
    ∃ reads, Pages f limit none reads ∧ ∀ x ∈ reads, x.1 = s := by
  obtain ⟨reads, hwalk, hsame⟩ :=
    Walk.exists_constant JobRecord.position limit.toNat none (s.matching f)
  suffices hpages : ∀ cursor : Option (DateTime × Ulid),
      Walk JobRecord.position limit.toNat (cursor.map toLex) reads →
        ∃ reads', Pages f limit cursor reads' ∧ ∀ x ∈ reads', x.1 = s from hpages none hwalk
  clear hwalk
  intro cursor hwalk
  generalize hc : cursor.map toLex = c at hwalk
  induction hwalk generalizing cursor with
  | @stop _ rows hempty =>
    subst hc
    obtain rfl : rows = s.matching f := hsame _ List.mem_cons_self
    refine ⟨_, .stop ((queryJobs_page hlimit cursor).trans (congrArg _ hempty)), ?_⟩
    exact List.forall_mem_singleton.mpr rfl
  | @next _ rows p last reads hpage hlast _ ih =>
    subst hc
    obtain rfl : rows = s.matching f := hsame _ List.mem_cons_self
    obtain ⟨reads', hreads, hsame'⟩ :=
      ih (fun x hx => hsame x (List.mem_cons_of_mem _ hx)) (some (last.createdAt, last.id)) rfl
    refine ⟨_, .next ((queryJobs_page hlimit cursor).trans (congrArg _ hpage)) hlast hreads, ?_⟩
    exact List.forall_mem_cons.mpr ⟨rfl, hsame'⟩

/-- **A walk through the pages** of any filter, with any limit, over any states in which a job
    keeps its creation time: what it returns descends in creation time and id, so no job comes
    twice; each row is one of the state it was read from and matches the filter; a job that
    is there and matches in all the states comes once; and over a state that stays as it is
    the walk is the filtered table, in descending order.  Over such a state there is a walk that
    comes to an end. -/
theorem pages_exact (hlimit : 1 ≤ limit) :
    (∀ reads, Pages f limit none reads → StableCreation reads →
      (pagedRows reads).Pairwise (fun a b => b.position < a.position) ∧
      ((pagedRows reads).map JobRecord.id).Nodup ∧
      (∀ x ∈ reads, ∀ r ∈ x.2, r ∈ x.1.jobs.rows ∧ f.matches r) ∧
      (∀ id, (∀ x ∈ reads, ∃ r ∈ x.1.jobs.rows, r.id = id ∧ f.matches r) →
        ((pagedRows reads).map JobRecord.id).count id = 1) ∧
      ∀ s, (∀ x ∈ reads, x.1 = s) →
        pagedRows reads = descending JobRecord.position (s.matching f)) ∧
    ∀ s, ∃ reads, Pages f limit none reads ∧ (∀ x ∈ reads, x.1 = s) ∧
      pagedRows reads = descending JobRecord.position (s.matching f) := by
  have hlimit' : 0 ≤ limit := by omega
  constructor
  · intro reads h hstable
    have hids := h.nodup_ids hlimit' hstable
    refine ⟨h.pairwise hlimit', hids, fun x hx r hr => ?_, fun id hpresent => ?_, fun s hsame => ?_⟩
    · exact h.mem_read hlimit' hx hr
    · exact List.count_eq_one_of_mem hids (h.complete hlimit hstable hpresent)
    · exact h.constant hlimit hsame
  · intro s
    obtain ⟨reads, h, hsame⟩ := Pages.exists_constant hlimit' s f
    exact ⟨reads, h, hsame, h.constant hlimit hsame⟩

end Pages

/-! ### Creation times in a run -/

section Creation

variable {tr tr' : History} {s s' : PostgresStore} {id : Ulid}

/-- The calls of the history that present the id to `enqueue` are one call. -/
theorem FreshIds.eq_of_enqueue (h : FreshIds tr) {m m' : Trace.Move PostgresStore Event}
    (hm : m ∈ tr) (hm' : m' ∈ tr) (hid : m.label.call.enqueues = some id)
    (hid' : m'.label.call.enqueues = some id) : m = m' := by
  by_contra hne
  have hdistinct : tr.Pairwise (fun a b => ∀ k, a.label.call.enqueues = some k →
      ∀ k', b.label.call.enqueues = some k' → k ≠ k') := List.pairwise_filterMap.mp h
  have hsymm : Std.Symm (fun a b : Trace.Move PostgresStore Event =>
      ∀ k, a.label.call.enqueues = some k → ∀ k', b.label.call.enqueues = some k' → k ≠ k') :=
    ⟨fun _ _ hab k hk k' hk' => (hab k' hk' k hk).symm⟩
  exact hdistinct.forall hm hm' hne id hid id hid' rfl

/-- **The identity columns of a stored job** are those its `enqueue` wrote. -/
theorem identity_of_run (h : Run tr s) {j : Job} (hj : s.view id = some j) :
    ∃ m ∈ tr, ∃ new, m.label.call = .enqueue new ∧ new.id = id ∧
      j.row.identity = new.record.identity := by
  have hinv : ∀ j ∈ s.view id, ∃ m ∈ tr, ∃ new, m.label.call = .enqueue new ∧ new.id = id ∧
      j.row.identity = new.record.identity := by
    refine Run.job (I := fun tr job => ∀ j ∈ job, ∃ m ∈ tr, ∃ new,
      m.label.call = .enqueue new ∧ new.id = id ∧ j.row.identity = new.record.identity)
      (by simp) ?_ ?_ h
    · intro tr job m hI _ j hj
      obtain ⟨m', hm', horigin⟩ := hI j hj
      exact ⟨m', List.mem_append_left _ hm', horigin⟩
    · intro tr job job' m hI _ hid' hstep j' hj'
      obtain rfl : job' = some j' := hj'
      cases job with
      | none =>
        -- the insert itself
        obtain ⟨new, hcall, rfl⟩ := hstep.enqueue_of_none
        exact ⟨m, by simp, new, hcall, hid' _ rfl, rfl⟩
      | some j =>
        obtain ⟨m', hm', new, hcall, hnew, hsame⟩ := hI j rfl
        exact ⟨m', List.mem_append_left _ hm', new, hcall, hnew, hstep.identity.trans hsame⟩
  exact hinv j hj

/-- **Under fresh ids a job is never seen under two creation times**: two states of one run
    agree on it, also when it was removed in between. -/
theorem createdAt_of_run (h : Run tr s) (h' : Run (tr ++ tr') s') (hfresh : FreshIds (tr ++ tr'))
    {r r' : JobRecord} (hr : r ∈ s.jobs.rows) (hr' : r' ∈ s'.jobs.rows) (hid : r.id = r'.id) :
    r.createdAt = r'.createdAt := by
  obtain ⟨m, hm, new, hcall, hnew, hsame⟩ :=
    identity_of_run h (view_eq_some.mpr ⟨Table.find?_key hr, rfl⟩ :
      s.view r.id = some ⟨r, s.journalOf r.id⟩)
  obtain ⟨m', hm', new', hcall', hnew', hsame'⟩ :=
    identity_of_run h' (view_eq_some.mpr ⟨Table.find?_key hr', rfl⟩ :
      s'.view r'.id = some ⟨r', s'.journalOf r'.id⟩)
  have hm₁ : m.label.call.enqueues = some r.id := by rw [hcall, ← hnew]; rfl
  have hm₁' : m'.label.call.enqueues = some r.id := by rw [hcall', hid, ← hnew']; rfl
  obtain rfl := hfresh.eq_of_enqueue (List.mem_append_left _ hm) hm' hm₁ hm₁'
  obtain rfl := Call.enqueue.inj (hcall.symm.trans hcall')
  have hcolumns : r.identity = r'.identity := hsame.trans hsame'.symm
  simp only [JobRecord.identity, Prod.mk.injEq] at hcolumns
  exact hcolumns.2.2.1

end Creation

/-! ### A sample walk -/

/-- A job of the sample kind, with its id and its creation time. -/
def sampleAt (id : Ulid) (createdAt : DateTime) : NewJob :=
  { sampleJob with id := id, createdAt := createdAt }

/-- Two jobs share a creation time, and a newer one is there as well. -/
def sampleListed : List (Env × Call) :=
  [(.ofNow 0, .enqueue (sampleAt 0 5)), (.ofNow 0, .enqueue (sampleAt 1 5)),
    (.ofNow 0, .enqueue (sampleAt 2 7))]

/-- Before the second page a newer job comes, and the oldest one is claimed. -/
def sampleMoved : List (Env × Call) :=
  sampleListed ++ [(.ofNow 9, .enqueue (sampleAt 3 9)), (.ofNow 9, .claimNext ["feed"] 0 9 "w")]

def sampleFilter : HistoryFilter := ⟨some "feed", none, none, none, none, none⟩

/-- A page of two, a page of one, an empty page. -/
def samplePages : List (PostgresStore × List JobRecord) :=
  let s := (empty.replay sampleListed).2
  let s' := (empty.replay sampleMoved).2
  [(s, [(sampleAt 2 7).record, (sampleAt 1 5).record]),
    (s', [(sampleAt 0 5).record.claim "w" 18]), (s', [])]

/-- The job of the second page comes once, though another job came and it was claimed. -/
theorem pages_exact_samplePages : ((pagedRows samplePages).map JobRecord.id).count 0 = 1 := by
  have hpages : Pages sampleFilter 2 none samplePages :=
    .next (by decide) rfl (.next (by decide) rfl (.stop (by decide)))
  have hstable : StableCreation samplePages := by
    unfold StableCreation
    decide
  obtain ⟨-, -, -, honce, -⟩ := (pages_exact (by decide)).1 samplePages hpages hstable
  exact honce 0 (by decide)

end Venturi
