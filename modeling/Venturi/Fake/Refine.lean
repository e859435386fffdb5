import Venturi.Fake.Mirror
import Venturi.Postgres.Storage
import Venturi.Trace.Run

namespace Venturi

open Sql

/-!
# The in-memory store refines the adapter (`test_support.rs`, `postgres/mod.rs`)

* `Request` — a call of the `Store` trait, the two queries included.
* `Request.Admissible` — what the queue and the worker keep to, and what the comparison leaves
  out: lease additions that saturate, ties between creation times, a stale batch that
  overflows.
* `Storage.Serves` — the database takes the values of the request and gives them back unchanged;
  memory keeps whatever it is handed.
* `Request.Agree` — when the replies of the two stores count as the same.
* `Lockstep` — the two stores under the same requests, each in an order of its own.
* `fake_refines` — every reply agrees.
-/

/-! ### Requests -/

/-- A call of the `Store` trait. -/
inductive Request where
  | call (c : Call)
  | queryJobs (filter : HistoryFilter)
  | stats

/-- What it returns. -/
abbrev Request.Reply : Request → Type
  | .call c => Except Error c.Answer
  | .queryJobs _ => Except QueryError (List JobRecord)
  | .stats => Store.Snapshot

/-- Serve a request from the database. -/
def PostgresStore.serve (s : PostgresStore) (env : Env) : (q : Request) → q.Reply × PostgresStore
  | .call c => s.exec env c
  | .queryJobs filter => (s.queryJobs filter, s)
  | .stats => (s.statsAt env.now, s)

/-- Serve a request from the database behind a storage. -/
def Storage.serve (st : Storage) (s : PostgresStore) (env : Env) :
    (q : Request) → q.Reply × PostgresStore
  | .call c => st.exec s env c
  | .queryJobs filter => (st.queryJobs s filter, s)
  | .stats => (s.statsAt env.now, s)

/-- The values of the request are kept as they are. -/
def Storage.Serves (st : Storage) : Request → Prop
  | .call c => st.Keeps c
  | .queryJobs filter => st.filter filter = .ok filter
  | .stats => True

/-- **A request whose values are kept** is served as it is. -/
theorem Storage.Serves.serve {st : Storage} {q : Request} (h : st.Serves q) (s : PostgresStore)
    (env : Env) : st.serve s env q = s.serve env q := by
  cases q with
  | call c => exact exec_of_keeps h
  | queryJobs filter =>
    have hfilter : st.filter filter = .ok filter := h
    simp only [Storage.serve, Storage.queryJobs, hfilter]
    rfl
  | stats => rfl

/-- Serve a request from memory; no reply is a panic, which a poisoned mutex turns every
    request into. -/
def FakeStore.serve (f : FakeStore) (env : Env) : (q : Request) → Option q.Reply × FakeStore
  | .call c => f.exec env c
  | .queryJobs filter =>
      if f.poisoned then (none, f) else (some (.ok (f.queryJobs env.rank filter)), f)
  | .stats => if f.poisoned then (none, f) else (some (f.stats env.now env.rank), f)

/-- The requests the comparison is about: an `enqueue` of a fresh id at a creation time of its
    own, tiers and run numbers in range, lease additions that are exact, at most 100 claims
    stale, limits that are not negative. -/
def Request.Admissible (f : FakeStore) (env : Env) : Request → Prop
  | .call (.enqueue new) =>
      f.jobs.find? new.id = none ∧ ∀ r ∈ f.jobs.rows, r.createdAt ≠ new.createdAt
  | .call (.claimNext kinds floor lease claimedBy) =>
      addDuration env.now lease = env.now + lease ∧
        ∀ r, (f.claimNext env.now env.rank kinds floor lease claimedBy).1 = some (some r) →
          r.runCount ≤ i32Max
  | .call (.settle _ _ runNo _ journal) => runNo ≤ i32Max ∧ journal.runNo ≤ i32Max
  | .call (.recover _ _ _ runNo journal) => runNo ≤ i32Max ∧ journal.runNo ≤ i32Max
  | .call (.extendLease _ _ runNo lease) =>
      runNo ≤ i32Max ∧ addDuration env.now lease = env.now + lease
  | .call (.mergeInto _ update journal) =>
      (∀ u ∈ update, 0 ≤ u.priority ∧ u.priority ≤ 2) ∧ journal.runNo ≤ i32Max
  | .call .findStale => f.jobs.rows.countP (JobRecord.stale env.now) ≤ 100
  | .queryJobs filter => ∀ limit ∈ filter.limit, 0 ≤ limit
  | _ => True

/-- A lease of at most 365 days that ends in the range of the clock is added exactly. -/
theorem addDuration_exact {now : DateTime} {lease : Duration}
    (hlease : lease ≤ 365 * 24 * 60 * 60 * 10 ^ 9) (hrange : now + lease ≤ maxUtc) :
    addDuration now lease = now + lease := by
  unfold addDuration
  rw [if_pos (hlease.trans (by decide)), if_pos hrange]

/-- When answers count as the same: journals up to their entry ids, stale claims as a set. -/
def Call.Agree : (c : Call) → c.Answer → c.Answer → Prop
  | .journal _, l, l' => SameEntries l l'
  | .findStale, l, l' => l.Perm l'
  | _, a, a' => a = a'

/-- When replies count as the same. -/
inductive Request.Agree : (q : Request) → q.Reply → q.Reply → Prop
  | call {c : Call} {a a' : c.Answer} (h : c.Agree a a') : Agree (.call c) (.ok a) (.ok a')
  | error (c : Call) (e : Error) : Agree (.call c) (.error e) (.error e)
  | queryJobs (filter : HistoryFilter) (jobs : List JobRecord) :
      Agree (.queryJobs filter) (.ok jobs) (.ok jobs)
  | stats {a b : Store.Snapshot} (h : a.Same b) : Agree .stats a b

/-! ### One request -/

namespace Simulates

variable {f : FakeStore} {s : PostgresStore} {env env' : Env}

/-- The two stores start alike. -/
theorem start : Simulates FakeStore.new PostgresStore.empty where
  jobs _ := .none
  unlocked := rfl
  unforced := rfl
  wellFormed := FakeStore.WellFormed.new
  orderly := ⟨by simp [PostgresStore.empty], by simp [PostgresStore.empty]⟩

/-- **One call** gets the same reply and leaves the stores mirrored. -/
theorem call (h : Simulates f s) (hnow : env.now = env'.now) {c : Call}
    (hc : (Request.call c).Admissible f env) :
    ∃ r, (f.execLocked env c).1 = some r ∧ (Request.call c).Agree r (s.exec env' c).1 ∧
      Mirrors (f.execLocked env c).2 (s.exec env' c).2 := by
  obtain ⟨now, rank⟩ := env
  obtain ⟨now', rank'⟩ := env'
  obtain rfl : now = now' := hnow
  cases c with
  | enqueue new =>
    obtain ⟨hreply, hmirrors⟩ := h.enqueue hc.1
    refine ⟨(f.enqueue new).1, rfl, ?_, hmirrors⟩
    show (Request.call (.enqueue new)).Agree _ (s.commit (s.enqueue new)).1
    rw [← hreply]
    cases (f.enqueue new).1 with
    | error e => exact .error _ e
    | ok u => exact .call rfl
  | claimNext kinds floor lease claimedBy =>
    obtain ⟨o, s', hok, hreply, hmirrors⟩ := h.claimNext rank' kinds floor claimedBy
      hc.1 hc.2
    simp only [PostgresStore.exec, hok]
    refine ⟨.ok o, ?_, .call rfl, hmirrors⟩
    simp only [FakeStore.execLocked, hreply]
    rfl
  | settle id claimedBy runNo settlement journal =>
    obtain ⟨b, s', hok, rfl, hmirrors⟩ := h.settle id claimedBy settlement hc.1 hc.2
    simp only [PostgresStore.exec, hok]
    exact ⟨_, rfl, .call rfl, hmirrors⟩
  | journal id => exact ⟨_, rfl, .call (h.journal id), h.toMirrors⟩
  | nextVisibleAt kinds => exact ⟨_, rfl, .call (h.nextVisibleAt kinds), h.toMirrors⟩
  | dedupCandidate kind dedupKey =>
    exact ⟨_, rfl, .call (h.dedupCandidate kind dedupKey), h.toMirrors⟩
  -- a reply without an order is compared as a set
  | findStale => exact ⟨_, rfl, .call (h.findStale hc), h.toMirrors⟩
  | recover id visibleAt failureCount runNo journal =>
    obtain ⟨b, s', hok, rfl, hmirrors⟩ := h.recover now id visibleAt failureCount hc.1 hc.2
    simp only [PostgresStore.exec, hok]
    exact ⟨_, rfl, .call rfl, hmirrors⟩
  | extendLease id claimedBy runNo lease =>
    obtain ⟨b, s', hok, rfl, hmirrors⟩ := h.extendLease id claimedBy hc.1 hc.2
    simp only [PostgresStore.exec, hok]
    exact ⟨_, rfl, .call rfl, hmirrors⟩
  | job id => exact ⟨_, rfl, .call (h.find? id), h.toMirrors⟩
  | cleanup criteria =>
    obtain ⟨n, s', hok, rfl, hmirrors⟩ := h.cleanup rank criteria
    simp only [PostgresStore.exec, hok]
    exact ⟨_, rfl, .call rfl, hmirrors⟩
  | mergeInto id update journal =>
    obtain ⟨b, s', hok, rfl, hmirrors⟩ := h.mergeInto id hc.1 hc.2
    simp only [PostgresStore.exec, hok]
    exact ⟨_, rfl, .call rfl, hmirrors⟩

/-- An admissible merge writes a tier in range. -/
theorem mergesValidTier_of_admissible {c : Call} (hc : (Request.call c).Admissible f env) :
    FakeStore.mergesValidTier c := by
  cases c with
  | mergeInto id update journal =>
    cases update with
    | none => trivial
    | some u => exact hc.1 u rfl
  | _ => trivial

/-- **One request** gets the same reply from both stores, and they stay in the relation. -/
theorem serve (h : Simulates f s) (env env' : Env) (hnow : env.now = env'.now) {q : Request}
    (hq : q.Admissible f env) :
    ∃ r, (f.serve env q).1 = some r ∧ q.Agree r (s.serve env' q).1 ∧
      Simulates (f.serve env q).2 (s.serve env' q).2 := by
  cases q with
  | call c =>
    have hlocked : f.exec env c = f.execLocked env c := by
      rw [FakeStore.exec, if_neg (by simp [h.unlocked])]
    obtain ⟨r, hreply, hagree, hmirrors⟩ := h.call hnow hq
    have hwell := h.wellFormed.step (.call env c (mergesValidTier_of_admissible hq))
    have hs : s.Step ⟨env', c, (s.exec env' c).1⟩ (s.exec env' c).2 := rfl
    -- the creation times stay apart, since those of new jobs are new
    have horderly : (s.exec env' c).2.Orderly := by
      refine h.orderly.step hs (fun new hcall row hrow => ?_)
      obtain rfl : c = .enqueue new := hcall
      exact hq.2 row (h.rows.mem_iff.mpr hrow)
    rw [hlocked] at hwell
    refine ⟨r, ?_, hagree, ?_⟩
    · show (f.exec env c).1 = some r
      rw [hlocked, hreply]
    · show Simulates (f.exec env c).2 (s.exec env' c).2
      rw [hlocked]
      exact ⟨hmirrors, hwell, horderly⟩
  | queryJobs filter =>
    have hfree : ¬ f.poisoned := by simp [h.unlocked]
    have hjobs := h.queryJobs env.rank hq
    simp only [FakeStore.serve, PostgresStore.serve, hfree, hjobs]
    exact ⟨_, rfl, .queryJobs filter _, h⟩
  | stats =>
    have hfree : ¬ f.poisoned := by simp [h.unlocked]
    have hsame := h.stats env'.now env.rank
    simp only [FakeStore.serve, PostgresStore.serve, hfree, hnow]
    exact ⟨_, rfl, .stats hsame, h⟩

end Simulates

/-! ### Lockstep -/

/-- A request to both stores at one time, with the order each visits its jobs in. -/
structure Exchange where
  now : DateTime
  mapOrder : Ulid → Nat
  scanOrder : Ulid → Nat
  request : Request

/-- What the in-memory store does. -/
def Exchange.fake (x : Exchange) (f : FakeStore) : Option x.request.Reply × FakeStore :=
  f.serve ⟨x.now, x.mapOrder⟩ x.request

/-- What the database does. -/
def Exchange.database (st : Storage) (x : Exchange) (s : PostgresStore) :
    x.request.Reply × PostgresStore :=
  st.serve s ⟨x.now, x.scanOrder⟩ x.request

/-- Both stores serve an admissible request, whose values the database keeps. -/
def Exchange.Step (st : Storage) (x : Exchange) (p p' : FakeStore × PostgresStore) : Prop :=
  x.request.Admissible p.1 ⟨x.now, x.mapOrder⟩ ∧ st.Serves x.request ∧
    p' = ((x.fake p.1).2, (x.database st p.2).2)

/-- The runs of both stores, from empty, under any such requests. -/
abbrev Lockstep (st : Storage) : List (Trace.Move (FakeStore × PostgresStore) Exchange) →
    FakeStore × PostgresStore → Prop :=
  Trace.Run (FakeStore.new, PostgresStore.empty) (fun _ p x p' => x.Step st p p')

section Lockstep

variable {st : Storage} {tr : List (Trace.Move (FakeStore × PostgresStore) Exchange)}
  {p : FakeStore × PostgresStore}

/-- **One exchange**: the replies agree and the stores stay in the relation. -/
theorem Exchange.serve {x : Exchange} (hp : Simulates p.1 p.2)
    (hadmissible : x.request.Admissible p.1 ⟨x.now, x.mapOrder⟩) (hkept : st.Serves x.request) :
    ∃ r, (x.fake p.1).1 = some r ∧ x.request.Agree r (x.database st p.2).1 ∧
      Simulates (x.fake p.1).2 (x.database st p.2).2 := by
  rw [Exchange.database, hkept.serve]
  exact hp.serve ⟨x.now, x.mapOrder⟩ ⟨x.now, x.scanOrder⟩ rfl hadmissible

/-- The stores stay in the relation. -/
theorem Lockstep.simulates (h : Lockstep st tr p) : Simulates p.1 p.2 := by
  refine Trace.Run.invariant (I := fun _ p => Simulates p.1 p.2) Simulates.start ?_ h
  rintro tr p x p' - hp ⟨hadmissible, hkept, rfl⟩
  obtain ⟨-, -, -, hsimulates⟩ := Exchange.serve hp hadmissible hkept
  exact hsimulates

/-- **The in-memory store refines the adapter.** In every run of both stores under the same
    requests, from empty, whatever order each visits its jobs in: every request gets a reply
    from memory that agrees with the one from the database. -/
theorem fake_refines (h : Lockstep st tr p) :
    ∀ m ∈ tr, ∃ r, (m.label.fake m.before.1).1 = some r ∧
      m.label.request.Agree r (m.label.database st m.before.2).1 := by
  intro m hm
  obtain ⟨tr₁, tr₂, rfl⟩ := List.append_of_mem hm
  obtain ⟨hrun, ⟨hadmissible, hkept, -⟩, -⟩ := h.split
  obtain ⟨r, hreply, hagree, -⟩ :=
    Exchange.serve (Lockstep.simulates hrun) hadmissible hkept
  exact ⟨r, hreply, hagree⟩

end Lockstep

/-- A request at time 0. -/
def sampleExchange (q : Request) : Exchange := ⟨0, fun _ => 0, fun _ => 0, q⟩

/-- The step a request takes both stores. -/
def Exchange.move (st : Storage) (x : Exchange) (p : FakeStore × PostgresStore) :
    Trace.Move (FakeStore × PostgresStore) Exchange :=
  ⟨p, x, (x.fake p.1).2, (x.database st p.2).2⟩

/-- The sample job is enqueued, and claimed. -/
def sampleEnqueued : Trace.Move (FakeStore × PostgresStore) Exchange :=
  (sampleExchange (.call (.enqueue sampleJob))).move .nullFree (FakeStore.new, PostgresStore.empty)

def sampleTaken : Trace.Move (FakeStore × PostgresStore) Exchange :=
  (sampleExchange (.call (.claimNext ["feed"] 0 (10 ^ 9) "w"))).move .nullFree sampleEnqueued.after

/-- Both stores answer alike to the claim of the sample job. -/
theorem fake_refines_sampleTaken :
    ∃ r, (sampleTaken.label.fake sampleTaken.before.1).1 = some r ∧
      sampleTaken.label.request.Agree r
        (sampleTaken.label.database .nullFree sampleTaken.before.2).1 := by
  have hfresh : sampleEnqueued.label.request.Admissible FakeStore.new ⟨0, fun _ => 0⟩ := by
    refine ⟨?_, ?_⟩ <;> decide
  have hclaims : ∀ o ∈ (sampleEnqueued.after.1.claimNext 0 (fun _ => 0) ["feed"] 0 (10 ^ 9) "w").1,
      ∀ r ∈ o, r.runCount ≤ i32Max := by
    decide
  have hclaim : sampleTaken.label.request.Admissible sampleEnqueued.after.1 ⟨0, fun _ => 0⟩ :=
    ⟨addDuration_exact (by decide) (by decide), fun r hr => hclaims (some r) hr r rfl⟩
  have hrun : Lockstep .nullFree ([] ++ [sampleEnqueued] ++ [sampleTaken]) sampleTaken.after :=
    .snoc (.snoc .start ⟨hfresh, rfl, rfl⟩) ⟨hclaim, rfl, rfl⟩
  exact fake_refines hrun sampleTaken (by simp)

/-- A job whose dedup key has a null character. -/
def nullKeyJob : NewJob := { sampleJob with dedupKey := some "a\x00b" }

/-- Memory takes it, the database does not. -/
theorem fake_accepts_nullKey :
    (Request.call (.enqueue nullKeyJob)).Admissible FakeStore.new ⟨0, fun _ => 0⟩ ∧
    ¬ ∃ r, (FakeStore.new.serve ⟨0, fun _ => 0⟩ (.call (.enqueue nullKeyJob))).1 = some r ∧
      (Request.call (.enqueue nullKeyJob)).Agree r
        (Storage.nullFree.serve PostgresStore.empty ⟨0, fun _ => 0⟩
          (.call (.enqueue nullKeyJob))).1 := by
  have hfake : (FakeStore.new.serve ⟨0, fun _ => 0⟩ (.call (.enqueue nullKeyJob))).1 =
    some (.ok ()) := rfl
  have hdatabase : (Storage.nullFree.serve PostgresStore.empty ⟨0, fun _ => 0⟩
      (.call (.enqueue nullKeyJob))).1 = .error (.database .characterNotInRepertoire) := rfl
  refine ⟨⟨?_, ?_⟩, ?_⟩
  · decide
  · decide
  · rw [hfake, hdatabase]
    rintro ⟨r, hreply, hagree⟩
    obtain rfl := Option.some.inj hreply
    cases hagree

end Venturi
