import Venturi.Fake.Reads
import Venturi.Postgres.Locks
import Venturi.Worker.Wait

namespace Venturi

open Sql Trace StoreProgram

/-!
# The job an attempt claims (`worker/mod.rs`, `postgres/mod.rs`, `test_support.rs`)

One claim attempt of a worker that is alone with its store, for both stores.

* `Selects` — the job an attempt is to claim: the first one its floor admits, else the first one
  of all tiers, else none.
* `Takes` — the claim of a job changes its four claim columns, and nothing else.
* `claimNext_stage` — what one `claim_next` finds and does, in the database and in memory.
* `claim_selects` — the attempt claims what it is to claim.
-/

/-! ### What is to be claimed -/

section Spec

variable {κ : Type} [LinearOrder κ]

/-- A stored job that may be claimed, of whatever tier. -/
def Claimable (view : Ulid → Option Job) (kinds : List String) (now : DateTime)
    (r : JobRecord) : Prop :=
  (view r.id).map Job.row = some r ∧ r.status = .pending ∧ r.visibleAt ≤ now ∧ r.kind ∈ kinds

/-- A job with the least key among these. -/
def IsFirst (key : JobRecord → κ) (among : JobRecord → Prop) (r : JobRecord) : Prop :=
  among r ∧ ∀ r', among r' → key r ≤ key r'

/-- The job an attempt is to claim. -/
inductive Selects (key : JobRecord → κ) (view : Ulid → Option Job) (kinds : List String)
    (floor : Int) (now : DateTime) : Option JobRecord → Prop
  | floored {r : JobRecord}
      (h : IsFirst key (fun r => Claimable view kinds now r ∧ floor ≤ r.priority) r) :
      Selects key view kinds floor now (some r)
  | unfloored {r : JobRecord}
      (hnone : ∀ r', Claimable view kinds now r' → ¬ floor ≤ r'.priority)
      (h : IsFirst key (Claimable view kinds now) r) : Selects key view kinds floor now (some r)
  | nothing (hnone : ∀ r, ¬ Claimable view kinds now r) : Selects key view kinds floor now none

/-- What one claim finds at its floor. -/
def Finds (key : JobRecord → κ) (view : Ulid → Option Job) (kinds : List String) (floor : Int)
    (now : DateTime) : Option JobRecord → Prop
  | some r => IsFirst key (fun r => Claimable view kinds now r ∧ floor ≤ r.priority) r
  | none => ∀ r, Claimable view kinds now r → ¬ floor ≤ r.priority

/-- The claim of a job changes its claim columns, and no other job. -/
def Takes (claimedBy : String) (expires : DateTime) (view view' : Ulid → Option Job)
    (r : JobRecord) : Prop :=
  ∃ log, view r.id = some ⟨r, log⟩ ∧
    view' = Function.update view r.id (some ⟨r.claim claimedBy expires, log⟩)

variable {key : JobRecord → κ} {view : Ulid → Option Job} {kinds : List String} {floor : Int}
  {now : DateTime} {r : JobRecord}

/-- What a claim scans for, of a table that shows these jobs. -/
theorem mem_candidates {jobs : Table JobRecord.id} {rank : Ulid → Nat}
    (hview : ∀ r, (view r.id).map Job.row = some r ↔ r ∈ jobs.rows) :
    r ∈ (jobs.scan rank).filter (JobRecord.eligible kinds floor now) ↔
      Claimable view kinds now r ∧ floor ≤ r.priority := by
  rw [List.mem_filter, Table.mem_scan, ← hview, JobRecord.eligible_iff, Claimable]
  tauto

/-- What a table with a journal shows of a row. -/
theorem map_row_find {jobs : Table JobRecord.id} {journalOf : Ulid → List JournalRecord}
    (r : JobRecord) :
    ((jobs.find? r.id).map fun row => (⟨row, journalOf r.id⟩ : Job)).map Job.row = some r ↔
      r ∈ jobs.rows := by
  rw [Option.map_map, Function.comp_def, Option.map_id']
  exact ⟨Table.mem_of_find?, Table.find?_key⟩

/-- Where no tier is above `FLOOR_ALL`, a claim there is a claim of all tiers. -/
theorem Finds.selects (htiers : ∀ r, Claimable view kinds now r → floorAll ≤ r.priority)
    (hnone : Finds key view kinds floor now none) {found : Option JobRecord}
    (h : Finds key view kinds floorAll now found) : Selects key view kinds floor now found := by
  cases found with
  | none => exact .nothing (fun r hr => h r hr (htiers r hr))
  | some r =>
    obtain ⟨⟨hr, -⟩, hleast⟩ := h
    exact .unfloored hnone ⟨hr, fun r' hr' => hleast r' ⟨hr', htiers r' hr'⟩⟩

/-- Where the floor admits a job, the attempt is to claim the first one it admits. -/
theorem Selects.isFirst {r' : JobRecord} (h : Selects key view kinds floor now (some r))
    (hoffered : Claimable view kinds now r' ∧ floor ≤ r'.priority) :
    IsFirst key (fun r => Claimable view kinds now r ∧ floor ≤ r.priority) r := by
  cases h with
  | floored h => exact h
  | unfloored hnone => exact absurd hoffered.2 (hnone r' hoffered.1)

/-- Where the floor admits a job, one is to be claimed. -/
theorem Selects.ne_none (hoffered : Claimable view kinds now r ∧ floor ≤ r.priority) :
    ¬ Selects key view kinds floor now none := by
  rintro (_ | _ | hnone)
  exact hnone r hoffered.1

/-- **An attempt of two stages** selects what its first claim finds, or else what a claim of all
    tiers finds: `A` and `C` say that a claim found nothing, `B` and `D` what it did with the job
    it found, `N` and `T` the same of the attempt. -/
theorem selects_of_stages {A C N : Prop} {B D T : JobRecord → Prop}
    (htiers : ∀ r, Claimable view kinds now r → floorAll ≤ r.priority)
    (hfirst : (Finds key view kinds floor now none ∧ A) ∨
      ∃ r, Finds key view kinds floor now (some r) ∧ B r)
    (hsecond : (Finds key view kinds floorAll now none ∧ C) ∨
      ∃ r, Finds key view kinds floorAll now (some r) ∧ D r)
    (hnothing : A → C → N) (hfallback : ∀ r, A → D r → T r) (hclaimed : ∀ r, B r → T r) :
    (Selects key view kinds floor now none ∧ N) ∨
      ∃ r, Selects key view kinds floor now (some r) ∧ T r := by
  rcases hfirst with ⟨hnone, ha⟩ | ⟨r, hfound, hb⟩
  · -- the attempt is its second claim
    rcases hsecond with ⟨hnone', hc⟩ | ⟨r, hfound, hd⟩
    · exact .inl ⟨hnone.selects htiers hnone', hnothing ha hc⟩
    · exact .inr ⟨r, hnone.selects htiers hfound, hfallback r ha hd⟩
  · exact .inr ⟨r, .floored hfound, hclaimed r hb⟩

end Spec

/-! ### The database -/

namespace PostgresStore

/-- The `ORDER BY` of the claim. -/
def claimKey (r : JobRecord) : Int ×ₗ DateTime := toLex (r.priority, r.createdAt)

section Claim

variable {s s' : PostgresStore} {env : Env} {kinds : List String} {floor : Int}
  {lease : Duration} {claimedBy : String}

/-- An update of the jobs leaves the journal alone. -/
theorem updateJobs_journal {p : JobRecord → Bool} {set : JobRecord → JobRecord}
    {hset : ∀ r, (set r).id = r.id} {n : Nat} (h : s.updateJobs p set hset = .ok (n, s')) :
    s'.journal = s.journal := by
  unfold updateJobs at h
  split at h
  · obtain ⟨-, rfl⟩ := Prod.mk.inj (Except.ok.inj h)
    rfl
  · cases h

/-- A claim leaves the journal alone. -/
theorem claimNext_journal {rank : Ulid → Nat} {now : DateTime} {o : Option JobRecord}
    (h : s.claimNext now rank kinds floor lease claimedBy = .ok (o, s')) :
    s'.journal = s.journal := by
  simp only [claimNext] at h
  split at h
  · obtain ⟨-, rfl⟩ := Prod.mk.inj (Except.ok.inj h)
    rfl
  · split at h
    · obtain ⟨⟨n, s₁⟩, hupdate, h⟩ := bind_eq_ok.mp h
      obtain ⟨-, rfl⟩ := Prod.mk.inj (Except.ok.inj h)
      exact updateJobs_journal hupdate
    · cases h

/-- What the database shows of a row. -/
theorem map_row_view (r : JobRecord) : (s.view r.id).map Job.row = some r ↔ r ∈ s.jobs.rows :=
  map_row_find r

/-- **One claim of the database**: it finds nothing, or takes what it finds unless its run count
    is exhausted. -/
theorem claimNext_stage (s : PostgresStore) (env : Env) (kinds : List String) (floor : Int)
    (lease : Duration) (claimedBy : String) :
    (Finds claimKey s.view kinds floor env.now none ∧
      s.exec env (.claimNext kinds floor lease claimedBy) = (.ok none, s)) ∨
    ∃ r, Finds claimKey s.view kinds floor env.now (some r) ∧
      (r.runCount < i32Max → ∃ s',
        s.exec env (.claimNext kinds floor lease claimedBy) =
          (.ok (some (r.claim claimedBy (env.now + lease))), s') ∧
        Takes claimedBy (env.now + lease) s.view s'.view r ∧ s'.journal = s.journal) := by
  let candidates := (s.jobs.scan env.rank).filter (JobRecord.eligible kinds floor env.now)
  have hmem : ∀ r, r ∈ candidates ↔ Claimable s.view kinds env.now r ∧ floor ≤ r.priority :=
    fun _ => mem_candidates map_row_view
  have hrows : ∀ r ∈ candidates, r ∈ s.jobs.rows :=
    fun r hr => Table.mem_scan.mp (List.mem_of_mem_filter hr)
  have hclaim : s.claimNext env.now env.rank kinds floor lease claimedBy =
      s.claimFirst candidates env.now lease claimedBy := rfl
  rcases claimFirst_cases env.now lease claimedBy hrows with ⟨hempty, hok⟩ | ⟨r, hhead, hcases⟩
  · refine .inl ⟨fun r hr hfloor => ?_, ?_⟩
    · have hin := (hmem r).mpr ⟨hr, hfloor⟩
      rw [hempty] at hin
      exact List.not_mem_nil hin
    · rw [exec, hclaim, hok]
      rfl
  · obtain ⟨hr, hleast⟩ := orderBy_head?_eq_some hhead
    refine .inr ⟨r, ⟨(hmem r).mp hr, fun r' hr' => hleast r' ((hmem r').mpr hr')⟩, fun hmax => ?_⟩
    rcases hcases with ⟨-, s', hview, hok⟩ | ⟨hover, -⟩
    · refine ⟨s', by rw [exec, hclaim, hok]; rfl, ⟨s.journalOf r.id, ?_, hview⟩, ?_⟩
      · exact view_eq_some.mpr ⟨Table.find?_key (hrows r hr), rfl⟩
      · exact claimNext_journal (hclaim.trans hok)
    · omega

/-- The `CHECK` on the tiers. -/
theorem floorAll_le_of_claimable {now : DateTime} {r : JobRecord}
    (h : Claimable s.view kinds now r) : floorAll ≤ r.priority :=
  (s.tiers r ((map_row_view r).mp h.1)).1

/-- The second claim of an attempt whose first one found nothing. -/
theorem alone_fallback {w : Worker}
    (hfirst : s.exec env (.claimNext kinds floor w.config.lease w.identity) = (.ok none, s)) :
    alone (w.claimWithFallback kinds floor).run env s =
      s.exec env (.claimNext kinds floorAll w.config.lease w.identity) := by
  rw [Worker.claimWithFallback, run_call_bind, alone_call, hfirst]
  by_cases hfloor : floor = floorAll
  · subst hfloor
    exact hfirst.symm
  · show alone (if (none : Option JobRecord).isSome ∨ floor = floorAll then return none
      else call (.claimNext kinds floorAll w.config.lease w.identity)).run env s = _
    rw [if_neg (by simp [hfloor]), alone_only]

/-- An attempt whose first claim took a job. -/
theorem alone_claimed {w : Worker} {r : JobRecord}
    (hfirst : s.exec env (.claimNext kinds floor w.config.lease w.identity) = (.ok (some r), s')) :
    alone (w.claimWithFallback kinds floor).run env s = (.ok (some r), s') := by
  rw [Worker.claimWithFallback, run_call_bind, alone_call, hfirst]
  rfl

end Claim

end PostgresStore

/-! ### The in-memory store -/

namespace FakeStore

/-- Run a party's code in one environment, with nobody else around; a call that panics ends it
    without a result. -/
def alone {α : Type} (env : Env) (id : Ulid) : Program Effect.Answer α → FakeStore →
    Option α × FakeStore
  | .ret a, s => (some a, s)
  | .op (.call c) k, s =>
      match s.exec env c with
      | (some reply, s') => alone env id (k reply) s'
      | (none, s') => (none, s')
  | .op .now k, s => alone env id (k env.now) s
  | .op .newUlid k, s => alone env id (k id) s

section Claim

variable {s s' : FakeStore} {env : Env} {kinds : List String} {floor : Int} {lease : Duration}
  {claimedBy : String} {id : Ulid}

/-- What the store in memory shows of a row. -/
theorem map_row_view (r : JobRecord) : (s.view r.id).map Job.row = some r ↔ r ∈ s.jobs.rows :=
  map_row_find r

/-- **One claim in memory**, in whatever order the map is visited: it finds nothing, or takes
    what it finds unless its run count is exhausted. -/
theorem claimNext_stage (s : FakeStore) (hpoisoned : s.poisoned = false) (env : Env)
    (kinds : List String) (floor : Int) (lease : Duration) (claimedBy : String) :
    (Finds claimKey s.view kinds floor env.now none ∧
      s.exec env (.claimNext kinds floor lease claimedBy) = (some (.ok none), s)) ∨
    ∃ r, Finds claimKey s.view kinds floor env.now (some r) ∧
      (r.runCount < u32Max → ∃ s',
        s.exec env (.claimNext kinds floor lease claimedBy) =
          (some (.ok (some (r.claim claimedBy (addDuration env.now lease)))), s') ∧
        Takes claimedBy (addDuration env.now lease) s.view s'.view r ∧ s'.journal = s.journal) := by
  let candidates := (s.jobs.scan env.rank).filter (JobRecord.eligible kinds floor env.now)
  have hmem : ∀ r, r ∈ candidates ↔ Claimable s.view kinds env.now r ∧ floor ≤ r.priority :=
    fun _ => mem_candidates map_row_view
  have hexec : s.exec env (.claimNext kinds floor lease claimedBy) =
      s.execLocked env (.claimNext kinds floor lease claimedBy) := by
    rw [exec, hpoisoned]
    rfl
  rw [hexec, execLocked, claimNext]
  cases hbest : candidates.foldl better none with
  | none =>
    obtain ⟨hempty, -⟩ := foldl_better_eq_none hbest
    refine .inl ⟨fun r hr hfloor => ?_, rfl⟩
    have hin := (hmem r).mpr ⟨hr, hfloor⟩
    rw [hempty] at hin
    exact List.not_mem_nil hin
  | some r =>
    obtain ⟨hr, hleast⟩ := foldl_better_eq_some hbest
    refine .inr ⟨r, ⟨(hmem r).mp hr, fun r' hr' => hleast r' ((hmem r').mpr hr')⟩, fun hmax => ?_⟩
    have hmax' : r.runCount + 1 ≤ u32Max := hmax
    simp only [hmax', if_true]
    refine ⟨_, rfl, ⟨s.journalOf r.id, ?_, view_write s _⟩, rfl⟩
    have hrow : s.jobs.find? r.id = some r :=
      Table.find?_key (Table.mem_scan.mp (List.mem_of_mem_filter hr))
    rw [view, hrow]
    rfl

theorem alone_call {α : Type} {c : Call} {k : Except Error c.Answer → Program Effect.Answer α}
    {reply : Except Error c.Answer} (h : s.exec env c = (some reply, s')) :
    alone env id (.op (.call c) k) s = alone env id (k reply) s' := by
  rw [alone, h]

/-- The second claim of an attempt whose first one found nothing. -/
theorem alone_fallback {w : Worker} {reply : Except Error (Option JobRecord)}
    (hfirst : s.exec env (.claimNext kinds floor w.config.lease w.identity) =
      (some (.ok none), s))
    (hsecond : s.exec env (.claimNext kinds floorAll w.config.lease w.identity) =
      (some reply, s')) :
    alone env id (w.claimWithFallback kinds floor).run s = (some reply, s') := by
  rw [Worker.claimWithFallback, run_call_bind, alone_call hfirst]
  by_cases hfloor : floor = floorAll
  · subst hfloor
    exact hfirst.symm.trans hsecond
  · show alone env id (if (none : Option JobRecord).isSome ∨ floor = floorAll then return none
      else call (.claimNext kinds floorAll w.config.lease w.identity)).run s = _
    rw [if_neg (by simp [hfloor])]
    exact alone_call hsecond

/-- An attempt whose first claim took a job. -/
theorem alone_claimed {w : Worker} {r : JobRecord}
    (hfirst : s.exec env (.claimNext kinds floor w.config.lease w.identity) =
      (some (.ok (some r)), s')) :
    alone env id (w.claimWithFallback kinds floor).run s = (some (.ok (some r)), s') := by
  rw [Worker.claimWithFallback, run_call_bind, alone_call hfirst]
  rfl

end Claim

end FakeStore

/-! ### The attempt -/

/-- **The job an attempt claims.** A worker alone with its store claims, unless the run count of
    that job is exhausted, the first of the jobs its floor admits, or else the first of all that
    may be claimed, ties by id in memory; it returns none when none may be claimed.  The claim
    changes the claim columns of that row, no other job and no journal entry. -/
theorem claim_selects (w : Worker) (kinds : List String) (floor : Int) (env : Env) :
    (∀ s : PostgresStore,
      (Selects PostgresStore.claimKey s.view kinds floor env.now none ∧
        alone (w.claimWithFallback kinds floor).run env s = (.ok none, s)) ∨
      ∃ r, Selects PostgresStore.claimKey s.view kinds floor env.now (some r) ∧
        (r.runCount < i32Max → ∃ s',
          alone (w.claimWithFallback kinds floor).run env s =
            (.ok (some (r.claim w.identity (env.now + w.config.lease))), s') ∧
          Takes w.identity (env.now + w.config.lease) s.view s'.view r ∧
          s'.journal = s.journal)) ∧
    ∀ (s : FakeStore) (id : Ulid), s.poisoned = false →
      (∀ r ∈ s.jobs.rows, floorAll ≤ r.priority) →
      (Selects FakeStore.claimKey s.view kinds floor env.now none ∧
        FakeStore.alone env id (w.claimWithFallback kinds floor).run s = (some (.ok none), s)) ∨
      ∃ r, Selects FakeStore.claimKey s.view kinds floor env.now (some r) ∧
        (r.runCount < u32Max → ∃ s',
          FakeStore.alone env id (w.claimWithFallback kinds floor).run s =
            (some (.ok (some (r.claim w.identity (addDuration env.now w.config.lease)))), s') ∧
          Takes w.identity (addDuration env.now w.config.lease) s.view s'.view r ∧
          s'.journal = s.journal) := by
  constructor
  · intro s
    refine selects_of_stages (fun _ => PostgresStore.floorAll_le_of_claimable)
      (s.claimNext_stage env kinds floor w.config.lease w.identity)
      (s.claimNext_stage env kinds floorAll w.config.lease w.identity) ?_ ?_ ?_
    · intro hfirst hsecond
      exact (PostgresStore.alone_fallback hfirst).trans hsecond
    · intro r hfirst htakes hmax
      rw [PostgresStore.alone_fallback hfirst]
      exact htakes hmax
    · intro r htakes hmax
      obtain ⟨s', hfirst, htaken⟩ := htakes hmax
      exact ⟨s', PostgresStore.alone_claimed hfirst, htaken⟩
  · intro s id hpoisoned htiers
    refine selects_of_stages (fun r hr => htiers r ((FakeStore.map_row_view r).mp hr.1))
      (s.claimNext_stage hpoisoned env kinds floor w.config.lease w.identity)
      (s.claimNext_stage hpoisoned env kinds floorAll w.config.lease w.identity) ?_ ?_ ?_
    · intro hfirst hsecond
      exact FakeStore.alone_fallback hfirst hsecond
    · intro r hfirst htakes hmax
      obtain ⟨s', hsecond, htaken⟩ := htakes hmax
      exact ⟨s', FakeStore.alone_fallback hfirst hsecond, htaken⟩
    · intro r htakes hmax
      obtain ⟨s', hfirst, htaken⟩ := htakes hmax
      exact ⟨s', FakeStore.alone_claimed hfirst, htaken⟩

/-- Jobs of all tiers; the older of the two High jobs is not visible before 100. -/
def sampleMixed : PostgresStore :=
  (PostgresStore.empty.replay [
    (.ofNow 0, .enqueue sampleJob),
    (.ofNow 0, .enqueue { sampleJob with id := 1, priority := 0, createdAt := 5 }),
    (.ofNow 0, .enqueue { sampleJob with id := 2, priority := 2, createdAt := 1 }),
    (.ofNow 0, .enqueue { sampleJob with id := 3, createdAt := 2 }),
    (.ofNow 0, .enqueue
      { sampleJob with id := 4, priority := 0, createdAt := 3, visibleAt := 100 })]).2

/-- Under the floor of the Normal tier the oldest Normal job is claimed from the database; under
    no floor the High job that is visible is claimed from memory. -/
theorem claim_selects_sampleMixed :
    (∃ (r : JobRecord) (s' : PostgresStore), r.id = 0 ∧
      alone (sampleWorker.claimWithFallback ["feed"] 1).run (.ofNow 10) sampleMixed =
        (.ok (some (r.claim "w" (10 + sampleWorker.config.lease))), s') ∧
      Takes "w" (10 + sampleWorker.config.lease) sampleMixed.view s'.view r) ∧
    ∃ (r : JobRecord) (s' : FakeStore), r.id = 1 ∧
      FakeStore.alone (.ofNow 10) 7 (sampleWorker.claimWithFallback ["feed"] 0).run
          { FakeStore.new with jobs := sampleMixed.jobs } =
        (some (.ok (some (r.claim "w" (addDuration 10 sampleWorker.config.lease)))), s') ∧
      s'.journal = [] := by
  constructor
  · have hoffered : Claimable sampleMixed.view ["feed"] 10 sampleJob.record ∧
        1 ≤ sampleJob.record.priority := ⟨⟨rfl, rfl, by decide, by decide⟩, by decide⟩
    have hleast : ∀ r ∈ sampleMixed.jobs.rows, 1 ≤ r.priority →
        PostgresStore.claimKey r ≤ PostgresStore.claimKey sampleJob.record →
          r.id = 0 ∧ r.runCount < i32Max := by
      decide
    rcases (claim_selects sampleWorker ["feed"] 1 (.ofNow 10)).1 sampleMixed with
      ⟨hselects, -⟩ | ⟨r, hselects, hclaims⟩
    · exact absurd hselects (Selects.ne_none hoffered)
    · obtain ⟨hr, hfirst⟩ := hselects.isFirst hoffered
      obtain ⟨hid, hmax⟩ := hleast r ((PostgresStore.map_row_view r).mp hr.1.1) hr.2
        (hfirst _ hoffered)
      obtain ⟨s', hclaim, htakes, -⟩ := hclaims hmax
      exact ⟨r, s', hid, hclaim, htakes⟩
  · let high : JobRecord := { sampleJob.record with id := 1, priority := 0, createdAt := 5 }
    have hoffered : Claimable (FakeStore.view { FakeStore.new with jobs := sampleMixed.jobs })
        ["feed"] 10 high ∧ 0 ≤ high.priority := ⟨⟨rfl, rfl, by decide, by decide⟩, by decide⟩
    have hleast : ∀ r ∈ sampleMixed.jobs.rows, r.visibleAt ≤ 10 →
        FakeStore.claimKey r ≤ FakeStore.claimKey high → r.id = 1 ∧ r.runCount < u32Max := by
      decide
    rcases (claim_selects sampleWorker ["feed"] 0 (.ofNow 10)).2
        { FakeStore.new with jobs := sampleMixed.jobs } 7 rfl (by decide) with
      ⟨hselects, -⟩ | ⟨r, hselects, hclaims⟩
    · exact absurd hselects (Selects.ne_none hoffered)
    · obtain ⟨hr, hfirst⟩ := hselects.isFirst hoffered
      obtain ⟨hid, hmax⟩ := hleast r ((FakeStore.map_row_view r).mp hr.1.1) hr.1.2.2.1
        (hfirst _ hoffered)
      obtain ⟨s', hclaim, -, hjournal⟩ := hclaims hmax
      exact ⟨r, s', hid, hclaim, hjournal⟩

/-- A store in memory of this job alone. -/
def sampleHolding (r : JobRecord) : FakeStore :=
  { FakeStore.new with jobs := ⟨[r], List.nodup_singleton _⟩ }

/-! ### Jobs that are passed over -/

/-- The attempt returns the job it is to claim, or none. -/
def PostgresStore.Serves (s : PostgresStore) (w : Worker) (kinds : List String) (floor : Int)
    (env : Env) : Prop :=
  ∃ selected result s', Selects claimKey s.view kinds floor env.now selected ∧
    Venturi.alone (w.claimWithFallback kinds floor).run env s = (.ok result, s') ∧
    result.map JobRecord.id = selected.map JobRecord.id

/-- In memory too. -/
def FakeStore.Serves (s : FakeStore) (w : Worker) (kinds : List String) (floor : Int)
    (env : Env) : Prop :=
  ∃ selected result s', Selects claimKey s.view kinds floor env.now selected ∧
    alone env 0 (w.claimWithFallback kinds floor).run s = (some (.ok result), s') ∧
    result.map JobRecord.id = selected.map JobRecord.id

/-- The sample job, run as often as its column counts. -/
def sampleExhausted : PostgresStore where
  jobs := ⟨[{ sampleJob.record with runCount := i32Max }], List.nodup_singleton _⟩
  journal := Serial.empty
  tiers := by
    intro r hr
    obtain rfl := List.mem_singleton.mp hr
    decide
  references := by simp

/-- A job whose run count is exhausted is not claimed, nor is one merged into a tier above
    High. -/
theorem claim_passes_over :
    (¬ ∀ s : PostgresStore, s.Serves sampleWorker ["feed"] 0 (.ofNow 0)) ∧
    (¬ ∀ s : FakeStore, s.poisoned = false → (∀ r ∈ s.jobs.rows, 0 ≤ r.priority) →
      s.Serves sampleWorker ["feed"] 0 (.ofNow 0)) ∧
    ¬ ∀ s : FakeStore, s.poisoned = false → (∀ r ∈ s.jobs.rows, r.runCount = 0) →
      s.Serves sampleWorker ["feed"] 0 (.ofNow 0) := by
  refine ⟨fun hall => ?_, fun hall => ?_, fun hall => ?_⟩
  · obtain ⟨selected, result, s', -, hclaim, -⟩ := hall sampleExhausted
    have herror : (alone (sampleWorker.claimWithFallback ["feed"] 0).run (.ofNow 0)
        sampleExhausted).1 = .error (.database .numericValueOutOfRange) := by decide
    rw [hclaim] at herror
    cases herror
  · obtain ⟨selected, result, s', -, hclaim, -⟩ :=
      hall (sampleHolding { sampleJob.record with runCount := u32Max }) rfl (by decide)
    have hpanic : (FakeStore.alone (.ofNow 0) 0 (sampleWorker.claimWithFallback ["feed"] 0).run
        (sampleHolding { sampleJob.record with runCount := u32Max })).1 = none := by decide
    rw [hclaim] at hpanic
    cases hpanic
  · obtain ⟨selected, result, s', hselects, hclaim, hsame⟩ :=
      hall (sampleHolding { sampleJob.record with priority := -1 }) rfl (by decide)
    have hnone : (FakeStore.alone (.ofNow 0) 0 (sampleWorker.claimWithFallback ["feed"] 0).run
        (sampleHolding { sampleJob.record with priority := -1 })).1 = some (.ok none) := by decide
    rw [hclaim] at hnone
    obtain rfl := Except.ok.inj (Option.some.inj hnone)
    cases selected with
    | some r => cases hsame
    | none =>
      cases hselects with
      | nothing hnone =>
        exact hnone { sampleJob.record with priority := -1 } ⟨rfl, rfl, le_refl _, by decide⟩

end Venturi
