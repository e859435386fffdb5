import Venturi.Sql.Group
import Venturi.Store.Records

namespace Venturi

open Sql Collections List

/-!
# The live queue state (`store.rs`)

* `Store.Snapshot` — the result of `stats`.
* `Store.Snapshot.Of` — the snapshot describes a list of jobs; two snapshots that describe one
  list show the same (`Of.same`).
* `Of.job` — one more job, as a single pass over the jobs adds it.
-/

/-- `Snapshot`. -/
structure Store.Snapshot where
  pendingByKind : Tally String
  oldestPendingAge : Map String Duration
  claimed : Nat
  deadByKind : Tally String

/-- The age of a job, which clock skew does not make negative. -/
def age (now createdAt : DateTime) : Duration := (now - createdAt).toNat

/-- The earlier job is the older one. -/
theorem age_min (now a b : DateTime) : age now (min a b) = max (age now a) (age now b) := by
  have harith : ∀ now a b : Int, (now - min a b).toNat = max (now - a).toNat (now - b).toNat := by
    intro now a b
    omega
  exact harith now a b

/-- The kinds of the jobs with a status, one entry for each job. -/
def kindsWith (status : Status) (jobs : List JobRecord) : List String :=
  (jobs.filter (fun r => r.status = status)).map JobRecord.kind

/-- The creation times of the pending jobs of a kind. -/
def pendingTimes (kind : String) (jobs : List JobRecord) : List DateTime :=
  (jobs.filter (fun r => r.status = .pending ∧ r.kind = kind)).map JobRecord.createdAt

section Lists

variable {status : Status} {kind : String} {jobs : List JobRecord} {r : JobRecord}

theorem kindsWith_cons :
    kindsWith status (r :: jobs) =
      if r.status = status then r.kind :: kindsWith status jobs else kindsWith status jobs := by
  unfold kindsWith
  rw [List.filter_cons]
  split_ifs <;> simp_all

theorem pendingTimes_cons :
    pendingTimes kind (r :: jobs) =
      if r.status = .pending ∧ r.kind = kind then r.createdAt :: pendingTimes kind jobs
      else pendingTimes kind jobs := by
  unfold pendingTimes
  rw [List.filter_cons]
  split_ifs <;> simp_all

end Lists

namespace Store.Snapshot

/-- `Snapshot::default`. -/
def default : Snapshot := ⟨∅, ∅, 0, ∅⟩

/-- Equal as maps and counts. -/
structure Same (a b : Snapshot) : Prop where
  pending : ∀ kind, a.pendingByKind.lookup kind = b.pendingByKind.lookup kind
  oldest : ∀ kind, a.oldestPendingAge.lookup kind = b.oldestPendingAge.lookup kind
  claimed : a.claimed = b.claimed
  dead : ∀ kind, a.deadByKind.lookup kind = b.deadByKind.lookup kind

/-- The counts are those of the jobs. -/
structure Shows (snapshot : Snapshot) (jobs : List JobRecord) : Prop where
  pending : snapshot.pendingByKind.Counts (kindsWith .pending jobs)
  claimed : snapshot.claimed = (kindsWith .claimed jobs).length
  dead : snapshot.deadByKind.Counts (kindsWith .dead jobs)

/-- The snapshot describes the jobs at an instant. -/
structure Of (now : DateTime) (jobs : List JobRecord) (snapshot : Snapshot) : Prop where
  shows : snapshot.Shows jobs
  oldest : ∀ kind, snapshot.oldestPendingAge.lookup kind =
    (pendingTimes kind jobs).min?.map (age now)

variable {now : DateTime} {jobs jobs' : List JobRecord} {a b : Snapshot}

/-- **What describes the same jobs is the same.** -/
theorem Of.same (h : a.Of now jobs) (h' : b.Of now jobs') (hjobs : jobs ~ jobs') : a.Same b where
  pending := h.shows.pending.lookup_eq h'.shows.pending ((hjobs.filter _).map _)
  oldest kind := by
    have htimes : pendingTimes kind jobs ~ pendingTimes kind jobs' := (hjobs.filter _).map _
    rw [h.oldest, h'.oldest, min?_perm htimes]
  claimed := by
    rw [h.shows.claimed, h'.shows.claimed]
    exact ((hjobs.filter _).map _).length_eq
  dead := h.shows.dead.lookup_eq h'.shows.dead ((hjobs.filter _).map _)

/-- The snapshot starts as that of no jobs. -/
theorem default_of (now : DateTime) : default.Of now [] where
  shows := ⟨Tally.Counts.nil, rfl, Tally.Counts.nil⟩
  oldest _ := rfl

/-- Count one more job. -/
def count (now : DateTime) (snapshot : Snapshot) (job : JobRecord) : Snapshot :=
  match job.status with
  | .pending =>
      let oldest := match snapshot.oldestPendingAge.lookup job.kind with
        | some current => max current (age now job.createdAt)
        | none => age now job.createdAt
      { snapshot with
        pendingByKind := Tally.take snapshot.pendingByKind job.kind
        oldestPendingAge := snapshot.oldestPendingAge.insert job.kind oldest }
  | .claimed => { snapshot with claimed := snapshot.claimed + 1 }
  | .dead => { snapshot with deadByKind := Tally.take snapshot.deadByKind job.kind }
  | .completed => snapshot

section Count

variable (now) (a) (job : JobRecord)

/-- A pending job is counted under its kind. -/
theorem count_pendingByKind : (a.count now job).pendingByKind =
    if job.status = .pending then Tally.take a.pendingByKind job.kind else a.pendingByKind := by
  cases hstatus : job.status <;> simp [count, hstatus]

theorem count_claimed : (a.count now job).claimed =
    if job.status = .claimed then a.claimed + 1 else a.claimed := by
  cases hstatus : job.status <;> simp [count, hstatus]

theorem count_deadByKind : (a.count now job).deadByKind =
    if job.status = .dead then Tally.take a.deadByKind job.kind else a.deadByKind := by
  cases hstatus : job.status <;> simp [count, hstatus]

variable {job}

/-- A pending job may be the oldest of its kind. -/
theorem count_oldest_of_pending (hstatus : job.status = .pending) :
    (a.count now job).oldestPendingAge = a.oldestPendingAge.insert job.kind
      (((a.oldestPendingAge.lookup job.kind).map (max · (age now job.createdAt))).getD
        (age now job.createdAt)) := by
  simp only [count, hstatus]
  cases a.oldestPendingAge.lookup job.kind <;> rfl

/-- A job that is not pending is not the oldest pending one. -/
theorem count_oldest_of_ne (hstatus : job.status ≠ .pending) :
    (a.count now job).oldestPendingAge = a.oldestPendingAge := by
  unfold count
  cases h : job.status with
  | pending => exact absurd h hstatus
  | _ => rfl

end Count

/-- One more job is counted under its status, and under no other. -/
theorem Shows.job (h : a.Shows jobs) (now : DateTime) (job : JobRecord) :
    (a.count now job).Shows (job :: jobs) where
  pending := by
    rw [count_pendingByKind, kindsWith_cons]
    split_ifs
    · exact h.pending.take job.kind
    · exact h.pending
  claimed := by
    rw [count_claimed, kindsWith_cons]
    split_ifs
    · rw [List.length_cons, h.claimed]
    · exact h.claimed
  dead := by
    rw [count_deadByKind, kindsWith_cons]
    split_ifs
    · exact h.dead.take job.kind
    · exact h.dead

/-- **One more job** is described by the snapshot that counts it. -/
theorem Of.job (h : a.Of now jobs) (job : JobRecord) : (a.count now job).Of now (job :: jobs) where
  shows := h.shows.job now job
  oldest kind := by
    rw [pendingTimes_cons]
    by_cases hstatus : job.status = .pending
    · rw [count_oldest_of_pending now a hstatus]
      by_cases hkind : job.kind = kind
      · -- the older of this job and the oldest so far
        subst hkind
        rw [if_pos ⟨hstatus, rfl⟩, AList.lookup_insert, h.oldest, List.min?_cons]
        cases (pendingTimes job.kind jobs).min? with
        | none => rfl
        | some t =>
          show some (max (age now t) (age now job.createdAt)) =
            some (age now (min job.createdAt t))
          rw [age_min, max_comm]
      · rw [if_neg (fun hboth => hkind hboth.2), AList.lookup_insert_ne (Ne.symm hkind)]
        exact h.oldest kind
    · rw [count_oldest_of_ne now a hstatus, if_neg (fun hboth => hstatus hboth.1)]
      exact h.oldest kind

/-- **A pass over the jobs** describes them, in whatever order they come. -/
theorem of_foldl (now : DateTime) (jobs : List JobRecord) :
    (jobs.foldl (count now) default).Of now jobs.reverse := by
  have hfold : ∀ (jobs done : List JobRecord) (a : Snapshot), a.Of now done →
      (jobs.foldl (count now) a).Of now (jobs.reverse ++ done) := by
    intro jobs
    induction jobs with
    | nil => exact fun _ _ h => h
    | cons job jobs ih =>
      intro done a h
      rw [List.reverse_cons, List.append_assoc]
      exact ih (job :: done) _ (h.job job)
  simpa using hfold jobs [] default (default_of now)

end Store.Snapshot

end Venturi
