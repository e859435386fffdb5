import Venturi.Queue.Accept

namespace Venturi

open Sql PostgresStore StoreProgram Trace

/-!
# The time an enqueue asks for (`queue.rs`)

`Queue::enqueue` promises that the job becomes eligible at once, `Queue::enqueue_at` that it
does at a given time.  An insert writes that time.  A merge writes the payload, the carry and
the priority of the pending job, and never its `visible_at`.

* `Plan` — what a submission is about to write in a state nobody else changes.
* `submit_solo` — it writes that.
* `enqueue_on_time_iff` — the payload is on a row of the requested time exactly when it is not
  merged into a job of another time.
-/

namespace Queue

variable {T Carry : Type} (τ : Task T Carry) (task : T)

/-- `Queue::enqueue`. -/
def enqueue : StoreProgram Ulid := do
  let now ← now
  submit τ task now now

/-- `Queue::enqueue_at`. -/
def enqueueAt (when : DateTime) : StoreProgram Ulid := do
  let now ← now
  submit τ task now when

/-! ### The plan of a submission -/

/-- What a submission is about to write. -/
inductive Plan (T : Type) where
  | insert (task : T)
  | merge (candidate : JobRecord) (task : T)
  | keep (candidate : JobRecord)

namespace Plan

/-- The task whose payload is written. -/
def written {T : Type} : Plan T → Option T
  | .insert task | .merge _ task => some task
  | .keep _ => none

/-- The pending job it is written into. -/
def target {T : Type} : Plan T → Option JobRecord
  | .merge candidate _ => some candidate
  | .insert _ | .keep _ => none

end Plan

/-- The plan a decision on the candidate makes. -/
def planOf (candidate : JobRecord) : Merge T Carry → Plan T
  | .independent => .insert task
  | .keep => .keep candidate
  | .replace => .merge candidate task
  | .with merged _ => .merge candidate merged

/-- What `Task::merge` is shown of a candidate. -/
def pendingOf (s : PostgresStore) (candidate : JobRecord) : Except String (Pending T Carry) := do
  let payload ← τ.fromValue candidate.payload
  let carry ← τ.decodeCarry candidate.carry
  return ⟨payload, carry, candidate.runCount,
    (s.journalOf candidate.id).map JournalEntry.fromRecord⟩

/-- The plan of a submission in a state nobody else changes. -/
def plan (rank : Ulid → Nat) (s : PostgresStore) : Except String (Plan T) :=
  match (τ.dedupKey task).bind (s.dedupCandidate rank τ.kind) with
  | none => .ok (.insert task)
  | some candidate => do
    let pending ← pendingOf τ s candidate
    return planOf task candidate (τ.merge task pending)

/-- The candidate was read in this visiting order. -/
def ReadInOrder (rank : Ulid → Nat) (m : OwnMove) : Prop :=
  ∀ kind key reply, m.label.2 = ⟨.call (.dedupCandidate kind key), reply⟩ → m.label.1.rank = rank

variable {τ task} {createdAt when : DateTime} {rank : Ulid → Nat} {s s' : PostgresStore}
  {tr : List StoreTurn} {id : Ulid}

/-- The candidate a submission considered was the stored one, and so is its plan. -/
theorem Considered.plan_eq {ms : List OwnMove} {candidate : JobRecord} {pending : Pending T Carry}
    (h : Considered τ task ms candidate pending)
    (hstep : ∀ m ∈ ms, ∀ c a, m.label.2 = ⟨.call c, .ok a⟩ → s.Step ⟨m.label.1, c, .ok a⟩ s)
    (hrank : ∀ m ∈ ms, ReadInOrder rank m) :
    s.view candidate.id = some ⟨candidate, s.journalOf candidate.id⟩ ∧
      candidate.status = .pending ∧
      plan τ task rank s = .ok (planOf task candidate (τ.merge task pending)) := by
  obtain ⟨read, hread, key, hkey, hreadLabel⟩ := h.read
  obtain ⟨journal, hjournal, entries, hentries, hjournalLabel⟩ := h.journal
  have hcandidate : s.dedupCandidate rank τ.kind key = some candidate := by
    have hreply := (Prod.mk.inj (hstep read hread _ _ hreadLabel)).1
    rw [← hrank read hread _ _ _ hreadLabel]
    exact Except.ok.inj hreply
  have hlog : s.journalOf candidate.id = entries := by
    have hreply := (Prod.mk.inj (hstep journal hjournal _ _ hjournalLabel)).1
    exact Except.ok.inj hreply
  have hpending : pendingOf τ s candidate = .ok pending := by
    obtain ⟨payload, carry, runCount, journal⟩ := pending
    rw [pendingOf, h.payload, h.carry, hlog, ← h.runCount, ← hentries]
    rfl
  obtain ⟨hstored, hof, -⟩ := dedupCandidate_cases hcandidate
  refine ⟨hstored, (JobRecord.dedupCandidate_iff.mp hof).2.2, ?_⟩
  rw [plan, hkey, Option.bind_some, hcandidate]
  simp only [hpending]
  rfl

/-- The columns an enqueue promises something about. -/
structure Written (τ : Task T Carry) (task : T) (visibleAt : DateTime) (row : JobRecord) :
    Prop where
  payload : τ.toValue task = .ok row.payload
  pending : row.status = .pending
  visible : row.visibleAt = visibleAt

/-- A job that a submission inserts is one it has written. -/
theorem Inserts.written {w : OwnMove} (h : Inserts τ task createdAt when id w) :
    ∃ j, w.after.view id = some j ∧ Written τ task when j.row := by
  obtain ⟨payload, carry, hpayload, -, -, hview⟩ := h
  rw [hview, Function.update_self]
  exact ⟨_, rfl, hpayload, rfl, rfl⟩

/-- A merge writes the task of its plan, and keeps the time of the job. -/
theorem Merges.written {w : OwnMove} {decision : Merge T Carry} {candidate : JobRecord} {t : T}
    {log : List JournalRecord} (h : Merges τ task decision candidate.id w)
    (hstored : w.before.view candidate.id = some ⟨candidate, log⟩)
    (ht : (planOf task candidate decision).written = some t) :
    ∃ j, w.after.view candidate.id = some j ∧
      Written τ t ((planOf task candidate decision).target.elim when JobRecord.visibleAt)
        j.row := by
  obtain ⟨-, j, row, entry, hrewrites, hj, hst, -, -, -, hview⟩ := h
  obtain rfl := Option.some.inj (hstored.symm.trans hj)
  rw [hview, Function.update_self]
  refine ⟨_, rfl, ?_⟩
  cases hrewrites with
  | keep => cases ht
  | replace hpayload =>
    cases ht
    exact ⟨hpayload, hst, rfl⟩
  | «with» hpayload =>
    cases ht
    exact ⟨hpayload, hst, rfl⟩

/-- **A submission nobody else steps into carries out its plan**, and leaves the time of a job
    it merges into as it was. -/
theorem submit_solo (h : Exec (submit τ task createdAt when).run s tr (.ret (.ok id)) s')
    (hsolo : Solo tr) (hrank : ∀ m ∈ owns tr, ReadInOrder rank m) :
    ∃ p, plan τ task rank s = .ok p ∧ ∀ t, p.written = some t → ∃ j, s'.view id = some j ∧
      Written τ t (p.target.elim when JobRecord.visibleAt) j.row := by
  have hfresh : FreshTurns tr := by
    refine .of_none (fun t ht => ?_)
    cases t with
    | own m => rfl
    | other m => cases hsolo _ ht
  have hwrites := submit_writes h hfresh
  generalize howns : owns tr = ms at hwrites
  cases hwrites with
  | @once _ ms w hsame hw =>
    obtain ⟨hbefore, hstart, rfl⟩ := h.solo hsolo howns hsame
    have hstep : ∀ m ∈ ms, ∀ c a, m.label.2 = ⟨.call c, .ok a⟩ →
        s.Step ⟨m.label.1, c, .ok a⟩ s := by
      intro m hm c a hlabel
      have hs := performed_call h (howns ▸ List.mem_append_left _ hm) hlabel
      rwa [hsame m hm, hbefore m hm] at hs
    have hrank' : ∀ m ∈ ms, ReadInOrder rank m :=
      fun m hm => hrank m (howns ▸ List.mem_append_left _ hm)
    cases hw with
    | fresh hread hins =>
      have hplan : plan τ task rank s = .ok (.insert task) := by
        rw [plan]
        cases hkey : τ.dedupKey task with
        | none => rfl
        | some key =>
          obtain ⟨m, hm, hlabel⟩ := hread key hkey
          have hreply := (Prod.mk.inj (hstep m hm _ _ hlabel)).1
          have hnone : s.dedupCandidate rank τ.kind key = none :=
            hrank' m hm _ _ _ hlabel ▸ Except.ok.inj hreply
          rw [Option.bind_some, hnone]
      refine ⟨_, hplan, fun t ht => ?_⟩
      obtain rfl := Option.some.inj ht
      exact hins.1.written
    | @decided candidate pending hread hw =>
      obtain ⟨hstored, hpending, hplan⟩ := hread.plan_eq hstep hrank'
      refine ⟨_, hplan, fun t ht => ?_⟩
      cases hw with
      | independent hdecision hins =>
        rw [hdecision] at ht ⊢
        obtain rfl := Option.some.inj ht
        exact hins.written
      | missed _ hmerge hgone =>
        -- nobody claimed the candidate between its read and the merge
        obtain ⟨m, hm, hc⟩ := hmerge
        exact absurd ⟨_, (hbefore m hm).symm ▸ hstored, hpending⟩ (hgone m hm _ hc)
      | merged hid hw =>
        subst hid
        exact hw.written (hstart.symm ▸ hstored) ht

/-! ### The promise -/

/-- The payload is on a pending row that no claim can take before `when`, and that is eligible
    at every time from `when` on. -/
structure Scheduled (τ : Task T Carry) (t : T) (when : DateTime) (row : JobRecord) : Prop where
  payload : τ.toValue t = .ok row.payload
  pending : row.status = .pending
  not_before : ∀ kinds floor now, now < when → ¬ row.eligible kinds floor now
  on_time : ∀ now, when ≤ now → row.visibleAt ≤ now

/-- A written row keeps the promise exactly when it is visible from the time asked for. -/
theorem Written.scheduled_iff {visibleAt : DateTime} {row : JobRecord}
    (h : Written τ task visibleAt row) : Scheduled τ task when row ↔ visibleAt = when := by
  have hvisible := h.visible
  constructor
  · intro hs
    have hle : row.visibleAt ≤ when := hs.on_time when (le_refl when)
    by_contra hne
    have hearly : row.visibleAt < when := lt_of_le_of_ne hle (hvisible ▸ hne)
    -- a claim of its kind and tier takes it too early
    refine hs.not_before [row.kind] row.priority row.visibleAt hearly ?_
    exact JobRecord.eligible_iff.mpr ⟨h.pending, le_refl _, by simp, le_refl _⟩
  · rintro rfl
    refine ⟨h.payload, h.pending, fun kinds floor now hnow heligible => ?_, fun now hnow => ?_⟩
    · have hle : row.visibleAt ≤ now := (JobRecord.eligible_iff.mp heligible).2.1
      exact absurd (hvisible ▸ hle) (not_le.mpr hnow)
    · exact hvisible ▸ hnow

/-- **An enqueue keeps its time exactly when it is not merged into a job of another time.**
    For every state, task and requested time: a submission nobody else stepped into that
    returned an id had a plan, and if that was an insert, a Replace or a With, the payload it
    wrote is on a pending row that is eligible from exactly that time on, if and only if the
    pending job it planned to merge into, if any, was already scheduled for that time. -/
theorem enqueue_on_time_iff
    (h : Exec (submit τ task createdAt when).run s tr (.ret (.ok id)) s') (hsolo : Solo tr)
    (hrank : ∀ m ∈ owns tr, ReadInOrder rank m) :
    ∃ p, plan τ task rank s = .ok p ∧ ∀ t, p.written = some t →
      ((∃ j, s'.view id = some j ∧ Scheduled τ t when j.row) ↔
        ∀ candidate ∈ p.target, candidate.visibleAt = when) := by
  obtain ⟨p, hp, hsolo⟩ := submit_solo h hsolo hrank
  refine ⟨p, hp, fun t ht => ?_⟩
  obtain ⟨j, hj, hw⟩ := hsolo t ht
  have hexists : (∃ j, s'.view id = some j ∧ Scheduled τ t when j.row) ↔
      Scheduled τ t when j.row := by
    constructor
    · rintro ⟨j', hj', hs⟩
      obtain rfl := Option.some.inj (hj.symm.trans hj')
      exact hs
    · exact fun hs => ⟨j, hj, hs⟩
  rw [hexists, hw.scheduled_iff]
  cases p.target <;> simp

/-- An `enqueue` reads the clock and submits for that time. -/
theorem exec_enqueue {r : Except Error Ulid} (h : Exec (enqueue τ task).run s tr (.ret r) s') :
    ∃ ms s₁ env now tr', tr = ms.map .other ++ .own ⟨s₁, (env, ⟨.now, now⟩), s₁⟩ :: tr' ∧
      Path PostgresStore.Step s ms s₁ ∧ Exec (submit τ task now now).run s₁ tr' (.ret r) s' := by
  rw [enqueue, run_now_bind] at h
  obtain ⟨ms, s₁, env, now, s₂, tr', rfl, hpath, hnow, hrest⟩ := h.of_op
  obtain rfl := hnow.of_now
  exact ⟨ms, _, env, now, tr', rfl, hpath, hrest⟩

/-- An `enqueue_at` reads the clock and submits for the time asked for. -/
theorem exec_enqueueAt {r : Except Error Ulid}
    (h : Exec (enqueueAt τ task when).run s tr (.ret r) s') :
    ∃ ms s₁ env now tr', tr = ms.map .other ++ .own ⟨s₁, (env, ⟨.now, now⟩), s₁⟩ :: tr' ∧
      Path PostgresStore.Step s ms s₁ ∧ Exec (submit τ task now when).run s₁ tr' (.ret r) s' := by
  rw [enqueueAt, run_now_bind] at h
  obtain ⟨ms, s₁, env, now, s₂, tr', rfl, hpath, hnow, hrest⟩ := h.of_op
  obtain rfl := hnow.of_now
  exact ⟨ms, _, env, now, tr', rfl, hpath, hrest⟩

/-! ### An immediate enqueue that waits -/

/-- The sample job, scheduled for time 100. -/
def sampleScheduled : Trace.Move PostgresStore Event :=
  PostgresStore.empty.next (.ofNow 0) (.enqueue { sampleJob with visibleAt := 100 })

/-- At time 1 the payload `2` is enqueued for the time `when`. -/
def sampleSubmitAt (when : DateTime) : List StoreTurn × Except Error Ulid × PostgresStore :=
  (submit sampleTask (.json "2") 1 when).amid (.ofNow 1) 7 [] sampleScheduled.after

/-- The sample submission is on time exactly if the job it merges into is. -/
theorem enqueue_on_time_iff_sampleSubmitAt :
    ∃ p, plan sampleTask (.json "2") (fun _ => 0) sampleScheduled.after = .ok p ∧
      ∀ t, p.written = some t →
        ((∃ j, (sampleSubmitAt 100).2.2.view 0 = some j ∧ Scheduled sampleTask t 100 j.row) ↔
          ∀ candidate ∈ p.target, candidate.visibleAt = 100) :=
  enqueue_on_time_iff
    (exec_amid (submit sampleTask (.json "2") 1 100) (.ofNow 1) 7 [] sampleScheduled.after)
    (by decide) (fun m hm _ _ _ _ => congrArg Env.rank (Program.amid_env _ _ _ m hm))

/-- **An immediate enqueue is not eligible at once.** It replaces the payload of a job that is
    scheduled for later, and waits with it. -/
theorem enqueue_waits : ¬ ∀ (tr₀ : History) (s s' : PostgresStore) (tr : List StoreTurn)
    (when : DateTime) (id : Ulid), PostgresStore.Run tr₀ s →
    Exec (submit sampleTask (.json "2") when when).run s tr (.ret (.ok id)) s' → Solo tr →
    ∃ j, s'.view id = some j ∧ Scheduled sampleTask (.json "2") when j.row := by
  intro h
  obtain ⟨j, hj, hs⟩ := h [sampleScheduled] _ _ _ 1 0 (.snoc .start rfl)
    (exec_amid (submit sampleTask (.json "2") 1 1) (.ofNow 1) 7 [] sampleScheduled.after)
    (by decide)
  have hview : (sampleSubmitAt 1).2.2.view 0 = some j := hj
  have hvisible : ((sampleSubmitAt 1).2.2.view 0).map (fun j => j.row.visibleAt) = some 100 := by
    decide
  rw [hview] at hvisible
  have hlate : j.row.visibleAt = 100 := Option.some.inj hvisible
  have hnow : j.row.visibleAt ≤ 1 := hs.on_time 1 (le_refl 1)
  rw [hlate] at hnow
  exact absurd hnow (by decide)

end Queue

end Venturi
