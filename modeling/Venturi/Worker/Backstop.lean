import Venturi.Worker.Journal

namespace Venturi

open Sql PostgresStore

/-!
# The failure backstop

A worker with the backstop `n` sends a job to dead with the settlement that brings its
failure count to `n`.  `Worker::recover_stale` counts a failure too, but it re-pends the
job without asking the backstop.

* `Bounded` — no pending and no claimed job has `n` failures.
* `backstop_bounds_iff` — every state of a run is bounded exactly when no recovery of the
  run takes a job to `n` failures.
* `recovery_ignores_backstop` — a run in which one does.
-/

/-- No pending and no claimed job has reached the backstop. -/
def Bounded (n : Nat) (s : PostgresStore) : Prop :=
  ∀ id j, s.view id = some j → ¬ j.row.Terminal → j.row.failureCount < n

/-- If the move is a recovery that finds its claim stale, at the run number it presents,
    one more failure stays below the backstop. -/
def RecoversBelow (n : Nat) (m : Trace.Move PostgresStore Event) : Prop :=
  ∀ id visibleAt failureCount runNo entry,
    m.label.call = .recover id visibleAt failureCount runNo entry →
      ∀ j, m.before.view id = some j → j.row.recoverable id runNo m.label.env.now →
        saturatingAdd j.row.failureCount 1 < n

section System

variable {fl : ℚ → ℚ} {workers : Worker → Prop} {tr : History} {s : PostgresStore} {n : Nat}

/-- **One sound step keeps a live job below the backstop**, if a recovery does. -/
theorem Job.Step.bounded {now : DateTime} {c : Call} {mark : Mark} {job job' : Option Job}
    (hn : 1 ≤ n) (hworkers : ∀ w, workers w → w.config.backstop = some n)
    (h : ∀ j ∈ job, ¬ j.row.Terminal → j.row.failureCount < n)
    (hsound : ∀ j ∈ job, c.SoundFor workers j.row)
    (hrecover : ∀ id visibleAt failureCount runNo entry,
      c = .recover id visibleAt failureCount runNo entry →
        ∀ j ∈ job, j.row.recoverable id runNo now → saturatingAdd j.row.failureCount 1 < n)
    (hs : Job.Step now c mark job job') :
    ∀ j ∈ job', ¬ j.row.Terminal → j.row.failureCount < n := by
  cases hs with
  | enqueue =>
    rintro _ ⟨⟩ -
    show (0 : Int) < n
    omega
  | @claim kinds floor lease claimedBy row log heligible =>
    rintro _ ⟨⟩ -
    exact h ⟨row, log⟩ rfl
      (JobRecord.not_terminal_of_pending (JobRecord.eligible_iff.mp heligible).1)
  | @settle claimedBy settlement journal row log k howned =>
    rintro _ ⟨⟩ hlive
    obtain ⟨-, -, -, w, hw, hretry⟩ := hsound _ rfl
    have hbefore : row.failureCount < n :=
      h _ rfl (JobRecord.not_terminal_of_claimed (JobRecord.owned_iff.mp howned).2.2.2)
    -- the worker checked the backstop before it chose to retry
    cases settlement with
    | retry visibleAt failureCount carry =>
      have hbelow : failureCount.toNat < n :=
        hretry visibleAt failureCount carry rfl n (hworkers w hw)
      show failureCount < n
      omega
    | pause => exact hbefore
    | release => exact hbefore
    | complete => simp [JobRecord.Terminal, Settlement.set] at hlive
    | dead => simp [JobRecord.Terminal, Settlement.set] at hlive
  | @recover visibleAt failureCount journal row log k hstale =>
    rintro _ ⟨⟩ -
    obtain ⟨-, -, hcount⟩ := hsound _ rfl
    have hrec : row.recoverable row.id row.runCount now :=
      JobRecord.recoverable_iff.mpr ⟨rfl, hstale, rfl⟩
    -- nothing checks the backstop here but the hypothesis
    show failureCount < n
    rw [hcount]
    exact hrecover _ _ _ _ _ rfl _ rfl hrec
  | @extendLease claimedBy lease row log =>
    rintro _ ⟨⟩ hlive
    exact h ⟨row, log⟩ rfl hlive
  | cleanup => simp
  | @merge update journal row log k hpending =>
    rintro _ ⟨⟩ -
    have hbefore : row.failureCount < n := h _ rfl (JobRecord.not_terminal_of_pending hpending)
    cases update <;> exact hbefore

/-- A run whose recoveries stay below the backstop ends bounded. -/
theorem bounded_of_run (h : SystemRun fl workers tr s) (hfresh : FreshIds tr) (hn : 1 ≤ n)
    (hworkers : ∀ w, workers w → w.config.backstop = some n)
    (hrecover : ∀ m ∈ tr, RecoversBelow n m) : Bounded n s := by
  intro id j hj
  have hinv : (∀ m ∈ tr, RecoversBelow n m) →
      ∀ j ∈ s.view id, ¬ j.row.Terminal → j.row.failureCount < n := by
    refine SystemRun.job (I := fun tr job => (∀ m ∈ tr, RecoversBelow n m) →
      ∀ j ∈ job, ¬ j.row.Terminal → j.row.failureCount < n) (by simp) ?_ ?_ h hfresh
    · intro tr job m hI _ hrecover
      exact hI (fun m' hm' => hrecover m' (List.mem_append_left _ hm'))
    · intro tr job job' m hI hbefore hsound hs hrecover
      have hold := hI (fun m' hm' => hrecover m' (List.mem_append_left _ hm'))
      refine Job.Step.bounded hn hworkers hold hsound ?_ hs
      intro id' visibleAt failureCount runNo entry hcall j' hj' hrec
      have hview : m.before.view id = some j' := hbefore.trans hj'
      have hid : id = id' := (view_id hview).symm.trans (JobRecord.recoverable_iff.mp hrec).1
      exact hrecover m (by simp) id' visibleAt failureCount runNo entry hcall j' (hid ▸ hview) hrec
  exact hinv hrecover j hj

/-- A recovery of the system that finds its claim stale applies, and writes the failure
    count one above that of the row. -/
theorem recovery_applies {m : Trace.Move PostgresStore Event} {id : Ulid} {visibleAt : DateTime}
    {failureCount : Int} {runNo : Nat} {entry : JournalAppend} {j : Job}
    (h : PostgresStore.Run tr m.before) (hfresh : FreshIds tr)
    (hs : m.before.Step m.label m.after) (hmade : Made fl workers tr m.label.call)
    (hcall : m.label.call = .recover id visibleAt failureCount runNo entry)
    (hj : m.before.view id = some j) (hrec : j.row.recoverable id runNo m.label.env.now) :
    ∃ j', m.after.view id = some j' ∧ j'.row.status = .pending ∧
      j'.row.failureCount = saturatingAdd j.row.failureCount 1 := by
  obtain ⟨hid, hexpired, hrun⟩ := JobRecord.recoverable_iff.mp hrec
  have hmax : runNo ≤ i32Max := by
    obtain ⟨k, hk, -, hcount⟩ := (epochs_of_run h hfresh id).counted
    have hk' : j.row.runCount = k := hcount j hj
    omega
  -- a step of the job machine that the recovery could take here
  obtain ⟨hno, hcount⟩ : entry.runNo = runNo ∧
      failureCount = saturatingAdd j.row.failureCount 1 := by
    have hstep : Job.Step m.label.env.now m.label.call (.closed j.row.runCount) (some j)
        (some ⟨j.row.repend visibleAt failureCount, j.log ++ [entry.record j.row.id 0]⟩) := by
      rw [hcall, ← hid, ← hrun]
      exact .recover hexpired
    have hsound := hmade.soundFor h hfresh (hid.symm ▸ hj) hstep
    rw [hcall] at hsound
    exact ⟨hsound.1, hsound.2.2⟩
  obtain ⟨k, s', hok, hview⟩ := recover_hit visibleAt failureCount hmax (hno ▸ hmax) hj hrec
  have hafter : m.after = s' := by
    generalize m.label = e at hs hcall hok
    obtain ⟨env, c, r⟩ := e
    obtain rfl : c = _ := hcall
    simp only [Step, exec, hok] at hs
    exact (Prod.mk.inj hs).2.symm
  rw [hafter, hview, Function.update_self]
  exact ⟨_, rfl, rfl, hcount⟩

/-- **The backstop bounds a job exactly as far as recoveries respect it.** With every
    worker under the backstop `n`, no state of the run has a pending or claimed job with
    `n` failures, if and only if every recovery that finds its claim stale finds at most
    `n - 2` failures before it. -/
theorem backstop_bounds_iff (h : SystemRun fl workers tr s) (hfresh : FreshIds tr) (hn : 1 ≤ n)
    (hworkers : ∀ w, workers w → w.config.backstop = some n) :
    (∀ m ∈ tr, Bounded n m.after) ↔ ∀ m ∈ tr, RecoversBelow n m := by
  constructor
  · intro hbounded m hm id visibleAt failureCount runNo entry hcall j hj hrec
    obtain ⟨tr₁, tr₂, rfl⟩ := List.append_of_mem hm
    obtain ⟨hrun, ⟨hs, hmade⟩, -⟩ := h.split
    obtain ⟨j', hj', hpending, hcount⟩ :=
      recovery_applies (SystemRun.run hrun) hfresh.of_append hs hmade hcall hj hrec
    have hlive : ¬ j'.row.Terminal := JobRecord.not_terminal_of_pending hpending
    exact hcount ▸ hbounded m hm id j' hj' hlive
  · intro hrecover m hm
    obtain ⟨tr₁, tr₂, rfl⟩ := List.append_of_mem hm
    have hfresh' : FreshIds (tr₁ ++ [m]) := by
      rw [List.append_cons] at hfresh
      exact hfresh.of_append
    refine bounded_of_run h.split.2.2 hfresh' hn hworkers (fun m' hm' => hrecover m' ?_)
    rw [List.append_cons]
    exact List.mem_append_left _ hm'

end System

/-- After its first failure the sample job is within its backstop. -/
theorem backstop_bounds_iff_sampleFailed : Bounded 20 sampleFailed.after := by
  have hworkers : ∀ w, sampleWorkers w → w.config.backstop = some 20 := by
    rintro _ rfl
    rfl
  refine (backstop_bounds_iff sampleFailed_run (by decide) (by decide) hworkers).mpr ?_
    sampleFailed (by simp)
  intro m hm id visibleAt failureCount runNo entry hcall
  simp only [List.mem_cons, List.not_mem_nil, or_false] at hm
  rcases hm with rfl | rfl | rfl <;> cases hcall

/-! ### A poison job -/

/-- A worker that gives up on the first failure. -/
def strictWorker : Worker := ⟨{ WorkerConfig.default 1 with backstop := some 1 }, "w"⟩

/-- The system of this worker alone. -/
def strictWorkers (w : Worker) : Prop := w = strictWorker

/-- It dies on the sample job, and its successor scans for stale claims after the lease, … -/
def poisonScan : Trace.Move PostgresStore Event :=
  sampleClaimed.after.next (.ofNow (10 ^ 12)) .findStale

/-- … and recovers the job. -/
def poisonRecovery : Trace.Move PostgresStore Event :=
  poisonScan.after.next (.ofNow (10 ^ 12)) (strictWorker.recovery id (10 ^ 12) sampleRow)

/-- A job whose worker died is listed as stale and recovered. -/
theorem poison_run :
    SystemRun id strictWorkers [sampleEnqueue, sampleClaimed, poisonScan, poisonRecovery]
      poisonRecovery.after := by
  have hw : strictWorkers strictWorker := rfl
  have hstale : ListedStale [sampleEnqueue, sampleClaimed, poisonScan] sampleRow :=
    ⟨poisonScan, by simp, .ofNow (10 ^ 12), [sampleRow], rfl, by simp⟩
  refine .snoc (.snoc (.snoc (.snoc .start ⟨rfl, .enqueue sampleJob⟩) ⟨rfl, ?claim⟩)
    ⟨rfl, .findStale⟩) ⟨rfl, ?recover⟩
  case claim => exact .claimNext hw ["feed"] 0
  case recover => exact .recover hw hstale (10 ^ 12)

/-- **A recovery does not ask the backstop.** Under a backstop of one failure, a job that
    has one is pending again. -/
theorem recovery_ignores_backstop :
    ¬ ∀ (n : Nat) (workers : Worker → Prop) (tr : History) (s : PostgresStore), 1 ≤ n →
      (∀ w, workers w → w.config.backstop = some n) → SystemRun id workers tr s → FreshIds tr →
        Bounded n s := by
  intro h
  have hworkers : ∀ w, strictWorkers w → w.config.backstop = some 1 := by
    rintro _ rfl
    rfl
  have hbounded := h 1 strictWorkers _ _ (by decide) hworkers poison_run (by decide)
  have hrow : poisonRecovery.after.view 0 =
      some ⟨sampleRow.repend (10 ^ 12) 1, poisonRecovery.after.journalOf 0⟩ := rfl
  have hbelow := hbounded 0 _ hrow (by decide)
  simp [JobRecord.repend] at hbelow

end Venturi
