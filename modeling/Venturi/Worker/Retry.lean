import Venturi.Backoff.Curve
import Venturi.Worker.Carry

namespace Venturi

/-!
# When a failed execution runs again (`backoff.rs`, `worker/mod.rs`)

* `retryDelay_bounds` — in exact arithmetic the jitter keeps a delay between its fraction of the
  base delay and the base delay.
* `RetryWindow` — where a worker schedules the next attempt, cut off at the end of the calendar.
* `recovery_alike_iff` — when a recovery schedules a job as an ordinary retry of it would.
-/

/-! ### The jitter -/

/-- The sample of the jitter is the mixed bits without the last 11. -/
theorem jitterUnit_eq (id : Ulid) (attempt : Nat) :
    jitterUnit id attempt = ((jitterBits id attempt).toNat / 2 ^ 11 : Nat) / 2 ^ 53 := by
  have hshift : (jitterBits id attempt >>> 11).toNat = (jitterBits id attempt).toNat / 2 ^ 11 := by
    rw [UInt64.toNat_shiftRight, Nat.shiftRight_eq_div_pow]
    rfl
  rw [jitterUnit, hshift]

/-- The sample of the jitter lies in `[0, 1)`, for every id and attempt. -/
theorem jitterUnit_mem (id : Ulid) (attempt : Nat) :
    0 ≤ jitterUnit id attempt ∧ jitterUnit id attempt < 1 := by
  have hword := (jitterBits id attempt).toNat_lt
  have hbits : (jitterBits id attempt).toNat / 2 ^ 11 < 2 ^ 53 := by omega
  have hcast : (((jitterBits id attempt).toNat / 2 ^ 11 : Nat) : ℚ) < 2 ^ 53 := by
    exact_mod_cast hbits
  rw [jitterUnit_eq]
  exact ⟨by positivity, (div_lt_one (by positivity)).mpr hcast⟩

/-- The cast to `u64` is the floor, for what fits. -/
theorem asU64_eq_floor {q : ℚ} (h0 : 0 ≤ q) (hmax : q ≤ u64Max) : (asU64 q : ℤ) = ⌊q⌋ := by
  have hfloor : 0 ≤ ⌊q⌋ := Int.floor_nonneg.mpr h0
  have hle : ⌊q⌋ ≤ (u64Max : ℤ) := by
    have hcast : ((⌊q⌋ : ℤ) : ℚ) ≤ ((u64Max : ℤ) : ℚ) :=
      (Int.floor_le q).trans (by exact_mod_cast hmax)
    exact_mod_cast hcast
  have hsame : q.floor = ⌊q⌋ := rfl
  rw [asU64, hsame]
  omega

/-- The cast of a natural number saturates. -/
theorem asU64_natCast (n : Nat) : asU64 n = min n u64Max := by
  have hfloor : (n : ℚ).floor = ⌊(n : ℚ)⌋ := rfl
  rw [asU64, hfloor, Int.floor_natCast, Int.toNat_natCast]

section Delay

variable {backoff : Backoff} {fraction : ℚ}

/-- What the jitter multiplies a delay with, in exact arithmetic. -/
def jitterFactor (fraction : ℚ) (attempt : Nat) (jobId : Ulid) : ℚ :=
  1 - fraction * (1 - jitterUnit jobId attempt)

/-- The factor lies between the rest that the fraction leaves, and one. -/
theorem jitterFactor_mem (h0 : 0 ≤ fraction) (h1 : fraction ≤ 1) (attempt : Nat) (jobId : Ulid) :
    0 ≤ jitterFactor fraction attempt jobId ∧ 1 - fraction ≤ jitterFactor fraction attempt jobId ∧
      jitterFactor fraction attempt jobId ≤ 1 := by
  obtain ⟨hunit0, hunit1⟩ := jitterUnit_mem jobId attempt
  have hless : fraction * (1 - jitterUnit jobId attempt) ≤ fraction :=
    mul_le_of_le_one_right h0 (by linarith)
  have hmore : 0 ≤ fraction * (1 - jitterUnit jobId attempt) := mul_nonneg h0 (by linarith)
  unfold jitterFactor
  exact ⟨by linarith, by linarith, by linarith⟩

/-- A delay that is not zero, in an arithmetic that rounds nothing. -/
theorem retryDelay_of_exact {fl : ℚ → ℚ} (hfl : ∀ q, fl q = q) (h0 : 0 ≤ fraction)
    (h1 : fraction ≤ 1) {attempt : Nat} (hdelay : baseDelay backoff attempt ≠ 0) (jobId : Ulid) :
    retryDelay fl backoff fraction attempt jobId =
      asU64 ((baseDelay backoff attempt : ℚ) * jitterFactor fraction attempt jobId) := by
  have hclamp : max 0 (min fraction 1) = fraction := by rw [min_eq_left h1, max_eq_right h0]
  have hformula : retryDelay fl backoff fraction attempt jobId =
      asU64 (fl (fl (baseDelay backoff attempt : ℚ) *
        fl (1 - fl (max 0 (min fraction 1) * fl (1 - jitterUnit jobId attempt))))) := if_neg hdelay
  rw [hformula, hclamp, jitterFactor]
  simp only [hfl]

/-- **A delay with an exact jitter** is the floor of the base delay times the factor. -/
theorem retryDelay_eq_floor (h0 : 0 ≤ fraction) (h1 : fraction ≤ 1) (attempt : Nat)
    (jobId : Ulid) : (retryDelay id backoff fraction attempt jobId : ℤ) =
      ⌊(baseDelay backoff attempt : ℚ) * jitterFactor fraction attempt jobId⌋ := by
  obtain ⟨hfactor0, -, hfactor1⟩ := jitterFactor_mem h0 h1 attempt jobId
  by_cases hzero : baseDelay backoff attempt = 0
  · have hdelay : retryDelay id backoff fraction attempt jobId = 0 := if_pos hzero
    rw [hdelay, hzero, Nat.cast_zero, Nat.cast_zero, zero_mul, Int.floor_zero]
  · have hmax : (baseDelay backoff attempt : ℚ) ≤ (u64Max : ℚ) :=
      Nat.cast_le.mpr (baseDelay_le_u64Max backoff attempt)
    have hnonneg : (0 : ℚ) ≤ baseDelay backoff attempt := Nat.cast_nonneg _
    rw [retryDelay_of_exact (@id_eq ℚ) h0 h1 hzero]
    exact asU64_eq_floor (mul_nonneg hnonneg hfactor0)
      ((mul_le_of_le_one_right hnonneg hfactor1).trans hmax)

/-- **The jitter shortens a delay by no more than its fraction**, and never lengthens it. -/
theorem retryDelay_bounds (backoff : Backoff) (h0 : 0 ≤ fraction) (h1 : fraction ≤ 1)
    (attempt : Nat) (jobId : Ulid) :
    ⌊(baseDelay backoff attempt : ℚ) * (1 - fraction)⌋ ≤
        (retryDelay id backoff fraction attempt jobId : ℤ) ∧
      (retryDelay id backoff fraction attempt jobId : ℤ) ≤ baseDelay backoff attempt := by
  obtain ⟨-, hlow, hhigh⟩ := jitterFactor_mem h0 h1 attempt jobId
  have hnonneg : (0 : ℚ) ≤ baseDelay backoff attempt := Nat.cast_nonneg _
  rw [retryDelay_eq_floor h0 h1]
  constructor
  · exact Int.floor_le_floor (mul_le_mul_of_nonneg_left hlow hnonneg)
  · have hfloor := Int.floor_le_floor (mul_le_of_le_one_right hnonneg hhigh)
    rwa [Int.floor_natCast] at hfloor

end Delay

/-! ### The window -/

/-- A retry delay is far below what `chrono::Duration::from_std` rejects. -/
theorem addDuration_eq_min {now : DateTime} {delay : Duration} (h : delay ≤ u64Max) :
    addDuration now delay = min (now + delay) maxUtc := by
  have hfits : delay ≤ (2 ^ 63 - 1) * 1000000 := h.trans (by decide)
  unfold addDuration
  rw [if_pos hfits, min_def]

/-- `visibleAt` is where this attempt may be scheduled from `now`: between the base delay without
    the fraction of the jitter and the base delay, which the cap bounds, and each cut off at the
    end of the calendar; at once for the first two failures, and never in the past. -/
structure RetryWindow (backoff : Backoff) (fraction : ℚ) (attempt : Nat)
    (now visibleAt : DateTime) : Prop where
  earliest : min (now + ⌊(baseDelay backoff attempt : ℚ) * (1 - fraction)⌋) maxUtc ≤ visibleAt
  latest : visibleAt ≤ min (now + baseDelay backoff attempt) maxUtc
  capped : min (now + baseDelay backoff attempt) maxUtc ≤ min (now + backoff.cap) maxUtc
  immediate : attempt ≤ 2 → visibleAt = now
  future : now ≤ visibleAt

/-- **A delay from an instant of the calendar** ends in its window. -/
theorem retryWindow {backoff : Backoff} {fraction : ℚ} {now : DateTime} (hnow : now ≤ maxUtc)
    (h0 : 0 ≤ fraction) (h1 : fraction ≤ 1) (attempt : Nat) (jobId : Ulid) :
    RetryWindow backoff fraction attempt now
      (addDuration now (retryDelay id backoff fraction attempt jobId)) := by
  obtain ⟨hlow, hhigh⟩ := retryDelay_bounds backoff h0 h1 attempt jobId
  have hfits : retryDelay id backoff fraction attempt jobId ≤ u64Max :=
    le_trans (by exact_mod_cast hhigh) (baseDelay_le_u64Max backoff attempt)
  have hcap : (baseDelay backoff attempt : ℤ) ≤ backoff.cap := by
    exact_mod_cast baseDelay_le_cap backoff attempt
  rw [addDuration_eq_min hfits]
  constructor
  · exact min_le_min_right _ (Int.add_le_add_left hlow now)
  · exact min_le_min_right _ (Int.add_le_add_left hhigh now)
  · exact min_le_min_right _ (Int.add_le_add_left hcap now)
  · intro hattempt
    have hzero : baseDelay backoff attempt = 0 := (baseDelay_eq_zero_iff backoff).mpr hattempt
    have hdelay : retryDelay id backoff fraction attempt jobId = 0 := by
      unfold retryDelay
      rw [if_pos hzero]
    rw [hdelay, Nat.cast_zero, add_zero]
    exact min_eq_left hnow
  · exact le_min (Int.le_add_of_nonneg_right (Int.natCast_nonneg _)) hnow

/-- **Retry scheduling stays in its window**, in exact arithmetic, for every backoff, fraction of
    the jitter, failure count, job and instant of the calendar: where an ordinary failure is
    retried, and where a stale claim is recovered. -/
theorem retry_in_window {w : Worker} {now : DateTime} (hnow : now ≤ maxUtc)
    (h0 : 0 ≤ w.config.jitterFraction) (h1 : w.config.jitterFraction ≤ 1) :
    (∀ report jobId nextFailures visibleAt failureCount carry,
      w.retryOrBackstop id report jobId now nextFailures = .retry visibleAt failureCount carry →
        RetryWindow (report.backoff.getD w.config.backoff) w.config.jitterFraction
          nextFailures.toNat now visibleAt) ∧
    ∀ job visibleAt failureCount runNo journal,
      w.recovery id now job = .recover job.id visibleAt failureCount runNo journal →
        RetryWindow w.config.backoff w.config.jitterFraction failureCount.toNat now visibleAt := by
  constructor
  · intro report jobId nextFailures visibleAt failureCount carry h
    simp only [Worker.retryOrBackstop] at h
    split at h
    · cases h
    · obtain ⟨rfl, -, -⟩ := Settlement.retry.inj h
      exact retryWindow hnow h0 h1 _ jobId
  · intro job visibleAt failureCount runNo journal h
    obtain ⟨-, rfl, rfl, -, -⟩ := Call.recover.inj h
    exact retryWindow hnow h0 h1 _ job.id

/-- The fraction of the sample worker is one half. -/
theorem sampleWorker_fraction :
    0 ≤ sampleWorker.config.jitterFraction ∧ sampleWorker.config.jitterFraction ≤ 1 := by
  show (0 : ℚ) ≤ 1 / 2 ∧ (1 / 2 : ℚ) ≤ 1
  norm_num

/-- The sample job, recovered for the third time by a worker with the default configuration. -/
theorem retry_in_window_sampleRow :
    RetryWindow .default (1 / 2) 3 5
      (addDuration 5 (retryDelay id .default (1 / 2) 3 sampleRow.id)) :=
  (retry_in_window (w := sampleWorker) (by decide) sampleWorker_fraction.1
    sampleWorker_fraction.2).2
    { sampleRow with failureCount := 2 } _ 3 _ _ rfl

/-! ### The arithmetic of the delay -/

/-- What the delay needs of a rounding: it is exact on 0 and 1, it rounds once, and whole numbers
    of 64 bits that it tells apart are still apart after the cast back. -/
structure Rounding (fl : ℚ → ℚ) : Prop where
  zero : fl 0 = 0
  one : fl 1 = 1
  idem : ∀ q, fl (fl q) = fl q
  cast : ∀ m n : Nat, m ≤ u64Max → n ≤ u64Max → asU64 (fl m) = asU64 (fl n) → fl m = fl n

/-- Exact arithmetic is one. -/
theorem rounding_id : Rounding id where
  zero := rfl
  one := rfl
  idem _ := rfl
  cast := by
    intro m n hm hn h
    have hback : asU64 (m : ℚ) = asU64 (n : ℚ) := h
    rw [asU64_natCast, asU64_natCast, min_eq_left hm, min_eq_left hn] at hback
    rw [hback]

section Rounded

variable {fl : ℚ → ℚ} {backoff backoff' : Backoff} {attempt : Nat}

/-- The jitter is the same function of the rounded base delay under every backoff. -/
theorem retryDelay_congr (h : fl (baseDelay backoff attempt) = fl (baseDelay backoff' attempt))
    (fraction : ℚ) (jobId : Ulid) :
    retryDelay fl backoff fraction attempt jobId =
      retryDelay fl backoff' fraction attempt jobId := by
  unfold retryDelay
  by_cases hattempt : attempt ≤ 2
  · rw [(baseDelay_eq_zero_iff backoff).mpr hattempt, (baseDelay_eq_zero_iff backoff').mpr hattempt]
  · rw [if_neg (mt (baseDelay_eq_zero_iff backoff).mp hattempt),
      if_neg (mt (baseDelay_eq_zero_iff backoff').mp hattempt), h]

/-- Without jitter the delay is the rounded base delay. -/
theorem retryDelay_no_jitter (hfl : Rounding fl) (hattempt : ¬ attempt ≤ 2) (jobId : Ulid) :
    retryDelay fl backoff 0 attempt jobId = asU64 (fl (baseDelay backoff attempt)) := by
  have hzero := mt (baseDelay_eq_zero_iff backoff).mp hattempt
  have hformula : retryDelay fl backoff 0 attempt jobId =
      asU64 (fl (fl (baseDelay backoff attempt : ℚ) *
        fl (1 - fl (max 0 (min 0 1) * fl (1 - jitterUnit jobId attempt))))) := if_neg hzero
  rw [hformula, min_eq_left zero_le_one, max_self, zero_mul, hfl.zero, sub_zero, hfl.one, mul_one,
    hfl.idem]

/-- Delays that agree without jitter come from base delays that round alike. -/
theorem baseDelay_of_no_jitter (hfl : Rounding fl) {jobId : Ulid}
    (h : retryDelay fl backoff 0 attempt jobId = retryDelay fl backoff' 0 attempt jobId) :
    fl (baseDelay backoff attempt) = fl (baseDelay backoff' attempt) := by
  by_cases hattempt : attempt ≤ 2
  · rw [(baseDelay_eq_zero_iff backoff).mpr hattempt, (baseDelay_eq_zero_iff backoff').mpr hattempt]
  · rw [retryDelay_no_jitter hfl hattempt, retryDelay_no_jitter hfl hattempt] at h
    exact hfl.cast _ _ (baseDelay_le_u64Max backoff attempt)
      (baseDelay_le_u64Max backoff' attempt) h

/-- Every delay fits 64 bits. -/
theorem retryDelay_le_u64Max (fraction : ℚ) (jobId : Ulid) :
    retryDelay fl backoff fraction attempt jobId ≤ u64Max := by
  simp only [retryDelay]
  split_ifs
  · exact Nat.zero_le u64Max
  · exact min_le_right _ _

/-- From the epoch on, different delays end at different instants. -/
theorem retryDelay_of_addDuration {fraction : ℚ} {jobId : Ulid}
    (h : addDuration 0 (retryDelay fl backoff fraction attempt jobId) =
      addDuration 0 (retryDelay fl backoff' fraction attempt jobId)) :
    retryDelay fl backoff fraction attempt jobId =
      retryDelay fl backoff' fraction attempt jobId := by
  have hfar (delay : Duration) (hle : delay ≤ u64Max) : addDuration 0 delay = (delay : Int) := by
    rw [addDuration_eq_min hle, zero_add]
    exact min_eq_left ((Int.ofNat_le.mpr hle).trans (by decide))
  rw [hfar _ (retryDelay_le_u64Max _ _), hfar _ (retryDelay_le_u64Max _ _)] at h
  exact Int.ofNat.inj h

end Rounded

/-! ### Recovery against retry -/

section Alike

variable {T Carry : Type} {fl : ℚ → ℚ} {h : Handler T Carry} {payload : T} {r : JobRecord}

/-- The report of a run of this payload that failed retryably. -/
def Handler.failedReport (h : Handler T Carry) (payload : T) (message : String) (carry : Value)
    (attachment : Option Value) : RunReport :=
  ⟨.error ⟨false, message⟩, carry, h.backoff payload, attachment⟩

/-- The attempt that follows a failed execution of the claimed job. -/
def JobRecord.nextAttempt (r : JobRecord) : Nat := (saturatingAdd r.failureCount 1).toNat

/-- The worker gives the job the same next instant when it settles a retryable failure of its
    run and when it recovers its stale claim. -/
def Worker.SchedulesAlike (fl : ℚ → ℚ) (w : Worker) (h : Handler T Carry) (payload : T)
    (r : JobRecord) : Prop :=
  ∀ now message carry attachment, ∃ visibleAt failureCount runNo journal,
    w.settlementOf fl now
        (r.finished (.ok (h.failedReport payload message carry attachment))) =
      .retry visibleAt failureCount carry ∧
    w.recovery fl now r = .recover r.id visibleAt failureCount runNo journal

/-- Below the backstop, the two differ in the backoff only. -/
theorem schedulesAlike_iff {w : Worker}
    (hbelow : ∀ limit, w.config.backstop = some limit → r.nextAttempt < limit) :
    w.SchedulesAlike fl h payload r ↔ ∀ now,
      addDuration now (retryDelay fl ((h.backoff payload).getD w.config.backoff)
          w.config.jitterFraction r.nextAttempt r.id) =
        addDuration now (retryDelay fl w.config.backoff w.config.jitterFraction r.nextAttempt
          r.id) := by
  have hopen : ¬ w.config.backstop.any (fun limit => limit ≤ r.nextAttempt) := by
    cases hlimit : w.config.backstop with
    | none => simp
    | some limit => simpa using hbelow limit hlimit
  have hsettle (now : DateTime) (message : String) (carry : Value) (attachment : Option Value) :
      w.settlementOf fl now
          (r.finished (.ok (h.failedReport payload message carry attachment))) =
        .retry (addDuration now (retryDelay fl ((h.backoff payload).getD w.config.backoff)
          w.config.jitterFraction r.nextAttempt r.id)) (saturatingAdd r.failureCount 1) carry :=
    if_neg hopen
  constructor
  · intro halike now
    obtain ⟨visibleAt, failureCount, runNo, journal, hretry, hrecover⟩ := halike now "" .null none
    rw [hsettle] at hretry
    obtain ⟨rfl, -, -⟩ := Settlement.retry.inj hretry
    exact (Call.recover.inj hrecover).2.1.symm
  · intro hsame now message carry attachment
    exact ⟨_, _, _, _, hsettle now message carry attachment, by rw [hsame]; rfl⟩

/-- **Where recovery and ordinary retry schedule alike.** Take a job, its payload as the task
    type decodes it, and the backoff of a worker.  Every such worker, whatever the fraction of
    its jitter, gives the job the same next instant on both ways below its backstop, exactly if
    the task does not override the backoff for this payload, or with a base delay that rounds to
    that of the worker at this attempt: recovery does not ask for the override. -/
theorem recovery_alike_iff (hfl : Rounding fl) (h : Handler T Carry) (payload : T)
    (r : JobRecord) (backoff : Backoff) :
    (∀ w : Worker, w.config.backoff = backoff →
      (∀ limit, w.config.backstop = some limit → r.nextAttempt < limit) →
        w.SchedulesAlike fl h payload r) ↔
    ∀ override, h.backoff payload = some override →
      fl (baseDelay override r.nextAttempt) = fl (baseDelay backoff r.nextAttempt) := by
  constructor
  · intro halike override hoverride
    -- a worker without jitter and without a backstop shows the base delays
    have hplain := (schedulesAlike_iff (by simp)).mp
      (halike ⟨{ WorkerConfig.default 1 with
        backoff := backoff, jitterFraction := 0, backstop := none }, ""⟩ rfl (by simp)) 0
    rw [hoverride] at hplain
    exact baseDelay_of_no_jitter hfl (retryDelay_of_addDuration hplain)
  · rintro hsame w rfl hbelow
    refine (schedulesAlike_iff hbelow).mpr (fun now => ?_)
    cases hoverride : h.backoff payload with
    | none => rfl
    | some override => rw [Option.getD_some, retryDelay_congr (hsame override hoverride)]

end Alike

/-! ### A task with a backoff of its own -/

/-- The sample handler with a base delay of one second. -/
def sampleOverriding : Handler Value Value where
  toTask := sampleTask
  backoff _ := some (.new 1000000000 120000000000)
  handle := sampleHandler.handle

/-- The sample handler with the base delay of the default backoff, and half its cap. -/
def sampleCapped : Handler Value Value where
  toTask := sampleTask
  backoff _ := some (.new 500000000 60000000000)
  handle := sampleHandler.handle

/-- The two agree without an override, and at the third failure of a job whose override differs
    from the backoff of the worker in its cap only. -/
theorem recovery_alike_iff_sampleRow :
    sampleWorker.SchedulesAlike id sampleHandler (.json "1") sampleRow ∧
      Backoff.new 500000000 60000000000 ≠ sampleWorker.config.backoff ∧
      sampleWorker.SchedulesAlike id sampleCapped (.json "1")
        { sampleRow with failureCount := 2 } := by
  have hbelow (r : JobRecord) (hr : r.nextAttempt < 20) :
      ∀ limit, sampleWorker.config.backstop = some limit → r.nextAttempt < limit :=
    fun limit hlimit => Option.some.inj hlimit ▸ hr
  refine ⟨?_, by decide, ?_⟩
  · refine (recovery_alike_iff rounding_id sampleHandler (.json "1") sampleRow .default).mpr ?_
      sampleWorker rfl (hbelow _ (by decide))
    intro override hoverride
    exact nomatch hoverride
  · refine (recovery_alike_iff rounding_id sampleCapped (.json "1")
      { sampleRow with failureCount := 2 } .default).mpr ?_ sampleWorker rfl
      (hbelow _ (by decide))
    intro override hoverride
    have hsame : baseDelay (.new 500000000 60000000000) 3 = baseDelay .default 3 := by decide
    rw [← Option.some.inj hoverride]
    exact congrArg (fun n : Nat => (n : ℚ)) hsame

/-- Under a base delay of one second the third failure is due after half a second when the worker
    that ran the job died, and after a second when the job failed. -/
theorem overriding_recovered :
    ¬ ∀ (T Carry : Type) (h : Handler T Carry) (value : Value) (payload : T) (r : JobRecord)
      (w : Worker), h.fromValue value = .ok payload → r.payload = value →
      (∀ limit, w.config.backstop = some limit → r.nextAttempt < limit) →
        w.SchedulesAlike id h payload r := by
  intro hall
  have hbelow : ∀ limit, (some 20 : Option Nat) = some limit →
      JobRecord.nextAttempt { sampleRow with failureCount := 2 } < limit :=
    fun limit hlimit => Option.some.inj hlimit ▸ by decide
  have halike := hall Value Value sampleOverriding (.json "1") (.json "1")
    { sampleRow with failureCount := 2 }
    ⟨{ sampleWorker.config with jitterFraction := 0 }, "w"⟩ rfl rfl hbelow
  have hdelay := retryDelay_of_addDuration ((schedulesAlike_iff hbelow).mp halike 0)
  have hbase : ((baseDelay (.new 1000000000 120000000000) 3 : Nat) : ℚ) =
      (baseDelay .default 3 : Nat) := baseDelay_of_no_jitter rounding_id hdelay
  have hdiffer : baseDelay (.new 1000000000 120000000000) 3 ≠ baseDelay .default 3 := by decide
  exact hdiffer (Nat.cast_injective hbase)

end Venturi
