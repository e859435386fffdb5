import Venturi.Arith.Rounding
import Venturi.Worker.Retry

namespace Venturi

/-!
# The delay without jitter (`backoff.rs`)

With a fraction of zero the factor of the jitter is 1, and the delay goes to `f64` and back.

* `f64` — the rounding of `f64`, one of the arithmetics the delay may run in (`rounding_f64`).
* `Backoff.curve` — the documented curve, before it is cut off at 64 bits.
* `no_jitter_near` — how far off a delay may be.
* `no_jitter_exact_iff` — the delays that come back as they were.
-/

open Arith

/-! ### The arithmetic -/

/-- The rounding of `f64`: 53 significant bits, ties to even.  The exponent has no bounds here:
    without jitter there is no result outside 0 and the normal range. -/
def f64 (q : ℚ) : ℚ := roundBits 53 q

/-- A natural number as an `f64`, in integer arithmetic. -/
theorem f64_natCast (n : Nat) : f64 n = roundNat 53 n := roundBits_natCast 53 n

/-- To `f64` and back. -/
theorem asU64_f64 (n : Nat) : asU64 (f64 n) = min (roundNat 53 n) u64Max := by
  rw [f64_natCast, asU64_natCast]

/-- A word is rounded to `2 ^ 64` at most. -/
theorem roundNat_le_u64Max {n : Nat} (h : n ≤ u64Max) : roundNat 53 n ≤ u64Max + 1 :=
  roundNat_le (w := 64) (by decide) (Nat.lt_succ_of_le h)

/-- `u64::MAX` has 64 significant bits, so nothing is rounded to it. -/
theorem roundNat_ne_u64Max (n : Nat) : roundNat 53 n ≠ u64Max := by
  intro h
  have hfits : FitsBits 53 u64Max := h ▸ fitsBits_roundNat (by decide) n
  exact absurd (hfits.lt_of_odd (by decide)) (by decide)

/-- `f64` is an arithmetic the delay may run in. -/
theorem rounding_f64 : Rounding f64 where
  zero := roundBits_zero 53
  one := by
    have hone : roundNat 53 1 = 1 := roundNat_of_short (by decide)
    have h := f64_natCast 1
    rwa [hone, Nat.cast_one] at h
  idem := roundBits_roundBits (by decide)
  cast := by
    intro m n hm hn h
    -- both are at most `2 ^ 64` and neither is `u64::MAX`: the cast does not join them
    have hsame : roundNat 53 m = roundNat 53 n := by
      have hm' := roundNat_le_u64Max hm
      have hn' := roundNat_le_u64Max hn
      have hmax := roundNat_ne_u64Max m
      have hmax' := roundNat_ne_u64Max n
      rw [asU64_f64, asU64_f64] at h
      omega
    rw [f64_natCast, f64_natCast, hsame]

/-- **The words that come back from `f64`** are those that fit its significand, and `u64::MAX`,
    which the cast saturates to. -/
theorem asU64_f64_eq_self_iff {n : Nat} (h : n ≤ u64Max) :
    asU64 (f64 n) = n ↔ FitsBits 53 n ∨ n = u64Max := by
  rw [asU64_f64, ← roundNat_eq_self_iff (by decide)]
  constructor
  · intro hback
    have hmax := roundNat_ne_u64Max n
    omega
  · rintro (hfits | rfl)
    · rw [hfits, min_eq_left h]
    · decide

/-- No word is off by more than half a unit of the last bit a word can lose. -/
theorem asU64_f64_near {n : Nat} (h : n ≤ u64Max) :
    n ≤ asU64 (f64 n) + 2 ^ 10 ∧ asU64 (f64 n) ≤ n + 2 ^ 10 := by
  have hlog : Nat.log 2 n ≤ Nat.log 2 u64Max := Nat.log_mono_right h
  have hword : Nat.log 2 u64Max = 63 := by decide
  have hunit : 2 ^ (Nat.log 2 n + 1 - 53) ≤ 2 ^ 11 := Nat.pow_le_pow_right two_pos (by omega)
  obtain ⟨hlow, hhigh⟩ := roundNat_near 53 n
  rw [asU64_f64]
  omega

/-! ### The delay -/

/-- The documented curve: `min(base * (fib(n) - 1), cap)`. -/
def Backoff.curve (backoff : Backoff) (n : Nat) : Nat :=
  min (backoff.base * (Nat.fib n - 1)) backoff.cap

section Delay

variable (backoff : Backoff) (attempt : Nat) (jobId : Ulid)

/-- The base delay is the curve, as far as it fits 64 bits. -/
theorem baseDelay_eq_curve : baseDelay backoff attempt = min (backoff.curve attempt) u64Max :=
  baseDelay_eq backoff attempt

/-- Without jitter, the first two retries included, the base delay goes to `f64` and back. -/
theorem no_jitter_eq :
    retryDelay f64 backoff 0 attempt jobId = asU64 (f64 (baseDelay backoff attempt)) := by
  by_cases hattempt : attempt ≤ 2
  · have hzero := (baseDelay_eq_zero_iff backoff).mpr hattempt
    have hdelay : retryDelay f64 backoff 0 attempt jobId = 0 := if_pos hzero
    rw [hdelay, hzero]
    exact ((asU64_f64_eq_self_iff (Nat.zero_le _)).mpr
      (.inl (fitsBits_of_lt (Nat.two_pow_pos 53)))).symm
  · exact retryDelay_no_jitter rounding_f64 hattempt jobId

/-- Every backoff with a cap of at most `2 ^ 53` nanoseconds, 104 days, is exact. -/
theorem no_jitter_exact_of_cap (h : backoff.cap ≤ 2 ^ 53) :
    retryDelay f64 backoff 0 attempt jobId = baseDelay backoff attempt := by
  have hshort : baseDelay backoff attempt ≤ 2 ^ 53 := (baseDelay_le_cap backoff attempt).trans h
  rw [no_jitter_eq]
  exact (asU64_f64_eq_self_iff (baseDelay_le_u64Max backoff attempt)).mpr
    (.inl (fitsBits_of_le (by decide) hshort))

/-- **No delay is off by more** than 1024 nanoseconds, on either side. -/
theorem no_jitter_near :
    baseDelay backoff attempt ≤ retryDelay f64 backoff 0 attempt jobId + 2 ^ 10 ∧
      retryDelay f64 backoff 0 attempt jobId ≤ baseDelay backoff attempt + 2 ^ 10 := by
  rw [no_jitter_eq]
  exact asU64_f64_near (baseDelay_le_u64Max backoff attempt)

/-- **Without jitter the backoff is exact**, and within its cap, exactly if the curve has at most
    53 significant bits at this attempt, or reaches `u64::MAX`. -/
theorem no_jitter_exact_iff :
    (retryDelay f64 backoff 0 attempt jobId = baseDelay backoff attempt ∧
      retryDelay f64 backoff 0 attempt jobId ≤ backoff.cap) ↔
    FitsBits 53 (backoff.curve attempt) ∨ u64Max ≤ backoff.curve attempt := by
  have hcap := baseDelay_le_cap backoff attempt
  have hback := asU64_f64_eq_self_iff (baseDelay_le_u64Max backoff attempt)
  rw [baseDelay_eq_curve] at hcap hback
  rw [no_jitter_eq, baseDelay_eq_curve]
  obtain hreached | hbelow := le_or_gt u64Max (backoff.curve attempt)
  · rw [min_eq_right hreached] at hcap hback ⊢
    have hexact := hback.mpr (.inr rfl)
    exact ⟨fun _ => .inr hreached, fun _ => ⟨hexact, hexact.le.trans hcap⟩⟩
  · rw [min_eq_left hbelow.le] at hcap hback ⊢
    constructor
    · rintro ⟨hexact, -⟩
      exact (hback.mp hexact).imp_right Eq.ge
    · intro h
      have hexact := hback.mpr (h.imp_right fun hmax => absurd hmax hbelow.not_ge)
      exact ⟨hexact, hexact.le.trans hcap⟩

end Delay

/-- A delay of `2 ^ 53 + 3` nanoseconds is a tie that is rounded up, past the cap; one of
    `2 ^ 53 + 1` is rounded down. -/
theorem no_jitter_rounds :
    ¬ (retryDelay f64 (.new (2 ^ 53 + 3) (2 ^ 53 + 3)) 0 3 0 =
        baseDelay (.new (2 ^ 53 + 3) (2 ^ 53 + 3)) 3) ∧
    ¬ (retryDelay f64 (.new (2 ^ 53 + 3) (2 ^ 53 + 3)) 0 3 0 ≤
        (Backoff.new (2 ^ 53 + 3) (2 ^ 53 + 3)).cap) ∧
    retryDelay f64 (.new (2 ^ 53 + 1) (2 ^ 53 + 1)) 0 3 0 <
      baseDelay (.new (2 ^ 53 + 1) (2 ^ 53 + 1)) 3 := by
  rw [no_jitter_eq, no_jitter_eq, asU64_f64, asU64_f64]
  decide

end Venturi
