import Venturi.Arith.Saturate
import Venturi.Backoff

namespace Venturi

/-!
# The Fibonacci curve is exact (`backoff.rs`)

`fib_minus_one` saturates at `u64::MAX` and the product with the base at `u128::MAX`.  Neither is
visible in `base_delay`: a multiplier that saturated is already so large that the clamp to the
cap and to 64 bits hides it.
-/

namespace Backoff

variable {backoff : Backoff} {attempt : Nat}

theorem base_pos (backoff : Backoff) : 0 < backoff.base :=
  lt_of_lt_of_le (by decide) backoff.minBase_le

theorem cap_pos (backoff : Backoff) : 0 < backoff.cap :=
  lt_of_lt_of_le backoff.base_pos backoff.base_le_cap

end Backoff

/-- The loop of `fib_minus_one` computes the Fibonacci numbers up to `u64::MAX`. -/
theorem fibStep_iterate (k : Nat) :
    fibStep^[k] (1, 1) = (min (Nat.fib (k + 1)) u64Max, min (Nat.fib (k + 2)) u64Max) :=
  Arith.iterate_saturating (by decide) k

/-- **The multiplier**, saturated. -/
theorem fibMinusOne_eq (n : Nat) : fibMinusOne n = min (Nat.fib n - 1) (u64Max - 1) := by
  unfold fibMinusOne
  by_cases hn : n ≤ 2
  · have hfib : Nat.fib n ≤ 1 := Nat.fib_mono hn
    rw [if_pos hn]
    omega
  · have hindex : n - 2 + 2 = n := by omega
    rw [if_neg hn, fibStep_iterate, hindex]
    omega

/-- **The curve.** -/
theorem baseDelay_eq (backoff : Backoff) (n : Nat) :
    baseDelay backoff n =
      min (min (backoff.base * (Nat.fib n - 1)) backoff.cap) u64Max := by
  -- the base is at least a millisecond, so a saturated multiplier exceeds 64 bits
  have hhidden : u64Max ≤ backoff.base * (u64Max - 1) :=
    le_trans (by decide) (Nat.mul_le_mul_right (u64Max - 1) backoff.minBase_le)
  have hwide : u64Max ≤ 2 ^ 128 - 1 := by decide
  rw [baseDelay, fibMinusOne_eq, min_right_comm, min_assoc _ _ u64Max, min_eq_right hwide,
    Arith.min_mul_min hhidden, min_right_comm]

section Bounds

variable (backoff : Backoff) {m n : Nat}

/-- The delay does not fall with the attempts. -/
theorem baseDelay_mono (h : m ≤ n) : baseDelay backoff m ≤ baseDelay backoff n := by
  have hfib : Nat.fib m - 1 ≤ Nat.fib n - 1 := Nat.sub_le_sub_right (Nat.fib_mono h) 1
  have hproduct := Nat.mul_le_mul_left backoff.base hfib
  rw [baseDelay_eq, baseDelay_eq]
  exact min_le_min_right _ (min_le_min_right _ hproduct)

/-- It is never above the cap. -/
theorem baseDelay_le_cap (n : Nat) : baseDelay backoff n ≤ backoff.cap := by
  rw [baseDelay_eq]
  exact (min_le_left _ _).trans (min_le_right _ _)

/-- It always fits 64 bits. -/
theorem baseDelay_le_u64Max (n : Nat) : baseDelay backoff n ≤ u64Max := min_le_right _ _

/-- The first two retries are immediate, and no other is. -/
theorem baseDelay_eq_zero_iff : baseDelay backoff n = 0 ↔ n ≤ 2 := by
  rw [baseDelay_eq]
  constructor
  · intro h
    by_contra hn
    have hfib : Nat.fib 3 ≤ Nat.fib n := Nat.fib_mono (not_le.mp hn)
    have hmultiplier : 0 < Nat.fib n - 1 := Nat.sub_pos_of_lt (lt_of_lt_of_le (by decide) hfib)
    have hproduct : 0 < backoff.base * (Nat.fib n - 1) := Nat.mul_pos backoff.base_pos hmultiplier
    have hpos := lt_min (lt_min hproduct backoff.cap_pos) (show 0 < u64Max by decide)
    exact absurd h (Nat.ne_of_gt hpos)
  · intro hn
    have hfib : Nat.fib n ≤ Nat.fib 2 := Nat.fib_mono hn
    have hzero : Nat.fib n - 1 = 0 := Nat.sub_eq_zero_of_le hfib
    rw [hzero, Nat.mul_zero, Nat.zero_min, Nat.zero_min]

end Bounds

/-- **The capped Fibonacci curve is exact.** For a backoff built from any two durations the
    delay of attempt `n` is `base * (F(n) - 1)`, clamped to the cap and to 64 bits, over the
    unbounded Fibonacci numbers; so it never decreases, never exceeds the cap, and is zero
    exactly for the first two attempts. -/
theorem curve_exact (base cap : Duration) (n : Nat) :
    baseDelay (.new base cap) n =
      min (min ((Backoff.new base cap).base * (Nat.fib n - 1)) (Backoff.new base cap).cap) u64Max ∧
    (∀ m ≤ n, baseDelay (.new base cap) m ≤ baseDelay (.new base cap) n) ∧
    baseDelay (.new base cap) n ≤ (Backoff.new base cap).cap ∧
    (baseDelay (.new base cap) n = 0 ↔ n ≤ 2) :=
  ⟨baseDelay_eq _ n, fun _ h => baseDelay_mono _ h, baseDelay_le_cap _ n, baseDelay_eq_zero_iff _⟩

/-- The documented curve, and where the multiplier saturates. -/
example : (List.range 9).map fibMinusOne = [0, 0, 0, 1, 2, 4, 7, 12, 20] ∧
    fibMinusOne 93 < u64Max - 1 ∧ fibMinusOne 94 = u64Max - 1 := by decide +kernel

end Venturi
