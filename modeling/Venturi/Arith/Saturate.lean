import Mathlib.Data.Nat.Fib.Basic
import Mathlib.Logic.Function.Conjugate

namespace Arith

/-!
# Saturating arithmetic that agrees with the exact one

* `saturate` — a pair of counts, each cut off at a bound.
* `iterate_saturating` — the Fibonacci recurrence with a saturating addition is the exact one,
  cut off at the end.
* `min_mul_min` — a factor that saturated is hidden by a clamp of the product, when the bound of
  the factor already reaches the clamp.
-/

variable {a b k m c : ℕ}

/-- Cut off both components at `m`. -/
def saturate (m : ℕ) (p : ℕ × ℕ) : ℕ × ℕ := (min p.1 m, min p.2 m)

/-- The exact step of the Fibonacci recurrence. -/
def exactStep (p : ℕ × ℕ) : ℕ × ℕ := (p.2, p.1 + p.2)

/-- Its step with an addition that saturates at `m`. -/
def saturatingStep (m : ℕ) (p : ℕ × ℕ) : ℕ × ℕ := (p.2, min (p.1 + p.2) m)

/-- A saturating sum does not see that its terms were cut off. -/
theorem min_add_min (a b m : ℕ) : min (min a m + min b m) m = min (a + b) m := by
  omega

/-- To saturate after a step is to take the saturating step. -/
theorem saturate_semiconj (m : ℕ) :
    Function.Semiconj (saturate m) exactStep (saturatingStep m) := by
  intro p
  show (min p.2 m, min (p.1 + p.2) m) = (min p.2 m, min (min p.1 m + min p.2 m) m)
  rw [min_add_min]

/-- The exact recurrence runs through the Fibonacci numbers. -/
theorem iterate_exactStep (k : ℕ) : exactStep^[k] (1, 1) = (Nat.fib (k + 1), Nat.fib (k + 2)) := by
  induction k with
  | zero => rfl
  | succ k ih =>
    rw [Function.iterate_succ_apply', ih, exactStep]
    rw [Nat.fib_add_two (n := k + 1)]

/-- **The saturating recurrence** is the exact one, cut off at the end. -/
theorem iterate_saturating (hm : 1 ≤ m) (k : ℕ) :
    (saturatingStep m)^[k] (1, 1) = (min (Nat.fib (k + 1)) m, min (Nat.fib (k + 2)) m) := by
  have hstart : saturate m (1, 1) = (1, 1) := by
    show (min 1 m, min 1 m) = (1, 1)
    rw [min_eq_left hm]
  have hrun := (saturate_semiconj m).iterate_right k (1, 1)
  rw [hstart, iterate_exactStep] at hrun
  exact hrun.symm

/-- **A saturated factor is hidden** by a clamp at `c` that its bound already reaches. -/
theorem min_mul_min (h : c ≤ a * m) (k : ℕ) : min (a * min k m) c = min (a * k) c := by
  by_cases hk : k ≤ m
  · rw [min_eq_left hk]
  · have hexact : c ≤ a * k := h.trans (Nat.mul_le_mul_left a (not_le.mp hk).le)
    rw [min_eq_right (not_le.mp hk).le, min_eq_right h, min_eq_right hexact]

end Arith
