import Mathlib.Algebra.Order.Interval.Finset.Basic
import Mathlib.Data.Int.CardIntervalMod
import Mathlib.Data.Nat.Periodic

namespace Arith

open Finset

/-!
# Multiples in a window of consecutive numbers

* `card_window` — a periodic predicate holds as often in every window of a period.
* `card_multiples` — a window of `d * k` consecutive numbers holds `k` multiples of `d`.
* `exists_multiple` — so a window of `d` holds one.
* `card_multiples_only` — the multiples of `d` in a window of `d * d`, without those of `d * d`.
-/

variable {c d : ℕ}

/-- **A window of one period.** -/
theorem card_window {p : ℕ → Prop} [DecidablePred p] {n : ℕ} (h : Function.Periodic p n) (c : ℕ) :
    #{i ∈ range n | p (c + i)} = n.count p := by
  rw [← Nat.filter_Ico_card_eq_of_periodic c n p h, range_eq_Ico]
  have hshift : Ico c (c + n) = (Ico 0 n).map (addLeftEmbedding c) := by
    rw [map_add_left_Ico, Nat.add_zero]
  rw [hshift, filter_map, card_map]
  rfl

/-- To be a multiple of `d` recurs with every multiple of `d`. -/
theorem periodic_multiple (d k : ℕ) : Function.Periodic (fun n => n % d = 0) (d * k) := by
  intro n
  show ((n + d * k) % d = 0) = (n % d = 0)
  rw [Nat.add_mul_mod_self_left]

/-- Among the first `d * k` numbers `k` are multiples of `d`. -/
theorem count_multiples (hd : 0 < d) (k : ℕ) : (d * k).count (fun n => n % d = 0) = k := by
  have h : (d * k).count (· ≡ 0 [MOD d]) = k := by
    rw [Nat.count_modEq_card _ hd]
    simp [hd]
  exact h

/-- **`d * k` consecutive numbers hold `k` multiples of `d`.** -/
theorem card_multiples (hd : 0 < d) (c k : ℕ) : #{i ∈ range (d * k) | (c + i) % d = 0} = k := by
  rw [card_window (periodic_multiple d k), count_multiples hd]

/-- `d` consecutive numbers hold a multiple of `d`. -/
theorem exists_multiple (hd : 0 < d) (c : ℕ) : ∃ i < d, (c + i) % d = 0 := by
  have hcard : #{i ∈ range (d * 1) | (c + i) % d = 0} = 1 := card_multiples hd c 1
  have hpos : 0 < #{i ∈ range (d * 1) | (c + i) % d = 0} := by omega
  obtain ⟨i, hi⟩ := card_pos.mp hpos
  rw [mem_filter, mem_range, Nat.mul_one] at hi
  exact ⟨i, hi⟩

/-- A multiple of `d * d` is a multiple of `d`. -/
theorem multiple_of_square {n : ℕ} (h : n % (d * d) = 0) : n % d = 0 :=
  Nat.mod_eq_zero_of_dvd ((Nat.dvd_mul_right d d).trans (Nat.dvd_of_mod_eq_zero h))

/-- The multiples of `d` that are no multiples of `d * d`, in a window of `d * d`. -/
theorem card_multiples_only (hd : 0 < d) (c : ℕ) :
    #{i ∈ range (d * d) | (c + i) % d = 0 ∧ ¬ (c + i) % (d * d) = 0} = d - 1 := by
  have hsquares : #{i ∈ range (d * d) | (c + i) % (d * d) = 0} = 1 := by
    have h := card_multiples (Nat.mul_pos hd hd) c 1
    rwa [Nat.mul_one] at h
  have hall : #{i ∈ range (d * d) | (c + i) % d = 0} = d := card_multiples hd c d
  -- the multiples of `d` are those of `d * d` and the others
  have hsplit := card_filter_add_card_filter_not (s := {i ∈ range (d * d) | (c + i) % d = 0})
    (fun i => (c + i) % (d * d) = 0)
  rw [filter_filter, filter_filter, hall] at hsplit
  have hsame : #{i ∈ range (d * d) | (c + i) % d = 0 ∧ (c + i) % (d * d) = 0} = 1 := by
    rw [← hsquares]
    congr 1
    ext i
    simp only [mem_filter, and_congr_right_iff, and_iff_right_iff_imp]
    exact fun _ => multiple_of_square
  omega

/-- The numbers that are no multiples of `d`, in a window of `d * d`. -/
theorem card_others (hd : 0 < d) (c : ℕ) :
    #{i ∈ range (d * d) | ¬ (c + i) % d = 0} = d * d - d := by
  have hall : #{i ∈ range (d * d) | (c + i) % d = 0} = d := card_multiples hd c d
  have hsplit := card_filter_add_card_filter_not (s := range (d * d)) (fun i => (c + i) % d = 0)
  rw [hall, card_range] at hsplit
  omega

end Arith
