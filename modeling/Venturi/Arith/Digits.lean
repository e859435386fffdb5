import Mathlib.Algebra.Order.Ring.Nat
import Mathlib.Tactic.Ring

namespace Arith

/-!
# Digits of a fixed number

* `fixedDigits b k n` — the `k` digits of `n` in base `b`, the highest first.
* `ofFixedDigits_fixedDigits` — they give the number back.
* `fixedDigits_lt_iff` — numbers are ordered as their digits are, from the left.
-/

/-- The `k` digits of `n` in base `b`. -/
def fixedDigits (b : Nat) : Nat → Nat → List Nat
  | 0, _ => []
  | k + 1, n => n / b ^ k :: fixedDigits b k (n % b ^ k)

/-- The number that digits stand for. -/
def ofFixedDigits (b : Nat) (ds : List Nat) : Nat := ds.foldl (fun n d => n * b + d) 0

variable {b k m n : Nat}

@[simp] theorem length_fixedDigits (b k n : Nat) : (fixedDigits b k n).length = k := by
  induction k generalizing n with
  | zero => rfl
  | succ k ih => rw [fixedDigits, List.length_cons, ih]

/-- The digits are below the base. -/
theorem fixedDigits_lt (hb : 0 < b) (hn : n < b ^ k) : ∀ d ∈ fixedDigits b k n, d < b := by
  induction k generalizing n with
  | zero => exact fun d hd => nomatch hd
  | succ k ih =>
    refine List.forall_mem_cons.mpr ⟨?_, ih (Nat.mod_lt n (Nat.pow_pos hb))⟩
    rw [Nat.div_lt_iff_lt_mul (Nat.pow_pos hb), Nat.mul_comm]
    rwa [Nat.pow_succ] at hn

/-- Digits read on from a number. -/
theorem foldl_fixedDigits (hb : 0 < b) (hn : n < b ^ k) (a : Nat) :
    (fixedDigits b k n).foldl (fun n d => n * b + d) a = a * b ^ k + n := by
  induction k generalizing n a with
  | zero =>
    obtain rfl : n = 0 := by simpa using hn
    simp [fixedDigits]
  | succ k ih =>
    have hmod := Nat.mod_lt n (Nat.pow_pos hb : 0 < b ^ k)
    have hdiv := Nat.div_add_mod n (b ^ k)
    rw [fixedDigits, List.foldl_cons, ih hmod]
    calc (a * b + n / b ^ k) * b ^ k + n % b ^ k
        = a * b ^ (k + 1) + (b ^ k * (n / b ^ k) + n % b ^ k) := by ring
      _ = a * b ^ (k + 1) + n := by rw [hdiv]

/-- A number is read back from its digits. -/
theorem ofFixedDigits_fixedDigits (hb : 0 < b) (hn : n < b ^ k) :
    ofFixedDigits b (fixedDigits b k n) = n := by
  rw [ofFixedDigits, foldl_fixedDigits hb hn, Nat.zero_mul, Nat.zero_add]

/-- **Numbers are ordered as their digits are**, also when an order-preserving map writes them. -/
theorem fixedDigits_lt_iff {α : Type*} [LinearOrder α] {f : Nat → α} (hb : 0 < b)
    (hf : ∀ c < b, ∀ d < b, (f c < f d ↔ c < d)) (hm : m < b ^ k) (hn : n < b ^ k) :
    (fixedDigits b k m).map f < (fixedDigits b k n).map f ↔ m < n := by
  induction k generalizing m n with
  | zero =>
    obtain rfl : m = 0 := by simpa using hm
    obtain rfl : n = 0 := by simpa using hn
    simp [fixedDigits]
  | succ k ih =>
    have hpos : 0 < b ^ k := Nat.pow_pos hb
    have hm' : m / b ^ k < b := fixedDigits_lt hb hm _ List.mem_cons_self
    have hn' : n / b ^ k < b := fixedDigits_lt hb hn _ List.mem_cons_self
    have hdivm := Nat.div_add_mod m (b ^ k)
    have hdivn := Nat.div_add_mod n (b ^ k)
    have hmodm := Nat.mod_lt m hpos
    have hmodn := Nat.mod_lt n hpos
    have hinj : f (m / b ^ k) = f (n / b ^ k) ↔ m / b ^ k = n / b ^ k := by
      refine ⟨fun h => ?_, congrArg f⟩
      have hle := (hf _ hm' _ hn').not.mp (not_lt_of_ge h.ge)
      have hge := (hf _ hn' _ hm').not.mp (not_lt_of_ge h.le)
      omega
    rw [fixedDigits, fixedDigits, List.map_cons, List.map_cons, List.cons_lt_cons_iff,
      hf _ hm' _ hn', hinj, ih hmodm hmodn]
    -- the first digit decides, or the rest when it is the same
    constructor
    · rintro (h | ⟨h, hrest⟩)
      · exact lt_of_not_ge fun hle => absurd (Nat.div_le_div_right hle) (not_le_of_gt h)
      · rw [← hdivm, ← hdivn, h]
        exact Nat.add_lt_add_left hrest _
    · intro h
      rcases (Nat.div_le_div_right h.le : m / b ^ k ≤ n / b ^ k).lt_or_eq with hlt | heq
      · exact .inl hlt
      · refine .inr ⟨heq, ?_⟩
        rw [← hdivm, ← hdivn, heq] at h
        exact Nat.lt_of_add_lt_add_left h

end Arith
