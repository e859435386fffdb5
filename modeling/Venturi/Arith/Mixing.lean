import Mathlib.Data.BitVec
import Mathlib.Data.Fintype.EquivFin
import Mathlib.Data.Nat.Prime.Basic

namespace Arith

/-!
# Mixing steps that lose nothing

* `xorShift` — the exclusive or of a word and its right shift; `xorShift_injective`.
* `mul_injective_of_odd` — multiplying with an odd constant.
-/

variable {w k : ℕ}

/-- The exclusive or of a word and its right shift. -/
def xorShift (k : ℕ) (x : BitVec w) : BitVec w := x ^^^ (x >>> k)

/-- A word that survives a right shift is zero. -/
theorem eq_zero_of_ushiftRight {x : BitVec w} (hk : 0 < k) (h : x >>> k = x) : x = 0 := by
  have hvalue : x.toNat / 2 ^ k = x.toNat := by
    rw [← Nat.shiftRight_eq_div_pow, ← BitVec.toNat_ushiftRight, h]
  have hpow : 1 < 2 ^ k := Nat.one_lt_two_pow hk.ne'
  apply BitVec.eq_of_toNat_eq
  by_contra hne
  have hless := Nat.div_lt_self (Nat.pos_of_ne_zero hne) hpow
  omega

/-- **A xor-shift loses nothing**: the difference of two words with the same image survives the
    shift. -/
theorem xorShift_injective (hk : 0 < k) :
    Function.Injective (xorShift k : BitVec w → BitVec w) := by
  intro x y h
  have himage : x ^^^ x >>> k = y ^^^ y >>> k := h
  have hdifference : (x ^^^ y) >>> k = x ^^^ y := by
    rw [BitVec.ushiftRight_xor_distrib]
    apply (BitVec.xor_left_inj (x ^^^ y >>> k)).mp
    calc x >>> k ^^^ y >>> k ^^^ (x ^^^ y >>> k)
        = x ^^^ x >>> k ^^^ (y >>> k ^^^ y >>> k) := by ac_rfl
      _ = y ^^^ y >>> k ^^^ (x ^^^ x) := by rw [himage, BitVec.xor_self, BitVec.xor_self]
      _ = x ^^^ y ^^^ (x ^^^ y >>> k) := by ac_rfl
  exact BitVec.xor_eq_zero_iff.mp (eq_zero_of_ushiftRight hk hdifference)

/-- **An odd factor loses nothing.** -/
theorem mul_injective_of_odd {c : BitVec w} (hc : c.toNat % 2 = 1) :
    Function.Injective (fun x : BitVec w => x * c) := by
  intro x y h
  have hcoprime : Nat.gcd (2 ^ w) c.toNat = 1 :=
    Nat.Coprime.pow_left w (Nat.coprime_two_left.mpr (Nat.odd_iff.mpr hc))
  have hproduct : x.toNat * c.toNat ≡ y.toNat * c.toNat [MOD 2 ^ w] := by
    have hvalue := congrArg BitVec.toNat h
    rwa [BitVec.toNat_mul, BitVec.toNat_mul] at hvalue
  have hsame := Nat.ModEq.cancel_right_of_coprime hcoprime hproduct
  exact BitVec.eq_of_toNat_eq (hsame.eq_of_lt_of_lt x.isLt y.isLt)

end Arith
