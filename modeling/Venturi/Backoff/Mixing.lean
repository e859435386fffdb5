import Venturi.Arith.Mixing
import Venturi.Worker.Retry

namespace Venturi

/-!
# What the jitter mixes (`backoff.rs`)

`jitter_unit` mixes the two halves of the id and the attempt number into 64 bits, and keeps the
top 53 of them.

* `splitmix64_bijective` — the mixer is a bijection: three xor-shifts and two odd factors.
* `Ulid.halves` — an id is its two halves.
* `jitterBits_lossless` — so each of the three inputs can be told from the bits, given the others.
* `jitterUnit_shared` — and what the truncation may join.
-/

open Arith

/-! ### The mixer -/

theorem splitmix64_toBitVec (seed : UInt64) :
    (splitmix64 seed).toBitVec =
      xorShift 31 (xorShift 27 (xorShift 30 (seed.toBitVec + 0x9E3779B97F4A7C15#64) *
        0xBF58476D1CE4E5B9#64) * 0x94D049BB133111EB#64) := rfl

/-- The finalizer loses no bit. -/
theorem splitmix64_injective : Function.Injective splitmix64 := by
  intro x y h
  have hbits := congrArg UInt64.toBitVec h
  rw [splitmix64_toBitVec, splitmix64_toBitVec] at hbits
  have hsecond := mul_injective_of_odd (by decide) (xorShift_injective (by decide) hbits)
  have hfirst := mul_injective_of_odd (by decide) (xorShift_injective (by decide) hsecond)
  have hseed := xorShift_injective (by decide) hfirst
  exact UInt64.toBitVec_inj.mp (add_right_cancel hseed)

instance finite_word : Finite UInt64 :=
  Finite.of_injective UInt64.toFin fun _ _ h => UInt64.toFin_inj.mp h

/-- **The mixer is a bijection** of the 64-bit words. -/
theorem splitmix64_bijective : Function.Bijective splitmix64 :=
  Finite.injective_iff_bijective.mp splitmix64_injective

/-! ### The bits -/

/-- A number that fits 64 bits is its own word. -/
theorem toNat_word {n : Nat} (h : n < 2 ^ 64) : (UInt64.ofNat n).toNat = n :=
  UInt64.toNat_ofNat_of_lt' h

/-- An id is its two halves. -/
def Ulid.halves : Ulid ≃ UInt64 × UInt64 where
  toFun id := (UInt64.ofNat (id.val / 2 ^ 64), UInt64.ofNat (id.val % 2 ^ 64))
  invFun words := ⟨words.1.toNat * 2 ^ 64 + words.2.toNat, by
    have hhi := words.1.toNat_lt
    have hlo := words.2.toNat_lt
    omega⟩
  left_inv id := by
    apply Fin.ext
    show (UInt64.ofNat (id.val / 2 ^ 64)).toNat * 2 ^ 64 +
      (UInt64.ofNat (id.val % 2 ^ 64)).toNat = id.val
    rw [toNat_word (by omega), toNat_word (by omega), Nat.div_add_mod']
  right_inv words := by
    obtain ⟨hi, lo⟩ := words
    have hlo := lo.toNat_lt
    have hdiv : (hi.toNat * 2 ^ 64 + lo.toNat) / 2 ^ 64 = hi.toNat := by omega
    have hmod : (hi.toNat * 2 ^ 64 + lo.toNat) % 2 ^ 64 = lo.toNat := by omega
    show (UInt64.ofNat ((hi.toNat * 2 ^ 64 + lo.toNat) / 2 ^ 64),
      UInt64.ofNat ((hi.toNat * 2 ^ 64 + lo.toNat) % 2 ^ 64)) = (hi, lo)
    rw [hdiv, hmod, UInt64.ofNat_toNat, UInt64.ofNat_toNat]

theorem jitterBits_eq (id : Ulid) (attempt : Nat) :
    jitterBits id attempt =
      splitmix64 (id.halves.1 ^^^ splitmix64 (id.halves.2 ^^^ UInt64.ofNat attempt)) := rfl

/-- The bits of an id given by its halves. -/
theorem jitterBits_halves (hi lo : UInt64) (attempt : Nat) :
    jitterBits (Ulid.halves.symm (hi, lo)) attempt =
      splitmix64 (hi ^^^ splitmix64 (lo ^^^ UInt64.ofNat attempt)) := by
  rw [jitterBits_eq, Equiv.apply_symm_apply]

/-- The attempts of a job are told apart. -/
theorem jitterBits_injective (id : Ulid) :
    Function.Injective fun attempt : UInt32 => jitterBits id attempt.toNat := by
  intro a b h
  have hwide (c : UInt32) : c.toNat < 2 ^ 64 := c.toNat_lt.trans (by decide)
  have houter := (UInt64.xor_right_inj _).mp (splitmix64_injective h)
  have hinner := (UInt64.xor_right_inj _).mp (splitmix64_injective houter)
  have hattempt := congrArg UInt64.toNat hinner
  rw [toNat_word (hwide a), toNat_word (hwide b)] at hattempt
  exact UInt32.toNat_inj.mp hattempt

/-- **The mixing loses nothing before the truncation.** The mixer is a bijection of the 64-bit
    words, and the bits it returns for an id and an attempt are injective in the attempt, for
    every id, and in each half of the id, for every attempt and other half. -/
theorem jitterBits_lossless :
    Function.Bijective splitmix64 ∧
    (∀ id, Function.Injective fun attempt : UInt32 => jitterBits id attempt.toNat) ∧
    (∀ (attempt : UInt32) (hi : UInt64),
      Function.Injective fun lo => jitterBits (Ulid.halves.symm (hi, lo)) attempt.toNat) ∧
    ∀ (attempt : UInt32) (lo : UInt64),
      Function.Injective fun hi => jitterBits (Ulid.halves.symm (hi, lo)) attempt.toNat := by
  refine ⟨splitmix64_bijective, jitterBits_injective, ?_, ?_⟩
  · intro attempt hi x y h
    simp only [jitterBits_halves] at h
    have houter := (UInt64.xor_right_inj _).mp (splitmix64_injective h)
    exact (UInt64.xor_left_inj _).mp (splitmix64_injective houter)
  · intro attempt lo x y h
    simp only [jitterBits_halves] at h
    exact (UInt64.xor_left_inj _).mp (splitmix64_injective h)

/-- **What the truncation may join**: no sample of the jitter is shared by more than `2 ^ 11`
    attempts of a job. -/
theorem jitterUnit_shared {id : Ulid} {unit : ℚ} {attempts : Finset UInt32}
    (h : ∀ attempt ∈ attempts, jitterUnit id attempt.toNat = unit) : attempts.card ≤ 2 ^ 11 := by
  -- attempts with one sample are told apart by the bits that were dropped
  have hdropped : Set.InjOn (fun attempt : UInt32 => (jitterBits id attempt.toNat).toNat % 2 ^ 11)
      attempts := by
    intro a ha b hb hlow
    have hhigh : (jitterBits id a.toNat).toNat / 2 ^ 11 =
        (jitterBits id b.toNat).toNat / 2 ^ 11 := by
      have hunit := (h a ha).trans (h b hb).symm
      rw [jitterUnit_eq, jitterUnit_eq, div_left_inj' (by positivity)] at hunit
      exact_mod_cast hunit
    have hlow' : (jitterBits id a.toNat).toNat % 2 ^ 11 =
        (jitterBits id b.toNat).toNat % 2 ^ 11 := hlow
    have hbits : (jitterBits id a.toNat).toNat = (jitterBits id b.toNat).toNat := by omega
    exact jitterBits_injective id (UInt64.toNat_inj.mp hbits)
  calc attempts.card
      = (attempts.image fun attempt => (jitterBits id attempt.toNat).toNat % 2 ^ 11).card :=
        (Finset.card_image_of_injOn hdropped).symm
    _ ≤ (Finset.range (2 ^ 11)).card := by
        apply Finset.card_le_card
        intro low hlow
        obtain ⟨attempt, -, rfl⟩ := Finset.mem_image.mp hlow
        exact Finset.mem_range.mpr (Nat.mod_lt _ (by decide))
    _ = 2 ^ 11 := Finset.card_range _

end Venturi
