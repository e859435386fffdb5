import Mathlib.Data.Fintype.BigOperators
import Mathlib.Data.Fintype.Pigeonhole
import Venturi.Arith.Mixing
import Venturi.Postgres.Migrate

namespace Venturi

open Arith

/-!
# Advisory-lock keys of prefixes (`postgres/mod.rs`)

* `fnvByte_injective_left` / `fnvByte_injective_right` — a step of the hash loses neither what
  was hashed before nor the byte it takes in.
* `advisoryLockId_distinguishes` — what that is worth for the keys, and what it is not.
-/

/-- The hash before its bits are read as a signed number. -/
def fnv1a (hash : UInt64) (bytes : List UInt8) : UInt64 := bytes.foldl fnvByte hash

/-- The bytes `advisory_lock_id` goes through. -/
def prefixBytes (tablePrefix : String) : List UInt8 := tablePrefix.toUTF8.data.toList

/-- The lock key is the FNV-1a hash of the bytes, read as a signed number. -/
theorem advisoryLockId_eq (p : String) :
    advisoryLockId p = (fnv1a fnvOffset (prefixBytes p)).toInt64 := rfl

/-- The prime is odd, so multiplying by it loses nothing. -/
theorem mul_fnvPrime_injective : Function.Injective (fun hash : UInt64 => hash * fnvPrime) := by
  intro x y h
  have hbits : x.toBitVec * fnvPrime.toBitVec = y.toBitVec * fnvPrime.toBitVec :=
    congrArg UInt64.toBitVec h
  exact UInt64.toBitVec_inj.mp (mul_injective_of_odd (by decide) hbits)

/-- Over one byte, different hashes stay different. -/
theorem fnvByte_injective_left (byte : UInt8) : Function.Injective (fnvByte · byte) := by
  intro x y h
  exact (UInt64.xor_left_inj _).mp (mul_fnvPrime_injective h)

/-- From one hash, different bytes lead to different hashes. -/
theorem fnvByte_injective_right (hash : UInt64) : Function.Injective (fnvByte hash) := by
  intro b c h
  have hwide : b.toUInt64 = c.toUInt64 := (UInt64.xor_right_inj hash).mp (mul_fnvPrime_injective h)
  exact UInt8.toUInt64_inj.mp hwide

/-- Over the same bytes, different hashes stay different. -/
theorem fnv1a_injective_left (bytes : List UInt8) : Function.Injective (fnv1a · bytes) := by
  induction bytes with
  | nil => exact fun _ _ h => h
  | cons b bytes ih => exact fun _ _ h => fnvByte_injective_left b (ih h)

theorem fnv1a_append (hash : UInt64) (bytes bytes' : List UInt8) :
    fnv1a hash (bytes ++ bytes') = fnv1a (fnv1a hash bytes) bytes' := List.foldl_append

/-- Prefixes of 39 letters from `a` to `d`. -/
def letters (f : Fin 39 → Fin 4) : String :=
  String.ofList (List.ofFn fun i => Char.ofNat (97 + (f i).val))

/-- Each of these texts is an accepted prefix. -/
theorem letters_accepted (f : Fin 39 → Fin 4) : validatePrefix (letters f) = .ok () := by
  have hletter : ∀ n : Fin 4, (Char.ofNat (97 + n.val)).isLower := by decide
  rw [validatePrefix_iff]
  refine ⟨?_, ⟨_, _, by rw [letters, String.toList_ofList, List.ofFn_succ], hletter _⟩, ?_⟩
  · rw [letters, String.length_ofList, List.length_ofFn]
    decide
  · intro c hc
    rw [letters, String.toList_ofList, List.mem_ofFn] at hc
    obtain ⟨i, rfl⟩ := hc
    simp [isPermitted, hletter (f i)]

/-- They are different prefixes. -/
theorem letters_injective : Function.Injective letters := by
  intro f g h
  have hletter : ∀ m n : Fin 4, Char.ofNat (97 + m.val) = Char.ofNat (97 + n.val) → m = n := by
    decide
  have hlist := List.ofFn_injective (String.ofList_injective h)
  exact funext fun i => hletter _ _ (congrFun hlist i)

/-- **What the lock keys tell apart.** Two prefixes whose names differ in one byte only have
    different keys, so such queues never wait for each other's migration; but a key has 64 bits
    and there are more accepted prefixes than that, and two of them have the same key. -/
theorem advisoryLockId_distinguishes :
    (∀ p q : String, ∀ before after : List UInt8, ∀ b c : UInt8, b ≠ c →
      prefixBytes p = before ++ b :: after → prefixBytes q = before ++ c :: after →
      advisoryLockId p ≠ advisoryLockId q) ∧
    ∃ p q : String, validatePrefix p = .ok () ∧ validatePrefix q = .ok () ∧ p ≠ q ∧
      advisoryLockId p = advisoryLockId q := by
  constructor
  · intro p q before after b c hbc hp hq heq
    rw [advisoryLockId_eq, advisoryLockId_eq, hp, hq, fnv1a_append, fnv1a_append] at heq
    have hhash := fnv1a_injective_left after (congrArg Int64.toUInt64 heq)
    exact hbc (fnvByte_injective_right _ hhash)
  · have hcard : Fintype.card (Fin (2 ^ 64)) < Fintype.card (Fin 39 → Fin 4) := by
      rw [Fintype.card_fun, Fintype.card_fin, Fintype.card_fin, Fintype.card_fin]
      decide
    obtain ⟨f, g, hfg, heq⟩ := Fintype.exists_ne_map_eq_of_card_lt
      (fun f => (fnv1a fnvOffset (prefixBytes (letters f))).toFin) hcard
    refine ⟨letters f, letters g, letters_accepted f, letters_accepted g,
      fun h => hfg (letters_injective h), ?_⟩
    rw [advisoryLockId_eq, advisoryLockId_eq]
    exact congrArg UInt64.toInt64 (UInt64.toFin_inj.mp heq)

end Venturi
