import Mathlib.Data.List.Basic
import Mathlib.Data.String.Basic
import Venturi.Arith.Digits

namespace Text

open Arith

/-!
# Crockford's base 32

* `encode k n` — the number in `k` letters.
* `decode_encode` — reading it gives the number back.
* `encode_lt_iff` — the texts of one length are ordered, letter by letter, as their numbers.
-/

/-- The letters, in the order of what they stand for. -/
def alphabet : List Char := "0123456789ABCDEFGHJKMNPQRSTVWXYZ".toList

def encodeDigit (d : Nat) : Char := alphabet.getD d '0'

def decodeDigit (c : Char) : Option Nat := if c ∈ alphabet then some (alphabet.idxOf c) else none

def encode (k n : Nat) : String := String.ofList ((fixedDigits 32 k n).map encodeDigit)

def decode (s : String) : Option Nat := (s.toList.mapM decodeDigit).map (ofFixedDigits 32)

/-- A digit is read as it was written. -/
theorem decodeDigit_encodeDigit : ∀ d < 32, decodeDigit (encodeDigit d) = some d := by
  decide

/-- The digits are in the order of their values. -/
theorem encodeDigit_lt_iff : ∀ c < 32, ∀ d < 32, (encodeDigit c < encodeDigit d ↔ c < d) := by
  decide

variable {k m n : Nat}

@[simp] theorem length_encode (k n : Nat) : (encode k n).length = k := by
  rw [encode, String.length_ofList, List.length_map, length_fixedDigits]

/-- A list of digits is read as it was written. -/
theorem mapM_encodeDigit {ds : List Nat} (h : ∀ d ∈ ds, d < 32) :
    (ds.map encodeDigit).mapM decodeDigit = some ds := by
  induction ds with
  | nil => rfl
  | cons d ds ih =>
    obtain ⟨hd, hds⟩ := List.forall_mem_cons.mp h
    rw [List.map_cons, List.mapM_cons, decodeDigit_encodeDigit d hd, ih hds]
    rfl

/-- **What is read is what was written.** -/
theorem decode_encode (hn : n < 32 ^ k) : decode (encode k n) = some n := by
  have hdigits := mapM_encodeDigit (fixedDigits_lt (by decide) hn)
  rw [decode, encode, String.toList_ofList, hdigits, Option.map_some,
    ofFixedDigits_fixedDigits (by decide) hn]

/-- **Texts of one length sort as their numbers.** -/
theorem encode_lt_iff (hm : m < 32 ^ k) (hn : n < 32 ^ k) : encode k m < encode k n ↔ m < n := by
  rw [String.lt_iff_toList_lt, encode, encode, String.toList_ofList, String.toList_ofList]
  exact fixedDigits_lt_iff (by decide) encodeDigit_lt_iff hm hn

end Text
