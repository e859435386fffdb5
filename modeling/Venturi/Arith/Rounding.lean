import Mathlib.Algebra.Order.Floor.Ring
import Mathlib.Data.Int.Log
import Mathlib.Data.Rat.Floor
import Mathlib.Tactic.Linarith
import Mathlib.Tactic.Ring

namespace Arith

/-!
# Rounding to a number of significant bits

Binary rounding to nearest, ties to even, with `p` significant bits and no bound on the exponent.

* `roundEven` — to the nearest integer.
* `roundBits` — to `p` significant bits: `roundEven` in units of the last of them.
* `Dyadic` — what `p` significant bits can write; `roundBits` lands there, and leaves nothing else
  alone (`roundBits_eq_self_iff`).
* `roundNat`, `FitsBits` — both on natural numbers, where they can be evaluated.
-/

/-! ### To an integer -/

section Nearest

variable {R : Type*} [Field R] [LinearOrder R] [IsStrictOrderedRing R] [FloorRing R]

/-- The nearest integer, the even one of two. -/
def roundEven (x : R) : ℤ :=
  if 2 * Int.fract x < 1 then ⌊x⌋
  else if 1 < 2 * Int.fract x then ⌊x⌋ + 1
  else ⌊x⌋ + ⌊x⌋ % 2

@[simp] theorem roundEven_intCast (n : ℤ) : roundEven (n : R) = n := by
  have hbelow : 2 * Int.fract (n : R) < 1 := by
    rw [Int.fract_intCast, mul_zero]
    exact one_pos
  rw [roundEven, if_pos hbelow, Int.floor_intCast]

omit [IsStrictOrderedRing R] in
/-- It is the floor or the integer above. -/
theorem roundEven_mem (x : R) : ⌊x⌋ ≤ roundEven x ∧ roundEven x ≤ ⌊x⌋ + 1 := by
  unfold roundEven
  split_ifs <;> omega

omit [IsStrictOrderedRing R] in
/-- Rounding does not fall below an integer that is no larger. -/
theorem le_roundEven {n : ℤ} {x : R} (h : (n : R) ≤ x) : n ≤ roundEven x :=
  (Int.le_floor.mpr h).trans (roundEven_mem x).1

/-- Rounding does not rise above an integer that is no smaller. -/
theorem roundEven_le {n : ℤ} {x : R} (h : x ≤ n) : roundEven x ≤ n := by
  obtain rfl | hlt := eq_or_lt_of_le h
  · rw [roundEven_intCast]
  · have hfloor : ⌊x⌋ < n := Int.floor_lt.mpr hlt
    have habove := (roundEven_mem x).2
    omega

/-- Rounding keeps a bound on the magnitude. -/
theorem abs_roundEven_le {n : ℤ} {x : R} (h : |x| ≤ n) : |roundEven x| ≤ n := by
  obtain ⟨hlow, hhigh⟩ := abs_le.mp h
  have hneg : ((-n : ℤ) : R) ≤ x := by
    rw [Int.cast_neg]
    exact hlow
  exact abs_le.mpr ⟨le_roundEven hneg, roundEven_le hhigh⟩

end Nearest

/-! ### To a number of bits -/

section Bits

variable {R : Type*} [Field R] [LinearOrder R] [IsStrictOrderedRing R] [FloorRing R]
variable {p : ℕ} {x : R}

/-- The exponent of the last of `p` significant bits of a number. -/
def lastBit (p : ℕ) (x : R) : ℤ := Int.log 2 |x| + 1 - p

/-- To `p` significant bits. -/
def roundBits (p : ℕ) (x : R) : R := roundEven (x / 2 ^ lastBit p x) * 2 ^ lastBit p x

/-- A number with a significand of `p` bits. -/
def Dyadic (p : ℕ) (x : R) : Prop := ∃ m e : ℤ, |m| < 2 ^ p ∧ x = m * 2 ^ e

/-- In units of its last bit, a number is below `2 ^ p`. -/
theorem abs_div_lastBit_lt (p : ℕ) (x : R) : |x / 2 ^ lastBit p x| < 2 ^ p := by
  have hunit : (0 : R) < 2 ^ lastBit p x := zpow_pos two_pos _
  have hscale : (2 : R) ^ p * 2 ^ lastBit p x = 2 ^ (Int.log 2 |x| + 1) := by
    rw [← zpow_natCast, ← zpow_add₀ two_ne_zero, lastBit, add_sub_cancel]
  rw [abs_div, abs_of_pos hunit, div_lt_iff₀ hunit, hscale]
  exact_mod_cast Int.lt_zpow_succ_log_self one_lt_two |x|

/-- What a significand of `p` bits writes is a multiple of its last bit. -/
theorem lastBit_le {m e : ℤ} (hm : |m| < 2 ^ p) (hm0 : m ≠ 0) :
    lastBit p ((m : R) * 2 ^ e) ≤ e := by
  have hunit : (0 : R) < 2 ^ e := zpow_pos two_pos e
  have hpos : 0 < |(m : R) * 2 ^ e| :=
    abs_pos.mpr (mul_ne_zero (Int.cast_ne_zero.mpr hm0) hunit.ne')
  have hsignificand : |(m : R)| < 2 ^ p := by exact_mod_cast hm
  have hbelow : |(m : R) * 2 ^ e| < ((2 : ℕ) : R) ^ ((p : ℤ) + e) := by
    rw [abs_mul, abs_of_pos hunit, Nat.cast_ofNat, zpow_add₀ two_ne_zero, zpow_natCast]
    exact mul_lt_mul_of_pos_right hsignificand hunit
  have hlog := (Int.lt_zpow_iff_log_lt one_lt_two hpos).mp hbelow
  unfold lastBit
  omega

omit [FloorRing R] in
/-- A number in units of a smaller bit. -/
theorem mul_zpow_div_zpow (m : ℤ) {e last : ℤ} (h : last ≤ e) :
    (m : R) * 2 ^ e / 2 ^ last = ((m * 2 ^ (e - last).toNat : ℤ) : R) := by
  have hexponent : ((e - last).toNat : ℤ) = e - last := Int.toNat_of_nonneg (by omega)
  rw [mul_div_assoc, ← zpow_sub₀ two_ne_zero, ← hexponent, zpow_natCast]
  push_cast
  rfl

/-- A multiple of its last bit is exact. -/
theorem roundBits_of_units {j : ℤ} (h : x / 2 ^ lastBit p x = j) : roundBits p x = x := by
  rw [roundBits, h, roundEven_intCast, ← h, div_mul_cancel₀ _ (zpow_ne_zero _ two_ne_zero)]

@[simp] theorem roundBits_zero (p : ℕ) : roundBits p (0 : R) = 0 :=
  roundBits_of_units (j := 0) (by rw [zero_div, Int.cast_zero])

/-- **What fits is exact.** -/
theorem roundBits_of_dyadic (h : Dyadic p x) : roundBits p x = x := by
  obtain ⟨m, e, hm, rfl⟩ := h
  obtain rfl | hm0 := eq_or_ne m 0
  · rw [Int.cast_zero, zero_mul, roundBits_zero]
  · exact roundBits_of_units (mul_zpow_div_zpow m (lastBit_le hm hm0))

/-- **What rounding returns fits.** -/
theorem dyadic_roundBits (hp : 0 < p) (x : R) : Dyadic p (roundBits p x) := by
  have hle : |roundEven (x / 2 ^ lastBit p x)| ≤ 2 ^ p :=
    abs_roundEven_le (by exact_mod_cast (abs_div_lastBit_lt p x).le)
  obtain hlt | hcarry := hle.lt_or_eq
  · exact ⟨_, _, hlt, rfl⟩
  · -- the significand overflowed to `2 ^ p`: one bit, one place up
    have heven : 2 ∣ roundEven (x / 2 ^ lastBit p x) :=
      (dvd_abs _ _).mp (hcarry ▸ dvd_pow_self 2 hp.ne')
    obtain ⟨m, hm⟩ := heven
    have hpos : (0 : ℤ) < 2 ^ p := pow_pos two_pos p
    refine ⟨m, lastBit p x + 1, ?_, ?_⟩
    · rw [hm, abs_mul, abs_two] at hcarry
      linarith
    · rw [roundBits, hm, zpow_add₀ two_ne_zero, zpow_one]
      push_cast
      ring

/-- A number that was rounded is rounded to itself. -/
theorem roundBits_roundBits (hp : 0 < p) (x : R) : roundBits p (roundBits p x) = roundBits p x :=
  roundBits_of_dyadic (dyadic_roundBits hp x)

/-- **Rounding leaves alone what fits, and nothing else.** -/
theorem roundBits_eq_self_iff (hp : 0 < p) : roundBits p x = x ↔ Dyadic p x :=
  ⟨fun h => h ▸ dyadic_roundBits hp x, roundBits_of_dyadic⟩

end Bits

/-! ### Natural numbers -/

/-- A quotient, rounded to the nearest natural number. -/
def roundDiv (n d : ℕ) : ℕ :=
  if 2 * (n % d) < d then n / d
  else if d < 2 * (n % d) then n / d + 1
  else n / d + n / d % 2

/-- `roundBits` of a natural number. -/
def roundNat (p n : ℕ) : ℕ :=
  roundDiv n (2 ^ (Nat.log 2 n + 1 - p)) * 2 ^ (Nat.log 2 n + 1 - p)

/-- A natural number with at most `p` significant bits. -/
def FitsBits (p n : ℕ) : Prop := ∃ m e : ℕ, m < 2 ^ p ∧ n = m * 2 ^ e

section Naturals

variable {p n d : ℕ}

theorem fitsBits_of_lt (h : n < 2 ^ p) : FitsBits p n := ⟨n, 0, h, by rw [pow_zero, mul_one]⟩

theorem fitsBits_of_le (hp : 0 < p) (h : n ≤ 2 ^ p) : FitsBits p n := by
  obtain rfl | hlt := eq_or_lt_of_le h
  · exact ⟨1, p, Nat.one_lt_two_pow hp.ne', (one_mul _).symm⟩
  · exact fitsBits_of_lt hlt

/-- An odd number has to fit as it is. -/
theorem FitsBits.lt_of_odd (h : FitsBits p n) (hodd : n % 2 = 1) : n < 2 ^ p := by
  obtain ⟨m, e, hm, rfl⟩ := h
  cases e with
  | zero => rwa [pow_zero, mul_one]
  | succ e =>
    rw [pow_succ, ← mul_assoc, Nat.mul_mod_left] at hodd
    cases hodd

/-- A rounded quotient is the floor or the next number. -/
theorem roundDiv_le_succ (n d : ℕ) : roundDiv n d ≤ n / d + 1 := by
  unfold roundDiv
  split_ifs <;> omega

/-- A rounded quotient is off by half a unit at most. -/
theorem roundDiv_near (hd : 0 < d) :
    2 * n ≤ 2 * (roundDiv n d * d) + d ∧ 2 * (roundDiv n d * d) ≤ 2 * n + d := by
  have hn : n / d * d + n % d = n := Nat.div_add_mod' n d
  have hr : n % d < d := Nat.mod_lt n hd
  have hup : (n / d + 1) * d = n / d * d + d := Nat.succ_mul _ d
  unfold roundDiv
  split_ifs with hbelow habove
  · omega
  · omega
  · -- halfway, either neighbour will do
    obtain heven | hodd := Nat.mod_two_eq_zero_or_one (n / d)
    · rw [heven, Nat.add_zero]
      omega
    · rw [hodd]
      omega

/-- A number that is short enough keeps all its bits. -/
theorem roundNat_of_short (h : Nat.log 2 n + 1 ≤ p) : roundNat p n = n := by
  rw [roundNat, Nat.sub_eq_zero_of_le h, pow_zero, mul_one]
  simp [roundDiv, Nat.mod_one]

variable {R : Type*} [Field R] [LinearOrder R] [IsStrictOrderedRing R] [FloorRing R]

/-- A quotient of natural numbers is rounded as `roundDiv` does. -/
theorem roundEven_div (hd : 0 < d) : roundEven ((n : R) / d) = roundDiv n d := by
  have hdR : (0 : R) < d := Nat.cast_pos.mpr hd
  have hfloor : ⌊(n : R) / d⌋ = (n / d : ℕ) := by
    rw [Int.floor_div_natCast, Int.floor_natCast, Int.natCast_div]
  have hfract : Int.fract ((n : R) / d) = ((n % d : ℕ) : R) / d :=
    Int.fract_div_natCast_eq_div_natCast_mod
  have hbelow : 2 * Int.fract ((n : R) / d) < 1 ↔ 2 * (n % d) < d := by
    rw [hfract, ← mul_div_assoc, div_lt_one hdR]
    exact_mod_cast Iff.rfl
  have habove : 1 < 2 * Int.fract ((n : R) / d) ↔ d < 2 * (n % d) := by
    rw [hfract, ← mul_div_assoc, one_lt_div hdR]
    exact_mod_cast Iff.rfl
  simp only [roundEven, roundDiv, hfloor, hbelow, habove]
  split_ifs <;> push_cast <;> rfl

/-- **On natural numbers** the rounding is that of the natural numbers. -/
theorem roundBits_natCast (p n : ℕ) : roundBits p (n : R) = roundNat p n := by
  have hlast : lastBit p (n : R) = (Nat.log 2 n : ℤ) + 1 - p := by
    rw [lastBit, Nat.abs_cast, Int.log_natCast]
  obtain hshort | hlong := le_total (Nat.log 2 n + 1) p
  · -- all of its bits are kept
    have hle : lastBit p (n : R) ≤ 0 := by omega
    have hunits := mul_zpow_div_zpow (R := R) n hle
    rw [zpow_zero, mul_one, Int.cast_natCast] at hunits
    rw [roundBits_of_units hunits, roundNat_of_short hshort]
  · have hshift : (Nat.log 2 n : ℤ) + 1 - p = (Nat.log 2 n + 1 - p : ℕ) := by omega
    have hunit : (2 : R) ^ (Nat.log 2 n + 1 - p) = ((2 ^ (Nat.log 2 n + 1 - p) : ℕ) : R) := by
      push_cast
      rfl
    rw [roundBits, hlast, hshift, zpow_natCast, hunit, roundEven_div (Nat.two_pow_pos _), roundNat]
    push_cast
    rfl

/-- A natural number fits if it does as a dyadic number. -/
theorem dyadic_natCast : Dyadic p (n : R) ↔ FitsBits p n := by
  constructor
  · rintro ⟨m, e, hm, h⟩
    have hunit : (0 : R) < 2 ^ e := zpow_pos two_pos e
    have hm0 : 0 ≤ m := by
      have hproduct : 0 ≤ (m : R) * 2 ^ e := h ▸ Nat.cast_nonneg n
      exact_mod_cast nonneg_of_mul_nonneg_left hproduct hunit
    lift m to ℕ using hm0
    rw [Nat.abs_cast] at hm
    obtain ⟨k, rfl | rfl⟩ := e.eq_nat_or_neg
    · rw [zpow_natCast] at h
      exact ⟨m, k, by exact_mod_cast hm, by exact_mod_cast h⟩
    · -- bits below the point: the number is no larger than its significand
      have hscaled : (n : R) * 2 ^ k = m := by
        rw [h, zpow_neg, zpow_natCast, inv_mul_cancel_right₀ (pow_ne_zero k two_ne_zero),
          Int.cast_natCast]
      have hnat : n * 2 ^ k = m := by exact_mod_cast hscaled
      have hle : n ≤ m := hnat ▸ Nat.le_mul_of_pos_right n (Nat.two_pow_pos k)
      exact fitsBits_of_lt (hle.trans_lt (by exact_mod_cast hm))
  · rintro ⟨m, e, hm, rfl⟩
    refine ⟨m, e, ?_, ?_⟩
    · rw [Nat.abs_cast]
      exact_mod_cast hm
    · push_cast
      rw [zpow_natCast]

end Naturals

section Fixed

variable {p n w : ℕ}

/-- A number that was rounded to `p` bits fits them. -/
theorem fitsBits_roundNat (hp : 0 < p) (n : ℕ) : FitsBits p (roundNat p n) := by
  have h := dyadic_roundBits hp (n : ℚ)
  rwa [roundBits_natCast, dyadic_natCast] at h

/-- **A natural number is rounded to itself** exactly if it fits. -/
theorem roundNat_eq_self_iff (hp : 0 < p) : roundNat p n = n ↔ FitsBits p n := by
  have h := roundBits_eq_self_iff (x := (n : ℚ)) hp
  rwa [roundBits_natCast, Nat.cast_inj, dyadic_natCast] at h

instance [NeZero p] : DecidablePred (FitsBits p) :=
  fun _ => decidable_of_iff _ (roundNat_eq_self_iff (NeZero.pos p))

/-- Rounding stays within the next power of two. -/
theorem roundNat_le (hp : 0 < p) (hn : n < 2 ^ w) : roundNat p n ≤ 2 ^ w := by
  obtain hshort | hlong := le_or_gt (Nat.log 2 n + 1) p
  · rw [roundNat_of_short hshort]
    exact hn.le
  · have hn0 : n ≠ 0 := by
      rintro rfl
      rw [Nat.log_zero_right] at hlong
      omega
    have hw : Nat.log 2 n + 1 ≤ w := Nat.log_lt_of_lt_pow hn0 hn
    have hbits : p + (Nat.log 2 n + 1 - p) = Nat.log 2 n + 1 := by omega
    have hquotient : n / 2 ^ (Nat.log 2 n + 1 - p) < 2 ^ p := by
      rw [Nat.div_lt_iff_lt_mul (Nat.two_pow_pos _), ← pow_add, hbits]
      exact Nat.lt_pow_succ_log_self one_lt_two n
    calc roundNat p n
        ≤ 2 ^ p * 2 ^ (Nat.log 2 n + 1 - p) :=
          Nat.mul_le_mul_right _ ((roundDiv_le_succ n _).trans hquotient)
      _ = 2 ^ (Nat.log 2 n + 1) := by rw [← pow_add, hbits]
      _ ≤ 2 ^ w := Nat.pow_le_pow_right two_pos hw

/-- Rounding moves a number by half a unit of its last bit at most. -/
theorem roundNat_near (p n : ℕ) :
    2 * n ≤ 2 * roundNat p n + 2 ^ (Nat.log 2 n + 1 - p) ∧
      2 * roundNat p n ≤ 2 * n + 2 ^ (Nat.log 2 n + 1 - p) :=
  roundDiv_near (Nat.two_pow_pos _)

end Fixed

/-- At three bits, 9 and 11 lie halfway between two neighbours. -/
example : (List.range 13).map (roundNat 3) = [0, 1, 2, 3, 4, 5, 6, 7, 8, 8, 10, 12, 12] ∧
    ¬ FitsBits 3 9 ∧ FitsBits 3 10 := by decide

end Arith
