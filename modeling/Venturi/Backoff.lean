import Mathlib.Data.Rat.Floor
import Venturi.Store.Records

namespace Venturi

/-!
# Retry backoff (`backoff.rs`)

The Fibonacci curve and its deterministic jitter.  Durations are nanosecond counts, and
the saturating integer arithmetic is written out.

The jitter is computed in `f64`.  Here a float is its rational value and `fl` rounds the
result of each operation, so `fl := id` is exact arithmetic; `jitter_unit` rounds nothing,
its numerator has 53 bits.
-/

/-- `MIN_BASE`: one millisecond. -/
def minBase : Duration := 1000000

/-- `Backoff`.  The fields are private, so every value satisfies what `new` establishes. -/
structure Backoff where
  base : Duration
  cap : Duration
  minBase_le : minBase ≤ base
  base_le_cap : base ≤ cap
  deriving DecidableEq

namespace Backoff

/-- `Backoff::new`. -/
def new (base cap : Duration) : Backoff where
  base := max base minBase
  cap := max cap (max base minBase)
  minBase_le := le_max_right _ _
  base_le_cap := le_max_right _ _

/-- `Backoff::default`: 500 ms up to 120 s. -/
def default : Backoff := ⟨500000000, 120000000000, by decide, by decide⟩

end Backoff

/-! ### The curve -/

/-- `u64::MAX`. -/
def u64Max : Nat := 2 ^ 64 - 1

/-- One turn of the loop of `fib_minus_one`. -/
def fibStep (p : Nat × Nat) : Nat × Nat := (p.2, min (p.1 + p.2) u64Max)

/-- `fib_minus_one`. -/
def fibMinusOne (n : Nat) : Nat := if n ≤ 2 then 0 else (fibStep^[n - 2] (1, 1)).2 - 1

/-- `base_delay`; the product saturates at `u128::MAX`. -/
def baseDelay (backoff : Backoff) (attempt : Nat) : Duration :=
  min (min (min (backoff.base * fibMinusOne attempt) (2 ^ 128 - 1)) backoff.cap) u64Max

/-! ### The jitter -/

/-- `splitmix64`. -/
def splitmix64 (seed : UInt64) : UInt64 :=
  let z := seed + 0x9E3779B97F4A7C15
  let z := (z ^^^ (z >>> 30)) * 0xBF58476D1CE4E5B9
  let z := (z ^^^ (z >>> 27)) * 0x94D049BB133111EB
  z ^^^ (z >>> 31)

/-- The 64 bits `jitter_unit` mixes from the two halves of the id and the attempt. -/
def jitterBits (id : Ulid) (attempt : Nat) : UInt64 :=
  let hi := UInt64.ofNat (id.val / 2 ^ 64)
  let lo := UInt64.ofNat (id.val % 2 ^ 64)
  splitmix64 (hi ^^^ splitmix64 (lo ^^^ UInt64.ofNat attempt))

/-- `jitter_unit`: the top 53 bits as a fraction in `[0, 1)`. -/
def jitterUnit (id : Ulid) (attempt : Nat) : ℚ :=
  ((jitterBits id attempt >>> 11).toNat : ℚ) / 2 ^ 53

/-- `f64 as u64`: truncate, saturating at both ends. -/
def asU64 (q : ℚ) : Nat := min q.floor.toNat u64Max

/-- `retry_delay`. -/
def retryDelay (fl : ℚ → ℚ) (backoff : Backoff) (fraction : ℚ) (attempt : Nat) (id : Ulid) :
    Duration :=
  let delay := baseDelay backoff attempt
  if delay = 0 then 0
  else
    let fraction := max 0 (min fraction 1)
    let unit := jitterUnit id attempt
    let factor := fl (1 - fl (fraction * fl (1 - unit)))
    asU64 (fl (fl (delay : ℚ) * factor))

end Venturi
