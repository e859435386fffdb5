import Mathlib.Logic.Function.Iterate
import Venturi.Arith.Window
import Venturi.Postgres.Programs
import Venturi.Worker.Loop
import Venturi.Worker.System

namespace Venturi

open Sql PostgresStore StoreProgram Trace Finset

/-!
# What the rotation of floors claims (`worker/mod.rs`)

* `Worker.claimWithFallback` — one claim attempt of the loop, as a program.
* `Attempt` — an attempt that came back without a store error, with the states its calls saw.
* `Attempt.claims_floor` — an attempt that sees a job of the tier of its floor claims one.
* `anti_starvation` — in a window of `r * r` attempts, under the counter of the loop, a Low job
  is claimed, and each tier gets its exact share where the counter does not wrap.
-/

/-- `Worker::claim_with_fallback`. -/
def Worker.claimWithFallback (w : Worker) (kinds : List String) (floor : Int) :
    StoreProgram (Option JobRecord) := do
  let claimed ← call (.claimNext kinds floor w.config.lease w.identity)
  if claimed.isSome ∨ floor = floorAll then return claimed
  else call (.claimNext kinds floorAll w.config.lease w.identity)

/-! ### Attempts -/

/-- A claim attempt: the kinds it asks for, the state it begins in, the steps taken until it
    came back, its result and the state then. -/
structure Attempt where
  kinds : List String
  start : PostgresStore
  turns : List StoreTurn
  result : Option JobRecord
  stop : PostgresStore

namespace Attempt

/-- The attempt of this worker at this floor, with no store error. -/
def By (x : Attempt) (w : Worker) (floor : Int) : Prop :=
  Exec (w.claimWithFallback x.kinds floor).run x.start x.turns (.ret (.ok x.result)) x.stop

/-- Each call of the attempt sees an eligible job of this tier. -/
def Sees (x : Attempt) (tier : Priority) : Prop :=
  ∀ m ∈ owns x.turns, ∃ id j, m.before.view id = some j ∧
    j.row.eligible x.kinds tier.asSmallint m.label.1.now ∧ j.row.priority = tier.asSmallint

/-- The attempt claimed a job of this tier. -/
def Claims (x : Attempt) (tier : Priority) : Prop :=
  x.result.map JobRecord.priority = some tier.asSmallint

instance (x : Attempt) (tier : Priority) : Decidable (x.Claims tier) :=
  inferInstanceAs (Decidable (_ = _))

variable {x : Attempt} {w : Worker} {tier tier' : Priority}

/-- The order of a claim is by tier first. -/
theorem tier_le {p q : Int × DateTime} (h : toLex p ≤ toLex q) : p.1 ≤ q.1 := by
  rcases Prod.Lex.toLex_le_toLex.mp h with h | h
  · exact le_of_lt h
  · exact le_of_eq h.1

/-- **An attempt that sees a job of the tier of its floor claims one**: the floor keeps the
    tiers above out, and the claim takes the highest tier that is left. -/
theorem claims_floor (h : x.By w tier.asSmallint) (hsees : x.Sees tier) : x.Claims tier := by
  obtain ⟨kinds, start, turns, result, stop⟩ := x
  have hexec : Exec (w.claimWithFallback kinds tier.asSmallint).run start turns
      (.ret (.ok result)) stop := h
  rw [Worker.claimWithFallback, run_call_bind] at hexec
  obtain ⟨ms, s₁, env, reply, s₂, turns', rfl, -, hclaim, hrest⟩ := hexec.of_op
  obtain ⟨id, j, hj, heligible, htier⟩ := hsees ⟨s₁, (env, ⟨_, reply⟩), s₂⟩ (by simp)
  rcases reply with e | claimed
  · obtain ⟨hret, -⟩ := hrest.of_ret
    cases hret
  · rcases commit_eq hclaim.of_ok with ⟨o, hok, hreply⟩ | ⟨_, -, herr, -⟩
    · obtain rfl := Except.ok.inj hreply
      rcases claimNext_cases hok with ⟨-, -, hnone⟩ | ⟨job, -, hfits, -, hleast, hsome, -⟩
      · exact absurd heligible (hnone id j hj)
      · -- the job claimed is the result, and its tier is neither above nor below the floor
        have hle : job.row.priority ≤ j.row.priority := tier_le (hleast id j hj heligible)
        have hge : tier.asSmallint ≤ job.row.priority := (JobRecord.eligible_iff.mp hfits).2.2.2
        rw [hsome] at hrest
        obtain ⟨hret, -⟩ := hrest.of_ret
        have hresult := Except.ok.inj hret
        rw [Claims]
        show result.map JobRecord.priority = some tier.asSmallint
        rw [hresult]
        exact congrArg some (le_antisymm (hle.trans (le_of_eq htier)) hge)
    · cases herr

end Attempt

/-! ### The counter of the loop -/

/-- `claim_counter` at the attempt `i` of a loop that starts from `start`. -/
def claimCounter (start i : Nat) : Nat := wrappingSucc^[i + 1] start

/-- The counter of an attempt, which wraps at 64 bits. -/
theorem claimCounter_eq (start i : Nat) : claimCounter start i = (start + i + 1) % 2 ^ 64 := by
  induction i with
  | zero => rfl
  | succ i ih =>
    rw [claimCounter, Function.iterate_succ_apply', ← claimCounter, ih, wrappingSucc]
    omega

/-- Up to the wrap, the counter counts. -/
theorem claimCounter_add {start k i : Nat} (h : claimCounter start k + i < 2 ^ 64) :
    claimCounter start (k + i) = claimCounter start k + i := by
  rw [claimCounter_eq] at h ⊢
  rw [claimCounter_eq]
  omega

/-- At the wrap, the counter is zero. -/
theorem claimCounter_wrap {start k i : Nat} (h : claimCounter start k + i = 2 ^ 64) :
    claimCounter start (k + i) = 0 := by
  rw [claimCounter_eq] at h ⊢
  omega

/-! ### The floors of a window -/

section Floors

variable {n r : Nat}

/-- Every floor is the floor of a tier. -/
theorem floorFor_tier (n : Nat) (ratio : Option Nat) :
    ∃ tier : Priority, floorFor n ratio = tier.asSmallint := by
  unfold floorFor
  split
  · split_ifs
    exacts [⟨.low, rfl⟩, ⟨.normal, rfl⟩, ⟨.high, rfl⟩, ⟨.high, rfl⟩]
  · exact ⟨.high, rfl⟩

/-- An attempt is for the Low tier at every multiple of `r * r`. -/
theorem floorFor_low_iff (hr : 2 ≤ r) :
    floorFor n (some r) = Priority.low.asSmallint ↔ n % (r * r) = 0 := by
  unfold floorFor
  simp only [hr, if_true]
  split_ifs with hsquare hmultiple <;> simp [hsquare, floorLow, floorNormal, floorAll,
    Priority.asSmallint]

/-- It is for the Normal tier at the other multiples of `r`. -/
theorem floorFor_normal_iff (hr : 2 ≤ r) :
    floorFor n (some r) = Priority.normal.asSmallint ↔ n % r = 0 ∧ ¬ n % (r * r) = 0 := by
  unfold floorFor
  simp only [hr, if_true]
  split_ifs with hsquare hmultiple <;> simp [*, floorLow, floorNormal, floorAll,
    Priority.asSmallint]

/-- It is for the High tier in between. -/
theorem floorFor_high_iff (hr : 2 ≤ r) :
    floorFor n (some r) = Priority.high.asSmallint ↔ ¬ n % r = 0 := by
  unfold floorFor
  simp only [hr, if_true]
  split_ifs with hsquare hmultiple
  · simp [Arith.multiple_of_square hsquare, floorLow, Priority.asSmallint]
  · simp [hmultiple, floorNormal, Priority.asSmallint]
  · simp [hmultiple, floorAll, Priority.asSmallint]

end Floors

/-- The square of a ratio does not overflow the counter. -/
theorem square_lt {r : Nat} (hmax : r ≤ u32Max) : r * r < 2 ^ 64 := by
  have h : r * r ≤ u32Max * u32Max := Nat.mul_le_mul hmax hmax
  refine lt_of_le_of_lt h ?_
  decide

/-- **A window of `r * r` attempts has one at the floor of the Low tier**, wherever it starts:
    the counter reaches a multiple of `r * r`, or it wraps to zero. -/
theorem exists_floorLow {r : Nat} (hr : 2 ≤ r) (start k : Nat) :
    ∃ i < r * r, floorFor (claimCounter start (k + i)) (some r) = Priority.low.asSmallint := by
  have hpos : 0 < r * r := by positivity
  by_cases hwrap : claimCounter start k + r * r ≤ 2 ^ 64
  · obtain ⟨i, hi, hmultiple⟩ := Arith.exists_multiple hpos (claimCounter start k)
    refine ⟨i, hi, (floorFor_low_iff hr).mpr ?_⟩
    rw [claimCounter_add (by omega), hmultiple]
  · have hlt : claimCounter start k < 2 ^ 64 := by
      rw [claimCounter_eq]
      omega
    refine ⟨2 ^ 64 - claimCounter start k, by omega, (floorFor_low_iff hr).mpr ?_⟩
    rw [claimCounter_wrap (by omega), Nat.zero_mod]

/-! ### The shares -/

/-- How many attempts of the window `k ≤ i < k + n` claim a job of this tier. -/
def claimsOf (xs : Nat → Attempt) (k n : Nat) (tier : Priority) : Nat :=
  #{i ∈ range n | (xs (k + i)).Claims tier}

section Shares

variable {w : Worker} {r start k : Nat} {xs : Nat → Attempt} {tier tier' : Priority}

/-- An attempt that sees jobs of all tiers claims the tier of its floor and no other. -/
theorem claims_iff {x : Attempt} {floor : Int} (h : x.By w floor)
    (hfloor : ∃ tier : Priority, floor = tier.asSmallint) (hsees : ∀ tier, x.Sees tier) :
    x.Claims tier ↔ floor = tier.asSmallint := by
  obtain ⟨tier', rfl⟩ := hfloor
  have hclaims : x.Claims tier' := Attempt.claims_floor h (hsees tier')
  rw [Attempt.Claims, hclaims, Option.some.injEq]

/-- **The attempts of a window claim the tiers of its floors**, when jobs of all tiers are
    there; `p` says of a counter whether its floor is that of the tier. -/
theorem claimsOf_eq {p : Nat → Prop} [DecidablePred p]
    (hattempts : ∀ i < k + r * r, (xs i).By w (floorFor (claimCounter start i) (some r)))
    (hsees : ∀ i < r * r, ∀ tier, (xs (k + i)).Sees tier)
    (hwrap : claimCounter start k + r * r ≤ 2 ^ 64)
    (hp : ∀ n, floorFor n (some r) = tier.asSmallint ↔ p n) :
    claimsOf xs k (r * r) tier = #{i ∈ range (r * r) | p (claimCounter start k + i)} := by
  rw [claimsOf]
  congr 1
  refine filter_congr (fun i hi => ?_)
  have hlt : i < r * r := mem_range.mp hi
  rw [claims_iff (hattempts (k + i) (by omega)) (floorFor_tier _ _) (hsees i hlt), hp,
    claimCounter_add (by omega)]

/-- **The shares of the tiers.** Take the claim attempts of a loop with a ratio `r`, none of
    which meets a store error, from any value of its counter on, and any `r * r` of them in a
    row.  If each sees an eligible Low job, one claims a Low job, also where the counter
    wraps.  If each sees eligible jobs of all tiers and the counter does not wrap, they claim
    1 Low, `r - 1` Normal and `r * r - r` High jobs.  The square is computed in 64 bits. -/
theorem anti_starvation (hr : 2 ≤ r) (hmax : r ≤ u32Max)
    (hattempts : ∀ i < k + r * r, (xs i).By w (floorFor (claimCounter start i) (some r))) :
    r * r < 2 ^ 64 ∧
    ((∀ i < r * r, (xs (k + i)).Sees .low) → ∃ i < r * r, (xs (k + i)).Claims .low) ∧
    ((∀ i < r * r, ∀ tier, (xs (k + i)).Sees tier) →
      claimCounter start k + r * r ≤ 2 ^ 64 →
        claimsOf xs k (r * r) .low = 1 ∧ claimsOf xs k (r * r) .normal = r - 1 ∧
          claimsOf xs k (r * r) .high = r * r - r) := by
  have hpos : 0 < r := by omega
  refine ⟨square_lt hmax, fun hsees => ?_, fun hsees hwrap => ⟨?_, ?_, ?_⟩⟩
  · obtain ⟨i, hi, hfloor⟩ := exists_floorLow hr start k
    have hby : (xs (k + i)).By w Priority.low.asSmallint := hfloor ▸ hattempts (k + i) (by omega)
    exact ⟨i, hi, Attempt.claims_floor hby (hsees i hi)⟩
  · rw [claimsOf_eq hattempts hsees hwrap (fun n => floorFor_low_iff hr)]
    simpa using Arith.card_multiples (Nat.mul_pos hpos hpos) (claimCounter start k) 1
  · rw [claimsOf_eq hattempts hsees hwrap (fun n => floorFor_normal_iff hr)]
    exact Arith.card_multiples_only hpos (claimCounter start k)
  · rw [claimsOf_eq hattempts hsees hwrap (fun n => floorFor_high_iff hr)]
    exact Arith.card_others hpos (claimCounter start k)

end Shares

/-! ### A window over one job of each tier -/

/-- The id of the job of this tier. -/
def tierId : Priority → Ulid
  | .high => 0
  | .normal => 1
  | .low => 2

/-- One job of each tier. -/
def sampleTiers : PostgresStore :=
  (empty.replay ([.high, .normal, .low].map (fun tier => (.ofNow 0, .enqueue { sampleJob with
    id := tierId tier, priority := tier.asSmallint, dedupKey := none })))).2

/-- An attempt at this floor that nobody else steps into. -/
def sampleAttempt (floor : Int) : Attempt :=
  let run := (sampleWorker.claimWithFallback ["feed"] floor).amid (.ofNow 1) 0 [] sampleTiers
  ⟨["feed"], sampleTiers, run.1, run.2.1.toOption.join, run.2.2⟩

/-- Four attempts, at the floors of the ratio 2. -/
def sampleAttempts (i : Nat) : Attempt := sampleAttempt (floorFor (claimCounter 0 i) (some 2))

/-- A sample attempt is one of the sample worker at this floor. -/
theorem sampleAttempt_by (tier : Priority) :
    (sampleAttempt tier.asSmallint).By sampleWorker tier.asSmallint := by
  let run := (sampleWorker.claimWithFallback ["feed"] tier.asSmallint).amid (.ofNow 1) 0 []
    sampleTiers
  have hresult : run.2.1 = .ok run.2.1.toOption.join := by
    cases tier <;> decide
  have hexec : Exec (sampleWorker.claimWithFallback ["feed"] tier.asSmallint).run sampleTiers run.1
      (.ret run.2.1) run.2.2 := exec_amid _ _ _ _ _
  rw [hresult] at hexec
  exact hexec

/-- A job of each tier is there at every attempt. -/
theorem sampleAttempt_sees (tier tier' : Priority) :
    (sampleAttempt tier.asSmallint).Sees tier' := by
  have hseen : ∀ m ∈ owns (sampleAttempt tier.asSmallint).turns,
      (m.before.view (tierId tier')).any (fun j =>
        j.row.eligible ["feed"] tier'.asSmallint m.label.1.now ∧
          j.row.priority = tier'.asSmallint) := by
    cases tier <;> cases tier' <;> decide
  intro m hm
  obtain ⟨j, hj, hfits⟩ := (Option.any_eq_true _ _).mp (hseen m hm)
  exact ⟨tierId tier', j, hj, of_decide_eq_true hfits⟩

/-- Four attempts with a ratio of two: one each for Low and Normal, and two for High. -/
theorem anti_starvation_sampleTiers :
    (∃ i < 2 * 2, (sampleAttempts (0 + i)).Claims .low) ∧
      claimsOf sampleAttempts 0 (2 * 2) .low = 1 ∧ claimsOf sampleAttempts 0 (2 * 2) .normal = 1 ∧
      claimsOf sampleAttempts 0 (2 * 2) .high = 2 := by
  have hby : ∀ i < 0 + 2 * 2, (sampleAttempts i).By sampleWorker
      (floorFor (claimCounter 0 i) (some 2)) := by
    intro i _
    obtain ⟨tier, htier⟩ := floorFor_tier (claimCounter 0 i) (some 2)
    rw [sampleAttempts, htier]
    exact sampleAttempt_by tier
  have hsees : ∀ i < 2 * 2, ∀ tier, (sampleAttempts (0 + i)).Sees tier := by
    intro i _ tier'
    obtain ⟨tier, htier⟩ := floorFor_tier (claimCounter 0 (0 + i)) (some 2)
    rw [sampleAttempts, htier]
    exact sampleAttempt_sees tier tier'
  obtain ⟨-, hlow, hshares⟩ := anti_starvation (le_refl 2) (by decide) hby
  exact ⟨hlow (fun i hi => hsees i hi .low), hshares hsees (by decide)⟩

end Venturi
