import Venturi.Postgres.Visible
import Venturi.Worker.Shares
import Venturi.Worker.Slots

namespace Venturi

open Collections Sql PostgresStore StoreProgram Trace

/-!
# The wait of a worker that found nothing (`worker/mod.rs`, `postgres/mod.rs`)

A worker alone with the database claims at one instant and measures its wait at a later one.

* `alone` — the outcome of a party's code when nobody else steps in.
* `claimWithFallback_none` — an attempt that claims nothing saw no job it may claim.
* `sleep_bound_iff` — when the sleep ends by the time every job it waits for is visible.
-/

/-! ### A worker on its own -/

section Alone

variable {α : Type} {env : Env} {s : PostgresStore}

/-- Run a party's code in one environment, with nobody else around. -/
def alone (p : Program Effect.Answer α) (env : Env) (s : PostgresStore) : α × PostgresStore :=
  (p.amid env (answer env 0) react [] s).2

@[simp] theorem alone_ret (a : α) : alone (.ret a) env s = (a, s) := rfl

theorem alone_call {c : Call} {k : Except Error c.Answer → Program Effect.Answer α} :
    alone (.op (.call c) k) env s = alone (k (s.exec env c).1) env (s.exec env c).2 := rfl

theorem alone_only {c : Call} : alone (call c).run env s = s.exec env c := rfl

end Alone

/-- `Worker::wait_duration`; the clock counts where a job is scheduled. -/
def Worker.measure (w : Worker) (kinds : List String) : Program Effect.Answer Duration := do
  let reply ← Program.perform (Effect.call (.nextVisibleAt kinds))
  let now ← Program.perform Effect.now
  return w.waitDuration now reply

/-! ### The claim -/

section Claim

variable {w : Worker} {env : Env} {s s' : PostgresStore} {kinds : List String} {floor : Int}

/-- A claim that finds nothing changes nothing, and no job could have been claimed. -/
theorem exec_claimNext_none {lease : Duration} {claimedBy : String}
    (h : s.exec env (.claimNext kinds floor lease claimedBy) = (.ok none, s')) :
    s' = s ∧ ∀ id j, s.view id = some j → ¬ j.row.eligible kinds floor env.now := by
  rcases commit_eq h with ⟨o, hok, hreply⟩ | ⟨_, -, herr, -⟩
  · obtain rfl := Except.ok.inj hreply
    rcases claimNext_cases hok with ⟨-, hs, hnone⟩ | ⟨_, -, -, -, -, hsome, -⟩
    · exact ⟨hs, hnone⟩
    · cases hsome
  · cases herr

/-- **An attempt that claims nothing** leaves the database as it was, and what is pending of
    its kinds is not yet visible: the attempt ends with a claim at no floor. -/
theorem claimWithFallback_none
    (h : alone (w.claimWithFallback kinds floor).run env s = (.ok none, s')) :
    s' = s ∧ ∀ t, s.Due kinds t → env.now < t := by
  rw [Worker.claimWithFallback, run_call_bind, alone_call] at h
  rcases hfirst : s.exec env (.claimNext kinds floor w.config.lease w.identity) with ⟨reply, s₁⟩
  rw [hfirst] at h
  rcases reply with e | claimed
  · cases h
  · cases claimed with
    | some job => cases h
    | none =>
      obtain ⟨rfl, hnone⟩ := exec_claimNext_none hfirst
      by_cases hfloor : floor = floorAll
      · subst hfloor
        have hs : s₁ = s' := (Prod.mk.inj h).2
        exact ⟨hs.symm, fun t => lt_of_ineligible hnone⟩
      · -- the attempt falls back to a claim without a floor
        have hsecond : s₁.exec env (.claimNext kinds floorAll w.config.lease w.identity) =
            (.ok none, s') := by
          have hrest : alone (if (none : Option JobRecord).isSome ∨ floor = floorAll then
              return none
              else call (.claimNext kinds floorAll w.config.lease w.identity)).run env s₁ =
                (.ok none, s') := h
          rwa [if_neg (by simp [hfloor]), alone_only] at hrest
        obtain ⟨rfl, hnone⟩ := exec_claimNext_none hsecond
        exact ⟨rfl, fun t => lt_of_ineligible hnone⟩

end Claim

/-! ### The sleep -/

/-- The least wait for a scheduled job, 5 ms. -/
def leastWait : Duration := 5 * 10 ^ 6

section Sleep

variable {w : Worker} {registry : Registry} {byKind : Tally String} {floor : Int}
  {env env' : Env} {s s' : PostgresStore}

/-- The instant the sleep ends, measured by the clock of the environment. -/
def Worker.sleepEnd (w : Worker) (kinds : List String) (env : Env) (s : PostgresStore) :
    DateTime :=
  env.now + (alone (w.measure kinds) env s).1

theorem sleepEnd_eq (kinds : List String) :
    w.sleepEnd kinds env s =
      env.now + w.waitDuration env.now (.ok (s.nextVisibleAt env.now kinds)) := rfl

/-- The claimable kinds are registered. -/
theorem PostgresStore.Due.registered {t : DateTime} (h : s.Due (claimableKinds registry byKind) t) :
    s.Due registry.kinds t := by
  obtain ⟨id, j, hj, hpending, hkind, rfl⟩ := h
  exact ⟨id, j, hj, hpending, List.mem_of_mem_filter hkind, rfl⟩

section Bounds

variable {kinds : List String} {t : DateTime}

/-- With a job scheduled for `t`, the sleep ends then, but not before 5 ms and not after
    `poll_max`. -/
theorem sleepEnd_some (h : s.nextVisibleAt env.now kinds = some t) (hfuture : env.now < t) :
    w.sleepEnd kinds env s =
      min (max t (env.now + leastWait)) (env.now + (w.config.pollMax : Int)) := by
  have harith (now t : Int) (least poll : Nat) (hlt : now < t) :
      now + ((min (max (t - now).toNat least) poll : Nat) : Int) =
        min (max t (now + least)) (now + poll) := by
    omega
  rw [sleepEnd_eq, h]
  exact harith env.now t leastWait w.config.pollMax hfuture

/-- Where no job is due the sleep lasts `poll_max`. -/
theorem sleepEnd_none (h : s.nextVisibleAt env.now kinds = none) :
    w.sleepEnd kinds env s = env.now + (w.config.pollMax : Int) := by
  rw [sleepEnd_eq, h]
  rfl

/-- **The wait of an idle worker is as long as it may be**: to the first job ahead. -/
theorem sleepEnd_le_of_due (hdue : s.Due kinds t) (hfuture : env.now < t) :
    w.sleepEnd kinds env s ≤ max t (env.now + leastWait) := by
  cases hnext : s.nextVisibleAt env.now kinds with
  | none => exact absurd (nextVisibleAt_eq_none hnext hdue) (not_le.mpr hfuture)
  | some t' =>
    obtain ⟨-, hfuture', hleast⟩ := nextVisibleAt_eq_some hnext
    rw [sleepEnd_some hnext hfuture']
    exact (min_le_left _ _).trans (max_le_max_right _ (hleast t hdue hfuture))

/-- No sleep lasts longer. -/
theorem sleepEnd_le_pollMax : w.sleepEnd kinds env s ≤ env.now + (w.config.pollMax : Int) := by
  cases hnext : s.nextVisibleAt env.now kinds with
  | none => exact le_of_eq (sleepEnd_none hnext)
  | some t =>
    rw [sleepEnd_some hnext (nextVisibleAt_eq_some hnext).2.1]
    exact min_le_right _ _

/-- When no job gets visible within 5 ms and `poll_max` is longer, so is the sleep. -/
theorem lt_sleepEnd (hpoll : leastWait < w.config.pollMax)
    (hnone : ∀ t, s.Due kinds t → env.now < t → ¬ t ≤ env.now + leastWait) :
    env.now + (leastWait : Int) < w.sleepEnd kinds env s := by
  have hlt : env.now + (leastWait : Int) < env.now + (w.config.pollMax : Int) :=
    Int.add_lt_add_left (Int.ofNat_lt.mpr hpoll) _
  cases hnext : s.nextVisibleAt env.now kinds with
  | none => exact hlt.trans_le (le_of_eq (sleepEnd_none hnext).symm)
  | some t =>
    obtain ⟨hdue, hfuture, -⟩ := nextVisibleAt_eq_some hnext
    rw [sleepEnd_some hnext hfuture]
    exact lt_min ((not_le.mp (hnone t hdue hfuture)).trans_le (le_max_left _ _)) hlt

end Bounds

/-- **When the sleep is not too long.** A worker claims nothing at one instant, and measures
    its wait at a later one of the same clock; nobody else acts.  Its sleep ends within 5 ms of
    every job of a claimable kind, of its becoming visible or of the measurement, exactly if no
    such job becomes visible between the two, or the wait is 5 ms at most anyway: by `poll_max`,
    or for a job that is due that soon. -/
theorem sleep_bound_iff
    (hclaim : alone (w.claimWithFallback (claimableKinds registry byKind) floor).run env s =
      (.ok none, s')) :
    (∀ t, s.Due (claimableKinds registry byKind) t →
      w.sleepEnd registry.kinds env' s' ≤ max t env'.now + leastWait) ↔
    (∀ t, s.Due (claimableKinds registry byKind) t → ¬ (env.now < t ∧ t ≤ env'.now)) ∨
      w.config.pollMax ≤ leastWait ∨
      ∃ t, s.Due registry.kinds t ∧ env'.now < t ∧ t ≤ env'.now + leastWait := by
  obtain ⟨rfl, hahead⟩ := claimWithFallback_none hclaim
  constructor
  · intro hbound
    by_contra! hneither
    obtain ⟨⟨t, hdue, -, hmissed⟩, hpoll, hnone⟩ := hneither
    have hlate : env'.now + (leastWait : Int) < w.sleepEnd registry.kinds env' s' :=
      lt_sleepEnd hpoll (fun t hdue hfuture => not_le.mpr (hnone t hdue hfuture))
    -- the job became visible before the lookup, which looks ahead only
    have hend := hbound t hdue
    rw [max_eq_right hmissed] at hend
    exact absurd hend (not_le.mpr hlate)
  · intro hcases t hdue
    have hshort (h : w.sleepEnd registry.kinds env' s' ≤ env'.now + leastWait) :
        w.sleepEnd registry.kinds env' s' ≤ max t env'.now + leastWait :=
      h.trans (Int.add_le_add_right (le_max_right _ _) _)
    rcases hcases with hopen | hpoll | ⟨t', hdue', hfuture, hsoon⟩
    · have hfuture : env'.now < t := not_le.mp (fun h => hopen t hdue ⟨hahead t hdue, h⟩)
      have hend := sleepEnd_le_of_due (w := w) hdue.registered hfuture
      refine hend.trans (max_le ?_ (Int.add_le_add_right (le_max_right _ _) _))
      exact (le_max_left t env'.now).trans (Int.le_add_of_nonneg_right (Int.natCast_nonneg _))
    · refine hshort (sleepEnd_le_pollMax.trans ?_)
      exact Int.add_le_add_left (Int.ofNat_le.mpr hpoll) _
    · exact hshort ((sleepEnd_le_of_due hdue' hfuture).trans (max_le hsoon (le_refl _)))

end Sleep

/-! ### A job that becomes visible before the lookup -/

/-- The sample job, scheduled for 100. -/
def sampleLater : PostgresStore :=
  (empty.replay [(.ofNow 0, .enqueue { sampleJob with visibleAt := 100 })]).2

/-- A claim before the sample job is due finds nothing. -/
theorem sampleLater_claim :
    alone (sampleWorker.claimWithFallback (claimableKinds sampleRegistry ∅) floorAll).run
      (.ofNow 0) sampleLater = (.ok none, sampleLater) := rfl

/-- It is the next one to come due. -/
theorem sampleLater_due :
    sampleLater.Due (claimableKinds sampleRegistry ∅) 100 := due_iff.mpr (by decide)

/-- Nothing becomes visible between a claim at 0 and a lookup at 50. -/
theorem sleep_bound_iff_sampleLater :
    sampleWorker.sleepEnd sampleRegistry.kinds (.ofNow 50) sampleLater ≤
      max 100 (50 : Int) + leastWait := by
  have hopen : ∀ t, sampleLater.Due (claimableKinds sampleRegistry ∅) t →
      ¬ ((Env.ofNow 0).now < t ∧ t ≤ (Env.ofNow 50).now) := by
    rintro t hdue ⟨-, hmissed⟩
    obtain ⟨r, hr, -, -, rfl⟩ := due_iff.mp hdue
    have hlater : ∀ r ∈ sampleLater.jobs.rows, ¬ r.visibleAt ≤ 50 := by decide
    exact hlater r hr hmissed
  exact (sleep_bound_iff sampleLater_claim).mpr (.inl hopen) 100 sampleLater_due

/-- A lookup at 200 misses the job, and the worker sleeps for `poll_max`. -/
theorem overslept :
    ¬ ∀ (w : Worker) (registry : Registry) (byKind : Tally String) (floor : Int) (env env' : Env)
      (s s' : PostgresStore), env.now ≤ env'.now →
      alone (w.claimWithFallback (claimableKinds registry byKind) floor).run env s =
        (.ok none, s') →
      ∀ t, s.Due (claimableKinds registry byKind) t →
        w.sleepEnd registry.kinds env' s' ≤ max t env'.now + leastWait := by
  intro h
  have hend := h sampleWorker sampleRegistry ∅ floorAll (.ofNow 0) (.ofNow 200) sampleLater
    sampleLater (by decide) sampleLater_claim 100 sampleLater_due
  have hlate : ¬ sampleWorker.sleepEnd sampleRegistry.kinds (.ofNow 200) sampleLater ≤
      max 100 (200 : Int) + leastWait := by decide
  exact hlate hend

end Venturi
