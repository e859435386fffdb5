import Venturi.Job.Rows

namespace Venturi

open Sql PostgresStore

/-!
# Lease mutual exclusion

From the step at which `claim_next` hands out an epoch, its claimant has the row to itself
until the lease runs out.

* `leaseExpiry` — the expiry of a claim as its history wrote it: the claim itself, then
  every `extend_lease` that applied at the same epoch.
* `Held` — the invariant: until the claimant settles, the row is as it was handed out up
  to its expiry, or a recovery took it after the expiry and the epoch is over.
* `lease_exclusive` — hence a step within the lease changes nothing but the expiry, and a
  settlement by the claimant within the lease applies.
-/

/-! ### The expiry of a claim -/

/-- What an event does to the expiry of a claim at epoch `runNo`.  A new row under the id
    ends it. -/
def Mark.lease (runNo : Nat) (expiry : Option DateTime) : Mark → Option DateTime
  | .opened => none
  | .extended n expires => if n = runNo then expiry.map (fun _ => expires) else expiry
  | _ => expiry

/-- The expiry of the claim of `id` at epoch `runNo`, first written as `start`, after `tr`. -/
def leaseExpiry (id : Ulid) (runNo : Nat) (start : DateTime) (tr : History) : Option DateTime :=
  tr.foldl (fun expiry m => (m.label.mark id).lease runNo expiry) (some start)

/-- A settlement by `claimedBy` that applied at this epoch. -/
def Event.settledBy (id : Ulid) (claimedBy : String) (runNo : Nat) (e : Event) : Prop :=
  (∃ settlement entry, e.call = .settle id claimedBy runNo settlement entry) ∧
    e.mark id = .closed runNo

/-- The database clock does not run backwards. -/
def MonotoneClock (tr : History) : Prop :=
  tr.Pairwise (fun m m' => m.label.env.now ≤ m'.label.env.now)

theorem leaseExpiry_snoc {id : Ulid} {runNo : Nat} {start : DateTime} {tr : History}
    {m : Trace.Move PostgresStore Event} :
    leaseExpiry id runNo start (tr ++ [m]) =
      (m.label.mark id).lease runNo (leaseExpiry id runNo start tr) := by
  simp [leaseExpiry, List.foldl_append]

/-- An expiry was there before the event. -/
theorem Mark.of_lease {mark : Mark} {runNo : Nat} {expiry : Option DateTime} {expires : DateTime}
    (h : mark.lease runNo expiry = some expires) : ∃ expiry₀, expiry = some expiry₀ := by
  cases expiry with
  | some expiry₀ => exact ⟨expiry₀, rfl⟩
  | none =>
    cases mark <;> simp only [lease, reduceCtorEq, Option.map_none, ite_self] at h

/-! ### A held job -/

/-- A job as it was handed out, up to its expiry. -/
def Held (r : JobRecord) (log : List JournalRecord) (expiry : DateTime) (job : Option Job) : Prop :=
  job = some ⟨r.extend expiry, log⟩

section Steps

variable {r : JobRecord} {log : List JournalRecord} {expiry now : DateTime} {c : Call} {mark : Mark}
  {job job' : Option Job} {claimedBy : String}

/-- **A step of a held job.** It is the settlement by the claimant, or it leaves the job
    held, with the expiry it wrote, or it is a recovery after the expiry. -/
theorem Held.step (hclaimed : r.status = .claimed) (hclaimant : r.claimedBy = some claimedBy)
    (hfinished : r.finishedAt = none) (hjob : Held r log expiry job)
    (h : Job.Step now c mark job job') :
    ((∃ settlement entry, c = .settle r.id claimedBy r.runCount settlement entry) ∧
        mark = .closed r.runCount) ∨
      (∃ expiry', mark.lease r.runCount (some expiry) = some expiry' ∧ Held r log expiry' job' ∧
        ∀ n, mark ≠ .handed n) ∨
      (expiry < now ∧ mark.lease r.runCount (some expiry) = some expiry ∧
        Past r.runCount job') := by
  unfold Held at hjob
  cases h with
  | enqueue => cases hjob
  | claim heligible =>
    cases hjob
    have hpending := (JobRecord.eligible_iff.mp heligible).1
    simp [JobRecord.extend, hclaimed] at hpending
  | settle howned =>
    -- an owner at this epoch is the claimant
    cases hjob
    obtain ⟨-, hby, -, -⟩ := JobRecord.owned_iff.mp howned
    obtain rfl := Option.some.inj (hclaimant.symm.trans hby)
    exact .inl ⟨⟨_, _, rfl⟩, rfl⟩
  | recover hstale =>
    cases hjob
    obtain ⟨-, expires, hexpires, hlt⟩ := JobRecord.stale_iff.mp hstale
    obtain rfl := Option.some.inj hexpires
    refine .inr (.inr ⟨hlt, rfl, ?_⟩)
    rintro _ ⟨⟩
    exact ⟨le_refl _, by simp [JobRecord.repend]⟩
  | extendLease howned =>
    cases hjob
    exact .inr (.inl ⟨_, if_pos rfl, rfl, by simp⟩)
  | cleanup hmatches =>
    -- a claimed row has no finish time
    cases hjob
    simp [CleanupCriteria.matches, JobRecord.extend, hfinished] at hmatches
  | merge hpending =>
    cases hjob
    simp [JobRecord.extend, hclaimed] at hpending

/-- The expiry of an epoch that is over is never written again. -/
theorem Past.lease {n : Nat} (hjob : Past n job) (h : Job.Step now c mark job job')
    (hmark : mark ≠ .opened) : mark.lease n (some expiry) = some expiry := by
  cases h with
  | enqueue => exact absurd rfl hmark
  | extendLease howned =>
    -- an extension applies to the epoch of a claimed row only
    obtain ⟨-, hnot⟩ := hjob _ rfl
    obtain ⟨-, -, -, hclaimed⟩ := JobRecord.owned_iff.mp howned
    exact if_neg (fun hrun => hnot ⟨hclaimed, hrun⟩)
  | _ => rfl

end Steps

/-! ### The invariant over a run -/

variable {tr₁ tr₂ tr₃ : History} {m m' : Trace.Move PostgresStore Event} {s : PostgresStore}
  {env : Env} {kinds : List String} {floor : Int} {lease : Duration} {claimedBy : String}
  {r : JobRecord}

/-- The row a `claim_next` handed out: claimed by its caller until the expiry it wrote. -/
theorem claimed_row (h : PostgresStore.Run (tr₁ ++ m :: tr₂) s)
    (hclaim : m.label = ⟨env, .claimNext kinds floor lease claimedBy, .ok (some r)⟩) :
    Held r (m.after.journalOf r.id) (env.now + lease) (m.after.view r.id) ∧ r.status = .claimed ∧
      r.claimedBy = some claimedBy ∧ r.finishedAt = none ∧ r.runCount ≤ i32Max := by
  obtain ⟨-, hstep, hafter⟩ := h.split
  rw [hclaim] at hstep
  simp only [Step, exec] at hstep
  rcases commit_eq hstep with ⟨o, hok, hreply⟩ | ⟨_, -, hreply, -⟩
  swap
  · cases hreply
  obtain rfl := Except.ok.inj hreply
  rcases claimNext_cases hok with ⟨hnone, -⟩ | ⟨job, -, -, hmax, -, hsome, hview⟩
  · cases hnone
  obtain rfl := Option.some.inj hsome
  have hjob : m.after.view job.row.id =
      some ⟨job.row.claim claimedBy (env.now + lease), job.log⟩ := by
    rw [hview, Function.update_self]
  have hlog : job.log = m.after.journalOf job.row.id := (view_eq_some.mp hjob).2
  have hfinished : job.row.finishedAt = none := by
    have hcoherent := (coherent_of_run hafter _ _ hjob).finished
    rw [← Option.not_isSome_iff_eq_none]
    intro hsome
    exact JobRecord.not_terminal_of_claimed rfl (hcoherent.mp hsome)
  exact ⟨hlog ▸ hjob, rfl, rfl, hfinished, hmax⟩

/-- **The lease invariant.** Unless its claimant has settled it, a claimed job is held up to
    the expiry its claim wrote last, or its epoch ended after the clock had passed that expiry. -/
theorem held_or_past (h : PostgresStore.Run (tr₁ ++ m :: tr₂) s)
    (hclaim : m.label = ⟨env, .claimNext kinds floor lease claimedBy, .ok (some r)⟩) :
    (∃ m' ∈ tr₂, m'.label.settledBy r.id claimedBy r.runCount) ∨
      ∀ expiry, leaseExpiry r.id r.runCount (env.now + lease) tr₂ = some expiry →
        Held r (m.after.journalOf r.id) expiry (s.view r.id) ∨
          (∃ m' ∈ tr₂, expiry < m'.label.env.now) ∧ Past r.runCount (s.view r.id) := by
  obtain ⟨hheld, hclaimed, hclaimant, hfinished, -⟩ := claimed_row h hclaim
  refine Trace.Run.since (J := fun tr s =>
    (∃ m' ∈ tr, m'.label.settledBy r.id claimedBy r.runCount) ∨
      ∀ expiry, leaseExpiry r.id r.runCount (env.now + lease) tr = some expiry →
        Held r (m.after.journalOf r.id) expiry (s.view r.id) ∨
          (∃ m' ∈ tr, expiry < m'.label.env.now) ∧ Past r.runCount (s.view r.id)) ?_ ?_ h
  · -- at the claim itself
    intro _ _
    refine .inr (fun expiry hexpiry => .inl ?_)
    obtain rfl := Option.some.inj hexpiry
    exact hheld
  · rintro tr s e s' - (⟨m', hm', hset⟩ | hinv) hs
    · exact .inl ⟨m', List.mem_append_left _ hm', hset⟩
    -- from here on the claimant has not settled it
    by_cases hset : e.settledBy r.id claimedBy r.runCount
    · exact .inl ⟨⟨s, e, s'⟩, by simp, hset⟩
    refine .inr (fun expiry' hexpiry' => ?_)
    rw [leaseExpiry_snoc] at hexpiry'
    obtain ⟨expiry, hexpiry⟩ := Mark.of_lease hexpiry'
    rw [hexpiry] at hexpiry'
    have hold := hinv expiry hexpiry
    -- a step of another job changes neither the row nor the expiry
    rcases exec_view hs r.id with ⟨hview, hquiet⟩ | hjob
    · have hmark : Event.mark r.id e = .quiet := hquiet
      rw [hmark] at hexpiry'
      obtain rfl := Option.some.inj hexpiry'
      rw [hview]
      exact hold.imp_right (fun ⟨⟨m', hm', hlt⟩, hpast⟩ =>
        ⟨⟨m', List.mem_append_left _ hm', hlt⟩, hpast⟩)
    · rcases hold with hheld | ⟨⟨m', hm', hlt⟩, hpast⟩
      · rcases hheld.step hclaimed hclaimant hfinished hjob with
          hsettle | ⟨expires, hlease, hheld', -⟩ | ⟨hlt, hlease, hpast⟩
        · exact absurd hsettle hset
        · obtain rfl := Option.some.inj (hlease.symm.trans hexpiry')
          exact .inl hheld'
        · obtain rfl := Option.some.inj (hlease.symm.trans hexpiry')
          exact .inr ⟨⟨⟨s, e, s'⟩, by simp, hlt⟩, hpast⟩
      · by_cases hopened : Event.mark r.id e = .opened
        · -- a new row under the id has no expiry of this claim
          rw [hopened] at hexpiry'
          cases hexpiry'
        · have hlease : (Event.mark r.id e).lease r.runCount (some expiry) = some expiry :=
            hpast.lease hjob hopened
          obtain rfl := Option.some.inj (hlease.symm.trans hexpiry')
          exact .inr ⟨⟨m', List.mem_append_left _ hm', hlt⟩, hpast.step hjob hopened⟩

/-- Within the lease of an unsettled claim the job is held. -/
theorem held_of_within {expiry : DateTime}
    (h : PostgresStore.Run (tr₁ ++ m :: (tr₂ ++ m' :: tr₃)) s)
    (hclock : MonotoneClock (tr₁ ++ m :: (tr₂ ++ m' :: tr₃)))
    (hclaim : m.label = ⟨env, .claimNext kinds floor lease claimedBy, .ok (some r)⟩)
    (hexpiry : leaseExpiry r.id r.runCount (env.now + lease) tr₂ = some expiry)
    (hnow : m'.label.env.now ≤ expiry)
    (hopen : ∀ m'' ∈ tr₂, ¬ m''.label.settledBy r.id claimedBy r.runCount) :
    PostgresStore.Run (tr₁ ++ m :: tr₂) m'.before ∧ m'.before.Step m'.label m'.after ∧
      Held r (m.after.journalOf r.id) expiry (m'.before.view r.id) := by
  have hsplit : tr₁ ++ m :: (tr₂ ++ m' :: tr₃) = (tr₁ ++ m :: tr₂) ++ m' :: tr₃ := by simp
  rw [hsplit] at h hclock
  obtain ⟨hrun, hstep, -⟩ := h.split
  refine ⟨hrun, hstep, ?_⟩
  rcases held_or_past hrun hclaim with ⟨m'', hm'', hset⟩ | hinv
  · exact absurd hset (hopen m'' hm'')
  rcases hinv expiry hexpiry with hheld | ⟨⟨m'', hm'', hlt⟩, -⟩
  · exact hheld
  · -- the clock was past the expiry before `m'`
    have hle : m''.label.env.now ≤ m'.label.env.now :=
      (List.pairwise_append.mp hclock).2.2 m'' (by simp [hm'']) m' (by simp)
    exact absurd (hlt.trans_le (hle.trans hnow)) (lt_irrefl _)

/-- **Lease mutual exclusion.** Take a run under a clock that does not go back, a claim `m`
    in it, and a later step `m'` not after the expiry this claim wrote last, with no
    applied settlement by the claimant in between.  Just before `m'` the row is as it was
    handed out, up to that expiry, and so is its journal.  Unless `m'` is a settlement by
    the claimant, it leaves both so, up to an expiry it writes itself; it is no claim and
    no dedup candidate of the job; and if it is a settlement by the claimant, it
    returns `true`. -/
theorem lease_exclusive {expiry : DateTime}
    (h : PostgresStore.Run (tr₁ ++ m :: (tr₂ ++ m' :: tr₃)) s)
    (hclock : MonotoneClock (tr₁ ++ m :: (tr₂ ++ m' :: tr₃)))
    (hclaim : m.label = ⟨env, .claimNext kinds floor lease claimedBy, .ok (some r)⟩)
    (hexpiry : leaseExpiry r.id r.runCount (env.now + lease) tr₂ = some expiry)
    (hnow : m'.label.env.now ≤ expiry)
    (hopen : ∀ m'' ∈ tr₂, ¬ m''.label.settledBy r.id claimedBy r.runCount) :
    Held r (m.after.journalOf r.id) expiry (m'.before.view r.id) ∧
    ((∀ settlement entry, m'.label.call ≠ .settle r.id claimedBy r.runCount settlement entry) →
      ∃ expiry', leaseExpiry r.id r.runCount (env.now + lease) (tr₂ ++ [m']) = some expiry' ∧
        Held r (m.after.journalOf r.id) expiry' (m'.after.view r.id)) ∧
    (∀ n, m'.label.mark r.id ≠ .handed n) ∧
    (∀ env' kind key c, m'.label = ⟨env', .dedupCandidate kind key, .ok (some c)⟩ → c.id ≠ r.id) ∧
    (∀ env' settlement entry reply,
      m'.label = ⟨env', .settle r.id claimedBy r.runCount settlement entry, reply⟩ →
        entry.runNo ≤ i32Max → reply = .ok true) := by
  obtain ⟨hrun, hstep, hheld⟩ := held_of_within h hclock hclaim hexpiry hnow hopen
  obtain ⟨-, hclaimed, hclaimant, hfinished, hmax⟩ := claimed_row hrun hclaim
  -- a recovery needs a clock past the expiry
  have hcases : ((∃ settlement entry,
        m'.label.call = .settle r.id claimedBy r.runCount settlement entry) ∧
          m'.label.mark r.id = .closed r.runCount) ∨
      (∃ expiry', (m'.label.mark r.id).lease r.runCount (some expiry) = some expiry' ∧
        Held r (m.after.journalOf r.id) expiry' (m'.after.view r.id) ∧
        ∀ n, m'.label.mark r.id ≠ .handed n) := by
    rcases exec_view hstep r.id with ⟨hview, hquiet⟩ | hjob
    · have hmark : m'.label.mark r.id = .quiet := hquiet
      rw [hmark, hview]
      exact .inr ⟨expiry, rfl, hheld, by simp⟩
    · rcases hheld.step hclaimed hclaimant hfinished hjob with hsettle | hkept | ⟨hlt, -⟩
      · exact .inl hsettle
      · exact .inr hkept
      · exact absurd (hlt.trans_le hnow) (lt_irrefl _)
  refine ⟨hheld, fun hcall => ?_, fun n => ?_, ?_, ?_⟩
  · rcases hcases with ⟨⟨settlement, entry, hsettle⟩, -⟩ | ⟨expiry', hlease, hkept, -⟩
    · exact absurd hsettle (hcall settlement entry)
    · exact ⟨expiry', by rw [leaseExpiry_snoc, hexpiry, hlease], hkept⟩
  · rcases hcases with ⟨-, hclosed⟩ | ⟨-, -, -, hhanded⟩
    · simp [hclosed]
    · exact hhanded n
  · rintro env' kind key c hlabel hid
    rw [hlabel] at hstep
    have hcand : m'.before.dedupCandidate env'.rank kind key = some c :=
      Except.ok.inj (Prod.mk.inj hstep).1
    obtain ⟨hview, hpending, -⟩ := dedupCandidate_cases hcand
    rw [hid, hheld] at hview
    have hrow : r.extend expiry = c := congrArg Job.row (Option.some.inj hview)
    have hst := (JobRecord.dedupCandidate_iff.mp hpending).2.2
    rw [← hrow] at hst
    simp [JobRecord.extend, hclaimed] at hst
  · rintro env' settlement entry reply hlabel hentry
    rw [hlabel] at hstep
    have howned : (r.extend expiry).owned r.id claimedBy r.runCount :=
      JobRecord.owned_iff.mpr ⟨rfl, hclaimant, rfl, hclaimed⟩
    obtain ⟨s', hok⟩ := settle_hit settlement hmax hentry hheld howned
    simp only [Step, exec, hok] at hstep
    exact (Prod.mk.inj hstep).1.symm

/-- The sample job is claimed at 0 until 10, … -/
def leaseClaim : Trace.Move PostgresStore Event :=
  (empty.next (.ofNow 0) (.enqueue sampleJob)).after.next (.ofNow 0) (.claimNext ["feed"] 0 10 "w")

/-- … extended at 5 until 15, … -/
def leaseExtend : Trace.Move PostgresStore Event :=
  leaseClaim.after.next (.ofNow 5) (.extendLease 0 "w" 1 10)

/-- … and settled at 15. -/
def leaseSettle : Trace.Move PostgresStore Event :=
  leaseExtend.after.next (.ofNow 15) (.settle 0 "w" 1 (.complete 15) (sampleEntry 1 .completed))

/-- Until its lease is over the sample claim is held. -/
theorem lease_exclusive_sample :
    Held (sampleJob.record.claim "w" 10) (leaseClaim.after.journalOf 0) 15
      (leaseSettle.before.view 0) := by
  have hrun : PostgresStore.Run ([empty.next (.ofNow 0) (.enqueue sampleJob)] ++ leaseClaim ::
      ([leaseExtend] ++ leaseSettle :: [])) leaseSettle.after :=
    .snoc (.snoc (.snoc (.snoc .start rfl) rfl) rfl) rfl
  have hclock : MonotoneClock ([empty.next (.ofNow 0) (.enqueue sampleJob)] ++ leaseClaim ::
      ([leaseExtend] ++ leaseSettle :: [])) := by
    simp [MonotoneClock, next, leaseClaim, leaseExtend, leaseSettle, Env.ofNow]
  have hclaim : leaseClaim.label = ⟨.ofNow 0, .claimNext ["feed"] 0 10 "w",
      .ok (some (sampleJob.record.claim "w" 10))⟩ := rfl
  have hopen : ∀ m ∈ [leaseExtend], ¬ m.label.settledBy 0 "w" 1 := by
    rintro m hm ⟨⟨_, _, hcall⟩, -⟩
    rw [List.mem_singleton.mp hm] at hcall
    cases hcall
  exact (lease_exclusive hrun hclock hclaim rfl (by decide) hopen).1

end Venturi
