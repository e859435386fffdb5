import Mathlib.Data.List.Nodup
import Venturi.Postgres.Runs

namespace Venturi

open PostgresStore

/-!
# Claim-epoch ownership

The pair of a job id and a run number is a claim epoch.  `claim_next` opens it, and the
settlement or recovery that returns `true` closes it.

* `Epochs` — the invariant of one job: the run numbers handed out count up to the row's
  `run_count`, only those are closed, none of them twice, and the epoch of a claimed row is
  open.
* `epochs_owned` — hence every epoch is handed out and closed at most once, and a closed
  epoch stays closed: a call that presents it finds nothing to change.
-/

/-! ### The ledger of one job -/

/-- The run number a step hands out. -/
def Mark.handed? : Mark → Option Nat
  | .handed n => some n
  | _ => none

/-- The run number a step closes. -/
def Mark.closed? : Mark → Option Nat
  | .closed n => some n
  | _ => none

/-- The run numbers `claim_next` handed out for the job `id`, in order. -/
def handedOut (id : Ulid) (tr : History) : List Nat :=
  tr.filterMap (fun m => (m.label.mark id).handed?)

/-- The run numbers of the job `id` that a `settle` or `recover` closed, in order. -/
def closings (id : Ulid) (tr : History) : List Nat :=
  tr.filterMap (fun m => (m.label.mark id).closed?)

/-- The claim epoch a `settle`, `recover` or `extend_lease` presents. -/
def Call.presents : Call → Option (Ulid × Nat)
  | .settle id _ runNo _ _ => some (id, runNo)
  | .recover id _ _ runNo _ => some (id, runNo)
  | .extendLease id _ runNo _ => some (id, runNo)
  | _ => none

/-- A `settle`, `recover` or `extend_lease` that returned `false`. -/
def Event.refused : Event → Prop
  | ⟨_, .settle .., r⟩ => r = .ok false
  | ⟨_, .recover .., r⟩ => r = .ok false
  | ⟨_, .extendLease .., r⟩ => r = .ok false
  | _ => False

/-- A `settle` or `recover` that failed on the run number of its journal entry. -/
def Event.outOfRange : Event → Prop
  | ⟨_, .settle _ _ _ _ entry, r⟩ =>
      i32Max < entry.runNo ∧ r = .error (.runNumberOutOfRange entry.runNo)
  | ⟨_, .recover _ _ _ _ entry, r⟩ =>
      i32Max < entry.runNo ∧ r = .error (.runNumberOutOfRange entry.runNo)
  | _ => False

section Ledger

variable {id : Ulid} {tr : History} {m : Trace.Move PostgresStore Event} {n : Nat}

theorem handedOut_snoc :
    handedOut id (tr ++ [m]) = handedOut id tr ++ (m.label.mark id).handed?.toList := by
  rw [handedOut, List.filterMap_append]
  cases h : (m.label.mark id).handed? <;> simp [handedOut, h]

theorem closings_snoc :
    closings id (tr ++ [m]) = closings id tr ++ (m.label.mark id).closed?.toList := by
  rw [closings, List.filterMap_append]
  cases h : (m.label.mark id).closed? <;> simp [closings, h]

end Ledger

/-! ### The invariant -/

/-- **The claim epochs of one job.** -/
structure Epochs (id : Ulid) (tr : History) (job : Option Job) : Prop where
  /-- Before its `enqueue` there is no job and no epoch. -/
  unborn : id ∉ enqueued tr → job = none ∧ handedOut id tr = [] ∧ closings id tr = []
  /-- The run numbers handed out are 1, 2, …, and the row counts them. -/
  counted : ∃ k, k ≤ i32Max ∧ handedOut id tr = List.range' 1 k ∧
    ∀ j, job = some j → j.row.runCount = k
  /-- Only epochs that were handed out are closed. -/
  handed : ∀ n ∈ closings id tr, n ∈ handedOut id tr
  /-- No epoch is closed twice. -/
  once : (closings id tr).Nodup
  /-- A claimed row is in an epoch that is handed out and still open. -/
  opened : ∀ j, job = some j → j.row.status = .claimed →
    j.row.runCount ∈ handedOut id tr ∧ j.row.runCount ∉ closings id tr

namespace Epochs

variable {id : Ulid} {tr : History} {job job' : Option Job} {m : Trace.Move PostgresStore Event}

theorem init (id : Ulid) : Epochs id [] none where
  unborn _ := ⟨rfl, rfl, rfl⟩
  counted := ⟨0, Nat.zero_le _, rfl, by simp⟩
  handed := by simp [closings]
  once := List.nodup_nil
  opened := by simp

/-- A step that hands out and closes nothing, and leaves the run count and claimedness of
    the job as they were. -/
theorem quiet (h : Epochs id tr job) (hhanded : (m.label.mark id).handed? = none)
    (hclosed : (m.label.mark id).closed? = none)
    (hnone : job = none → job' = none)
    (hkeep : ∀ j', job' = some j' → ∃ j, job = some j ∧ j'.row.runCount = j.row.runCount ∧
      (j'.row.status = .claimed → j.row.status = .claimed)) :
    Epochs id (tr ++ [m]) job' := by
  have hh : handedOut id (tr ++ [m]) = handedOut id tr := by
    rw [handedOut_snoc, hhanded]
    exact List.append_nil _
  have hc : closings id (tr ++ [m]) = closings id tr := by
    rw [closings_snoc, hclosed]
    exact List.append_nil _
  obtain ⟨k, hk, hrange, hcount⟩ := h.counted
  refine ⟨fun hid => ?_, ⟨k, hk, hh ▸ hrange, fun j' hj' => ?_⟩, hh ▸ hc ▸ h.handed, hc ▸ h.once,
    fun j' hj' hclaimed => ?_⟩
  · obtain ⟨hjob, hhanded, hclosed⟩ := h.unborn (not_mem_enqueued hid)
    exact ⟨hnone hjob, hh ▸ hhanded, hc ▸ hclosed⟩
  · obtain ⟨j, hj, hrun, -⟩ := hkeep j' hj'
    exact hrun.trans (hcount j hj)
  · obtain ⟨j, hj, hrun, hst⟩ := hkeep j' hj'
    rw [hh, hc, hrun]
    exact h.opened j hj (hst hclaimed)

/-- A claim opens the next epoch. -/
theorem claim (h : Epochs id tr job) {j j' : Job} (hj : job = some j)
    (hmark : m.label.mark id = .handed (j.row.runCount + 1)) (hmax : j.row.runCount < i32Max)
    (hrun : j'.row.runCount = j.row.runCount + 1) : Epochs id (tr ++ [m]) (some j') := by
  obtain ⟨k, hk, hrange, hcount⟩ := h.counted
  obtain rfl : j.row.runCount = k := hcount j hj
  have hh : handedOut id (tr ++ [m]) = List.range' 1 (j.row.runCount + 1) := by
    rw [handedOut_snoc, hmark, hrange, List.range'_concat, Nat.one_mul, Nat.add_comm 1]
    rfl
  have hc : closings id (tr ++ [m]) = closings id tr := by
    rw [closings_snoc, hmark]
    exact List.append_nil _
  -- only epochs handed out are closed, and this one is new
  have hnew : j.row.runCount + 1 ∉ closings id tr := by
    intro hmem
    have hold := h.handed _ hmem
    rw [hrange, List.mem_range'_1] at hold
    omega
  refine ⟨fun hid => ?_, ⟨j.row.runCount + 1, hmax, hh, ?_⟩, fun n hn => ?_, hc ▸ h.once, ?_⟩
  · simp [(h.unborn (not_mem_enqueued hid)).1] at hj
  · rintro _ ⟨⟩
    exact hrun
  · rw [hc] at hn
    have hold := h.handed n hn
    rw [hrange, List.mem_range'_1] at hold
    rw [hh, List.mem_range'_1]
    omega
  · rintro _ ⟨⟩ -
    rw [hrun, hh, hc, List.mem_range'_1]
    exact ⟨by omega, hnew⟩

/-- Closing the epoch of a claimed row leaves the row unclaimed. -/
theorem close (h : Epochs id tr job) {j j' : Job} (hj : job = some j)
    (hclaimed : j.row.status = .claimed) (hmark : m.label.mark id = .closed j.row.runCount)
    (hrun : j'.row.runCount = j.row.runCount) (hst : j'.row.status ≠ .claimed) :
    Epochs id (tr ++ [m]) (some j') := by
  obtain ⟨hhanded, hopen⟩ := h.opened j hj hclaimed
  obtain ⟨k, hk, hrange, hcount⟩ := h.counted
  have hh : handedOut id (tr ++ [m]) = handedOut id tr := by
    rw [handedOut_snoc, hmark]
    exact List.append_nil _
  have hc : closings id (tr ++ [m]) = closings id tr ++ [j.row.runCount] := by
    rw [closings_snoc, hmark]
    rfl
  refine ⟨fun hid => ?_, ⟨k, hk, hh ▸ hrange, ?_⟩, fun n hn => ?_, ?_, ?_⟩
  · simp [(h.unborn (not_mem_enqueued hid)).1] at hj
  · rintro _ ⟨⟩
    exact hrun.trans (hcount j hj)
  · rw [hh]
    rw [hc] at hn
    rcases List.mem_append.mp hn with hn | hn
    · exact h.handed n hn
    · exact List.mem_singleton.mp hn ▸ hhanded
  · -- the epoch of a claimed row was open
    rw [hc]
    refine List.nodup_append.mpr ⟨h.once, List.nodup_singleton _, fun a ha b hb => ?_⟩
    rintro rfl
    exact hopen (List.mem_singleton.mp hb ▸ ha)
  · rintro _ ⟨⟩ hclaimed'
    exact absurd hclaimed' hst

/-- **One step keeps the epochs of a job in order.** -/
theorem step (h : Epochs id tr job) (hfresh : FreshIds (tr ++ [m]))
    (hid : ∀ j ∈ job', j.row.id = id)
    (hs : Job.Step m.label.env.now m.label.call (m.label.mark id) job job') :
    Epochs id (tr ++ [m]) job' := by
  generalize hcall : m.label.call = c at hs
  generalize hmark : m.label.mark id = mark at hs
  cases hs with
  | @enqueue job =>
    have henq : m.label.call.enqueues = some id := by
      rw [hcall]
      exact congrArg some (hid _ rfl)
    -- the id is fresh, so its ledger is empty
    obtain ⟨-, hhanded, hclosed⟩ := h.unborn (hfresh.not_mem henq)
    have hh : handedOut id (tr ++ [m]) = [] := by rw [handedOut_snoc, hmark, hhanded]; rfl
    have hc : closings id (tr ++ [m]) = [] := by rw [closings_snoc, hmark, hclosed]; rfl
    refine ⟨fun hnot => ?_, ⟨0, Nat.zero_le _, hh, ?_⟩, by simp [hc], by simp [hc], ?_⟩
    · simp [enqueued_snoc, henq] at hnot
    · rintro _ ⟨⟩
      rfl
    · rintro _ ⟨⟩ hclaimed
      simp [NewJob.record] at hclaimed
  | claim _ hmax => exact h.claim rfl hmark hmax rfl
  | settle howned =>
    obtain ⟨-, -, -, hclaimed⟩ := JobRecord.owned_iff.mp howned
    exact h.close rfl hclaimed hmark (Settlement.set_runCount _ _) (Settlement.set_status_ne _ _)
  | recover hstale =>
    obtain ⟨hclaimed, -⟩ := JobRecord.stale_iff.mp hstale
    exact h.close rfl hclaimed hmark rfl (by simp [JobRecord.repend])
  | extendLease => exact h.quiet (hmark ▸ rfl) (hmark ▸ rfl) (by simp) (by simp [JobRecord.extend])
  | cleanup => exact h.quiet (hmark ▸ rfl) (hmark ▸ rfl) (fun _ => rfl) (by simp)
  | merge => exact h.quiet (hmark ▸ rfl) (hmark ▸ rfl) (by simp) (by simp)

/-- A closed epoch is not the current epoch of a claimed row. -/
theorem not_current {n : Nat} (h : Epochs id tr job) (hn : n ∈ closings id tr) {j : Job}
    (hj : job = some j) : ¬ (j.row.runCount = n ∧ j.row.status = .claimed) := by
  rintro ⟨rfl, hclaimed⟩
  exact (h.opened j hj hclaimed).2 hn

/-- A closed epoch was handed out, so it fits the column. -/
theorem le_i32Max {n : Nat} (h : Epochs id tr job) (hn : n ∈ closings id tr) : n ≤ i32Max := by
  obtain ⟨k, hk, hrange, -⟩ := h.counted
  have hmem := h.handed n hn
  rw [hrange, List.mem_range'_1] at hmem
  omega

end Epochs

/-- The epochs of every job are in order in every run over fresh ids. -/
theorem epochs_of_run {tr : History} {s : PostgresStore} (h : PostgresStore.Run tr s)
    (hfresh : FreshIds tr) (id : Ulid) : Epochs id tr (s.view id) := by
  refine PostgresStore.Run.job (I := fun tr job => FreshIds tr → Epochs id tr job)
    (fun _ => Epochs.init id) ?_ ?_ h hfresh
  · intro tr job m hI hmark hfresh
    exact (hI hfresh.of_append).quiet (hmark ▸ rfl) (hmark ▸ rfl) (fun hnone => hnone)
      (fun j hj => ⟨j, hj, rfl, fun hst => hst⟩)
  · intro tr job job' m hI _ hid hs hfresh
    exact (hI hfresh.of_append).step hfresh hid hs

/-- A stored job was enqueued. -/
theorem mem_enqueued_of_view {tr : History} {s : PostgresStore} (h : PostgresStore.Run tr s)
    (hfresh : FreshIds tr) {id : Ulid} {j : Job} (hj : s.view id = some j) : id ∈ enqueued tr := by
  by_contra hid
  have hnone := ((epochs_of_run h hfresh id).unborn hid).1
  rw [hj] at hnone
  cases hnone

/-- A refused call changes nothing. -/
theorem refused_unchanged {s s' : PostgresStore} {e : Event} (h : s.Step e s') (hr : e.refused) :
    s' = s := by
  obtain ⟨env, c, r⟩ := e
  cases c with
  | settle id claimedBy runNo settlement entry =>
    simp only [Step, exec] at h
    rcases commit_eq h with ⟨b, hok, rfl⟩ | ⟨_, -, -, hsame⟩
    · rcases settle_cases hok with ⟨-, hsame, -⟩ | ⟨rfl, -⟩
      · exact hsame
      · cases hr
    · exact hsame
  | recover id visibleAt failureCount runNo entry =>
    simp only [Step, exec] at h
    rcases commit_eq h with ⟨b, hok, rfl⟩ | ⟨_, -, -, hsame⟩
    · rcases recover_cases hok with ⟨-, hsame, -⟩ | ⟨rfl, -⟩
      · exact hsame
      · cases hr
    · exact hsame
  | extendLease id claimedBy runNo lease =>
    simp only [Step, exec] at h
    rcases commit_eq h with ⟨b, hok, rfl⟩ | ⟨_, -, -, hsame⟩
    · rcases extendLease_cases hok with ⟨-, hsame, -⟩ | ⟨rfl, -⟩
      · exact hsame
      · cases hr
    · exact hsame
  | _ => exact hr.elim

/-- A call whose guard missed replies `false` or with the range error of its journal
    entry, and leaves the database alone. -/
theorem commit_missed {s s' : PostgresStore} {n : Nat} {r : Except Error Bool}
    (h : s.commit ((runNoToDb n).map (fun _ => (false, s))) = (r, s')) :
    s' = s ∧ (r = .ok false ∨ (i32Max < n ∧ r = .error (.runNumberOutOfRange n))) := by
  unfold runNoToDb at h
  split at h
  · obtain ⟨rfl, rfl⟩ := Prod.mk.inj h
    exact ⟨rfl, .inl rfl⟩
  · rename_i hmax
    obtain ⟨rfl, rfl⟩ := Prod.mk.inj h
    exact ⟨rfl, .inr ⟨by omega, rfl⟩⟩

/-- **A closed epoch stays closed.** A call that presents it changes neither table. -/
theorem closed_step {tr : History} {s s' : PostgresStore} {e : Event} {id : Ulid} {n : Nat}
    (h : Epochs id tr (s.view id)) (hn : n ∈ closings id tr)
    (hpresents : e.call.presents = some (id, n)) (hs : s.Step e s') :
    s' = s ∧ (e.refused ∨ e.outOfRange) := by
  -- neither guard matches a row that is past the epoch
  have hmax := h.le_i32Max hn
  have howned : ∀ claimedBy job, s.view id = some job → ¬ job.row.owned id claimedBy n := by
    intro claimedBy job hjob hg
    obtain ⟨-, -, hrun, hclaimed⟩ := JobRecord.owned_iff.mp hg
    exact h.not_current hn hjob ⟨hrun, hclaimed⟩
  have hstale : ∀ now job, s.view id = some job → ¬ job.row.recoverable id n now := by
    intro now job hjob hg
    obtain ⟨-, hg, hrun⟩ := JobRecord.recoverable_iff.mp hg
    exact h.not_current hn hjob ⟨hrun, (JobRecord.stale_iff.mp hg).1⟩
  obtain ⟨env, c, r⟩ := e
  cases c with
  | settle id' claimedBy n' settlement entry =>
    obtain ⟨rfl, rfl⟩ := Prod.mk.inj (Option.some.inj hpresents)
    simp only [Step, exec, settle_miss hmax (howned claimedBy)] at hs
    exact commit_missed hs
  | recover id' visibleAt failureCount n' entry =>
    obtain ⟨rfl, rfl⟩ := Prod.mk.inj (Option.some.inj hpresents)
    simp only [Step, exec, recover_miss hmax (hstale env.now)] at hs
    exact commit_missed hs
  | extendLease id' claimedBy n' lease =>
    obtain ⟨rfl, rfl⟩ := Prod.mk.inj (Option.some.inj hpresents)
    simp only [Step, exec, extendLease_miss hmax (howned claimedBy)] at hs
    obtain ⟨rfl, rfl⟩ := Prod.mk.inj hs
    exact ⟨rfl, .inl rfl⟩
  | _ => simp [Call.presents] at hpresents

/-- **Claim-epoch ownership.** In every run over fresh ids, and for every job: the run
    numbers handed out are 1, 2, 3, … in order, so no epoch is handed out twice; no epoch
    is closed twice; and a call that presents a closed epoch leaves both tables as they
    were and returns `false`, or the range error when its journal entry carries a run
    number the column cannot hold. -/
theorem epochs_owned {tr : History} {s : PostgresStore} (h : PostgresStore.Run tr s)
    (hfresh : FreshIds tr) (id : Ulid) :
    (∃ k, handedOut id tr = List.range' 1 k) ∧
    (∀ n, (handedOut id tr).count n ≤ 1) ∧
    (∀ n, (closings id tr).count n ≤ 1) ∧
    (∀ tr₁ m tr₂, tr = tr₁ ++ m :: tr₂ → ∀ n ∈ closings id tr₁,
      m.label.call.presents = some (id, n) →
        m.after = m.before ∧ (m.label.refused ∨ m.label.outOfRange)) := by
  have hepochs := epochs_of_run h hfresh id
  obtain ⟨k, -, hrange, -⟩ := hepochs.counted
  refine ⟨⟨k, hrange⟩, fun n => ?_, fun n => ?_, ?_⟩
  · exact List.nodup_iff_count_le_one.mp (hrange ▸ List.nodup_range') n
  · exact List.nodup_iff_count_le_one.mp hepochs.once n
  · rintro tr₁ m tr₂ rfl n hn hpresents
    obtain ⟨hrun, hs, -⟩ := Trace.Run.split h
    exact closed_step (epochs_of_run hrun hfresh.of_append id) hn hpresents hs

/-- A second settlement of the same epoch, with a journal entry for run `runNo`. -/
def secondSettle (runNo : Nat) : Trace.Move PostgresStore Event :=
  (empty.replay sampleCompleted).2.next (.ofNow 2)
    (.settle 0 "w" 1 (.complete 2) (sampleEntry runNo .completed))

/-- The second settlement of one epoch changes nothing, and is refused. -/
theorem epochs_owned_secondSettle :
    (secondSettle 1).after = (secondSettle 1).before ∧
      ((secondSettle 1).label.refused ∨ (secondSettle 1).label.outOfRange) :=
  (epochs_owned (run_next sampleCompleted _ _) (by decide) 0).2.2.2
    (empty.replay sampleCompleted).1 (secondSettle 1) [] rfl 1 (by decide) rfl

/-- A call that presents a closed epoch need not return `false`: the range check on the
    journal entry's run number comes before the guard. -/
theorem closed_settle_out_of_range :
    ¬ ∀ (tr : History) (s : PostgresStore), PostgresStore.Run tr s → FreshIds tr →
      ∀ id tr₁ m tr₂, tr = tr₁ ++ m :: tr₂ → ∀ n ∈ closings id tr₁,
        m.label.call.presents = some (id, n) → m.after = m.before ∧ m.label.refused := by
  intro h
  obtain ⟨-, hrefused⟩ := h _ _ (run_next sampleCompleted (.ofNow 2) _) (by decide) 0
    (empty.replay sampleCompleted).1 (secondSettle (2 ^ 31)) [] rfl 1 (by decide) rfl
  have hreply : (secondSettle (2 ^ 31)).label.reply = .error (.runNumberOutOfRange (2 ^ 31)) := rfl
  have hfalse : (secondSettle (2 ^ 31)).label.reply = .ok false := hrefused
  rw [hreply] at hfalse
  cases hfalse

end Venturi
