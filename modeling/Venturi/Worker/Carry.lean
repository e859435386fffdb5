import Venturi.Queue.Merge
import Venturi.Worker.Dispatch

namespace Venturi

open Sql PostgresStore

/-!
# What a run resumes from (`worker/registry.rs`, `worker/mod.rs`, `postgres/mod.rs`)

The carry travels from the row into the claim record, from there into the context of the
handler, back into the report of the run, and with a Pause or a Retry into the row.

* `Runtime` — the handlers the workers registered, and the histories their runs were given.
* `HandlerRun` — the runs of the system in which a worker settles a run with what the handler
  reported for the claimed record, as late and as often as it likes.
* `checkpoints` — the runs of a job that an applied Pause or Retry closed.
* `latest_of_run` — the stored carry is the one the latest checkpoint reported.
* `resumes_from_checkpoint` — so is the carry of every claim record.
-/

/-! ### Checkpoints -/

/-- The run of the job `id` that an applied Pause or Retry closes. -/
def Event.checkpoint? (id : Ulid) : Event → Option Nat
  | ⟨_, .settle id' _ runNo settlement _, .ok true⟩ =>
      if id' = id ∧ settlement.carry?.isSome then some runNo else none
  | _ => none

/-- The runs of the job `id` that an applied Pause or Retry closed, in order. -/
def checkpoints (id : Ulid) (tr : History) : List Nat :=
  tr.filterMap (fun m => m.label.checkpoint? id)

section Checkpoints

variable {id : Ulid} {tr tr' : History} {m : Trace.Move PostgresStore Event} {e : Event} {n : Nat}

theorem checkpoints_snoc :
    checkpoints id (tr ++ [m]) = checkpoints id tr ++ (m.label.checkpoint? id).toList := by
  rw [checkpoints, List.filterMap_append]
  cases h : m.label.checkpoint? id <;> simp [checkpoints, h]

/-- A checkpoint is an applied settlement that persists a carry. -/
theorem checkpoint_inv (h : e.checkpoint? id = some n) :
    ∃ env claimedBy settlement entry, e = ⟨env, .settle id claimedBy n settlement entry, .ok true⟩ ∧
      settlement.carry?.isSome := by
  unfold Event.checkpoint? at h
  split at h
  · rename_i env id' claimedBy runNo settlement entry
    split at h
    · rename_i hif
      obtain rfl := hif.1
      obtain rfl := Option.some.inj h
      exact ⟨env, claimedBy, settlement, entry, rfl, hif.2⟩
    · cases h
  · cases h

/-- A checkpoint closes its run. -/
theorem closed_of_checkpoint (h : e.checkpoint? id = some n) : e.mark id = .closed n := by
  obtain ⟨env, claimedBy, settlement, entry, rfl, -⟩ := checkpoint_inv h
  simp [Event.mark, Event.effect]

/-- A checkpoint closes its run. -/
theorem mem_closings_of_checkpoint (h : n ∈ checkpoints id tr) : n ∈ closings id tr := by
  obtain ⟨m, hm, hc⟩ := List.mem_filterMap.mp h
  exact List.mem_filterMap.mpr ⟨m, hm, by rw [closed_of_checkpoint hc]; rfl⟩

/-- What is closed was claimed, at that run. -/
theorem Job.Step.closed_inv {now : DateTime} {c : Call} {job job' : Option Job}
    (h : Job.Step now c (.closed n) job job') :
    ∃ j, job = some j ∧ j.row.status = .claimed ∧ j.row.runCount = n := by
  cases h with
  | settle howned => exact ⟨_, rfl, (JobRecord.owned_iff.mp howned).2.2.2, rfl⟩
  | recover hstale => exact ⟨_, rfl, (JobRecord.stale_iff.mp hstale).1, rfl⟩

/-- A checkpoint finds its run claimed. -/
theorem checkpoint_current {s s' : PostgresStore} (hs : s.Step e s')
    (h : e.checkpoint? id = some n) :
    ∃ j, s.view id = some j ∧ j.row.status = .claimed ∧ j.row.runCount = n := by
  have hmark := closed_of_checkpoint h
  rcases exec_view hs id with ⟨-, hquiet⟩ | hstep
  · exact absurd (hmark.symm.trans hquiet) (by simp)
  · exact (show Job.Step _ _ (.closed n) _ _ from hmark ▸ hstep).closed_inv

/-- The closed runs of a job are not ahead of its row. -/
theorem Epochs.closed_le {job : Option Job} (h : Epochs id tr job) (hn : n ∈ closings id tr)
    {j : Job} (hj : job = some j) : n ≤ j.row.runCount := by
  obtain ⟨k, -, hrange, hcount⟩ := h.counted
  have hmem := h.handed n hn
  rw [hrange, List.mem_range'_1] at hmem
  have hk := hcount j hj
  omega

/-- **Checkpoints go up.** -/
theorem checkpoints_ordered {s : PostgresStore} (h : PostgresStore.Run tr s)
    (hfresh : FreshIds tr) : (checkpoints id tr).Pairwise (· < ·) := by
  refine Trace.Run.invariant (I := fun tr _ => FreshIds tr →
    (checkpoints id tr).Pairwise (· < ·)) ?_ ?_ h hfresh
  · exact fun _ => List.Pairwise.nil
  · intro tr s e s' hrun hI hs hfresh
    rw [checkpoints_snoc]
    have hfresh' : FreshIds tr := hfresh.of_append
    cases hc : e.checkpoint? id with
    | none => simpa using hI hfresh'
    | some n =>
      -- the run it closes is the current one, and the closed ones are behind it
      obtain ⟨j, hj, hclaimed, hrun'⟩ := checkpoint_current hs hc
      have hepochs := epochs_of_run hrun hfresh' id
      refine List.pairwise_append.mpr ⟨hI hfresh', List.pairwise_singleton _ _, ?_⟩
      intro k hk n' hn'
      obtain rfl := List.mem_singleton.mp hn'
      have hclosed := mem_closings_of_checkpoint hk
      have hle : k ≤ j.row.runCount := hepochs.closed_le hclosed hj
      have hne : k ≠ n' := by
        rintro rfl
        exact hepochs.not_current hclosed hj ⟨hrun', hclaimed⟩
      omega

end Checkpoints

/-! ### Runs of handlers -/

/-- The handlers the workers registered, and the history each run was given: what its read of
    the journal returned, or none. -/
structure Runtime where
  handlers : Worker → String → Option AnyHandler
  history : Worker → Ulid → Nat → List JournalEntry

namespace Runtime

variable (rt : Runtime)

/-- The input of the run of a claimed record. -/
def input (w : Worker) (r : JobRecord) : RunInput :=
  r.runInput w.config.panicPolicy (rt.history w r.id r.runCount)

/-- How the run of a claimed record ends. -/
def report (w : Worker) (r : JobRecord) : Except Error RunReport :=
  dispatch (rt.handlers w) r.kind (rt.input w r)

/-- A `settle` call of the system releases a claim, or settles the run of a claimed record with
    what the run ended with. -/
def Settles (fl : ℚ → ℚ) (workers : Worker → Prop) (tr : History) (c : Call) : Prop :=
  ∀ id claimedBy runNo settlement entry, c = .settle id claimedBy runNo settlement entry →
    (∃ visibleAt, settlement = .release visibleAt) ∨
      ∃ w r now, workers w ∧ ClaimedBy tr w r ∧ c = w.settle fl now (r.finished (rt.report w r))

end Runtime

/-- The runs of the system in which handlers run as they are registered. -/
abbrev HandlerRun (fl : ℚ → ℚ) (workers : Worker → Prop) (rt : Runtime) :
    History → PostgresStore → Prop :=
  Trace.Run PostgresStore.empty (fun tr s e s' => s.Step e s' ∧ Made fl workers tr e.call ∧
    rt.Settles fl workers tr e.call)

/-- The run `n` of the job `id` reported this carry. -/
def RunReported (workers : Worker → Prop) (rt : Runtime) (tr : History) (id : Ulid) (n : Nat)
    (carry : Value) : Prop :=
  ∃ w r entry, workers w ∧ ClaimedBy tr w r ∧ r.id = id ∧ r.runCount = n ∧
    rt.handlers w r.kind = some entry ∧ entry.handler.Reports (rt.input w r) carry

/-- The job `id` was enqueued with this carry. -/
def EnqueuedWith (tr : History) (id : Ulid) (carry : Value) : Prop :=
  ∃ m ∈ tr, ∃ env new, m.label = ⟨env, .enqueue new, .ok ()⟩ ∧ new.id = id ∧ new.carry = carry

/-- Nobody merged into the job `id`. -/
def Unmerged (id : Ulid) (tr : History) : Prop :=
  ∀ m ∈ tr, ∀ env update entry, m.label ≠ ⟨env, .mergeInto id update entry, .ok true⟩

section Runs

variable {fl : ℚ → ℚ} {workers : Worker → Prop} {rt : Runtime} {tr tr' : History}
  {s s' : PostgresStore} {id : Ulid} {m : Trace.Move PostgresStore Event} {carry : Value}

/-- A run with handlers is one of the system. -/
theorem HandlerRun.system (h : HandlerRun fl workers rt tr s) : SystemRun fl workers tr s :=
  h.mono (fun _ _ _ _ hs => ⟨hs.1, hs.2.1⟩)

theorem HandlerRun.run (h : HandlerRun fl workers rt tr s) : PostgresStore.Run tr s :=
  SystemRun.run h.system

theorem ClaimedBy.append {w : Worker} {r : JobRecord} (h : ClaimedBy tr w r) :
    ClaimedBy (tr ++ tr') w r := by
  obtain ⟨m, hm, hlabel⟩ := h
  exact ⟨m, List.mem_append_left _ hm, hlabel⟩

theorem RunReported.append {n : Nat} (h : RunReported workers rt tr id n carry) :
    RunReported workers rt (tr ++ tr') id n carry := by
  obtain ⟨w, r, entry, hw, hclaim, hrest⟩ := h
  exact ⟨w, r, entry, hw, hclaim.append, hrest⟩

theorem EnqueuedWith.append (h : EnqueuedWith tr id carry) : EnqueuedWith (tr ++ tr') id carry := by
  obtain ⟨m, hm, hlabel⟩ := h
  exact ⟨m, List.mem_append_left _ hm, hlabel⟩

/-! ### The stored carry -/

/-- The carry is the one the latest checkpoint reported, or that of the `enqueue`. -/
def Latest (workers : Worker → Prop) (rt : Runtime) (tr : History) (id : Ulid) (carry : Value) :
    Prop :=
  (checkpoints id tr = [] ∧ EnqueuedWith tr id carry) ∨
    ∃ n, (checkpoints id tr).getLast? = some n ∧ RunReported workers rt tr id n carry

/-- A step that is no checkpoint leaves the latest one. -/
theorem Latest.keep (h : Latest workers rt tr id carry) (hm : m.label.checkpoint? id = none) :
    Latest workers rt (tr ++ [m]) id carry := by
  have hsame : checkpoints id (tr ++ [m]) = checkpoints id tr := by
    rw [checkpoints_snoc, hm]
    exact List.append_nil _
  rcases h with ⟨hnone, henq⟩ | ⟨n, hlast, hrep⟩
  · exact .inl ⟨hsame.trans hnone, henq.append⟩
  · exact .inr ⟨n, by rw [hsame, hlast], hrep.append⟩

/-- A checkpoint is the latest one. -/
theorem Latest.checkpoint {n : Nat} (h : RunReported workers rt tr id n carry)
    (hm : m.label.checkpoint? id = some n) : Latest workers rt (tr ++ [m]) id carry := by
  refine .inr ⟨n, ?_, h.append⟩
  rw [checkpoints_snoc, hm]
  exact List.getLast?_concat

/-- A call that presents no claim epoch settles nothing. -/
theorem Runtime.Settles.other {c : Call} (h : c.presents = none) : rt.Settles fl workers tr c := by
  rintro id claimedBy runNo settlement entry rfl
  cases h

/-- What a settlement that applied persists was reported by the run it settles. -/
theorem Runtime.Settles.reported {w : Worker} {r : JobRecord} {now : DateTime}
    (hw : workers w) (hclaim : ClaimedBy tr w r)
    (hcarry : (w.settlementOf fl now (r.finished (rt.report w r))).carry? = some carry) :
    RunReported workers rt tr r.id r.runCount carry := by
  obtain ⟨report, hreport, rfl, hsound⟩ := Worker.settlementOf_carry hcarry
  have hdispatch : dispatch (rt.handlers w) r.kind (rt.input w r) = .ok report := hreport
  unfold dispatch at hdispatch
  split at hdispatch
  · rename_i entry hentry
    rcases erasedRun_reports hdispatch with hrep | ⟨message, hbad⟩
    · exact ⟨w, r, entry, hw, hclaim, rfl, rfl, hentry, hrep⟩
    · exact absurd hbad (hsound message)
  · cases hdispatch

/-- A merge that may not apply leaves the job as it was. -/
theorem Unmerged.view_eq {env : Env} {update : Option MergePayload} {entry : JournalAppend}
    {reply : Except Error Bool} (hs : s.Step ⟨env, .mergeInto id update entry, reply⟩ s')
    (h : Unmerged id [⟨s, ⟨env, .mergeInto id update entry, reply⟩, s'⟩]) :
    s'.view id = s.view id := by
  rcases commit_eq hs with ⟨b, hok, rfl⟩ | ⟨_, -, -, rfl⟩
  · rcases mergeInto_cases hok with ⟨-, rfl, -⟩ | ⟨rfl, -⟩
    · rfl
    · exact absurd rfl (h _ (List.mem_singleton_self _) env update entry)
  · rfl

/-- A settlement that closed its run replied so. -/
theorem settled_reply {env : Env} {claimedBy : String} {runNo n : Nat} {settlement : Settlement}
    {entry : JournalAppend} {reply : Except Error Bool}
    (h : Event.mark id ⟨env, .settle id claimedBy runNo settlement entry, reply⟩ = .closed n) :
    reply = .ok true := by
  rcases reply with e | _ | _
  · cases h
  · cases h
  · rfl

/-- **One step keeps the stored carry the latest.** -/
theorem Latest.step {e : Event} (hepochs : Epochs id tr (s.view id))
    (hlatest : ∀ j, s.view id = some j → Latest workers rt tr id j.row.carry)
    (hs : s.Step e s') (hsettles : rt.Settles fl workers tr e.call)
    (hfresh : FreshIds (tr ++ [⟨s, e, s'⟩])) (hmerge : Unmerged id [⟨s, e, s'⟩]) {j' : Job}
    (hj' : s'.view id = some j') : Latest workers rt (tr ++ [⟨s, e, s'⟩]) id j'.row.carry := by
  rcases exec_view hs id with ⟨hview, hquiet⟩ | hstep
  · refine (hlatest j' (hview ▸ hj')).keep ?_
    cases hc : e.checkpoint? id with
    | none => rfl
    | some n => exact absurd ((closed_of_checkpoint hc).symm.trans hquiet) (by simp)
  · obtain ⟨env, c, reply⟩ := e
    rw [hj'] at hstep
    generalize hmark : Event.mark id ⟨env, c, reply⟩ = mark at hstep
    generalize hjob : s.view id = job at hstep hlatest hepochs
    cases hstep with
    | @enqueue new =>
      obtain ⟨env', new', he, hid⟩ := opened_inv hmark
      cases he
      have hunborn := hepochs.unborn (hfresh.not_mem (congrArg some hid))
      have hnone : checkpoints id (tr ++ [⟨s, ⟨env, .enqueue new, .ok ()⟩, s'⟩]) = [] := by
        rw [List.eq_nil_iff_forall_not_mem]
        intro n hn
        have hclosed := mem_closings_of_checkpoint hn
        rw [closings_snoc, hunborn.2.2, hmark] at hclosed
        exact List.not_mem_nil hclosed
      exact .inl ⟨hnone, ⟨s, _, s'⟩, by simp, env, new, rfl, hid, rfl⟩
    | claim => exact (hlatest _ rfl).keep rfl
    | recover => exact (hlatest _ rfl).keep rfl
    | extendLease => exact (hlatest _ rfl).keep rfl
    | @merge update entry row log n hpending =>
      -- the job is not merged into
      obtain rfl : row.id = id := view_id hjob
      have hsame := hmerge.view_eq hs
      simp [hj', hjob] at hsame
    | @settle claimedBy settlement entry row log n howned =>
      obtain rfl : row.id = id := view_id hjob
      obtain rfl := settled_reply hmark
      show Latest workers rt _ _ (settlement.set row).carry
      rw [Settlement.set_carry]
      rcases hsettles _ _ _ _ _ rfl with ⟨visibleAt, rfl⟩ | ⟨w, r, now', hw, hclaim, hcall⟩
      · -- a release persists no carry
        exact (hlatest _ rfl).keep (by simp [Event.checkpoint?, Settlement.carry?])
      · obtain ⟨hid, -, hrun, hsettlement, -⟩ := Call.settle.inj hcall
        cases hcarry : settlement.carry? with
        | none => exact (hlatest _ rfl).keep (by simp [Event.checkpoint?, hcarry])
        | some carry =>
          have hrep : RunReported workers rt tr row.id row.runCount carry := by
            rw [hid, hrun]
            exact Runtime.Settles.reported hw hclaim (hsettlement ▸ hcarry)
          exact Latest.checkpoint hrep (by simp [Event.checkpoint?, hcarry])

/-- **The stored carry is the latest**, in every run, for a job that is not merged into. -/
theorem latest_of_run (h : HandlerRun fl workers rt tr s) (hfresh : FreshIds tr)
    (hmerge : Unmerged id tr) :
    ∀ j, s.view id = some j → Latest workers rt tr id j.row.carry := by
  refine Trace.Run.invariant (I := fun tr s => FreshIds tr → Unmerged id tr →
    ∀ j, s.view id = some j → Latest workers rt tr id j.row.carry) ?_ ?_ h hfresh hmerge
  · exact fun _ _ j hj => nomatch hj
  · intro tr s e s' hrun hI hs hfresh hmerge j' hj'
    have hfresh' : FreshIds tr := hfresh.of_append
    have hmerge' : Unmerged id tr := fun m hm => hmerge m (List.mem_append_left _ hm)
    exact Latest.step (epochs_of_run (HandlerRun.run hrun) hfresh' id) (hI hfresh' hmerge') hs.1
      hs.2.2 hfresh (fun m hm => hmerge m (List.mem_append_right _ hm)) hj'

/-- A claim returns the row with its carry, under the next run number. -/
theorem claim_carry {e : Event} {env : Env} {kinds : List String} {floor : Int} {lease : Duration}
    {claimedBy : String} {r : JobRecord} (hs : s.Step e s')
    (he : e = ⟨env, .claimNext kinds floor lease claimedBy, .ok (some r)⟩) :
    ∃ j, s.view r.id = some j ∧ r.carry = j.row.carry ∧ r.runCount = j.row.runCount + 1 := by
  subst he
  rcases commit_eq hs with ⟨o, hok, hreply⟩ | ⟨_, -, herr, -⟩
  · obtain rfl := Except.ok.inj hreply
    rcases claimNext_cases hok with ⟨hnone, -⟩ | ⟨job, hjob, -, -, -, hsome, -⟩
    · cases hnone
    · have hrow : r = job.row.claim claimedBy (env.now + lease) := Option.some.inj hsome
      rw [hrow]
      exact ⟨job, hjob, rfl, rfl⟩
  · cases herr

/-- The checkpoints after a claim are of its run, or of later ones. -/
theorem checkpoint_after_claim {tr₁ tr₂ : History} (h : PostgresStore.Run (tr₁ ++ m :: tr₂) s)
    (hfresh : FreshIds (tr₁ ++ m :: tr₂)) {r : JobRecord} (hr : r ∈ m.label.snapshots)
    {n : Nat} (hn : n ∈ checkpoints r.id tr₂) : r.runCount ≤ n := by
  obtain ⟨m', hm', hc⟩ := List.mem_filterMap.mp hn
  obtain ⟨tr₃, tr₄, rfl⟩ := List.append_of_mem hm'
  rw [← List.cons_append, ← List.append_assoc] at h hfresh
  obtain ⟨hrun, hs, -⟩ := h.split
  obtain ⟨j, hj, -, hcount⟩ := checkpoint_current hs hc
  have hsnap :=
    snapshot_of_run hrun hfresh.of_append (List.mem_append_right _ List.mem_cons_self) hr
  exact hcount ▸ (hsnap j hj).1

/-- **Runs resume from the last checkpoint.** In every run of the system, for every job nobody
    merged into: the carry of the claim record that the handler of a run is started with is
    the one reported by the greatest earlier run that an applied Pause or Retry closed, or
    that of the `enqueue` if there is none. -/
theorem resumes_from_checkpoint (h : HandlerRun fl workers rt tr s) (hfresh : FreshIds tr)
    (hmerge : Unmerged id tr) (hm : m ∈ tr) {env : Env} {kinds : List String} {floor : Int}
    {lease : Duration} {claimedBy : String} {r : JobRecord} (hid : r.id = id)
    (hlabel : m.label = ⟨env, .claimNext kinds floor lease claimedBy, .ok (some r)⟩) :
    ((∀ n ∈ checkpoints id tr, r.runCount ≤ n) ∧ EnqueuedWith tr id r.carry) ∨
      ∃ n ∈ checkpoints id tr, n < r.runCount ∧
        (∀ n' ∈ checkpoints id tr, n' < r.runCount → n' ≤ n) ∧
        RunReported workers rt tr id n r.carry := by
  subst hid
  obtain ⟨tr₁, tr₂, rfl⟩ := List.append_of_mem hm
  have hr : r ∈ m.label.snapshots := by
    rw [hlabel]
    exact List.mem_singleton_self r
  have hnone : m.label.checkpoint? r.id = none := by
    rw [hlabel]
    rfl
  -- the checkpoints of the run are those before the claim and those after it
  have hsplit : checkpoints r.id (tr₁ ++ m :: tr₂) =
      checkpoints r.id tr₁ ++ checkpoints r.id tr₂ := by
    simp [checkpoints, hnone]
  have hafter : ∀ n ∈ checkpoints r.id tr₂, r.runCount ≤ n :=
    fun n hn => checkpoint_after_claim h.run hfresh hr hn
  obtain ⟨hrun, hs, -⟩ := h.split
  obtain ⟨j, hj, hcarry, hcount⟩ := claim_carry hs.1 hlabel
  have hmerge' : Unmerged r.id tr₁ := fun m hm => hmerge m (List.mem_append_left _ hm)
  have hbefore : ∀ n ∈ checkpoints r.id tr₁, n < r.runCount := by
    intro n hn
    have hle := (epochs_of_run (HandlerRun.run hrun) hfresh.of_append r.id).closed_le
      (mem_closings_of_checkpoint hn) hj
    omega
  rw [hsplit, hcarry]
  rcases latest_of_run hrun hfresh.of_append hmerge' j hj with ⟨hempty, henq⟩ | ⟨n, hlast, hrep⟩
  · refine .inl ⟨?_, henq.append⟩
    rw [hempty]
    exact hafter
  · have hmem : n ∈ checkpoints r.id tr₁ := List.mem_of_getLast? hlast
    refine .inr ⟨n, List.mem_append_left _ hmem, hbefore n hmem, fun n' hn' hlt => ?_, hrep.append⟩
    rcases List.mem_append.mp hn' with hn' | hn'
    · -- they go up, and `n` is the last of them
      obtain ⟨ns, hns⟩ := List.getLast?_eq_some_iff.mp hlast
      have hordered : (checkpoints r.id tr₁).Pairwise (· < ·) :=
        checkpoints_ordered (HandlerRun.run hrun) hfresh.of_append
      rw [hns] at hordered hn'
      rcases List.mem_append.mp hn' with hn' | hn'
      · exact le_of_lt ((List.pairwise_append.mp hordered).2.2 n' hn' n (List.mem_singleton_self n))
      · exact le_of_eq (List.mem_singleton.mp hn')
    · exact absurd (hafter n' hn') (by omega)

end Runs

/-! ### A sample pause -/

/-- A handler that leaves the carry `7` and pauses. -/
def sampleHandler : Handler Value Value where
  toTask := sampleTask
  backoff _ := none
  handle _ _ := .returned (.ok (.pause 0 none)) (.json "7") none

/-- It is registered for its kind. -/
def sampleRuntime : Runtime where
  handlers _ kind := if kind = "feed" then some ⟨sampleHandler⟩ else none
  history _ _ _ := []

/-- The worker pauses the sample job, … -/
def samplePaused : Trace.Move PostgresStore Event :=
  sampleClaimed.after.next (.ofNow 1)
    (sampleWorker.settle id 1 (sampleRow.finished (sampleRuntime.report sampleWorker sampleRow)))

/-- … and claims it again, … -/
def sampleReclaimed : Trace.Move PostgresStore Event :=
  samplePaused.after.next (.ofNow 1)
    (.claimNext ["feed"] 0 sampleWorker.config.lease sampleWorker.identity)

/-- … as this row. -/
def sampleResumed : JobRecord :=
  { sampleRow with
    runCount := 2, visibleAt := 1, carry := .json "7"
    claimExpiresAt := some (1 + sampleWorker.config.lease) }

/-- The sample worker pauses its job and claims it again. -/
theorem sampleReclaimed_run :
    HandlerRun id sampleWorkers sampleRuntime
      [sampleEnqueue, sampleClaimed, samplePaused, sampleReclaimed] sampleReclaimed.after := by
  have hw : sampleWorkers sampleWorker := rfl
  refine .snoc (.snoc (.snoc (.snoc .start ⟨rfl, .enqueue sampleJob, .other rfl⟩)
    ⟨rfl, .claimNext hw ["feed"] 0, .other rfl⟩)
    ⟨rfl, .settle hw sampleRow_claimedBy 1 _, ?settles⟩)
    ⟨rfl, .claimNext hw ["feed"] 0, .other rfl⟩
  case settles =>
    exact fun _ _ _ _ _ _ => .inr ⟨sampleWorker, sampleRow, 1, hw, sampleRow_claimedBy, rfl⟩

/-- The second run of the sample job has the carry that the first one left. -/
theorem resumes_from_checkpoint_sampleResumed :
    ((∀ n ∈ checkpoints 0 [sampleEnqueue, sampleClaimed, samplePaused, sampleReclaimed], 2 ≤ n) ∧
        EnqueuedWith [sampleEnqueue, sampleClaimed, samplePaused, sampleReclaimed] 0 (.json "7")) ∨
      ∃ n ∈ checkpoints 0 [sampleEnqueue, sampleClaimed, samplePaused, sampleReclaimed], n < 2 ∧
        (∀ n' ∈ checkpoints 0 [sampleEnqueue, sampleClaimed, samplePaused, sampleReclaimed],
          n' < 2 → n' ≤ n) ∧
        RunReported sampleWorkers sampleRuntime
          [sampleEnqueue, sampleClaimed, samplePaused, sampleReclaimed] 0 n (.json "7") := by
  have hmerge : Unmerged 0 [sampleEnqueue, sampleClaimed, samplePaused, sampleReclaimed] := by
    intro m hm env update entry
    simp only [List.mem_cons, List.not_mem_nil, or_false] at hm
    rcases hm with rfl | rfl | rfl | rfl <;> rintro ⟨⟩
  exact resumes_from_checkpoint (r := sampleResumed) sampleReclaimed_run (by decide) hmerge
    (m := sampleReclaimed) (by simp) rfl rfl

end Venturi
