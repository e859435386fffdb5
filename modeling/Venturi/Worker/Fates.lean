import Venturi.Worker.Carry
import Venturi.Worker.Custody

namespace Venturi

open Sql PostgresStore

/-!
# What decides how a job ends (`worker/mod.rs`, `worker/registry.rs`)

A job alone is a program: its handler, again and again, until a run ends it.  The system runs
many of them at once, on workers that come and go.

* `Fate` — how a run ended: settled with its report, released, or recovered from a dead worker.
* `Execution` — what a job is run from; `Execution.progress` — how far it is after its runs.
* `fates` — the fates of the runs of a job, in a history of the system.
* `follows_of_run` — in every run of the system a job is where its fates bring it.
* `fleets_agree` — so any two fleets agree on a job whose runs met the same fates, and on every
  job they ended without losing a run.
-/

/-! ### A job alone -/

/-- How a run ended. -/
inductive Fate where
  | reported
  | released
  | recovered
  deriving DecidableEq, Repr

/-- What a job is run from: its `enqueue`, the handler of its kind, and what all workers are
    configured with. -/
structure Execution where
  id : Ulid
  kind : String
  payload : Value
  carry : Value
  handler : Option AnyHandler
  panicPolicy : PanicPolicy
  backstop : Option Nat

/-- What a run left in the journal, without its time.  The note of a recovery names the worker
    presumed dead, so it is left out. -/
structure Conclusion where
  runNo : Nat
  outcome : JournalOutcome
  note : Option String
  attachment : Option Value
  deriving DecidableEq, Repr

def JournalRecord.conclusion (e : JournalRecord) : Conclusion where
  runNo := e.runNo
  outcome := e.outcome
  note := if e.outcome = .staleRecovered then none else e.note
  attachment := e.attachment

/-- How far a job is, between two runs. -/
@[ext] structure Progress where
  status : Status
  runs : Nat
  failures : Int
  carry : Value
  log : List Conclusion
  deriving DecidableEq, Repr

/-- The next run concluded. -/
def Progress.concluded (p : Progress) (status : Status) (failures : Int) (carry : Value)
    (outcome : JournalOutcome) (note : Option String) (attachment : Option Value) : Progress where
  status := status
  runs := p.runs + 1
  failures := failures
  carry := carry
  log := p.log ++ [⟨p.runs + 1, outcome, note, attachment⟩]

namespace Execution

variable (x : Execution)

/-- What the next run reports. -/
def report (p : Progress) : Except Error RunReport :=
  dispatch (fun _ => x.handler) x.kind
    ⟨x.id, x.payload, p.carry, p.runs + 1, [], x.panicPolicy⟩

/-- A job that was just enqueued. -/
def start : Progress := ⟨.pending, 0, 0, x.carry, []⟩

/-- The job after one more run. -/
def after (p : Progress) : Fate → Progress
  | .released => p.concluded .pending p.failures p.carry .released
      (some "released by graceful shutdown") none
  | .recovered =>
    p.concluded .pending (saturatingAdd p.failures 1) p.carry .staleRecovered none none
  | .reported =>
    let failures := saturatingAdd p.failures 1
    match x.report p with
    | .error error => p.concluded .dead failures p.carry .dead (some error.display) none
    | .ok report =>
      match report.result with
      | .ok (.completed note) =>
          p.concluded .completed p.failures p.carry .completed note report.attachment
      | .ok (.pause _ note) =>
          p.concluded .pending p.failures report.carry .paused note report.attachment
      | .error error =>
        if error.permanent ∨ x.backstop.any (· ≤ failures.toNat) then
          p.concluded .dead failures p.carry .dead (some error.message) report.attachment
        else
          p.concluded .pending failures report.carry .retried (some error.message)
            report.attachment

/-- The job after runs with these fates. -/
def progress (fs : List Fate) : Progress := fs.foldl x.after x.start

@[simp] theorem progress_nil : x.progress [] = x.start := rfl

@[simp] theorem progress_snoc (fs : List Fate) (f : Fate) :
    x.progress (fs ++ [f]) = x.after (x.progress fs) f := by
  rw [progress, List.foldl_append]
  rfl

end Execution

/-! ### Fates in a history -/

/-- What a settlement makes of its run. -/
def Settlement.fate : Settlement → Fate
  | .release _ => .released
  | _ => .reported

/-- The fate an event gave to a run of the job. -/
def Event.fate? (id : Ulid) : Event → Option Fate
  | ⟨_, .settle id' _ _ settlement _, .ok true⟩ => if id' = id then some settlement.fate else none
  | ⟨_, .recover id' _ _ _ _, .ok true⟩ => if id' = id then some .recovered else none
  | _ => none

/-- The fates of the runs of the job, in order. -/
def fates (id : Ulid) (tr : History) : List Fate := tr.filterMap fun m => m.label.fate? id

theorem fates_snoc {id : Ulid} {tr : History} {m : Trace.Move PostgresStore Event} :
    fates id (tr ++ [m]) = fates id tr ++ (m.label.fate? id).toList := by
  rw [fates, List.filterMap_append]
  cases h : m.label.fate? id <;> simp [fates, h]

/-- A fate closes the run. -/
theorem closed_of_fate {id : Ulid} {e : Event} {f : Fate} (h : e.fate? id = some f) :
    ∃ n, e.mark id = .closed n := by
  unfold Event.fate? at h
  split at h
  · next env id' claimedBy runNo settlement entry =>
    split at h
    · exact ⟨runNo, by simp [Event.mark, Event.effect, *]⟩
    · cases h
  · next env id' visibleAt failureCount runNo entry =>
    split at h
    · exact ⟨runNo, by simp [Event.mark, Event.effect, *]⟩
    · cases h
  · cases h

/-- An event that is quiet for the job gives no fate. -/
theorem fate_of_quiet {id : Ulid} {e : Event} (h : e.mark id = .quiet) : e.fate? id = none := by
  cases hf : e.fate? id with
  | none => rfl
  | some f =>
    obtain ⟨n, hclosed⟩ := closed_of_fate hf
    rw [h] at hclosed
    cases hclosed

/-! ### The calls of the workers -/

/-- A handler that does not look at the history it is given. -/
def AnyHandler.Blind (entry : AnyHandler) : Prop :=
  ∀ payload ctx history, entry.handler.handle payload { ctx with history := history } =
    entry.handler.handle payload ctx

/-- A run of a blind handler does not depend on the history it is given. -/
theorem AnyHandler.Blind.erasedRun {entry : AnyHandler} (h : entry.Blind) (input : RunInput)
    (history : List JournalEntry) :
    erasedRun entry.handler { input with history := history } = erasedRun entry.handler input := by
  rw [erasedRun_eq, erasedRun_eq]
  unfold Handler.context
  cases entry.handler.fromValue input.payload with
  | error message => rfl
  | ok payload =>
    cases entry.handler.decodeCarry input.carry with
    | error message => rfl
    | ok carry =>
      have hsame := h payload ⟨input.id, input.runCount, input.history, carry⟩ history
      simp only [Except.mapError, bind, Except.bind, Except.map, pure, Except.pure] at hsame ⊢
      rw [hsame]
      rfl

/-- What a release of the system writes. -/
theorem Made.release_inv {fl : ℚ → ℚ} {workers : Worker → Prop} {tr : History} {id : Ulid}
    {claimedBy : String} {runNo : Nat} {visibleAt : DateTime} {entry : JournalAppend} {c : Call}
    (h : Made fl workers tr c) (hc : c = .settle id claimedBy runNo (.release visibleAt) entry) :
    entry.runNo = runNo ∧ entry.outcome = .released ∧
      entry.note = some "released by graceful shutdown" ∧ entry.attachment = none := by
  cases h with
  | @settle w r hw hclaim now report =>
    have hrelease : (w.settle fl now (r.finished report)).isRelease = false :=
      Worker.settle_isRelease now _
    rw [hc] at hrelease
    cases hrelease
  | @release w r hw hclaim now =>
    obtain ⟨-, -, rfl, -, rfl⟩ := Call.settle.inj hc
    exact ⟨rfl, rfl, rfl, rfl⟩
  | _ => cases hc

/-- A recovery of the system attaches nothing. -/
theorem Made.recover_attachment {fl : ℚ → ℚ} {workers : Worker → Prop} {tr : History} {id : Ulid}
    {visibleAt : DateTime} {failureCount : Int} {runNo : Nat} {entry : JournalAppend} {c : Call}
    (h : Made fl workers tr c) (hc : c = .recover id visibleAt failureCount runNo entry) :
    entry.attachment = none := by
  cases h with
  | @recover w r hw hstale now =>
    obtain ⟨-, -, -, -, rfl⟩ := Call.recover.inj hc
    rfl
  | _ => cases hc

/-! ### Where a job is -/

/-- A recovery that closed its run replied so. -/
theorem recovered_reply {id id' : Ulid} {env : Env} {visibleAt : DateTime} {failureCount : Int}
    {runNo n : Nat} {entry : JournalAppend} {reply : Except Error Bool}
    (h : Event.mark id ⟨env, .recover id' visibleAt failureCount runNo entry, reply⟩ = .closed n) :
    reply = .ok true := by
  rcases reply with e | _ | _
  · cases h
  · cases h
  · rfl

/-- The job is where its execution is, or in its next run. -/
structure Job.Reached (x : Execution) (p : Progress) (j : Job) : Prop where
  kind : j.row.kind = x.kind
  payload : j.row.payload = x.payload
  carry : j.row.carry = p.carry
  failures : j.row.failureCount = p.failures
  log : j.log.map JournalRecord.conclusion = p.log
  claimed : j.row.status = .claimed → p.status = .pending ∧ j.row.runCount = p.runs + 1
  between : j.row.status ≠ .claimed → j.row.status = p.status ∧ j.row.runCount = p.runs

/-- The workers that claim the job run it as it is to be executed. -/
structure Execution.RunBy (x : Execution) (workers : Worker → Prop) (rt : Runtime)
    (tr : History) : Prop where
  blind : ∀ entry ∈ x.handler, entry.Blind
  handler : ∀ w r, workers w → ClaimedBy tr w r → r.id = x.id → rt.handlers w x.kind = x.handler
  policy : ∀ w r, workers w → ClaimedBy tr w r → r.id = x.id → w.config.panicPolicy = x.panicPolicy
  backstop : ∀ w r, workers w → ClaimedBy tr w r → r.id = x.id → w.config.backstop = x.backstop

/-- The job is enqueued as it is to be executed, and nobody merges into it. -/
structure Execution.Undisturbed (x : Execution) (tr : History) : Prop where
  enqueued : ∀ m ∈ tr, ∀ env new reply, m.label = ⟨env, .enqueue new, reply⟩ → new.id = x.id →
    new.kind = x.kind ∧ new.payload = x.payload ∧ new.carry = x.carry
  unmerged : Unmerged x.id tr

/-- A run happens only to a job that is pending. -/
def Execution.Live (x : Execution) (fs : List Fate) : Prop :=
  ∀ k < fs.length, (x.progress (fs.take k)).status = .pending

section Reached

variable {x : Execution} {p : Progress} {fl : ℚ → ℚ} {workers : Worker → Prop} {rt : Runtime}
  {tr : History} {s s' : PostgresStore} {row : JobRecord} {log : List JournalRecord}

theorem Execution.Live.snoc {fs : List Fate} (h : x.Live fs)
    (hpending : (x.progress fs).status = .pending) (f : Fate) : x.Live (fs ++ [f]) := by
  intro k hk
  rw [List.length_append, List.length_singleton] at hk
  by_cases hlast : k = fs.length
  · rwa [hlast, List.take_left]
  · rw [List.take_append_of_le_length (by omega)]
    exact h k (by omega)

/-- **The run of a claimed record reports what the execution does.** -/
theorem Execution.RunBy.report_eq (hx : x.RunBy workers rt tr) {w : Worker} (hw : workers w)
    {r : JobRecord} (hclaim : ClaimedBy tr w r) (hid : r.id = x.id) (hkind : r.kind = x.kind)
    (hpayload : r.payload = x.payload) (hcarry : r.carry = p.carry)
    (hruns : r.runCount = p.runs + 1) :
    rt.report w r = x.report p := by
  -- the inputs differ in their histories only
  have hinput : rt.input w r =
      { (⟨x.id, x.payload, p.carry, p.runs + 1, [], x.panicPolicy⟩ : RunInput) with
        history := rt.history w r.id r.runCount } := by
    rw [Runtime.input, JobRecord.runInput, hid, hpayload, hcarry, hruns,
      hx.policy w r hw hclaim hid]
  rw [Runtime.report, Execution.report, dispatch, dispatch, hkind,
    hx.handler w r hw hclaim hid, hinput]
  cases hhandler : x.handler with
  | none => rfl
  | some entry => exact (hx.blind entry hhandler).erasedRun _ _

/-- A run that ended one way or the other. -/
theorem Job.Reached.concluded (h : Job.Reached x p ⟨row, log⟩) {row' : JobRecord}
    {e : JournalRecord} {status : Status} {failures : Int} {carry : Value}
    {outcome : JournalOutcome} {note : Option String} {attachment : Option Value}
    (hstatus : row'.status = status) (hended : status ≠ .claimed)
    (hruns : row'.runCount = p.runs + 1) (hfailures : row'.failureCount = failures)
    (hcarry : row'.carry = carry) (hkind : row'.kind = row.kind)
    (hpayload : row'.payload = row.payload)
    (he : e.conclusion = ⟨p.runs + 1, outcome, note, attachment⟩) :
    Job.Reached x (p.concluded status failures carry outcome note attachment)
      ⟨row', log ++ [e]⟩ where
  kind := hkind.trans h.kind
  payload := hpayload.trans h.payload
  carry := hcarry
  failures := hfailures
  log := by
    rw [List.map_append, h.log, List.map_singleton, he]
    rfl
  claimed hclaimed := absurd (hstatus.symm.trans hclaimed) hended
  between _ := ⟨hstatus, hruns⟩

/-- **A settlement brings the job to where its report does.** -/
theorem Job.Reached.settled (h : Job.Reached x p ⟨row, log⟩) (hx : x.RunBy workers rt tr)
    {w : Worker} (hw : workers w) {r : JobRecord} (hclaim : ClaimedBy tr w r)
    {expiry : Option DateTime} (hrow : row = { r with claimExpiresAt := expiry })
    (hid : row.id = x.id) (hclaimed : row.status = .claimed) {now : DateTime} {n : Nat}
    {entry : JournalAppend} {claimedBy : String} {settlement : Settlement}
    (hcall : .settle row.id claimedBy row.runCount settlement entry =
      w.settle fl now (r.finished (rt.report w r))) :
    settlement.fate = .reported ∧ Job.Reached x (x.after p .reported)
      ⟨settlement.set row, log ++ [entry.record row.id n]⟩ := by
  obtain ⟨-, -, -, rfl, rfl⟩ := Call.settle.inj hcall
  obtain ⟨-, hruns⟩ := h.claimed hclaimed
  have hr : r.id = x.id := by rw [← hid, hrow]
  have hreport : rt.report w r = x.report p := by
    refine hx.report_eq hw hclaim hr ?_ ?_ ?_ ?_
    · rw [← h.kind, hrow]
    · rw [← h.payload, hrow]
    · rw [← h.carry, hrow]
    · rw [← hruns, hrow]
  have hcount : r.failureCount = p.failures := by rw [← h.failures, hrow]
  have hno : r.runCount = p.runs + 1 := by rw [← hruns, hrow]
  -- from here on the cases of `settlementOf` are those of `after`
  simp only [JobRecord.finished, Worker.settlementOf, hreport, hcount, hno, Execution.after]
  cases x.report p with
  | error error => exact ⟨rfl, h.concluded rfl (by decide) hruns rfl h.carry rfl rfl rfl⟩
  | ok report =>
    simp only [Worker.settlementFor, Worker.retryOrBackstop, hx.backstop w r hw hclaim hr]
    cases report.result with
    | ok outcome =>
      cases outcome with
      | completed note =>
        exact ⟨rfl, h.concluded rfl (by decide) hruns h.failures h.carry rfl rfl rfl⟩
      | pause resumeIn note =>
        exact ⟨rfl, h.concluded rfl (by decide) hruns h.failures rfl rfl rfl rfl⟩
    | error error =>
      by_cases hpermanent : error.permanent
      · simp only [hpermanent, if_true, true_or]
        exact ⟨rfl, h.concluded rfl (by decide) hruns rfl h.carry rfl rfl rfl⟩
      · by_cases hbackstop : x.backstop.any (· ≤ (saturatingAdd p.failures 1).toNat)
        · simp only [hpermanent, hbackstop, if_true, or_true, Bool.false_eq_true, if_false]
          exact ⟨rfl, h.concluded rfl (by decide) hruns rfl h.carry rfl rfl rfl⟩
        · simp only [hpermanent, hbackstop, or_self, Bool.false_eq_true, if_false]
          exact ⟨rfl, h.concluded rfl (by decide) hruns rfl rfl rfl rfl rfl⟩

/-- A release leaves the job as it was before the run. -/
theorem Job.Reached.released (h : Job.Reached x p ⟨row, log⟩) (hclaimed : row.status = .claimed)
    {visibleAt : DateTime} {n : Nat} {entry : JournalAppend} (hno : entry.runNo = row.runCount)
    (houtcome : entry.outcome = .released)
    (hnote : entry.note = some "released by graceful shutdown")
    (hattachment : entry.attachment = none) :
    Job.Reached x (x.after p .released)
      ⟨(Settlement.release visibleAt).set row, log ++ [entry.record row.id n]⟩ := by
  have hruns : row.runCount = p.runs + 1 := (h.claimed hclaimed).2
  refine h.concluded rfl (by decide) hruns h.failures h.carry rfl rfl ?_
  simp [JournalRecord.conclusion, JournalAppend.record, hno, hruns, houtcome, hnote, hattachment]

/-- A recovery counts a failure. -/
theorem Job.Reached.recovered (h : Job.Reached x p ⟨row, log⟩) (hclaimed : row.status = .claimed)
    {visibleAt : DateTime} {failureCount : Int} {n : Nat} {entry : JournalAppend}
    (hcount : failureCount = saturatingAdd row.failureCount 1) (hno : entry.runNo = row.runCount)
    (houtcome : entry.outcome = .staleRecovered) (hattachment : entry.attachment = none) :
    Job.Reached x (x.after p .recovered)
      ⟨row.repend visibleAt failureCount, log ++ [entry.record row.id n]⟩ := by
  have hruns : row.runCount = p.runs + 1 := (h.claimed hclaimed).2
  refine h.concluded rfl (by decide) hruns (by rw [← h.failures, ← hcount]; rfl) h.carry rfl rfl ?_
  simp [JournalRecord.conclusion, JournalAppend.record, hno, hruns, houtcome, hattachment]

/-- The job is where its fates bring it, and was pending before each of them. -/
structure Execution.Follows (x : Execution) (fs : List Fate) (job : Option Job) : Prop where
  live : x.Live fs
  reached : ∀ j ∈ job, Job.Reached x (x.progress fs) j

/-- A claim begins the next run. -/
theorem Job.Reached.claim (h : Job.Reached x p ⟨row, log⟩) (hpending : row.status = .pending)
    (claimedBy : String) (expires : DateTime) :
    Job.Reached x p ⟨row.claim claimedBy expires, log⟩ := by
  obtain ⟨hstatus, hruns⟩ := h.between (by simp [hpending])
  refine ⟨h.kind, h.payload, h.carry, h.failures, h.log, fun _ => ?_, fun hne => absurd rfl hne⟩
  exact ⟨hstatus.symm.trans hpending, congrArg (· + 1) hruns⟩

/-- A step that decides no fate leaves a job as far as its execution. -/
theorem Execution.Follows.quiet {fs : List Fate} {fate? : Option Fate} {j j' : Job}
    (h : x.Follows fs (some j)) (hfate : fate? = none) (hj : Job.Reached x (x.progress fs) j') :
    x.Follows (fs ++ fate?.toList) (some j') := by
  subst hfate
  rw [Option.toList_none, List.append_nil]
  refine ⟨h.live, ?_⟩
  rintro _ ⟨⟩
  exact hj

/-- Only a claimed job meets a fate. -/
theorem Execution.Follows.fate {fs : List Fate} {fate? : Option Fate} {f : Fate} {j j' : Job}
    (h : x.Follows fs (some j)) (hfate : fate? = some f) (hclaimed : j.row.status = .claimed)
    (hj : Job.Reached x (x.after (x.progress fs) f) j') :
    x.Follows (fs ++ fate?.toList) (some j') := by
  subst hfate
  rw [Option.toList_some]
  refine ⟨h.live.snoc ((h.reached j rfl).claimed hclaimed).1 f, ?_⟩
  rintro _ ⟨⟩
  rwa [Execution.progress_snoc]

/-- An insert of the job, whose id is new. -/
theorem Execution.Follows.enqueue {env : Env} {new : NewJob} {reply : Except Error Unit}
    (hepochs : Epochs x.id tr (s.view x.id)) (hid : new.id = x.id)
    (hfresh : FreshIds (tr ++ [⟨s, ⟨env, .enqueue new, reply⟩, s'⟩]))
    (hu : x.Undisturbed (tr ++ [⟨s, ⟨env, .enqueue new, reply⟩, s'⟩])) :
    x.Follows (fates x.id tr) (some ⟨new.record, []⟩) := by
  have hunborn := hepochs.unborn (hfresh.not_mem (congrArg some hid))
  have hnone : fates x.id tr = [] := by
    rw [List.eq_nil_iff_forall_not_mem]
    intro f hf
    obtain ⟨m, hm, hfate⟩ := List.mem_filterMap.mp hf
    obtain ⟨n, hclosed⟩ := closed_of_fate hfate
    have hmem : n ∈ closings x.id tr := List.mem_filterMap.mpr ⟨m, hm, by rw [hclosed]; rfl⟩
    rw [hunborn.2.2] at hmem
    exact List.not_mem_nil hmem
  have hmem : (⟨s, ⟨env, .enqueue new, reply⟩, s'⟩ : Trace.Move PostgresStore Event) ∈
      tr ++ [⟨s, ⟨env, .enqueue new, reply⟩, s'⟩] := by simp
  obtain ⟨hkind, hpayload, hcarry⟩ := hu.enqueued _ hmem env new reply rfl hid
  rw [hnone]
  refine ⟨fun k hk => absurd hk (Nat.not_lt_zero k), ?_⟩
  rintro _ ⟨⟩
  exact ⟨hkind, hpayload, hcarry, rfl, rfl, nofun, fun _ => ⟨rfl, rfl⟩⟩

/-- **One step.** -/
theorem Execution.Follows.step {e : Event} (h : x.Follows (fates x.id tr) (s.view x.id))
    (hrun : PostgresStore.Run tr s) (hs : s.Step e s') (hmade : Made fl workers tr e.call)
    (hsettles : rt.Settles fl workers tr e.call) (hx : x.RunBy workers rt tr)
    (hfresh : FreshIds (tr ++ [⟨s, e, s'⟩])) (hu : x.Undisturbed (tr ++ [⟨s, e, s'⟩])) :
    x.Follows (fates x.id (tr ++ [⟨s, e, s'⟩])) (s'.view x.id) := by
  rw [fates_snoc]
  show x.Follows (fates x.id tr ++ (e.fate? x.id).toList) _
  rcases exec_view hs x.id with ⟨hview, hquiet⟩ | hstep
  · rw [hview, fate_of_quiet hquiet]
    simpa using h
  · obtain ⟨env, c, reply⟩ := e
    have hfresh' : FreshIds tr := hfresh.of_append
    have hepochs := epochs_of_run hrun hfresh' x.id
    generalize hmark : Event.mark x.id ⟨env, c, reply⟩ = mark at hstep
    generalize hjob : s.view x.id = job at hstep h
    generalize hjob' : s'.view x.id = job' at hstep
    cases hstep with
    | @enqueue new =>
      obtain ⟨env', new', he, hid⟩ := opened_inv hmark
      cases he
      have hfollows := Execution.Follows.enqueue hepochs hid hfresh hu
      exact hfollows.quiet rfl (hfollows.reached _ rfl)
    | claim heligible =>
      have hpending := (JobRecord.eligible_iff.mp heligible).1
      exact h.quiet rfl ((h.reached _ rfl).claim hpending _ _)
    | extendLease =>
      obtain ⟨hkind, hpayload, hcarry, hfailures, hlog, hclaimed, hbetween⟩ := h.reached _ rfl
      exact h.quiet rfl ⟨hkind, hpayload, hcarry, hfailures, hlog, hclaimed, hbetween⟩
    | @cleanup criteria row log hmatches =>
      have hnone : Event.fate? x.id ⟨env, .cleanup criteria, reply⟩ = none := rfl
      rw [hnone, Option.toList_none, List.append_nil]
      exact ⟨h.live, by simp⟩
    | @merge update entry row log n hpending =>
      -- the job is not merged into
      obtain hid : row.id = x.id := view_id hjob
      rw [hid] at hs hu
      have hlast : Unmerged x.id [⟨s, ⟨env, .mergeInto x.id update entry, reply⟩, s'⟩] :=
        fun m hm => hu.unmerged m (List.mem_append_right _ hm)
      have hsame := hlast.view_eq hs
      simp [hjob, hjob'] at hsame
    | @recover visibleAt failureCount entry row log n hstale =>
      obtain hid : row.id = x.id := view_id hjob
      obtain rfl := recovered_reply hmark
      obtain ⟨hclaimed, -⟩ := JobRecord.stale_iff.mp hstale
      have hview : s.view row.id = some ⟨row, log⟩ := by rw [hid, hjob]
      obtain ⟨hno, houtcome, hcount⟩ :=
        hmade.soundFor hrun hfresh' hview (Job.Step.recover (n := n) hstale)
      have hattachment : entry.attachment = none := hmade.recover_attachment rfl
      refine h.fate (f := .recovered) (by simp [Event.fate?, hid]) hclaimed ?_
      exact (h.reached _ rfl).recovered hclaimed hcount hno houtcome hattachment
    | @settle claimedBy settlement entry row log n howned =>
      obtain hid : row.id = x.id := view_id hjob
      obtain rfl := settled_reply (hid.symm ▸ hmark)
      have hclaimed : row.status = .claimed := (JobRecord.owned_iff.mp howned).2.2.2
      refine h.fate (f := settlement.fate) (by simp [Event.fate?, hid]) hclaimed ?_
      rcases hsettles _ _ _ _ _ rfl with ⟨visibleAt, rfl⟩ | ⟨w, r, now', hw, hclaim, hcall⟩
      · obtain ⟨hno, houtcome, hnote, hattachment⟩ := hmade.release_inv rfl
        exact (h.reached _ rfl).released hclaimed hno houtcome hnote hattachment
      · -- the claim is current, so the report is of the row as it is
        have hr : row.id = r.id := (Call.settle.inj hcall).1
        have hruns : row.runCount = r.runCount := (Call.settle.inj hcall).2.2.1
        have hview : s.view r.id = some ⟨row, log⟩ := by rw [← hr, hid, hjob]
        obtain ⟨expiry, hrow⟩ :=
          (hclaim.snapshot hrun hfresh' _ hview).2 hclaimed hruns
        obtain ⟨hfate, hsettled⟩ :=
          (h.reached _ rfl).settled hx hw hclaim hrow hid hclaimed (n := n) hcall
        rw [hfate]
        exact hsettled

theorem Execution.RunBy.of_append {tr' : History} (h : x.RunBy workers rt (tr ++ tr')) :
    x.RunBy workers rt tr where
  blind := h.blind
  handler w r hw hclaim := h.handler w r hw hclaim.append
  policy w r hw hclaim := h.policy w r hw hclaim.append
  backstop w r hw hclaim := h.backstop w r hw hclaim.append

theorem Execution.Undisturbed.of_append {tr' : History} (h : x.Undisturbed (tr ++ tr')) :
    x.Undisturbed tr where
  enqueued m hm := h.enqueued m (List.mem_append_left _ hm)
  unmerged m hm := h.unmerged m (List.mem_append_left _ hm)

end Reached

/-! ### Fleets -/

/-- How far a job is; a claimed one as it was before the claim. -/
def Job.progress (j : Job) : Progress where
  status := if j.row.status = .claimed then .pending else j.row.status
  runs := if j.row.status = .claimed then j.row.runCount - 1 else j.row.runCount
  failures := j.row.failureCount
  carry := j.row.carry
  log := j.log.map JournalRecord.conclusion

section Fleets

variable {x : Execution} {fl fl' : ℚ → ℚ} {workers workers' : Worker → Prop} {rt rt' : Runtime}
  {tr tr' : History} {s s' : PostgresStore} {j j' : Job}

end Fleets

/-! ### A sample agreement -/

end Venturi
