import Venturi.Worker.Custody
import Venturi.Worker.Slots
import Venturi.Worker.Verdict

namespace Venturi

open Collections

/-!
# Panics under unwinding (`worker/registry.rs`, `worker/mod.rs`)

The run of a handler whose user code may panic wherever it is called.  The run guards one of
these calls, the polling of the future that `handle` returned.

* `UserHandler.run` — `erased_run` again, every call of user code either coming back or unwinding;
  over code that never unwinds it is `erasedRun` (`Handler.user_run`).
* `UserHandler.PanicsAt` — a panic on the way of a run, at one of six sites.
* `Worker.Isolates` — the run completes with a value, and a panic on its way is settled by the
  panic policy.
* `RunTask.EndsAs` — a task returns what its run completes with, and fails when its run unwinds
  or when it is aborted.
* `panics_isolated` — both levels: one run, and every join of every run of the loop.
-/

/-! ### User code -/

/-- The payload of a panic: its message, if it is a string. -/
abbrev Panic := Option String

/-- What a call of user code comes to: a value, or an unwinding panic. -/
abbrev Unwinding := Except Panic

/-- `Handler`, as its implementation for the payload type `T`, under unwinding.  The call of
    `handle` makes a future, and what that comes to when it is polled is its `Handled`. -/
structure UserHandler (T Carry : Type) where
  fromValue : Value → Unwinding (Except String T)
  carryFromValue : Value → Unwinding (Except String Carry)
  carryDefault : Unwinding Carry
  carryToValue : Carry → Unwinding (Except String Value)
  backoff : T → Unwinding (Option Backoff)
  handle : T → Context Carry → Unwinding (Handled Carry)

/-- A handler with its types erased. -/
structure AnyUserHandler where
  {T : Type}
  {Carry : Type}
  handler : UserHandler T Carry

namespace UserHandler

variable {T Carry : Type} (h : UserHandler T Carry) (input : RunInput)

/-- `if carry.is_null() { Default } else { from_value(carry)? }`. -/
def decodeCarry (carry : Value) : Unwinding (Except String Carry) :=
  if carry.isNull then h.carryDefault.map .ok else h.carryFromValue carry

/-- The report of a run whose caught future came to this. -/
def report (backoff : Option Backoff) : Handled Carry → Unwinding (Except Error RunReport)
  | .returned result carry attachment => do
    match ← h.carryToValue carry with
    | .ok carry => return .ok ⟨result, carry, backoff, attachment⟩
    | .error error => return .ok ⟨.error (unencodable error), .null, backoff, attachment⟩
  | .panicked message =>
    let error := input.panicPolicy.failure (panicMessage message)
    return .ok ⟨.error error, input.carry, backoff, none⟩

/-- `erased_run`, under unwinding. -/
def run : Unwinding (Except Error RunReport) := do
  match ← h.fromValue input.payload with
  | .error error => return .error (.serialization error)
  | .ok payload =>
    match ← h.decodeCarry input.carry with
    | .error error => return .error (.serialization error)
    | .ok carry =>
      -- only the future is inside `catch_unwind`, not the call that makes it
      let caught ← h.handle payload ⟨input.id, input.runCount, input.history, carry⟩
      let backoff ← h.backoff payload
      h.report input backoff caught

end UserHandler

/-- User code that never unwinds, but in the future of `handle`. -/
def Handler.user {T Carry : Type} (h : Handler T Carry) : UserHandler T Carry where
  fromValue value := .ok (h.fromValue value)
  carryFromValue value := .ok (h.carryFromValue value)
  carryDefault := .ok h.carryDefault
  carryToValue carry := .ok (h.carryToValue carry)
  backoff payload := .ok (h.backoff payload)
  handle payload ctx := .ok (h.handle payload ctx)

/-- Where nothing panics the carry decodes as it does for the handler. -/
theorem Handler.user_decodeCarry {T Carry : Type} (h : Handler T Carry) (carry : Value) :
    h.user.decodeCarry carry = .ok (h.decodeCarry carry) := by
  unfold UserHandler.decodeCarry Task.decodeCarry
  split <;> rfl

/-- **Its run is the erased run.** -/
theorem Handler.user_run {T Carry : Type} (h : Handler T Carry) (input : RunInput) :
    h.user.run input = .ok (erasedRun h input) := by
  rw [erasedRun_eq, context]
  simp only [UserHandler.run, user_decodeCarry]
  simp only [user, bind, Except.bind]
  cases h.fromValue input.payload with
  | error error => rfl
  | ok payload =>
    cases h.decodeCarry input.carry with
    | error error => rfl
    | ok carry =>
      simp only [Except.mapError, Except.map, pure, Except.pure]
      cases h.handle payload ⟨input.id, input.runCount, input.history, carry⟩ with
      | panicked message => rfl
      | returned result after attachment =>
        simp only [UserHandler.report, conclude, bind, Except.bind]
        cases h.carryToValue after <;> rfl

/-! ### The sites of a panic -/

/-- Where a run calls user code. -/
inductive PanicSite where
  /-- `Deserialize` of the payload. -/
  | payload
  /-- `Deserialize` of the carry, or `Carry::default`. -/
  | carry
  /-- The call of `handle`. -/
  | call
  /-- The future of `handle`. -/
  | future
  /-- `Task::backoff`. -/
  | backoff
  /-- `Serialize` of the carry. -/
  | encoding
  deriving DecidableEq

namespace UserHandler

variable {T Carry : Type} (h : UserHandler T Carry) (input : RunInput)

/-- The run gets to the call of `handle`, with this payload and context. -/
structure Calls (payload : T) (ctx : Context Carry) : Prop where
  payload : h.fromValue input.payload = .ok (.ok payload)
  carry : h.decodeCarry input.carry = .ok (.ok ctx.carry)
  ctx : ctx = ⟨input.id, input.runCount, input.history, ctx.carry⟩

/-- User code panics on the way of the run. -/
inductive PanicsAt : PanicSite → Panic → Prop
  | payload {p : Panic} (h0 : h.fromValue input.payload = .error p) : PanicsAt .payload p
  | carry {payload : T} {p : Panic} (hpayload : h.fromValue input.payload = .ok (.ok payload))
      (h0 : h.decodeCarry input.carry = .error p) : PanicsAt .carry p
  | call {payload : T} {ctx : Context Carry} {p : Panic} (hcalls : h.Calls input payload ctx)
      (h0 : h.handle payload ctx = .error p) : PanicsAt .call p
  | future {payload : T} {ctx : Context Carry} {p : Panic} (hcalls : h.Calls input payload ctx)
      (h0 : h.handle payload ctx = .ok (.panicked p)) : PanicsAt .future p
  | backoff {payload : T} {ctx : Context Carry} {handled : Handled Carry} {p : Panic}
      (hcalls : h.Calls input payload ctx) (hhandle : h.handle payload ctx = .ok handled)
      (h0 : h.backoff payload = .error p) : PanicsAt .backoff p
  | encoding {payload : T} {ctx : Context Carry} {result : Except TaskError Outcome}
      {after : Carry} {attachment : Option Value} {backoff : Option Backoff} {p : Panic}
      (hcalls : h.Calls input payload ctx)
      (hhandle : h.handle payload ctx = .ok (.returned result after attachment))
      (hbackoff : h.backoff payload = .ok backoff)
      (h0 : h.carryToValue after = .error p) : PanicsAt .encoding p

variable {h input}

/-- From the call of `handle` on. -/
theorem Calls.run_eq {payload : T} {ctx : Context Carry} (hcalls : h.Calls input payload ctx) :
    h.run input = h.handle payload ctx >>= fun caught =>
      h.backoff payload >>= fun backoff => h.report input backoff caught := by
  rw [hcalls.ctx, run, hcalls.payload]
  simp only [bind, Except.bind, hcalls.carry]

/-- **Only the future of `handle` is guarded**: a panic anywhere else unwinds through the run. -/
theorem PanicsAt.run_eq {site : PanicSite} {p : Panic} (hpanics : h.PanicsAt input site p)
    (hsite : site ≠ .future) : h.run input = .error p := by
  cases hpanics with
  | payload h0 => rw [run, h0]; rfl
  | carry hpayload h0 =>
    rw [run, hpayload]
    simp only [bind, Except.bind, h0]
  | call hcalls h0 => rw [hcalls.run_eq, h0]; rfl
  | future => exact absurd rfl hsite
  | backoff hcalls hhandle h0 => rw [hcalls.run_eq, hhandle, h0]; rfl
  | encoding hcalls hhandle hbackoff h0 =>
    rw [hcalls.run_eq, hhandle, hbackoff]
    simp only [bind, Except.bind, report, h0]

/-- Past the call of `handle`, a run unwinds from the last three sites or from that call. -/
theorem Calls.panicsAt {payload : T} {ctx : Context Carry} (hcalls : h.Calls input payload ctx)
    {p : Panic} (hrun : h.run input = .error p) :
    ∃ site, site ≠ .future ∧ h.PanicsAt input site p := by
  rw [hcalls.run_eq] at hrun
  cases hhandle : h.handle payload ctx with
  | error p' =>
    rw [hhandle] at hrun
    obtain rfl := Except.error.inj hrun
    exact ⟨.call, by decide, .call hcalls hhandle⟩
  | ok handled =>
    cases hbackoff : h.backoff payload with
    | error p' =>
      rw [hhandle, hbackoff] at hrun
      obtain rfl := Except.error.inj hrun
      exact ⟨.backoff, by decide, .backoff hcalls hhandle hbackoff⟩
    | ok backoff =>
      rw [hhandle, hbackoff] at hrun
      simp only [bind, Except.bind] at hrun
      cases handled with
      | panicked message => cases hrun
      | returned result after attachment =>
        cases hvalue : h.carryToValue after with
        | error p' =>
          rw [report, hvalue] at hrun
          obtain rfl := Except.error.inj hrun
          exact ⟨.encoding, by decide, .encoding hcalls hhandle hbackoff hvalue⟩
        | ok encoded =>
          rw [report, hvalue] at hrun
          cases encoded <;> cases hrun

/-- A run that unwinds does so from one of these sites. -/
theorem panicsAt_of_run {p : Panic} (hrun : h.run input = .error p) :
    ∃ site, site ≠ .future ∧ h.PanicsAt input site p := by
  cases hpayload : h.fromValue input.payload with
  | error p' =>
    rw [run, hpayload] at hrun
    obtain rfl := Except.error.inj hrun
    exact ⟨.payload, by decide, .payload hpayload⟩
  | ok decoded =>
    cases decoded with
    | error error =>
      rw [run, hpayload] at hrun
      cases hrun
    | ok payload =>
      cases hcarry : h.decodeCarry input.carry with
      | error p' =>
        rw [run, hpayload] at hrun
        simp only [bind, Except.bind, hcarry] at hrun
        obtain rfl := Except.error.inj hrun
        exact ⟨.carry, by decide, .carry hpayload hcarry⟩
      | ok decoded =>
        cases decoded with
        | error error =>
          rw [run, hpayload] at hrun
          simp only [bind, Except.bind, hcarry] at hrun
          cases hrun
        | ok carry =>
          have hcalls : h.Calls input payload ⟨input.id, input.runCount, input.history, carry⟩ :=
            ⟨hpayload, hcarry, rfl⟩
          exact hcalls.panicsAt hrun

/-- A run that completes past a panicking future reports the failure of the panic policy. -/
theorem run_of_future {p : Panic} (hpanics : h.PanicsAt input .future p)
    {value : Except Error RunReport} (hrun : h.run input = .ok value) :
    ∃ backoff, value =
      .ok ⟨.error (input.panicPolicy.failure (panicMessage p)), input.carry, backoff, none⟩ := by
  cases hpanics with
  | @future payload ctx _ hcalls h0 =>
    rw [hcalls.run_eq, h0] at hrun
    cases hbackoff : h.backoff payload with
    | error p' =>
      rw [hbackoff] at hrun
      cases hrun
    | ok backoff =>
      rw [hbackoff] at hrun
      exact ⟨backoff, (Except.ok.inj hrun).symm⟩

end UserHandler

/-! ### Isolation -/

/-- The run of a claimed record completes with a value, and the worker settles a panic on its
    way as the failure its policy names: retried, or dead if that is the policy or the backstop
    is reached. -/
def Worker.Isolates {T Carry : Type} (fl : ℚ → ℚ) (w : Worker) (h : UserHandler T Carry)
    (r : JobRecord) (history : List JournalEntry) : Prop :=
  ∃ value, h.run (r.runInput w.config.panicPolicy history) = .ok value ∧
    ∀ site p, h.PanicsAt (r.runInput w.config.panicPolicy history) site p →
      ∀ now, w.Records fl now r value (w.config.panicPolicy.failure (panicMessage p))

/-- No user code panics on the way of the run but the future of `handle`. -/
def UserHandler.Guarded {T Carry : Type} (h : UserHandler T Carry) (input : RunInput) : Prop :=
  ∀ site p, h.PanicsAt input site p → site = .future

/-- **A run is isolated exactly when its panics are guarded.** -/
theorem isolates_iff {T Carry : Type} {fl : ℚ → ℚ} {w : Worker} {h : UserHandler T Carry}
    {r : JobRecord} {history : List JournalEntry} :
    w.Isolates fl h r history ↔ h.Guarded (r.runInput w.config.panicPolicy history) := by
  constructor
  · rintro ⟨value, hrun, -⟩ site p hpanics
    by_contra hsite
    rw [hpanics.run_eq hsite] at hrun
    cases hrun
  · intro hguarded
    cases hrun : h.run (r.runInput w.config.panicPolicy history) with
    | error p =>
      obtain ⟨site, hsite, hpanics⟩ := UserHandler.panicsAt_of_run hrun
      exact absurd (hguarded site p hpanics) hsite
    | ok value =>
      refine ⟨value, hrun, fun site p hpanics now => ?_⟩
      obtain rfl := hguarded site p hpanics
      obtain ⟨backoff, rfl⟩ := UserHandler.run_of_future hpanics hrun
      exact (records_iff rfl).mpr ⟨rfl, Iff.rfl⟩

/-! ### The loop -/

/-- `Registry::dispatch`, and the run it builds, under unwinding. -/
def userDispatch (users : String → Option AnyUserHandler) (kind : String) (input : RunInput) :
    Unwinding (Except Error RunReport) :=
  match users kind with
  | some entry => entry.handler.run input
  | none => .ok (.error (.unknownKind kind))

section Ends

variable (users : TaskId → String → Option AnyUserHandler) (policy : PanicPolicy) (id : TaskId)
  (task : RunTask)

/-- What a task comes to; user code may behave otherwise in every task. -/
def RunTask.run : Unwinding (Except Error RunReport) :=
  userDispatch (users id) task.job.kind (task.job.runInput policy task.history)

/-- User code panics on the way of the task. -/
def RunTask.PanicsAt (site : PanicSite) (p : Panic) : Prop :=
  ∃ entry, users id task.job.kind = some entry ∧
    entry.handler.PanicsAt (task.job.runInput policy task.history) site p

/-- No user code panics on the way of the task but the future of `handle`. -/
def RunTask.Guarded : Prop := ∀ site p, task.PanicsAt users policy id site p → site = .future

/-- How a task ends: its run completed or unwound, or `force_finish` aborted it. -/
inductive RunTask.EndsAs (aborted : Bool) : TaskResult → Prop
  | completed {report : Except Error RunReport} (h : task.run users policy id = .ok report) :
      EndsAs aborted (.returned report)
  | unwound {p : Panic} (h : task.run users policy id = .error p) : EndsAs aborted .failed
  | aborted (h : aborted = true) : EndsAs aborted .failed

variable {users policy id task}

/-- A guarded task whose run unwinds: there is none. -/
theorem RunTask.Guarded.run_ne {p : Panic} (h : task.Guarded users policy id) :
    task.run users policy id ≠ .error p := by
  intro hrun
  unfold run userDispatch at hrun
  cases hentry : users id task.job.kind with
  | none =>
    rw [hentry] at hrun
    cases hrun
  | some entry =>
    rw [hentry] at hrun
    obtain ⟨site, hsite, hpanics⟩ := UserHandler.panicsAt_of_run hrun
    exact hsite (h site p ⟨entry, hentry, hpanics⟩)

/-- The value of a task, settled: a panic on its way is the failure its policy names. -/
theorem RunTask.Guarded.records {fl : ℚ → ℚ} {w : Worker} {report : Except Error RunReport}
    (h : task.Guarded users w.config.panicPolicy id)
    (hrun : task.run users w.config.panicPolicy id = .ok report) {site : PanicSite} {p : Panic}
    (hpanics : task.PanicsAt users w.config.panicPolicy id site p) (now : DateTime) :
    w.Records fl now task.job report (w.config.panicPolicy.failure (panicMessage p)) := by
  obtain ⟨entry, hentry, hsite⟩ := hpanics
  have hguarded : entry.handler.Guarded (task.job.runInput w.config.panicPolicy task.history) :=
    fun site' p' h' => h site' p' ⟨entry, hentry, h'⟩
  have hisolates : w.Isolates fl entry.handler task.job task.history := isolates_iff.mpr hguarded
  obtain ⟨value, hvalue, hrecords⟩ := hisolates
  rw [run, userDispatch, hentry] at hrun
  obtain rfl := Except.ok.inj (hvalue.symm.trans hrun)
  exact hrecords site p hsite now

end Ends

section Run

variable (users : TaskId → String → Option AnyUserHandler) (policy : PanicPolicy)

/-- A task that ends is guarded, and ends as its run does or because it was aborted. -/
def Loop.Contains (st : Loop) : LoopLabel → Prop
  | .ended id _ result => ∀ task, st.running.lookup id = some task →
      task.Guarded users policy id ∧
        task.EndsAs users policy id st.custody.hand.aborted result
  | _ => True

/-- Every ended task is guarded and returned the value of its run, or failed past the abort. -/
def Custody.Isolated (x : Custody) : Prop :=
  ∀ id task, x.running.lookup id = some task → ∀ result, task.result = some result →
    task.Guarded users policy id ∧
      match result with
      | .returned report => task.run users policy id = .ok report
      | .failed => x.hand.aborted = true

variable {users policy} {fl : ℚ → ℚ} {registry : Registry} {w : Worker}

/-- **One step keeps the ended tasks isolated.** -/
theorem Custody.Isolated.step {x x' : Custody} {label : LoopLabel} (h : x.Isolated users policy)
    (hs : Custody.Step fl w x label x')
    (hended : ∀ id job result, label = .ended id job result → ∀ task,
      x.running.lookup id = some task → task.Guarded users policy id ∧
        task.EndsAs users policy id x.hand.aborted result) : x'.Isolated users policy := by
  cases hs with
  | quiet | claim | settle | release => exact h
  | abort =>
    intro id task htask result hresult
    obtain ⟨hguarded, hisolated⟩ := h id task htask result hresult
    refine ⟨hguarded, ?_⟩
    cases result with
    | returned report => exact hisolated
    | failed => rfl
  | spawn hnew =>
    intro id' task htask result hresult
    rcases Map.lookup_of_insert htask with ⟨rfl, rfl⟩ | ⟨-, hold⟩
    · cases hresult
    · exact h id' task hold result hresult
  | @ended hand running inflight id task htask hrunning result =>
    intro id' task' htask' result' hresult'
    rcases Map.lookup_of_insert htask' with ⟨rfl, rfl⟩ | ⟨-, hold⟩
    · -- the task that ends is of the run's making, or aborted
      obtain rfl := Option.some.inj hresult'
      obtain ⟨hguarded, hends⟩ := hended _ _ _ rfl task htask
      refine ⟨hguarded, ?_⟩
      cases hends with
      | completed hrun => exact hrun
      | unwound hrun => exact absurd hrun hguarded.run_ne
      | aborted haborted => exact haborted
    · exact h id' task' hold result' hresult'
  | join | drop | leave =>
    intro id' task' htask' result' hresult'
    exact h id' task' (Map.lookup_of_erase htask').2 result' hresult'
  | strand =>
    intro id' task' htask' result' hresult'
    exact h id' task' htask' result' hresult'

/-- Every reachable state of a loop whose tasks are contained is isolated. -/
theorem isolated_of_run {tr : List (Trace.Move Loop LoopLabel)} {st : Loop}
    (h : LoopRun fl registry w tr st)
    (hcontains : ∀ m ∈ tr, m.before.Contains users policy m.label) :
    st.custody.Isolated users policy := by
  refine Trace.Run.invariant (I := fun tr st => (∀ m ∈ tr, m.before.Contains users policy m.label) →
    st.custody.Isolated users policy) ?_ ?_ h hcontains
  · intro _ id task htask
    cases htask
  · intro tr st label st' _ hI hs hcontains
    have hbefore := hI (fun m hm => hcontains m (List.mem_append_left _ hm))
    refine hbefore.step hs.1.custody ?_
    rintro id job result rfl
    exact hcontains ⟨st, .ended id job result, st'⟩ (by simp)

/-- What a join comes to: the value of the run is what the worker settles next, and a panic on
    its way is settled by the panic policy; or `force_finish` joins a task it has aborted. -/
def Loop.JoinIsolated (fl : ℚ → ℚ) (w : Worker) (users : TaskId → String → Option AnyUserHandler)
    (st : Loop) (id : TaskId) (st' : Loop) : Prop :=
  ∃ task, st.running.lookup id = some task ∧
    ((∃ report stage, st'.phase = .settling (task.job.finished report) stage ∧
        task.run users w.config.panicPolicy id = .ok report ∧
        ∀ site p, task.PanicsAt users w.config.panicPolicy id site p → ∀ now,
          w.Records fl now task.job report (w.config.panicPolicy.failure (panicMessage p))) ∨
      st.phase = .forcing ∧ task.result = some .failed)

/-- A join in an isolated state. -/
theorem Loop.Step.joinIsolated {st st' : Loop} {id : TaskId}
    (hs : Loop.Step fl registry w st (.joined id) st')
    (h : st.custody.Isolated users w.config.panicPolicy) : st.JoinIsolated fl w users id st' := by
  cases hs with
  | @reapRun stage _ job history report _ htask =>
    obtain ⟨hguarded, hrun⟩ := h id _ htask _ rfl
    exact ⟨_, htask, .inl ⟨report, stage, rfl, hrun, fun _ _ => hguarded.records hrun⟩⟩
  | forceRun _ htask =>
    obtain ⟨hguarded, hrun⟩ := h id _ htask _ rfl
    exact ⟨_, htask, .inl ⟨_, .forcing, rfl, hrun, fun _ _ => hguarded.records hrun⟩⟩
  | forceFailed hphase htask => exact ⟨_, htask, .inr ⟨hphase, rfl⟩⟩
  | reapFailed hphase htask =>
    -- `reap` joins before the abort
    obtain ⟨-, haborted⟩ := h id _ htask _ rfl
    exfalso
    rcases hphase with ⟨-, _, hphase⟩ | ⟨-, hphase⟩ <;>
      simp [Loop.custody, hphase, Phase.hand, Hand.aborted] at haborted

end Run

/-- **Panics are isolated where they are guarded.** A run completes, and its panic is settled by
    the panic policy, exactly if no user code panics but the future of `handle`; and in every run
    of the loop whose tasks are so, every join settles the value of the task's run next, or is
    of a task that `force_finish` aborted. -/
theorem panics_isolated (fl : ℚ → ℚ) (w : Worker) :
    (∀ (T Carry : Type) (h : UserHandler T Carry) (r : JobRecord) (history : List JournalEntry),
      w.Isolates fl h r history ↔ h.Guarded (r.runInput w.config.panicPolicy history)) ∧
    ∀ registry users tr st, LoopRun fl registry w tr st →
      (∀ m ∈ tr, m.before.Contains users w.config.panicPolicy m.label) →
      ∀ m ∈ tr, ∀ id, m.label = .joined id → m.before.JoinIsolated fl w users id m.after := by
  refine ⟨fun T Carry h r history => isolates_iff, ?_⟩
  intro registry users tr st hrun hcontains m hm id hlabel
  obtain ⟨tr₁, tr₂, rfl⟩ := List.append_of_mem hm
  obtain ⟨hbefore, ⟨hs, -⟩, -⟩ := hrun.split
  rw [hlabel] at hs
  exact hs.joinIsolated
    (isolated_of_run hbefore (fun m' hm' => hcontains m' (List.mem_append_left _ hm')))

/-! ### A panicking handler -/

/-- A handler whose future panics. -/
def samplePanicking : UserHandler Value Value :=
  { sampleHandler.user with handle := fun _ _ => .ok (.panicked (some "boom")) }

/-- It is registered for every kind. -/
def sampleUsers (_ : TaskId) (_ : String) : Option AnyUserHandler := some ⟨samplePanicking⟩

/-- The report of its run. -/
def sampleCaught : RunReport := ⟨.error ⟨false, "handler panicked: boom"⟩, .null, none, none⟩

/-- The sample worker at its `select!`, the sample job in flight, … -/
def sampleParked : Loop :=
  { sampleBusy with phase := .waiting (sampleWorker.waitDuration 0 (.ok none)) }

/-- … whose task has come back, … -/
def sampleReturned : Loop :=
  sampleParked.finish 7 ⟨sampleRow, [], none⟩ (.returned (.ok sampleCaught))

/-- … and is joined. -/
def sampleReaped : Loop :=
  ((sampleReturned.join 7).reap 7).goto (.settling (sampleRow.finished (.ok sampleCaught)) .looping)

/-- The sample task, whose handler panics, is guarded. -/
theorem samplePanicking_guarded :
    RunTask.Guarded sampleUsers .retry 7 ⟨sampleRow, [], none⟩ := by
  rintro site p ⟨entry, hentry, hpanics⟩
  obtain rfl := Option.some.inj hentry
  cases hpanics with
  | future => rfl
  | payload h0 => cases h0
  | carry hpayload h0 => cases h0
  | call hcalls h0 => cases h0
  | backoff hcalls hhandle h0 => cases h0
  | encoding hcalls hhandle hbackoff h0 => cases h0

/-- The worker spawns the sample job, its task comes back and is joined. -/
theorem sampleReaped_run : ∃ tr, LoopRun id sampleRegistry sampleWorker
      (tr ++ [⟨sampleReturned, .joined 7, sampleReaped⟩]) sampleReaped ∧
    ∀ m ∈ tr ++ [⟨sampleReturned, .joined 7, sampleReaped⟩],
      m.before.Contains sampleUsers .retry m.label := by
  have hclaimed : "feed" ∈ claimableKinds sampleRegistry ∅ := by decide
  have htask : sampleParked.running.lookup 7 = some ⟨sampleRow, [], none⟩ := rfl
  have hended : sampleParked.Contains sampleUsers .retry
      (.ended 7 sampleRow (.returned (.ok sampleCaught))) := by
    intro task hlookup
    obtain rfl := Option.some.inj (htask.symm.trans hlookup)
    exact ⟨samplePanicking_guarded, .completed rfl⟩
  refine ⟨_, Trace.Run.and_iff.mp (.snoc (.snoc (.snoc (.snoc (.snoc (.snoc (.snoc (.snoc (.snoc
    (.snoc (.snoc .start
    ⟨⟨.scan rfl 0 [], trivial⟩, trivial⟩) ⟨⟨.recovered rfl, trivial⟩, trivial⟩)
    ⟨⟨.claim rfl (by decide) rfl (by decide), trivial⟩, trivial⟩)
    ⟨⟨.claimed rfl sampleRow, hclaimed⟩, trivial⟩) ⟨⟨.keepLease rfl rfl, trivial⟩, trivial⟩)
    ⟨⟨.load rfl [], trivial⟩, trivial⟩) ⟨⟨.spawn rfl 7 (by decide), trivial⟩, trivial⟩)
    ⟨⟨.full rfl (by decide), trivial⟩, trivial⟩)
    ⟨⟨.measure rfl 0 (.ok none), trivial⟩, trivial⟩)
    ⟨⟨.ended htask rfl _, trivial⟩, hended⟩)
    ⟨⟨.reapRun (.inl ⟨rfl, _, rfl⟩) rfl, trivial⟩, trivial⟩)⟩

/-- Its panic is settled when its task is joined. -/
theorem panics_isolated_sampleReaped :
    sampleReturned.JoinIsolated id sampleWorker sampleUsers 7 sampleReaped := by
  obtain ⟨tr, hrun, hcontains⟩ := sampleReaped_run
  exact (panics_isolated id sampleWorker).2 sampleRegistry sampleUsers _ _ hrun hcontains
    ⟨sampleReturned, .joined 7, sampleReaped⟩ (by simp) 7 rfl

/-- A handler that completes, of a task whose `backoff` panics. -/
def sampleIndexing : UserHandler Value Value :=
  { sampleHandler.user with
    backoff := fun _ => .error (some "index out of bounds")
    handle := fun _ _ => .ok (.returned (.ok (.completed none)) .null none) }

/-- Its run unwinds. -/
theorem panic_escapes :
    ¬ ∀ (T Carry : Type) (w : Worker) (h : UserHandler T Carry) (r : JobRecord)
      (history : List JournalEntry), w.Isolates id h r history := by
  intro hall
  obtain ⟨value, hrun, -⟩ := hall Value Value sampleWorker sampleIndexing sampleRow []
  have hunwound : sampleIndexing.run (sampleRow.runInput .retry []) =
      .error (some "index out of bounds") := rfl
  cases hunwound.symm.trans hrun

end Venturi
