import Venturi.Postgres.Adapter
import Venturi.Queue.Submit
import Venturi.Worker.Settlement

namespace Venturi

/-!
# Running a handler (`worker/registry.rs`, `context.rs`)

The erased run of one handler: decode the payload and the carry, run `handle` on a context
that it may mutate, and report the result with the carry to persist.

* `erasedRun` — the run as the code does it, with its three ways to fail; `erasedRun_eq` splits it
  into what `handle` gets (`Handler.context`) and what becomes of how it came back
  (`Handler.conclude`).
* `Handler.Reports` — the carry a run that came back reports: the encoding of what `handle`
  left in the context, or the run's own input when `handle` panicked.
* `Worker.settlementOf_carry` — a Pause or a Retry persists the carry of the report, no other
  settlement persists one.
-/

/-! ### Handlers -/

/-- `Context`, as `handle` receives it; the cancellation token is left out. -/
structure Context (Carry : Type) where
  id : Ulid
  runCount : Nat
  history : List JournalEntry
  carry : Carry

/-- How a call of `Handler::handle` came back: with its result and the context it left, or by
    a panic, whose payload may be a message. -/
inductive Handled (Carry : Type) where
  | returned (result : Except TaskError Outcome) (carry : Carry) (attachment : Option Value)
  | panicked (message : Option String)

/-- `Handler`, as its implementation for the payload type `T`.  The context names the job and
    the run, so two runs may come back in different ways. -/
structure Handler (T Carry : Type) extends Task T Carry where
  backoff : T → Option Backoff
  handle : T → Context Carry → Handled Carry

/-- A handler with its types erased. -/
structure AnyHandler where
  {T : Type}
  {Carry : Type}
  handler : Handler T Carry

/-- `RunInput`, without the shared state and the cancellation token. -/
structure RunInput where
  id : Ulid
  payload : Value
  carry : Value
  runCount : Nat
  history : List JournalEntry
  panicPolicy : PanicPolicy

/-- `panic_message`. -/
def panicMessage : Option String → String
  | some message => "handler panicked: " ++ message
  | none => "handler panicked"

/-- The failure a panic is settled as. -/
def PanicPolicy.failure (policy : PanicPolicy) (message : String) : TaskError :=
  match policy with
  | .retry => ⟨false, message⟩
  | .dead => ⟨true, message⟩

/-- `erased_run`. -/
def erasedRun {T Carry : Type} (h : Handler T Carry) (input : RunInput) :
    Except Error RunReport := do
  let payload ← (h.fromValue input.payload).mapError .serialization
  let carryBefore := input.carry
  let carry ← (h.decodeCarry input.carry).mapError .serialization
  let caught := h.handle payload ⟨input.id, input.runCount, input.history, carry⟩
  let backoff := h.backoff payload
  match caught with
  | .returned result carry attachment =>
    match h.carryToValue carry with
    | .ok carry => return ⟨result, carry, backoff, attachment⟩
    | .error error =>
      -- the handler ran, so this is no dispatch failure
      let message := "handler completed but its carry could not be serialized: " ++ error
      return ⟨.error ⟨true, message⟩, .null, backoff, attachment⟩
  | .panicked message =>
    return ⟨.error (input.panicPolicy.failure (panicMessage message)), carryBefore, backoff, none⟩

section Parts

variable {T Carry : Type} (h : Handler T Carry) (input : RunInput)

/-- The payload and the context a run hands to `handle`. -/
def Handler.context : Except Error (T × Context Carry) := do
  let payload ← (h.fromValue input.payload).mapError .serialization
  let carry ← (h.decodeCarry input.carry).mapError .serialization
  return (payload, ⟨input.id, input.runCount, input.history, carry⟩)

/-- The failure a run reports when the carry its handler left cannot be encoded. -/
def unencodable (message : String) : TaskError :=
  ⟨true, "handler completed but its carry could not be serialized: " ++ message⟩

/-- The report of a run whose `handle` came back so. -/
def Handler.conclude (payload : T) (handled : Handled Carry) : RunReport :=
  match handled with
  | .returned result carry attachment =>
    match h.carryToValue carry with
    | .ok value => ⟨result, value, h.backoff payload, attachment⟩
    | .error message => ⟨.error (unencodable message), .null, h.backoff payload, attachment⟩
  | .panicked message =>
    ⟨.error (input.panicPolicy.failure (panicMessage message)), input.carry, h.backoff payload,
      none⟩

/-- **A run is its context, the handler, and its conclusion.** -/
theorem erasedRun_eq : erasedRun h input =
    (h.context input).map (fun x => h.conclude input x.1 (h.handle x.1 x.2)) := by
  unfold erasedRun Handler.context
  cases h.fromValue input.payload with
  | error message => rfl
  | ok payload =>
    cases h.decodeCarry input.carry with
    | error message => rfl
    | ok carry =>
      simp only [Except.mapError, bind, Except.bind, Except.map, pure, Except.pure]
      cases h.handle payload ⟨input.id, input.runCount, input.history, carry⟩ with
      | panicked message => rfl
      | returned result after attachment =>
        simp only [Handler.conclude]
        cases h.carryToValue after <;> rfl

variable {h input}

/-- A run has a context exactly if its payload and its carry decode, and it is made of these. -/
theorem Handler.context_eq_ok {payload : T} {ctx : Context Carry} :
    h.context input = .ok (payload, ctx) ↔ h.fromValue input.payload = .ok payload ∧
      ∃ carry, h.decodeCarry input.carry = .ok carry ∧
        ctx = ⟨input.id, input.runCount, input.history, carry⟩ := by
  unfold Handler.context
  cases hpayload : h.fromValue input.payload with
  | error message => simp [Except.mapError, bind, Except.bind]
  | ok payload' =>
    cases hcarry : h.decodeCarry input.carry with
    | error message => simp [Except.mapError, bind, Except.bind]
    | ok carry =>
      simp [Except.mapError, bind, Except.bind, pure, Except.pure, eq_comm]

/-- It reports exactly if it has a context, and what the handler did with it. -/
theorem erasedRun_eq_ok {report : RunReport} : erasedRun h input = .ok report ↔
    ∃ payload ctx, h.context input = .ok (payload, ctx) ∧
      h.conclude input payload (h.handle payload ctx) = report := by
  rw [erasedRun_eq]
  cases h.context input with
  | error error => simp [Except.map]
  | ok x =>
    obtain ⟨payload, ctx⟩ := x
    simp [Except.map]

end Parts

/-- `Registry::dispatch`, and the run it builds. -/
def dispatch (handlers : String → Option AnyHandler) (kind : String) (input : RunInput) :
    Except Error RunReport :=
  match handlers kind with
  | some entry => erasedRun entry.handler input
  | none => .error (.unknownKind kind)

/-- The input `Worker::spawn` builds for a claimed job. -/
def JobRecord.runInput (policy : PanicPolicy) (history : List JournalEntry) (r : JobRecord) :
    RunInput :=
  ⟨r.id, r.payload, r.carry, r.runCount, history, policy⟩

/-! ### The carry a run reports -/

/-- The run came back and reports this carry. -/
inductive Handler.Reports {T Carry : Type} (h : Handler T Carry) (input : RunInput) : Value → Prop
  | returned {payload : T} {carry after : Carry} {result : Except TaskError Outcome}
      {attachment : Option Value} {value : Value}
      (hpayload : h.fromValue input.payload = .ok payload)
      (hcarry : h.decodeCarry input.carry = .ok carry)
      (hhandle : h.handle payload ⟨input.id, input.runCount, input.history, carry⟩ =
        .returned result after attachment)
      (hvalue : h.carryToValue after = .ok value) : Reports h input value
  | panicked {payload : T} {carry : Carry} {message : Option String}
      (hpayload : h.fromValue input.payload = .ok payload)
      (hcarry : h.decodeCarry input.carry = .ok carry)
      (hhandle : h.handle payload ⟨input.id, input.runCount, input.history, carry⟩ =
        .panicked message) : Reports h input input.carry

/-- **The report of a run carries what the run reports**, unless it is the permanent failure of
    a carry that could not be encoded. -/
theorem erasedRun_reports {T Carry : Type} {h : Handler T Carry} {input : RunInput}
    {report : RunReport} (hrun : erasedRun h input = .ok report) :
    h.Reports input report.carry ∨ ∃ message, report.result = .error ⟨true, message⟩ := by
  unfold erasedRun at hrun
  cases hpayload : h.fromValue input.payload with
  | error error =>
    rw [hpayload] at hrun
    cases hrun
  | ok payload =>
    cases hcarry : h.decodeCarry input.carry with
    | error error =>
      rw [hpayload, hcarry] at hrun
      cases hrun
    | ok carry =>
      rw [hpayload, hcarry] at hrun
      simp only [Except.mapError, bind, Except.bind] at hrun
      cases hhandle : h.handle payload ⟨input.id, input.runCount, input.history, carry⟩ with
      | returned result after attachment =>
        simp only [hhandle] at hrun
        cases hvalue : h.carryToValue after with
        | ok value =>
          rw [hvalue] at hrun
          obtain rfl := Except.ok.inj hrun
          exact .inl (.returned hpayload hcarry hhandle hvalue)
        | error error =>
          rw [hvalue] at hrun
          obtain rfl := Except.ok.inj hrun
          exact .inr ⟨_, rfl⟩
      | panicked message =>
        simp only [hhandle] at hrun
        obtain rfl := Except.ok.inj hrun
        exact .inl (.panicked hpayload hcarry hhandle)

/-! ### The carry a settlement persists -/

/-- The carry a settlement writes, if it writes one. -/
def Settlement.carry? : Settlement → Option Value
  | .retry _ _ carry => some carry
  | .pause _ carry => some carry
  | _ => none

@[simp] theorem Settlement.set_carry (settlement : Settlement) (r : JobRecord) :
    (settlement.set r).carry = settlement.carry?.getD r.carry := by
  cases settlement <;> rfl

/-- **A settlement persists the carry of the report**, and only for a run that did not fail
    permanently. -/
theorem Worker.settlementOf_carry {fl : ℚ → ℚ} {w : Worker} {now : DateTime}
    {finished : FinishedRun} {carry : Value}
    (h : (w.settlementOf fl now finished).carry? = some carry) :
    ∃ report, finished.report = .ok report ∧ report.carry = carry ∧
      ∀ message, report.result ≠ .error ⟨true, message⟩ := by
  unfold settlementOf at h
  cases hreport : finished.report with
  | error error =>
    rw [hreport] at h
    cases h
  | ok report =>
    rw [hreport] at h
    refine ⟨report, rfl, ?_⟩
    simp only [settlementFor, retryOrBackstop] at h
    split at h
    · cases h
    · rename_i hresult
      exact ⟨Option.some.inj h, fun message => by simp [hresult]⟩
    · rename_i error hresult
      split at h
      · cases h
      · rename_i hretryable
        split at h
        · cases h
        · refine ⟨Option.some.inj h, fun message heq => hretryable ?_⟩
          obtain rfl := Except.error.inj (hresult.symm.trans heq)
          rfl

end Venturi
