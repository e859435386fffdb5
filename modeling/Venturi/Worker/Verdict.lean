import Venturi.Worker.Retry

namespace Venturi

/-!
# What is recorded of a failed run (`worker/registry.rs`, `worker/mod.rs`)

A handler that returns an error leaves a context behind, and the run encodes its carry before it
reports the error.

* `Worker.Records` — the settlement and the journal note that a failure calls for.
* `records_iff` — a worker records the failure of the report.
* `failure_recorded_iff` — which is that of the handler when its carry could be encoded.
-/

section Verdict

variable {fl : ℚ → ℚ} {w : Worker} {now : DateTime} {r : JobRecord} {error reported : TaskError}

/-- The failure leaves the job dead: it is permanent, or the new count reaches the backstop. -/
def Worker.Fatal (w : Worker) (r : JobRecord) (error : TaskError) : Prop :=
  error.permanent = true ∨ ∃ limit, w.config.backstop = some limit ∧ limit ≤ r.nextAttempt

/-- The worker settles the run of the claimed record as this failure: dead or retried, one
    failure up, with its message for the journal. -/
def Worker.Records (fl : ℚ → ℚ) (w : Worker) (now : DateTime) (r : JobRecord)
    (report : Except Error RunReport) (error : TaskError) : Prop :=
  ∃ settlement entry,
    w.settle fl now (r.finished report) =
      .settle r.id w.identity r.runCount settlement entry ∧
    entry.note = some error.message ∧
    (w.Fatal r error → settlement = .dead now (saturatingAdd r.failureCount 1)) ∧
    (¬ w.Fatal r error → ∃ visibleAt carry,
      settlement = .retry visibleAt (saturatingAdd r.failureCount 1) carry)

/-- The settlement of a reported failure. -/
theorem settlementOf_error {report : RunReport} (hresult : report.result = .error reported) :
    (w.Fatal r reported → w.settlementOf fl now (r.finished (.ok report)) =
      .dead now (saturatingAdd r.failureCount 1)) ∧
    (¬ w.Fatal r reported → ∃ visibleAt, w.settlementOf fl now (r.finished (.ok report)) =
      .retry visibleAt (saturatingAdd r.failureCount 1) report.carry) := by
  have hsettle : w.settlementOf fl now (r.finished (.ok report)) =
      if reported.permanent then .dead now (saturatingAdd r.failureCount 1)
      else w.retryOrBackstop fl report r.id now (saturatingAdd r.failureCount 1) := by
    show w.settlementFor fl report r.id now (saturatingAdd r.failureCount 1) = _
    rw [Worker.settlementFor, hresult]
  have hbackstop : (w.config.backstop.any fun limit => limit ≤ r.nextAttempt) = true ↔
      ∃ limit, w.config.backstop = some limit ∧ limit ≤ r.nextAttempt := by
    simp [Option.any_eq_true]
  rw [hsettle]
  constructor
  · rintro (hpermanent | hlimit)
    · rw [if_pos hpermanent]
    · split_ifs
      · rfl
      · exact if_pos (hbackstop.mpr hlimit)
  · intro hopen
    rw [if_neg (fun hpermanent => hopen (.inl hpermanent))]
    exact ⟨_, if_neg (fun hlimit => hopen (.inr (hbackstop.mp hlimit)))⟩

/-- **A worker records the failure of the report**: another one only if its message and its
    verdict are the same. -/
theorem records_iff {report : RunReport} (hresult : report.result = .error reported) :
    w.Records fl now r (.ok report) error ↔
      reported.message = error.message ∧ (w.Fatal r reported ↔ w.Fatal r error) := by
  obtain ⟨hdead, hretry⟩ := @settlementOf_error fl w now r reported report hresult
  constructor
  · rintro ⟨settlement, entry, hcall, hnote, hfatal, hopen⟩
    obtain ⟨-, -, -, rfl, rfl⟩ := Call.settle.inj hcall
    refine ⟨?_, ?_⟩
    · have hreported : noteFor report.result = some error.message := hnote
      rw [hresult] at hreported
      exact Option.some.inj hreported
    · by_cases hreported : w.Fatal r reported
      · refine iff_of_true hreported (by_contra fun hne => ?_)
        obtain ⟨visibleAt, carry, hsettled⟩ := hopen hne
        rw [hdead hreported] at hsettled
        cases hsettled
      · refine iff_of_false hreported (fun hfatal' => ?_)
        obtain ⟨visibleAt, hsettled⟩ := hretry hreported
        rw [hfatal hfatal'] at hsettled
        cases hsettled
  · rintro ⟨hmessage, hverdict⟩
    refine ⟨_, _, rfl, ?_, fun hfatal => hdead (hverdict.mpr hfatal), fun hopen => ?_⟩
    · show noteFor report.result = some error.message
      rw [hresult, ← hmessage]
      rfl
    · obtain ⟨visibleAt, hsettled⟩ := hretry (fun hfatal => hopen (hverdict.mp hfatal))
      exact ⟨visibleAt, _, hsettled⟩

end Verdict

/-! ### The failure of a handler -/

/-- **When a failed run is recorded as the failure its handler reported.** The run of a claimed
    job decodes its payload and carry, and the handler returns an error.  The worker settles
    that error, dead or retried as it calls for and with its message as the note, exactly if the
    carry the handler left can be encoded; or else the error is fatal anyway, and its message
    happens to be that of the failure to encode. -/
theorem failure_recorded_iff {T Carry : Type} {h : Handler T Carry} {w : Worker} {r : JobRecord}
    {history : List JournalEntry} {payload : T} {before after : Carry} {error : TaskError}
    {attachment : Option Value} (hpayload : h.fromValue r.payload = .ok payload)
    (hcarry : h.decodeCarry r.carry = .ok before)
    (hhandle : h.handle payload ⟨r.id, r.runCount, history, before⟩ =
      .returned (.error error) after attachment) (fl : ℚ → ℚ) (now : DateTime) :
    w.Records fl now r (erasedRun h (r.runInput w.config.panicPolicy history)) error ↔
      (∃ value, h.carryToValue after = .ok value) ∨
        ∃ message, h.carryToValue after = .error message ∧ w.Fatal r error ∧
          error.message = (unencodable message).message := by
  have hctx : h.context (r.runInput w.config.panicPolicy history) =
      .ok (payload, ⟨r.id, r.runCount, history, before⟩) :=
    Handler.context_eq_ok.mpr ⟨hpayload, before, hcarry, rfl⟩
  rw [erasedRun_eq, hctx]
  simp only [Except.map, hhandle, Handler.conclude]
  cases hvalue : h.carryToValue after with
  | ok value =>
    refine iff_of_true ?_ (.inl ⟨value, rfl⟩)
    exact (records_iff rfl).mpr ⟨rfl, Iff.rfl⟩
  | error message =>
    have hfatal : w.Fatal r (unencodable message) := .inl rfl
    constructor
    · intro hrecords
      obtain ⟨hmessage, hverdict⟩ := (records_iff rfl).mp hrecords
      exact .inr ⟨message, rfl, hverdict.mp hfatal, hmessage.symm⟩
    · rintro (⟨value, hok⟩ | ⟨message', herror, hfatal', hmessage⟩)
      · cases hok
      · obtain rfl := Except.error.inj herror
        exact (records_iff rfl).mpr ⟨hmessage.symm, iff_of_true hfatal hfatal'⟩

/-! ### A failure that cannot be carried on -/

/-- A handler that fails retryably and leaves this carry, which only a number encodes. -/
def sampleFailing (carry : Option Nat) : Handler Value (Option Nat) where
  kind := "feed"
  toValue := .ok
  fromValue := .ok
  carryToValue
    | some n => .ok (.json (toString n))
    | none => .error "key must be a string"
  carryFromValue _ := .ok (some 0)
  carryDefault := some 0
  priority _ := .normal
  dedupKey _ := none
  merge _ _ := .replace
  backoff _ := none
  handle _ _ := .returned (.error ⟨false, "network"⟩) carry none

/-- With a carry that encodes, the sample job is retried and its note is the error. -/
theorem failure_recorded_iff_sampleRow :
    sampleWorker.Records id 1 sampleRow
      (erasedRun (sampleFailing (some 3)) (sampleRow.runInput .retry [])) ⟨false, "network"⟩ :=
  (@failure_recorded_iff _ _ (sampleFailing (some 3)) sampleWorker sampleRow [] (.json "1")
    (some 0) (some 3) ⟨false, "network"⟩ none rfl rfl rfl id 1).mpr (.inl ⟨.json "3", rfl⟩)

/-- With one that does not, its first failure leaves it dead under another note. -/
theorem failure_unrecorded :
    ¬ ∀ (T Carry : Type) (h : Handler T Carry) (w : Worker) (r : JobRecord)
      (history : List JournalEntry) (payload : T) (before after : Carry) (error : TaskError)
      (attachment : Option Value) (now : DateTime), h.fromValue r.payload = .ok payload →
      h.decodeCarry r.carry = .ok before →
      h.handle payload ⟨r.id, r.runCount, history, before⟩ =
        .returned (.error error) after attachment →
      w.Records id now r (erasedRun h (r.runInput w.config.panicPolicy history)) error := by
  intro hall
  have hrecords := hall Value (Option Nat) (sampleFailing none) sampleWorker sampleRow []
    (.json "1") (some 0) none ⟨false, "network"⟩ none 1 rfl rfl rfl
  have hreport : erasedRun (sampleFailing none) (sampleRow.runInput .retry []) =
      .ok ⟨.error (unencodable "key must be a string"), .null, none, none⟩ := rfl
  have hmessage : (unencodable "key must be a string").message = "network" :=
    ((records_iff rfl).mp (hreport ▸ hrecords)).1
  exact absurd hmessage (by decide)

end Venturi
