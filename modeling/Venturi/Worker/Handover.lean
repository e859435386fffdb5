import Venturi.Postgres.Storage
import Venturi.Worker.Carry

namespace Venturi

open Sql PostgresStore Trace

/-!
# The carry across the storage boundary (`worker/registry.rs`, `queue.rs`)

A run leaves a carry in its context, which is encoded, stored with a Pause or a Retry, read with
the row and decoded: by the next run, or by a submission that finds the job pending.  The database
is behind a `Storage`: what `jsonb` makes of an encoding is not decided here.

* `Handler.Shows` — the next run of a stored job and every merge are shown this carry.
* `Waits` — a job that is neither claimed nor merged into stays pending and keeps its carry.
* `HandsOver.stored` — what is handed out is what the storage made of the encoding.
* `carry_survives` — where it keeps the encoding, the carry comes back as it was left, but for one
  that encodes as null.
-/

/-! ### Where a stored carry is read -/

section Read

variable {T Carry : Type}

/-- **What a submission shows to `Task::merge`**: the candidate, decoded. -/
theorem follows_candidate {τ : Task T Carry} {task : T} {key : String} {candidate : JobRecord}
    {payload : T} {carry : Carry} (hkey : τ.dedupKey task = some key)
    (hpayload : τ.fromValue candidate.payload = .ok payload)
    (hcarry : τ.decodeCarry candidate.carry = .ok carry) (createdAt visibleAt : DateTime)
    (entries : List JournalRecord) :
    Program.Follows (Queue.submit τ task createdAt visibleAt).run
      [⟨.call (.dedupCandidate τ.kind key), .ok (some candidate)⟩,
        ⟨.call (.journal candidate.id), .ok entries⟩]
      (Queue.resolve τ task createdAt visibleAt key candidate
        ⟨payload, carry, candidate.runCount, entries.map JournalEntry.fromRecord⟩).run := by
  unfold Queue.submit
  simp only [hkey]
  rw [StoreProgram.run_call_bind]
  refine .step ?_
  simp only [hpayload, hcarry]
  exact .step (.done _)

/-- The handler's next run of the stored job and every submission that finds it as its candidate
    are shown this carry, where they can decode the payload. -/
def Handler.Shows (h : Handler T Carry) (r : JobRecord) (carry : Carry) : Prop :=
  (∀ policy history payload, h.fromValue r.payload = .ok payload →
    h.context (r.runInput policy history) =
      .ok (payload, ⟨r.id, r.runCount, history, carry⟩)) ∧
  ∀ task key payload createdAt visibleAt entries, h.dedupKey task = some key →
    h.fromValue r.payload = .ok payload →
    Program.Follows (Queue.submit h.toTask task createdAt visibleAt).run
      [⟨.call (.dedupCandidate h.kind key), .ok (some r)⟩, ⟨.call (.journal r.id), .ok entries⟩]
      (Queue.resolve h.toTask task createdAt visibleAt key r
        ⟨payload, carry, r.runCount, entries.map JournalEntry.fromRecord⟩).run

/-- What a stored carry decodes to is shown. -/
theorem Handler.shows_of_decodeCarry {h : Handler T Carry} {r : JobRecord} {carry : Carry}
    (hcarry : h.decodeCarry r.carry = .ok carry) : h.Shows r carry := by
  constructor
  · intro policy history payload hpayload
    exact Handler.context_eq_ok.mpr ⟨hpayload, carry, hcarry, rfl⟩
  · intro task key payload createdAt visibleAt entries hkey hpayload
    exact follows_candidate hkey hpayload hcarry createdAt visibleAt entries

/-- The encoding of the carry loses nothing. -/
def Task.Lossless (τ : Task T Carry) : Prop :=
  ∀ carry, ∃ value, τ.carryToValue carry = .ok value ∧ τ.carryFromValue value = .ok carry

/-- The storage gives the encoding of the carry back as it was. -/
def Storage.KeepsCarry (st : Storage) (τ : Task T Carry) (carry : Carry) : Prop :=
  ∀ value, τ.carryToValue carry = .ok value → st.json value = .ok value

/-- What a carry is read back as: null stands for the default of the type. -/
def Task.restored (τ : Task T Carry) (carry : Carry) : Carry :=
  match τ.carryToValue carry with
  | .ok .null => τ.carryDefault
  | _ => carry

/-- Decoding an encoded carry restores it. -/
theorem Task.decodeCarry_of_lossless {τ : Task T Carry} (h : τ.Lossless) {carry : Carry}
    {value : Value} (hvalue : τ.carryToValue carry = .ok value) :
    τ.decodeCarry value = .ok (τ.restored carry) := by
  obtain ⟨value', hencode, hdecode⟩ := h carry
  obtain rfl : value = value' := Except.ok.inj (hvalue.symm.trans hencode)
  unfold decodeCarry restored
  rw [hvalue]
  cases value with
  | null => rfl
  | json text => exact hdecode

end Read

/-! ### A job that waits -/

/-- Nobody claims the job `id`. -/
def Unclaimed (id : Ulid) (tr : History) : Prop := ∀ m ∈ tr, ∀ n, m.label.mark id ≠ .handed n

/-- The job, if it is there, is pending with this carry. -/
def Waits (id : Ulid) (carry : Value) (s : PostgresStore) : Prop :=
  ∀ j, s.view id = some j → j.row.status = .pending ∧ j.row.carry = carry

section Waiting

variable {s s' : PostgresStore} {e : Event} {id : Ulid} {carry : Value}

/-- **One step keeps a job waiting**, unless it claims it, merges into it or inserts it anew. -/
theorem Waits.step (h : Waits id carry s) (hs : s.Step e s') (hopened : e.mark id ≠ .opened)
    (hclaim : Unclaimed id [⟨s, e, s'⟩]) (hmerge : Unmerged id [⟨s, e, s'⟩]) :
    Waits id carry s' := by
  intro j' hj'
  rcases exec_view hs id with ⟨hview, -⟩ | hstep
  · exact h j' (hview ▸ hj')
  · obtain ⟨env, c, reply⟩ := e
    have hhanded := hclaim _ (List.mem_singleton_self _)
    rw [hj'] at hstep
    generalize hmark : Event.mark id ⟨env, c, reply⟩ = mark at hstep
    generalize hjob : s.view id = job at hstep
    cases hstep with
    | enqueue => exact absurd hmark hopened
    | claim => exact absurd hmark (hhanded _)
    | settle howned =>
      -- what is settled, recovered or extended was claimed
      have hclaimed := (JobRecord.owned_iff.mp howned).2.2.2
      exact absurd (hclaimed.symm.trans (h _ hjob).1) (by simp)
    | recover hstale =>
      have hclaimed := (JobRecord.stale_iff.mp hstale).1
      exact absurd (hclaimed.symm.trans (h _ hjob).1) (by simp)
    | extendLease howned =>
      have hclaimed := (JobRecord.owned_iff.mp howned).2.2.2
      exact absurd (hclaimed.symm.trans (h _ hjob).1) (by simp)
    | @merge update entry row log n hpending =>
      obtain rfl : row.id = id := view_id hjob
      have hsame := hmerge.view_eq hs
      simp [hj', hjob] at hsame

/-- A settlement that applied and persists a carry leaves its job waiting with it. -/
theorem waits_of_settle {env : Env} {claimedBy : String} {runNo : Nat} {settlement : Settlement}
    {entry : JournalAppend}
    (hs : s.Step ⟨env, .settle id claimedBy runNo settlement entry, .ok true⟩ s')
    (hcarry : settlement.carry? = some carry) : Waits id carry s' ∧ ∃ j, s.view id = some j := by
  rcases commit_eq hs with ⟨b, hok, hreply⟩ | ⟨_, -, herr, -⟩
  · obtain rfl := Except.ok.inj hreply
    rcases settle_cases hok with ⟨hmiss, -⟩ | ⟨-, job, n, hjob, -, hview⟩
    · cases hmiss
    · refine ⟨fun j' hj' => ?_, job, hjob⟩
      rw [hview, Function.update_self] at hj'
      obtain rfl := Option.some.inj hj'
      cases settlement with
      | retry visibleAt failureCount value => exact ⟨rfl, Option.some.inj hcarry⟩
      | pause visibleAt value => exact ⟨rfl, Option.some.inj hcarry⟩
      | complete _ => cases hcarry
      | dead _ _ => cases hcarry
      | release _ => cases hcarry
  · cases herr

/-- The carry of a stored settlement. -/
theorem carry_of_settlement {st : Storage} {settlement settlement' : Settlement} {value : Value}
    (h : st.settlement settlement = .ok settlement') (hvalue : settlement.carry? = some value) :
    ∃ carry, st.json value = .ok carry ∧ settlement'.carry? = some carry := by
  cases settlement with
  | retry | pause =>
    obtain rfl := Option.some.inj hvalue
    obtain ⟨_, -, h⟩ := bind_eq_ok.mp h
    obtain ⟨carry, hcarry, h⟩ := bind_eq_ok.mp h
    obtain rfl := Except.ok.inj h
    exact ⟨carry, hcarry, rfl⟩
  | complete | dead | release => cases hvalue

/-- A step behind a storage keeps a job waiting, unless it claims it, merges into it or inserts it
    anew. -/
theorem Waits.stored {st : Storage} (h : Waits id carry s) (hs : st.Step s e s')
    (hopened : e.mark id ≠ .opened) (hclaim : Unclaimed id [⟨s, e, s'⟩])
    (hmerge : Unmerged id [⟨s, e, s'⟩]) : Waits id carry s' := by
  rcases hs.stored with ⟨e', he', hstep⟩ | ⟨-, rfl⟩
  · refine h.step hstep (fun hmark => hopened ?_) (fun m hm n hmark => ?_)
      fun m hm env update journal hlabel => ?_
    · exact Storage.mark_event he' hmark (by simp) (by simp)
    · obtain rfl := List.mem_singleton.mp hm
      have hhanded := Storage.mark_event he' hmark (by simp) (by simp)
      exact hclaim _ (List.mem_singleton_self _) n hhanded
    · obtain rfl := List.mem_singleton.mp hm
      obtain rfl : e' = _ := hlabel
      obtain ⟨update', journal', rfl⟩ := Storage.event_merged he'
      exact hmerge _ (List.mem_singleton_self _) env update' journal' rfl
  · exact h

/-- **A job waits from its settlement on**, with the carry that was stored for it, until it is
    claimed or merged into. -/
theorem waits_since {st : Storage} {tr₁ tr₂ : History} {m : Trace.Move PostgresStore Event}
    {env : Env} {claimedBy : String} {runNo : Nat} {settlement : Settlement}
    {entry : JournalAppend} {value : Value} (h : st.Run (tr₁ ++ m :: tr₂) s)
    (hfresh : FreshIds (tr₁ ++ m :: tr₂))
    (hm : m.label = ⟨env, .settle id claimedBy runNo settlement entry, .ok true⟩)
    (hvalue : settlement.carry? = some value) (hclaim : Unclaimed id tr₂)
    (hmerge : Unmerged id tr₂) : ∃ carry, st.json value = .ok carry ∧ Waits id carry s := by
  obtain ⟨hrun, hs, -⟩ := h.split
  rw [hm] at hs
  obtain ⟨settlement', entry', hsettlement, hevent⟩ := hs.settled
  obtain ⟨carry, hcarry, hstored⟩ := carry_of_settlement hsettlement hvalue
  have hwaits : Waits id carry m.after ∧ ∃ j, m.before.view id = some j := by
    rcases hs.stored with ⟨e', he', hstep⟩ | ⟨hnone, -⟩
    · obtain rfl := Option.some.inj (hevent.symm.trans he')
      exact waits_of_settle hstep hstored
    · cases hevent.symm.trans hnone
  -- the id is used by the time of the settlement
  have hborn : id ∈ enqueued tr₁ := by
    obtain ⟨-, j, hj⟩ := hwaits
    have hsub := st.enqueued_stored tr₁
    have hfresh₁ : FreshIds (st.stored tr₁) := hfresh.of_append.sublist hsub
    exact hsub.subset (mem_enqueued_of_view (Storage.Run.stored hrun) hfresh₁ hj)
  refine ⟨carry, hcarry, ?_⟩
  refine Trace.Run.since (J := fun tr s => FreshIds (tr₁ ++ m :: tr) → Unclaimed id tr →
    Unmerged id tr → Waits id carry s) ?start ?step h hfresh hclaim hmerge
  case start => exact fun _ _ _ _ _ => hwaits.1
  case step =>
    intro tr s e s' hrun hJ hs hfresh hclaim hmerge
    obtain ⟨hclaim, hclaim'⟩ := List.forall_mem_append.mp hclaim
    obtain ⟨hmerge, hmerge'⟩ := List.forall_mem_append.mp hmerge
    rw [← List.cons_append, ← List.append_assoc] at hfresh
    refine (hJ hfresh.of_append hclaim hmerge).stored hs (fun hopened => ?_) hclaim' hmerge'
    have hused : id ∈ enqueued (tr₁ ++ m :: tr) := by
      rw [enqueued, List.filterMap_append]
      exact List.mem_append_left _ hborn
    exact hfresh.not_mem (m := ⟨s, e, s'⟩) (enqueues_of_opened hopened) hused

/-- The records an event hands out are those of the store. -/
theorem snapshots_event {st : Storage} {e' : Event} (h : st.event e = some e') :
    e'.snapshots = e.snapshots := by
  obtain ⟨env, c, reply⟩ := e
  obtain ⟨c', hc, rfl⟩ := Storage.event_eq_some h
  dsimp only at hc
  cases c with
  | journal | findStale | job =>
    obtain rfl := Except.ok.inj hc
    rfl
  | enqueue | claimNext | nextVisibleAt | dedupCandidate | extendLease | cleanup =>
    obtain ⟨_, -, rfl⟩ := Storage.statement_eq_ok.mp hc
    rcases reply with _ | _ | _ <;> rfl
  | settle | recover | mergeInto =>
    obtain ⟨_, _, -, -, rfl⟩ := Storage.journaled_eq_ok.mp hc
    rfl

/-- Records are handed out by a call the store carried out. -/
theorem snapshots_read {st : Storage} {r : JobRecord} (hs : st.Step s e s') (hr : r ∈ e.snapshots) :
    ∃ e', st.event e = some e' ∧ s.Step e' s' := by
  rcases hs.stored with hstored | ⟨hnone, -⟩
  · exact hstored
  · obtain ⟨env, c, reply⟩ := e
    cases c with
    | findStale =>
      have hstored : st.event ⟨env, .findStale, reply⟩ = some ⟨env, .findStale, reply⟩ :=
        Storage.event_of_ok env reply rfl rfl
      cases hstored.symm.trans hnone
    | claimNext | dedupCandidate =>
      cases hc : st.call _ with
      | ok c' => cases (Storage.event_of_ok env reply rfl hc).symm.trans hnone
      | error refusal =>
        cases refusal with
        | statement error =>
          -- a refused call hands nothing out
          obtain ⟨rfl, -⟩ := Prod.mk.inj ((Storage.exec_of_refused rfl hc).symm.trans hs)
          cases hr
        | entry error => exact absurd hc Storage.statement_ne_entry
    | _ => cases reply <;> cases hr

/-- What is handed out carries what was stored. -/
theorem snapshot_carry {r : JobRecord} (hs : s.Step e s') (hr : r ∈ e.snapshots) :
    ∃ j, s.view r.id = some j ∧ r.carry = j.row.carry := by
  have hstored := snapshots_stored hs hr
  obtain ⟨env, c, reply⟩ := e
  cases c with
  | claimNext kinds floor lease claimedBy =>
    rcases reply with error | _ | r'
    · cases hr
    · cases hr
    · obtain rfl := List.mem_singleton.mp hr
      obtain ⟨j, hj, hcarry, -⟩ := claim_carry hs rfl
      exact ⟨j, hj, hcarry⟩
  | findStale =>
    obtain ⟨-, rfl⟩ := Prod.mk.inj hs
    exact ⟨_, hstored, rfl⟩
  | dedupCandidate kind key =>
    obtain ⟨-, rfl⟩ := Prod.mk.inj hs
    exact ⟨_, hstored, rfl⟩
  | _ => cases reply <;> cases hr

end Waiting

/-! ### The round trip -/

/-- In a run of the database behind `st` the handler left `carry` in a run that was settled as a
    Pause or a Retry, and the job was handed out as `r'` before anybody claimed it or merged into
    it. -/
inductive HandsOver {T Carry : Type} (st : Storage) (fl : ℚ → ℚ) (h : Handler T Carry)
    (carry : Carry) (r' : JobRecord) : Prop
  | mk {tr₁ tr₂ tr₃ : History} {m m' : Trace.Move PostgresStore Event} {s : PostgresStore}
      {w : Worker} {env : Env} {now : DateTime} {r : JobRecord} {history : List JournalEntry}
      {payload : T} {ctx : Context Carry} {result : Except TaskError Outcome}
      {attachment : Option Value} (hrun : st.Run (tr₁ ++ m :: (tr₂ ++ m' :: tr₃)) s)
      (hfresh : FreshIds (tr₁ ++ m :: (tr₂ ++ m' :: tr₃)))
      (hcontext : h.context (r.runInput w.config.panicPolicy history) = .ok (payload, ctx))
      (hhandle : h.handle payload ctx = .returned result carry attachment)
      (hsettle : m.label = ⟨env, w.settle fl now
        (r.finished (erasedRun h (r.runInput w.config.panicPolicy history))), .ok true⟩)
      (hrepends : (w.settlementOf fl now
        (r.finished (erasedRun h (r.runInput w.config.panicPolicy history)))).carry?.isSome)
      (hclaim : Unclaimed r.id tr₂) (hmerge : Unmerged r.id tr₂)
      (hread : r' ∈ m'.label.snapshots) (hid : r'.id = r.id) : HandsOver st fl h carry r'

section RoundTrip

variable {T Carry : Type} {st : Storage} {fl : ℚ → ℚ} {h : Handler T Carry} {carry : Carry}

/-- A settlement of a run whose handler returned persists the encoding of the carry it left. -/
theorem settlementOf_encoded {w : Worker} {now : DateTime} {r : JobRecord} {input : RunInput}
    {payload : T} {ctx : Context Carry} {result : Except TaskError Outcome}
    {attachment : Option Value} {value : Value} (hcontext : h.context input = .ok (payload, ctx))
    (hhandle : h.handle payload ctx = .returned result carry attachment)
    (hvalue : (w.settlementOf fl now (r.finished (erasedRun h input))).carry? = some value) :
    h.carryToValue carry = .ok value := by
  obtain ⟨report, hreport, hcarry, hsound⟩ := Worker.settlementOf_carry hvalue
  have hrun : erasedRun h input = .ok report := hreport
  obtain ⟨payload', ctx', hcontext', hconclude⟩ := erasedRun_eq_ok.mp hrun
  obtain ⟨rfl, rfl⟩ := Prod.mk.inj (Except.ok.inj (hcontext'.symm.trans hcontext))
  rw [hhandle] at hconclude
  simp only [Handler.conclude] at hconclude
  split at hconclude
  · rename_i value' hencode
    subst hconclude
    exact hencode.trans (congrArg Except.ok hcarry)
  · -- a carry that cannot be encoded is a permanent failure, which persists none
    subst hconclude
    exact absurd rfl (hsound _)

/-- **What is handed out** is what the storage made of the encoding of the carry. -/
theorem HandsOver.stored {r' : JobRecord} (hover : HandsOver st fl h carry r') :
    ∃ value, h.carryToValue carry = .ok value ∧ st.json value = .ok r'.carry := by
  obtain @⟨tr₁, tr₂, tr₃, m, m', _, w, _, now, r, _, _, _, _, _, hrun, hfresh, hcontext, hhandle,
    hsettle, hrepends, hclaim, hmerge, hread, hid⟩ := hover
  obtain ⟨value, hvalue⟩ := Option.isSome_iff_exists.mp hrepends
  have hsplit : tr₁ ++ m :: (tr₂ ++ m' :: tr₃) = (tr₁ ++ m :: tr₂) ++ m' :: tr₃ := by simp
  rw [hsplit] at hrun hfresh
  obtain ⟨hbefore, hs, -⟩ := hrun.split
  refine ⟨value, settlementOf_encoded hcontext hhandle hvalue, ?_⟩
  -- the job waits with the carry that was stored until it is handed out
  obtain ⟨stored, hstored, hwaits⟩ :=
    waits_since hbefore hfresh.of_append hsettle hvalue hclaim hmerge
  obtain ⟨e', he', hstep⟩ := snapshots_read hs hread
  obtain ⟨j, hj, hcarry⟩ := snapshot_carry hstep (snapshots_event he' ▸ hread)
  rw [hid] at hj
  rw [hstored, hcarry, (hwaits j hj).2]

/-- What is handed out shows the carry restored from its encoding, when the storage keeps that. -/
theorem HandsOver.shows (hlossless : h.Lossless) (hkept : st.KeepsCarry h.toTask carry)
    {r' : JobRecord} (hover : HandsOver st fl h carry r') : h.Shows r' (h.restored carry) := by
  obtain ⟨value, hvalue, hstored⟩ := hover.stored
  obtain rfl : value = r'.carry := Except.ok.inj ((hkept value hvalue).symm.trans hstored)
  exact Handler.shows_of_decodeCarry (Task.decodeCarry_of_lossless hlossless hvalue)

/-- At most one carry is shown, where the payload can be decoded. -/
theorem Handler.Shows.unique {r : JobRecord} {carry carry' : Carry} {payload : T}
    (hpayload : h.fromValue r.payload = .ok payload) (hshows : h.Shows r carry)
    (hshows' : h.Shows r carry') : carry = carry' := by
  have hcontext := hshows.1 .retry [] payload hpayload
  have hcontext' := hshows'.1 .retry [] payload hpayload
  have hsame := Except.ok.inj (hcontext.symm.trans hcontext')
  exact congrArg (fun x => x.2.carry) hsame

/-- **Carried state survives the storage boundary**, when its encoding loses nothing and the
    storage keeps it: the next run of the job and every merge are shown exactly the carry the
    handler left, unless its encoding is null and it is not the default of its type. -/
theorem carry_survives (hlossless : h.Lossless) (hkept : st.KeepsCarry h.toTask carry)
    {r' : JobRecord} (hover : HandsOver st fl h carry r') :
    h.Shows r' carry ↔ ((∃ payload, h.fromValue r'.payload = .ok payload) →
      h.carryToValue carry = .ok .null → h.carryDefault = carry) := by
  have hrestored := hover.shows hlossless hkept
  constructor
  · rintro hshows ⟨payload, hpayload⟩ hnull
    have hdefault : h.restored carry = h.carryDefault := by
      rw [Task.restored, hnull]
    rw [← hdefault]
    exact Handler.Shows.unique hpayload hrestored hshows
  · intro hdefault
    by_cases hpayload : ∃ payload, h.fromValue r'.payload = .ok payload
    · have hsame : h.restored carry = carry := by
        unfold Task.restored
        split
        · rename_i hnull
          exact hdefault hpayload hnull
        · rfl
      rwa [hsame] at hrestored
    · -- nothing is shown where the payload does not decode
      exact ⟨fun _ _ payload h => absurd ⟨payload, h⟩ hpayload,
        fun _ _ payload _ _ _ _ h => absurd ⟨payload, h⟩ hpayload⟩

end RoundTrip

/-! ### A carry that encodes as null -/

/-- The sample pause hands its carry over. -/
theorem samplePaused_handsOver :
    HandsOver .verbatim id sampleHandler (.json "7") sampleResumed :=
  @HandsOver.mk _ _ .verbatim id sampleHandler (.json "7") sampleResumed
    [sampleEnqueue, sampleClaimed] [] [] samplePaused sampleReclaimed _ sampleWorker _ 1
    sampleRow [] (.json "1") _ _ _ (Storage.Run.verbatim sampleReclaimed_run.run) (by decide)
    rfl rfl rfl rfl (by simp [Unclaimed]) (by simp [Unmerged])
    (List.mem_singleton_self sampleResumed) rfl

/-- The next run of the paused sample job continues from 7. -/
theorem carry_survives_samplePaused : sampleHandler.Shows sampleResumed (.json "7") :=
  (carry_survives (fun carry => ⟨carry, rfl, rfl⟩) (fun _ _ => rfl) samplePaused_handsOver).mpr
    fun _ hnull => absurd hnull (by decide)

/-- A handler that pauses with the carry null, of a type whose default is 0. -/
def sampleUnset : Handler Value Value where
  toTask := { sampleTask with carryDefault := .json "0" }
  backoff _ := none
  handle _ _ := .returned (.ok (.pause 0 none)) .null none

/-- The sample job is paused by it, … -/
def sampleUnsetPaused : Trace.Move PostgresStore Event :=
  sampleClaimed.after.next (.ofNow 1)
    (sampleWorker.settle id 1 (sampleRow.finished (erasedRun sampleUnset
      (sampleRow.runInput .retry []))))

/-- … and claimed again. -/
def sampleUnsetClaimed : Trace.Move PostgresStore Event :=
  sampleUnsetPaused.after.next (.ofNow 1)
    (.claimNext ["feed"] 0 sampleWorker.config.lease sampleWorker.identity)

/-- The sample handler that leaves a carry of null hands over the default. -/
theorem sampleUnset_handsOver :
    HandsOver .verbatim id sampleUnset .null { sampleResumed with carry := .null } := by
  have hrun : PostgresStore.Run [sampleEnqueue, sampleClaimed, sampleUnsetPaused,
      sampleUnsetClaimed] sampleUnsetClaimed.after :=
    .snoc (.snoc (.snoc (.snoc .start rfl) rfl) rfl) rfl
  exact @HandsOver.mk _ _ .verbatim id sampleUnset .null { sampleResumed with carry := .null }
    [sampleEnqueue, sampleClaimed] [] [] sampleUnsetPaused sampleUnsetClaimed _ sampleWorker _ 1
    sampleRow [] (.json "1") _ _ _ (Storage.Run.verbatim hrun) (by decide) rfl rfl rfl rfl
    (by simp [Unclaimed]) (by simp [Unmerged]) (List.mem_singleton_self _) rfl

/-- Its next run starts from 0. -/
theorem carry_lost :
    ¬ ∀ (T Carry : Type) (h : Handler T Carry) (carry : Carry) (r' : JobRecord), h.Lossless →
      HandsOver .verbatim id h carry r' → h.Shows r' carry := by
  intro hall
  have hshows := (hall Value Value sampleUnset .null _ (fun carry => ⟨carry, rfl, rfl⟩)
    sampleUnset_handsOver).1 .retry [] (.json "1") rfl
  have hcarry := congrArg (fun x => x.toOption.map (fun y => y.2.carry)) hshows
  exact absurd hcarry (by decide)

end Venturi
