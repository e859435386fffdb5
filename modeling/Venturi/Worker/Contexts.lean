import Venturi.Worker.Fleet
import Venturi.Worker.Journal

namespace Venturi

open Collections PostgresStore

/-!
# What a handler is told of its job (`worker/mod.rs`, `context.rs`)

`Worker::run` reads the journal after the claim and its lease, in a call of its own, and hands it
to the handler as the history.  Between the claim and that read, and while the handler runs,
other parties go on.

* `Faithful` — as long as the claim is current, the history is the whole journal of the job.
* `faithful_of_run` — so is that of every run a fleet starts.
* `contexts_honest` — so the handler of a current claim was told of every earlier run, once and
  in order, of as many failures as the row counts, and of nothing else.
-/

/-! ### Faithful histories -/

/-- While the job is claimed at this run, the history is its whole journal. -/
def Faithful (runNo : Nat) (history : List JournalEntry) (job : Option Job) : Prop :=
  ∀ j ∈ job, j.row.status = .claimed → j.row.runCount = runNo →
    history = j.log.map JournalEntry.fromRecord

section Faithful

variable {runNo : Nat} {history : List JournalEntry} {s s' : PostgresStore} {id : Ulid}

/-- **A step leaves a faithful history faithful**: while the claim is current, nothing is
    journaled. -/
theorem Faithful.step {now : DateTime} {c : Call} {mark : Mark} {job job' : Option Job}
    (h : Faithful runNo history job) (hpast : ∀ j ∈ job, runNo ≤ j.row.runCount)
    (hs : Job.Step now c mark job job') : Faithful runNo history job' := by
  cases hs with
  | enqueue =>
    -- a new job is pending
    rintro _ ⟨⟩ hclaimed
    cases hclaimed
  | @claim kinds floor lease claimedBy row log =>
    -- the claim is of a later epoch
    rintro _ ⟨⟩ - hcount
    have hle : runNo ≤ row.runCount := hpast ⟨row, log⟩ rfl
    have hnext : row.runCount + 1 = runNo := hcount
    omega
  | @settle claimedBy settlement =>
    -- the entry is written with the end of the claim
    rintro _ ⟨⟩ hclaimed
    exact absurd hclaimed (Settlement.set_status_ne settlement _)
  | recover =>
    rintro _ ⟨⟩ hclaimed
    cases hclaimed
  | @extendLease claimedBy lease row log =>
    rintro _ ⟨⟩ hclaimed hcount
    exact h ⟨row, log⟩ rfl hclaimed hcount
  | cleanup =>
    intro j hj
    cases hj
  | merge hpending =>
    rintro _ ⟨⟩ hclaimed
    rw [JobRecord.merge_status, hpending] at hclaimed
    cases hclaimed

/-- A run number that was handed out is not ahead of the row. -/
theorem Epochs.handed_le {H : History} {job : Option Job} (h : Epochs id H job)
    (hn : runNo ∈ handedOut id H) : ∀ j ∈ job, runNo ≤ j.row.runCount := by
  intro j hj
  obtain ⟨k, -, hrange, hcount⟩ := h.counted
  rw [hrange, List.mem_range'_1] at hn
  have hk := hcount j hj
  omega

/-- So does a step of the store. -/
theorem Faithful.storeStep {H : History} {e : Event} (h : Faithful runNo history (s.view id))
    (hrun : PostgresStore.Run H s) (hfresh : FreshIds H) (hhanded : runNo ∈ handedOut id H)
    (hs : s.Step e s') : Faithful runNo history (s'.view id) := by
  rcases exec_view hs id with ⟨hview, -⟩ | hstep
  · rw [hview]
    exact h
  · exact h.step ((epochs_of_run hrun hfresh id).handed_le hhanded) hstep

/-- What a read of the journal returns is faithful. -/
theorem faithful_of_journal {env : Env} {records : List JournalRecord}
    (hs : s.Step ⟨env, .journal id, .ok records⟩ s') :
    Faithful runNo (records.map JournalEntry.fromRecord) (s'.view id) := by
  obtain ⟨hreply, rfl⟩ := Prod.mk.inj hs
  obtain rfl := Except.ok.inj hreply
  intro j hj _ _
  rw [(view_eq_some.mp hj).2]

end Faithful

/-! ### The histories of a loop -/

section Loop

variable {fl : ℚ → ℚ} {registry : Registry} {w : Worker} {st st' : Loop} {label : LoopLabel}
  {job : JobRecord} {history : List JournalEntry}

/-- A loop about to spawn was so before, or has just read the journal. -/
theorem Loop.Step.spawning_inv (hs : Loop.Step fl registry w st label st')
    (h : st'.phase = .spawning job history) :
    st.phase = .spawning job history ∨
      (∃ records, label = .call (.journal job.id) (.ok records) ∧
        history = records.map JournalEntry.fromRecord) ∨
      ∃ error, label = .call (.journal job.id) (.error error) := by
  cases hs with
  | load _ records =>
    obtain ⟨rfl, rfl⟩ := Phase.spawning.inj h
    exact .inr (.inl ⟨records, rfl, rfl⟩)
  | loadFailed _ error =>
    obtain ⟨rfl, rfl⟩ := Phase.spawning.inj h
    exact .inr (.inr ⟨error, rfl⟩)
  | ended | cancelled | forceFailed => exact .inl h
  | @settle finished stage | @reapFailed stage => cases stage <;> cases h
  | _ => cases h

/-- A task is spawned with the history that was read for it. -/
theorem Loop.Step.spawned_history {id : TaskId}
    (hs : Loop.Step fl registry w st (.spawned id job) st') : ∃ history,
      st.phase = .spawning job history ∧ st'.running.lookup id = some ⟨job, history, none⟩ := by
  cases hs with
  | @spawn _ history h _ hnew => exact ⟨history, h, AList.lookup_insert _⟩

end Loop

/-! ### The histories of a fleet -/

section Fleet

variable {ι : Type} {fl : ℚ → ℚ} {crew : Crew ι} {tr : FleetHistory ι} {x x' : Fleet ι}
  {m : Trace.Move (Fleet ι) (FleetLabel ι)} {label : FleetLabel ι}

/-- The histories that are read, and those that were handed to handlers, are faithful. -/
structure Fleet.Faithful (tr : FleetHistory ι) (x : Fleet ι) : Prop where
  read : ∀ i job history, (x.loops i).phase = .spawning job history →
    Venturi.Faithful job.runCount history (x.store.view job.id)
  given : ∀ e history, (e, history) ∈ startedRuns tr →
    Venturi.Faithful e.2 history (x.store.view e.1)

/-- A step of the store keeps a faithful history of a run that was handed out. -/
theorem Fleet.Step.keeps (hs : Fleet.Step fl crew tr x label x') (hrun : FleetRun fl crew tr x)
    (hfresh : FreshIds (sharedHistory tr)) {id : Ulid} {runNo : Nat}
    {history : List JournalEntry} (hhanded : runNo ∈ handedOut id (sharedHistory tr))
    (h : Venturi.Faithful runNo history (x.store.view id)) :
    Venturi.Faithful runNo history (x'.store.view id) := by
  cases he : label.event? with
  | none =>
    rw [hs.still he]
    exact h
  | some e => exact h.storeStep (FleetRun.store hrun) hfresh hhanded (hs.store e he)

/-- A worker about to spawn was so before, or has just read the journal. -/
theorem Fleet.Step.spawning_inv (hs : Fleet.Step fl crew tr x label x') {i : ι} {job : JobRecord}
    {history : List JournalEntry} (h : (x'.loops i).phase = .spawning job history)
    (hread : ∀ i id error, label.loop? ≠ some (i, .call (.journal id) (.error error))) :
    (x.loops i).phase = .spawning job history ∨ ∃ env records,
      label = .own i env (.call (.journal job.id) (.ok records)) ∧
        history = records.map JournalEntry.fromRecord := by
  rcases hs.own_or_idle i with ⟨l, hl⟩ | hidle
  · rcases (hs.loop i l hl).1.spawning_inv h with hbefore | ⟨records, rfl, heq⟩ | ⟨error, rfl⟩
    · exact .inl hbefore
    · obtain ⟨env, rfl⟩ := FleetLabel.own_of_ok hl
      exact .inr ⟨env, records, rfl, heq⟩
    · exact absurd hl (hread i job.id error)
  · rw [hidle] at h
    exact .inl h

/-- A run is started with the history that was read for it. -/
theorem Fleet.Step.started_history (hs : Fleet.Step fl crew tr x label x') {e : Epoch}
    {history : List JournalEntry} (h : startedRun? ⟨x, label, x'⟩ = some (e, history)) :
    ∃ i job, (x.loops i).phase = .spawning job history ∧ job.epoch = e := by
  unfold startedRun? at h
  split at h
  · next i env id job hlabel =>
    obtain rfl : label = .own i env (.spawned id job) := hlabel
    obtain ⟨history', hphase, hlookup⟩ := (hs.loop i _ rfl).1.spawned_history
    have hrun : some (job.epoch, history') = some (e, history) := by
      rw [← h]
      show _ = ((x'.loops i).running.lookup id).map _
      rw [hlookup]
      rfl
    obtain ⟨hepoch, rfl⟩ := Prod.mk.inj (Option.some.inj hrun)
    exact ⟨i, job, hphase, hepoch⟩
  · cases h

/-- **One step.** -/
theorem Fleet.Faithful.step (h : Fleet.Faithful tr x) (hrun : FleetRun fl crew tr x)
    (hs : Fleet.Step fl crew tr x label x') (hfresh : FreshIds (sharedHistory tr))
    (hread : ∀ i id error, label.loop? ≠ some (i, .call (.journal id) (.error error))) :
    Fleet.Faithful (tr ++ [⟨x, label, x'⟩]) x' := by
  have honce := startsOnce_of_run hrun hfresh
  -- a job about to be spawned is in hand
  have hheld : ∀ i job history, (x.loops i).phase = .spawning job history →
      job.runCount ∈ handedOut job.id (sharedHistory tr) := by
    intro i job history hphase
    refine (honce.held i job ?_).1
    rw [Loop.custody, hphase]
    rfl
  constructor
  case read =>
    intro i job history hphase
    rcases hs.spawning_inv hphase hread with hbefore | ⟨env, records, rfl, rfl⟩
    · exact hs.keeps hrun hfresh (hheld i job history hbefore) (h.read i job history hbefore)
    · exact faithful_of_journal (hs.store _ rfl)
  case given =>
    intro e history hmem
    rw [startedRuns_snoc] at hmem
    rcases List.mem_append.mp hmem with hmem | hmem
    · have hkey : e ∈ (startedRuns tr).map Prod.fst := List.mem_map_of_mem hmem
      exact hs.keeps hrun hfresh (honce.handed e hkey) (h.given e history hmem)
    · obtain ⟨i, job, hphase, rfl⟩ := hs.started_history (Option.mem_toList.mp hmem)
      exact hs.keeps hrun hfresh (hheld i job history hphase) (h.read i job history hphase)

/-- **Every history is faithful**, in every run of a fleet that reads the journals. -/
theorem faithful_of_run (h : FleetRun fl crew tr x) (hfresh : FreshIds (sharedHistory tr))
    (hread : JournalsRead tr) : Fleet.Faithful tr x := by
  refine Trace.Run.invariant (I := fun tr x => FreshIds (sharedHistory tr) → JournalsRead tr →
    Fleet.Faithful tr x) ?_ ?_ h hfresh hread
  · intro _ _
    constructor
    · intro i job history hphase
      rcases Loop.start_phase (crew.registry i) with h | h <;> cases h.symm.trans hphase
    · intro e history hmem
      cases hmem
  · intro tr x label x' hrun hI hs hfresh hread
    have hfresh' : FreshIds (sharedHistory tr) := freshIds_of_snoc hfresh
    have hread' : JournalsRead tr := fun m hm => hread m (List.mem_append_left _ hm)
    exact (hI hfresh' hread').step hrun hs hfresh'
      (hread ⟨x, label, x'⟩ (List.mem_append_right _ (List.mem_singleton_self _)))

/-- The history as its journal has it: its executions are numbered like those of the journal. -/
theorem executions_fromRecord (log : List JournalRecord) :
    ((log.map JournalEntry.fromRecord).filter (fun e => e.outcome ≠ .merged)).map
        JournalEntry.runNo =
      (log.filter (fun e => e.outcome ≠ .merged)).map JournalRecord.runNo := by
  rw [List.filter_map, List.map_map]
  rfl

/-- The history counts the failures of the journal. -/
theorem failures_fromRecord (log : List JournalRecord) :
    (log.map JournalEntry.fromRecord).countP (fun e => e.outcome.isFailure) = failures log := by
  rw [List.countP_map]
  rfl

/-- **A handler is told the truth.**  In every run of a fleet whose workers read the journals,
    with any other workers and queues in between: the handler of every run, as long as its claim
    is current, was given the whole journal of its job.  So it was told of the runs before this
    one, each once and in order, and its history counts the failures that the row does. -/
theorem contexts_honest (h : FleetRun fl crew tr x) (hfresh : FreshIds (sharedHistory tr))
    (hread : JournalsRead tr) {id : Ulid} {runNo : Nat} {history : List JournalEntry}
    (hstarted : ((id, runNo), history) ∈ startedRuns tr) {j : Job}
    (hj : x.store.view id = some j) (hclaimed : j.row.status = .claimed)
    (hcount : j.row.runCount = runNo) :
    history = j.log.map JournalEntry.fromRecord ∧
      (history.filter (fun e => e.outcome ≠ .merged)).map JournalEntry.runNo =
        List.range' 1 (runNo - 1) ∧
      j.row.failureCount = min (history.countP (fun e => e.outcome.isFailure) : Int) i32Max := by
  -- the store of the fleet runs as that of the system, which numbers and counts the runs
  have hhistory : history = j.log.map JournalEntry.fromRecord :=
    (faithful_of_run h hfresh hread).given (id, runNo) history hstarted j hj hclaimed hcount
  obtain ⟨rt, -, hsystem⟩ := exists_handlerRun h hfresh
  have hnumbered := (journaled_of_run hsystem.system hfresh id j hj).numbered
  have hfailures := counted_of_run hsystem.system hfresh id j hj
  refine ⟨hhistory, ?_, ?_⟩
  · rw [hhistory, executions_fromRecord, ← hcount]
    rw [JobRecord.finishedRuns, if_pos hclaimed] at hnumbered
    exact hnumbered
  · rw [hhistory, failures_fromRecord]
    exact hfailures

end Fleet

/-- The handler of the second run is told of the first one, which failed. -/
theorem contexts_honest_sampleFleet :
    ∃ (tr : FleetHistory Bool) (j : Job), ((0, 2), sampleHistory) ∈ startedRuns tr ∧
      sampleRetried.after.view 0 = some j ∧
      sampleHistory = j.log.map JournalEntry.fromRecord ∧
      (sampleHistory.filter (fun e => e.outcome ≠ .merged)).map JournalEntry.runNo = [1] ∧
      sampleHistory.countP (fun e => e.outcome.isFailure) = 1 ∧ j.row.failureCount = 1 := by
  obtain ⟨_, _, tr, hrun, hfresh, hread, hstarted⟩ := sampled_retried (.unknownKind "feed")
  have hmem : ((0, 2), sampleHistory) ∈ startedRuns tr := by simp [hstarted]
  obtain ⟨hhistory, hruns, hfailures⟩ := contexts_honest hrun hfresh hread hmem rfl rfl rfl
  have hfailed : sampleHistory.countP (fun e => e.outcome.isFailure) = 1 := by decide
  rw [hfailed] at hfailures
  exact ⟨tr, _, hmem, rfl, hhistory, hruns, hfailed, hfailures⟩

end Venturi
