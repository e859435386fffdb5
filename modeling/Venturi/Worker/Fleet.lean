import Venturi.Worker.Carry
import Venturi.Worker.Custody
import Venturi.Worker.Slots

namespace Venturi

open Collections PostgresStore

/-!
# A fleet of workers over one store (`worker/mod.rs`)

Any number of loops, each a machine of its own, and the queues, over the store they share.  A
worker that dies is a loop that takes no further step; a call may fail on its way to the database,
or on its way back.

* `Fleet.Step` — one loop or one queue takes a step; the tasks of a loop run the handlers that
  are registered.
* `Custody.Handed` — what a worker has in custody it was handed by a claim of its own, and what
  it settles is what a handler reported for it.
* `startsOnce_of_run` — the run of a claim is started once, with one history.
* `fleet_refines` — so the history of the store is a run of the system.
-/

/-! ### The fleet -/

/-- The workers of a fleet, the kinds they claim, and the handlers they run. -/
structure Crew (ι : Type) where
  worker : ι → Worker
  registry : ι → Registry
  handlers : Worker → String → Option AnyHandler

def Crew.workers {ι : Type} (crew : Crew ι) (w : Worker) : Prop := ∃ i, crew.worker i = w

/-- The loops of the workers and the store they share. -/
structure Fleet (ι : Type) where
  loops : ι → Loop
  store : PostgresStore

/-- What happens in a fleet. -/
inductive FleetLabel (ι : Type) where
  /-- A step of a worker; `env` is what the backend contributes if it is a store call. -/
  | own (i : ι) (env : Env) (label : LoopLabel)
  /-- A store call of a worker that fails before it reaches the database. -/
  | failed (i : ι) (c : Call) (error : Error)
  /-- A store call of a worker that is executed, with this reply, and fails on the way back. -/
  | cut (i : ι) (env : Env) (c : Call) (reply : Except Error c.Answer) (error : Error)
  /-- A store call of a queue. -/
  | queue (e : Event)

section Fleet

variable {ι : Type}

/-- The step of a loop. -/
def FleetLabel.loop? : FleetLabel ι → Option (ι × LoopLabel)
  | .own i _ label => some (i, label)
  | .failed i c error => some (i, .call c (.error error))
  | .cut i _ c _ error => some (i, .call c (.error error))
  | .queue _ => none

/-- The step of the store. -/
def FleetLabel.event? : FleetLabel ι → Option Event
  | .own _ env (.call c reply) => some ⟨env, c, reply⟩
  | .own _ _ _ => none
  | .failed _ _ _ => none
  | .cut _ env c reply _ => some ⟨env, c, reply⟩
  | .queue e => some e

abbrev FleetHistory (ι : Type) := List (Trace.Move (Fleet ι) (FleetLabel ι))

/-- The store's part of a history. -/
def sharedHistory (tr : FleetHistory ι) : History :=
  Trace.project Fleet.store FleetLabel.event? tr

/-- What the task of a claimed job reports when its handler comes back. -/
def Crew.report (crew : Crew ι) (w : Worker) (job : JobRecord) (history : List JournalEntry) :
    Except Error RunReport :=
  dispatch (crew.handlers w) job.kind (job.runInput w.config.panicPolicy history)

/-- A task that returns reports what its handler does. -/
def Crew.Runs (crew : Crew ι) (w : Worker) (st : Loop) : LoopLabel → Prop
  | .ended id job (.returned report) =>
      ∀ task, st.running.lookup id = some task → report = crew.report w job task.history
  | _ => True

/-- One step of a fleet: what does not take part stays as it was. -/
structure Fleet.Step (fl : ℚ → ℚ) (crew : Crew ι) (tr : FleetHistory ι) (x : Fleet ι)
    (label : FleetLabel ι) (x' : Fleet ι) : Prop where
  loop : ∀ i l, label.loop? = some (i, l) →
    Loop.Step fl (crew.registry i) (crew.worker i) (x.loops i) l (x'.loops i) ∧
      crew.Runs (crew.worker i) (x.loops i) l
  idle : ∀ i, (∀ l, label.loop? ≠ some (i, l)) → x'.loops i = x.loops i
  store : ∀ e ∈ label.event?, x.store.Step e x'.store
  still : label.event? = none → x'.store = x.store
  /-- A queue makes no call of a worker. -/
  queue : ∀ e, label = .queue e → Made fl (fun _ => False) (sharedHistory tr) e.call

/-- The runs of a fleet. -/
abbrev FleetRun (fl : ℚ → ℚ) (crew : Crew ι) : FleetHistory ι → Fleet ι → Prop :=
  Trace.Run ⟨fun i => Loop.start (crew.registry i), PostgresStore.empty⟩ (Fleet.Step fl crew)

/-- The epoch of a run that a step starts, and the history its handler is given. -/
def startedRun? (m : Trace.Move (Fleet ι) (FleetLabel ι)) : Option (Epoch × List JournalEntry) :=
  match m.label with
  | .own i _ (.spawned id job) =>
      ((m.after.loops i).running.lookup id).map fun task => (job.epoch, task.history)
  | _ => none

/-- The runs that were started, each with the history its handler was given. -/
def startedRuns (tr : FleetHistory ι) : List (Epoch × List JournalEntry) :=
  tr.filterMap startedRun?

/-- No worker failed to read a journal. -/
def JournalsRead (tr : FleetHistory ι) : Prop :=
  ∀ m ∈ tr, ∀ i id error, m.label.loop? ≠ some (i, .call (.journal id) (.error error))

end Fleet

/-! ### What a worker was handed -/

section Handed

variable {ι : Type} (H : History) (started : List (Epoch × List JournalEntry)) (crew : Crew ι)
  (w : Worker)

/-- A claim of the worker returned the job, and its run was started with this history. -/
structure Started (job : JobRecord) (history : List JournalEntry) : Prop where
  claimed : ClaimedBy H w job
  run : (job.epoch, history) ∈ started

/-- What the worker has in hand it was handed, or a handler reported it. -/
def Hand.Handed : Hand → Prop
  | .free _ => True
  | .claimed job => ClaimedBy H w job
  | .finished run _ => ∃ job history, Started H started w job history ∧
      run = job.finished (crew.report w job history)
  | .stragglers jobs => ∀ job ∈ jobs, ∃ r, ClaimedBy H w r ∧ job = r.inflight

/-- **What a worker has in custody it was handed.** -/
structure Custody.Handed (x : Custody) : Prop where
  hand : x.hand.Handed H started crew w
  running : ∀ id task, x.running.lookup id = some task → Started H started w task.job task.history
  returned : ∀ id task report, x.running.lookup id = some task →
    task.result = some (.returned report) → report = crew.report w task.job task.history
  inflight : ∀ id job, x.inflight.lookup id = some job → ∃ r, ClaimedBy H w r ∧ job = r.inflight

end Handed

section HandedStep

variable {ι : Type} {fl : ℚ → ℚ} {crew : Crew ι} {w : Worker} {H H' : History}
  {started started' : List (Epoch × List JournalEntry)} {x x' : Custody} {label : LoopLabel}

theorem ClaimedBy.mono {job : JobRecord} (h : ClaimedBy H w job) (hH : H <+: H') :
    ClaimedBy H' w job := by
  obtain ⟨l, rfl⟩ := hH
  exact h.append

theorem Started.mono {job : JobRecord} {history : List JournalEntry}
    (h : Started H started w job history) (hH : H <+: H') (hstarted : started <+: started') :
    Started H' started' w job history where
  claimed := h.claimed.mono hH
  run := hstarted.subset h.run

theorem Custody.Handed.mono (h : x.Handed H started crew w) (hH : H <+: H')
    (hstarted : started <+: started') : x.Handed H' started' crew w where
  hand := by
    have hhand := h.hand
    cases hx : x.hand with
    | free aborted => trivial
    | claimed job =>
      rw [hx] at hhand
      exact ClaimedBy.mono hhand hH
    | finished run aborted =>
      rw [hx] at hhand
      obtain ⟨job, history, hrun, heq⟩ := hhand
      exact ⟨job, history, hrun.mono hH hstarted, heq⟩
    | stragglers jobs =>
      rw [hx] at hhand
      intro job hjob
      obtain ⟨r, hr, heq⟩ := hhand job hjob
      exact ⟨r, hr.mono hH, heq⟩
  running id task htask := (h.running id task htask).mono hH hstarted
  returned := h.returned
  inflight id job hjob := by
    obtain ⟨r, hr, heq⟩ := h.inflight id job hjob
    exact ⟨r, hr.mono hH, heq⟩

/-- What the shared history shows of a step of the worker. -/
structure Custody.Shown (H : History) (started : List (Epoch × List JournalEntry)) (crew : Crew ι)
    (w : Worker) (x : Custody) (label : LoopLabel) (x' : Custody) : Prop where
  claim : ∀ kinds floor lease job,
    label = .call (.claimNext kinds floor lease w.identity) (.ok (some job)) → ClaimedBy H w job
  spawn : ∀ id job task, label = .spawned id job → x'.running.lookup id = some task →
    (job.epoch, task.history) ∈ started
  ended : ∀ id job report task, label = .ended id job (.returned report) →
    x.running.lookup id = some task → report = crew.report w job task.history

/-- A worker that has less in custody, and a hand that it was handed. -/
theorem Custody.Handed.fewer (h : x.Handed H started crew w) {hand : Hand}
    {running : Map TaskId RunTask} {inflight : Map TaskId InflightJob}
    (hhand : hand.Handed H started crew w)
    (hrunning : ∀ id task, running.lookup id = some task → x.running.lookup id = some task)
    (hinflight : ∀ id job, inflight.lookup id = some job → x.inflight.lookup id = some job) :
    Custody.Handed H started crew w ⟨hand, running, inflight⟩ where
  hand := hhand
  running id task htask := h.running id task (hrunning id task htask)
  returned id task report htask := h.returned id task report (hrunning id task htask)
  inflight id job hjob := h.inflight id job (hinflight id job hjob)

/-- **One step of the custodian.** -/
theorem Custody.Handed.step (h : x.Handed H started crew w) (hs : Custody.Step fl w x label x')
    (hshown : Custody.Shown H started crew w x label x') : x'.Handed H started crew w := by
  have hhand := h.hand
  cases hs with
  | quiet => exact h
  | claim job => exact h.fewer (hshown.claim _ _ _ job rfl) (fun _ _ => id) (fun _ _ => id)
  | @spawn running inflight id job history hnew =>
    have hstarted : Started H started w job history :=
      ⟨hhand, hshown.spawn id job ⟨job, history, none⟩ rfl (AList.lookup_insert _)⟩
    refine ⟨trivial, ?_, ?_, ?_⟩
    · intro id' task htask
      rcases Map.lookup_of_insert htask with ⟨-, rfl⟩ | ⟨-, htask⟩
      · exact hstarted
      · exact h.running id' task htask
    · intro id' task report htask hresult
      rcases Map.lookup_of_insert htask with ⟨-, rfl⟩ | ⟨-, htask⟩
      · cases hresult
      · exact h.returned id' task report htask hresult
    · intro id' tracked hjob
      rcases Map.lookup_of_insert hjob with ⟨-, rfl⟩ | ⟨-, hjob⟩
      · exact ⟨job, hhand, rfl⟩
      · exact h.inflight id' tracked hjob
  | @ended hand running inflight id task htask hnone result =>
    refine ⟨hhand, ?_, ?_, h.inflight⟩
    · intro id' task' htask'
      rcases Map.lookup_of_insert htask' with ⟨-, rfl⟩ | ⟨-, htask'⟩
      · exact h.running id task htask
      · exact h.running id' task' htask'
    · intro id' task' report htask' hresult
      rcases Map.lookup_of_insert htask' with ⟨-, rfl⟩ | ⟨-, htask'⟩
      · obtain rfl := Option.some.inj hresult
        exact hshown.ended id task.job report task rfl htask
      · exact h.returned id' task' report htask' hresult
  | @join aborted running inflight id task report htask hresult =>
    -- what is to be settled is what the handler returned
    refine h.fewer ⟨task.job, task.history, h.running id task htask, ?_⟩ ?_ ?_
    · rw [h.returned id task report htask hresult]
    · exact fun id' task' htask' => (Map.lookup_of_erase htask').2
    · exact fun id' job hjob => (Map.lookup_of_erase hjob).2
  | drop htask hresult =>
    refine h.fewer trivial ?_ ?_
    · exact fun id' task' htask' => (Map.lookup_of_erase htask').2
    · exact fun id' job hjob => (Map.lookup_of_erase hjob).2
  | leave htask hresult =>
    refine h.fewer trivial ?_ (fun _ _ => id)
    exact fun id' task' htask' => (Map.lookup_of_erase htask').2
  | settle => exact h.fewer trivial (fun _ _ => id) (fun _ _ => id)
  | abort => exact h.fewer trivial (fun _ _ => id) (fun _ _ => id)
  | strand hempty hjobs =>
    -- the stragglers are the jobs that were still tracked
    refine h.fewer ?_ (fun _ _ => id) (by simp)
    intro job hjob
    obtain ⟨id, hid⟩ := Map.mem_values.mp (hjobs.subset hjob)
    exact h.inflight id job hid
  | release =>
    refine h.fewer ?_ (fun _ _ => id) (fun _ _ => id)
    exact fun job hjob => hhand job (List.mem_cons_of_mem _ hjob)

/-! ### The calls of a loop -/

/-- The stale claims a worker is about to recover, a scan listed. -/
def Phase.Listed (H : History) : Phase → Prop
  | .recovering _ stale => ∀ r ∈ stale, ListedStale H r
  | _ => True

theorem Phase.Listed.mono {phase : Phase} (h : phase.Listed H) (hH : H <+: H') :
    phase.Listed H' := by
  obtain ⟨l, rfl⟩ := hH
  cases phase with
  | recovering now stale =>
    intro r hr
    obtain ⟨m, hm, env, rs, hlabel, hmem⟩ := h r hr
    exact ⟨m, List.mem_append_left _ hm, env, rs, hlabel, hmem⟩
  | _ => trivial

variable {registry : Registry} {st st' : Loop}

/-- What a worker is about to recover was listed, after every step of its loop. -/
theorem Loop.Step.listed (hs : Loop.Step fl registry w st label st') (h : st.phase.Listed H)
    (hshown : ∀ stale, label = .call .findStale (.ok stale) → ∀ r ∈ stale, ListedStale H r) :
    st'.phase.Listed H := by
  cases hs with
  | scan hphase now stale => exact hshown stale rfl
  | recover hphase reply =>
    rw [hphase] at h
    exact fun r hr => h r (List.mem_cons_of_mem _ hr)
  | @reapFailed stage => cases stage <;> trivial
  | @settle finished stage => cases stage <;> trivial
  | forceFailed | ended | cancelled => exact h
  | _ => trivial

/-- A settlement of the worker releases a claim, or settles a run as its handler reported it. -/
def Reported (fl : ℚ → ℚ) (H : History) (started : List (Epoch × List JournalEntry))
    (crew : Crew ι) (w : Worker) (c : Call) : Prop :=
  ∀ id claimedBy runNo settlement entry, c = .settle id claimedBy runNo settlement entry →
    (∃ visibleAt, settlement = .release visibleAt) ∨
      ∃ job history now, Started H started w job history ∧
        c = w.settle fl now (job.finished (crew.report w job history))

/-- A call that is no settlement settles nothing. -/
theorem Reported.other {c : Call}
    (h : ∀ id claimedBy runNo settlement entry, c ≠ .settle id claimedBy runNo settlement entry) :
    Reported fl H started crew w c :=
  fun id claimedBy runNo settlement entry hc =>
    absurd hc (h id claimedBy runNo settlement entry)

/-- **A call of a loop is one of the system.** -/
theorem Loop.Step.made {workers : Worker → Prop} {c : Call} {reply : Except Error c.Answer}
    (hs : Loop.Step fl registry w st (.call c reply) st') (hw : workers w)
    (hhanded : st.custody.Handed H started crew w) (hlisted : st.phase.Listed H) :
    Made fl workers H c ∧ Reported fl H started crew w c := by
  have hhand := hhanded.hand
  cases hs with
  | scan | scanFailed => exact ⟨.findStale, .other (by simp)⟩
  | @recover now job stale hphase reply =>
    rw [hphase] at hlisted
    refine ⟨.recover hw (hlisted job List.mem_cons_self) now, .other ?_⟩
    simp [Worker.recovery]
  | claimed | nothing | fallBack | claimFailed | claimedAny | nothingAny | claimAnyFailed =>
    exact ⟨.claimNext hw _ _, .other (by simp)⟩
  | @extend job lease hphase hlease reply =>
    have hclaim : ClaimedBy H w job := by
      rw [Loop.custody, hphase] at hhand
      exact hhand
    exact ⟨.extendLease hw hclaim lease, .other (by simp)⟩
  | load | loadFailed => exact ⟨.journal _, .other (by simp)⟩
  | measure => exact ⟨.nextVisibleAt _, .other (by simp)⟩
  | @settle finished stage hphase now reply =>
    rw [Loop.custody, hphase] at hhand
    -- the run in hand was claimed by this worker, under the identity it settles with
    obtain ⟨job, history, hstarted, rfl⟩ := hhand
    refine ⟨.settle hw hstarted.claimed now _, ?_⟩
    exact fun _ _ _ _ _ _ => .inr ⟨job, history, now, hstarted, rfl⟩
  | @release job jobs hphase now reply =>
    rw [Loop.custody, hphase] at hhand
    obtain ⟨r, hr, rfl⟩ := hhand job List.mem_cons_self
    refine ⟨.release hw hr now, ?_⟩
    rintro _ _ _ _ _ hc
    obtain ⟨-, -, -, rfl, -⟩ := Call.settle.inj hc
    exact .inl ⟨_, rfl⟩

/-- A worker starts with a scan, or returns at once. -/
theorem Loop.start_phase (registry : Registry) :
    (Loop.start registry).phase = .returned ∨ (Loop.start registry).phase = .scanning := by
  unfold Loop.start
  by_cases hkinds : registry.kinds = [] <;> simp [hkinds]

/-- A worker starts with nothing. -/
theorem Loop.start_handed (registry : Registry) :
    (Loop.start registry).custody.Handed H started crew w ∧
      (Loop.start registry).phase.Listed H := by
  have hphase := Loop.start_phase registry
  constructor
  · refine ⟨?_, by simp [Loop.custody, Loop.start], by simp [Loop.custody, Loop.start],
      by simp [Loop.custody, Loop.start]⟩
    rw [Loop.custody]
    rcases hphase with hphase | hphase <;> rw [hphase] <;> simp [Phase.hand, Hand.Handed]
  · rcases hphase with hphase | hphase <;> rw [hphase] <;> trivial

/-! ### Claims and their runs -/

/-- A worker has a claimed job in hand if it had it before, or claims it. -/
theorem Custody.Step.claimed_inv (hs : Custody.Step fl w x label x') {job : JobRecord}
    (h : x'.hand = .claimed job) : x.hand = .claimed job ∨ ∃ kinds floor,
      label = .call (.claimNext kinds floor w.config.lease w.identity) (.ok (some job)) := by
  cases hs with
  | quiet | ended => exact .inl h
  | @claim running inflight kinds floor job' =>
    obtain rfl := Hand.claimed.inj h
    exact .inr ⟨kinds, floor, rfl⟩
  | _ => cases h

/-- A run is started for the job in hand. -/
theorem Loop.Step.spawned_inv {id : TaskId} {job : JobRecord}
    (hs : Loop.Step fl registry w st (.spawned id job) st') :
    st.custody.hand = .claimed job ∧ st'.custody.hand = .free false := by
  cases hs with
  | spawn hphase => exact ⟨by rw [Loop.custody, hphase]; rfl, rfl⟩

end HandedStep

/-! ### The runs of a fleet -/

section Runs

variable {ι : Type} {fl : ℚ → ℚ} {crew : Crew ι} {tr : FleetHistory ι} {x x' : Fleet ι}
  {m : Trace.Move (Fleet ι) (FleetLabel ι)} {label : FleetLabel ι}

theorem sharedHistory_snoc :
    sharedHistory (tr ++ [m]) =
      sharedHistory tr ++ (m.project Fleet.store FleetLabel.event?).toList := Trace.project_snoc

theorem startedRuns_snoc :
    startedRuns (tr ++ [m]) = startedRuns tr ++ (startedRun? m).toList := by
  rw [startedRuns, List.filterMap_append]
  cases h : startedRun? m <;> simp [startedRuns, h]

theorem sharedHistory_grows : sharedHistory tr <+: sharedHistory (tr ++ [m]) := by
  rw [sharedHistory_snoc]
  exact List.prefix_append _ _

theorem startedRuns_grows : startedRuns tr <+: startedRuns (tr ++ [m]) := by
  rw [startedRuns_snoc]
  exact List.prefix_append _ _

/-- What a worker is answered, the store replied. -/
theorem FleetLabel.own_of_ok {i : ι} {c : Call} {answer : c.Answer}
    (h : label.loop? = some (i, .call c (.ok answer))) :
    ∃ env, label = .own i env (.call c (.ok answer)) := by
  cases label with
  | own k env l =>
    obtain ⟨rfl, rfl⟩ := Prod.mk.inj (Option.some.inj h)
    exact ⟨env, rfl⟩
  | failed k c' error => cases h
  | cut k env c' reply error => cases h
  | queue e => cases h

/-- What is no store call of a worker is its own step. -/
theorem FleetLabel.own_of_other {i : ι} {l : LoopLabel} (h : label.loop? = some (i, l))
    (hl : ∀ c reply, l ≠ .call c reply) : ∃ env, label = .own i env l := by
  cases label with
  | own k env l' =>
    obtain ⟨rfl, rfl⟩ := Prod.mk.inj (Option.some.inj h)
    exact ⟨env, rfl⟩
  | failed k c' error =>
    obtain ⟨-, rfl⟩ := Prod.mk.inj (Option.some.inj h)
    exact absurd rfl (hl c' _)
  | cut k env c' reply error =>
    obtain ⟨-, rfl⟩ := Prod.mk.inj (Option.some.inj h)
    exact absurd rfl (hl c' _)
  | queue e => cases h

/-- The store takes part in the run of its own history. -/
theorem FleetRun.store (h : FleetRun fl crew tr x) :
    PostgresStore.Run (sharedHistory tr) x.store :=
  Trace.Run.project (fun _ _ _ _ hs => hs.store) (fun _ _ _ _ hs => hs.still) h

/-- A worker takes part in a step, or stays as it was. -/
theorem Fleet.Step.own_or_idle (hs : Fleet.Step fl crew tr x label x') (i : ι) :
    (∃ l, label.loop? = some (i, l)) ∨ x'.loops i = x.loops i := by
  by_cases hown : ∃ l, label.loop? = some (i, l)
  · exact .inl hown
  · exact .inr (hs.idle i fun l hl => hown ⟨l, hl⟩)

/-- A step of the store is the last of its history. -/
theorem mem_sharedHistory_last {e : Event} (he : label.event? = some e) :
    ⟨x.store, e, x'.store⟩ ∈ sharedHistory (tr ++ [⟨x, label, x'⟩]) := by
  rw [sharedHistory_snoc, Trace.Move.project, he]
  exact List.mem_append_right _ (List.mem_singleton_self _)

theorem freshIds_of_snoc (h : FreshIds (sharedHistory (tr ++ [m]))) :
    FreshIds (sharedHistory tr) := by
  rw [sharedHistory_snoc] at h
  exact h.of_append

/-- A step of a fleet shows in its history. -/
theorem Fleet.Step.shown {i : ι} {l : LoopLabel} (hs : Fleet.Step fl crew tr x label x')
    (hlabel : label.loop? = some (i, l)) :
    Custody.Shown (sharedHistory (tr ++ [⟨x, label, x'⟩])) (startedRuns (tr ++ [⟨x, label, x'⟩]))
      crew (crew.worker i) (x.loops i).custody l (x'.loops i).custody where
  claim kinds floor lease job hl := by
    subst hl
    obtain ⟨env, rfl⟩ := FleetLabel.own_of_ok hlabel
    exact ⟨_, mem_sharedHistory_last rfl, env, kinds, floor, lease, rfl⟩
  spawn id job task hl htask := by
    subst hl
    obtain ⟨env, rfl⟩ := FleetLabel.own_of_other hlabel (by simp)
    have hstarted : startedRun? ⟨x, .own i env (.spawned id job), x'⟩ =
        some (job.epoch, task.history) := congrArg (Option.map _) htask
    rw [startedRuns_snoc, hstarted]
    exact List.mem_append_right _ (List.mem_singleton_self _)
  ended id job report task hl htask := by
    subst hl
    exact (hs.loop i _ hlabel).2 task htask

/-- **What the workers have they were handed**, in every run. -/
theorem handed_of_run (h : FleetRun fl crew tr x) (i : ι) :
    (x.loops i).custody.Handed (sharedHistory tr) (startedRuns tr) crew (crew.worker i) ∧
      (x.loops i).phase.Listed (sharedHistory tr) := by
  refine Trace.Run.invariant (I := fun tr x =>
    (x.loops i).custody.Handed (sharedHistory tr) (startedRuns tr) crew (crew.worker i) ∧
      (x.loops i).phase.Listed (sharedHistory tr)) ?_ ?_ h
  · exact Loop.start_handed (crew.registry i)
  · intro tr x label x' _ ⟨hhanded, hlisted⟩ hs
    have hhanded' := hhanded.mono (sharedHistory_grows (m := ⟨x, label, x'⟩))
      (startedRuns_grows (m := ⟨x, label, x'⟩))
    have hlisted' := hlisted.mono (sharedHistory_grows (m := ⟨x, label, x'⟩))
    rcases hs.own_or_idle i with ⟨l, hl⟩ | hidle
    · obtain ⟨hloop, -⟩ := hs.loop i l hl
      refine ⟨hhanded'.step hloop.custody (hs.shown hl), hloop.listed hlisted' ?_⟩
      rintro stale rfl r hr
      obtain ⟨env, rfl⟩ := FleetLabel.own_of_ok hl
      exact ⟨_, mem_sharedHistory_last rfl, env, stale, rfl, hr⟩
    · rw [hidle]
      exact ⟨hhanded', hlisted'⟩

/-! ### Each claim is run once -/

theorem mem_handedOut_append {H H' : History} {id : Ulid} {n : Nat} (h : n ∈ handedOut id H) :
    n ∈ handedOut id (H ++ H') := by
  rw [handedOut, List.filterMap_append]
  exact List.mem_append_left _ h

/-- A claim hands out a run number that was not handed out before. -/
theorem handedOut_of_claim {H : History} {s s' : PostgresStore} {env : Env} {kinds : List String}
    {floor : Int} {lease : Duration} {claimedBy : String} {job : JobRecord}
    (hrun : PostgresStore.Run H s)
    (hs : s.Step ⟨env, .claimNext kinds floor lease claimedBy, .ok (some job)⟩ s')
    (hfresh : FreshIds (H ++ [⟨s, ⟨env, .claimNext kinds floor lease claimedBy,
      .ok (some job)⟩, s'⟩])) :
    job.runCount ∉ handedOut job.id H ∧ job.runCount ∈ handedOut job.id (H ++ [⟨s, ⟨env,
      .claimNext kinds floor lease claimedBy, .ok (some job)⟩, s'⟩]) := by
  have hmark : Event.mark job.id ⟨env, .claimNext kinds floor lease claimedBy, .ok (some job)⟩ =
      .handed job.runCount := by simp [Event.mark, Event.effect]
  obtain ⟨k, -, hrange, -⟩ := (epochs_of_run (hrun.snoc hs) hfresh job.id).counted
  rw [handedOut_snoc, hmark] at hrange ⊢
  -- the run numbers are handed out in order
  have hnodup : (handedOut job.id H ++ [job.runCount]).Nodup := by
    show (handedOut job.id H ++ (Mark.handed job.runCount).handed?.toList).Nodup
    rw [hrange]
    exact List.nodup_range'
  rw [List.nodup_append] at hnodup
  refine ⟨fun hmem => ?_, List.mem_append_right _ (List.mem_singleton_self _)⟩
  exact hnodup.2.2 _ hmem _ (List.mem_singleton_self _) rfl

/-- A claimed job is in one hand, or its run was started once. -/
structure StartsOnce (tr : FleetHistory ι) (x : Fleet ι) : Prop where
  nodup : ((startedRuns tr).map Prod.fst).Nodup
  handed : ∀ e ∈ (startedRuns tr).map Prod.fst, e.2 ∈ handedOut e.1 (sharedHistory tr)
  held : ∀ i job, (x.loops i).custody.hand = .claimed job →
    job.runCount ∈ handedOut job.id (sharedHistory tr) ∧
      job.epoch ∉ (startedRuns tr).map Prod.fst
  apart : ∀ i k job job', (x.loops i).custody.hand = .claimed job →
    (x.loops k).custody.hand = .claimed job' → job.epoch = job'.epoch → i = k

/-- A worker has a claimed job in hand if it had it before, or claims it. -/
theorem Fleet.Step.claimed_inv (hs : Fleet.Step fl crew tr x label x') {i : ι} {job : JobRecord}
    (h : (x'.loops i).custody.hand = .claimed job) :
    (x.loops i).custody.hand = .claimed job ∨ ∃ env kinds floor lease claimedBy,
      label = .own i env (.call (.claimNext kinds floor lease claimedBy) (.ok (some job))) := by
  rcases hs.own_or_idle i with ⟨l, hl⟩ | hidle
  · rcases (hs.loop i l hl).1.custody.claimed_inv h with hbefore | ⟨kinds, floor, rfl⟩
    · exact .inl hbefore
    · obtain ⟨env, rfl⟩ := FleetLabel.own_of_ok hl
      exact .inr ⟨env, kinds, floor, _, _, rfl⟩
  · rw [hidle] at h
    exact .inl h

/-- A run is started for the job in hand. -/
theorem Fleet.Step.started_inv (hs : Fleet.Step fl crew tr x label x') {e : Epoch}
    {history : List JournalEntry} (h : startedRun? ⟨x, label, x'⟩ = some (e, history)) :
    ∃ i job, (x.loops i).custody.hand = .claimed job ∧ (x'.loops i).custody.hand = .free false ∧
      job.epoch = e ∧ label.event? = none ∧ ∃ env id, label = .own i env (.spawned id job) := by
  unfold startedRun? at h
  split at h
  · next i env id job hlabel =>
    obtain rfl : label = .own i env (.spawned id job) := hlabel
    obtain ⟨task, -, htask⟩ := Option.map_eq_some_iff.mp h
    obtain ⟨hbefore, hafter⟩ := (hs.loop i _ rfl).1.spawned_inv
    exact ⟨i, job, hbefore, hafter, (Prod.mk.inj htask).1, rfl, env, id, rfl⟩
  · cases h

/-- A step that starts a run, of a claim that has none. -/
theorem StartsOnce.started (h : StartsOnce tr x) (hs : Fleet.Step fl crew tr x label x')
    {run : Epoch × List JournalEntry} (hrun : startedRun? ⟨x, label, x'⟩ = some run) :
    StartsOnce (tr ++ [⟨x, label, x'⟩]) x' := by
  obtain ⟨i, job, hbefore, hafter, hepoch, hevent, env, id, rfl⟩ := hs.started_inv hrun
  have hsame : sharedHistory (tr ++ [⟨x, .own i env (.spawned id job), x'⟩]) =
      sharedHistory tr := by
    rw [sharedHistory_snoc]
    exact List.append_nil _
  have hkeys : (startedRuns (tr ++ [⟨x, .own i env (.spawned id job), x'⟩])).map Prod.fst =
      (startedRuns tr).map Prod.fst ++ [job.epoch] := by
    rw [startedRuns_snoc, hrun, hepoch]
    simp
  obtain ⟨hhanded, hnew⟩ := h.held i job hbefore
  -- the other hands are as they were
  have hothers : ∀ k job', (x'.loops k).custody.hand = .claimed job' →
      (x.loops k).custody.hand = .claimed job' ∧ k ≠ i := by
    intro k job' hk
    constructor
    · rcases hs.claimed_inv hk with hk | ⟨_, _, _, _, _, hlabel⟩
      · exact hk
      · cases hlabel
    · rintro rfl
      rw [hafter] at hk
      cases hk
  constructor
  case nodup =>
    rw [hkeys, List.nodup_append]
    refine ⟨h.nodup, List.nodup_singleton _, ?_⟩
    rintro e he _ hlast rfl
    rw [List.mem_singleton.mp hlast] at he
    exact hnew he
  case handed =>
    intro e he
    rw [hsame]
    rw [hkeys] at he
    rcases List.mem_append.mp he with he | he
    · exact h.handed e he
    · rw [List.mem_singleton.mp he]
      exact hhanded
  case held =>
    intro k job' hk
    obtain ⟨hk, hne⟩ := hothers k job' hk
    obtain ⟨hhanded', hnew'⟩ := h.held k job' hk
    rw [hsame, hkeys]
    refine ⟨hhanded', fun hmem => ?_⟩
    rcases List.mem_append.mp hmem with hmem | hmem
    · exact hnew' hmem
    · exact hne (h.apart k i job' job hk hbefore (List.mem_singleton.mp hmem))
  case apart =>
    intro k k' job₁ job₂ hk hk' heq
    exact h.apart k k' job₁ job₂ (hothers k job₁ hk).1 (hothers k' job₂ hk').1 heq

/-- A step that starts no run. -/
theorem StartsOnce.other (h : StartsOnce tr x) (hrun : FleetRun fl crew tr x)
    (hs : Fleet.Step fl crew tr x label x')
    (hfresh : FreshIds (sharedHistory (tr ++ [⟨x, label, x'⟩])))
    (hnone : startedRun? ⟨x, label, x'⟩ = none) : StartsOnce (tr ++ [⟨x, label, x'⟩]) x' := by
  have hsame : startedRuns (tr ++ [⟨x, label, x'⟩]) = startedRuns tr := by
    rw [startedRuns_snoc, hnone]
    exact List.append_nil _
  have hgrows : ∀ id n, n ∈ handedOut id (sharedHistory tr) →
      n ∈ handedOut id (sharedHistory (tr ++ [⟨x, label, x'⟩])) := by
    intro id n hn
    rw [sharedHistory_snoc]
    exact mem_handedOut_append hn
  -- a job in hand was in hand before, or it is claimed in a new epoch
  have hhands : ∀ k job, (x'.loops k).custody.hand = .claimed job →
      (x.loops k).custody.hand = .claimed job ∨
        ((∀ k' job', (x'.loops k').custody.hand = .claimed job' →
            (x.loops k').custody.hand = .claimed job' ∨ k' = k) ∧
          job.runCount ∉ handedOut job.id (sharedHistory tr) ∧
          job.runCount ∈ handedOut job.id (sharedHistory (tr ++ [⟨x, label, x'⟩]))) := by
    intro k job hk
    rcases hs.claimed_inv hk with hk | ⟨env, kinds, floor, lease, claimedBy, rfl⟩
    · exact .inl hk
    · refine .inr ⟨fun k' job' hk' => ?_, ?_⟩
      · by_cases hne : k' = k
        · exact .inr hne
        · left
          rwa [hs.idle k' (fun l hl => hne (Prod.mk.inj (Option.some.inj hl)).1.symm)] at hk'
      · rw [sharedHistory_snoc] at hfresh ⊢
        exact handedOut_of_claim (FleetRun.store hrun) (hs.store _ rfl) hfresh
  constructor
  case nodup =>
    rw [hsame]
    exact h.nodup
  case handed =>
    intro e he
    rw [hsame] at he
    exact hgrows e.1 e.2 (h.handed e he)
  case held =>
    intro k job hk
    rw [hsame]
    rcases hhands k job hk with hk | ⟨-, hnew, hnow⟩
    · obtain ⟨hhanded, hunstarted⟩ := h.held k job hk
      exact ⟨hgrows _ _ hhanded, hunstarted⟩
    · exact ⟨hnow, fun hmem => hnew (h.handed job.epoch hmem)⟩
  case apart =>
    intro k k' job job' hk hk' heq
    -- of two hands with one epoch, neither has just claimed what the other held before
    obtain ⟨hid, hcount⟩ := Prod.mk.inj heq
    rcases hhands k job hk with hold | ⟨hothers, hnew, -⟩
    · rcases hhands k' job' hk' with hold' | ⟨-, hnew', -⟩
      · exact h.apart k k' job job' hold hold' heq
      · refine absurd ?_ hnew'
        rw [← hid, ← hcount]
        exact (h.held k job hold).1
    · rcases hothers k' job' hk' with hold' | hsamehand
      · refine absurd ?_ hnew
        rw [hid, hcount]
        exact (h.held k' job' hold').1
      · exact hsamehand.symm

/-- **The run of a claim is started once**, in every run of a fleet. -/
theorem startsOnce_of_run (h : FleetRun fl crew tr x) (hfresh : FreshIds (sharedHistory tr)) :
    StartsOnce tr x := by
  refine Trace.Run.invariant (I := fun tr x => FreshIds (sharedHistory tr) → StartsOnce tr x)
    ?_ ?_ h hfresh
  · intro _
    -- no worker starts with a job in hand
    have hfree : ∀ i job, (Loop.start (crew.registry i)).custody.hand ≠ .claimed job := by
      intro i job
      rw [Loop.custody]
      rcases Loop.start_phase (crew.registry i) with hphase | hphase <;> rw [hphase] <;>
        simp [Phase.hand]
    exact ⟨List.nodup_nil, by simp [startedRuns], fun i job hi => absurd hi (hfree i job),
      fun i k job job' hi => absurd hi (hfree i job)⟩
  · intro tr x label x' hrun hI hs hfresh
    have hfresh' : FreshIds (sharedHistory tr) := freshIds_of_snoc hfresh
    cases hstarted : startedRun? ⟨x, label, x'⟩ with
    | some run => exact (hI hfresh').started hs hstarted
    | none => exact (hI hfresh').other hrun hs hfresh hstarted

/-! ### A fleet is a system -/

/-- A call that no worker makes is one of any system, and settles nothing. -/
theorem Made.of_queue {workers : Worker → Prop} {H : History} {c : Call}
    (h : Made fl (fun _ => False) H c) : Made fl workers H c ∧
      ∀ id claimedBy runNo settlement entry, c ≠ .settle id claimedBy runNo settlement entry := by
  cases h with
  | enqueue job => exact ⟨.enqueue job, by simp⟩
  | mergeInto hread update now => exact ⟨.mergeInto hread update now, by simp⟩
  | cleanup criteria => exact ⟨.cleanup criteria, by simp⟩
  | journal id => exact ⟨.journal id, by simp⟩
  | nextVisibleAt kinds => exact ⟨.nextVisibleAt kinds, by simp⟩
  | dedupCandidate kind key => exact ⟨.dedupCandidate kind key, by simp⟩
  | findStale => exact ⟨.findStale, by simp⟩
  | job id => exact ⟨.job id, by simp⟩
  | claimNext hw | settle hw | release hw | extendLease hw | recover hw => exact hw.elim

/-- The runtime has the handlers of the crew, and the histories that were given. -/
structure Runtime.Of (rt : Runtime) (crew : Crew ι) (tr : FleetHistory ι) : Prop where
  handlers : rt.handlers = crew.handlers
  history : ∀ w e history, (e, history) ∈ startedRuns tr → rt.history w e.1 e.2 = history

/-- What the runtime reports is what the task of the fleet did. -/
theorem Runtime.Of.report_eq {rt : Runtime} (hrt : rt.Of crew tr) {H : History} {w : Worker}
    {job : JobRecord} {history : List JournalEntry}
    (h : Started H (startedRuns tr) w job history) :
    rt.report w job = crew.report w job history := by
  have hhistory : rt.history w job.id job.runCount = history :=
    hrt.history w job.epoch history h.run
  rw [Runtime.report, Runtime.input, hrt.handlers, hhistory]
  rfl

theorem Runtime.Of.of_append {rt : Runtime} (h : rt.Of crew (tr ++ [m])) : rt.Of crew tr where
  handlers := h.handlers
  history w e history hmem := h.history w e history (startedRuns_grows.subset hmem)

/-- A call of a worker is one of the system, whatever the worker is answered. -/
theorem Fleet.Step.made_own {rt : Runtime} (hrt : rt.Of crew tr) (hrun : FleetRun fl crew tr x)
    (hs : Fleet.Step fl crew tr x label x') {i : ι} {c : Call} {seen : Except Error c.Answer}
    (hlabel : label.loop? = some (i, .call c seen)) :
    Made fl crew.workers (sharedHistory tr) c ∧
      rt.Settles fl crew.workers (sharedHistory tr) c := by
  obtain ⟨hhanded, hlisted⟩ := handed_of_run hrun i
  have hw : crew.workers (crew.worker i) := ⟨i, rfl⟩
  obtain ⟨hmade, hreported⟩ := (hs.loop i _ hlabel).1.made hw hhanded hlisted
  refine ⟨hmade, fun id claimedBy runNo settlement entry hc => ?_⟩
  rcases hreported id claimedBy runNo settlement entry hc with
    hrelease | ⟨job, history, now, hstarted, hsettle⟩
  · exact .inl hrelease
  · refine .inr ⟨crew.worker i, job, now, hw, hstarted.claimed, ?_⟩
    rw [hrt.report_eq hstarted]
    exact hsettle

/-- **Every call of a fleet is one of the system.** -/
theorem Fleet.Step.made {rt : Runtime} (hrt : rt.Of crew tr) (hrun : FleetRun fl crew tr x)
    (hs : Fleet.Step fl crew tr x label x') {e : Event} (he : label.event? = some e) :
    Made fl crew.workers (sharedHistory tr) e.call ∧
      rt.Settles fl crew.workers (sharedHistory tr) e.call := by
  cases label with
  | queue e' =>
    obtain rfl : e' = e := Option.some.inj he
    obtain ⟨hmade, hnot⟩ := Made.of_queue (hs.queue e' rfl)
    exact ⟨hmade, fun id claimedBy runNo settlement entry hc =>
      absurd hc (hnot id claimedBy runNo settlement entry)⟩
  | own i env l =>
    cases l with
    | call c reply =>
      obtain rfl := Option.some.inj he
      exact hs.made_own hrt hrun rfl
    | _ => cases he
  | failed i c error => cases he
  | cut i env c reply error =>
    -- the store executed it, though the worker does not know
    obtain rfl := Option.some.inj he
    exact hs.made_own hrt hrun rfl

/-- The store of a fleet runs as that of the system. -/
theorem FleetRun.handlerRun {rt : Runtime} (hrt : rt.Of crew tr) (h : FleetRun fl crew tr x) :
    HandlerRun fl crew.workers rt (sharedHistory tr) x.store := by
  refine Trace.Run.invariant (I := fun tr x => rt.Of crew tr →
    HandlerRun fl crew.workers rt (sharedHistory tr) x.store) ?_ ?_ h hrt
  · exact fun _ => .start
  · intro tr x label x' hrun hI hs hrt
    have hsystem := hI hrt.of_append
    rw [sharedHistory_snoc, Trace.Move.project]
    cases he : label.event? with
    | none =>
      rw [hs.still he]
      simpa using hsystem
    | some e => exact hsystem.snoc ⟨hs.store e he, hs.made hrt.of_append hrun he⟩

/-- A runtime with the histories that were given. -/
theorem exists_handlerRun (h : FleetRun fl crew tr x) (hfresh : FreshIds (sharedHistory tr)) :
    ∃ rt : Runtime, rt.Of crew tr ∧ HandlerRun fl crew.workers rt (sharedHistory tr) x.store := by
  -- a run is started once, so its history is a function of its epoch
  let rt : Runtime := ⟨crew.handlers, fun _ id n =>
    ((Map.collect (startedRuns tr)).lookup (id, n)).getD []⟩
  have hrt : rt.Of crew tr := by
    refine ⟨rfl, fun w e history hmem => ?_⟩
    show ((Map.collect (startedRuns tr)).lookup (e.1, e.2)).getD [] = history
    rw [Map.lookup_collect (startsOnce_of_run h hfresh).nodup hmem]
    rfl
  exact ⟨rt, hrt, h.handlerRun hrt⟩

/-- **A fleet is a system.**  Any workers, each running its loop as the code has it, stepping in
    any order and dying at any point, whose calls may be lost on the way to the store or cut off
    on the way back, and any queues: the history of their store is one of the system, where the
    claims, the settlements and their handlers are stated once for all of them.  The handler of
    a claim is run once, with the history that was read for it. -/
theorem fleet_refines (h : FleetRun fl crew tr x) (hfresh : FreshIds (sharedHistory tr)) :
    ((startedRuns tr).map Prod.fst).Nodup ∧
      ∃ rt : Runtime, rt.Of crew tr ∧
        HandlerRun fl crew.workers rt (sharedHistory tr) x.store :=
  ⟨(startsOnce_of_run h hfresh).nodup, exists_handlerRun h hfresh⟩

end Runs

/-! ### A sample fleet -/

/-- A handler that fails every run, retryably. -/
def sampleErring : Handler Value Value where
  toTask := sampleTask
  backoff _ := none
  handle _ _ := .returned (.error ⟨false, "boom"⟩) .null none

/-- Two workers, `w` and `v`, that run it. -/
def sampleCrew : Crew Bool where
  worker b := if b then sampleWorker else { sampleWorker with identity := "v" }
  registry _ := sampleRegistry
  handlers _ kind := if kind = "feed" then some ⟨sampleErring⟩ else none

/-- One of them at `st`, the other one at `other`. -/
def sampleFleet (b : Bool) (st other : Loop) (s : PostgresStore) : Fleet Bool :=
  ⟨fun i => if i = b then st else other, s⟩

/-- A run that presents no id twice and reads every journal leads here, and started these runs. -/
def Sampled (b : Bool) (st other : Loop) (s : PostgresStore)
    (started : List (Epoch × List JournalEntry)) : Prop :=
  ∃ tr, FleetRun id sampleCrew tr (sampleFleet b st other s) ∧ FreshIds (sharedHistory tr) ∧
    JournalsRead tr ∧ startedRuns tr = started

section Sample

variable {b : Bool} {st st' other : Loop} {s s' : PostgresStore} {l : LoopLabel}
  {started : List (Epoch × List JournalEntry)}

/-- Now the other one steps. -/
theorem Sampled.swap (h : Sampled b st other s started) : Sampled (!b) other st s started := by
  have hsame : sampleFleet b st other s = sampleFleet (!b) other st s := by
    cases b <;> simp [sampleFleet, funext_iff]
  rwa [Sampled, ← hsame]

/-- One of them steps; `run?` is the run that this starts. -/
theorem Sampled.step (h : Sampled b st other s started) (label : FleetLabel Bool)
    (run? : Option (Epoch × List JournalEntry)) (hlabel : label.loop? = some (b, l))
    (hl : Loop.Step id sampleRegistry (sampleCrew.worker b) st l st')
    (hruns : sampleCrew.Runs (sampleCrew.worker b) st l)
    (hs : ∀ e ∈ label.event?, s.Step e s' ∧ e.call.enqueues = none)
    (hstill : label.event? = none → s' = s)
    (hread : ∀ id error, l ≠ .call (.journal id) (.error error))
    (hrun : startedRun? ⟨sampleFleet b st other s, label, sampleFleet b st' other s'⟩ = run?) :
    Sampled b st' other s' (started ++ run?.toList) := by
  obtain ⟨tr, htr, hfresh, hreads, hstarted⟩ := h
  have hstep : Fleet.Step id sampleCrew tr (sampleFleet b st other s) label
      (sampleFleet b st' other s') := by
    constructor
    case loop =>
      intro i l' hl'
      obtain ⟨rfl, rfl⟩ := Prod.mk.inj (Option.some.inj (hlabel.symm.trans hl'))
      simp only [sampleFleet, if_true]
      exact ⟨hl, hruns⟩
    case idle =>
      intro i hi
      have hne : i ≠ b := fun hsame => hi l (hsame ▸ hlabel)
      simp only [sampleFleet, if_neg hne]
    case store => exact fun e he => (hs e he).1
    case still => exact hstill
    case queue =>
      intro e he
      rw [he] at hlabel
      cases hlabel
  refine ⟨_, htr.snoc hstep, ?_, ?_, by rw [startedRuns_snoc, hstarted, hrun]⟩
  · rw [sharedHistory_snoc, Trace.Move.project]
    cases he : label.event? with
    | none => simpa using hfresh
    | some e =>
      show (enqueued (sharedHistory tr ++ [_])).Nodup
      rw [enqueued_snoc, (hs e he).2]
      simpa [FreshIds] using hfresh
  · intro m hm i id error hcall
    rcases List.mem_append.mp hm with hm | hm
    · exact hreads m hm i id error hcall
    · rw [List.mem_singleton.mp hm] at hcall
      exact hread id error (Prod.mk.inj (Option.some.inj (hlabel.symm.trans hcall))).2

/-- A call that the store answers. -/
theorem Sampled.call (h : Sampled b st other s started) (env : Env) {c : Call} {a : c.Answer}
    (hl : Loop.Step id sampleRegistry (sampleCrew.worker b) st (.call c (.ok a)) st')
    (hs : s.Step ⟨env, c, .ok a⟩ s') (hc : c.enqueues = none) :
    Sampled b st' other s' started := by
  have hread : ∀ id error, LoopLabel.call c (.ok a) ≠ .call (.journal id) (.error error) := by
    intro id error hcall
    obtain ⟨rfl, hreply⟩ := LoopLabel.call.inj hcall
    cases eq_of_heq hreply
  have hcalls : ∀ e ∈ FleetLabel.event? (.own b env (.call c (.ok a))),
      s.Step e s' ∧ e.call.enqueues = none := by
    intro e he
    obtain rfl := Option.some.inj he
    exact ⟨hs, hc⟩
  simpa using h.step (.own b env (.call c (.ok a))) none rfl hl trivial hcalls
    (fun hnone => by cases hnone) hread rfl

/-- A call that does not reach the store. -/
theorem Sampled.failed (h : Sampled b st other s started) {c : Call} {error : Error}
    (hl : Loop.Step id sampleRegistry (sampleCrew.worker b) st (.call c (.error error)) st')
    (hc : ∀ id, c ≠ .journal id) : Sampled b st' other s started := by
  have hread : ∀ id error', LoopLabel.call c (.error error) ≠ .call (.journal id) (.error error') :=
    fun id _ hcall => hc id (LoopLabel.call.inj hcall).1
  simpa using h.step (.failed b c error) none rfl hl trivial (fun _ he => by cases he)
    (fun _ => rfl) hread rfl

/-- A call whose answer is lost. -/
theorem Sampled.cut (h : Sampled b st other s started) (env : Env) {c : Call}
    {reply : Except Error c.Answer} {error : Error}
    (hl : Loop.Step id sampleRegistry (sampleCrew.worker b) st (.call c (.error error)) st')
    (hs : s.Step ⟨env, c, reply⟩ s') (hpresents : c.enqueues = none) (hc : ∀ id, c ≠ .journal id) :
    Sampled b st' other s' started := by
  have hread : ∀ id error', LoopLabel.call c (.error error) ≠ .call (.journal id) (.error error') :=
    fun id _ hcall => hc id (LoopLabel.call.inj hcall).1
  have hcalls : ∀ e ∈ FleetLabel.event? (.cut b env c reply error),
      s.Step e s' ∧ e.call.enqueues = none := by
    intro e he
    obtain rfl := Option.some.inj he
    exact ⟨hs, hpresents⟩
  simpa using h.step (.cut b env c reply error) none rfl hl trivial hcalls
    (fun hnone => by cases hnone) hread rfl

/-- A step that makes no call and starts no run. -/
theorem Sampled.quiet (h : Sampled b st other s started)
    (hl : Loop.Step id sampleRegistry (sampleCrew.worker b) st l st')
    (hruns : sampleCrew.Runs (sampleCrew.worker b) st l) (hcall : ∀ c reply, l ≠ .call c reply)
    (hspawn : ∀ id job, l ≠ .spawned id job) : Sampled b st' other s started := by
  have hnone : FleetLabel.event? (.own b (.ofNow 0) l) = none := by
    cases l with
    | call c reply => exact absurd rfl (hcall c reply)
    | _ => rfl
  have hstarts : startedRun? ⟨sampleFleet b st other s, .own b (.ofNow 0) l,
      sampleFleet b st' other s⟩ = none := by
    cases l with
    | spawned id job => exact absurd rfl (hspawn id job)
    | _ => rfl
  simpa using h.step (.own b (.ofNow 0) l) none rfl hl hruns (by simp [hnone]) (fun _ => rfl)
    (fun id error => hcall _ _) hstarts

/-- The handler of a claimed job is started. -/
theorem Sampled.spawn (h : Sampled b st other s started) {job : JobRecord}
    {history : List JournalEntry} (hphase : st.phase = .spawning job history) (task : TaskId)
    (hnew : task ∉ st.running) :
    Sampled b ((st.spawn task job history).goto .filling) other s
      (started ++ [(job.epoch, history)]) := by
  refine h.step (.own b (.ofNow 0) (.spawned task job)) (some (job.epoch, history)) rfl
    (.spawn hphase task hnew) trivial (fun _ he => by cases he) (fun _ => rfl) (by simp) ?_
  have hlookup : (st.running.insert task ⟨job, history, none⟩).lookup task =
      some ⟨job, history, none⟩ := AList.lookup_insert _
  simp [startedRun?, sampleFleet, Loop.spawn, Loop.goto, hlookup]

end Sample

/-- The second worker claims the failed job, … -/
def sampleRetried : Trace.Move PostgresStore Event :=
  sampleFailed.after.next (.ofNow 1) (.claimNext ["feed"] 0 sampleWorker.config.lease "v")

/-- … as this row, … -/
def sampleRetriedRow : JobRecord :=
  { sampleRow with
    runCount := 2, failureCount := 1, visibleAt := 1, claimedBy := some "v"
    claimExpiresAt := some (1 + sampleWorker.config.lease) }

/-- … and reads the journal of its first run. -/
def sampleHistory : List JournalEntry := (sampleFailed.after.journalOf 0).map .fromRecord

/-- The sample job is enqueued. -/
theorem sampled_enqueued : Sampled true (Loop.start sampleRegistry) (Loop.start sampleRegistry)
    sampleEnqueue.after [] := by
  have hstart : FleetRun id sampleCrew []
      (sampleFleet true (Loop.start sampleRegistry) (Loop.start sampleRegistry) empty) := by
    have hloops : (sampleFleet true (Loop.start sampleRegistry) (Loop.start sampleRegistry)
        empty).loops = fun i => Loop.start (sampleCrew.registry i) := by
      funext i
      cases i <;> rfl
    rw [show sampleFleet true (Loop.start sampleRegistry) (Loop.start sampleRegistry) empty =
      ⟨fun i => Loop.start (sampleCrew.registry i), empty⟩ by rw [← hloops]; rfl]
    exact .start
  have hstep : Fleet.Step id sampleCrew []
      (sampleFleet true (Loop.start sampleRegistry) (Loop.start sampleRegistry) empty)
      (.queue ⟨.ofNow 0, .enqueue sampleJob, .ok ()⟩)
      (sampleFleet true (Loop.start sampleRegistry) (Loop.start sampleRegistry)
        sampleEnqueue.after) := by
    constructor
    case loop => exact fun i l hl => by cases hl
    case idle => exact fun _ _ => rfl
    case store =>
      intro e he
      obtain rfl := Option.some.inj he
      rfl
    case still => exact fun hnone => by cases hnone
    case queue =>
      intro e he
      obtain rfl := FleetLabel.queue.inj he
      exact .enqueue sampleJob
  refine ⟨_, .snoc hstart hstep, List.nodup_singleton 0, ?_, rfl⟩
  intro m hm i id error
  rw [List.mem_singleton.mp hm]
  simp [FleetLabel.loop?]

/-- The first worker runs its handler. -/
theorem sampled_busy :
    Sampled true sampleBusy (Loop.start sampleRegistry) sampleClaimed.after [((0, 1), [])] := by
  have hclaimed : sampleEnqueue.after.Step sampleClaimed.label sampleClaimed.after := rfl
  have h := sampled_enqueued.call (.ofNow 0) (.scan rfl 0 []) rfl rfl
  have h := h.quiet (.recovered rfl) trivial (by simp) (by simp)
  have h := h.quiet (.claim rfl (by decide) rfl (by decide)) trivial (by simp) (by simp)
  have h := h.call (.ofNow 0) (.claimed rfl sampleRow) hclaimed rfl
  have h := h.quiet (.keepLease rfl rfl) trivial (by simp) (by simp)
  have h := h.call (.ofNow 0) (.load rfl []) rfl rfl
  exact h.spawn rfl 7 (by decide)

/-- It looks for the next job in vain and settles the run, without an answer.  The other worker
    claims the job again, reads its journal and runs its handler. -/
theorem sampled_retried (error : Error) : ∃ st other,
    Sampled false st other sampleRetried.after [((0, 1), []), ((0, 2), sampleHistory)] := by
  let report := sampleCrew.report sampleWorker sampleRow []
  have hrunning : sampleBusy.running.lookup 7 = some ⟨sampleRow, [], none⟩ := rfl
  have hreturned : (sampleBusy.finish 7 ⟨sampleRow, [], none⟩ (.returned report)).running.lookup 7 =
      some ⟨sampleRow, [], some (.returned report)⟩ := AList.lookup_insert _
  have hruns : sampleCrew.Runs sampleWorker sampleBusy (.ended 7 sampleRow (.returned report)) := by
    intro task htask
    obtain rfl := Option.some.inj htask
    rfl
  have hsettled : sampleClaimed.after.Step sampleFailed.label sampleFailed.after := rfl
  have hclaimed : sampleFailed.after.Step sampleRetried.label sampleRetried.after := rfl
  have hread : sampleRetried.after.Step
      ⟨.ofNow 1, .journal sampleRetriedRow.id, .ok (sampleFailed.after.journalOf 0)⟩
      sampleRetried.after := rfl
  have h := sampled_busy.quiet (.ended hrunning rfl (.returned report)) hruns (by simp) (by simp)
  have h := h.quiet (.full rfl (by decide)) trivial (by simp) (by simp)
  have h := h.failed (.measure rfl 1 (.error error)) (by simp)
  have h := h.quiet (.reapRun (.inl ⟨rfl, _, rfl⟩) hreturned) trivial (by simp) (by simp)
  have h := h.cut (.ofNow 1) (.settle rfl 1 (.error error)) hsettled rfl (by simp [Worker.settle])
  have h := h.swap.call (.ofNow 1) (.scan rfl 1 []) rfl rfl
  have h := h.quiet (.recovered rfl) trivial (by simp) (by simp)
  have h := h.quiet (.claim rfl (by decide) rfl (by decide)) trivial (by simp) (by simp)
  have h := h.call (.ofNow 1) (.claimed rfl sampleRetriedRow) hclaimed rfl
  have h := h.quiet (.keepLease rfl rfl) trivial (by simp) (by simp)
  have h := h.call (.ofNow 1) (.load rfl (sampleFailed.after.journalOf 0)) hread rfl
  exact ⟨_, _, h.spawn rfl 8 (by decide)⟩

/-- After a call that got lost and a settlement whose answer did, the store of the two workers runs
    as that of the system. -/
theorem fleet_refines_sampleFleet :
    ∃ tr, startedRuns tr = [((0, 1), []), ((0, 2), sampleHistory)] ∧
      ∃ rt : Runtime, rt.Of sampleCrew tr ∧
        HandlerRun id sampleCrew.workers rt (sharedHistory tr) sampleRetried.after := by
  obtain ⟨_, _, tr, hrun, hfresh, -, hstarted⟩ := sampled_retried (.unknownKind "feed")
  exact ⟨tr, hstarted, (fleet_refines hrun hfresh).2⟩

end Venturi
