import Mathlib.Data.Finset.Basic
import Mathlib.Data.Fintype.EquivFin
import Venturi.Worker.Slots

namespace Venturi

open Collections Trace

/-!
# The way out of the loop

Once the shutdown token is cancelled, `Worker::run` claims one job more at most, and returns.

* `Loop.rank` — what the worker still has to do; a wakeup and a batch of stale claims refill it.
* `Loop.GoesOn` / `Loop.Joins` — the worker has a step to take, or waits for handlers it has
  aborted.
* `shutdown_terminates` — the bounds, from any state and against any store, and the worker is
  never stuck.
-/

/-! ### What is counted -/

/-- The steps of the worker itself. -/
def LoopLabel.own : LoopLabel → Nat
  | .ended .. | .cancelled => 0
  | _ => 1

/-- The claim calls. -/
def LoopLabel.claims : LoopLabel → Nat
  | .call (.claimNext ..) _ => 1
  | _ => 0

/-- The claim calls that return a job. -/
def LoopLabel.hands : LoopLabel → Nat
  | .call (.claimNext ..) (.ok (some _)) => 1
  | _ => 0

/-- What refills the rank: a wakeup leads to one more pass, which recovers what `find_stale`
    returns. -/
def LoopLabel.refill : LoopLabel → Nat
  | .woken => 5
  | .call .findStale (.ok stale) => stale.length
  | _ => 0

namespace Phase

/-- The steps to the end of `drain` from here, if no handler is left. -/
def rank : Phase → Nat
  | .claiming .. => 18
  | .fallingBack _ => 17
  | .leasing _ => 16
  | .loading _ => 15
  | .spawning .. => 14
  | .settling _ .looping => 9
  | .scanning => 8
  | .recovering _ stale => 7 + stale.length
  | .filling => 6
  | .measuring => 5
  | .waiting _ => 4
  | .settling _ .draining => 4
  | .draining => 3
  | .settling _ .forcing => 3
  | .forcing => 2
  | .releasing _ => 1
  | .returned => 0

/-- The stale claims a recovery pass has left. -/
def stale : Phase → List JobRecord
  | .recovering _ stale => stale
  | _ => []

/-- The jobs `force_finish` has left to release. -/
def unreleased : Phase → List InflightJob
  | .releasing jobs => jobs
  | _ => []

/-- The claim calls the worker may still make without another look at the token. -/
def claims : Phase → Nat
  | .claiming .. => 2
  | .fallingBack _ => 1
  | _ => 0

/-- The jobs those may hand out. -/
def hands : Phase → Nat
  | .claiming .. | .fallingBack _ => 1
  | _ => 0

/-- The rank of a phase is bounded, but for the stale claims it has left. -/
theorem rank_le (phase : Phase) : phase.rank ≤ 18 + phase.stale.length := by
  cases phase with
  | settling finished stage => cases stage <;> simp [rank, Phase.stale]
  | recovering now stale => simp only [rank, Phase.stale]; omega
  | _ => simp [rank, Phase.stale]

/-- A phase has two claim calls left at most. -/
theorem claims_le (phase : Phase) : phase.claims ≤ 2 := by
  cases phase <;> simp [claims]

/-- These hand out one job at most. -/
theorem hands_le (phase : Phase) : phase.hands ≤ 1 := by
  cases phase <;> simp [hands]

end Phase

namespace Loop

/-- What the worker still has to do: six steps a handler at most, one step a job to release. -/
def rank (st : Loop) : Nat :=
  6 * st.running.keys.length + st.inflight.keys.length + st.phase.unreleased.length + st.phase.rank

end Loop

/-! ### The rank falls -/

section Rank

variable {fl : ℚ → ℚ} {registry : Registry} {w : Worker} {st st' : Loop} {label : LoopLabel}
  {id : TaskId}

/-- A join takes one task out of the `JoinSet`. -/
theorem length_keys_join {task : RunTask} (h : st.running.lookup id = some task) :
    (st.join id).running.keys.length + 1 = st.running.keys.length := by
  have hmem : id ∈ st.running.keys := AList.mem_keys.mp (Map.mem_of_lookup h)
  have hpos := List.length_pos_of_mem hmem
  show (AList.erase id st.running).keys.length + 1 = _
  rw [AList.keys_erase, List.length_erase_of_mem hmem]
  omega

theorem length_keys_untrack (st : Loop) (id : TaskId) :
    (st.untrack id).inflight.keys.length ≤ st.inflight.keys.length := by
  show (AList.erase id st.inflight).keys.length ≤ _
  rw [AList.keys_erase]
  exact List.length_erase_le

theorem length_keys_reap (st : Loop) (id : TaskId) :
    (st.reap id).inflight.keys.length ≤ st.inflight.keys.length := by
  unfold Loop.reap
  split
  · exact length_keys_untrack st id
  · exact le_rfl

@[simp] theorem running_reap (st : Loop) (id : TaskId) : (st.reap id).running = st.running := by
  unfold Loop.reap
  split <;> rfl

/-- The token stays cancelled. -/
theorem Loop.Step.shutdown (hs : Loop.Step fl registry w st label st')
    (h : st.shutdown = true) : st'.shutdown = true := by
  have hreap (st : Loop) (id : TaskId) : (st.reap id).shutdown = st.shutdown := by
    unfold Loop.reap
    split <;> rfl
  cases hs with
  | reapRun | reapFailed => exact (hreap _ _).trans h
  | cancelled => rfl
  | _ => exact h

/-- **The rank pays for every step** of the worker. -/
theorem Loop.Step.rank_le (hs : Loop.Step fl registry w st label st') (h : st.shutdown = true) :
    st'.rank + label.own ≤ st.rank + label.refill := by
  cases hs with
  -- the token is not cancelled
  | capped _ _ hshutdown | claim _ _ hshutdown => simp [h] at hshutdown
  -- the structures stay as they are
  | scan hphase | scanFailed hphase | recovered hphase | full hphase | stopFilling hphase
  | claimed hphase | nothing hphase | fallBack hphase | claimFailed hphase | claimedAny hphase
  | nothingAny hphase | claimAnyFailed hphase | extend hphase | keepLease hphase | load hphase
  | loadFailed hphase | measure hphase | stop hphase | wake hphase | drained hphase
  | deadline hphase | done hphase =>
    simp only [Loop.rank, Loop.goto, hphase, Phase.rank, Phase.unreleased, LoopLabel.own,
      LoopLabel.refill]
    omega
  | recover hphase | release hphase =>
    simp only [Loop.rank, Loop.goto, hphase, Phase.rank, Phase.unreleased, LoopLabel.own,
      Worker.recovery, Worker.release, LoopLabel.refill, List.length_cons]
    omega
  | @settle finished stage hphase =>
    cases stage <;>
      simp only [Loop.rank, Loop.goto, hphase, Stage.phase, Phase.rank, Phase.unreleased,
        LoopLabel.own, Worker.settle, LoopLabel.refill] <;> omega
  -- a task more
  | @spawn job history hphase id hnew =>
    have hrunning : (AList.insert id ⟨job, history, none⟩ st.running).keys.length =
        st.running.keys.length + 1 := by
      rw [AList.keys_insert, List.length_cons, List.erase_of_not_mem hnew]
    have hinflight : (AList.insert id job.inflight st.inflight).keys.length ≤
        st.inflight.keys.length + 1 := by
      rw [AList.keys_insert, List.length_cons]
      exact Nat.succ_le_succ List.length_erase_le
    simp only [Loop.rank, Loop.goto, Loop.spawn, hphase, Phase.rank, Phase.unreleased,
      LoopLabel.own, LoopLabel.refill]
    omega
  -- a task less
  | @reapRun stage id job history report hphase htask =>
    have hjoin := length_keys_join htask
    have hreap := length_keys_reap (st.join id) id
    have hinflight : (st.join id).inflight = st.inflight := rfl
    rcases hphase with ⟨rfl, wait, hphase⟩ | ⟨rfl, hphase⟩ <;>
      simp only [Loop.rank, Loop.goto, hphase, running_reap, Phase.rank, Phase.unreleased,
        LoopLabel.own, LoopLabel.refill] <;>
      simp only [hinflight] at hreap <;> omega
  | @reapFailed stage id job history hphase htask =>
    have hjoin := length_keys_join htask
    have hreap := length_keys_reap (st.join id) id
    have hinflight : (st.join id).inflight = st.inflight := rfl
    rcases hphase with ⟨rfl, wait, hphase⟩ | ⟨rfl, hphase⟩ <;>
      simp only [Loop.rank, Loop.goto, hphase, running_reap, Stage.phase, Phase.rank,
        Phase.unreleased, LoopLabel.own, LoopLabel.refill] <;>
      simp only [hinflight] at hreap <;> omega
  | @forceRun id job history report hphase htask =>
    have hjoin := length_keys_join htask
    have huntrack := length_keys_untrack (st.join id) id
    have hrunning : ((st.join id).untrack id).running = (st.join id).running := rfl
    have hinflight : (st.join id).inflight = st.inflight := rfl
    rw [hinflight] at huntrack
    simp only [Loop.rank, Loop.goto, hphase, hrunning, Phase.rank, Phase.unreleased, LoopLabel.own,
      LoopLabel.refill]
    omega
  | @forceFailed id job history hphase htask =>
    have hjoin := length_keys_join htask
    have hrest : (st.join id).inflight = st.inflight ∧ (st.join id).phase = st.phase := ⟨rfl, rfl⟩
    simp only [Loop.rank, hrest, hphase, Phase.rank, Phase.unreleased, LoopLabel.own,
      LoopLabel.refill]
    omega
  | @forced jobs hphase hempty hjobs =>
    have hlength : jobs.length = st.inflight.keys.length := by
      rw [hjobs.length_eq, Map.length_values]
    simp only [Loop.rank, hphase, Phase.rank, Phase.unreleased, LoopLabel.own, LoopLabel.refill,
      AList.keys_empty, List.length_nil, hlength]
    omega
  -- what the outside does
  | @ended id task htask hrunning result =>
    have hkeys : (st.finish id task result).running.keys.length = st.running.keys.length :=
      (Map.keys_perm_insert (Map.mem_of_lookup htask)).length_eq
    show 6 * _ + st.inflight.keys.length + st.phase.unreleased.length + st.phase.rank ≤ st.rank
    rw [hkeys]
    rfl
  | cancelled => exact le_rfl

/-- **No claim starts** once the token is cancelled. -/
theorem Loop.Step.claims_le (hs : Loop.Step fl registry w st label st')
    (h : st.shutdown = true) :
    st'.phase.claims + label.claims ≤ st.phase.claims ∧
      st'.phase.hands + label.hands ≤ st.phase.hands := by
  cases hs with
  | capped _ _ hshutdown | claim _ _ hshutdown => simp [h] at hshutdown
  | reapRun | forceRun =>
    simp [Loop.goto, Phase.claims, Phase.hands, LoopLabel.claims, LoopLabel.hands]
  | @reapFailed stage | @settle _ stage =>
    cases stage <;>
      simp [Loop.goto, Stage.phase, Phase.claims, Phase.hands, LoopLabel.claims, LoopLabel.hands,
        Worker.settle]
  | forceFailed | ended | cancelled => exact ⟨le_rfl, le_rfl⟩
  | _ hphase =>
    simp [hphase, Loop.goto, Phase.claims, Phase.hands, LoopLabel.claims, LoopLabel.hands,
      Worker.recovery, Worker.release]

end Rank

/-! ### How much there is to do -/

/-- The structures of the loop are within the concurrency. -/
structure Loop.Sized (limit : Nat) (st : Loop) : Prop where
  running : st.running.keys.length ≤ limit
  inflight : st.inflight.keys.length + st.phase.unreleased.length ≤ limit

/-- A worker past `force_finish` has joined every handler and tracks no job. -/
def Loop.Emptied (st : Loop) : Prop :=
  match st.phase with
  | .releasing _ | .returned => st.running.keys = [] ∧ st.inflight.keys = []
  | _ => True

section Size

variable {fl : ℚ → ℚ} {registry : Registry} {w : Worker} {st st' : Loop} {label : LoopLabel}
  {limit : Nat}

/-- A live loop that is within its slots. -/
theorem Loop.Kept.sized (h : st.Kept registry limit) (hlive : st.live) : st.Sized limit := by
  obtain ⟨hslots, -⟩ := h hlive
  have htracked : st.running.keys.length = st.inflight.keys.length :=
    Map.length_keys_eq hslots.mem_iff
  have hbounded := hslots.bounded
  have hunreleased : st.phase.unreleased = [] := by
    cases hphase : st.phase with
    | releasing => simp [Loop.live, hphase] at hlive
    | _ => rfl
  refine ⟨hbounded, ?_⟩
  rw [hunreleased, List.length_nil]
  omega

/-- A task that ends is still one of the `JoinSet`. -/
theorem length_keys_finish {id : TaskId} {task : RunTask} (h : st.running.lookup id = some task)
    (result : TaskResult) :
    (st.finish id task result).running.keys.length = st.running.keys.length :=
  (Map.keys_perm_insert (Map.mem_of_lookup h)).length_eq

/-- As many jobs are released as were still tracked. -/
theorem length_released {jobs : List InflightJob} (h : jobs.Perm st.inflight.values) :
    jobs.length = st.inflight.keys.length := by
  rw [h.length_eq, Map.length_values]

/-- Past `drain` the structures only shrink. -/
theorem Loop.Step.sized (hs : Loop.Step fl registry w st label st') (hlive : st'.live = false)
    (h : st.Sized limit) : st'.Sized limit := by
  obtain ⟨hrunning, hinflight⟩ := h
  cases hs with
  | drained hphase | deadline hphase | done hphase =>
    rw [hphase] at hinflight
    exact ⟨hrunning, hinflight⟩
  | @forceRun id _ _ _ hphase htask =>
    have hjoin := length_keys_join htask
    have huntrack := length_keys_untrack (st.join id) id
    rw [hphase] at hinflight
    refine ⟨?_, le_trans (Nat.add_le_add_right huntrack _) hinflight⟩
    show (st.join id).running.keys.length ≤ limit
    omega
  | @forceFailed id _ _ hphase htask =>
    have hjoin := length_keys_join htask
    exact ⟨by omega, hinflight⟩
  | @settle _ stage hphase =>
    -- only a settlement past the abort ends in a phase past the drain
    cases stage with
    | forcing =>
      rw [hphase] at hinflight
      exact ⟨hrunning, hinflight⟩
    | looping | draining => simp [Loop.live, Loop.goto, Stage.phase] at hlive
  | @forced jobs hphase hempty hjobs =>
    -- what was tracked is what is to be released
    refine ⟨hrunning, ?_⟩
    simp only [Phase.unreleased, AList.keys_empty, List.length_nil, length_released hjobs]
    omega
  | release hphase =>
    rw [hphase] at hinflight
    refine ⟨hrunning, ?_⟩
    simp only [Loop.goto, Phase.unreleased, List.length_cons] at hinflight ⊢
    omega
  | ended htask hunended result => exact ⟨length_keys_finish htask result ▸ hrunning, hinflight⟩
  | cancelled => exact ⟨hrunning, hinflight⟩
  | reapFailed hphase =>
    rcases hphase with ⟨rfl, -⟩ | ⟨rfl, -⟩ <;> simp [Loop.live, Loop.goto, Stage.phase] at hlive
  | reapRun hphase =>
    rcases hphase with ⟨rfl, -⟩ | ⟨rfl, -⟩ <;> simp [Loop.live, Loop.goto] at hlive
  | _ => simp [Loop.live, Loop.goto] at hlive

/-- Every reachable loop is within its size. -/
theorem sized_of_run {tr : List (Move Loop LoopLabel)} (h : LoopRun fl registry w tr st) :
    st.Sized w.config.concurrency := by
  induction h with
  | start =>
    refine ⟨Nat.zero_le _, ?_⟩
    by_cases hkinds : registry.kinds = [] <;> simp [Loop.start, Phase.unreleased, hkinds]
  | @snoc tr s s' e hr hs ih =>
    cases hlive : s'.live with
    | true => exact (kept_of_run (hr.snoc hs)).sized hlive
    | false => exact hs.1.sized hlive ih

/-- What `force_finish` has emptied stays empty. -/
theorem Loop.Step.emptied (hs : Loop.Step fl registry w st label st') (h : st.Emptied) :
    st'.Emptied := by
  cases hs with
  | forced hphase hempty hjobs => exact ⟨hempty, rfl⟩
  | release hphase | done hphase =>
    simp only [Loop.Emptied, hphase] at h
    exact h
  | @reapFailed stage | @settle _ stage => cases stage <;> trivial
  | @forceFailed id _ _ hphase =>
    show (match st.phase with | .releasing _ | .returned => _ | _ => True)
    rw [hphase]
    trivial
  | @ended id task htask hunended result =>
    unfold Loop.Emptied at h ⊢
    show (match st.phase with | .releasing _ | .returned => _ | _ => True)
    cases hphase : st.phase with
    | releasing | returned =>
      -- no task is left that could end
      rw [hphase] at h
      exact absurd (Map.mem_of_lookup htask) (Map.not_mem_of_keys_nil h.1)
    | _ => trivial
  | cancelled => exact h
  | _ => trivial

/-- A worker past its drain runs and tracks nothing any more, in every run of the loop. -/
theorem emptied_of_run {tr : List (Move Loop LoopLabel)} (h : LoopRun fl registry w tr st) :
    st.Emptied := by
  induction h with
  | start => by_cases hkinds : registry.kinds = [] <;> simp [Loop.start, Loop.Emptied, hkinds]
  | snoc _ hs ih => exact hs.1.emptied ih

/-- The rank in a reachable loop. -/
theorem Loop.Sized.rank_le (h : st.Sized limit) :
    st.rank ≤ 7 * limit + 18 + st.phase.stale.length := by
  have hrunning := h.running
  have hinflight := h.inflight
  have hphase := st.phase.rank_le
  unfold Loop.rank
  omega

end Size

/-! ### The worker is never stuck -/

section Progress

variable (fl : ℚ → ℚ) (registry : Registry) (w : Worker)

/-- The worker has a step to take: one without a store call that starts no new pass, or a
    store call, whatever the store replies. -/
inductive Loop.GoesOn (st : Loop) : Prop
  | alone {label : LoopLabel} {st' : Loop} (h : Loop.Step fl registry w st label st')
      (hown : label.own = 1) (hwoken : label.refill = 0)
  | call (c : Call) (h : ∀ reply, ∃ st', Loop.Step fl registry w st (.call c reply) st')

variable {fl registry w} {st : Loop}

/-- The handlers are aborted, and none of those left has ended yet. -/
def Loop.Joins (st : Loop) : Prop :=
  st.phase = .forcing ∧ st.running.keys ≠ [] ∧
    ∀ id task, st.running.lookup id = some task → task.result = none

/-- There is a task id that is not in use. -/
theorem exists_new (running : Map TaskId RunTask) : ∃ id, id ∉ running := by
  obtain ⟨id, hid⟩ := Infinite.exists_notMem_finset running.keys.toFinset
  exact ⟨id, fun hmem => hid (List.mem_toFinset.mpr (AList.mem_keys.mp hmem))⟩

/-- Before its first claim the loop can go on. -/
theorem goesOn_claiming {kinds : List String} {floor : Int} (h : st.phase = .claiming kinds floor) :
    st.GoesOn fl registry w := by
  refine .call (.claimNext kinds floor w.config.lease w.identity) fun reply => ?_
  match reply with
  | .ok (some job) => exact ⟨_, .claimed h job⟩
  | .ok none =>
    by_cases hfloor : floor = floorAll
    · exact ⟨_, .nothing h hfloor⟩
    · exact ⟨_, .fallBack h hfloor⟩
  | .error error => exact ⟨_, .claimFailed h error⟩

/-- Before its unconstrained claim it can go on. -/
theorem goesOn_fallingBack {kinds : List String} (h : st.phase = .fallingBack kinds) :
    st.GoesOn fl registry w := by
  refine .call (.claimNext kinds floorAll w.config.lease w.identity) fun reply => ?_
  match reply with
  | .ok (some job) => exact ⟨_, .claimedAny h job⟩
  | .ok none => exact ⟨_, .nothingAny h⟩
  | .error error => exact ⟨_, .claimAnyFailed h error⟩

/-- With a claimed job it can go on, whether or not the task overrides the lease. -/
theorem goesOn_leasing {job : JobRecord} (h : st.phase = .leasing job) :
    st.GoesOn fl registry w := by
  cases hlease : w.taskLease registry job with
  | none => exact .alone (.keepLease h hlease) rfl rfl
  | some lease =>
    exact .call (.extendLease job.id w.identity job.runCount lease)
      fun reply => ⟨_, .extend h hlease reply⟩

/-- A stopping worker leaves the loop that fills the slots. -/
theorem goesOn_filling (h : st.phase = .filling) (hshutdown : st.shutdown = true) :
    st.GoesOn fl registry w := by
  by_cases hfull : w.config.concurrency ≤ st.running.keys.length
  · exact .alone (.full h hfull) rfl rfl
  · exact .alone (.stopFilling h (Nat.lt_of_not_le hfull) hshutdown) rfl rfl

/-- Past the abort it goes on, or it joins a task that has ended. -/
theorem goesOn_forcing (h : st.phase = .forcing) : st.GoesOn fl registry w ∨ st.Joins := by
  by_cases hempty : st.running.keys = []
  · exact .inl (.alone (.forced h hempty (.refl _)) rfl rfl)
  by_cases hended : ∀ id task, st.running.lookup id = some task → task.result = none
  · exact .inr ⟨h, hempty, hended⟩
  simp only [not_forall] at hended
  obtain ⟨id, ⟨job, history, result⟩, htask, hresult⟩ := hended
  obtain ⟨result, rfl⟩ := Option.ne_none_iff_exists'.mp hresult
  cases result with
  | returned report => exact .inl (.alone (.forceRun h htask) rfl rfl)
  | failed => exact .inl (.alone (.forceFailed h htask) rfl rfl)

/-- **Progress.** -/
theorem goesOn_or_joins (hshutdown : st.shutdown = true) (hphase : st.phase ≠ .returned) :
    st.GoesOn fl registry w ∨ st.Joins := by
  cases h : st.phase with
  | scanning =>
    refine .inl (.call .findStale fun reply => ?_)
    match reply with
    | .ok stale => exact ⟨_, .scan h 0 stale⟩
    | .error error => exact ⟨_, .scanFailed h error⟩
  | recovering now stale =>
    cases stale with
    | nil => exact .inl (.alone (.recovered h) rfl rfl)
    | cons job stale =>
      exact .inl (.call (w.recovery fl now job) fun reply => ⟨_, .recover h reply⟩)
  | filling => exact .inl (goesOn_filling h hshutdown)
  | claiming kinds floor => exact .inl (goesOn_claiming h)
  | fallingBack kinds => exact .inl (goesOn_fallingBack h)
  | leasing job => exact .inl (goesOn_leasing h)
  | loading job =>
    refine .inl (.call (.journal job.id) fun reply => ?_)
    match reply with
    | .ok records => exact ⟨_, .load h records⟩
    | .error error => exact ⟨_, .loadFailed h error⟩
  | spawning job history =>
    -- a task id that is not in use is always left
    obtain ⟨id, hid⟩ := exists_new st.running
    exact .inl (.alone (.spawn h id hid) rfl rfl)
  | measuring =>
    exact .inl (.call (.nextVisibleAt registry.kinds) fun reply => ⟨_, .measure h 0 reply⟩)
  | waiting wait => exact .inl (.alone (.stop h hshutdown) rfl rfl)
  | settling finished stage =>
    exact .inl (.call (w.settle fl 0 finished) fun reply => ⟨_, .settle h 0 reply⟩)
  | draining =>
    -- either nothing runs any more, or the deadline may fire
    by_cases hempty : st.running.keys = []
    · exact .inl (.alone (.drained h hempty) rfl rfl)
    · exact .inl (.alone (.deadline h hempty) rfl rfl)
  | forcing => exact goesOn_forcing h
  | releasing jobs =>
    cases jobs with
    | nil => exact .inl (.alone (.done h) rfl rfl)
    | cons job jobs => exact .inl (.call (w.release 0 job) fun reply => ⟨_, .release h 0 reply⟩)
  | returned => exact absurd h hphase

end Progress

/-- **Shutdown terminates.**  From any state a worker can be in with its token cancelled, whatever
    the store replies and whenever handlers end: the worker makes two more claim calls at most,
    and at most one of them hands out a job; it takes a bounded number of steps, five more for
    each wakeup its `select!` lets through and one for each stale claim it is told of; and until
    it has returned it has a step to take, unless it waits for the handlers it has aborted.  When
    it returns, no handler is left and no job is tracked. -/
theorem shutdown_terminates {fl : ℚ → ℚ} {registry : Registry} {w : Worker}
    {tr₀ tr : List (Move Loop LoopLabel)} {st₀ st : Loop} (h₀ : LoopRun fl registry w tr₀ st₀)
    (hshutdown : st₀.shutdown = true)
    (h : Run st₀ (fun _ => Loop.Step fl registry w) tr st) :
    total LoopLabel.claims tr ≤ 2 ∧ total LoopLabel.hands tr ≤ 1 ∧
    total LoopLabel.own tr ≤
      7 * w.config.concurrency + 18 + st₀.phase.stale.length + total LoopLabel.refill tr ∧
    (st.phase ≠ .returned → st.GoesOn fl registry w ∨ st.Joins) ∧
    (st.phase = .returned → st.running.keys = [] ∧ st.inflight.keys = []) := by
  let I (st : Loop) : Prop := st.shutdown = true ∧ st.Emptied
  have hI (st : Loop) label st' (hst : I st) (hs : Loop.Step fl registry w st label st') : I st' :=
    ⟨hs.shutdown hst.1, hs.emptied hst.2⟩
  have h0 : I st₀ := ⟨hshutdown, emptied_of_run h₀⟩
  obtain ⟨hclaims, -⟩ := Run.budget (fun st => st.phase.claims) LoopLabel.claims (fun _ => 0) hI
    (fun _ _ _ hst hs => (hs.claims_le hst.1).1) h h0
  obtain ⟨hhands, -⟩ := Run.budget (fun st => st.phase.hands) LoopLabel.hands (fun _ => 0) hI
    (fun _ _ _ hst hs => (hs.claims_le hst.1).2) h h0
  obtain ⟨hown, hst⟩ := Run.budget Loop.rank LoopLabel.own LoopLabel.refill hI
    (fun _ _ _ hst hs => hs.rank_le hst.1) h h0
  have hclaims₀ := st₀.phase.claims_le
  have hhands₀ := st₀.phase.hands_le
  have hrank₀ := (sized_of_run h₀).rank_le
  simp only [total_zero] at hclaims hhands
  refine ⟨by omega, by omega, by omega, goesOn_or_joins hst.1, fun hreturned => ?_⟩
  have hemptied := hst.2
  simp only [Loop.Emptied, hreturned] at hemptied
  exact hemptied

/-! ### A sample shutdown -/

/-- The sample worker with its job in flight and its token cancelled. -/
def sampleStopping : Loop := { sampleBusy with shutdown := true }

/-- The sample worker is told to stop while its job runs. -/
theorem sampleStopping_run : ∃ tr, LoopRun id sampleRegistry sampleWorker tr sampleStopping := by
  obtain ⟨tr, h⟩ := sampleBusy_run
  exact ⟨_, h.snoc ⟨.cancelled, trivial⟩⟩

/-- Its runs from there. -/
abbrev StoppingRun : List (Move Loop LoopLabel) → Loop → Prop :=
  Run sampleStopping (fun _ => Loop.Step id sampleRegistry sampleWorker)

/-- It stops waiting, the drain deadline fires, its handler is aborted, and its job released. -/
theorem sampleStopping_returns : ∃ tr st, StoppingRun tr st ∧ st.phase = .returned ∧
    total LoopLabel.own tr = 8 := by
  have hstart : StoppingRun [] sampleStopping := .start
  have hwaiting := (hstart.snoc (.full rfl (by decide))).snoc (.measure rfl 0 (.ok none))
  have hforcing := (hwaiting.snoc (.stop rfl rfl)).snoc (.deadline rfl (by decide))
  have htask : (sampleStopping.goto .forcing).running.lookup 7 = some ⟨sampleRow, [], none⟩ := rfl
  have hended := hforcing.snoc (.ended htask rfl .failed)
  have hjoined := hended.snoc (.forceFailed rfl (AList.lookup_insert _))
  have hreleasing := hjoined.snoc (.forced rfl rfl (.refl _))
  have hreleased := hreleasing.snoc (.release rfl 0 (.ok true))
  exact ⟨_, _, hreleased.snoc (.done rfl), rfl, rfl⟩

/-- It returns within the bound, with nothing running and nothing tracked. -/
theorem shutdown_terminates_sampleStopping : ∃ tr st, StoppingRun tr st ∧
    total LoopLabel.own tr = 8 ∧ total LoopLabel.own tr ≤ 25 + total LoopLabel.refill tr ∧
    st.running.keys = [] ∧ st.inflight.keys = [] := by
  obtain ⟨tr₀, h₀⟩ := sampleStopping_run
  obtain ⟨tr, st, h, hphase, hown⟩ := sampleStopping_returns
  obtain ⟨-, -, hbound, -, hempty⟩ := shutdown_terminates h₀ rfl h
  exact ⟨tr, st, h, hown, hbound, hempty hphase⟩

end Venturi
