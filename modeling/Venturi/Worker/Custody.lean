import Venturi.Worker.Loop

namespace Venturi

open Collections List

/-!
# Who holds a claimed job

The loop seen as a custodian: a claimed job is in the worker's hand, then with its task,
then in hand again until one `settle` call concludes it.

* `Custody` — the abstract machine: what is in hand, the unjoined tasks and the tracked
  jobs.  `Loop.Step.custody` — every step of the loop is a step of it.
* `Accounts` — the invariant: every claim is settled or open, every claim is ended or not
  yet, and whatever is left to conclude names how its task ended.
* `Balanced.concluded` — with nothing left, every claim is concluded by exactly one call,
  the one its ending asks for.
-/

/-! ### Epochs, endings and calls -/

/-- A claim epoch: a job id and a run number. -/
abbrev Epoch := Ulid × Nat

def JobRecord.epoch (job : JobRecord) : Epoch := (job.id, job.runCount)

def FinishedRun.epoch (finished : FinishedRun) : Epoch := (finished.id, finished.runNo)

def InflightJob.epoch (job : InflightJob) : Epoch := (job.id, job.runNo)

/-- How the task of a claimed job ended: its handler returned, or it was aborted. -/
inductive Ending where
  | returned (finished : FinishedRun)
  | aborted (job : InflightJob)

def Ending.epoch : Ending → Epoch
  | .returned finished => finished.epoch
  | .aborted job => job.epoch

/-- The ending of the task of `job`. -/
def TaskResult.ending (job : JobRecord) : TaskResult → Ending
  | .returned report => .returned (job.finished report)
  | .failed => .aborted job.inflight

/-- The call an ending asks for: the handler's own settlement, or a release. -/
def Ending.Concludes (fl : ℚ → ℚ) (w : Worker) : Ending → Call → Prop
  | .returned finished, c => ∃ now, c = w.settle fl now finished
  | .aborted job, c => ∃ now, c = w.release now job

/-- The epoch a settlement presents. -/
def Call.settles : Call → Option Epoch
  | .settle id _ runNo _ _ => some (id, runNo)
  | _ => none

/-- However a task ends, it is the end of its epoch. -/
theorem TaskResult.ending_epoch (job : JobRecord) (result : TaskResult) :
    (result.ending job).epoch = job.epoch := by cases result <;> rfl

/-- A concluding call presents the epoch of its ending. -/
theorem Ending.Concludes.settles {fl : ℚ → ℚ} {w : Worker} {e : Ending} {c : Call}
    (h : e.Concludes fl w c) : c.settles = some e.epoch := by
  cases e with
  | returned finished =>
    obtain ⟨now, rfl⟩ := h
    rfl
  | aborted job =>
    obtain ⟨now, rfl⟩ := h
    rfl

/-- A concluding call is made under the identity of the worker. -/
theorem Ending.Concludes.claimedBy {fl : ℚ → ℚ} {w : Worker} {e : Ending} {id : Ulid}
    {claimedBy : String} {runNo : Nat} {settlement : Settlement} {entry : JournalAppend}
    (h : e.Concludes fl w (.settle id claimedBy runNo settlement entry)) :
    claimedBy = w.identity := by
  cases e with
  | returned finished =>
    obtain ⟨now, h⟩ := h
    exact (Call.settle.inj h).2.1
  | aborted job =>
    obtain ⟨now, h⟩ := h
    exact (Call.settle.inj h).2.1

namespace LoopLabel

/-- The epoch a claim returned. -/
def claim? : LoopLabel → Option Epoch
  | .call (.claimNext ..) (.ok (some job)) => some job.epoch
  | _ => none

/-- A claim that is counted is a call that returned a job. -/
theorem claim?_eq_some {label : LoopLabel} {e : Epoch} (h : label.claim? = some e) :
    ∃ kinds floor lease claimedBy job,
      label = .call (.claimNext kinds floor lease claimedBy) (.ok (some job)) ∧ job.epoch = e := by
  unfold claim? at h
  split at h
  · exact ⟨_, _, _, _, _, rfl, Option.some.inj h⟩
  · cases h

/-- A `settle` call. -/
def settle? : LoopLabel → Option Call
  | .call (.settle id claimedBy runNo settlement journal) _ =>
      some (.settle id claimedBy runNo settlement journal)
  | _ => none

/-- A settlement that is counted is a call. -/
theorem settle?_eq_some {label : LoopLabel} {c : Call} (h : label.settle? = some c) :
    ∃ reply, label = .call c reply := by
  unfold settle? at h
  split at h
  · obtain rfl := Option.some.inj h
    exact ⟨_, rfl⟩
  · cases h

/-- A task that ended. -/
def ending? : LoopLabel → Option Ending
  | .ended _ job result => some (result.ending job)
  | _ => none

/-- Neither a claim, nor a settlement, nor an ending. -/
def Silent (label : LoopLabel) : Prop :=
  label.claim? = none ∧ label.settle? = none ∧ label.ending? = none

end LoopLabel

/-! ### The abstract machine -/

/-- What the worker has in hand, and whether it has given up on its handlers. -/
inductive Hand where
  | free (aborted : Bool)
  /-- A claimed job whose task is not spawned yet. -/
  | claimed (job : JobRecord)
  /-- A joined run that is not settled yet. -/
  | finished (finished : FinishedRun) (aborted : Bool)
  /-- The jobs that are left to release. -/
  | stragglers (jobs : List InflightJob)

def Hand.aborted : Hand → Bool
  | .free aborted => aborted
  | .claimed _ => false
  | .finished _ aborted => aborted
  | .stragglers _ => true

/-- The worker as a custodian of claimed jobs. -/
structure Custody where
  hand : Hand
  running : Map TaskId RunTask
  inflight : Map TaskId InflightJob

/-- One step of the custodian. -/
inductive Custody.Step (fl : ℚ → ℚ) (w : Worker) : Custody → LoopLabel → Custody → Prop
  | quiet {x : Custody} {label : LoopLabel} (hsilent : label.Silent) : Step fl w x label x
  | claim {running : Map TaskId RunTask} {inflight : Map TaskId InflightJob} {kinds : List String}
      {floor : Int} (job : JobRecord) :
      Step fl w ⟨.free false, running, inflight⟩
        (.call (.claimNext kinds floor w.config.lease w.identity) (.ok (some job)))
        ⟨.claimed job, running, inflight⟩
  | spawn {running : Map TaskId RunTask} {inflight : Map TaskId InflightJob} {id : TaskId}
      {job : JobRecord} {history : List JournalEntry} (hnew : id ∉ running) :
      Step fl w ⟨.claimed job, running, inflight⟩ (.spawned id job)
        ⟨.free false, running.insert id ⟨job, history, none⟩, inflight.insert id job.inflight⟩
  | ended {hand : Hand} {running : Map TaskId RunTask} {inflight : Map TaskId InflightJob}
      {id : TaskId} {task : RunTask} (htask : running.lookup id = some task)
      (hrunning : task.result = none) (result : TaskResult) :
      Step fl w ⟨hand, running, inflight⟩ (.ended id task.job result)
        ⟨hand, running.insert id { task with result := some result }, inflight⟩
  | join {aborted : Bool} {running : Map TaskId RunTask} {inflight : Map TaskId InflightJob}
      {id : TaskId} {task : RunTask} {report : Except Error RunReport}
      (htask : running.lookup id = some task) (hresult : task.result = some (.returned report)) :
      Step fl w ⟨.free aborted, running, inflight⟩ (.joined id)
        ⟨.finished (task.job.finished report) aborted, running.erase id, inflight.erase id⟩
  /-- A join error while the handlers are still waited for: the job is dropped. -/
  | drop {running : Map TaskId RunTask} {inflight : Map TaskId InflightJob} {id : TaskId}
      {task : RunTask} (htask : running.lookup id = some task)
      (hresult : task.result = some .failed) :
      Step fl w ⟨.free false, running, inflight⟩ (.joined id)
        ⟨.free false, running.erase id, inflight.erase id⟩
  /-- A join error past the abort: the job stays tracked. -/
  | leave {running : Map TaskId RunTask} {inflight : Map TaskId InflightJob} {id : TaskId}
      {task : RunTask} (htask : running.lookup id = some task)
      (hresult : task.result = some .failed) :
      Step fl w ⟨.free true, running, inflight⟩ (.joined id)
        ⟨.free true, running.erase id, inflight⟩
  | settle {aborted : Bool} {running : Map TaskId RunTask} {inflight : Map TaskId InflightJob}
      {finished : FinishedRun} (now : DateTime) (reply : Except Error Bool) :
      Step fl w ⟨.finished finished aborted, running, inflight⟩
        (.call (w.settle fl now finished) reply) ⟨.free aborted, running, inflight⟩
  | abort {running : Map TaskId RunTask} {inflight : Map TaskId InflightJob} {label : LoopLabel}
      (hsilent : label.Silent) :
      Step fl w ⟨.free false, running, inflight⟩ label ⟨.free true, running, inflight⟩
  | strand {running : Map TaskId RunTask} {inflight : Map TaskId InflightJob}
      {jobs : List InflightJob} {label : LoopLabel} (hempty : running.keys = [])
      (hjobs : jobs.Perm inflight.values) (hsilent : label.Silent) :
      Step fl w ⟨.free true, running, inflight⟩ label ⟨.stragglers jobs, running, ∅⟩
  | release {running : Map TaskId RunTask} {inflight : Map TaskId InflightJob} {job : InflightJob}
      {jobs : List InflightJob} (now : DateTime) (reply : Except Error Bool) :
      Step fl w ⟨.stragglers (job :: jobs), running, inflight⟩
        (.call (w.release now job) reply) ⟨.stragglers jobs, running, inflight⟩

/-! ### The loop is a custodian -/

/-- Where the worker has given up on its handlers. -/
def Stage.aborted : Stage → Bool
  | .forcing => true
  | _ => false

/-- What the worker has in hand at a place of its code. -/
def Phase.hand : Phase → Hand
  | .leasing job | .loading job | .spawning job _ => .claimed job
  | .settling finished stage => .finished finished stage.aborted
  | .forcing => .free true
  | .releasing jobs => .stragglers jobs
  | .returned => .stragglers []
  | _ => .free false

def Loop.custody (st : Loop) : Custody := ⟨st.phase.hand, st.running, st.inflight⟩

section Refine

variable {fl : ℚ → ℚ} {registry : Registry} {w : Worker} {st st' : Loop} {label : LoopLabel}

@[simp] theorem Loop.custody_goto (phase : Phase) :
    (st.goto phase).custody = ⟨phase.hand, st.running, st.inflight⟩ := rfl

/-- After a joined task the hand is free. -/
theorem Stage.hand_phase (stage : Stage) : stage.phase.hand = .free stage.aborted := by
  cases stage <;> rfl

/-- `reap` leaves the tasks alone and stops tracking the job. -/
theorem Loop.reap_join (st : Loop) (id : TaskId) :
    ((st.join id).reap id).running = st.running.erase id ∧
      ((st.join id).reap id).inflight = st.inflight.erase id := by
  unfold reap
  split
  · exact ⟨rfl, rfl⟩
  · rename_i hnone
    refine ⟨rfl, AList.ext ?_⟩
    have hnot : id ∉ st.inflight := AList.lookup_eq_none.mp hnone
    exact (List.kerase_of_notMem_keys hnot).symm

/-- Moving on with the same in hand. -/
theorem Loop.custody_quiet {phase : Phase} (hhand : phase.hand = st.phase.hand)
    (hsilent : label.Silent) : Custody.Step fl w st.custody label (st.goto phase).custody := by
  rw [custody_goto, hhand]
  exact .quiet hsilent

/-- **Every step of the loop is a step of the custodian.** -/
theorem Loop.Step.custody (hs : Loop.Step fl registry w st label st') :
    Custody.Step fl w st.custody label st'.custody := by
  cases hs with
  | claimed h job | claimedAny h job =>
    rw [Loop.custody, h]
    exact .claim job
  | spawn h id hnew =>
    rw [Loop.custody, h]
    exact .spawn hnew
  | @reapRun stage id job history report h htask =>
    obtain ⟨hrunning, hinflight⟩ := st.reap_join id
    have hhand : st.phase.hand = .free stage.aborted := by
      rcases h with ⟨rfl, _, h⟩ | ⟨rfl, h⟩ <;> rw [h] <;> rfl
    rw [Loop.custody_goto, hrunning, hinflight, Loop.custody, hhand]
    exact .join htask rfl
  | @reapFailed stage id job history h htask =>
    obtain ⟨hrunning, hinflight⟩ := st.reap_join id
    have hhand : st.phase.hand = .free false ∧ stage.phase.hand = .free false := by
      rcases h with ⟨rfl, _, h⟩ | ⟨rfl, h⟩ <;> rw [h] <;> exact ⟨rfl, rfl⟩
    rw [Loop.custody_goto, hrunning, hinflight, Loop.custody, hhand.1, hhand.2]
    exact .drop htask rfl
  | settle h now reply =>
    rw [Loop.custody_goto, Stage.hand_phase, Loop.custody, h]
    exact .settle now reply
  | drained h | deadline h =>
    rw [Loop.custody, h]
    exact .abort ⟨rfl, rfl, rfl⟩
  | forceRun h htask =>
    rw [Loop.custody, h]
    exact .join htask rfl
  | @forceFailed id job history h htask =>
    have hafter : (st.join id).phase.hand = .free true := congrArg Phase.hand h
    rw [Loop.custody, Loop.custody, hafter, h]
    exact .leave htask rfl
  | forced h hempty hjobs =>
    rw [Loop.custody, h]
    exact .strand hempty hjobs ⟨rfl, rfl, rfl⟩
  | release h now reply =>
    rw [Loop.custody, h]
    exact .release now reply
  | ended htask hrunning result => exact .ended htask hrunning result
  -- nothing changes hands
  | claim h =>
    have hhand : st.phase.hand = .free false := by rw [h]; rfl
    rw [Loop.custody, hhand]
    exact .quiet ⟨rfl, rfl, rfl⟩
  | cancelled => exact .quiet ⟨rfl, rfl, rfl⟩
  | scan h | scanFailed h | recover h | recovered h | full h | stopFilling h | capped h | nothing h
  | fallBack h | claimFailed h | nothingAny h | claimAnyFailed h | extend h | keepLease h | load h
  | loadFailed h | measure h | stop h | wake h | done h =>
    exact custody_quiet (by rw [h]; rfl) ⟨rfl, rfl, rfl⟩

end Refine

/-! ### The state of custody -/

/-- A running task is tracked, until the abort nothing else is, and nothing is tracked once
    the stragglers are in hand. -/
structure Custody.Sound (x : Custody) : Prop where
  tracked : ∀ id task, x.running.lookup id = some task →
    x.inflight.lookup id = some task.job.inflight
  matched : x.hand.aborted = false → ∀ id, id ∈ x.inflight → id ∈ x.running
  stranded : ∀ jobs, x.hand = .stragglers jobs → x.running.keys = [] ∧ x.inflight.keys = []

section Sound

variable {fl : ℚ → ℚ} {w : Worker} {x x' : Custody} {label : LoopLabel}

/-- **One step keeps the tasks tracked.** -/
theorem Custody.Sound.step (h : x.Sound) (hs : Custody.Step fl w x label x') : x'.Sound := by
  cases hs with
  | quiet => exact h
  | claim => exact ⟨h.tracked, h.matched, nofun⟩
  | settle => exact ⟨h.tracked, h.matched, nofun⟩
  | abort => exact ⟨h.tracked, nofun, nofun⟩
  | @spawn running inflight id job history hnew =>
    refine ⟨fun id' task htask => ?_, fun _ id' hmem => ?_, nofun⟩
    · rcases Map.lookup_of_insert htask with ⟨rfl, rfl⟩ | ⟨hid, hold⟩
      · exact AList.lookup_insert _
      · rw [AList.lookup_insert_ne hid]
        exact h.tracked id' task hold
    · rcases (AList.mem_insert _).mp hmem with rfl | hmem
      · simp
      · exact (AList.mem_insert _).mpr (.inr (h.matched rfl id' hmem))
  | @ended hand running inflight id task htask hrunning result =>
    refine ⟨fun id' task' htask' => ?_, fun haborted id' hmem => ?_, fun jobs hhand => ?_⟩
    · rcases Map.lookup_of_insert htask' with ⟨rfl, rfl⟩ | ⟨-, hold⟩
      · exact h.tracked id' task htask
      · exact h.tracked id' task' hold
    · exact (AList.mem_insert _).mpr (.inr (h.matched haborted id' hmem))
    · -- no task is left to end
      obtain ⟨hempty, -⟩ := h.stranded jobs hhand
      exact absurd (Map.mem_of_lookup htask) (Map.not_mem_of_keys_nil hempty)
  | join htask | drop htask =>
    refine ⟨fun id' task' htask' => ?_, fun haborted id' hmem => ?_, nofun⟩
    · obtain ⟨hid, hold⟩ := Map.lookup_of_erase htask'
      rw [AList.lookup_erase_ne hid]
      exact h.tracked id' task' hold
    · obtain ⟨hid, hold⟩ := AList.mem_erase.mp hmem
      exact AList.mem_erase.mpr ⟨hid, h.matched haborted id' hold⟩
  | leave htask =>
    -- past the abort a task leaves, and what it tracked stays
    refine ⟨fun id' task' htask' => ?_, nofun, nofun⟩
    exact h.tracked id' task' (Map.lookup_of_erase htask').2
  | @strand running inflight jobs label hempty =>
    refine ⟨fun id task htask => ?_, nofun, fun _ _ => ⟨hempty, rfl⟩⟩
    exact absurd (Map.mem_of_lookup htask) (Map.not_mem_of_keys_nil hempty)
  | release => exact ⟨h.tracked, nofun, fun _ _ => h.stranded _ rfl⟩

end Sound

/-! ### The accounts -/

/-- The epochs claimed, in order. -/
def claims (labels : List LoopLabel) : List Epoch := labels.filterMap LoopLabel.claim?

/-- The `settle` calls made, in order. -/
def settlements (labels : List LoopLabel) : List Call := labels.filterMap LoopLabel.settle?

/-- The endings of tasks, in order. -/
def endings (labels : List LoopLabel) : List Ending := labels.filterMap LoopLabel.ending?

/-- The epochs in hand that no call has settled. -/
def Hand.epochs : Hand → List Epoch
  | .free _ => []
  | .claimed job => [job.epoch]
  | .finished run _ => [run.epoch]
  | .stragglers jobs => jobs.map InflightJob.epoch

/-- The epochs in hand whose task has not ended. -/
def Hand.unspawned : Hand → List Epoch
  | .claimed job => [job.epoch]
  | _ => []

/-- The epoch of a task that has not ended. -/
def RunTask.unended (task : RunTask) : Option Epoch :=
  match task.result with
  | none => some task.job.epoch
  | some _ => none

namespace Custody

/-- The epochs no call has settled. -/
def unsettled (x : Custody) : List Epoch := x.hand.epochs ++ x.inflight.values.map InflightJob.epoch

/-- The epochs whose task has not ended. -/
def unended (x : Custody) : List Epoch :=
  x.hand.unspawned ++ x.running.values.filterMap RunTask.unended

end Custody

section Snoc

variable {labels : List LoopLabel} {label : LoopLabel}

theorem claims_snoc : claims (labels ++ [label]) = claims labels ++ label.claim?.toList := by
  rw [claims, List.filterMap_append]
  cases h : label.claim? <;> simp [claims, h]

theorem settlements_snoc :
    settlements (labels ++ [label]) = settlements labels ++ label.settle?.toList := by
  rw [settlements, List.filterMap_append]
  cases h : label.settle? <;> simp [settlements, h]

theorem endings_snoc : endings (labels ++ [label]) = endings labels ++ label.ending?.toList := by
  rw [endings, List.filterMap_append]
  cases h : label.ending? <;> simp [endings, h]

theorem mem_endings_snoc {e : Ending} (h : e ∈ endings labels) :
    e ∈ endings (labels ++ [label]) := by
  rw [endings_snoc]
  exact List.mem_append_left _ h

end Snoc

/-- **The accounts balance**: every claim is settled or open, and its task has ended or not. -/
structure Accounts (labels : List LoopLabel) (x : Custody) : Prop where
  settled : claims labels ~ (settlements labels).filterMap Call.settles ++ x.unsettled
  ended : claims labels ~ (endings labels).map Ending.epoch ++ x.unended

section Accounts

variable {fl : ℚ → ℚ} {w : Worker} {labels : List LoopLabel} {x x' : Custody} {label : LoopLabel}

/-- Adding to a list what is taken from the rest of the other. -/
theorem perm_move {α : Type} {whole part rest added taken rest' : List α}
    (h : whole ~ part ++ rest) (hmoved : added ++ rest ~ taken ++ rest') :
    whole ++ added ~ (part ++ taken) ++ rest' :=
  calc whole ++ added ~ (part ++ rest) ++ added := h.append_right added
    _ ~ part ++ (added ++ rest) := by
      rw [List.append_assoc]
      exact List.perm_append_comm.append_left part
    _ ~ part ++ (taken ++ rest') := hmoved.append_left part
    _ ~ (part ++ taken) ++ rest' := by rw [List.append_assoc]

/-- What a step claims, settles and ends is what it moves. -/
theorem Accounts.move (h : Accounts labels x)
    (hsettled : label.claim?.toList ++ x.unsettled ~
      label.settle?.toList.filterMap Call.settles ++ x'.unsettled)
    (hended : label.claim?.toList ++ x.unended ~
      label.ending?.toList.map Ending.epoch ++ x'.unended) :
    Accounts (labels ++ [label]) x' := by
  refine ⟨?_, ?_⟩
  · rw [claims_snoc, settlements_snoc, List.filterMap_append]
    exact perm_move h.settled hsettled
  · rw [claims_snoc, endings_snoc, List.map_append]
    exact perm_move h.ended hended

/-- A silent step moves only what is open. -/
theorem Accounts.silent (h : Accounts labels x) (hsilent : label.Silent)
    (hunsettled : x.unsettled ~ x'.unsettled) (hunended : x.unended ~ x'.unended) :
    Accounts (labels ++ [label]) x' := by
  obtain ⟨hclaim, hsettle, hending⟩ := hsilent
  apply h.move
  · rw [hclaim, hsettle]
    exact hunsettled
  · rw [hclaim, hending]
    exact hunended

/-- Erasing a task that has ended. -/
theorem unended_erase {running : Map TaskId RunTask} {id : TaskId} {task : RunTask}
    (htask : running.lookup id = some task) (hended : task.unended = none) :
    (Map.values running).filterMap RunTask.unended ~
      (Map.values (running.erase id)).filterMap RunTask.unended := by
  have hperm := (Map.values_perm_erase htask).filterMap RunTask.unended
  rwa [List.filterMap_cons_none hended] at hperm

/-- **One step keeps the balance**, unless it drops a job. -/
theorem Accounts.step (h : Accounts labels x) (hsound : x.Sound)
    (hdropped : ∀ id task, x.hand = .free false → x.running.lookup id = some task →
      task.result ≠ some .failed)
    (hs : Custody.Step fl w x label x') : Accounts (labels ++ [label]) x' := by
  cases hs with
  | quiet hsilent | abort hsilent => exact h.silent hsilent (.refl _) (.refl _)
  | claim job =>
    -- the new claim is in hand, neither settled nor ended
    exact h.move (.refl _) (.refl _)
  | @spawn running inflight id job history hnew =>
    have hnew' : id ∉ inflight := fun hmem => hnew (hsound.matched rfl id hmem)
    refine h.silent ⟨rfl, rfl, rfl⟩ ?_ ?_
    · rw [Custody.unsettled, Custody.unsettled, Map.values_insert hnew']
      exact .refl _
    · rw [Custody.unended, Custody.unended, Map.values_insert hnew]
      exact .refl _
  | @ended hand running inflight id task htask hrunning result =>
    refine h.move (.refl _) ?_
    -- the epoch of the task moves to the endings
    have hbefore : (Map.values running).filterMap RunTask.unended ~
        task.job.epoch :: (Map.values (running.erase id)).filterMap RunTask.unended := by
      have hperm := (Map.values_perm_erase htask).filterMap RunTask.unended
      have hunended : task.unended = some task.job.epoch := by rw [RunTask.unended, hrunning]
      rwa [List.filterMap_cons_some hunended] at hperm
    show hand.unspawned ++ (Map.values running).filterMap RunTask.unended ~
      (result.ending task.job).epoch ::
        (hand.unspawned ++ (Map.values (running.erase id)).filterMap RunTask.unended)
    rw [TaskResult.ending_epoch]
    exact (hbefore.append_left _).trans List.perm_middle
  | @join aborted running inflight id task report htask hresult =>
    have hjob := hsound.tracked id task htask
    refine h.silent ⟨rfl, rfl, rfl⟩ ?_ ?_
    · exact (Map.values_perm_erase hjob).map InflightJob.epoch
    · exact unended_erase htask (by simp [RunTask.unended, hresult])
  | drop htask hresult => exact absurd hresult (hdropped _ _ rfl htask)
  | leave htask hresult =>
    refine h.silent ⟨rfl, rfl, rfl⟩ (.refl _) ?_
    exact unended_erase htask (by simp [RunTask.unended, hresult])
  | settle => exact h.move (.refl _) (.refl _)
  | @strand running inflight jobs label hempty hjobs hsilent =>
    refine h.silent hsilent ?_ (.refl _)
    have hepochs : inflight.values.map InflightJob.epoch ~ jobs.map InflightJob.epoch :=
      (hjobs.map InflightJob.epoch).symm
    simpa [Custody.unsettled, Hand.epochs] using hepochs
  | release => exact h.move (.refl _) (.refl _)

end Accounts

/-! ### What is left to conclude -/

/-- The endings in hand. -/
def Hand.endings : Hand → List Ending
  | .finished run _ => [.returned run]
  | .stragglers jobs => jobs.map .aborted
  | _ => []

/-- **Whatever is left to conclude names how its task ended**, and so does every call made. -/
structure Answered (fl : ℚ → ℚ) (w : Worker) (labels : List LoopLabel) (x : Custody) : Prop where
  reported : ∀ id task result, x.running.lookup id = some task → task.result = some result →
    result.ending task.job ∈ endings labels
  left : ∀ id job, x.inflight.lookup id = some job → id ∉ x.running →
    .aborted job ∈ endings labels
  inHand : ∀ e ∈ x.hand.endings, e ∈ endings labels
  concluded : ∀ c ∈ settlements labels, ∃ e ∈ endings labels, e.Concludes fl w c

section Answered

variable {fl : ℚ → ℚ} {w : Worker} {labels : List LoopLabel} {x x' : Custody} {label : LoopLabel}

/-- A call concludes an ending that was in hand, or no call is made. -/
theorem Answered.concluded_snoc (h : Answered fl w labels x)
    (hcall : ∀ c ∈ label.settle?, ∃ e ∈ x.hand.endings, e.Concludes fl w c) :
    ∀ c ∈ settlements (labels ++ [label]), ∃ e ∈ endings (labels ++ [label]),
      e.Concludes fl w c := by
  intro c hc
  rw [settlements_snoc] at hc
  rcases List.mem_append.mp hc with hc | hc
  · obtain ⟨e, he, hconcludes⟩ := h.concluded c hc
    exact ⟨e, mem_endings_snoc he, hconcludes⟩
  · obtain ⟨e, he, hconcludes⟩ := hcall c (Option.mem_toList.mp hc)
    exact ⟨e, mem_endings_snoc (h.inHand e he), hconcludes⟩

/-- Where no call is made, every call made is answered as before. -/
theorem Answered.concluded_of_none (h : Answered fl w labels x) (hnone : label.settle? = none) :
    ∀ c ∈ settlements (labels ++ [label]), ∃ e ∈ endings (labels ++ [label]),
      e.Concludes fl w c := by
  apply h.concluded_snoc
  simp [hnone]

/-- **One step leaves nothing unanswered.** -/
theorem Answered.step (h : Answered fl w labels x) (hsound : x.Sound)
    (hs : Custody.Step fl w x label x') : Answered fl w (labels ++ [label]) x' := by
  have hreported : ∀ id task result, x.running.lookup id = some task →
      task.result = some result → result.ending task.job ∈ endings (labels ++ [label]) :=
    fun id task result htask hresult => mem_endings_snoc (h.reported id task result htask hresult)
  have hleft : ∀ id job, x.inflight.lookup id = some job → id ∉ x.running →
      .aborted job ∈ endings (labels ++ [label]) :=
    fun id job hjob hnot => mem_endings_snoc (h.left id job hjob hnot)
  have hinHand : ∀ e ∈ x.hand.endings, e ∈ endings (labels ++ [label]) :=
    fun e he => mem_endings_snoc (h.inHand e he)
  -- a join leaves the other tasks, and what was left before it
  have hjoined : ∀ id id' task result, (x.running.erase id).lookup id' = some task →
      task.result = some result → result.ending task.job ∈ endings (labels ++ [label]) :=
    fun id id' task result htask => hreported id' task result (Map.lookup_of_erase htask).2
  have huntracked : ∀ id id' job, (x.inflight.erase id).lookup id' = some job →
      id' ∉ x.running.erase id → .aborted job ∈ endings (labels ++ [label]) := by
    intro id id' job hjob hnot
    obtain ⟨hid, hold⟩ := Map.lookup_of_erase hjob
    exact hleft id' job hold (fun hmem => hnot (AList.mem_erase.mpr ⟨hid, hmem⟩))
  cases hs with
  | quiet hsilent => exact ⟨hreported, hleft, hinHand, h.concluded_of_none hsilent.2.1⟩
  | abort hsilent =>
    exact ⟨hreported, hleft, by simp [Hand.endings], h.concluded_of_none hsilent.2.1⟩
  | claim job => exact ⟨hreported, hleft, by simp [Hand.endings], h.concluded_of_none rfl⟩
  | @spawn running inflight id job history hnew =>
    refine ⟨fun id' task result htask hresult => ?_, fun id' job' hjob hnot => ?_,
      by simp [Hand.endings], h.concluded_of_none rfl⟩
    · rcases Map.lookup_of_insert htask with ⟨rfl, rfl⟩ | ⟨-, hold⟩
      · cases hresult
      · exact hreported id' task result hold hresult
    · rcases Map.lookup_of_insert hjob with ⟨rfl, -⟩ | ⟨-, hold⟩
      · exact absurd ((AList.mem_insert _).mpr (.inl rfl)) hnot
      · exact hleft id' job' hold (fun hmem => hnot ((AList.mem_insert _).mpr (.inr hmem)))
  | @ended hand running inflight id task htask hrunning result =>
    refine ⟨fun id' task' result' htask' hresult => ?_, fun id' job' hjob hnot => ?_, hinHand,
      h.concluded_of_none rfl⟩
    · rcases Map.lookup_of_insert htask' with ⟨rfl, rfl⟩ | ⟨-, hold⟩
      · -- the ending this step reports
        obtain rfl : result = result' := Option.some.inj hresult
        rw [endings_snoc]
        exact List.mem_append_right _ (List.mem_singleton_self _)
      · exact hreported id' task' result' hold hresult
    · exact hleft id' job' hjob (fun hmem => hnot ((AList.mem_insert _).mpr (.inr hmem)))
  | @join aborted running inflight id task report htask hresult =>
    refine ⟨hjoined id, huntracked id, fun e he => ?_, h.concluded_of_none rfl⟩
    -- the joined run was reported
    obtain rfl := List.mem_singleton.mp he
    exact hreported id task _ htask hresult
  | @drop running inflight id task htask hresult =>
    exact ⟨hjoined id, huntracked id, hinHand, h.concluded_of_none rfl⟩
  | @leave running inflight id task htask hresult =>
    refine ⟨hjoined id, fun id' job' hjob hnot => ?_, hinHand, h.concluded_of_none rfl⟩
    by_cases hid : id' = id
    · -- the joined task was tracked, and reported as aborted
      subst hid
      obtain rfl : task.job.inflight = job' :=
        Option.some.inj ((hsound.tracked id' task htask).symm.trans hjob)
      exact hreported id' task _ htask hresult
    · exact hleft id' job' hjob (fun hmem => hnot (AList.mem_erase.mpr ⟨hid, hmem⟩))
  | @settle aborted running inflight run now reply =>
    refine ⟨hreported, hleft, by simp [Hand.endings], h.concluded_snoc ?_⟩
    rintro _ ⟨⟩
    exact ⟨.returned run, List.mem_singleton_self _, now, rfl⟩
  | @strand running inflight jobs label hempty hjobs hsilent =>
    refine ⟨hreported, by simp, fun e he => ?_, h.concluded_of_none hsilent.2.1⟩
    -- every job that is left was aborted
    obtain ⟨job, hjob, rfl⟩ := List.mem_map.mp he
    obtain ⟨id, hid⟩ := Map.mem_values.mp (hjobs.mem_iff.mp hjob)
    exact hleft id job hid (Map.not_mem_of_keys_nil hempty)
  | @release running inflight job jobs now reply =>
    refine ⟨hreported, hleft, ?_, h.concluded_snoc ?_⟩
    · intro e he
      exact hinHand e (List.mem_cons_of_mem _ he)
    · rintro _ ⟨⟩
      exact ⟨.aborted job, List.mem_cons_self, now, rfl⟩

end Answered

/-! ### Balanced runs -/

/-- A task failed only past the abort. -/
def Custody.Waited (x : Custody) : Prop :=
  ∀ id task, x.running.lookup id = some task → task.result = some .failed → x.hand.aborted = true

/-- Everything above together. -/
structure Balanced (fl : ℚ → ℚ) (w : Worker) (labels : List LoopLabel) (x : Custody) : Prop where
  sound : x.Sound
  waited : x.Waited
  accounts : Accounts labels x
  answered : Answered fl w labels x

/-- A task that fails is aborted: the worker has given up on its handlers. -/
def LoopLabel.EndsProperly (label : LoopLabel) (x : Custody) : Prop :=
  ∀ id job, label = .ended id job .failed → x.hand.aborted = true

section Balanced

variable {fl : ℚ → ℚ} {w : Worker} {labels : List LoopLabel} {x x' : Custody} {label : LoopLabel}

/-- **One step**: tasks still fail only past the abort. -/
theorem Custody.Waited.step (h : x.Waited) (hends : label.EndsProperly x)
    (hs : Custody.Step fl w x label x') : x'.Waited := by
  cases hs with
  | quiet | claim | settle => exact h
  | abort | strand | release => exact fun _ _ _ _ => rfl
  | @spawn running inflight id job history hnew =>
    intro id' task htask hresult
    rcases Map.lookup_of_insert htask with ⟨rfl, rfl⟩ | ⟨-, hold⟩
    · cases hresult
    · exact h id' task hold hresult
  | @ended hand running inflight id task htask hrunning result =>
    intro id' task' htask' hresult
    rcases Map.lookup_of_insert htask' with ⟨rfl, rfl⟩ | ⟨-, hold⟩
    · obtain rfl : result = .failed := Option.some.inj hresult
      exact hends _ _ rfl
    · exact h id' task' hold hresult
  | join htask | drop htask | leave htask =>
    exact fun id' task' htask' => h id' task' (Map.lookup_of_erase htask').2

/-- **One step keeps the worker balanced.** -/
theorem Balanced.step (h : Balanced fl w labels x) (hends : label.EndsProperly x)
    (hs : Custody.Step fl w x label x') : Balanced fl w (labels ++ [label]) x' where
  sound := h.sound.step hs
  waited := h.waited.step hends hs
  accounts := by
    refine h.accounts.step h.sound (fun id task hhand htask hresult => ?_) hs
    have haborted := h.waited id task htask hresult
    simp [hhand, Hand.aborted] at haborted
  answered := h.answered.step h.sound hs

/-- A worker starts with its accounts balanced. -/
theorem Balanced.start (registry : Registry) : Balanced fl w [] (Loop.start registry).custody := by
  by_cases hkinds : registry.kinds = [] <;>
    simp only [Loop.start, Loop.custody, hkinds, if_true, if_false, Phase.hand]
  · exact ⟨⟨by simp, by simp, fun _ _ => ⟨rfl, rfl⟩⟩, by simp [Custody.Waited],
      ⟨.refl _, .refl _⟩, ⟨by simp, by simp, by simp [Hand.endings], by simp [settlements]⟩⟩
  · exact ⟨⟨by simp, by simp, nofun⟩, by simp [Custody.Waited],
      ⟨.refl _, .refl _⟩, ⟨by simp, by simp, by simp [Hand.endings], by simp [settlements]⟩⟩

end Balanced

/-! ### With nothing left -/

/-- A settlement that releases. -/
def Call.isRelease : Call → Bool
  | .settle _ _ _ (.release _) _ => true
  | _ => false

/-- **Every claim is concluded exactly once**, by the call its ending asks for. -/
structure Concluded (fl : ℚ → ℚ) (w : Worker) (labels : List LoopLabel) : Prop where
  /-- One `settle` call for every claimed epoch, and none for any other. -/
  once : ∀ e, ((settlements labels).filterMap Call.settles).count e =
    if e ∈ claims labels then 1 else 0
  /-- The task of every claim ended, once. -/
  ended : ∀ e, ((endings labels).map Ending.epoch).count e = if e ∈ claims labels then 1 else 0
  /-- An ending is concluded by the call it asks for, … -/
  asked : ∀ e ∈ endings labels, ∃ c ∈ settlements labels, e.Concludes fl w c
  /-- … which is a release exactly when the task was aborted. -/
  released : ∀ c ∈ settlements labels,
    c.isRelease ↔ ∃ job, .aborted job ∈ endings labels ∧ c.settles = some job.epoch

section Concluded

variable {fl : ℚ → ℚ} {w : Worker} {labels : List LoopLabel} {x : Custody}

/-- A handler's own settlement is no release. -/
theorem Worker.settle_isRelease (now : DateTime) (run : FinishedRun) :
    (w.settle fl now run).isRelease = false := by
  have hnot : ∀ visibleAt, w.settlementOf fl now run ≠ .release visibleAt := by
    intro visibleAt
    simp only [settlementOf, settlementFor, retryOrBackstop]
    repeat' split
    all_goals simp
  unfold settle
  cases h : w.settlementOf fl now run with
  | release visibleAt => exact absurd h (hnot visibleAt)
  | _ => simp [Call.isRelease]

/-- **With nothing left, every claim is concluded.** -/
theorem Balanced.concluded (h : Balanced fl w labels x) (hnothing : x.hand = .stragglers [])
    (hnodup : (claims labels).Nodup) : Concluded fl w labels := by
  obtain ⟨hrunning, hinflight⟩ := h.sound.stranded [] hnothing
  have hvalues : x.inflight.values = [] := by
    rw [← List.length_eq_zero_iff, Map.length_values, hinflight]
    rfl
  have hvalues' : x.running.values = [] := by
    rw [← List.length_eq_zero_iff, Map.length_values, hrunning]
    rfl
  have hsettled : claims labels ~ (settlements labels).filterMap Call.settles := by
    simpa [Custody.unsettled, hnothing, hvalues, Hand.epochs] using h.accounts.settled
  have hended : claims labels ~ (endings labels).map Ending.epoch := by
    simpa [Custody.unended, hnothing, hvalues', Hand.unspawned] using h.accounts.ended
  -- an epoch names its ending
  have hinj : ∀ e ∈ endings labels, ∀ e' ∈ endings labels, e.epoch = e'.epoch → e = e' :=
    fun e he e' he' => List.inj_on_of_nodup_map (hended.nodup_iff.mp hnodup) he he'
  refine ⟨fun e => ?_, fun e => ?_, fun e he => ?_, fun c hc => ?_⟩
  · rw [← hsettled.count_eq, hnodup.count]
  · rw [← hended.count_eq, hnodup.count]
  · have hclaim : e.epoch ∈ claims labels := hended.mem_iff.mpr (List.mem_map_of_mem he)
    obtain ⟨c, hc, hepoch⟩ := List.mem_filterMap.mp (hsettled.mem_iff.mp hclaim)
    obtain ⟨e', he', hconcludes⟩ := h.answered.concluded c hc
    have hsame : e'.epoch = e.epoch := Option.some.inj (hconcludes.settles.symm.trans hepoch)
    exact ⟨c, hc, hinj e' he' e he hsame ▸ hconcludes⟩
  · obtain ⟨e, he, hconcludes⟩ := h.answered.concluded c hc
    constructor
    · intro hrelease
      cases e with
      | returned run =>
        obtain ⟨now, rfl⟩ := hconcludes
        rw [Worker.settle_isRelease] at hrelease
        cases hrelease
      | aborted job => exact ⟨job, he, hconcludes.settles⟩
    · rintro ⟨job, hjob, hepoch⟩
      have hsame : e.epoch = Ending.epoch (.aborted job) :=
        Option.some.inj (hconcludes.settles.symm.trans hepoch)
      obtain rfl := hinj e he _ hjob hsame
      obtain ⟨now, rfl⟩ := hconcludes
      rfl

end Concluded

end Venturi
