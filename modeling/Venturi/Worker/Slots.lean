import Venturi.Worker.Loop
import Venturi.Worker.System

namespace Venturi

open Collections

/-!
# Concurrency and per-kind caps

* `Slots` — the invariant of the loop's three structures: a job is tracked exactly while its
  task is unjoined, the tally counts the tracked jobs by kind, and both bounds hold.
* `Loop.Ready` — what the code relies on between checking for room and spawning.
* `slots_kept` — both hold until the worker gives up its handlers, whatever the store
  answers and in whatever order tasks end.
-/

/-- The kinds of the jobs in flight. -/
def Loop.kindsInFlight (st : Loop) : List String := st.inflight.values.map InflightJob.kind

/-- The number of jobs of a kind in flight. -/
def Loop.inflightOf (st : Loop) (kind : String) : Nat := st.kindsInFlight.count kind

/-! ### Claimable kinds -/

section Claimable

variable {registry : Registry} {byKind : Tally String} {kinds : List String} {kind : String}

/-- The claim filter lets a registered kind pass exactly below its cap. -/
theorem mem_claimableKinds (h : byKind.Counts kinds) :
    kind ∈ claimableKinds registry byKind ↔
      kind ∈ registry.kinds ∧ ∀ cap, registry.cap kind = some cap → kinds.count kind < cap := by
  rw [claimableKinds, List.mem_filter, ← h.getD kind]
  refine and_congr_right (fun _ => ?_)
  cases registry.cap kind <;> simp

end Claimable

/-! ### The invariant -/

/-- The three structures of the loop agree, and stay within the bounds. -/
structure Slots (registry : Registry) (limit : Nat) (running : Map TaskId RunTask)
    (inflight : Map TaskId InflightJob) (byKind : Tally String) : Prop where
  tracked : ∀ id, inflight.lookup id = (running.lookup id).map (fun task => task.job.inflight)
  bounded : running.keys.length ≤ limit
  counted : byKind.Counts (inflight.values.map InflightJob.kind)
  capped : ∀ kind cap, registry.cap kind = some cap →
    (inflight.values.map InflightJob.kind).count kind ≤ cap
  registered : ∀ job ∈ inflight.values, job.kind ∈ registry.kinds

namespace Slots

variable {registry : Registry} {limit : Nat} {running : Map TaskId RunTask}
  {inflight : Map TaskId InflightJob} {byKind : Tally String} {id : TaskId}

theorem empty : Slots registry limit ∅ ∅ ∅ where
  tracked _ := rfl
  bounded := Nat.zero_le _
  counted := Tally.Counts.nil
  capped _ _ _ := Nat.zero_le _
  registered := by simp

/-- The same tasks are unjoined as jobs are tracked. -/
theorem mem_iff (h : Slots registry limit running inflight byKind) (id : TaskId) :
    id ∈ running ↔ id ∈ inflight := by
  rw [← AList.lookup_isSome, ← AList.lookup_isSome, h.tracked, Option.isSome_map]

/-- Spawning a claimable job while there is room. -/
theorem spawn (h : Slots registry limit running inflight byKind) {job : JobRecord}
    {history : List JournalEntry} (hnew : id ∉ running) (hroom : running.keys.length < limit)
    (hkind : job.kind ∈ claimableKinds registry byKind) :
    Slots registry limit (running.insert id ⟨job, history, none⟩)
      (inflight.insert id job.inflight) (byKind.take job.kind) := by
  have hnew' : id ∉ inflight := fun hmem => hnew ((h.mem_iff id).mpr hmem)
  obtain ⟨hregistered, hbelow⟩ := (mem_claimableKinds h.counted).mp hkind
  have hkinds : (Map.values (inflight.insert id job.inflight)).map InflightJob.kind =
      job.kind :: inflight.values.map InflightJob.kind := by
    rw [Map.values_insert hnew']
    rfl
  refine ⟨fun id' => ?_, ?_, hkinds ▸ h.counted.take job.kind, fun kind cap hcap => ?_,
    fun job' hjob' => ?_⟩
  · by_cases hid : id' = id
    · subst hid
      simp
    · simp [hid, h.tracked id']
  · rw [AList.keys_insert, List.length_cons, List.erase_of_not_mem hnew]
    omega
  · rw [hkinds, List.count_cons]
    have hcapped := h.capped kind cap hcap
    split
    · -- the kind of the job was below its cap
      rename_i heq
      obtain rfl : job.kind = kind := by simpa using heq
      exact hbelow cap hcap
    · exact hcapped
  · rw [Map.values_insert hnew'] at hjob'
    rcases List.mem_cons.mp hjob' with rfl | hjob'
    · exact hregistered
    · exact h.registered job' hjob'

/-- Joining a task and untracking its job frees one slot of its kind. -/
theorem join (h : Slots registry limit running inflight byKind) {task : RunTask}
    (htask : running.lookup id = some task) :
    Slots registry limit (running.erase id) (inflight.erase id)
      (releaseSlot byKind task.job.kind) := by
  have hjob : inflight.lookup id = some task.job.inflight := by
    rw [h.tracked, htask]
    rfl
  -- the tally counted the kind of the joined job, so releasing it is exact
  have hperm := (Map.values_perm_erase hjob).map InflightJob.kind
  refine ⟨fun id' => ?_, ?_, (h.counted.perm hperm).release, fun kind cap hcap => ?_,
    fun job' hjob' => ?_⟩
  · by_cases hid : id' = id
    · subst hid
      simp
    · simp [hid, h.tracked id']
  · rw [AList.keys_erase]
    exact (List.length_erase_le).trans h.bounded
  · refine le_trans ?_ (h.capped kind cap hcap)
    rw [hperm.count_eq, List.map_cons]
    exact List.count_le_count_cons
  · have hvalue : job' ∈ inflight.values :=
      (Map.values_perm_erase hjob).mem_iff.mpr (List.mem_cons_of_mem _ hjob')
    exact h.registered job' hvalue

/-- A task that ends stays unjoined. -/
theorem finish (h : Slots registry limit running inflight byKind) {task : RunTask}
    (htask : running.lookup id = some task) (result : TaskResult) :
    Slots registry limit (running.insert id { task with result := some result }) inflight
      byKind := by
  refine ⟨fun id' => ?_, ?_, h.counted, h.capped, h.registered⟩
  · by_cases hid : id' = id
    · subst hid
      simp [h.tracked, htask]
    · simp [hid, h.tracked id']
  · rw [(Map.keys_perm_insert (Map.mem_of_lookup htask)).length_eq]
    exact h.bounded

end Slots

namespace Loop

/-- What holds between the check for room and the spawn. -/
def Ready (registry : Registry) (limit : Nat) (st : Loop) : Prop :=
  match st.phase with
  | .claiming kinds _ | .fallingBack kinds =>
      st.running.keys.length < limit ∧ kinds = claimableKinds registry st.byKind
  | .leasing job | .loading job | .spawning job _ =>
      st.running.keys.length < limit ∧ job.kind ∈ claimableKinds registry st.byKind
  | _ => True

/-- The worker still joins its handlers one by one: `drain` has not given up on them. -/
def live (st : Loop) : Bool :=
  match st.phase with
  | .forcing | .settling _ .forcing | .releasing _ | .returned => false
  | _ => true

end Loop

/-- A claim returns only a job of a kind in the list passed. -/
def LoopLabel.Filtered : LoopLabel → Prop
  | .call (.claimNext kinds _ _ _) (.ok (some job)) => job.kind ∈ kinds
  | _ => True

section Run

variable (fl : ℚ → ℚ) (registry : Registry) (w : Worker)

/-- The runs of the loop over any store whose claims respect their kind list. -/
abbrev LoopRun : List (Trace.Move Loop LoopLabel) → Loop → Prop :=
  Trace.Run (Loop.start registry)
    (fun _ st label st' => Loop.Step fl registry w st label st' ∧ label.Filtered)

end Run

section Step

variable {fl : ℚ → ℚ} {registry : Registry} {w : Worker} {st st' : Loop} {label : LoopLabel}

/-- A live loop is within its slots, and ready where the code relies on it. -/
def Loop.Kept (registry : Registry) (limit : Nat) (st : Loop) : Prop :=
  st.live → Slots registry limit st.running st.inflight st.byKind ∧ st.Ready registry limit

/-- `reap` of a tracked job frees its slot. -/
theorem Loop.reap_of_tracked {id : TaskId} {job : InflightJob}
    (h : st.inflight.lookup id = some job) :
    st.reap id = { st.untrack id with byKind := releaseSlot st.byKind job.kind } := by
  rw [reap, h]

/-- Reaping a joined task keeps the slots. -/
theorem Loop.slots_reap {limit : Nat} (h : Slots registry limit st.running st.inflight st.byKind)
    {id : TaskId} {task : RunTask} (htask : st.running.lookup id = some task) :
    Slots registry limit ((st.join id).reap id).running ((st.join id).reap id).inflight
      ((st.join id).reap id).byKind := by
  have hjob : (st.join id).inflight.lookup id = some task.job.inflight := by
    show st.inflight.lookup id = _
    rw [h.tracked, htask]
    rfl
  rw [reap_of_tracked hjob]
  exact h.join htask

/-- **One step keeps the slots.** -/
theorem Loop.Step.kept (hs : Loop.Step fl registry w st label st') (hfilter : label.Filtered)
    (h : st.Kept registry w.config.concurrency) : st'.Kept registry w.config.concurrency := by
  intro hlive
  cases hs with
  -- the check for room opens what the spawn relies on
  | claim hphase hroom =>
    obtain ⟨hslots, -⟩ := h (by simp [live, hphase])
    exact ⟨hslots, hroom, rfl⟩
  | fallBack hphase =>
    obtain ⟨hslots, hready⟩ := h (by simp [live, hphase])
    simp only [Ready, hphase] at hready
    exact ⟨hslots, hready⟩
  | claimed hphase job | claimedAny hphase job =>
    obtain ⟨hslots, hready⟩ := h (by simp [live, hphase])
    simp only [Ready, hphase] at hready
    obtain ⟨hroom, rfl⟩ := hready
    exact ⟨hslots, hroom, hfilter⟩
  | extend hphase | keepLease hphase | load hphase | loadFailed hphase =>
    obtain ⟨hslots, hready⟩ := h (by simp [live, hphase])
    simp only [Ready, hphase] at hready
    exact ⟨hslots, hready⟩
  | spawn hphase id hnew =>
    obtain ⟨hslots, hready⟩ := h (by simp [live, hphase])
    simp only [Ready, hphase] at hready
    exact ⟨hslots.spawn hnew hready.1 hready.2, trivial⟩
  -- reaping a task
  | reapRun hphase htask =>
    have hbefore : st.live = true := by
      rcases hphase with ⟨-, _, hphase⟩ | ⟨-, hphase⟩ <;> simp [live, hphase]
    exact ⟨slots_reap (h hbefore).1 htask, trivial⟩
  | @reapFailed stage _ _ _ hphase htask =>
    have hbefore : st.live = true := by
      rcases hphase with ⟨-, _, hphase⟩ | ⟨-, hphase⟩ <;> simp [live, hphase]
    refine ⟨slots_reap (h hbefore).1 htask, ?_⟩
    cases stage <;> exact trivial
  | @settle finished stage hphase =>
    cases stage with
    | forcing => simp [live, goto, Stage.phase] at hlive
    | looping | draining =>
      obtain ⟨hslots, -⟩ := h (by simp [live, hphase])
      exact ⟨hslots, trivial⟩
  -- the worker gives up its handlers
  | drained | deadline | forceRun | done => simp [live, goto] at hlive
  | forceFailed hphase => simp [live, join, hphase] at hlive
  | forced => simp [live] at hlive
  | release => simp [live, goto] at hlive
  -- what the outside does
  | @ended id task htask hrunning result =>
    obtain ⟨hslots, hready⟩ := h hlive
    have hkeys : (AList.insert id { task with result := some result } st.running).keys.length =
        st.running.keys.length :=
      (Map.keys_perm_insert (Map.mem_of_lookup htask)).length_eq
    refine ⟨hslots.finish htask result, ?_⟩
    unfold Ready at hready ⊢
    simp only [Loop.finish, hkeys]
    exact hready
  | cancelled => exact h hlive
  -- everywhere else the code moves on without touching the structures
  | scan hphase | scanFailed hphase | recover hphase | recovered hphase | full hphase
  | stopFilling hphase | capped hphase | nothing hphase | claimFailed hphase | nothingAny hphase
  | claimAnyFailed hphase | measure hphase | stop hphase | wake hphase =>
    obtain ⟨hslots, -⟩ := h (by simp [live, hphase])
    exact ⟨hslots, trivial⟩

/-- Every reachable state of the loop is kept. -/
theorem kept_of_run {tr : List (Trace.Move Loop LoopLabel)} (h : LoopRun fl registry w tr st) :
    st.Kept registry w.config.concurrency := by
  refine Trace.Run.invariant (I := fun _ st => st.Kept registry w.config.concurrency) ?_ ?_ h
  · intro _
    refine ⟨Slots.empty, ?_⟩
    by_cases hkinds : registry.kinds = [] <;> simp [Loop.Ready, Loop.start, hkinds]
  · exact fun _ _ _ _ _ hI hs => hs.1.kept hs.2 hI

/-- What holds of the slots in every state. -/
structure Loop.SlotsKept (registry : Registry) (limit : Nat) (st : Loop) : Prop where
  /-- As many tasks are unjoined as jobs are tracked, … -/
  tracked : st.running.keys.length = st.inflight.keys.length
  /-- … within the concurrency. -/
  bounded : st.running.keys.length ≤ limit
  /-- The tally counts the jobs in flight, and keeps no zero. -/
  counted : ∀ kind, st.byKind.lookup kind =
    if st.inflightOf kind = 0 then none else some (st.inflightOf kind)
  /-- Releasing the slot of a job in flight decrements a positive count. -/
  positive : ∀ job ∈ st.inflight.values, ∃ n, st.byKind.lookup job.kind = some (n + 1)
  capped : ∀ kind cap, registry.cap kind = some cap → st.inflightOf kind ≤ cap
  registered : ∀ job ∈ st.inflight.values, job.kind ∈ registry.kinds
  /-- The claim filter holds exactly the registered kinds below their cap. -/
  claimable : ∀ kind, kind ∈ claimableKinds registry st.byKind ↔
    kind ∈ registry.kinds ∧ ∀ cap, registry.cap kind = some cap → st.inflightOf kind < cap

/-- What the slots keep, in the words of the loop. -/
theorem Slots.kept {limit : Nat} (h : Slots registry limit st.running st.inflight st.byKind) :
    st.SlotsKept registry limit where
  tracked := Map.length_keys_eq h.mem_iff
  bounded := h.bounded
  counted := h.counted
  positive _ hjob := h.counted.lookup_of_mem (List.mem_map_of_mem hjob)
  capped := h.capped
  registered := h.registered
  claimable _ := mem_claimableKinds h.counted

/-- The kinds a claim presents. -/
def Call.claimKinds : Call → Option (List String)
  | .claimNext kinds .. => some kinds
  | _ => none

/-- A claim of the loop presents the claimable kinds. -/
theorem Loop.Step.claimKinds {limit : Nat} {c : Call} {reply : Except Error c.Answer}
    (hs : Loop.Step fl registry w st (.call c reply) st') (h : st.Kept registry limit)
    {kinds : List String} (hc : c.claimKinds = some kinds) :
    st.live = true ∧ kinds = claimableKinds registry st.byKind := by
  cases hs with
  | claimed hphase | nothing hphase | fallBack hphase | claimFailed hphase | claimedAny hphase
  | nothingAny hphase | claimAnyFailed hphase =>
    have hlive : st.live = true := by simp [live, hphase]
    obtain ⟨-, hready⟩ := h hlive
    simp only [Ready, hphase] at hready
    exact ⟨hlive, (Option.some.inj hc).symm.trans hready.2⟩
  | _ => cases hc

/-- **Concurrency and per-kind caps.** In every state of the loop up to the end of `drain`,
    against any store whose claims respect their kind list, the three structures agree and
    stay within the bounds, and every claim call presents exactly the kinds below their cap. -/
theorem slots_kept {tr : List (Trace.Move Loop LoopLabel)} (h : LoopRun fl registry w tr st) :
    (st.live → st.SlotsKept registry w.config.concurrency) ∧
    (∀ m ∈ tr, ∀ c reply, m.label = .call c reply → ∀ kinds, c.claimKinds = some kinds →
      ∀ kind, kind ∈ kinds ↔ kind ∈ registry.kinds ∧
        ∀ cap, registry.cap kind = some cap → m.before.inflightOf kind < cap) := by
  refine ⟨fun hlive => (kept_of_run h hlive).1.kept, ?_⟩
  intro m hm c reply hlabel kinds hkinds kind
  obtain ⟨tr₁, tr₂, rfl⟩ := List.append_of_mem hm
  obtain ⟨hrun, ⟨hs, -⟩, -⟩ := h.split
  have hkept := kept_of_run hrun
  rw [hlabel] at hs
  obtain ⟨hlive, rfl⟩ := hs.claimKinds hkept hkinds
  exact (hkept hlive).1.kept.claimable kind

end Step

/-! ### A sample loop -/

/-- The kind `feed`, at most one at a time. -/
def sampleRegistry : Registry := AList.singleton "feed" ⟨some 1, fun _ => none⟩

/-- The sample worker with the sample job in flight. -/
def sampleBusy : Loop where
  phase := .filling
  running := AList.singleton 7 ⟨sampleRow, [], none⟩
  inflight := AList.singleton 7 sampleRow.inflight
  byKind := AList.singleton "feed" 1
  claimCounter := 1
  shutdown := false

/-- It scans for stale claims, claims the sample job and spawns its task. -/
theorem sampleBusy_run : ∃ tr, LoopRun id sampleRegistry sampleWorker tr sampleBusy := by
  refine ⟨_, .snoc (.snoc (.snoc (.snoc (.snoc (.snoc (.snoc .start
    ⟨.scan rfl 0 [], trivial⟩) ⟨.recovered rfl, trivial⟩)
    ⟨.claim rfl (by decide) rfl (by decide), trivial⟩) ⟨.claimed rfl sampleRow, ?claimed⟩)
    ⟨.keepLease rfl rfl, trivial⟩) ⟨.load rfl [], trivial⟩) ⟨.spawn rfl 7 ?new, trivial⟩⟩
  case claimed =>
    show "feed" ∈ claimableKinds sampleRegistry ∅
    decide
  case new => decide

/-- The sample worker is within its slots. -/
theorem slots_kept_sampleBusy : sampleBusy.SlotsKept sampleRegistry 1 := by
  obtain ⟨tr, h⟩ := sampleBusy_run
  exact (slots_kept h).1 rfl

end Venturi
