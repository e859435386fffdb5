import Venturi.Postgres.Locks
import Venturi.Worker.Wait

namespace Venturi

open Collections Sql PostgresStore

/-!
# A worker parked beside row locks (`worker/mod.rs`, `postgres/mod.rs`)

`Worker::run` at a database in which other parties hold row locks, with a wakeup for every
`NOTIFY` and one clock.

* `Station` — the loop, the database, and the instants of the worker's last claim and lookup.
* `Station.Stranded` — the worker sleeps for `poll_max` with a free slot and no wakeup, while an
  unlocked job it may claim has been visible since before it parked.
* `Station.Clear` — what a claim and a lookup must find: no eligible job behind a lock or with
  an exhausted run count, and no job that became visible in between.
* `Station.Kept` — the invariant: past a claim nothing visible at the claim is pending, past a
  lookup nothing visible at the lookup, or a wakeup is waiting.
* `no_stranding` — a run of clear steps strands no job; who announces at a commit.
* `merge_strands` — a run that strands the job an enqueue merges into.
-/

/-! ### The machine -/

/-- A worker at a database, with the instants of its last claim and its last lookup. -/
structure Station where
  loop : Loop
  database : Database
  lastClaim : DateTime
  lastLookup : DateTime

/-- What happens at a station. -/
inductive StationLabel where
  /-- A store call of the worker. -/
  | call (env : Env) (c : Call) (reply : Except Error c.Answer)
  /-- Another step of the worker's code, or of its tasks. -/
  | loop (label : LoopLabel)
  /-- The notifier wakes the worker. -/
  | notified
  /-- The sleep is over. -/
  | elapsed
  /-- A step of some other party at the database. -/
  | other (l : DatabaseLabel)

/-- Steps of the loop that neither call the store nor end the wait. -/
def LoopLabel.inner : LoopLabel → Bool
  | .call .. | .woken => false
  | _ => true

namespace Station

section Step

variable (fl : ℚ → ℚ) (registry : Registry) (w : Worker)

/-- The worker is called, at an empty database. -/
def start : Station := ⟨Loop.start registry, ⟨PostgresStore.empty, ∅, false⟩, 0, 0⟩

/-- The instant of a claim. -/
def claimedAt (x : Station) (now : DateTime) : Call → DateTime
  | .claimNext .. => now
  | _ => x.lastClaim

/-- One step of a station. -/
inductive Step (x : Station) : StationLabel → Station → Prop
  | call {env : Env} {c : Call} {reply : Except Error c.Answer} {loop : Loop} {d : Database}
      (hloop : Loop.Step fl registry w x.loop (.call c reply) loop)
      (hcall : ∀ kinds, c ≠ .nextVisibleAt kinds) (h : x.database.Step (.call ⟨env, c, reply⟩) d) :
      Step x (.call env c reply) ⟨loop, d, x.claimedAt env.now c, x.lastLookup⟩
  /-- The wait is measured by the clock of the lookup. -/
  | lookup {env : Env} {reply : Except Error (Option DateTime)} {d : Database}
      (hphase : x.loop.phase = .measuring)
      (h : x.database.Step (.call ⟨env, .nextVisibleAt registry.kinds, reply⟩) d) :
      Step x (.call env (.nextVisibleAt registry.kinds) reply)
        ⟨x.loop.goto (.waiting (w.waitDuration env.now reply)), d, x.lastClaim, env.now⟩
  | loop {label : LoopLabel} {loop : Loop} (hloop : Loop.Step fl registry w x.loop label loop)
      (hinner : label.inner) : Step x (.loop label) { x with loop := loop }
  | notified {loop : Loop} (hloop : Loop.Step fl registry w x.loop .woken loop)
      (hwakeup : x.database.wakeup = true) :
      Step x .notified { x with loop := loop, database := { x.database with wakeup := false } }
  | elapsed {loop : Loop} (hloop : Loop.Step fl registry w x.loop .woken loop) :
      Step x .elapsed { x with loop := loop }
  | other {l : DatabaseLabel} {d : Database} (h : x.database.Step l d) :
      Step x (.other l) { x with database := d }

end Step

/-! ### Stranded jobs -/

section Conditions

variable (registry : Registry) (w : Worker) (x : Station)

/-- Every slot is taken. -/
def Full : Prop := w.config.concurrency ≤ x.loop.running.keys.length

/-- The worker is parked with a free slot, its timer not due before `poll_max`, and no wakeup
    is pending, but an unlocked pending job of a claimable kind was visible when it parked. -/
def Stranded : Prop :=
  ∃ wait, x.loop.phase = .waiting wait ∧ w.config.pollMax ≤ wait ∧ ¬ x.Full w ∧
    x.database.wakeup = false ∧ ∃ id j, x.database.store.view id = some j ∧
      ¬ x.database.locked id ∧ j.row.status = .pending ∧
      j.row.kind ∈ claimableKinds registry x.loop.byKind ∧ j.row.visibleAt ≤ x.lastLookup

/-- Only locked jobs are eligible. -/
def Skips (kinds : List String) (floor : Int) (now : DateTime) : Prop :=
  (∃ id j, x.database.store.view id = some j ∧ j.row.eligible kinds floor now) ∧
    ∀ id j, x.database.store.view id = some j → j.row.eligible kinds floor now →
      x.database.locked id

/-- An eligible job has the largest run count there is. -/
def Exhausted (kinds : List String) (floor : Int) (now : DateTime) : Prop :=
  ∃ id j, x.database.store.view id = some j ∧ j.row.eligible kinds floor now ∧
    i32Max ≤ j.row.runCount

/-- A job of a claimable kind became visible after the last claim. -/
def Overtaken (now : DateTime) : Prop :=
  ∃ t, x.database.store.Due (claimableKinds registry x.loop.byKind) t ∧ x.lastClaim < t ∧ t ≤ now

/-- A job is scheduled for before the end of `poll_max`. -/
def DueSoon (now : DateTime) : Prop :=
  ∃ t, x.database.store.Due registry.kinds t ∧ now < t ∧
    max t (now + leastWait) < now + w.config.pollMax

/-- What the worker's claims and lookups must find, unless a wakeup is waiting. -/
def Clear : StationLabel → Prop
  | .call env (.claimNext kinds floor _ _) _ => x.database.wakeup = true ∨
      (¬ x.Exhausted kinds floor env.now ∧ (floor = floorAll → ¬ x.Skips kinds floor env.now))
  | .call env (.nextVisibleAt _) _ => x.database.wakeup = true ∨
      ¬ x.Overtaken registry env.now ∨ x.DueSoon registry w env.now
  | _ => True

/-! ### The invariant -/

/-- A wakeup is waiting, or nothing pending of a claimable kind was visible by `t`. -/
def QuietBy (t : DateTime) : Prop :=
  x.database.wakeup = true ∨
    ∀ t', x.database.store.Due (claimableKinds registry x.loop.byKind) t' → t < t'

/-- The invariant of each phase. -/
def Kept : Prop :=
  match x.loop.phase with
  | .claiming kinds _ | .fallingBack kinds => kinds = claimableKinds registry x.loop.byKind
  | .measuring => x.Full w ∨ x.QuietBy registry x.lastClaim
  | .waiting wait => x.Full w ∨ wait < w.config.pollMax ∨ x.QuietBy registry x.lastLookup
  | _ => True

end Conditions

/-! ### What the database keeps -/

section Quiet

variable {registry : Registry} {w : Worker} {x y : Station} {t : DateTime} {env : Env}
  {kinds : List String} {floor : Int} {lease : Duration} {claimedBy : String} {d : Database}

/-- What is quiet stays quiet, whatever happens at the database. -/
theorem QuietBy.step {l : DatabaseLabel} (h : x.QuietBy registry t)
    (hs : x.database.Step l y.database) (hkinds : y.loop.byKind = x.loop.byKind) :
    y.QuietBy registry t := by
  cases hwakeup : y.database.wakeup with
  | true => exact .inl hwakeup
  | false =>
    obtain ⟨hbefore, hdue⟩ := hs.quiet hwakeup
    rcases h with h | h
    · exact absurd h (by simp [hbefore])
    · refine .inr (fun t' hdue' => h t' (hdue _ _ ?_))
      rwa [hkinds] at hdue'

/-- A claim that finds nothing, with nothing behind a lock, finds nothing visible. -/
theorem visible_after_nothing
    (hs : x.database.Step (.call ⟨env, .claimNext kinds floorAll lease claimedBy, .ok none⟩) d)
    (hskips : ¬ x.Skips kinds floorAll env.now) (hdue : x.database.store.Due kinds t) :
    env.now < t := by
  cases hs with
  | call hexec =>
    rcases Database.exec_claimNext_cases hexec with
      ⟨-, hlocked⟩ | ⟨_, _, -, -, -, ⟨_, hreply⟩ | ⟨⟨_, hreply⟩, -⟩⟩
    · refine lt_of_ineligible (fun id j hj heligible => hskips ?_) hdue
      exact ⟨⟨id, j, hj, heligible⟩, hlocked⟩
    · cases hreply
    · cases hreply

/-- A claim that fails finds an exhausted run count. -/
theorem exhausted_of_error {e : Error}
    (hs : x.database.Step (.call ⟨env, .claimNext kinds floor lease claimedBy, .error e⟩) d) :
    x.Exhausted kinds floor env.now := by
  cases hs with
  | call hexec =>
    rcases Database.exec_claimNext_cases hexec with
      ⟨hreply, -⟩ | ⟨id, j, hj, heligible, -, ⟨_, hreply⟩ | ⟨-, hmax⟩⟩
    · cases hreply
    · cases hreply
    · exact ⟨id, j, hj, heligible, hmax⟩

/-- **A claim that ends the attempt without a job** leaves nothing visible, or a wakeup. -/
theorem quiet_after_claim {reply : Except Error (Option JobRecord)}
    (hs : x.database.Step (.call ⟨env, .claimNext kinds floor lease claimedBy, reply⟩) y.database)
    (hclear : x.Clear registry w (.call env (.claimNext kinds floor lease claimedBy) reply))
    (hkinds : kinds = claimableKinds registry x.loop.byKind)
    (hsame : y.loop.byKind = x.loop.byKind)
    (hends : (floor = floorAll ∧ reply = .ok none) ∨ ∃ e, reply = .error e) :
    y.QuietBy registry env.now := by
  have hquiet : x.QuietBy registry env.now := by
    refine hclear.imp_right (fun hfound => ?_)
    obtain ⟨hexhausted, hskips⟩ := hfound
    rcases hends with ⟨rfl, rfl⟩ | ⟨e, rfl⟩
    · exact fun t hdue => visible_after_nothing hs (hskips rfl) (hkinds ▸ hdue)
    · exact absurd (exhausted_of_error hs) hexhausted
  exact hquiet.step hs hsame

/-- A lookup that leaves nothing overtaken looks past everything visible. -/
theorem quiet_after_lookup (hquiet : x.QuietBy registry x.lastClaim)
    (hovertaken : ¬ x.Overtaken registry t) : x.QuietBy registry t := by
  refine hquiet.imp_right (fun hlater t' hdue => not_le.mp (fun hle => hovertaken ?_))
  exact ⟨t', hdue, hlater t' hdue, hle⟩

/-- With a job due soon the timer is due before `poll_max`. -/
theorem wait_lt_of_dueSoon {reply : Except Error (Option DateTime)}
    (hs : x.database.Step (.call ⟨env, .nextVisibleAt registry.kinds, reply⟩) d)
    (hsoon : x.DueSoon registry w env.now) : w.waitDuration env.now reply < w.config.pollMax := by
  cases hs with
  | call hexec =>
    obtain ⟨t, hdue, hfuture, hlt⟩ := hsoon
    have hreply : reply = .ok (x.database.store.nextVisibleAt env.now registry.kinds) :=
      (Prod.mk.inj hexec).1.symm
    have hend := (sleepEnd_le_of_due (w := w) hdue hfuture).trans_lt hlt
    rw [sleepEnd_eq, ← hreply] at hend
    exact Int.ofNat_lt.mp (Int.lt_of_add_lt_add_left hend)

end Quiet

/-! ### The invariant holds -/

section Kept

variable {fl : ℚ → ℚ} {registry : Registry} {w : Worker} {x x' : Station}

/-- Steps of others at the database. -/
theorem Kept.other {l : DatabaseLabel} {d : Database} (h : x.Kept registry w)
    (hs : x.database.Step l d) : Kept registry w { x with database := d } := by
  obtain ⟨loop, database, lastClaim, lastLookup⟩ := x
  obtain ⟨phase, running, inflight, byKind, claimCounter, shutdown⟩ := loop
  cases phase with
  | measuring => exact h.imp_right (fun hquiet => hquiet.step hs rfl)
  | waiting wait => exact h.imp_right (fun h => h.imp_right (fun hquiet => hquiet.step hs rfl))
  | _ => exact h

/-- Past the abort there is nothing to keep. -/
theorem kept_of_forcing (h : x.loop.phase = .forcing) : x.Kept registry w := by
  rw [Kept, h]
  trivial

/-- A task that ends keeps its slot. -/
theorem Kept.finish {id : TaskId} {task : RunTask} (h : x.Kept registry w)
    (htask : x.loop.running.lookup id = some task) (result : TaskResult) :
    Kept registry w { x with loop := x.loop.finish id task result } := by
  have hfull (hfull : x.Full w) : Full w { x with loop := x.loop.finish id task result } :=
    hfull.trans_eq (Map.keys_perm_insert (Map.mem_of_lookup htask)).length_eq.symm
  obtain ⟨loop, database, lastClaim, lastLookup⟩ := x
  obtain ⟨phase, running, inflight, byKind, claimCounter, shutdown⟩ := loop
  cases phase with
  | measuring | waiting => exact h.imp_left hfull
  | _ => exact h

/-- Steps of the loop that neither call the store nor end the wait. -/
theorem Kept.inner {label : LoopLabel} {loop : Loop} (h : x.Kept registry w)
    (hs : Loop.Step fl registry w x.loop label loop) (hinner : label.inner) :
    Kept registry w { x with loop := loop } := by
  cases hs with
  | full _ hfull => exact .inl hfull
  | capped _ _ _ hcapped =>
    -- no kind is claimable, so nothing is due
    refine .inr (.inr (fun t hdue => ?_))
    obtain ⟨_, _, _, _, hkind, _⟩ := hdue
    have hnil : claimableKinds registry x.loop.byKind = [] := hcapped
    rw [show ({ x with loop := x.loop.goto .measuring } : Station).loop.byKind = x.loop.byKind
      from rfl, hnil] at hkind
    exact absurd hkind List.not_mem_nil
  | claim => exact rfl
  | ended htask _ result => exact h.finish htask result
  | @reapFailed stage => cases stage <;> trivial
  | forceFailed hphase => exact kept_of_forcing hphase
  | _ => trivial

/-- **Claims.** One that finds nothing leaves the worker with nothing visible, or with a wakeup. -/
theorem Kept.call {env : Env} {c : Call} {reply : Except Error c.Answer} {loop : Loop}
    {d : Database} (h : x.Kept registry w)
    (hloop : Loop.Step fl registry w x.loop (.call c reply) loop)
    (hcall : ∀ kinds, c ≠ .nextVisibleAt kinds)
    (hs : x.database.Step (.call ⟨env, c, reply⟩) d)
    (hclear : x.Clear registry w (.call env c reply)) :
    Kept registry w ⟨loop, d, x.claimedAt env.now c, x.lastLookup⟩ := by
  have hclaiming {kinds : List String} {floor : Int}
      (hphase : x.loop.phase = .claiming kinds floor) :
      kinds = claimableKinds registry x.loop.byKind := by
    rw [Kept, hphase] at h
    exact h
  have hfallingBack {kinds : List String} (hphase : x.loop.phase = .fallingBack kinds) :
      kinds = claimableKinds registry x.loop.byKind := by
    rw [Kept, hphase] at h
    exact h
  cases hloop with
  | nothing hphase hfloor =>
    exact .inr (quiet_after_claim hs hclear (hclaiming hphase) rfl (.inl ⟨hfloor, rfl⟩))
  | claimFailed hphase error =>
    exact .inr (quiet_after_claim hs hclear (hclaiming hphase) rfl (.inr ⟨error, rfl⟩))
  | fallBack hphase => exact hclaiming hphase
  | nothingAny hphase =>
    exact .inr (quiet_after_claim hs hclear (hfallingBack hphase) rfl (.inl ⟨rfl, rfl⟩))
  | claimAnyFailed hphase error =>
    exact .inr (quiet_after_claim hs hclear (hfallingBack hphase) rfl (.inr ⟨error, rfl⟩))
  | measure => exact absurd rfl (hcall _)
  | @settle finished stage => cases stage <;> trivial
  | _ => trivial

/-- **The lookup.** The worker parks with a timer due soon, or with nothing visible, or with a
    wakeup. -/
theorem Kept.lookup {env : Env} {reply : Except Error (Option DateTime)} {d : Database}
    (h : x.Kept registry w) (hphase : x.loop.phase = .measuring)
    (hs : x.database.Step (.call ⟨env, .nextVisibleAt registry.kinds, reply⟩) d)
    (hclear : x.Clear registry w (.call env (.nextVisibleAt registry.kinds) reply)) :
    Kept registry w
      ⟨x.loop.goto (.waiting (w.waitDuration env.now reply)), d, x.lastClaim, env.now⟩ := by
  rw [Kept, hphase] at h
  rcases h with hfull | hquiet
  · exact .inl hfull
  · have hlooked (h : x.QuietBy registry env.now) : QuietBy registry
        ⟨x.loop.goto (.waiting (w.waitDuration env.now reply)), d, x.lastClaim, env.now⟩ env.now :=
      h.step hs rfl
    rcases hclear with hwakeup | hovertaken | hsoon
    · exact .inr (.inr (hlooked (.inl hwakeup)))
    · exact .inr (.inr (hlooked (quiet_after_lookup hquiet hovertaken)))
    · exact .inr (.inl (wait_lt_of_dueSoon hs hsoon))

/-- **One clear step.** -/
theorem Kept.step {label : StationLabel} (h : x.Kept registry w)
    (hs : Step fl registry w x label x') (hclear : x.Clear registry w label) :
    x'.Kept registry w := by
  cases hs with
  | call hloop hcall hdb => exact h.call hloop hcall hdb hclear
  | lookup hphase hdb => exact h.lookup hphase hdb hclear
  | loop hloop hinner => exact h.inner hloop hinner
  | notified hloop => cases hloop with | wake => trivial
  | elapsed hloop => cases hloop with | wake => trivial
  | other hdb => exact h.other hdb

/-- Nothing is stranded. -/
theorem Kept.not_stranded (h : x.Kept registry w) : ¬ x.Stranded registry w := by
  rintro ⟨wait, hphase, hpoll, hfree, hwakeup, id, j, hj, -, hpending, hkind, hvisible⟩
  rw [Kept, hphase] at h
  rcases h with hfull | hwait | hquiet | hlater
  · exact hfree hfull
  · exact absurd hwait (not_lt.mpr hpoll)
  · exact absurd hquiet (by simp [hwakeup])
  · exact absurd (hlater _ ⟨id, j, hj, hpending, hkind, rfl⟩) (not_lt.mpr hvisible)

end Kept

end Station

/-! ### Runs -/

section Runs

variable (fl : ℚ → ℚ) (registry : Registry) (w : Worker)

/-- The runs of a worker at a database with row locks. -/
abbrev StationRun : List (Trace.Move Station StationLabel) → Station → Prop :=
  Trace.Run (Station.start registry) (fun _ x label x' => Station.Step fl registry w x label x')

variable {fl registry w} {tr : List (Trace.Move Station StationLabel)} {x : Station}

/-- Over steps that are clear, the station keeps what it keeps. -/
theorem StationRun.kept (h : StationRun fl registry w tr x)
    (hclear : ∀ m ∈ tr, m.before.Clear registry w m.label) : x.Kept registry w := by
  have hrun := Trace.Run.and_iff.mpr ⟨h, hclear⟩
  refine Trace.Run.invariant (I := fun _ x => x.Kept registry w) ?_ ?_ hrun
  · show Station.Kept registry w ⟨Loop.start registry, _, 0, 0⟩
    unfold Loop.start Station.Kept
    split_ifs <;> trivial
  · exact fun _ _ _ _ _ h hs => h.step hs.1 hs.2

/-- Its database is sound, in every run. -/
theorem StationRun.sound (h : StationRun fl registry w tr x) : x.database.Sound := by
  refine Trace.Run.invariant (I := fun _ x => x.database.Sound) ?_ ?_ h
  · exact Database.Sound.empty _ _
  · intro _ x label x' _ h hs
    cases hs with
    | call _ _ hdb | lookup _ hdb | other hdb => exact h.step hdb
    | loop | elapsed => exact h
    | notified => exact h.store (fun _ _ => rfl)

/-- **No job is left behind a parked worker**, in every state of a run in which every claim
    made without a wakeup waiting finds no eligible job behind a lock only and none with an
    exhausted run count, and every lookup made without one finds that no job of a claimable
    kind became visible since the claim, or that one is due before `poll_max` is over.  And a
    transaction that leaves the row it held pending announces it, unless it is a merge. -/
theorem no_stranding (h : StationRun fl registry w tr x) :
    ((∀ m ∈ tr, m.before.Clear registry w m.label) → ¬ x.Stranded registry w) ∧
    ∀ m ∈ tr, ∀ session tx reply id j, m.label = .other (.commit session tx reply) →
      tx.row = some id → m.after.database.store.view id = some j → j.row.status = .pending →
        (Event.notifies ⟨tx.env, tx.call, reply⟩ ↔ ¬ tx.call.merges) := by
  refine ⟨fun hclear => (h.kept hclear).not_stranded, ?_⟩
  intro m hm session tx reply id j hlabel hid hj hpending
  obtain ⟨tr₁, tr₂, rfl⟩ := List.append_of_mem hm
  obtain ⟨hbefore, hstep, -⟩ := h.split
  have hsound : m.before.database.Sound := StationRun.sound hbefore
  obtain ⟨before, label, after⟩ := m
  obtain rfl : label = .other (.commit session tx reply) := hlabel
  have hcommit :
      Station.Step fl registry w before (.other (.commit session tx reply)) after := hstep
  have hafter : after.database.store.view id = some j := hj
  cases hcommit with
  | other hdb =>
    cases hdb with
    | commit htx hs => exact hsound.notifies_iff htx hs hid hafter hpending

end Runs

/-! ### A merge nobody hears of -/

/-- A call that changes nothing and announces nothing. -/
theorem Database.Step.read {d : Database} {e : Event}
    (h : d.exec e.env e.call = (e.reply, d.store)) (hsilent : e.notifies = false) :
    d.Step (.call e) d := by
  have hstep : d.Step (.call e) { d with store := d.store, wakeup := d.wakeup || e.notifies } :=
    .call h (fun _ _ => rfl)
  rwa [hsilent, Bool.or_false] at hstep

/-- The sample worker in this phase, with nothing in flight, after `n` claims. -/
def idleLoop (phase : Phase) (n : Nat) : Loop :=
  { Loop.start sampleRegistry with phase := phase, claimCounter := n }

section Samples

variable {d : Database} {n : Nat} {t c l : DateTime}

/-- The steps of the sample worker. -/
abbrev SampleStep : Station → StationLabel → Station → Prop :=
  Station.Step id sampleRegistry sampleWorker

/-- The runs of the sample worker. -/
abbrev SampleRun : List (Trace.Move Station StationLabel) → Station → Prop :=
  StationRun id sampleRegistry sampleWorker

/-- Every step of the history was clear. -/
def AllClear (tr : List (Trace.Move Station StationLabel)) : Prop :=
  ∀ m ∈ tr, m.before.Clear sampleRegistry sampleWorker m.label

theorem AllClear.snoc {tr : List (Trace.Move Station StationLabel)}
    {m : Trace.Move Station StationLabel} (h : AllClear tr)
    (hm : m.before.Clear sampleRegistry sampleWorker m.label) : AllClear (tr ++ [m]) :=
  List.forall_mem_append.mpr ⟨h, List.forall_mem_singleton.mpr hm⟩

/-- **A pass that finds nothing**: no stale claim, nothing to claim, nothing scheduled. -/
theorem idle_pass {tr : List (Trace.Move Station StationLabel)}
    (h : SampleRun tr ⟨idleLoop .scanning n, d, c, l⟩)
    (hfloor : floorFor (wrappingSucc n) (some 4) = floorAll)
    (hstale : d.exec (.ofNow t) .findStale = (.ok [], d.store))
    (hclaim : d.exec (.ofNow t) (.claimNext (claimableKinds sampleRegistry ∅) floorAll
      sampleWorker.config.lease sampleWorker.identity) = (.ok none, d.store))
    (hlook : d.exec (.ofNow t) (.nextVisibleAt sampleRegistry.kinds) = (.ok none, d.store)) :
    ∃ tr', SampleRun tr'
        ⟨idleLoop (.waiting sampleWorker.config.pollMax) (wrappingSucc n), d, t, t⟩ ∧
      (AllClear tr → (∀ id, d.store.view id = none) → AllClear tr') := by
  -- the five steps of the pass
  have hscan : SampleStep ⟨idleLoop .scanning n, d, c, l⟩ (.call (.ofNow t) .findStale (.ok []))
      ⟨idleLoop (.recovering t []) n, d, c, l⟩ :=
    .call (.scan rfl t []) nofun (.read hstale rfl)
  have hrecovered : SampleStep ⟨idleLoop (.recovering t []) n, d, c, l⟩ (.loop .internal)
      ⟨idleLoop .filling n, d, c, l⟩ := .loop (.recovered rfl) rfl
  have hkinds : claimableKinds sampleRegistry ∅ ≠ [] := by decide
  have hclaiming : SampleStep ⟨idleLoop .filling n, d, c, l⟩ (.loop .internal)
      ⟨idleLoop (.claiming (claimableKinds sampleRegistry ∅)
        (floorFor (wrappingSucc n) (some 4))) (wrappingSucc n), d, c, l⟩ :=
    .loop (.claim rfl Nat.zero_lt_one rfl hkinds) rfl
  rw [hfloor] at hclaiming
  have hnothing : SampleStep
      ⟨idleLoop (.claiming (claimableKinds sampleRegistry ∅) floorAll) (wrappingSucc n), d, c, l⟩
      (.call (.ofNow t) (.claimNext (claimableKinds sampleRegistry ∅) floorAll
        sampleWorker.config.lease sampleWorker.identity) (.ok none))
      ⟨idleLoop .measuring (wrappingSucc n), d, t, l⟩ :=
    .call (.nothing rfl rfl) nofun (.read hclaim rfl)
  have hparked : SampleStep ⟨idleLoop .measuring (wrappingSucc n), d, t, l⟩
      (.call (.ofNow t) (.nextVisibleAt sampleRegistry.kinds) (.ok none))
      ⟨idleLoop (.waiting sampleWorker.config.pollMax) (wrappingSucc n), d, t, t⟩ :=
    .lookup rfl (.read hlook rfl)
  refine ⟨_, (((((h.snoc hscan).snoc hrecovered).snoc hclaiming).snoc hnothing).snoc hparked), ?_⟩
  -- over an empty store nothing could have been found
  intro hclear hempty
  have hnone {P : Job → Prop} : ¬ ∃ id j, d.store.view id = some j ∧ P j := by
    rintro ⟨id, j, hj, -⟩
    rw [hempty id] at hj
    cases hj
  have hfound : Station.Clear sampleRegistry sampleWorker
      ⟨idleLoop (.claiming (claimableKinds sampleRegistry ∅) floorAll) (wrappingSucc n), d, c, l⟩
      (.call (.ofNow t) (.claimNext (claimableKinds sampleRegistry ∅) floorAll
        sampleWorker.config.lease sampleWorker.identity) (.ok none)) :=
    .inr ⟨hnone, fun _ hskips => hnone hskips.1⟩
  have hlooked : Station.Clear sampleRegistry sampleWorker
      ⟨idleLoop .measuring (wrappingSucc n), d, t, l⟩
      (.call (.ofNow t) (.nextVisibleAt sampleRegistry.kinds) (.ok none)) := by
    refine .inr (.inl ?_)
    rintro ⟨t', hdue, -⟩
    exact hnone hdue
  refine AllClear.snoc (AllClear.snoc (AllClear.snoc (AllClear.snoc (AllClear.snoc hclear ?_) ?_)
    ?_) hfound) hlooked
  all_goals trivial

/-- The sample worker is called and parks at an empty database. -/
theorem parked_empty : ∃ tr, SampleRun tr
    ⟨idleLoop (.waiting sampleWorker.config.pollMax) 1, ⟨empty, ∅, false⟩, 0, 0⟩ ∧ AllClear tr := by
  obtain ⟨tr, h, hclear⟩ := idle_pass (d := ⟨empty, ∅, false⟩) (n := 0) (t := 0) .start rfl rfl rfl
    rfl
  exact ⟨tr, h, hclear (List.forall_mem_nil _) (fun _ => rfl)⟩

/-- The sample job is enqueued while it is parked, … -/
def sampleStored : PostgresStore := (empty.exec (.ofNow 0) (.enqueue sampleJob)).2

/-- … and another enqueue begins to merge into it, … -/
def sampleTx : Tx :=
  ⟨.ofNow 0, .mergeInto 0 none (Queue.mergedEntry sampleJob.record 0), some 0⟩

/-- … which holds its row. -/
def sampleHeld (wakeup : Bool) : Database :=
  ⟨sampleStored, (∅ : Map Nat Tx).insert 0 sampleTx, wakeup⟩

/-- What the merge commits. -/
def sampleMerged : PostgresStore := (sampleStored.exec sampleTx.env sampleTx.call).2

/-- While the sample worker waits, another party enqueues a job. -/
theorem enqueued_step : SampleStep
    ⟨idleLoop (.waiting sampleWorker.config.pollMax) 1, ⟨empty, ∅, false⟩, 0, 0⟩
    (.other (.call ⟨.ofNow 0, .enqueue sampleJob, .ok ()⟩))
    ⟨idleLoop (.waiting sampleWorker.config.pollMax) 1, ⟨sampleStored, ∅, true⟩, 0, 0⟩ :=
  .other (.call rfl (fun id hlocked => by cases hlocked))

/-- The sample worker is not stranded by it. -/
theorem no_stranding_enqueued : ∃ tr x, SampleRun tr x ∧ x.database.store = sampleStored ∧
    ¬ x.Stranded sampleRegistry sampleWorker := by
  obtain ⟨tr, h, hclear⟩ := parked_empty
  have hrun := h.snoc enqueued_step
  exact ⟨_, _, hrun, rfl, (no_stranding hrun).1 (hclear.snoc trivial)⟩

/-- **A merge strands the job it merges into.** The worker is woken by the enqueue, its claim
    skips the row the merge holds, it parks, and the commit of the merge is not announced. -/
theorem merge_strands : ¬ ∀ tr x, SampleRun tr x → ¬ x.Stranded sampleRegistry sampleWorker := by
  intro hnever
  obtain ⟨tr, h, -⟩ := parked_empty
  have hbegun : SampleStep
      ⟨idleLoop (.waiting sampleWorker.config.pollMax) 1, ⟨sampleStored, ∅, true⟩, 0, 0⟩
      (.other (.begin 0 sampleTx))
      ⟨idleLoop (.waiting sampleWorker.config.pollMax) 1, sampleHeld true, 0, 0⟩ :=
    .other (.begin rfl (by decide) (by decide) (.inl rfl) (fun id _ hlocked => by cases hlocked))
  have hwoken : SampleStep
      ⟨idleLoop (.waiting sampleWorker.config.pollMax) 1, sampleHeld true, 0, 0⟩ .notified
      ⟨idleLoop .scanning 1, sampleHeld false, 0, 0⟩ := .notified (.wake rfl) rfl
  have hpass := ((h.snoc enqueued_step).snoc hbegun).snoc hwoken
  obtain ⟨tr', hparked, -⟩ := idle_pass (t := 1) hpass rfl rfl rfl rfl
  have hmerged : SampleStep
      ⟨idleLoop (.waiting sampleWorker.config.pollMax) 2, sampleHeld false, 1, 1⟩
      (.other (.commit 0 sampleTx (.ok true)))
      ⟨idleLoop (.waiting sampleWorker.config.pollMax) 2, ⟨sampleMerged, ∅, false⟩, 1, 1⟩ :=
    .other (.commit rfl rfl)
  refine hnever _ _ (hparked.snoc hmerged) ?_
  have hleft : (sampleMerged.view 0).any (fun j => j.row.status = .pending ∧
      j.row.kind ∈ claimableKinds sampleRegistry ∅ ∧ j.row.visibleAt ≤ 1) := by decide
  obtain ⟨j, hj, hfits⟩ := (Option.any_eq_true _ _).mp hleft
  obtain ⟨hpending, hkind, hvisible⟩ := of_decide_eq_true hfits
  exact ⟨_, rfl, le_refl _, Nat.not_succ_le_zero 0, rfl, 0, j, hj, by decide, hpending, hkind,
    hvisible⟩

end Samples

end Venturi
