import Venturi.Postgres.Notifier
import Venturi.Worker.Slots

namespace Venturi

open Collections Trace

/-!
# Wakeups (`worker/mod.rs`, `postgres/notify.rs`)

`Worker::run` beside its `PgNotifier`, while other parties commit `NOTIFY`s.  The pending
`recv` exists while the worker waits; it wins the `select!`, or it is dropped with the wait.

* `Listener` — the loop, the notifier, and the number of `NOTIFY`s committed so far.
* `Listener.Promised` — what a worker still has of a `NOTIFY`: a wakeup, a delivery on the way,
  a connection that is down, so that `recv` returns from an attempt to listen again, or a
  `recv` that has returned, before the next claim pass.
* `wakeups_kept` — it has one of them, in every state until it claims again, and its wait ends
  in seven steps of the notifier at most.
-/

/-! ### The machine -/

/-- A worker that listens. -/
structure Listener where
  loop : Loop
  notifier : PgNotifier
  sent : Nat

/-- What happens to a listener. -/
inductive ListenerLabel where
  /-- A `NOTIFY` commits. -/
  | notify
  /-- A step of the worker's code, or of its tasks. -/
  | loop (label : LoopLabel)
  /-- The sleep is over. -/
  | elapsed
  | notifier (label : NotifierLabel)

/-- At the `select!` of the loop. -/
def Phase.waits : Phase → Bool
  | .waiting _ => true
  | _ => false

/-- The first store call of a claim pass. -/
def ListenerLabel.startsPass : ListenerLabel → Bool
  | .loop (.call .findStale _) => true
  | _ => false

/-- A worker about to claim does nothing else first. -/
theorem Loop.Step.of_scanning {fl : ℚ → ℚ} {registry : Registry} {w : Worker} {st st' : Loop}
    {l : LoopLabel} (hs : Loop.Step fl registry w st l st') (h : st.phase = .scanning) :
    (∃ reply, l = .call .findStale reply) ∨ st'.phase = .scanning := by
  cases hs with
  | scan | scanFailed => exact .inl ⟨_, rfl⟩
  | ended | cancelled => exact .inr h
  | _ => simp_all

namespace Listener

section Step

variable (fl : ℚ → ℚ) (registry : Registry) (w : Worker)

/-- The worker is called and connects its notifier. -/
def start : Listener := ⟨Loop.start registry, .connected, 0⟩

/-- One step of a listener. -/
inductive Step (x : Listener) : ListenerLabel → Listener → Prop
  /-- The notifier counts its `NOTIFY`s. -/
  | notify : Step x .notify
      { x with notifier := x.notifier.notify x.sent, sent := x.sent + 1 }
  /-- Outside the wait no `recv` is pending: one that was is cancelled. -/
  | loop {label : LoopLabel} {loop : Loop} (hloop : Loop.Step fl registry w x.loop label loop)
      (hwoken : label ≠ .woken) :
      Step x (.loop label) { x with
        loop := loop
        notifier := if loop.phase.waits then x.notifier else x.notifier.cancel }
  | elapsed {loop : Loop} (hloop : Loop.Step fl registry w x.loop .woken loop) :
      Step x .elapsed { x with loop := loop, notifier := x.notifier.cancel }
  | connection {n : PgNotifier} (h : x.notifier.Step .connection n) :
      Step x (.notifier .connection) { x with notifier := n }
  | recv {n : PgNotifier} (hwaits : x.loop.phase.waits) (h : x.notifier.Step .recv n) :
      Step x (.notifier .recv) { x with notifier := n }
  | returned {via : Via} {n : PgNotifier} {loop : Loop}
      (hloop : Loop.Step fl registry w x.loop .woken loop)
      (h : x.notifier.Step (.returned via) n) :
      Step x (.notifier (.returned via)) { x with loop := loop, notifier := n }

/-- The runs of a listener from some state. -/
abbrev RunFrom (x : Listener) : List (Move Listener ListenerLabel) → Listener → Prop :=
  Run x (fun _ x label x' => Step fl registry w x label x')

end Step

/-! ### What is left of a `NOTIFY` -/

section Promise

variable (fl : ℚ → ℚ) (registry : Registry) (w : Worker) (x : Listener)

/-- However the run goes on, the next `recv` that is not cancelled returns from an attempt to
    listen again. -/
def RelistensFirst : Prop :=
  ∀ tr y via z, RunFrom fl registry w x tr y →
    (∀ m ∈ tr, ∀ via', m.label ≠ .notifier (.returned via')) →
    Step fl registry w y (.notifier (.returned via)) z → via ≠ .wakeup

/-- What is left of the `NOTIFY` numbered `k`, after the moves since its commit. -/
def Promised (k : Nat) (since : List (Move Listener ListenerLabel)) : Prop :=
  x.notifier.connection.wakeups.queue ≠ [] ∨
    (x.notifier.connection.live = true ∧ k ∈ x.notifier.connection.inFlight) ∨
    (x.notifier.connection.live = false ∧ x.RelistensFirst fl registry w) ∨
    (x.loop.phase = .scanning ∧ ∃ m ∈ since, ∃ via, m.label = .notifier (.returned via))

/-- The notifier has a step that returns, or that brings `recv` closer to it. -/
def CanAdvance : Prop :=
  ∃ label x', Step fl registry w x (.notifier label) x' ∧
    ((∃ via, label = .returned via) ∨ x'.notifier.rank < x.notifier.rank)

end Promise

/-! ### One step -/

section Step

variable {fl : ℚ → ℚ} {registry : Registry} {w : Worker} {x x' : Listener}
  {label : ListenerLabel} {k : Nat}

/-- A step of a listener leaves the notifier, cancels its `recv`, or is a step of it. -/
theorem Step.notifier (hs : Step fl registry w x label x') :
    x'.notifier = x.notifier ∨ x'.notifier = x.notifier.cancel ∨
      (label = .notify ∧ x'.notifier = x.notifier.notify x.sent) ∨
      ∃ l, label = .notifier l ∧ x.notifier.Step l x'.notifier := by
  cases hs with
  | notify => exact .inr (.inr (.inl ⟨rfl, rfl⟩))
  | @loop _ loop =>
    show (if loop.phase.waits then x.notifier else x.notifier.cancel) = _ ∨ _
    cases loop.phase.waits with
    | true => exact .inl rfl
    | false => exact .inr (.inl rfl)
  | elapsed => exact .inr (.inl rfl)
  | connection h | recv _ h | returned _ h => exact .inr (.inr (.inr ⟨_, rfl, h⟩))

/-- What holds of the notifier goes on to hold if cancelling its `recv`, a `NOTIFY` and its own
    step keep it. -/
theorem Step.keeps {P : PgNotifier → Prop} (hs : Step fl registry w x label x')
    (h : P x.notifier) (hcancel : P x.notifier.cancel) (hnotify : P (x.notifier.notify x.sent))
    (hstep : ∀ l, label = .notifier l → x.notifier.Step l x'.notifier → P x'.notifier) :
    P x'.notifier := by
  rcases hs.notifier with heq | heq | ⟨-, heq⟩ | ⟨l, hl, hs⟩
  · exact heq ▸ h
  · exact heq ▸ hcancel
  · exact heq ▸ hnotify
  · exact hstep l hl hs

/-- A step leaves the notifier sound. -/
theorem Step.sound (hs : Step fl registry w x label x') (h : x.notifier.Sound) :
    x'.notifier.Sound :=
  hs.keeps h h.cancel (h.notify x.sent) (fun _ _ hstep => h.step hstep)

/-- A step that is no return of `recv` takes nothing away. -/
theorem Step.announced (hs : Step fl registry w x label x') (hsound : x.notifier.Sound)
    (h : x.notifier.connection.Announced k) (hlabel : ∀ via, label ≠ .notifier (.returned via)) :
    x'.notifier.connection.Announced k := by
  refine hs.keeps (P := fun n => n.connection.Announced k) h h (h.notify x.sent) ?_
  rintro l rfl hstep
  exact hstep.announced hsound h (fun via hl => hlabel via (congrArg _ hl))

/-- A step leaves a notifier down, unless its wait returns. -/
theorem Step.down (hs : Step fl registry w x label x') (hsound : x.notifier.Sound)
    (h : x.notifier.Down) (hlabel : ∀ via, label ≠ .notifier (.returned via)) :
    x'.notifier.Down := by
  refine hs.keeps h h (h.notify x.sent) ?_
  rintro l rfl hstep
  exact h.step hsound hstep (fun via hl => hlabel via (congrArg _ hl))

/-- After the first call of a pass the worker does not wait. -/
theorem Step.not_startsPass (hs : Step fl registry w x label x')
    (hwaits : x'.loop.phase.waits) : label.startsPass = false := by
  cases hs with
  | @loop label _ hloop =>
    cases hloop with
    | scan | scanFailed => cases hwaits
    | _ => rfl
  | _ => rfl

/-- While the worker goes on waiting, nothing takes its `recv` further from returning. -/
theorem Step.rank_le (hs : Step fl registry w x label x') (hsound : x.notifier.Sound)
    (hwaits : x'.loop.phase.waits) : x'.notifier.rank ≤ x.notifier.rank := by
  cases hs with
  | notify => exact Nat.le_of_eq PgNotifier.rank_notify
  | loop =>
    have hwaits : Phase.waits _ = true := hwaits
    simp only [hwaits, if_true, Nat.le_refl]
  | elapsed hloop => cases hloop with | wake => cases hwaits
  | connection h | recv _ h => exact h.rank_le hsound nofun
  | returned hloop => cases hloop with | wake => cases hwaits

end Step

/-! ### Runs -/

section Runs

variable {fl : ℚ → ℚ} {registry : Registry} {w : Worker} {x y : Listener} {k : Nat}
  {tr : List (Move Listener ListenerLabel)}

/-- A run leaves the notifier sound. -/
theorem RunFrom.sound (h : RunFrom fl registry w x tr y) (hsound : x.notifier.Sound) :
    y.notifier.Sound := by
  refine Run.invariant (I := fun _ y => y.notifier.Sound) hsound ?_ h
  exact fun _ _ _ _ _ hsound hs => hs.sound hsound

/-- A connection that is down stays down until `recv` returns. -/
theorem relistensFirst_of_down (hsound : x.notifier.Sound) (h : x.notifier.Down) :
    x.RelistensFirst fl registry w := by
  intro tr y via z hrun hquiet hreturn
  have hdown : y.notifier.Down := by
    refine Run.invariant (I := fun tr y => (∀ m ∈ tr, ∀ via',
      m.label ≠ .notifier (.returned via')) → y.notifier.Down) ?_ ?_ hrun hquiet
    · exact fun _ => h
    · intro tr y label y' hrun hdown hs hquiet
      obtain ⟨hbefore, hlast⟩ := List.forall_mem_append.mp hquiet
      exact hs.down (RunFrom.sound hrun hsound) (hdown hbefore)
        (hlast _ (List.mem_singleton_self _))
  cases hreturn with
  | returned _ hreturn => exact hdown.returned hreturn

end Runs

section Kept

variable {fl : ℚ → ℚ} {registry : Registry} {w : Worker} {x : Listener} {k : Nat}
  {tr₁ tr₂ : List (Move Listener ListenerLabel)} {m : Move Listener ListenerLabel}

/-- Something is left of a `NOTIFY`, or a `recv` has returned since and the worker is about to
    claim. -/
def Outstanding (x : Listener) (k : Nat) (since : List (Move Listener ListenerLabel)) : Prop :=
  x.notifier.connection.Announced k ∨
    (x.loop.phase = .scanning ∧ ∃ m ∈ since, ∃ via, m.label = .notifier (.returned via))

/-- **One step** that does not start a claim pass. -/
theorem Outstanding.step {since : List (Move Listener ListenerLabel)} {label : ListenerLabel}
    {x' : Listener} (h : x.Outstanding k since) (hsound : x.notifier.Sound)
    (hs : Step fl registry w x label x') (hpass : label.startsPass = false) :
    x'.Outstanding k (since ++ [⟨x, label, x'⟩]) := by
  rcases h with hannounced | ⟨hphase, m, hm, hreturned⟩
  · by_cases hlabel : ∃ via, label = .notifier (.returned via)
    · obtain ⟨via, rfl⟩ := hlabel
      refine .inr ⟨?_, _, List.mem_append_right _ (List.mem_singleton_self _), via, rfl⟩
      cases hs with
      | returned hloop => cases hloop with | wake => rfl
    · exact .inl (hs.announced hsound hannounced (fun via hl => hlabel ⟨via, hl⟩))
  · -- a worker about to claim is not at its `select!`
    refine .inr ⟨?_, m, List.mem_append_left _ hm, hreturned⟩
    cases hs with
    | notify | connection | recv => exact hphase
    | loop hloop =>
      rcases hloop.of_scanning hphase with ⟨reply, rfl⟩ | hsame
      · cases hpass
      · exact hsame
    | elapsed hloop | returned hloop =>
      cases hloop with
      | wake hwaits =>
        rw [hphase] at hwaits
        cases hwaits

/-- **A whole run**, from the commit of a `NOTIFY` to the next claim pass. -/
theorem outstanding_of_run (h : RunFrom fl registry w (start registry) (tr₁ ++ m :: tr₂) x)
    (hnotify : m.label = .notify) (hpass : ∀ m' ∈ tr₂, m'.label.startsPass = false) :
    x.Outstanding m.before.sent tr₂ := by
  refine Run.since (J := fun tr x => (∀ m' ∈ tr, m'.label.startsPass = false) →
    x.Outstanding m.before.sent tr) ?_ ?_ h hpass
  · intro hrun hs _
    have hsound := RunFrom.sound hrun PgNotifier.Sound.connected
    obtain ⟨before, label, after⟩ := m
    obtain rfl : label = .notify := hnotify
    have hs : Step fl registry w before .notify after := hs
    cases hs with
    | notify => exact .inl (Connection.announced_notify hsound.listening)
  · intro tr y label y' hrun hout hs hpass
    obtain ⟨hbefore, hlast⟩ := List.forall_mem_append.mp hpass
    exact (hout hbefore).step (RunFrom.sound hrun PgNotifier.Sound.connected) hs
      (hlast _ (List.mem_singleton_self _))

/-- What is outstanding is promised. -/
theorem Outstanding.promised {since : List (Move Listener ListenerLabel)}
    (h : x.Outstanding k since) (hsound : x.notifier.Sound) :
    x.Promised fl registry w k since := by
  rcases h with (hqueue | hflight | hdown) | hreturned
  · exact .inl hqueue
  · exact .inr (.inl hflight)
  · by_cases hqueue : x.notifier.connection.wakeups.queue = []
    · exact .inr (.inr (.inl ⟨hdown, relistensFirst_of_down hsound ⟨hdown, hqueue⟩⟩))
    · exact .inl hqueue
  · exact .inr (.inr (.inr hreturned))

/-- A waiting worker with something outstanding is not stuck. -/
theorem Outstanding.canAdvance {since : List (Move Listener ListenerLabel)}
    (h : x.Outstanding k since) (hsound : x.notifier.Sound) (hwaits : x.loop.phase.waits) :
    x.CanAdvance fl registry w := by
  obtain ⟨⟨phase, running, inflight, byKind, claimCounter, shutdown⟩, n, sent⟩ := x
  cases phase with
  | waiting wait =>
    rcases h with hannounced | ⟨hphase, -⟩
    · obtain ⟨label, n', hstep, hadvance⟩ := PgNotifier.exists_advance hsound hannounced
      cases label with
      | connection => exact ⟨_, _, .connection hstep, hadvance⟩
      | recv => exact ⟨_, _, .recv rfl hstep, hadvance⟩
      | returned via => exact ⟨_, _, .returned (.wake rfl) hstep, .inl ⟨via, rfl⟩⟩
    · cases hphase
  | _ => cases hwaits

/-- The end of a stay in the wait. -/
theorem waits_of_stay {y : Listener} {tr : List (Move Listener ListenerLabel)}
    (h : RunFrom fl registry w x tr y) (hwaits : x.loop.phase.waits)
    (hstay : ∀ m ∈ tr, m.after.loop.phase.waits) : y.loop.phase.waits := by
  cases h with
  | start => exact hwaits
  | @snoc tr s _ e => exact hstay ⟨s, e, y⟩ (by simp)

/-- No claim pass starts in a stay in the wait. -/
theorem not_startsPass_of_stay {y : Listener} {tr : List (Move Listener ListenerLabel)}
    (h : RunFrom fl registry w x tr y) (hstay : ∀ m ∈ tr, m.after.loop.phase.waits) :
    ∀ m ∈ tr, m.label.startsPass = false := by
  intro m hm
  obtain ⟨tr₁, tr₂, rfl⟩ := List.append_of_mem hm
  obtain ⟨-, hs, -⟩ := Run.split h
  exact hs.not_startsPass (hstay m hm)

/-- A stay in the wait lowers the rank of the notifier seven times at most. -/
theorem advances_le {y : Listener} {tr : List (Move Listener ListenerLabel)}
    (hsound : x.notifier.Sound) (h : RunFrom fl registry w x tr y)
    (hwaits : ∀ m ∈ tr, m.after.loop.phase.waits) :
    tr.countP (fun m => m.after.notifier.rank < m.before.notifier.rank) ≤ 6 := by
  have hrank : ∀ m ∈ tr, m.after.notifier.rank ≤ m.before.notifier.rank := by
    intro m hm
    obtain ⟨tr₁, tr₂, rfl⟩ := List.append_of_mem hm
    obtain ⟨hbefore, hs, -⟩ := Run.split h
    exact hs.rank_le (RunFrom.sound hbefore hsound) (hwaits m hm)
  have hdescents := Run.descents (fun y : Listener => y.notifier.rank) hrank h
  have hfirst := x.notifier.rank_le
  have hlast := y.notifier.rank_pos
  omega

end Kept

end Listener

/-- **No wakeup is lost.**  After a `NOTIFY`, until the worker starts another claim pass: a
    wakeup is in the channel, or the delivery is on the way over the live connection, or the
    connection is down and the next `recv` that is not cancelled returns from an attempt to
    listen again, or `recv` has returned and the pass has not started yet.  The pass can start
    then.  And while the worker waits, however long the run goes on, the notifier has a step
    that returns or brings `recv` closer to it, and takes six of the latter at most: the wait
    ends without its timer. -/
theorem wakeups_kept {fl : ℚ → ℚ} {registry : Registry} {w : Worker} {x : Listener}
    {tr₁ tr₂ : List (Move Listener ListenerLabel)} {m : Move Listener ListenerLabel}
    (h : Listener.RunFrom fl registry w (Listener.start registry) (tr₁ ++ m :: tr₂) x)
    (hnotify : m.label = .notify) (hpass : ∀ m' ∈ tr₂, m'.label.startsPass = false) :
    x.Promised fl registry w m.before.sent tr₂ ∧
    (x.loop.phase = .scanning → ∃ label x', label.startsPass = true ∧
      Listener.Step fl registry w x label x') ∧
    (x.loop.phase.waits → ∀ tr y, Listener.RunFrom fl registry w x tr y →
      (∀ m' ∈ tr, m'.after.loop.phase.waits) →
      y.CanAdvance fl registry w ∧
      tr.countP (fun m' => m'.after.notifier.rank < m'.before.notifier.rank) ≤ 6) := by
  have hsound : x.notifier.Sound := Listener.RunFrom.sound h PgNotifier.Sound.connected
  refine ⟨(Listener.outstanding_of_run h hnotify hpass).promised hsound, ?_, ?_⟩
  · intro hphase
    exact ⟨_, _, rfl, .loop (.scan hphase 0 []) nofun⟩
  · intro hwaits tr y hrun hstay
    refine ⟨?_, Listener.advances_le hsound hrun hstay⟩
    have hwhole := Run.append h hrun
    rw [List.append_assoc, List.cons_append] at hwhole
    have hquiet : ∀ m' ∈ tr₂ ++ tr, m'.label.startsPass = false :=
      List.forall_mem_append.mpr ⟨hpass, Listener.not_startsPass_of_stay hrun hstay⟩
    have hout := Listener.outstanding_of_run hwhole hnotify hquiet
    exact hout.canAdvance (Listener.RunFrom.sound hwhole PgNotifier.Sound.connected)
      (Listener.waits_of_stay hrun hwaits hstay)

/-! ### A `NOTIFY` nobody delivers -/

namespace Listener

/-- The sample worker in this phase, with its notifier connected, after `n` claims. -/
def sampleAt (phase : Phase) (n : Nat) : Listener where
  loop := { Loop.start sampleRegistry with
    phase := phase
    claimCounter := n }
  notifier := .connected
  sent := 0

/-- It is parked for `poll_max`, its connection drops, and a `NOTIFY` commits. -/
def sampleDropped : Listener :=
  { sampleAt (.waiting sampleWorker.config.pollMax) 1 with
    notifier := ⟨{ Connection.opened with listening := true, live := false }, .awaiting⟩
    sent := 1 }

/-- The steps of the sample worker. -/
abbrev SampleStep : Listener → ListenerLabel → Listener → Prop :=
  Step id sampleRegistry sampleWorker

/-- Its claim pass fails, and the worker parks. -/
theorem sampleDropped_run : ∃ tr before,
    RunFrom id sampleRegistry sampleWorker (start sampleRegistry)
      (tr ++ [⟨before, .notify, sampleDropped⟩]) sampleDropped ∧ before.sent = 0 := by
  have hscan : SampleStep (sampleAt .scanning 0)
      (.loop (.call .findStale (.error (.serialization "")))) (sampleAt .filling 0) :=
    .loop (.scanFailed rfl _) nofun
  have hkinds : claimableKinds sampleRegistry ∅ ≠ [] := by decide
  have hfilling : SampleStep (sampleAt .filling 0) (.loop .internal)
      (sampleAt (.claiming (claimableKinds sampleRegistry ∅) floorAll) 1) :=
    .loop (.claim rfl Nat.zero_lt_one rfl hkinds) nofun
  have hclaiming : SampleStep (sampleAt (.claiming (claimableKinds sampleRegistry ∅) floorAll) 1)
      (.loop (.call (.claimNext (claimableKinds sampleRegistry ∅) floorAll
        sampleWorker.config.lease sampleWorker.identity) (.error (.serialization ""))))
      (sampleAt .measuring 1) := .loop (.claimFailed rfl _) nofun
  have hmeasuring : SampleStep (sampleAt .measuring 1)
      (.loop (.call (.nextVisibleAt sampleRegistry.kinds) (.ok none)))
      (sampleAt (.waiting sampleWorker.config.pollMax) 1) := .loop (.measure rfl 0 _) nofun
  have hdrops : SampleStep (sampleAt (.waiting sampleWorker.config.pollMax) 1)
      (.notifier .connection) { sampleDropped with sent := 0 } :=
    .connection (.connection (.drops rfl))
  have hnotify : SampleStep { sampleDropped with sent := 0 } .notify sampleDropped := .notify
  have hstart : RunFrom id sampleRegistry sampleWorker (start sampleRegistry) []
      (sampleAt .scanning 0) := .start
  have hrun := ((((hstart.snoc hscan).snoc hfilling).snoc hclaiming).snoc hmeasuring).snoc hdrops
  exact ⟨_, _, hrun.snoc hnotify, rfl⟩

end Listener

/-- A listener that lost its connection is promised a pass, and can go on to it. -/
theorem wakeups_kept_sampleDropped :
    Listener.sampleDropped.Promised id sampleRegistry sampleWorker 0 [] ∧
    Listener.sampleDropped.CanAdvance id sampleRegistry sampleWorker := by
  obtain ⟨tr, before, hrun, hsent⟩ := Listener.sampleDropped_run
  obtain ⟨hpromised, -, hwait⟩ := wakeups_kept hrun rfl (List.forall_mem_nil _)
  exact ⟨hsent ▸ hpromised, (hwait rfl _ _ .start (List.forall_mem_nil _)).1⟩

end Venturi
