import Venturi.Collections.Channel

namespace Venturi

open Collections

/-!
# The listening connection (`postgres/notify.rs`)

`PgNotifier` with the task that forwards its connection's notifications, and the attempts to
listen again after a drop.

* `Connection` — a `LISTEN` connection, its task and its channel of capacity one; a
  `NOTIFY` is on the way from its commit until the task reads it.
* `Connection.Step` — the connection drops, or its task handles a message.
* `PgNotifier.Step` — the steps of `recv` and `reconnect`, one for each await.
* `Connection.Announced` — what is left of a `NOTIFY` nobody was woken for.
* `PgNotifier.rank` — how far `recv` is from returning.

A connection is live until its task can read nothing more from it.  What was committed while
it was live and is lost in the drop is lost then, at the latest.
-/

/-! ### The connection and its task -/

/-- `tokio_postgres::AsyncMessage`, as the task tells its variants apart. -/
inductive AsyncMessage where
  | notification
  | other

/-- A connection of `listen`: the `NOTIFY`s on the way, by the order of their commits, and the
    channel its task sends wakeups to. -/
structure Connection where
  inFlight : List Nat
  /-- Whether the stream of messages goes on. -/
  live : Bool
  /-- Whether the server has executed the `LISTEN`. -/
  listening : Bool
  /-- The task holds the sending end. -/
  wakeups : Channel Unit

/-- The body of the task's loop, for what `poll_message` returned; `none` is a `break`. -/
def forward (wakeups : Channel Unit) (message : Option (Except Unit AsyncMessage)) :
    Option (Channel Unit) :=
  match message with
  | some (.ok .notification) =>
      match wakeups.trySend () with
      | .ok sent => some sent
      | .error .full => some wakeups
      | .error .closed => none
  | some (.ok .other) => some wakeups
  | some (.error ()) => none
  | none => none

namespace Connection

/-- Connected, with the task spawned. -/
def opened : Connection where
  inFlight := []
  live := true
  listening := false
  wakeups := Channel.new 1

variable (c : Connection)

/-- A `NOTIFY` commits: a session that listens is sent it. -/
def notify (k : Nat) : Connection :=
  if c.live && c.listening then { c with inFlight := c.inFlight ++ [k] } else c

/-- `poll_message`. -/
inductive Polls : Option (Except Unit AsyncMessage) → Connection → Prop
  | notification {k : Nat} {rest : List Nat} (hlive : c.live = true)
      (h : c.inFlight = k :: rest) :
      Polls (some (.ok .notification)) { c with inFlight := rest }
  | other (hlive : c.live = true) : Polls (some (.ok .other)) c
  | lost (hlive : c.live = false) : Polls (some (.error ())) c
  | ended (hlive : c.live = false) : Polls none c

/-- The task ends, and with it the connection and the sending end. -/
def stop : Connection :=
  { c with inFlight := [], live := false, wakeups := c.wakeups.dropSender }

/-- What the network and the task do. -/
inductive Step : Connection → Prop
  /-- The connection drops. -/
  | drops (hlive : c.live = true) : Step { c with inFlight := [], live := false }
  | forwards {message : Option (Except Unit AsyncMessage)} {c' : Connection}
      {wakeups : Channel Unit} (htask : c.wakeups.sender = true) (h : c.Polls message c')
      (hsent : forward c.wakeups message = some wakeups) : Step { c' with wakeups := wakeups }
  | breaks {message : Option (Except Unit AsyncMessage)} {c' : Connection}
      (htask : c.wakeups.sender = true) (h : c.Polls message c')
      (hbreak : forward c.wakeups message = none) : Step c'.stop

/-- A connection whose receiver somebody holds. -/
structure Held : Prop where
  capacity : c.wakeups.capacity = 1
  receiver : c.wakeups.receiver = true
  ended : c.wakeups.sender = false → c.live = false

/-- How many steps a `recv` that awaits a wakeup is from returning: it takes one that is
    there, or it reconnects, which takes five, after the task has ended. -/
def rank : Nat :=
  if c.wakeups.queue ≠ [] then 1
  else if c.wakeups.sender = false then 5
  else if c.live = false then 6
  else 7

/-- Of a `NOTIFY`, a wakeup is left, or its delivery, or the connection is down. -/
def Announced (k : Nat) : Prop :=
  c.wakeups.queue ≠ [] ∨ (c.live = true ∧ k ∈ c.inFlight) ∨ c.live = false

variable {c} {c' : Connection} {k : Nat}

theorem Held.opened : opened.Held := ⟨rfl, rfl, nofun⟩

@[simp] theorem notify_live : (c.notify k).live = c.live := by
  unfold notify
  split <;> rfl

@[simp] theorem notify_listening : (c.notify k).listening = c.listening := by
  unfold notify
  split <;> rfl

@[simp] theorem notify_wakeups : (c.notify k).wakeups = c.wakeups := by
  unfold notify
  split <;> rfl

theorem Held.notify (h : c.Held) (k : Nat) : (c.notify k).Held := by
  constructor
  · rw [notify_wakeups]
    exact h.capacity
  · rw [notify_wakeups]
    exact h.receiver
  · rw [notify_wakeups, notify_live]
    exact h.ended

/-- The task goes on after a notification, with a wakeup in the channel, and after any other
    message. -/
theorem Held.forward_some {message : Option (Except Unit AsyncMessage)} {wakeups : Channel Unit}
    (h : c.Held) (hforward : forward c.wakeups message = some wakeups) :
    wakeups.capacity = c.wakeups.capacity ∧ wakeups.sender = c.wakeups.sender ∧
      wakeups.receiver = c.wakeups.receiver ∧
      ((message = some (.ok .notification) ∧ wakeups.queue ≠ []) ∨
        (message = some (.ok .other) ∧ wakeups = c.wakeups)) := by
  match message with
  | some (.ok .notification) =>
    cases htry : c.wakeups.trySend () with
    | ok sent =>
      rw [forward, htry] at hforward
      obtain rfl := Option.some.inj hforward
      obtain ⟨hqueue, hcapacity, hsender, hreceiver⟩ := Channel.trySend_ok htry
      refine ⟨hcapacity, hsender, hreceiver, .inl ⟨rfl, ?_⟩⟩
      rw [hqueue]
      exact List.append_ne_nil_of_right_ne_nil _ (List.cons_ne_nil _ _)
    | error e =>
      cases e with
      | full =>
        -- the wakeup that fills the channel stands for this one
        rw [forward, htry] at hforward
        obtain rfl := Option.some.inj hforward
        have hlength := Channel.trySend_full htry
        rw [h.capacity] at hlength
        exact ⟨rfl, rfl, rfl, .inl ⟨rfl, List.ne_nil_of_length_eq_add_one hlength⟩⟩
      | closed =>
        rw [forward, htry] at hforward
        cases hforward
  | some (.ok .other) =>
    obtain rfl := Option.some.inj hforward
    exact ⟨rfl, rfl, rfl, .inr ⟨rfl, rfl⟩⟩
  | some (.error ()) | none => cases hforward

/-- The task of a connection whose receiver is held ends with the stream only. -/
theorem Held.forward_none {message : Option (Except Unit AsyncMessage)} (h : c.Held)
    (hforward : forward c.wakeups message = none) :
    message = some (.error ()) ∨ message = none := by
  match message with
  | some (.ok .notification) =>
    cases htry : c.wakeups.trySend () with
    | ok sent =>
      rw [forward, htry] at hforward
      cases hforward
    | error e =>
      cases e with
      | full =>
        rw [forward, htry] at hforward
        cases hforward
      | closed =>
        have hgone := Channel.trySend_closed htry
        rw [h.receiver] at hgone
        cases hgone
  | some (.ok .other) => cases hforward
  | some (.error ()) => exact .inl rfl
  | none => exact .inr rfl

/-- **What a step does**: the connection drops, a wakeup is there afterwards, nothing changes,
    or the task ends. -/
theorem Step.cases (h : c.Held) (hs : c.Step c') :
    c'.listening = c.listening ∧ c'.wakeups.capacity = c.wakeups.capacity ∧
      c'.wakeups.receiver = c.wakeups.receiver ∧
      ((c.live = true ∧ c'.live = false ∧ c'.wakeups = c.wakeups) ∨
        (c.live = true ∧ c'.live = true ∧ c'.wakeups.queue ≠ [] ∧
          c'.wakeups.sender = c.wakeups.sender) ∨
        c' = c ∨
        (c.live = false ∧ c.wakeups.sender = true ∧ c'.live = false ∧
          c'.wakeups.sender = false ∧ c'.wakeups.queue = c.wakeups.queue)) := by
  cases hs with
  | drops hlive => exact ⟨rfl, rfl, rfl, .inl ⟨hlive, rfl, rfl⟩⟩
  | forwards _ hpoll hforward =>
    obtain ⟨hcapacity, hsender, hreceiver, hcases⟩ := h.forward_some hforward
    cases hpoll with
    | notification hlive =>
      rcases hcases with ⟨-, hqueue⟩ | ⟨hother, -⟩
      · exact ⟨rfl, hcapacity, hreceiver, .inr (.inl ⟨hlive, hlive, hqueue, hsender⟩)⟩
      · cases hother
    | other =>
      rcases hcases with ⟨hnotification, -⟩ | ⟨-, rfl⟩
      · cases hnotification
      · exact ⟨rfl, rfl, rfl, .inr (.inr (.inl rfl))⟩
    | lost | ended => cases hforward
  | breaks htask hpoll hforward =>
    have hend := h.forward_none hforward
    cases hpoll with
    | notification | other => rcases hend with hend | hend <;> cases hend
    | lost hlive | ended hlive =>
      exact ⟨rfl, rfl, rfl, .inr (.inr (.inr ⟨hlive, htask, rfl, rfl, rfl⟩))⟩

/-- So does a step of the connection. -/
theorem Held.step (h : c.Held) (hs : c.Step c') : c'.Held := by
  obtain ⟨-, hcapacity, hreceiver, hcases⟩ := hs.cases h
  refine ⟨hcapacity.trans h.capacity, hreceiver.trans h.receiver, fun hsender => ?_⟩
  rcases hcases with ⟨-, hlive, -⟩ | ⟨hlive, -, -, hsame⟩ | rfl | ⟨-, -, hlive, -⟩
  · exact hlive
  · have hbefore := h.ended (hsame ▸ hsender)
    rw [hlive] at hbefore
    cases hbefore
  · exact h.ended hsender
  · exact hlive

/-- A `NOTIFY` is announced to a session that listens. -/
theorem announced_notify (hlistening : c.listening = true) : (c.notify k).Announced k := by
  cases hlive : c.live with
  | false => exact .inr (.inr (notify_live.trans hlive))
  | true =>
    refine .inr (.inl ⟨notify_live.trans hlive, ?_⟩)
    rw [notify, hlive, hlistening]
    exact List.mem_append_right _ (List.mem_singleton_self k)

/-- Another `NOTIFY` takes nothing away. -/
theorem Announced.notify (h : c.Announced k) (k' : Nat) : (c.notify k').Announced k := by
  unfold Announced
  rw [notify_wakeups, notify_live]
  refine h.imp_right (Or.imp_left fun ⟨hlive, hmem⟩ => ⟨hlive, ?_⟩)
  rw [Connection.notify]
  split
  · exact List.mem_append_left _ hmem
  · exact hmem

/-- What was announced stays announced, however the connection steps. -/
theorem Announced.step (h : c.Announced k) (hheld : c.Held) (hs : c.Step c') :
    c'.Announced k := by
  obtain ⟨-, -, -, hcases⟩ := hs.cases hheld
  rcases hcases with ⟨-, hlive, -⟩ | ⟨-, -, hqueue, -⟩ | rfl | ⟨-, -, hlive, -⟩
  · exact .inr (.inr hlive)
  · exact .inl hqueue
  · exact h
  · exact .inr (.inr hlive)

/-! How far the installed connection is from waking a `recv`. -/

theorem rank_pos (c : Connection) : 0 < c.rank := by
  unfold rank
  split_ifs <;> decide

/-- A `recv` that awaits a wakeup is at most seven steps from returning. -/
theorem rank_le (c : Connection) : c.rank ≤ 7 := by
  unfold rank
  split_ifs <;> decide

/-- With a wakeup in the queue it returns in one step. -/
theorem rank_buffered (hqueue : c.wakeups.queue ≠ []) : c.rank = 1 := if_pos hqueue

/-- With an empty queue whose task has ended it returns in five. -/
theorem rank_closed (hqueue : c.wakeups.queue = []) (hsender : c.wakeups.sender = false) :
    c.rank = 5 := by
  rw [rank, if_neg (not_not.mpr hqueue), if_pos hsender]

@[simp] theorem rank_notify : (c.notify k).rank = c.rank := by
  simp only [rank, notify_wakeups, notify_live]

/-- A step of the connection leaves the rank, or lowers it. -/
theorem Step.rank_le (h : c.Held) (hs : c.Step c') : c'.rank ≤ c.rank := by
  obtain ⟨-, -, -, hcases⟩ := hs.cases h
  rcases hcases with ⟨hlive, hdown, hsame⟩ | ⟨-, -, hqueue, -⟩ | rfl |
    ⟨hlive, hsender, hdown, hgone, hsame⟩
  · -- a connection that drops is closer to the reconnect
    unfold rank
    rw [hsame]
    simp only [hlive, hdown]
    split_ifs <;> decide
  · rw [rank_buffered hqueue]
    exact c.rank_pos
  · exact Nat.le_refl _
  · unfold rank
    rw [hsame]
    simp only [hlive, hsender, hgone]
    split_ifs <;> decide

/-- The next delivery leaves a wakeup. -/
theorem Held.exists_delivery (h : c.Held) (hsender : c.wakeups.sender = true)
    (hlive : c.live = true) (hflight : c.inFlight ≠ []) : ∃ c', c.Step c' ∧ c'.rank = 1 := by
  obtain ⟨k', rest, hflight⟩ := List.exists_cons_of_ne_nil hflight
  cases hforward : forward c.wakeups (some (.ok .notification)) with
  | none => rcases h.forward_none hforward with hend | hend <;> cases hend
  | some wakeups =>
    refine ⟨_, .forwards hsender (.notification hlive hflight) hforward, rank_buffered ?_⟩
    rcases (h.forward_some hforward).2.2.2 with ⟨-, hbuffered⟩ | ⟨hother, -⟩
    · exact hbuffered
    · cases hother

/-- A wakeup is there, or the channel is closed, or the task has a step towards one of the
    two. -/
theorem pollable_or_advance (hheld : c.Held) (h : c.Announced k) :
    c.wakeups.queue ≠ [] ∨ (c.wakeups.queue = [] ∧ c.wakeups.sender = false) ∨
      ∃ c', c.Step c' ∧ c'.rank < c.rank := by
  by_cases hqueue : c.wakeups.queue = []
  · refine .inr ?_
    cases hsender : c.wakeups.sender with
    | false => exact .inl ⟨hqueue, rfl⟩
    | true =>
      refine .inr ?_
      cases hlive : c.live with
      | false =>
        -- the task notices the end of the stream
        refine ⟨_, .breaks hsender (.ended hlive) rfl, ?_⟩
        rw [rank_closed (c := c.stop) hqueue rfl]
        simp [rank, hqueue, hsender, hlive]
      | true =>
        have hmem : k ∈ c.inFlight := by
          rcases h with hfull | ⟨-, hmem⟩ | hdown
          · exact absurd hqueue hfull
          · exact hmem
          · exact absurd (hlive.symm.trans hdown) (by decide)
        obtain ⟨c', hstep, hrank⟩ :=
          hheld.exists_delivery hsender hlive (List.ne_nil_of_mem hmem)
        refine ⟨c', hstep, ?_⟩
        rw [hrank]
        simp [rank, hqueue, hsender, hlive]
  · exact .inl hqueue

end Connection

/-! ### `recv` and `reconnect` -/

/-- Where the pending `recv` awaits; a `recv` that is polled first is `awaiting`. -/
inductive Recv where
  /-- A wakeup. -/
  | awaiting
  /-- `config.connect`. -/
  | connecting
  /-- The `LISTEN` on a new connection. -/
  | listening (connection : Connection)
  /-- The pause after a failed attempt. -/
  | pausing

/-- How `recv` returns: with a wakeup, after a reconnect, or after the pause. -/
inductive Via where
  | wakeup
  | relistened
  | pause
  deriving DecidableEq, Repr

/-- The notifier, with its pending `recv`. -/
structure PgNotifier where
  /-- `client` and `wakeups`. -/
  connection : Connection
  recv : Recv

/-- What a step of the notifier is: of the installed connection, of the pending `recv`, or
    its return. -/
inductive NotifierLabel where
  | connection
  | recv
  | returned (via : Via)

namespace PgNotifier

/-- `PgNotifier::connect`. -/
def connected : PgNotifier := ⟨{ Connection.opened with listening := true }, .awaiting⟩

variable (n : PgNotifier)

/-- The pending `recv` is dropped, and a connection it was about to install with it. -/
def cancel : PgNotifier := { n with recv := .awaiting }

/-- A `NOTIFY` commits. -/
def notify (k : Nat) : PgNotifier where
  connection := n.connection.notify k
  recv :=
    match n.recv with
    | .listening c => .listening (c.notify k)
    | recv => recv

/-- A step of the notifier. -/
inductive Step : NotifierLabel → PgNotifier → Prop
  | connection {c : Connection} (h : n.connection.Step c) :
      Step .connection { n with connection := c }
  -- recv
  | wakeup {wakeups : Channel Unit} (hrecv : n.recv = .awaiting)
      (h : n.connection.wakeups.poll = some (some (), wakeups)) :
      Step (.returned .wakeup) { n with connection := { n.connection with wakeups := wakeups } }
  | closed {wakeups : Channel Unit} (hrecv : n.recv = .awaiting)
      (h : n.connection.wakeups.poll = some (none, wakeups)) :
      Step .recv { n with recv := .connecting }
  -- listen, in reconnect
  | opened (hrecv : n.recv = .connecting) :
      Step .recv { n with recv := .listening Connection.opened }
  | connectFailed (hrecv : n.recv = .connecting) : Step .recv { n with recv := .pausing }
  | attempt {c c' : Connection} (hrecv : n.recv = .listening c) (h : c.Step c') :
      Step .recv { n with recv := .listening c' }
  | executed {c : Connection} (hrecv : n.recv = .listening c) (hlive : c.live = true) :
      Step .recv { n with recv := .listening { c with listening := true } }
  | listenFailed {c : Connection} (hrecv : n.recv = .listening c) :
      Step .recv { n with recv := .pausing }
  -- the new client and receiver are installed by the poll that returns
  | relistened {c : Connection} (hrecv : n.recv = .listening c) (h : c.listening = true) :
      Step (.returned .relistened) ⟨c, .awaiting⟩
  | paused (hrecv : n.recv = .pausing) : Step (.returned .pause) n.cancel

/-- The connections are held, and the installed one listens. -/
structure Sound : Prop where
  held : n.connection.Held
  listening : n.connection.listening = true
  attempt : ∀ c, n.recv = .listening c → c.Held

/-- How many steps `recv` is from returning, once there is something to return for. -/
def rank : Nat :=
  match n.recv with
  | .pausing => 1
  | .listening c => if c.listening then 2 else 3
  | .connecting => 4
  | .awaiting => n.connection.rank

variable {n} {n' : PgNotifier} {label : NotifierLabel} {k : Nat}

/-- A notifier that has just connected is sound. -/
theorem Sound.connected : connected.Sound := ⟨⟨rfl, rfl, nofun⟩, rfl, nofun⟩

theorem Sound.cancel (h : n.Sound) : n.cancel.Sound := ⟨h.held, h.listening, nofun⟩

theorem Sound.notify (h : n.Sound) (k : Nat) : (n.notify k).Sound := by
  refine ⟨h.held.notify k, Connection.notify_listening.trans h.listening, ?_⟩
  intro c hc
  unfold PgNotifier.notify at hc
  cases hrecv : n.recv with
  | listening c₀ =>
    rw [hrecv] at hc
    obtain rfl := Recv.listening.inj hc
    exact (h.attempt c₀ hrecv).notify k
  | _ =>
    rw [hrecv] at hc
    cases hc

/-- A step leaves the notifier sound. -/
theorem Sound.step (h : n.Sound) (hs : n.Step label n') : n'.Sound := by
  cases hs with
  | connection hc =>
    exact ⟨h.held.step hc, (hc.cases h.held).1.trans h.listening, h.attempt⟩
  | wakeup hrecv hpoll =>
    obtain ⟨-, hcapacity, hsender, hreceiver⟩ := Channel.poll_some hpoll
    refine ⟨⟨hcapacity.trans h.held.capacity, hreceiver.trans h.held.receiver, ?_⟩, h.listening,
      h.attempt⟩
    exact fun hgone => h.held.ended (hsender ▸ hgone)
  | closed | connectFailed | listenFailed | paused => exact ⟨h.held, h.listening, nofun⟩
  | opened =>
    refine ⟨h.held, h.listening, fun c hc => ?_⟩
    obtain rfl := Recv.listening.inj hc
    exact Connection.Held.opened
  | attempt hrecv hstep =>
    refine ⟨h.held, h.listening, fun c hc => ?_⟩
    obtain rfl := Recv.listening.inj hc
    exact (h.attempt _ hrecv).step hstep
  | executed hrecv =>
    refine ⟨h.held, h.listening, fun c hc => ?_⟩
    obtain rfl := Recv.listening.inj hc
    have hheld := h.attempt _ hrecv
    exact ⟨hheld.capacity, hheld.receiver, hheld.ended⟩
  | relistened hrecv hlistening => exact ⟨h.attempt _ hrecv, hlistening, nofun⟩

/-- A step that does not return takes nothing away. -/
theorem Step.announced (hs : n.Step label n') (hsound : n.Sound)
    (h : n.connection.Announced k) (hlabel : ∀ via, label ≠ .returned via) :
    n'.connection.Announced k := by
  cases hs with
  | connection hc => exact h.step hsound.held hc
  | wakeup | relistened | paused => exact absurd rfl (hlabel _)
  | _ => exact h

/-! ### A connection that is down -/

/-- The connection is down and every wakeup it brought was received: the channel is closed or
    about to be. -/
def Down (n : PgNotifier) : Prop :=
  n.connection.live = false ∧ n.connection.wakeups.queue = []

theorem Down.notify (h : n.Down) (k : Nat) : (n.notify k).Down :=
  ⟨Connection.notify_live.trans h.1, (congrArg _ Connection.notify_wakeups).trans h.2⟩

/-- A notifier that is down stays down until a wait of it returns. -/
theorem Down.step (h : n.Down) (hsound : n.Sound) (hs : n.Step label n')
    (hlabel : ∀ via, label ≠ .returned via) : n'.Down := by
  cases hs with
  | connection hc =>
    obtain ⟨-, -, -, hcases⟩ := hc.cases hsound.held
    rcases hcases with ⟨hlive, -⟩ | ⟨hlive, -⟩ | rfl | ⟨-, -, hlive, -, hqueue⟩
    · exact absurd (h.1.symm.trans hlive) (by decide)
    · exact absurd (h.1.symm.trans hlive) (by decide)
    · exact h
    · exact ⟨hlive, hqueue.trans h.2⟩
  | wakeup | relistened | paused => exact absurd rfl (hlabel _)
  | _ => exact h

/-- Then `recv` returns from an attempt to listen again. -/
theorem Down.returned {via : Via} (h : n.Down) (hs : n.Step (.returned via) n') :
    via ≠ .wakeup := by
  rintro rfl
  cases hs with
  | wakeup _ hpoll =>
    have hqueue := (Channel.poll_some hpoll).1
    rw [h.2] at hqueue
    cases hqueue

/-! ### Progress -/

theorem rank_pos (n : PgNotifier) : 0 < n.rank := by
  unfold rank
  split
  · decide
  · split <;> decide
  · decide
  · exact n.connection.rank_pos

/-- A `recv` is at most seven steps from returning. -/
theorem rank_le (n : PgNotifier) : n.rank ≤ 7 := by
  unfold rank
  split
  · decide
  · split <;> decide
  · decide
  · exact n.connection.rank_le

@[simp] theorem rank_notify : (n.notify k).rank = n.rank := by
  obtain ⟨connection, recv⟩ := n
  cases recv with
  | awaiting => exact Connection.rank_notify
  | _ => simp only [rank, notify, Connection.notify_listening]

/-- No step but a return takes `recv` further from returning. -/
theorem Step.rank_le (hs : n.Step label n') (hsound : n.Sound)
    (hlabel : ∀ via, label ≠ .returned via) : n'.rank ≤ n.rank := by
  obtain ⟨connection, recv⟩ := n
  cases hs with
  | connection hc =>
    cases recv with
    | awaiting => exact hc.rank_le hsound.held
    | _ => exact Nat.le_refl _
  | wakeup | relistened | paused => exact absurd rfl (hlabel _)
  | closed hrecv hpoll =>
    obtain rfl : recv = .awaiting := hrecv
    obtain ⟨hqueue, hsender⟩ := Channel.poll_none hpoll
    show 4 ≤ connection.rank
    rw [Connection.rank_closed hqueue hsender]
    decide
  | opened hrecv | connectFailed hrecv =>
    obtain rfl : recv = .connecting := hrecv
    show _ ≤ 4
    exact Nat.le_of_ble_eq_true rfl
  | attempt hrecv hstep =>
    obtain rfl : recv = .listening _ := hrecv
    have hlistening := (hstep.cases (hsound.attempt _ rfl)).1
    simp only [rank, hlistening, Nat.le_refl]
  | @executed c hrecv =>
    obtain rfl : recv = .listening c := hrecv
    show 2 ≤ if c.listening then 2 else 3
    split <;> decide
  | @listenFailed c hrecv =>
    obtain rfl : recv = .listening c := hrecv
    show 1 ≤ if c.listening then 2 else 3
    split <;> decide

/-- **Somebody always can go on.** While something is left of a `NOTIFY`, the connection's task
    or the pending `recv` has a step that returns or brings `recv` closer to it. -/
theorem exists_advance (hsound : n.Sound) (h : n.connection.Announced k) :
    ∃ label n', n.Step label n' ∧ ((∃ via, label = .returned via) ∨ n'.rank < n.rank) := by
  obtain ⟨connection, recv⟩ := n
  cases recv with
  | pausing => exact ⟨_, _, .paused rfl, .inl ⟨_, rfl⟩⟩
  | listening c =>
    cases hlistening : c.listening with
    | true => exact ⟨_, _, .relistened rfl hlistening, .inl ⟨_, rfl⟩⟩
    | false =>
      -- the server executes the `LISTEN`, or the connection is down and it fails
      cases hlive : c.live with
      | true =>
        refine ⟨_, _, .executed rfl hlive, .inr ?_⟩
        simp [rank, hlistening]
      | false =>
        refine ⟨_, _, .listenFailed rfl, .inr ?_⟩
        simp [rank, hlistening]
  | connecting =>
    refine ⟨_, _, .opened rfl, .inr ?_⟩
    show 3 < 4
    decide
  | awaiting =>
    have hcases := connection.pollable_or_advance hsound.held h
    rcases hcases with hqueue | ⟨hqueue, hsender⟩ | ⟨c, hc, hlt⟩
    · obtain ⟨_, wakeups, hpoll⟩ := Channel.exists_poll_some hqueue
      exact ⟨_, _, .wakeup rfl hpoll, .inl ⟨_, rfl⟩⟩
    · obtain ⟨wakeups, hpoll⟩ := Channel.exists_poll_none hqueue hsender
      refine ⟨_, _, .closed rfl hpoll, .inr ?_⟩
      show 4 < connection.rank
      rw [Connection.rank_closed hqueue hsender]
      decide
    · exact ⟨_, _, .connection hc, .inr hlt⟩

end PgNotifier

end Venturi
