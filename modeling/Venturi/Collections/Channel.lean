import Mathlib.Data.List.Basic

namespace Collections

/-!
# Bounded channels

One sending and one receiving end, with a queue of bounded length between them.

* `Channel.trySend` — send without waiting: a full channel and one whose receiver is gone
  refuse the message.
* `Channel.poll` — poll the receiver: a message, the end of the channel once the sender is
  gone and the queue is empty, or nothing yet.

A message that is not sent because the channel is full leaves a message behind that was sent
before (`trySend_full`): where one message says as much as two, nothing is lost.
-/

/-- A channel whose queue holds at most `capacity` messages. -/
structure Channel (α : Type*) where
  capacity : Nat
  queue : List α
  bounded : queue.length ≤ capacity
  /-- Whether the sending end exists. -/
  sender : Bool
  /-- Whether the receiving end exists. -/
  receiver : Bool

/-- Why a message was not sent. -/
inductive TrySendError where
  | full
  | closed
  deriving DecidableEq, Repr

namespace Channel

variable {α : Type*} {c c' : Channel α} {a : α}

/-- A new channel. -/
def new (capacity : Nat) : Channel α where
  capacity := capacity
  queue := []
  bounded := Nat.zero_le capacity
  sender := true
  receiver := true

/-- The sending end is dropped. -/
def dropSender (c : Channel α) : Channel α := { c with sender := false }

/-- Send without waiting. -/
def trySend (c : Channel α) (a : α) : Except TrySendError (Channel α) :=
  if c.receiver then
    if h : c.queue.length < c.capacity then
      .ok { c with
        queue := c.queue ++ [a]
        bounded := by
          rw [List.length_append, List.length_singleton]
          omega }
    else .error .full
  else .error .closed

/-- Poll the receiving end: a message, the end of the channel, or nothing as long as a
sender may still send. -/
def poll (c : Channel α) : Option (Option α × Channel α) :=
  match h : c.queue with
  | a :: rest => some (some a, { c with
      queue := rest
      bounded := by
        have hbounded := c.bounded
        rw [h, List.length_cons] at hbounded
        omega })
  | [] => if c.sender then none else some (none, c)

/-- What is sent comes last in the queue, and nothing else changes. -/
theorem trySend_ok (h : c.trySend a = .ok c') :
    c'.queue = c.queue ++ [a] ∧ c'.capacity = c.capacity ∧ c'.sender = c.sender ∧
      c'.receiver = c.receiver := by
  unfold trySend at h
  split at h
  · split at h
    · cases h
      exact ⟨rfl, rfl, rfl, rfl⟩
    · cases h
  · cases h

/-- A full channel holds messages sent before. -/
theorem trySend_full (h : c.trySend a = .error .full) : c.queue.length = c.capacity := by
  unfold trySend at h
  split at h
  · split at h
    · cases h
    · have hbounded := c.bounded
      omega
  · cases h

/-- A send finds the channel closed only where the receiver is gone. -/
theorem trySend_closed (h : c.trySend a = .error .closed) : c.receiver = false := by
  unfold trySend at h
  split at h
  · split at h <;> cases h
  · exact Bool.eq_false_iff.mpr ‹_›

/-- What is received was first in the queue, and nothing else changes. -/
theorem poll_some (h : c.poll = some (some a, c')) :
    c.queue = a :: c'.queue ∧ c'.capacity = c.capacity ∧ c'.sender = c.sender ∧
      c'.receiver = c.receiver := by
  unfold poll at h
  split at h
  · cases h
    exact ⟨‹_›, rfl, rfl, rfl⟩
  · split at h <;> cases h

/-- The channel ends when the sender is gone and everything sent was received. -/
theorem poll_none (h : c.poll = some (none, c')) : c.queue = [] ∧ c.sender = false := by
  unfold poll at h
  split at h
  · cases h
  · split at h
    · cases h
    · exact ⟨‹_›, Bool.eq_false_iff.mpr ‹_›⟩

/-- A message in the queue is received. -/
theorem exists_poll_some (h : c.queue ≠ []) : ∃ a c', c.poll = some (some a, c') := by
  unfold poll
  split
  · exact ⟨_, _, rfl⟩
  · exact absurd ‹c.queue = []› h

/-- An empty channel without a sender is found closed. -/
theorem exists_poll_none (hqueue : c.queue = []) (hsender : c.sender = false) :
    ∃ c', c.poll = some (none, c') := by
  unfold poll
  split
  · rename_i h
    rw [hqueue] at h
    cases h
  · rw [hsender]
    exact ⟨c, rfl⟩

end Channel

end Collections
