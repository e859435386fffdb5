import Mathlib.Logic.Function.Basic
import Venturi.Trace.Program
import Venturi.Trace.Run

namespace Sql

open Trace

/-!
# Sessions of a database server

A server takes the requests of each session in the order they were sent.  Transactions and
advisory locks belong to the session: a transaction shows its effects to others when it
commits, a lock is held until its session gives it back, as often as it was taken, or closes.

* `Semantics` — what the statements do, `runAll` what a list of them does.
* `Backend.serve` — one request of a session, as the server carries it out.
* `Operation` — what client code does with its session: it awaits a request, or drops an open
  transaction.
* `System.Step` — clients on pooled sessions, in any interleaving.  A statement may fail, an
  answer may be lost, a client may be cancelled at any await and leaves behind the requests it
  had sent, a session may close.
* `System.drive` — runs one session by itself, so that a concrete run can be evaluated.
-/

/-- What a client sends over its session. -/
inductive Request (κ A : Type) where
  | begin
  | exec (a : A)
  | commit
  | rollback
  | lock (k : κ)
  | unlock (k : κ)
  deriving DecidableEq

/-- What the statements of a database do, and the answer to a request without rows. -/
structure Semantics (δ A R : Type) where
  run : A → δ → Option (R × δ)
  done : R

/-- The transaction of a session. -/
inductive Tx (A : Type) where
  | idle
  | active (as : List A)
  | aborted
  deriving DecidableEq

variable {ι κ ρ δ A R E β : Type}

/-- The statements one after the other, each on what the ones before it left. -/
def runAll (run : A → δ → Option (R × δ)) : List A → δ → Option δ
  | [], db => some db
  | a :: as, db => (run a db).bind fun x => runAll run as x.2

@[simp] theorem runAll_nil (run : A → δ → Option (R × δ)) (db : δ) :
    runAll run [] db = some db := rfl

theorem runAll_append (run : A → δ → Option (R × δ)) (as bs : List A) (db : δ) :
    runAll run (as ++ bs) db = (runAll run as db).bind (runAll run bs) := by
  induction as generalizing db with
  | nil => rfl
  | cons a as ih =>
    simp only [List.cons_append, runAll]
    cases run a db with
    | none => rfl
    | some x => exact ih x.2

/-! ### The server -/

/-- What the server knows of one session: the database, the locks with their holders, one
    less than how often each was taken, and the session's transaction. -/
structure Backend (ι κ δ A : Type) where
  db : δ
  locks : κ → Option (ι × Nat)
  tx : Tx A

section Serve

variable [DecidableEq ι] [DecidableEq κ] (sem : Semantics δ A R) (s : ι)

/-- One more time for `s`, unless another session holds the lock. -/
def acquire (locks : κ → Option (ι × Nat)) (k : κ) : Option (κ → Option (ι × Nat)) :=
  match locks k with
  | none => some (Function.update locks k (some (s, 0)))
  | some (t, n) => if t = s then some (Function.update locks k (some (s, n + 1))) else none

/-- Once less for `s`; nothing happens to a lock it does not hold. -/
def unlockOne (locks : κ → Option (ι × Nat)) (k : κ) : κ → Option (ι × Nat) :=
  match locks k with
  | none => locks
  | some (t, 0) => if t = s then Function.update locks k none else locks
  | some (t, n + 1) => if t = s then Function.update locks k (some (s, n)) else locks

/-- The session is gone, and its locks with it. -/
def releaseAll (locks : κ → Option (ι × Nat)) : κ → Option (ι × Nat) :=
  fun k => (locks k).filter fun h => h.1 ≠ s

/-- The server carries out a request of session `s`.  There is no result where the statement
    is invalid, or while another session holds the lock. -/
def Backend.serve (x : Backend ι κ δ A) : Request κ A → Option (R × Backend ι κ δ A)
  | .begin =>
      match x.tx with
      | .idle => some (sem.done, { x with tx := .active [] })
      | _ => some (sem.done, x)
  | .exec a =>
      match x.tx with
      | .idle => (sem.run a x.db).map fun y => (y.1, { x with db := y.2 })
      | .active as =>
          ((runAll sem.run as x.db).bind (sem.run a)).map fun y =>
            (y.1, { x with tx := .active (as ++ [a]) })
      | .aborted => none
  | .commit =>
      match x.tx with
      | .active as => (runAll sem.run as x.db).map fun db => (sem.done, { x with db, tx := .idle })
      | _ => some (sem.done, { x with tx := .idle })
  | .rollback => some (sem.done, { x with tx := .idle })
  | .lock k => (acquire s x.locks k).map fun locks => (sem.done, { x with locks })
  | .unlock k => some (sem.done, { x with locks := unlockOne s x.locks k })

end Serve

/-- The transaction after a request failed: an error aborts it, a failed commit ends it. -/
def Tx.spoil (tx : Tx A) : Request κ A → Tx A
  | .commit => .idle
  | _ =>
      match tx with
      | .idle => .idle
      | _ => .aborted

/-! ### Clients -/

/-- What client code does with its session. -/
inductive Operation (κ A : Type) where
  /-- Send a request and await its answer. -/
  | request (r : Request κ A)
  /-- Drop an open transaction: a rollback is sent and not awaited. -/
  | abandon

/-- The answers client code goes on with. -/
abbrev Operation.Answer (E R : Type) : Operation κ A → Type
  | .request _ => Except E R
  | .abandon => Unit

/-- Code of a client that returns a `β`. -/
abbrev ClientCode (κ A E R β : Type) : Type :=
  Program (Operation.Answer (κ := κ) (A := A) E R) β

/-- A client on a session: what it works on, the code that remains, and whether it has a
    transaction open. -/
structure Client (κ ρ A R E β : Type) where
  resource : ρ
  code : ClientCode κ A E R β
  inTx : Bool

/-- The request the client awaits, if it has not returned. -/
def Client.request? (c : Client κ ρ A R E β) : Option (Request κ A) :=
  match c.code with
  | .op (.request r) _ => some r
  | _ => none

/-- A pooled session: the transaction the server has for it, the requests sent that nobody
    awaits any more, oldest first, and its client. -/
structure Session (κ ρ A R E β : Type) where
  alive : Bool
  tx : Tx A
  orphans : List (Request κ A)
  client : Option (Client κ ρ A R E β)

namespace Session

variable (c : Session κ ρ A R E β)

/-- A client takes the session to work on `p`. -/
def enter (p : ρ) (code : ClientCode κ A E R β) : Session κ ρ A R E β :=
  { c with client := some ⟨p, code, false⟩ }

def withTx (tx : Tx A) : Session κ ρ A R E β := { c with tx }

/-- The request the server takes next. -/
def next? : Option (Request κ A) :=
  match c.orphans with
  | r :: _ => some r
  | [] => c.client.bind Client.request?

/-- What a client leaves in its session when it is cancelled, with its request sent or not: an
    open transaction is dropped, and so is one whose beginning was awaited. -/
def wreckage (client : Client κ ρ A R E β) (sent : Bool) : List (Request κ A) :=
  match client.request? with
  | some .commit => if sent then [.commit] else [.rollback]
  | some .begin => if sent then [.begin, .rollback] else []
  | some r => (if sent then [r] else []) ++ if client.inTx then [.rollback] else []
  | none => if client.inTx then [.rollback] else []

/-- The client goes on with the answer to its request. A transaction that could not be begun
    is rolled back all the same. -/
def resume (client : Client κ ρ A R E β) (answer : Except E R) : Session κ ρ A R E β :=
  match client.code with
  | .op (.request r) k =>
      let code := k answer
      match r, answer with
      | .begin, .ok _ => { c with client := some { client with code, inTx := true } }
      | .begin, .error _ =>
          { c with client := some { client with code }, orphans := c.orphans ++ [.rollback] }
      | .commit, _ => { c with client := some { client with code, inTx := false } }
      | _, _ => { c with client := some { client with code } }
  | _ => c

/-- The answer to the request the server took: nobody awaits that of an orphan. -/
def answered (answer : Except E R) : Session κ ρ A R E β :=
  match c.orphans, c.client with
  | _ :: rs, _ => { c with orphans := rs }
  | [], some client => c.resume client answer
  | [], none => c

/-- The connection is gone: what was sent is lost, the transaction rolled back. -/
def closed : Session κ ρ A R E β := { c with alive := false, tx := .idle, orphans := [] }

/-- The client drops its open transaction: on a live connection a rollback is sent. -/
def abandon (client : Client κ ρ A R E β) (code : ClientCode κ A E R β) :
    Session κ ρ A R E β :=
  { c with
    client := some { client with code, inTx := false }
    orphans := if c.alive then c.orphans ++ [.rollback] else [] }

/-- The client is dropped. -/
def cancel (client : Client κ ρ A R E β) (sent : Bool) : Session κ ρ A R E β :=
  { c with
    client := (none : Option (Client κ ρ A R E β))
    orphans := if c.alive then c.orphans ++ wreckage client sent else [] }

/-- The session goes back to the pool. -/
def giveBack : Session κ ρ A R E β := { c with client := (none : Option (Client κ ρ A R E β)) }

end Session

section Answers

variable {c : Session κ ρ A R E β} {client client' : Client κ ρ A R E β} {r : Request κ A}

/-- An answer leads the client on, by its code. -/
theorem Session.resume_client {f : Except E R → ClientCode κ A E R β}
    (hcode : client.code = .op (.request r) f) (answer : Except E R) : ∃ inTx,
      (c.resume client answer).client = some ⟨client.resource, f answer, inTx⟩ := by
  rw [Session.resume, hcode]
  cases r <;> cases answer <;> exact ⟨_, rfl⟩

/-- The code of a client that sends a request. -/
theorem Client.code_of_request (h : client.request? = some r) :
    ∃ f, client.code = .op (.request r) f := by
  unfold Client.request? at h
  split at h
  next r' f hcode =>
    obtain rfl := Option.some.inj h
    exact ⟨f, hcode⟩
  next => cases h

/-- The client after an answer works on what it worked on. -/
theorem Session.resource_of_resume {answer : Except E R} (hrequest : client.request? = some r)
    (hclient : (c.resume client answer).client = some client') :
    client'.resource = client.resource := by
  obtain ⟨f, hf⟩ := Client.code_of_request hrequest
  obtain ⟨inTx, hresume⟩ := Session.resume_client (c := c) hf answer
  rw [hresume] at hclient
  obtain rfl := Option.some.inj hclient
  rfl

end Answers

/-! ### The system -/

/-- A database, its locks, and the sessions. -/
structure System (ι κ ρ δ A R E β : Type) where
  db : δ
  locks : κ → Option (ι × Nat)
  sessions : ι → Session κ ρ A R E β

/-- What happens in the system. -/
inductive Label (ι ρ E β : Type) where
  /-- A client takes a session from the pool to work on `p`. -/
  | start (s : ι) (p : ρ)
  | served (s : ι)
  | failed (s : ι) (e : E)
  /-- The request was carried out, and the connection closed before its answer. -/
  | lost (s : ι) (e : E)
  /-- The connection is closed. -/
  | refused (s : ι) (e : E)
  | abandoned (s : ι)
  | cancelled (s : ι) (p : ρ) (sent : Bool)
  | returned (s : ι) (p : ρ) (b : β)
  | closed (s : ι)
  deriving DecidableEq

namespace System

variable [DecidableEq ι] [DecidableEq κ]

/-- What the server has for session `s`. -/
def backend (x : System ι κ ρ δ A R E β) (s : ι) : Backend ι κ δ A :=
  ⟨x.db, x.locks, (x.sessions s).tx⟩

/-- The system with another session `s`. -/
def set (x : System ι κ ρ δ A R E β) (s : ι) (c : Session κ ρ A R E β) : System ι κ ρ δ A R E β :=
  { x with sessions := Function.update x.sessions s c }

/-- One step of the system, whose clients run `code p` on the resource `p`. -/
inductive Step (sem : Semantics δ A R) (code : ρ → ClientCode κ A E R β)
    (x : System ι κ ρ δ A R E β) : Label ι ρ E β → System ι κ ρ δ A R E β → Prop
  | start {s : ι} {p : ρ} (halive : (x.sessions s).alive) (hfree : (x.sessions s).client = none) :
      Step sem code x (.start s p) (x.set s ((x.sessions s).enter p (code p)))
  | served {s : ι} {r : Request κ A} {a : R} {y : Backend ι κ δ A}
      (halive : (x.sessions s).alive) (hnext : (x.sessions s).next? = some r)
      (hserve : (x.backend s).serve sem s r = some (a, y)) :
      Step sem code x (.served s)
        ({ x with db := y.db, locks := y.locks }.set s
          (((x.sessions s).withTx y.tx).answered (.ok a)))
  | failed {s : ι} {r : Request κ A} {e : E}
      (halive : (x.sessions s).alive) (hnext : (x.sessions s).next? = some r)
      (hr : r ≠ .rollback) :
      Step sem code x (.failed s e)
        (x.set s (((x.sessions s).withTx ((x.sessions s).tx.spoil r)).answered (.error e)))
  | lost {s : ι} {c : Client κ ρ A R E β} {r : Request κ A} {a : R} {y : Backend ι κ δ A} {e : E}
      (halive : (x.sessions s).alive) (horphans : (x.sessions s).orphans = [])
      (hclient : (x.sessions s).client = some c) (hrequest : c.request? = some r)
      (hserve : (x.backend s).serve sem s r = some (a, y)) :
      Step sem code x (.lost s e)
        ({ x with db := y.db, locks := releaseAll s y.locks }.set s
          (((x.sessions s).resume c (.error e)).closed))
  | refused {s : ι} {c : Client κ ρ A R E β} {r : Request κ A} {e : E}
      (hdead : ¬ (x.sessions s).alive)
      (hclient : (x.sessions s).client = some c) (hrequest : c.request? = some r) :
      Step sem code x (.refused s e) (x.set s (((x.sessions s).resume c (.error e)).closed))
  | abandoned {s : ι} {c : Client κ ρ A R E β} {k : Unit → ClientCode κ A E R β}
      (hclient : (x.sessions s).client = some c) (hcode : c.code = .op .abandon k) :
      Step sem code x (.abandoned s)
        (x.set s ((x.sessions s).abandon c (k ())))
  | cancelled {s : ι} {c : Client κ ρ A R E β} (sent : Bool)
      (hclient : (x.sessions s).client = some c) :
      Step sem code x (.cancelled s c.resource sent)
        (x.set s ((x.sessions s).cancel c sent))
  | returned {s : ι} {c : Client κ ρ A R E β} {b : β}
      (hclient : (x.sessions s).client = some c) (hcode : c.code = .ret b) :
      Step sem code x (.returned s c.resource b) (x.set s (x.sessions s).giveBack)
  | closed {s : ι} (halive : (x.sessions s).alive) :
      Step sem code x (.closed s)
        ({ x with locks := releaseAll s x.locks }.set s (x.sessions s).closed)

/-! ### Running a session -/

/-- What session `s` does next when nothing fails, if it can go on. -/
def advance (sem : Semantics δ A R) (s : ι) (x : System ι κ ρ δ A R E β) :
    Option (Label ι ρ E β × System ι κ ρ δ A R E β) :=
  match (x.sessions s).client with
  | none => none
  | some c =>
      match c.code with
      | .ret b => some (.returned s c.resource b, x.set s (x.sessions s).giveBack)
      | .op .abandon k => some (.abandoned s, x.set s ((x.sessions s).abandon c (k ())))
      | .op (.request _) _ =>
          if (x.sessions s).alive then
            match (x.sessions s).next? with
            | none => none
            | some r =>
                ((x.backend s).serve sem s r).map fun y =>
                  (.served s, { x with db := y.2.db, locks := y.2.locks }.set s
                    (((x.sessions s).withTx y.2.tx).answered (.ok y.1)))
          else none

variable {sem : Semantics δ A R} {code : ρ → ClientCode κ A E R β} {s : ι}
  {x x' : System ι κ ρ δ A R E β} {l : Label ι ρ E β}

/-- What a session does next is a step of the system. -/
theorem advance_step (h : x.advance sem s = some (l, x')) : Step sem code x l x' := by
  unfold advance at h
  cases hclient : (x.sessions s).client with
  | none => simp [hclient] at h
  | some c =>
    simp only [hclient] at h
    cases hcode : c.code with
    | ret b =>
      simp only [hcode] at h
      obtain ⟨rfl, rfl⟩ := Prod.mk.inj (Option.some.inj h)
      exact .returned hclient hcode
    | op o k =>
      cases o with
      | abandon =>
        simp only [hcode] at h
        obtain ⟨rfl, rfl⟩ := Prod.mk.inj (Option.some.inj h)
        exact .abandoned hclient hcode
      | request r =>
        simp only [hcode] at h
        split at h
        next halive =>
          split at h
          next => cases h
          next r' hnext =>
            obtain ⟨y, hserve, hy⟩ := Option.map_eq_some_iff.mp h
            obtain ⟨rfl, rfl⟩ := Prod.mk.inj hy
            exact .served halive hnext hserve
        next => cases h

/-- At most `n` steps of session `s`. -/
def drive (sem : Semantics δ A R) (s : ι) : Nat → System ι κ ρ δ A R E β →
    List (Move (System ι κ ρ δ A R E β) (Label ι ρ E β)) × System ι κ ρ δ A R E β
  | 0, x => ([], x)
  | n + 1, x =>
      match x.advance sem s with
      | none => ([], x)
      | some (l, x') =>
          let rest := drive sem s n x'
          (⟨x, l, x'⟩ :: rest.1, rest.2)

/-- What a session does when it is driven is a run. -/
theorem run_drive (n : Nat) (x : System ι κ ρ δ A R E β) :
    Run x (fun _ => Step sem code) (drive sem s n x).1 (drive sem s n x).2 := by
  induction n generalizing x with
  | zero => exact .start
  | succ n ih =>
    unfold drive
    split
    · exact .start
    next l x' hadvance =>
      exact (Run.start.snoc (advance_step hadvance)).append (ih x')

end System

end Sql
