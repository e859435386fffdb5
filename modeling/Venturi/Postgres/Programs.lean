import Venturi.Trace.Concurrent
import Venturi.Postgres.Runs
import Venturi.Queue.Submit

namespace Venturi

open Sql Trace

/-!
# Code of a party over the database

* `PostgresStore.Performs` — one operation of a party's code.  A store call is one
  transaction, or fails without effect; the clock and the id generator leave the database
  alone.
* `StoreProgram.Ensures` — `Trace.Ensures` for such code, among any calls of other
  parties, with one rule for each form of a line: `ensures_call`, `ensures_now`,
  `ensures_newUlid`, `ensures_json`.
* `Writes` — what an accepted submission did: nothing, up to its last operation.
-/

/-- One operation of a party's code. -/
abbrev OwnMove : Type := Move PostgresStore (Env × Program.Act Effect.Answer)

/-- One step while a party's code is under way. -/
abbrev StoreTurn : Type := Turn PostgresStore Env Effect.Answer Event

namespace PostgresStore

variable {s s' : PostgresStore} {env : Env}

/-- A failed call leaves the database as it was. -/
theorem Step.unchanged {c : Call} {e : Error} (h : s.Step ⟨env, c, .error e⟩ s') : s' = s := by
  have hcommit {α : Type} {x : Except Error (α × PostgresStore)}
      (h : s.commit x = (.error e, s')) : s' = s := by
    rcases commit_eq h with ⟨_, -, herr⟩ | ⟨_, -, -, hs⟩
    · cases herr
    · exact hs
  cases c with
  | journal | nextVisibleAt | dedupCandidate | findStale | job | cleanup => cases h
  | _ => exact hcommit h

/-- One operation of a party's code. -/
inductive Performs (s : PostgresStore) (env : Env) : (o : Effect) → o.Answer → PostgresStore → Prop
  | call {c : Call} {reply : Except Error c.Answer} {s' : PostgresStore}
      (h : s.Step ⟨env, c, reply⟩ s') : Performs s env (.call c) reply s'
  /-- The connection, the pool or the server fails the call. -/
  | failed (c : Call) (e : Error) : Performs s env (.call c) (.error e) s
  | now (t : DateTime) : Performs s env .now t s
  | newUlid (id : Ulid) : Performs s env .newUlid id s

/-- A call that succeeds is a step of the store. -/
theorem Performs.of_ok {c : Call} {a : c.Answer} (h : s.Performs env (.call c) (.ok a) s') :
    s.Step ⟨env, c, .ok a⟩ s' := by
  cases h with
  | call h => exact h

/-- A call that fails leaves the store as it was. -/
theorem Performs.of_error {c : Call} {e : Error} (h : s.Performs env (.call c) (.error e) s') :
    s' = s := by
  generalize hreply : (Except.error e : Except Error c.Answer) = reply at h
  cases h with
  | call h =>
    subst hreply
    exact h.unchanged
  | failed => rfl

theorem Performs.of_now {t : DateTime} (h : s.Performs env .now t s') : s' = s := by
  cases h
  rfl

theorem Performs.of_newUlid {id : Ulid} (h : s.Performs env .newUlid id s') : s' = s := by
  cases h
  rfl

/-- Answer an operation in the environment, with `id` for a fresh identifier. -/
def answer (env : Env) (id : Ulid) (s : PostgresStore) : (o : Effect) → o.Answer × PostgresStore
  | .call c => s.exec env c
  | .now => (env.now, s)
  | .newUlid => (id, s)

/-- Answer the call of another party. -/
def react (s : PostgresStore) (i : Env × Call) : Event × PostgresStore :=
  (⟨i.1, i.2, (s.exec i.1 i.2).1⟩, (s.exec i.1 i.2).2)

/-- What the store does with a call is a step of it. -/
theorem step_react (s : PostgresStore) (i : Env × Call) : s.Step (s.react i).1 (s.react i).2 := rfl

/-- What the store answers to an effect it performs. -/
theorem performs_answer (env : Env) (id : Ulid) (s : PostgresStore) (o : Effect) :
    s.Performs env o (s.answer env id o).1 (s.answer env id o).2 := by
  cases o with
  | call c => exact .call rfl
  | now => exact .now env.now
  | newUlid => exact .newUlid id

end PostgresStore

open PostgresStore

/-! ### What code ensures -/

namespace StoreProgram

/-- The executions of a party's code among the calls of other parties. -/
abbrev Exec {α : Type} : Program Effect.Answer α → PostgresStore → List StoreTurn →
    Program Effect.Answer α → PostgresStore → Prop :=
  Trace.Exec PostgresStore.Performs PostgresStore.Step

/-- A store call of the code that succeeded was a step of the database. -/
theorem performed_call {α : Type} {p q : Program Effect.Answer α} {s s' : PostgresStore}
    {tr : List StoreTurn} (h : Exec p s tr q s') {m : OwnMove} (hm : m ∈ owns tr) {c : Call}
    {a : c.Answer} (hlabel : m.label.2 = ⟨.call c, .ok a⟩) :
    m.before.Step ⟨m.label.1, c, .ok a⟩ m.after := by
  have hperform := h.performed m hm
  obtain ⟨before, ⟨env, act⟩, after⟩ := m
  obtain rfl : act = ⟨.call c, .ok a⟩ := hlabel
  exact hperform.of_ok

/-- What a party's code ensures among the calls of other parties. -/
abbrev Ensures {α : Type} (R : Move PostgresStore Event → Prop) (I : PostgresStore → Prop)
    (p : StoreProgram α) (Q : Except Error α → List OwnMove → Prop) : Prop :=
  Trace.Ensures PostgresStore.Performs PostgresStore.Step R I p.run Q

/-- A condition on the database that the calls of other parties keep. -/
def Stable (R : Move PostgresStore Event → Prop) (I : PostgresStore → Prop) : Prop :=
  ∀ m : Move PostgresStore Event, R m → m.before.Step m.label m.after → I m.before → I m.after

/-- No step breaks what always holds. -/
theorem Stable.true {R : Move PostgresStore Event → Prop} : Stable R (fun _ => True) :=
  fun _ _ _ _ => trivial

variable {α β : Type} {R : Move PostgresStore Event → Prop} {I : PostgresStore → Prop}
  {Q : Except Error β → List OwnMove → Prop}

theorem ensures_return {b : β} (h : Q (.ok b) []) : Ensures R I (pure b) Q := Ensures.ret h

/-- **A store call** goes on with its answer, or ends the code with its error. -/
theorem ensures_call {c : Call} {f : c.Answer → StoreProgram β} (hI : Stable R I)
    (hok : ∀ s env a s', I s → s.Step ⟨env, c, .ok a⟩ s' → ∃ I', I' s' ∧
      Ensures R I' (f a) (fun r ms => Q r (⟨s, (env, ⟨.call c, .ok a⟩), s'⟩ :: ms)))
    (herr : ∀ s env e, Q (.error e) [⟨s, (env, ⟨.call c, .error e⟩), s⟩]) :
    Ensures R I (call c >>= f) Q := by
  rw [Ensures, run_call_bind]
  refine Ensures.op hI (fun s env reply s' hs hperform => ?_)
  rcases reply with e | a
  · obtain rfl := hperform.of_error
    exact ⟨fun _ => True, trivial, .ret (herr _ _ _)⟩
  · exact hok s env a s' hs hperform.of_ok

/-- A program that reads the clock ensures what its rest does at every time. -/
theorem ensures_now {f : DateTime → StoreProgram β} (hI : Stable R I)
    (h : ∀ s env t, I s → Ensures R I (f t)
      (fun r ms => Q r (⟨s, (env, ⟨.now, t⟩), s⟩ :: ms))) :
    Ensures R I (now >>= f) Q := by
  rw [Ensures, run_now_bind]
  refine Ensures.op hI (fun s env t s' hs hperform => ?_)
  obtain rfl := hperform.of_now
  exact ⟨I, hs, h _ env t hs⟩

theorem ensures_newUlid {f : Ulid → StoreProgram β} (hI : Stable R I)
    (h : ∀ s env id, I s → Ensures R I (f id)
      (fun r ms => Q r (⟨s, (env, ⟨.newUlid, id⟩), s⟩ :: ms))) :
    Ensures R I (newUlid >>= f) Q := by
  rw [Ensures, run_newUlid_bind]
  refine Ensures.op hI (fun s env id s' hs hperform => ?_)
  obtain rfl := hperform.of_newUlid
  exact ⟨I, hs, h _ env id hs⟩

/-- A conversion either goes on with its value, or ends the program with its error. -/
theorem ensures_json {x : Except String α} {f : α → StoreProgram β}
    (hok : ∀ a, x = .ok a → Ensures R I (f a) Q) (herr : ∀ e, Q (.error e) []) :
    Ensures R I (json x >>= f) Q := by
  cases x with
  | ok a => exact hok a rfl
  | error message => exact Ensures.ret (herr _)

/-- Run a party's code in one environment, with `id` for fresh identifiers, while others make
    the calls the schedule lists before each of its operations. -/
def amid (p : StoreProgram α) (env : Env) (id : Ulid) (schedule : List (List (Env × Call)))
    (s : PostgresStore) : List StoreTurn × Except Error α × PostgresStore :=
  p.run.amid env (PostgresStore.answer env id) PostgresStore.react schedule s

/-- What a program does amid the calls of others is one of its executions. -/
theorem exec_amid (p : StoreProgram α) (env : Env) (id : Ulid)
    (schedule : List (List (Env × Call))) (s : PostgresStore) :
    Exec p.run s (p.amid env id schedule s).1 (.ret (p.amid env id schedule s).2.1)
      (p.amid env id schedule s).2.2 :=
  Exec.amid (performs_answer env id) step_react p.run schedule s

end StoreProgram

/-! ### One effective write -/

/-- The job `id` is stored and pending. -/
def PostgresStore.Pending (s : PostgresStore) (id : Ulid) : Prop :=
  ∃ j, s.view id = some j ∧ j.row.status = .pending

/-- The job a merge was to be written into, if the operation is one. -/
def OwnMove.merge? (m : OwnMove) : Option Ulid :=
  match m.label.2 with
  | ⟨.call (.mergeInto id _ _), _⟩ => some id
  | _ => none

/-- The code returned an id and only its last operation `w` wrote, with `P` of the operations
    before it, the id and `w`; or it failed and wrote nothing. -/
inductive Writes (P : List OwnMove → Ulid → OwnMove → Prop) :
    Except Error Ulid → List OwnMove → Prop
  | once {id : Ulid} {ms : List OwnMove} {w : OwnMove} (hsame : ∀ m ∈ ms, m.after = m.before)
      (hw : P ms id w) : Writes P (.ok id) (ms ++ [w])
  | never {e : Error} {ms : List OwnMove} (hsame : ∀ m ∈ ms, m.after = m.before) :
      Writes P (.error e) ms

namespace Writes

variable {P P' : List OwnMove → Ulid → OwnMove → Prop} {r : Except Error Ulid}
  {ms : List OwnMove} {m : OwnMove} {e : Error}

/-- More operations before, that wrote nothing and turn `P` into `P'`. -/
theorem after {pre : List OwnMove} (h : Writes P r ms) (hpre : ∀ m ∈ pre, m.after = m.before)
    (hP : ∀ ms id w, P ms id w → P' (pre ++ ms) id w) : Writes P' r (pre ++ ms) := by
  cases h with
  | once hsame hw =>
    rw [← List.append_assoc]
    exact .once (List.forall_mem_append.mpr ⟨hpre, hsame⟩) (hP _ _ _ hw)
  | never hsame => exact .never (List.forall_mem_append.mpr ⟨hpre, hsame⟩)

/-- One more operation before, that wrote nothing and keeps `P`. -/
theorem cons (h : Writes P r ms) (hm : m.after = m.before)
    (hP : ∀ ms id w, P ms id w → P (m :: ms) id w) : Writes P r (m :: ms) :=
  h.after (List.forall_mem_singleton.mpr hm) hP

theorem imp (h : Writes P r ms) (hP : ∀ ms id w, P ms id w → P' ms id w) : Writes P' r ms :=
  h.after (List.forall_mem_nil _) hP

/-- The last operation alone. -/
theorem one {id : Ulid} (h : P [] id m) : Writes P (.ok id) [m] := by
  rw [← List.nil_append [m]]
  exact .once (List.forall_mem_nil _) h

theorem none : Writes P (.error e) [] := .never (List.forall_mem_nil _)

theorem failed (hm : m.after = m.before) : Writes P (.error e) [m] :=
  .never (List.forall_mem_singleton.mpr hm)

end Writes

end Venturi
