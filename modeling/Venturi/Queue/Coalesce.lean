import Venturi.Queue.Accept

namespace Venturi

open Sql PostgresStore StoreProgram Trace

/-!
# One pending job per key (`queue.rs`, `task.rs`)

Deduplication is decided when a job is enqueued, against the jobs that are pending then.  A
claimed job of the same key is no candidate, and nothing looks for siblings when it returns to
pending by a retry, a pause, a release or a recovery.

* `KeyStep` — the enqueues of one key, one at a time, among any store calls of others.
* `LiveUnder` — a job of the key that has not ended; only an enqueue of the key adds one
  (`LiveUnder.of_step`).
* `Merging` / `Inserting` — what is left of a submission that read a candidate, or that is
  going to insert.
* `Phase` — how far the enqueue under way is, read off the history; `Phase.Holds` is the
  invariant of each phase.
* `Clear` — no job of the key is claimed where an enqueue looks at its candidates.
* `coalesced` — then at most one job of the key is pending.
* `siblings_pending` — a run that enqueues a second job while the first one is claimed.
-/

namespace Queue

/-! ### The pending jobs of a key -/

section Key

variable {kind key : String} {s s' : PostgresStore} {e : Event} {id id' : Ulid}

/-- The job `id` is pending under the key. -/
def PendingUnder (kind key : String) (s : PostgresStore) (id : Ulid) : Prop :=
  ∃ j, s.view id = some j ∧ j.row.dedupCandidate kind key

/-- At most one job is pending under the key. -/
def AtMostOne (kind key : String) (s : PostgresStore) : Prop :=
  ∀ id id', PendingUnder kind key s id → PendingUnder kind key s id' → id = id'

/-- The job `id` is claimed under the key. -/
def ClaimedUnder (kind key : String) (s : PostgresStore) (id : Ulid) : Prop :=
  ∃ j, s.view id = some j ∧ j.row.kind = kind ∧ j.row.dedupKey = some key ∧
    j.row.status = .claimed

/-- The job `id` is stored under the key and has not ended. -/
def LiveUnder (kind key : String) (s : PostgresStore) (id : Ulid) : Prop :=
  ∃ j, s.view id = some j ∧ j.row.kind = kind ∧ j.row.dedupKey = some key ∧ ¬ j.row.Terminal

/-- A pending job has not ended. -/
theorem PendingUnder.live (h : PendingUnder kind key s id) : LiveUnder kind key s id := by
  obtain ⟨j, hj, hcand⟩ := h
  obtain ⟨hkind, hkey, hpending⟩ := JobRecord.dedupCandidate_iff.mp hcand
  exact ⟨j, hj, hkind, hkey, by simp [JobRecord.Terminal, hpending]⟩

/-- A job that has not ended is pending or claimed. -/
theorem LiveUnder.pending_or_claimed (h : LiveUnder kind key s id) :
    PendingUnder kind key s id ∨ ClaimedUnder kind key s id := by
  obtain ⟨j, hj, hkind, hkey, hlive⟩ := h
  unfold JobRecord.Terminal at hlive
  cases hstatus : j.row.status with
  | pending => exact .inl ⟨j, hj, JobRecord.dedupCandidate_iff.mpr ⟨hkind, hkey, hstatus⟩⟩
  | claimed => exact .inr ⟨j, hj, hkind, hkey, hstatus⟩
  | completed | dead => simp [hstatus] at hlive

/-- **Where the live jobs of a key come from**: they were live before, or were inserted.  A job
    that is claimed, or put back, stays live; one that has ended stays so. -/
theorem LiveUnder.of_step (hs : s.Step e s') (h : LiveUnder kind key s' id) :
    LiveUnder kind key s id ∨
      ∃ new, e.call = .enqueue new ∧ new.id = id ∧ new.kind = kind ∧ new.dedupKey = some key := by
  obtain ⟨j', hj', hkind, hkey, hlive⟩ := h
  rcases exec_view hs id with ⟨hview, -⟩ | hstep
  · exact .inl ⟨j', hview ▸ hj', hkind, hkey, hlive⟩
  · rw [hj'] at hstep
    cases hj : s.view id with
    | none =>
      rw [hj] at hstep
      obtain ⟨new, hcall, rfl⟩ := hstep.enqueue_of_none
      exact .inr ⟨new, hcall, view_id hj', hkind, hkey⟩
    | some j =>
      rw [hj] at hstep
      have hsame := hstep.identity
      simp only [JobRecord.identity, Prod.mk.injEq] at hsame
      refine .inl ⟨j, hj, hsame.2.1.symm.trans hkind, hsame.2.2.2.symm.trans hkey, fun hended => ?_⟩
      -- only a cleanup takes a step of a job that has ended, and it removes the job
      obtain ⟨criteria, hcall⟩ := hstep.of_terminal hended
      obtain ⟨env, c, reply⟩ := e
      obtain rfl : c = .cleanup criteria := hcall
      cases hstep

/-- Without a candidate nothing is pending under the key. -/
theorem not_pendingUnder {rank : Ulid → Nat} (h : s.dedupCandidate rank kind key = none) :
    ¬ PendingUnder kind key s id := by
  rintro ⟨j, hj, hcand⟩
  have hmem : j.row ∈ s.jobs.rows := Table.mem_of_find? (view_eq_some.mp hj).1
  have hin : j.row ∈ (s.jobs.scan rank).filter (JobRecord.dedupCandidate kind key) :=
    List.mem_filter.mpr ⟨Table.mem_scan.mpr hmem, hcand⟩
  rw [orderBy_head?_eq_none.mp h] at hin
  exact List.not_mem_nil hin

end Key

/-! ### What is left of a submission -/

/-- Code that inserts at most one job and writes nothing else. -/
inductive Inserting : Program Effect.Answer (Except Error Ulid) → Prop
  | done (r : Except Error Ulid) : Inserting (.ret r)
  | newUlid {k : Ulid → Program Effect.Answer (Except Error Ulid)} (h : ∀ id, Inserting (k id)) :
      Inserting (.op .newUlid k)
  | enqueue {new : NewJob} {k : Except Error Unit → Program Effect.Answer (Except Error Ulid)}
      (h : ∀ reply, ∃ r, k reply = .ret r) : Inserting (.op (.call (.enqueue new)) k)

/-- Code that merges into the candidate, and inserts only if the merge missed. -/
inductive Merging (candidate : Ulid) : Program Effect.Answer (Except Error Ulid) → Prop
  | done (r : Except Error Ulid) : Merging candidate (.ret r)
  | journal {id : Ulid}
      {k : Except Error (List JournalRecord) → Program Effect.Answer (Except Error Ulid)}
      (h : ∀ reply, Merging candidate (k reply)) : Merging candidate (.op (.call (.journal id)) k)
  | now {k : DateTime → Program Effect.Answer (Except Error Ulid)}
      (h : ∀ t, Merging candidate (k t)) : Merging candidate (.op .now k)
  | merge {update : Option MergePayload} {entry : JournalAppend}
      {k : Except Error Bool → Program Effect.Answer (Except Error Ulid)}
      (hmissed : Inserting (k (.ok false)))
      (hrest : ∀ reply, reply ≠ .ok false → ∃ r, k reply = .ret r) :
      Merging candidate (.op (.call (.mergeInto candidate update entry)) k)

section Shape

variable {T Carry : Type} {τ : Task T Carry} {task : T} {createdAt visibleAt : DateTime}

/-- A conversion leaves a program that only inserts one that only inserts. -/
theorem Inserting.json {α : Type} {x : Except String α} {f : α → StoreProgram Ulid}
    (h : ∀ a, Inserting (f a).run) : Inserting (StoreProgram.json x >>= f).run := by
  cases x with
  | error message => exact .done _
  | ok a => exact h a

/-- A conversion leaves a program that only merges one that only merges. -/
theorem Merging.json {α : Type} {candidate : Ulid} {x : Except String α} {f : α → StoreProgram Ulid}
    (h : ∀ a, Merging candidate (f a).run) :
    Merging candidate (StoreProgram.json x >>= f).run := by
  cases x with
  | error message => exact .done _
  | ok a => exact h a

/-- `insert` only inserts. -/
theorem inserting_insert {key : Option String} :
    Inserting (insert τ task createdAt visibleAt key).run := by
  rw [insert, run_newUlid_bind]
  refine .newUlid (fun id => .json (fun payload => .json (fun carry => ?_)))
  rw [run_call_bind]
  refine .enqueue (fun reply => ?_)
  rcases reply with e | u <;> exact ⟨_, rfl⟩

/-- `apply_merge` only merges into the candidate. -/
theorem merging_applyMerge {candidate : JobRecord} {update : Option MergePayload} {key : String} :
    Merging candidate.id (applyMerge τ candidate update task createdAt visibleAt key).run := by
  rw [applyMerge, run_now_bind]
  refine .now (fun now => ?_)
  rw [run_call_bind]
  refine .merge inserting_insert (fun reply hreply => ?_)
  rcases reply with e | _ | _
  · exact ⟨_, rfl⟩
  · exact absurd rfl hreply
  · exact ⟨_, rfl⟩

/-- So does `resolve`, unless the task wants another job of its own. -/
theorem merging_resolve {candidate : JobRecord} {pending : Pending T Carry} {key : String}
    (h : τ.merge task pending ≠ .independent) :
    Merging candidate.id (resolve τ task createdAt visibleAt key candidate pending).run := by
  unfold resolve
  cases hdecision : τ.merge task pending with
  | independent => exact absurd hdecision h
  | keep => exact merging_applyMerge
  | replace => exact .json (fun payload => .json (fun carry => merging_applyMerge))
  | «with» merged typed => exact .json (fun payload => .json (fun carry => merging_applyMerge))

/-- A submission goes on as its candidate read replied. -/
theorem submit_run {key : String} (hkey : τ.dedupKey task = some key)
    (hmerge : ∀ task pending, τ.merge task pending ≠ .independent) :
    ∃ k, (submit τ task createdAt visibleAt).run = .op (.call (.dedupCandidate τ.kind key)) k ∧
      (∀ e, k (.error e) = .ret (.error e)) ∧ Inserting (k (.ok none)) ∧
      ∀ candidate, Merging candidate.id (k (.ok (some candidate))) := by
  unfold submit
  rw [hkey]
  refine ⟨_, run_call_bind, fun e => rfl, inserting_insert, fun candidate => ?_⟩
  refine .json (fun payload => .json (fun carry => ?_))
  rw [run_call_bind]
  refine .journal (fun reply => ?_)
  rcases reply with e | entries
  · exact .done _
  · exact merging_resolve (hmerge task _)

end Shape

/-! ### The enqueues of one key, one at a time -/

/-- The store, and the enqueue of the key that is under way. -/
structure KeyState where
  store : PostgresStore
  active : Option (Program Effect.Answer (Except Error Ulid))

/-- A step. -/
inductive KeyLabel (T : Type) where
  /-- An enqueue of the key begins. -/
  | start (task : T) (createdAt visibleAt : DateTime)
  /-- It performs an operation. -/
  | own (env : Env) (act : Program.Act Effect.Answer)
  /-- It has returned, or is abandoned. -/
  | stop
  /-- Another party calls the store. -/
  | other (e : Event)

section System

variable {T Carry : Type} (τ : Task T Carry) (key : String)

/-- The steps of enqueues of the key that never overlap, among any store calls of others that
    insert no job of the key. -/
inductive KeyStep : KeyState → KeyLabel T → KeyState → Prop
  | start {s : PostgresStore} {task : T} {createdAt visibleAt : DateTime}
      (hkey : τ.dedupKey task = some key) :
      KeyStep ⟨s, none⟩ (.start task createdAt visibleAt)
        ⟨s, some (submit τ task createdAt visibleAt).run⟩
  | own {s s' : PostgresStore} {env : Env} {o : Effect}
      {k : o.Answer → Program Effect.Answer (Except Error Ulid)} {a : o.Answer}
      (hs : s.Performs env o a s') :
      KeyStep ⟨s, some (.op o k)⟩ (.own env ⟨o, a⟩) ⟨s', some (k a)⟩
  | stop {s : PostgresStore} {p : Program Effect.Answer (Except Error Ulid)} :
      KeyStep ⟨s, some p⟩ .stop ⟨s, none⟩
  | other {s s' : PostgresStore} {active : Option (Program Effect.Answer (Except Error Ulid))}
      {e : Event} (hs : s.Step e s')
      (hother : ∀ new, e.call = .enqueue new → new.kind = τ.kind → new.dedupKey ≠ some key) :
      KeyStep ⟨s, active⟩ (.other e) ⟨s', active⟩

/-! ### The phases of an enqueue -/

/-- How far the enqueue under way is. -/
inductive Phase where
  /-- It writes nothing any more, or there is none. -/
  | idle
  /-- It is going to read a candidate. -/
  | reading
  /-- It read this candidate and is going to merge into it. -/
  | deciding (candidate : Ulid)
  /-- It found no candidate, or the candidate no longer pending, and is going to insert. -/
  | inserting

namespace Phase

/-- The phase after an operation of the enqueue. -/
def perform : Phase → Program.Act Effect.Answer → Phase
  | _, ⟨.call (.dedupCandidate _ _), .ok none⟩ => .inserting
  | _, ⟨.call (.dedupCandidate _ _), .ok (some candidate)⟩ => .deciding candidate.id
  | _, ⟨.call (.dedupCandidate _ _), .error _⟩ => .idle
  | _, ⟨.call (.mergeInto _ _ _), .ok false⟩ => .inserting
  | _, ⟨.call (.mergeInto _ _ _), _⟩ => .idle
  | _, ⟨.call (.enqueue _), _⟩ => .idle
  | phase, _ => phase

/-- The phase after a step. -/
def next (phase : Phase) : KeyLabel T → Phase
  | .start .. => .reading
  | .own _ act => phase.perform act
  | .stop => .idle
  | .other _ => phase

end Phase

/-- How far the enqueue under way is, after a history. -/
def phase (tr : List (Move KeyState (KeyLabel T))) : Phase :=
  tr.foldl (fun phase m => phase.next m.label) .idle

theorem phase_snoc {tr : List (Move KeyState (KeyLabel T))} {m : Move KeyState (KeyLabel T)} :
    phase (tr ++ [m]) = (phase tr).next m.label := by
  simp [phase]

/-- No job of the key is claimed where the enqueue looks at its candidates: when it reads one,
    and when it merges into it. -/
def Clear (x : KeyState) : KeyLabel T → Prop
  | .own _ ⟨.call (.dedupCandidate _ _), _⟩ | .own _ ⟨.call (.mergeInto _ _ _), _⟩ =>
      ∀ id, ¬ ClaimedUnder τ.kind key x.store id
  | _ => True

/-- The runs of the enqueues of one key, one at a time, from the empty database. -/
abbrev KeyRun : List (Move KeyState (KeyLabel T)) → KeyState → Prop :=
  Run ⟨PostgresStore.empty, none⟩ (fun _ x label x' => KeyStep τ key x label x')

/-- The runs in which every step is clear. -/
abbrev ClearRun : List (Move KeyState (KeyLabel T)) → KeyState → Prop :=
  Run ⟨PostgresStore.empty, none⟩
    (fun _ x label x' => KeyStep τ key x label x' ∧ Clear τ key x label)

/-! ### The invariant -/

/-- At most one job of the key has not ended. -/
def OneLive (kind key : String) (s : PostgresStore) : Prop :=
  ∀ id id', LiveUnder kind key s id → LiveUnder kind key s id' → id = id'

/-- What holds of the enqueue under way, and of the store, in each phase. -/
def Phase.Holds (x : KeyState) : Phase → Prop
  | .idle => ∀ p ∈ x.active, ∃ r, p = .ret r
  | .reading => ∃ task createdAt visibleAt, τ.dedupKey task = some key ∧
      x.active = some (submit τ task createdAt visibleAt).run
  | .deciding candidate => (∃ p, x.active = some p ∧ Merging candidate p) ∧
      ∀ id, LiveUnder τ.kind key x.store id → id = candidate
  | .inserting => (∃ p, x.active = some p ∧ Inserting p) ∧
      ∀ id, ¬ LiveUnder τ.kind key x.store id

variable {τ key} {tr : List (Move KeyState (KeyLabel T))} {x x' : KeyState} {phase : Phase}
  {s s' : PostgresStore}

/-- A step of others keeps the invariant: it adds no live job of the key. -/
theorem Phase.Holds.other {e : Event} {active : Option (Program Effect.Answer (Except Error Ulid))}
    (hone : OneLive τ.kind key s) (hphase : phase.Holds τ key ⟨s, active⟩) (hs : s.Step e s')
    (hother : ∀ new, e.call = .enqueue new → new.kind = τ.kind → new.dedupKey ≠ some key) :
    OneLive τ.kind key s' ∧ phase.Holds τ key ⟨s', active⟩ := by
  have hfrom : ∀ id, LiveUnder τ.kind key s' id → LiveUnder τ.kind key s id := by
    intro id hid
    rcases hid.of_step hs with hbefore | ⟨new, hcall, -, hkind, hkey⟩
    · exact hbefore
    · exact absurd hkey (hother new hcall hkind)
  refine ⟨fun id id' hid hid' => hone id id' (hfrom id hid) (hfrom id' hid'), ?_⟩
  cases phase with
  | idle => exact hphase
  | reading => exact hphase
  | deciding candidate => exact ⟨hphase.1, fun id hid => hphase.2 id (hfrom id hid)⟩
  | inserting => exact ⟨hphase.1, fun id hid => hphase.2 id (hfrom id hid)⟩

/-- The invariant after the enqueue performed an operation. -/
abbrev Phase.HoldsAfter (phase : Phase) (o : Effect) (a : o.Answer)
    (k : o.Answer → Program Effect.Answer (Except Error Ulid)) (τ : Task T Carry) (key : String)
    (s' : PostgresStore) : Prop :=
  OneLive τ.kind key s' ∧ (phase.perform ⟨o, a⟩).Holds τ key ⟨s', some (k a)⟩

/-- Code that has returned keeps the invariant of an idle phase. -/
theorem Phase.Holds.idle {p : Program Effect.Answer (Except Error Ulid)}
    (h : ∃ r, p = .ret r) : Phase.idle.Holds τ key ⟨s, some p⟩ := by
  rintro _ ⟨⟩
  exact h

/-- The read of a candidate keeps the invariant, when no job of the key is claimed. -/
theorem Phase.Holds.read {env : Env}
    {k : Except Error (Option JobRecord) → Program Effect.Answer (Except Error Ulid)}
    {a : Except Error (Option JobRecord)} (hone : OneLive τ.kind key s)
    (hclear : ∀ id, ¬ ClaimedUnder τ.kind key s id)
    (hs : s.Performs env (.call (.dedupCandidate τ.kind key)) a s')
    (herr : ∀ e, k (.error e) = .ret (.error e)) (hnone : Inserting (k (.ok none)))
    (hsome : ∀ candidate, Merging candidate.id (k (.ok (some candidate)))) :
    phase.HoldsAfter (.call (.dedupCandidate τ.kind key)) a k τ key s' := by
  rcases a with e | _ | candidate
  · obtain rfl := hs.of_error
    exact ⟨hone, .idle ⟨_, herr e⟩⟩
  · -- neither a pending job of the key nor a claimed one
    obtain ⟨hreply, rfl⟩ := Prod.mk.inj hs.of_ok
    refine ⟨hone, ⟨_, rfl, hnone⟩, fun id hid => ?_⟩
    rcases hid.pending_or_claimed with hpending | hclaimed
    · exact not_pendingUnder (Except.ok.inj hreply) hpending
    · exact hclear id hclaimed
  · obtain ⟨hreply, rfl⟩ := Prod.mk.inj hs.of_ok
    obtain ⟨hstored, hcand, -⟩ := dedupCandidate_cases (Except.ok.inj hreply)
    refine ⟨hone, ⟨_, rfl, hsome candidate⟩, fun id hid => hone _ _ hid ?_⟩
    exact PendingUnder.live ⟨_, hstored, hcand⟩

/-- An operation of a submission that is going to merge keeps the invariant, when no job of the
    key is claimed at the merge. -/
theorem Phase.Holds.merging {env : Env} {o : Effect} {a : o.Answer}
    {k : o.Answer → Program Effect.Answer (Except Error Ulid)} {candidate : Ulid}
    (hone : OneLive τ.kind key s) (hs : s.Performs env o a s') (hp : Merging candidate (.op o k))
    (hclear : Clear (T := T) τ key ⟨s, some (.op o k)⟩ (.own env ⟨o, a⟩))
    (hlast : ∀ id, LiveUnder τ.kind key s id → id = candidate) :
    (Phase.deciding candidate).HoldsAfter o a k τ key s' := by
  cases hp with
  | journal h =>
    have hsame : s' = s := by
      rcases a with e | entries
      · exact hs.of_error
      · exact (Prod.mk.inj hs.of_ok).2.symm
    subst hsame
    exact ⟨hone, ⟨_, rfl, h a⟩, hlast⟩
  | now h =>
    obtain rfl := hs.of_now
    exact ⟨hone, ⟨_, rfl, h a⟩, hlast⟩
  | @merge update entry k hmissed hrest =>
    rcases a with e | _ | _
    · obtain rfl := hs.of_error
      exact ⟨hone, .idle (hrest _ nofun)⟩
    · -- the candidate was the last live job, and it is neither pending any more nor claimed
      rcases commit_eq hs.of_ok with ⟨_, hok, hreply⟩ | ⟨_, -, herr, -⟩
      · cases hreply
        rcases mergeInto_cases hok with ⟨-, rfl, hmiss⟩ | ⟨htrue, -⟩
        · refine ⟨hone, ⟨_, rfl, hmissed⟩, fun id hid => ?_⟩
          obtain rfl := hlast id hid
          rcases hid.pending_or_claimed with ⟨j, hj, hcand⟩ | hclaimed
          · have hpending := (JobRecord.dedupCandidate_iff.mp hcand).2.2
            exact hmiss j hj (JobRecord.mergeable_iff.mpr ⟨view_id hj, hpending⟩)
          · exact hclear id hclaimed
        · cases htrue
      · cases herr
    · -- a merge inserts no job
      refine ⟨fun id id' hid hid' => ?_, .idle (hrest _ nofun)⟩
      have hbefore : ∀ i, LiveUnder τ.kind key s' i → LiveUnder τ.kind key s i := by
        intro i hi
        rcases hi.of_step hs.of_ok with h | ⟨new, hcall, -⟩
        · exact h
        · cases hcall
      exact hone id id' (hbefore id hid) (hbefore id' hid')

/-- An operation of a submission that is going to insert keeps the invariant. -/
theorem Phase.Holds.inserting {env : Env} {o : Effect} {a : o.Answer}
    {k : o.Answer → Program Effect.Answer (Except Error Ulid)} (hone : OneLive τ.kind key s)
    (hs : s.Performs env o a s') (hp : Inserting (.op o k))
    (hnone : ∀ id, ¬ LiveUnder τ.kind key s id) :
    Phase.inserting.HoldsAfter o a k τ key s' := by
  cases hp with
  | newUlid h =>
    obtain rfl := hs.of_newUlid
    exact ⟨hone, ⟨_, rfl, h a⟩, hnone⟩
  | @enqueue new k h =>
    refine ⟨?_, .idle (h a)⟩
    rcases a with e | u
    · obtain rfl := hs.of_error
      exact hone
    · -- the inserted job is the only one
      have hnew : ∀ i, LiveUnder τ.kind key s' i → new.id = i := by
        intro i hi
        rcases hi.of_step hs.of_ok with h | ⟨new', hcall, hid, -⟩
        · exact absurd h (hnone i)
        · cases hcall
          exact hid
      exact fun id id' hid hid' => (hnew id hid).symm.trans (hnew id' hid')

/-- **Every clear step keeps the invariant.** -/
theorem Phase.Holds.step {label : KeyLabel T} (hone : OneLive τ.kind key x.store)
    (hphase : phase.Holds τ key x) (hmerge : ∀ task pending, τ.merge task pending ≠ .independent)
    (hs : KeyStep τ key x label x') (hclear : Clear τ key x label) :
    OneLive τ.kind key x'.store ∧ (phase.next label).Holds τ key x' := by
  cases hs with
  | @start s task createdAt visibleAt hkey =>
    exact ⟨hone, task, createdAt, visibleAt, hkey, rfl⟩
  | stop => exact ⟨hone, nofun⟩
  | other hs hother => exact hphase.other hone hs hother
  | @own s s' env o k a hs =>
    cases phase with
    | idle =>
      obtain ⟨r, hr⟩ := hphase _ rfl
      cases hr
    | reading =>
      obtain ⟨task, createdAt, visibleAt, hkey, hactive⟩ := hphase
      obtain ⟨k₀, hrun, herr, hnone, hsome⟩ :=
        @submit_run T Carry τ task createdAt visibleAt key hkey hmerge
      have hop := (Option.some.inj hactive).trans hrun
      cases hop
      exact Phase.Holds.read hone hclear hs herr hnone hsome
    | deciding candidate =>
      obtain ⟨⟨p, hp, hmerging⟩, hlast⟩ := hphase
      obtain rfl := Option.some.inj hp
      exact Phase.Holds.merging hone hs hmerging hclear hlast
    | inserting =>
      obtain ⟨⟨p, hp, hinserting⟩, hnone⟩ := hphase
      obtain rfl := Option.some.inj hp
      exact Phase.Holds.inserting hone hs hinserting hnone

/-- **At most one job of the key has not ended**, in every clear run. -/
theorem oneLive_of_run (hmerge : ∀ task pending, τ.merge task pending ≠ .independent)
    (h : ClearRun τ key tr x) : OneLive τ.kind key x.store := by
  have hinv : OneLive τ.kind key x.store ∧ (Queue.phase tr).Holds τ key x := by
    refine Run.invariant (I := fun tr x => OneLive τ.kind key x.store ∧
      (Queue.phase tr).Holds τ key x) ?_ ?_ h
    · refine ⟨fun id _ hid _ => ?_, nofun⟩
      obtain ⟨j, hj, -⟩ := hid
      cases hj
    · intro tr x label x' _ hinv hs
      rw [phase_snoc]
      exact hinv.2.step hinv.1 hmerge hs.1 hs.2
  exact hinv.1

/-- **Deduplication keeps at most one pending job per key**, in every run of enqueues of the
    key that do not overlap, whatever workers do, as long as no job of the key is claimed when
    an enqueue of the key reads its candidate or merges into it. -/
theorem coalesced (hmerge : ∀ task pending, τ.merge task pending ≠ .independent)
    (h : ClearRun τ key tr x) : AtMostOne τ.kind key x.store :=
  fun id id' hid hid' => oneLive_of_run hmerge h id id' hid.live hid'.live

/-! ### A sibling that returns -/

/-- A whole enqueue that nobody else steps into, as a stretch of a run whose own steps `P`
    holds of. -/
theorem exec_run {P : KeyState → KeyLabel T → Prop}
    {p q : Program Effect.Answer (Except Error Ulid)} {turns : List StoreTurn}
    (hexec : Exec p s turns q s') (hsolo : Solo turns)
    (hP : ∀ t ∈ turns, ∀ active env act, P ⟨t.before, active⟩ (.own env act))
    (h : Run ⟨PostgresStore.empty, none⟩ (fun _ x l x' => KeyStep τ key x l x' ∧ P x l) tr
      ⟨s, some p⟩) :
    ∃ tr', Run ⟨PostgresStore.empty, none⟩ (fun _ x l x' => KeyStep τ key x l x' ∧ P x l) tr'
      ⟨s', some q⟩ := by
  induction hexec generalizing tr with
  | done => exact ⟨tr, h⟩
  | own hs _ ih =>
    obtain ⟨hfirst, hrest⟩ := List.forall_mem_cons.mp hP
    exact ih (fun t ht => hsolo t (List.mem_cons_of_mem _ ht)) hrest
      (h.snoc ⟨.own hs, hfirst _ _ _⟩)
  | other => exact absurd (hsolo _ List.mem_cons_self) Bool.false_ne_true

/-- Where no row is claimed, every step is clear. -/
theorem clear_of_rows {label : KeyLabel T} (h : ∀ r ∈ x.store.jobs.rows, r.status ≠ .claimed) :
    Clear τ key x label := by
  have hnone : ∀ id, ¬ ClaimedUnder τ.kind key x.store id := by
    rintro id ⟨j, hj, -, -, hclaimed⟩
    exact h j.row (Table.mem_of_find? (view_eq_some.mp hj).1) hclaimed
  unfold Clear
  split
  · exact hnone
  · exact hnone
  · trivial

/-- A whole enqueue in one go, with no job claimed meanwhile. -/
theorem ClearRun.submit (task : T) (createdAt visibleAt : DateTime)
    (hkey : τ.dedupKey task = some key) (env : Env) (id : Ulid) (h : ClearRun τ key tr ⟨s, none⟩)
    (hrows : ∀ t ∈ ((Queue.submit τ task createdAt visibleAt).amid env id [] s).1,
      ∀ r ∈ t.before.jobs.rows, r.status ≠ .claimed) :
    ∃ tr', ClearRun τ key tr'
      ⟨((Queue.submit τ task createdAt visibleAt).amid env id [] s).2.2, none⟩ := by
  obtain ⟨tr', h'⟩ := exec_run (exec_amid (Queue.submit τ task createdAt visibleAt) env id [] s)
    (Program.amid_solo _ _) (fun t ht _ _ _ => clear_of_rows (hrows t ht))
    (h.snoc ⟨.start hkey, trivial⟩)
  exact ⟨_, h'.snoc ⟨.stop, trivial⟩⟩

/-- The same among any claims. -/
theorem KeyRun.submit (task : T) (createdAt visibleAt : DateTime)
    (hkey : τ.dedupKey task = some key) (env : Env) (id : Ulid) (h : KeyRun τ key tr ⟨s, none⟩) :
    ∃ tr', KeyRun τ key tr'
      ⟨((Queue.submit τ task createdAt visibleAt).amid env id [] s).2.2, none⟩ := by
  obtain ⟨tr', h'⟩ := exec_run (P := fun _ _ => True)
    (exec_amid (Queue.submit τ task createdAt visibleAt) env id [] s) (Program.amid_solo _ _)
    (fun _ _ _ _ _ => trivial)
    ((h.snoc (.start hkey)).mono fun _ _ _ _ hs => ⟨hs, trivial⟩)
  exact ⟨_, (h'.mono fun _ _ _ _ hs => hs.1).snoc .stop⟩

end System

/-- A job is enqueued, … -/
def firstEnqueued : PostgresStore :=
  ((submit sampleTask (.json "1") 0 0).amid (.ofNow 0) 0 [] empty).2.2

/-- … and claimed; … -/
def firstClaimed : PostgresStore :=
  (firstEnqueued.react (.ofNow 0, .claimNext ["feed"] 0 10 "w")).2

/-- … its handler fails, and it is put back. -/
def firstRetry : Env × Call :=
  (.ofNow 1, .settle 0 "w" 1 (.retry 5 1 .null) (sampleEntry 1 .retried))

/-- The first job of the key is enqueued and claimed in a clear run. -/
theorem firstClaimed_run : ∃ tr, ClearRun sampleTask "k" tr ⟨firstClaimed, none⟩ := by
  have hstart : ClearRun sampleTask "k" [] ⟨empty, none⟩ := .start
  obtain ⟨tr, h⟩ := hstart.submit (.json "1") 0 0 rfl (.ofNow 0) 0 (by decide)
  exact ⟨_, h.snoc ⟨.other (step_react firstEnqueued (.ofNow 0, .claimNext ["feed"] 0 10 "w"))
    nofun, trivial⟩⟩

/-- The job that was put back, and the enqueue that finds it. -/
def secondMerged : PostgresStore :=
  ((submit sampleTask (.json "2") 2 2).amid (.ofNow 2) 1 [] (firstClaimed.react firstRetry).2).2.2

/-- After the second submission one job of the key is pending. -/
theorem coalesced_secondMerged : AtMostOne "feed" "k" secondMerged := by
  obtain ⟨tr, h⟩ := firstClaimed_run
  have hretry : ClearRun sampleTask "k" _ ⟨(firstClaimed.react firstRetry).2, none⟩ :=
    h.snoc ⟨.other (step_react firstClaimed firstRetry) nofun, trivial⟩
  obtain ⟨tr', h'⟩ := hretry.submit (.json "2") 2 2 rfl (.ofNow 2) 1 (by decide)
  have hmerge : ∀ task pending, sampleTask.merge task pending ≠ .independent := by
    intro task pending hind
    cases hind
  exact coalesced hmerge h'

/-- While the first job runs, a second one is enqueued under its key. -/
def secondEnqueued : PostgresStore :=
  ((submit sampleTask (.json "2") 1 1).amid (.ofNow 1) 1 [] firstClaimed).2.2

/-- **Two pending jobs of one key.** The second enqueue finds no pending job and inserts; then
    the first job is retried. -/
theorem siblings_pending : ¬ ∀ (tr : List (Move KeyState (KeyLabel Value))) (x : KeyState),
    KeyRun sampleTask "k" tr x → AtMostOne "feed" "k" x.store := by
  intro h
  obtain ⟨tr, hclear⟩ := firstClaimed_run
  have hrun : KeyRun sampleTask "k" tr ⟨firstClaimed, none⟩ := hclear.mono fun _ _ _ _ hs => hs.1
  obtain ⟨tr', hkey⟩ := hrun.submit (.json "2") 1 1 rfl (.ofNow 1) 1
  have hretry : KeyRun sampleTask "k" _ ⟨(secondEnqueued.react firstRetry).2, none⟩ :=
    hkey.snoc (.other (step_react secondEnqueued firstRetry) nofun)
  have hfirst : PendingUnder "feed" "k" (secondEnqueued.react firstRetry).2 0 :=
    ⟨_, rfl, by decide⟩
  have hsecond : PendingUnder "feed" "k" (secondEnqueued.react firstRetry).2 1 :=
    ⟨_, rfl, by decide⟩
  exact absurd (h _ _ hretry 0 1 hfirst hsecond) (by decide)

end Queue

end Venturi
