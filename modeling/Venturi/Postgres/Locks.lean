import Venturi.Collections.Map
import Venturi.Postgres.Visible

namespace Venturi

open Collections Sql PostgresStore

/-!
# Row locks (`postgres/mod.rs`)

The transactions of the adapter that take more than one statement hold the lock of a row from
their first statement to their commit.

* `Call.locks` — the row the guarded statement of a call matches.
* `PostgresStore.claimNextSkipping` — `claim_next` while others hold locks: the rows they hold
  are skipped.
* `Database` — the committed store, the transactions under way, and whether a wakeup waits at
  the listener of the worker.
* `Database.Step` — a transaction begins, commits or is rolled back; a call that finds its row
  free runs as a whole.  A `NOTIFY` arrives with the commit that issues it.
* `Database.Step.quiet` — what becomes due is announced.
-/

/-! ### What a call locks -/

/-- The row a guarded statement matches, if it matches one. -/
def PostgresStore.matched (s : PostgresStore) (id : Ulid) (guard : JobRecord → Bool) :
    Option Ulid :=
  if (s.jobs.find? id).any guard then some id else none

/-- The row whose lock the transaction of a call holds; one that is inserted is not there for
    others until the commit. -/
def Call.locks (s : PostgresStore) (now : DateTime) : Call → Option Ulid
  | .settle id claimedBy runNo _ _ => s.matched id (JobRecord.owned id claimedBy runNo)
  | .recover id _ _ runNo _ => s.matched id (JobRecord.recoverable id runNo now)
  | .extendLease id claimedBy runNo _ => s.matched id (JobRecord.owned id claimedBy runNo)
  | .mergeInto id _ _ => s.matched id (JobRecord.mergeable id)
  | _ => none

/-- The calls that take more than one statement. -/
def Call.transaction : Call → Bool
  | .enqueue _ | .settle .. | .recover .. | .mergeInto .. => true
  | _ => false

/-- `merge_into`. -/
def Call.merges : Call → Bool
  | .mergeInto .. => true
  | _ => false

/-! ### Claiming past the locks -/

namespace PostgresStore

/-- What `claim_next` does with the candidates it read. -/
def claimFirst (s : PostgresStore) (candidates : List JobRecord) (now : DateTime)
    (lease : Duration) (claimedBy : String) : Except Error (Option JobRecord × PostgresStore) := do
  match (orderBy (fun r => toLex (r.priority, r.createdAt)) candidates).head? with
  | none => return (none, s)
  | some r =>
    let expires := now + lease
    if r.runCount + 1 ≤ i32Max then
      let (_, s) ← s.updateJobs (fun r' => r'.id = r.id) (fun r' => r'.claim claimedBy expires)
        (JobRecord.claim_id claimedBy expires)
      return (some (r.claim claimedBy expires), s)
    else
      throw (.database .numericValueOutOfRange)

/-- `PostgresStore::claim_next` while the rows of `locked` are held by others: `FOR UPDATE SKIP
    LOCKED`. -/
def claimNextSkipping (s : PostgresStore) (locked : Ulid → Bool) (now : DateTime)
    (rank : Ulid → Nat) (kinds : List String) (priorityFloor : Int) (lease : Duration)
    (claimedBy : String) : Except Error (Option JobRecord × PostgresStore) :=
  let eligible := (s.jobs.scan rank).filter (fun r =>
    r.eligible kinds priorityFloor now && !locked r.id)
  s.claimFirst eligible now lease claimedBy

section Claim

variable {s s' : PostgresStore} {locked : Ulid → Bool} {now : DateTime} {rank : Ulid → Nat}
  {kinds : List String} {floor : Int} {lease : Duration} {claimedBy : String}
  {candidates : List JobRecord}

/-- With no row locked it is `claim_next`. -/
theorem claimNextSkipping_free :
    s.claimNextSkipping (fun _ => false) now rank kinds floor lease claimedBy =
      s.claimNext now rank kinds floor lease claimedBy := by
  have hall : (fun r => JobRecord.eligible kinds floor now r && !false) =
      JobRecord.eligible kinds floor now := by
    funext r
    rw [Bool.not_false, Bool.and_true]
  rw [claimNextSkipping, hall]
  rfl

/-- **The first of the candidates**, if there is one, is stamped, or its run count is
    exhausted. -/
theorem claimFirst_cases (now : DateTime) (lease : Duration) (claimedBy : String)
    (hrows : ∀ r ∈ candidates, r ∈ s.jobs.rows) :
    (candidates = [] ∧ s.claimFirst candidates now lease claimedBy = .ok (none, s)) ∨
    ∃ r, (orderBy (fun r => toLex (r.priority, r.createdAt)) candidates).head? = some r ∧
      ((r.runCount < i32Max ∧ ∃ s', s'.view = Function.update s.view r.id
          (some ⟨r.claim claimedBy (now + lease), s.journalOf r.id⟩) ∧
        s.claimFirst candidates now lease claimedBy =
          .ok (some (r.claim claimedBy (now + lease)), s')) ∨
      (i32Max ≤ r.runCount ∧ ∃ e, s.claimFirst candidates now lease claimedBy = .error e)) := by
  unfold claimFirst
  cases hhead : (orderBy (fun r => toLex (r.priority, r.createdAt)) candidates).head? with
  | none => exact .inl ⟨orderBy_head?_eq_none.mp hhead, rfl⟩
  | some r =>
    obtain ⟨hr, -⟩ := orderBy_head?_eq_some hhead
    refine .inr ⟨r, rfl, ?_⟩
    by_cases hmax : r.runCount + 1 ≤ i32Max
    · -- the update hits the candidate, and a claim keeps its tier
      have hrow : s.jobs.find? r.id = some r := Table.find?_key (hrows r hr)
      have hjob : s.view r.id = some ⟨r, s.journalOf r.id⟩ := view_eq_some.mpr ⟨hrow, rfl⟩
      have hself : ∀ r' : JobRecord, decide (r'.id = r.id) = true → r'.id = r.id := by simp
      refine .inl ⟨hmax, ?_⟩
      rcases updateJobs_hit (fun r' => r'.claim claimedBy (now + lease))
        (JobRecord.claim_id claimedBy (now + lease)) hself hjob (by simp) with
        ⟨htier, -⟩ | ⟨-, k, s', -, hok, hview⟩
      · exact absurd (s.tiers r (hrows r hr)) htier
      · refine ⟨s', hview, ?_⟩
        simp only [hmax, if_true, hok]
        rfl
    · refine .inr ⟨by omega, .database .numericValueOutOfRange, ?_⟩
      simp only [hmax, if_false]
      rfl

/-- **`claim_next` past the locks**: nothing is eligible but rows that are locked, or an
    eligible row that is not locked is claimed, or its run count is exhausted. -/
theorem claimNextSkipping_cases (s : PostgresStore) (locked : Ulid → Bool) (now : DateTime)
    (rank : Ulid → Nat) (kinds : List String) (floor : Int) (lease : Duration)
    (claimedBy : String) :
    (s.claimNextSkipping locked now rank kinds floor lease claimedBy = .ok (none, s) ∧
      ∀ id job, s.view id = some job → job.row.eligible kinds floor now → locked id) ∨
    ∃ id job, s.view id = some job ∧ job.row.eligible kinds floor now ∧ locked id = false ∧
      ((∃ s', s.claimNextSkipping locked now rank kinds floor lease claimedBy =
          .ok (some (job.row.claim claimedBy (now + lease)), s') ∧
        s'.view = Function.update s.view id
          (some ⟨job.row.claim claimedBy (now + lease), job.log⟩)) ∨
      (i32Max ≤ job.row.runCount ∧
        ∃ e, s.claimNextSkipping locked now rank kinds floor lease claimedBy = .error e)) := by
  have hrows : ∀ r ∈ (s.jobs.scan rank).filter
      (fun r => r.eligible kinds floor now && !locked r.id), r ∈ s.jobs.rows :=
    fun r hr => Table.mem_scan.mp (List.mem_of_mem_filter hr)
  rcases claimFirst_cases now lease claimedBy hrows with
    ⟨hempty, hnone⟩ | ⟨r, hhead, hcases⟩
  · refine .inl ⟨hnone, fun id job hjob heligible => ?_⟩
    by_contra hfree
    have hmem : job.row ∈ (s.jobs.scan rank).filter
        (fun r => r.eligible kinds floor now && !locked r.id) := by
      refine List.mem_filter.mpr ⟨Table.mem_scan.mpr ?_, ?_⟩
      · exact Table.mem_of_find? (view_eq_some.mp hjob).1
      · rw [view_id hjob, heligible]
        simpa using hfree
    rw [hempty] at hmem
    exact absurd hmem List.not_mem_nil
  · obtain ⟨hr, -⟩ := orderBy_head?_eq_some hhead
    have hview : s.view r.id = some ⟨r, s.journalOf r.id⟩ :=
      view_eq_some.mpr ⟨Table.find?_key (hrows r hr), rfl⟩
    have hfits := (List.mem_filter.mp hr).2
    rw [Bool.and_eq_true, Bool.not_eq_true'] at hfits
    refine .inr ⟨r.id, _, hview, hfits.1, hfits.2, ?_⟩
    rcases hcases with ⟨-, s', hview', hok⟩ | ⟨hmax, e, herr⟩
    · exact .inl ⟨s', hok, hview'⟩
    · exact .inr ⟨hmax, e, herr⟩

/-- A claim past the locks makes no job due. -/
theorem due_of_claimNextSkipping {o : Option JobRecord} {kinds' : List String} {t : DateTime}
    (h : s.claimNextSkipping locked now rank kinds floor lease claimedBy = .ok (o, s'))
    (hdue : s'.Due kinds' t) : s.Due kinds' t := by
  rcases claimNextSkipping_cases s locked now rank kinds floor lease claimedBy with
    ⟨hnone, -⟩ | ⟨id, job, -, -, -, ⟨s₁, hok, hview⟩ | ⟨-, e, herr⟩⟩
  · rw [hnone] at h
    obtain ⟨-, rfl⟩ := Prod.mk.inj (Except.ok.inj h)
    exact hdue
  · rw [hok] at h
    obtain ⟨-, rfl⟩ := Prod.mk.inj (Except.ok.inj h)
    obtain ⟨id', j, hj, hpending, hkind, ht⟩ := hdue
    rw [hview, Function.update_apply] at hj
    split at hj
    · -- the claimed row is not pending
      obtain rfl := Option.some.inj hj
      cases hpending
    · exact ⟨id', j, hj, hpending, hkind, ht⟩
  · rw [herr] at h
    cases h

end Claim

end PostgresStore

/-! ### The database under locks -/

/-- A transaction under way: the call it runs, and the row it holds. -/
structure Tx where
  env : Env
  call : Call
  row : Option Ulid

/-- The committed store, the transactions under way by session, and whether a wakeup waits at
    the listener. -/
structure Database where
  store : PostgresStore
  held : Map Nat Tx
  wakeup : Bool

/-- What happens at the database. -/
inductive DatabaseLabel where
  /-- A call runs as a whole. -/
  | call (e : Event)
  /-- A transaction executed its first statement. -/
  | begin (session : Nat) (tx : Tx)
  | commit (session : Nat) (tx : Tx) (reply : Except Error tx.call.Answer)
  | rollback (session : Nat)

namespace Database

/-- Whether a transaction under way holds the row. -/
def locked (d : Database) (id : Ulid) : Bool := d.held.values.any (fun tx => tx.row = some id)

/-- Execute a call as a whole: a claim skips what is locked. -/
def exec (d : Database) (env : Env) : (c : Call) → Except Error c.Answer × PostgresStore
  | .claimNext kinds floor lease claimedBy =>
      d.store.commit (d.store.claimNextSkipping d.locked env.now env.rank kinds floor lease
        claimedBy)
  | c => d.store.exec env c

/-- One step of the database.  A call that changes a locked job waits.  A transaction's row is
    its own until it commits, so what it does to the row is what its call does then; one that
    matched no row is over at once, as a whole call. -/
inductive Step (d : Database) : DatabaseLabel → Database → Prop
  | call {e : Event} {s' : PostgresStore} (h : d.exec e.env e.call = (e.reply, s'))
      (hfree : ∀ id, d.locked id → s'.view id = d.store.view id) :
      Step d (.call e) { d with store := s', wakeup := d.wakeup || e.notifies }
  | begin {session : Nat} {tx : Tx} (htx : tx.call.transaction)
      (hnew : session ∉ d.held) (hrow : tx.row = tx.call.locks d.store tx.env.now)
      (hholds : tx.row.isSome ∨ tx.call.enqueues.isSome) (hfree : ∀ id ∈ tx.row, ¬ d.locked id) :
      Step d (.begin session tx) { d with held := d.held.insert session tx }
  | commit {session : Nat} {tx : Tx} {reply : Except Error tx.call.Answer} {s' : PostgresStore}
      (htx : d.held.lookup session = some tx) (h : d.store.Step ⟨tx.env, tx.call, reply⟩ s') :
      Step d (.commit session tx reply)
        ⟨s', d.held.erase session, d.wakeup || Event.notifies ⟨tx.env, tx.call, reply⟩⟩
  | rollback {session : Nat} {tx : Tx} (htx : d.held.lookup session = some tx) :
      Step d (.rollback session) { d with held := d.held.erase session }

variable {d d' : Database} {l : DatabaseLabel} {env : Env}

/-- With no transaction under way a call is executed as on the store. -/
theorem exec_of_free (h : d.held = ∅) (c : Call) : d.exec env c = d.store.exec env c := by
  cases c with
  | claimNext kinds floor lease claimedBy =>
    have hlocked : d.locked = fun _ => false := by
      funext id
      rw [locked, h]
      rfl
    rw [exec, hlocked, claimNextSkipping_free]
    rfl
  | _ => rfl

/-- **A claim past the locks** found nothing but locked rows, claimed one that is not locked,
    or failed on one whose run count is exhausted. -/
theorem exec_claimNext_cases {kinds : List String} {floor : Int} {lease : Duration}
    {claimedBy : String} {reply : Except Error (Option JobRecord)} {s' : PostgresStore}
    (h : d.exec env (.claimNext kinds floor lease claimedBy) = (reply, s')) :
    (reply = .ok none ∧ ∀ id j, d.store.view id = some j → j.row.eligible kinds floor env.now →
      d.locked id) ∨
    ∃ id j, d.store.view id = some j ∧ j.row.eligible kinds floor env.now ∧ d.locked id = false ∧
      ((∃ r, reply = .ok (some r)) ∨ ((∃ e, reply = .error e) ∧ i32Max ≤ j.row.runCount)) := by
  rw [exec] at h
  rcases claimNextSkipping_cases d.store d.locked env.now env.rank kinds floor lease claimedBy with
    ⟨hnone, hlocked⟩ | ⟨id, j, hj, heligible, hfree, ⟨s₁, hok, -⟩ | ⟨hmax, e, herr⟩⟩
  · rw [hnone] at h
    exact .inl ⟨(Prod.mk.inj h).1.symm, hlocked⟩
  · rw [hok] at h
    exact .inr ⟨id, j, hj, heligible, hfree, .inl ⟨_, (Prod.mk.inj h).1.symm⟩⟩
  · rw [herr] at h
    exact .inr ⟨id, j, hj, heligible, hfree, .inr ⟨⟨e, (Prod.mk.inj h).1.symm⟩, hmax⟩⟩

/-- A whole call that announces nothing makes no job due. -/
theorem due_of_exec {e : Event} {s' : PostgresStore} {kinds : List String} {t : DateTime}
    (h : d.exec e.env e.call = (e.reply, s')) (hsilent : e.notifies = false)
    (hdue : s'.Due kinds t) : d.store.Due kinds t := by
  obtain ⟨env, c, reply⟩ := e
  cases c with
  | claimNext kinds' floor lease claimedBy =>
    rcases commit_eq h with ⟨o, hok, -⟩ | ⟨_, -, -, rfl⟩
    · exact due_of_claimNextSkipping hok hdue
    · exact hdue
  | _ => exact PostgresStore.Step.due_of_silent (e := ⟨env, _, reply⟩) h hsilent hdue

/-- **What becomes due is announced**: after a step that leaves no wakeup, everything due was
    due before, and no wakeup was there. -/
theorem Step.quiet (h : d.Step l d') (hwakeup : d'.wakeup = false) :
    d.wakeup = false ∧ ∀ kinds t, d'.store.Due kinds t → d.store.Due kinds t := by
  cases h with
  | call hexec =>
    obtain ⟨hbefore, hsilent⟩ := Bool.or_eq_false_iff.mp hwakeup
    exact ⟨hbefore, fun _ _ => due_of_exec hexec hsilent⟩
  | begin => exact ⟨hwakeup, fun _ _ hdue => hdue⟩
  | commit _ hstep =>
    obtain ⟨hbefore, hsilent⟩ := Bool.or_eq_false_iff.mp hwakeup
    exact ⟨hbefore, fun _ _ => hstep.due_of_silent hsilent⟩
  | rollback => exact ⟨hwakeup, fun _ _ hdue => hdue⟩

/-! ### What a transaction holds until its commit -/

/-- Every transaction under way matches the row it holds, and holds it alone. -/
structure Sound (d : Database) : Prop where
  matched : ∀ {session tx}, d.held.lookup session = some tx →
    tx.row = tx.call.locks d.store tx.env.now
  alone : ∀ {session session' tx tx' id}, d.held.lookup session = some tx →
    d.held.lookup session' = some tx' → tx.row = some id → tx'.row = some id → session = session'
  transaction : ∀ {session tx}, d.held.lookup session = some tx → tx.call.transaction
  holds : ∀ {session tx}, d.held.lookup session = some tx →
    tx.row.isSome ∨ tx.call.enqueues.isSome

/-- A row is locked exactly if a transaction in progress has written it. -/
theorem locked_iff {id : Ulid} :
    d.locked id ↔ ∃ session tx, d.held.lookup session = some tx ∧ tx.row = some id := by
  rw [locked, List.any_eq_true]
  constructor
  · rintro ⟨tx, hmem, hrow⟩
    obtain ⟨session, htx⟩ := Map.mem_values.mp hmem
    exact ⟨session, tx, htx, of_decide_eq_true hrow⟩
  · rintro ⟨session, tx, htx, hrow⟩
    exact ⟨tx, Map.mem_values.mpr ⟨session, htx⟩, decide_eq_true hrow⟩

end Database

section Locks

variable {s s' : PostgresStore} {id id' : Ulid} {c : Call} {now : DateTime}

/-- A guarded write matches the row under its id, if the guard holds there. -/
theorem PostgresStore.matched_eq_some {guard : JobRecord → Bool} :
    s.matched id guard = some id' ↔ id = id' ∧ ∃ j, s.view id' = some j ∧ guard j.row := by
  rw [matched, view]
  cases hfind : s.jobs.find? id with
  | none =>
    simp only [Option.any_none, Bool.false_eq_true, if_false, reduceCtorEq, false_iff]
    rintro ⟨rfl, j, hj, -⟩
    simp [hfind] at hj
  | some r =>
    simp only [Option.any_some]
    constructor
    · intro h
      split at h
      · rename_i hguard
        obtain rfl := Option.some.inj h
        exact ⟨rfl, ⟨r, s.journalOf id⟩, by rw [hfind]; rfl, hguard⟩
      · cases h
    · rintro ⟨rfl, j, hj, hguard⟩
      rw [hfind] at hj
      obtain rfl := Option.some.inj hj
      rw [if_pos hguard]

/-- What a call locks depends on the job it locks only. -/
theorem Call.locks_congr (h : c.locks s now = some id) (hview : s'.view id = s.view id) :
    c.locks s' now = some id := by
  cases c with
  | settle | recover | extendLease | mergeInto =>
    obtain ⟨rfl, j, hj, hguard⟩ := matched_eq_some.mp h
    exact matched_eq_some.mpr ⟨rfl, j, hview.trans hj, hguard⟩
  | _ => cases h

/-- A transaction changes no stored job but the one it locks. -/
theorem PostgresStore.Step.view_of_locks {env : Env} {reply : Except Error c.Answer}
    (h : s.Step ⟨env, c, reply⟩ s') (hc : c.transaction) {j : Job} (hj : s.view id = some j)
    (hlock : c.locks s env.now ≠ some id) : s'.view id = s.view id := by
  rcases exec_view h id with ⟨hview, -⟩ | hstep
  · exact hview
  · refine absurd ?_ hlock
    have hid := view_id hj
    rw [hj] at hstep
    have hguarded {guard : JobRecord → Bool} (hguard : guard j.row) :
        s.matched j.row.id guard = some id := matched_eq_some.mpr ⟨hid, j, hj, hguard⟩
    generalize Event.mark id ⟨env, c, reply⟩ = mark at hstep
    generalize s'.view id = job' at hstep
    clear h
    cases hstep with
    | settle howned => exact hguarded howned
    | recover hstale => exact hguarded (JobRecord.recoverable_iff.mpr ⟨rfl, hstale, rfl⟩)
    | merge hpending => exact hguarded (JobRecord.mergeable_iff.mpr ⟨rfl, hpending⟩)
    | claim | extendLease | cleanup => cases hc

/-- What a call locks is stored. -/
theorem Call.view_of_locks (h : c.locks s now = some id) : ∃ j, s.view id = some j := by
  cases c with
  | settle | recover | extendLease | mergeInto =>
    obtain ⟨rfl, j, hj, -⟩ := matched_eq_some.mp h
    exact ⟨j, hj⟩
  | _ => cases h

/-- What becomes pending is announced. -/
theorem PostgresStore.Step.notifies_of_pending {e : Event} {j j' : Job} (h : s.Step e s')
    (hj : s.view id = some j) (hj' : s'.view id = some j') (hpending : j'.row.status = .pending)
    (hbefore : j.row.status ≠ .pending) : e.notifies := by
  rcases h.notifies_or_pending hj' hpending with hloud | ⟨j₀, hj₀, hwas, -⟩
  · exact hloud
  · rw [hj] at hj₀
    exact absurd (Option.some.inj hj₀ ▸ hwas) hbefore

end Locks

namespace Database.Sound

variable {d d' : Database} {l : DatabaseLabel}

/-- Nothing is under way. -/
theorem empty (s : PostgresStore) (wakeup : Bool) : Sound ⟨s, ∅, wakeup⟩ where
  matched := nofun
  alone := nofun
  transaction := nofun
  holds := nofun

/-- A store in which the locked jobs are as they were. -/
theorem store (h : d.Sound) {s' : PostgresStore} {wakeup : Bool}
    (hfree : ∀ id, d.locked id → s'.view id = d.store.view id) :
    Sound { d with store := s', wakeup := wakeup } where
  matched := by
    intro session tx htx
    have hrow := h.matched htx
    cases hid : tx.row with
    | some id =>
      rw [hid] at hrow
      exact (Call.locks_congr hrow.symm (hfree id (locked_iff.mpr ⟨session, tx, htx, hid⟩))).symm
    | none =>
      -- an insert locks no row
      have hinsert := h.holds htx
      rw [hid] at hinsert
      cases hcall : tx.call with
      | enqueue => rfl
      | _ => simp [hcall, Call.enqueues] at hinsert
  alone := h.alone
  transaction := h.transaction
  holds := h.holds

/-- One transaction less. -/
theorem erase (h : d.Sound) (session : Nat) : Sound { d with held := d.held.erase session } where
  matched := fun htx => h.matched (Map.lookup_of_erase htx).2
  alone := fun htx htx' => h.alone (Map.lookup_of_erase htx).2 (Map.lookup_of_erase htx').2
  transaction := fun htx => h.transaction (Map.lookup_of_erase htx).2
  holds := fun htx => h.holds (Map.lookup_of_erase htx).2

/-- One transaction more, on a row that is free. -/
theorem insert (h : d.Sound) {session : Nat} {tx : Tx} (htx : tx.call.transaction)
    (hrow : tx.row = tx.call.locks d.store tx.env.now)
    (hholds : tx.row.isSome ∨ tx.call.enqueues.isSome) (hfree : ∀ id ∈ tx.row, ¬ d.locked id) :
    Sound { d with held := d.held.insert session tx } where
  matched := by
    intro session' tx' htx'
    rcases Map.lookup_of_insert htx' with ⟨-, rfl⟩ | ⟨-, hold⟩
    exacts [hrow, h.matched hold]
  alone := by
    intro session₁ session₂ tx₁ tx₂ id htx₁ htx₂ hid₁ hid₂
    rcases Map.lookup_of_insert htx₁ with ⟨rfl, rfl⟩ | ⟨-, hold₁⟩ <;>
      rcases Map.lookup_of_insert htx₂ with ⟨rfl, rfl⟩ | ⟨-, hold₂⟩
    · rfl
    · exact absurd (locked_iff.mpr ⟨_, _, hold₂, hid₂⟩) (hfree id hid₁)
    · exact absurd (locked_iff.mpr ⟨_, _, hold₁, hid₁⟩) (hfree id hid₂)
    · exact h.alone hold₁ hold₂ hid₁ hid₂
  transaction := by
    intro session' tx' htx'
    rcases Map.lookup_of_insert htx' with ⟨-, rfl⟩ | ⟨-, hold⟩
    exacts [htx, h.transaction hold]
  holds := by
    intro session' tx' htx'
    rcases Map.lookup_of_insert htx' with ⟨-, rfl⟩ | ⟨-, hold⟩
    exacts [hholds, h.holds hold]

/-- A commit leaves the rows of the other transactions as they were. -/
theorem free_of_commit (h : d.Sound) {session : Nat} {tx : Tx}
    {reply : Except Error tx.call.Answer} {s' : PostgresStore}
    (htx : d.held.lookup session = some tx) (hs : d.store.Step ⟨tx.env, tx.call, reply⟩ s')
    {id : Ulid} (hlocked : ({ d with held := d.held.erase session } : Database).locked id) :
    s'.view id = d.store.view id := by
  obtain ⟨session', tx', htx', hid⟩ := locked_iff.mp hlocked
  obtain ⟨hne, hold⟩ := Map.lookup_of_erase htx'
  obtain ⟨j, hj⟩ := Call.view_of_locks ((h.matched hold).symm.trans hid)
  refine hs.view_of_locks (h.transaction htx) hj (fun hlocks => hne ?_)
  exact h.alone hold htx hid ((h.matched htx).trans hlocks)

/-- **Locks are respected.** -/
theorem step (h : d.Sound) (hs : d.Step l d') : d'.Sound := by
  cases hs with
  | call hexec hfree => exact h.store hfree
  | begin htx hnew hrow hholds hfree => exact h.insert htx hrow hholds hfree
  | commit htx hstep => exact (h.erase _).store (fun id => h.free_of_commit htx hstep)
  | rollback => exact h.erase _

/-- **Who announces.** A commit that leaves the row it held pending issues a `NOTIFY` exactly
    if it is no merge: a settlement and a recovery hold a claimed row. -/
theorem notifies_iff (h : d.Sound) {session : Nat} {tx : Tx} {reply : Except Error tx.call.Answer}
    {s' : PostgresStore} {id : Ulid} {j : Job} (htx : d.held.lookup session = some tx)
    (hs : d.store.Step ⟨tx.env, tx.call, reply⟩ s') (hid : tx.row = some id)
    (hj : s'.view id = some j) (hpending : j.row.status = .pending) :
    Event.notifies ⟨tx.env, tx.call, reply⟩ ↔ ¬ tx.call.merges := by
  have hlocks := (h.matched htx).symm.trans hid
  have htransaction := h.transaction htx
  obtain ⟨env, c, row⟩ := tx
  have hclaimed {guard : JobRecord → Bool} {id' : Ulid}
      (hguard : ∀ r, guard r → r.status = .claimed)
      (hmatched : d.store.matched id' guard = some id) : Event.notifies ⟨env, c, reply⟩ := by
    obtain ⟨-, j₀, hj₀, hheld⟩ := matched_eq_some.mp hmatched
    refine hs.notifies_of_pending hj₀ hj hpending ?_
    rw [hguard _ hheld]
    decide
  cases c with
  | settle =>
    have hnotifies := hclaimed (fun r hr => (JobRecord.owned_iff.mp hr).2.2.2) hlocks
    simpa [Call.merges] using hnotifies
  | recover =>
    have hnotifies := hclaimed
      (fun r hr => (JobRecord.stale_iff.mp (JobRecord.recoverable_iff.mp hr).2.1).1) hlocks
    simpa [Call.merges] using hnotifies
  | mergeInto => cases reply <;> simp [Event.notifies, Call.merges]
  | enqueue => cases hlocks
  | _ => cases htransaction

end Database.Sound

end Venturi
