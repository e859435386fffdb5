import Venturi.Postgres.Migrated

namespace Venturi

open Sql Trace PgMigrationClient

/-!
# Runs of `migrate`

* `execute_disciplined` / `query_disciplined` / `runner_disciplined` — the bridge and a runner
  that conforms keep the discipline of `Refinery.guarded`, and so does `migrate`.
-/

variable {R : Refinery} {p : String} {ms : List (Migration R.Instant)} {K K' : QueueSchema → Prop}
  {γ : Type}

/-! ### The bridge -/

/-- The remaining statements of a transaction keep the discipline, if the whole list of them is a
    step of the migration. -/
theorem executeFrom_disciplined {as queries : List Statement} {count : Nat}
    {f : Except MigrationBridgeError Nat → SessionCode (Except MigrateError Unit)}
    (howner : ∀ q ∈ queries, q.On p)
    (h : ∀ d, K d → ∃ d', runAll Statement.act (as ++ queries) d = some d' ∧
      R.guarded.Reach p d d' ∧ K' d')
    (hok : ∀ n, Disciplined R.guarded p (.held K') (f (.ok n)))
    (herr : ∀ e, Disciplined R.guarded p (.held K) (f (.error e))) :
    Disciplined R.guarded p (.active K as) ((executeFrom queries count).bind f) := by
  induction queries generalizing as K count with
  | nil =>
    rw [List.append_nil] at h
    exact .commit h (fun _ => hok count) fun e => herr (.driver e)
  | cons q queries ih =>
    obtain ⟨hq, hqueries⟩ := List.forall_mem_cons.mp howner
    refine .exec hq (fun d hd => ?_) (fun r _ => ?_) fun e => .abandon (herr (.driver e))
    · obtain ⟨d', hrun, -⟩ := h d hd
      exact answers_of_runAll hrun
    · refine ih hqueries (fun d hd => ?_) fun e => (herr e).weaken fun d hd => hd.1
      rw [List.append_assoc]
      exact h d hd.1

/-- **`execute`** keeps the discipline when its statements, taken together, make an allowed
    change. -/
theorem execute_disciplined {queries : List Statement}
    {f : Except MigrationBridgeError Nat → SessionCode (Except MigrateError Unit)}
    (howner : ∀ q ∈ queries, q.On p)
    (h : ∀ d, K d → ∃ d', runAll Statement.act queries d = some d' ∧
      R.guarded.Reach p d d' ∧ K' d')
    (hok : ∀ n, Disciplined R.guarded p (.held K') (f (.ok n)))
    (herr : ∀ e, Disciplined R.guarded p (.held K) (f (.error e))) :
    Disciplined R.guarded p (.held K) ((execute queries).bind f) :=
  .begin (fun _ => executeFrom_disciplined howner h hok herr) fun e => herr (.driver e)

/-- **`query`** keeps the discipline, and reads the history as it is. -/
theorem query_disciplined
    {f : Except MigrationBridgeError (List (Migration R.Instant)) →
      SessionCode (Except MigrateError Unit)}
    (h : ∀ d, K d → ∃ rows, d.history = some rows)
    (hok : ∀ d rows, K d → d.history = some rows →
      Disciplined R.guarded p (.held fun d => K d ∧ d.history = some rows)
        (f (rows.mapM (readRow R))))
    (herr : ∀ e, Disciplined R.guarded p (.held K) (f (.error e))) :
    Disciplined R.guarded p (.held K) ((query R (.selectHistory (historyTable p))).bind f) := by
  refine .begin (fun _ => ?_) fun e => herr (.driver e)
  have hanswer {rows : List HistoryRow} {d : QueueSchema}
      (hans : Answers (R.guarded.act p) [] (.selectHistory (historyTable p)) rows d) :
      d.history = some rows := by
    obtain ⟨d', hd'⟩ := hans
    obtain ⟨rows', hrows', heq⟩ := Option.map_eq_some_iff.mp hd'
    rw [hrows', (Prod.mk.inj heq).1]
  refine .exec rfl (fun d hd => ?_) (fun rows hrows => ?_) fun e => .abandon (herr (.driver e))
  · obtain ⟨rows, hrows⟩ := h d hd
    exact ⟨rows, d, by simp [Refinery.guarded, Statement.act, hrows]⟩
  · obtain ⟨d, hd, hans⟩ := hrows
    have hnext := hok d rows hd (hanswer hans)
    refine .commit (fun d hd => ?_) (fun _ => hnext)
      fun e => (herr (.driver e)).weaken fun d hd => hd.1
    refine ⟨d, ?_, .refl, hd.1, hanswer hd.2⟩
    simp [runAll, Refinery.guarded, Statement.act, hanswer hd.2]

/-! ### The runner -/

/-- A decimal number has a digit. -/
theorem digits_ne_nil (n : Nat) : Nat.toDigits 10 n ≠ [] := by
  intro hnil
  have hpos := Nat.length_repr_pos (n := n)
  rw [← String.length_toList, Nat.toList_repr, hnil] at hpos
  exact absurd hpos (Nat.lt_irrefl 0)

/-- What the bridge writes it can read. -/
theorem parseU64_toString {n : Nat} (hn : n < 2 ^ 64) : parseU64 (toString n) = some n := by
  have hdigits : (toString n).toList = Nat.toDigits 10 n := by
    rw [Nat.toString_eq_repr, Nat.toList_repr]
  have hall : (Nat.toDigits 10 n).all Char.isDigit := by
    rw [List.all_eq_true]
    exact fun c hc => Nat.isDigit_of_mem_toDigits (by decide) (by decide) hc
  have hunsigned : unsigned (toString n).toList = Nat.toDigits 10 n := by
    rw [hdigits]
    unfold unsigned
    split
    next cs hcs =>
      rw [hcs] at hall
      simp at hall
    next => rfl
  simp only [parseU64, hunsigned]
  rw [Nat.ofDigitChars_ten_toDigits, if_pos ⟨digits_ne_nil n, hall, hn⟩]

/-- A row that records a migration is read back as that migration. -/
theorem readRow_recorded {m : Migration R.Instant} {row : HistoryRow} (h : Recorded R m row)
    (hsum : m.checksum < 2 ^ 64) : ∃ applied, readRow R row = .ok applied ∧
      SameMigration m applied := by
  obtain ⟨t, ht⟩ := Option.isSome_iff_exists.mp h.appliedOn
  have hchecksum : parseU64 row.checksum = some m.checksum := by
    rw [h.checksum, parseU64_toString hsum]
  refine ⟨⟨row.version, row.name, m.checksum, none, some t⟩, ?_, h.version, h.name, rfl⟩
  simp only [readRow, ht, hchecksum]
  rfl

/-- **History this code wrote is never malformed.** -/
theorem readRows_recorded {rows : List HistoryRow} (h : List.Forall₂ (Recorded R) ms rows)
    (hsums : ∀ m ∈ ms, m.checksum < 2 ^ 64) : ∃ applied, rows.mapM (readRow R) = .ok applied ∧
      List.Forall₂ SameMigration ms applied := by
  induction h with
  | nil => exact ⟨[], rfl, .nil⟩
  | cons hrow _ ih =>
    obtain ⟨hsum, hsums⟩ := List.forall_mem_cons.mp hsums
    obtain ⟨a, ha, hsame⟩ := readRow_recorded hrow hsum
    obtain ⟨as, has, hall⟩ := ih hsums
    refine ⟨a :: as, ?_, .cons hsame hall⟩
    rw [List.mapM_cons, ha, has]
    rfl

/-- What the code knows where the runner knows this much. -/
def Known.holds (R : Refinery) (ms : List (Migration R.Instant)) : Known → QueueSchema → Prop
  | .start, d => Initial R ms d
  | .ready, d => ∃ k ≤ ms.length, AppliedTo R ms k d
  | .read k, d => k ≤ ms.length ∧ AppliedTo R ms k d

/-- Whatever the code knows, the prefix is in a state that `migrate` can start from. -/
theorem Known.initial {known : Known} {d : QueueSchema} (h : known.holds R ms d) :
    Initial R ms d := by
  cases known with
  | start => exact h
  | ready =>
    obtain ⟨k, hk, h⟩ := h
    exact .applied hk h
  | read k => exact .applied h.1 h.2

/-- The empty history table records that nothing is applied. -/
theorem appliedTo_zero {d : QueueSchema} (hrelations : d.relations = []) :
    AppliedTo R ms 0 { d with history := some [] } where
  relations := by rw [List.take_zero, hrelations]; rfl
  history := ⟨[], rfl, .nil⟩

/-- Making sure of the history table. -/
theorem ensure_reach (hplan : Plan R p ms) {d : QueueSchema} (h : Initial R ms d) :
    ∃ d', runAll Statement.act [.createHistory (historyTable p)] d = some d' ∧
      R.guarded.Reach p d d' ∧ Known.ready.holds R ms d' := by
  cases h with
  | fresh hrelations hhistory =>
    have hzero : AppliedTo R ms 0 { d with history := some [] } := appliedTo_zero hrelations
    refine ⟨{ d with history := some [] }, by simp [runAll, Statement.act, hhistory], ?_,
      0, Nat.zero_le _, hzero⟩
    exact .single ⟨ms, hplan, .created hrelations hhistory hzero⟩
  | @applied k hk h =>
    obtain ⟨rows, hrows, -⟩ := h.history
    have hsame : ({ d with history := some (d.history.getD []) } : QueueSchema) = d := by
      ext1
      · rfl
      · rw [hrows, Option.getD_some]
    refine ⟨d, ?_, .refl, k, hk, h⟩
    simp only [runAll, Statement.act, Option.bind_some, hsame]

/-- Applying the next migration with its record. -/
theorem apply_reach (hplan : Plan R p ms) {d : QueueSchema} {k : Nat} {m : Migration R.Instant}
    {body : List Ddl} {row : HistoryRow} (hm : ms[k]? = some m) (hbody : m.sql = some body)
    (hrow : Recorded R m row) (h : AppliedTo R ms k d) :
    ∃ d', runAll Statement.act [.batch body, .insertHistory (historyTable p) row] d = some d' ∧
      R.guarded.Reach p d d' ∧ (Known.read (k + 1)).holds R ms d' := by
  obtain ⟨hk, -⟩ := List.getElem?_eq_some_iff.mp hm
  obtain ⟨rows, hrows, hrecorded⟩ := h.history
  -- the body runs, since the bodies of all migrations run one after the other
  obtain ⟨relations, hrelations⟩ : ∃ relations, runDdl body d.relations = some relations := by
    obtain ⟨all, hall⟩ := runDdl_unapplied p
    have hsplit : statements ms = statements (ms.take (k + 1)) ++ statements (ms.drop (k + 1)) := by
      rw [statements, statements, statements, ← List.flatMap_append, List.take_append_drop]
    rw [← hplan.statements_eq, hsplit, runDdl_append, statements_take_succ hm hbody,
      runDdl_append, h.relations] at hall
    obtain ⟨relations, hrelations, -⟩ := Option.bind_eq_some_iff.mp hall
    exact ⟨relations, hrelations⟩
  have hnext : AppliedTo R ms (k + 1) ⟨relations, some (rows ++ [row])⟩ := by
    refine ⟨?_, _, rfl, ?_⟩
    · rw [statements_take_succ hm hbody, runDdl_append, h.relations, Option.bind_some, hrelations]
    · rw [List.take_add_one, hm]
      exact List.rel_append hrecorded (.cons hrow .nil)
  refine ⟨⟨relations, some (rows ++ [row])⟩, ?_, ?_, hk, hnext⟩
  · simp [runAll, Statement.act, hrelations, hrows]
  · exact .single ⟨ms, hplan, .applied hk h hnext ⟨rows, row, hrows, rfl⟩⟩

/-- **A runner that conforms** keeps the discipline over the bridge. -/
theorem runner_disciplined (hplan : Plan R p ms) {known : Known}
    {r : Program (Bridge.Answer R.Instant) (Except String Unit)}
    (h : Conforms R ms (historyTable p) known r)
    {f : Except String Unit → SessionCode (Except MigrateError Unit)}
    (hok : Disciplined R.guarded p (.held (AppliedTo R ms ms.length)) (f (.ok ())))
    (herr : ∀ e, Disciplined R.guarded p (.held (Initial R ms)) (f (.error e))) :
    Disciplined R.guarded p (.held (known.holds R ms)) ((r.handle (answer R)).bind f) := by
  induction h with
  | failed => exact (herr _).weaken fun _ => Known.initial
  | done => exact hok.weaken fun _ hd => hd.2
  | ensure _ _ ihok iherr =>
    rw [Program.handle, Program.bind_assoc]
    exact execute_disciplined (List.forall_mem_singleton.mpr rfl)
      (fun d hd => ensure_reach hplan hd) ihok iherr
  | @read f' _ _ ihok iherr =>
    rw [Program.handle, Program.bind_assoc]
    refine query_disciplined (fun d hd => ?_) (fun d rows hd hrows => ?_) iherr
    · obtain ⟨k, -, hd⟩ := hd
      obtain ⟨rows, hrows, -⟩ := hd.history
      exact ⟨rows, hrows⟩
    · obtain ⟨k, hk, hd⟩ := hd
      obtain ⟨rows', hrows', hrecorded⟩ := hd.history
      obtain rfl := Option.some.inj (hrows.symm.trans hrows')
      obtain ⟨applied, hread, hsame⟩ := readRows_recorded hrecorded
        fun m hm => hplan.checksums m (List.mem_of_mem_take hm)
      rw [hread]
      refine (ihok k applied hk hsame).weaken fun d' hd' => ?_
      -- the rows tell how far the queue is
      obtain ⟨⟨k', hk', hd''⟩, hrows''⟩ := hd'
      have hlen := hd.length hk
      have hlen' := hd''.length hk'
      rw [hrows, Option.getD_some] at hlen
      rw [hrows'', Option.getD_some] at hlen'
      obtain rfl : k = k' := hlen.symm.trans hlen'
      exact ⟨hk, hd''⟩
  | @apply k m body row f' hm hbody hrow _ _ ihok iherr =>
    rw [Program.handle, Program.bind_assoc]
    refine execute_disciplined ?_ (fun d hd => apply_reach hplan hm hbody hrow hd.2) ihok iherr
    have hon := hplan.on (List.mem_of_getElem? hm) hbody
    exact List.forall_mem_cons.mpr ⟨hon, List.forall_mem_singleton.mpr rfl⟩

/-- What may have happened to a queue that stood well leaves it well. -/
theorem migratable_of_past {d : QueueSchema} (hplan : Plan R p ms)
    (h : R.guarded.Past p (Migratable R p) d) : Initial R ms d := by
  obtain ⟨d₀, ⟨ms', hplan', h₀⟩, hreach⟩ := h
  obtain rfl := hplan.unique hplan'
  induction hreach with
  | refl => exact h₀
  | tail _ hstep =>
    obtain ⟨ms', hplan', hstep⟩ := hstep
    obtain rfl := hplan.unique hplan'
    exact hstep.initial

/-- **`migrate` keeps the discipline**: it looks at nothing and changes nothing outside its
    lock, and its `Ok` says that every migration is applied. -/
theorem migrate_disciplined (hR : Documented R) (p : String) :
    Disciplined (E := PgError) R.guarded p (.out (Migratable R p)) (PostgresStore.migrate R p) := by
  obtain ⟨ms, hplan⟩ := hR.plan p
  have hpast (d : QueueSchema) := migratable_of_past hplan (d := d)
  refine .lock hpast (fun _ => ?_) fun e => .ret fun d _ hresult => by cases hresult
  have happly : apply R p = (R.runAsync ms (historyTable p)).handle (answer R) := by
    rw [apply, hplan.eq]
  have hunlock (result : Except String Unit) (K : QueueSchema → Prop)
      (hK : ∀ d, K d → result = .ok () → AppliedTo R ms ms.length d) :
      Disciplined (E := PgError) R.guarded p (.held K)
        (.op (.request (.unlock (advisoryLockId p)))
          fun _ => .ret (result.mapError MigrateError.migration)) := by
    refine .unlock fun _ => .ret fun d hd hresult => ?_
    cases result with
    | error e => cases hresult
    | ok => exact ⟨ms, hplan, hK d hd rfl⟩
  refine (?_ : Disciplined R.guarded p (.held (Initial R ms)) ((apply R p).bind _))
  rw [happly]
  refine runner_disciplined hplan (hR.runs p ms hplan.eq) ?_ fun e => ?_
  · exact hunlock (.ok ()) _ fun _ hd _ => hd
  · exact hunlock (.error e) _ fun _ _ h => by cases h

/-! ### A runner -/

/-- The version and description of a migration's name. -/
def splitName (name : String) : Option (Int × String) :=
  match name.toList with
  | 'V' :: rest =>
      match rest.dropWhile Char.isDigit with
      | '_' :: '_' :: description =>
          some (Nat.ofDigitChars 10 (rest.takeWhile Char.isDigit) 0, String.ofList description)
      | _ => none
  | _ => none

/-- Apply migrations in order, and stop at the first error. -/
def applyMissing (table : String) :
    List (Migration String) → Program (Bridge.Answer String) (Except String Unit)
  | [] => .ret (.ok ())
  | m :: ms =>
      .op (.execute [.batch (m.sql.getD []), .insertHistory table
        ⟨m.version, m.name, "2024-05-01T12:00:00Z", toString m.checksum⟩]) fun
      | .ok _ => applyMissing table ms
      | .error _ => .ret (.error "error applying migration")

/-- Apply what is missing, if what is applied is what the migrations say. -/
def applyAfter (table : String) (ms applied : List (Migration String)) :
    Program (Bridge.Answer String) (Except String Unit) :=
  if applied.map (fun m => (m.version, m.name, m.checksum)) =
      (ms.take applied.length).map (fun m => (m.version, m.name, m.checksum)) then
    applyMissing table (ms.drop applied.length)
  else .ret (.error "applied migration is different than filesystem one")

/-- A runner that does what refinery documents, at a fixed time. -/
def plainRefinery : Refinery where
  Instant := String
  parse := some
  unapplied name body :=
    match splitName name with
    | some (version, description) =>
        .ok ⟨version, description, body.length % 2 ^ 64, some body, none⟩
    | none => .error "migration name is not of the form V1__name"
  runAsync ms table :=
    .op (.execute [.createHistory table]) fun
    | .error _ => .ret (.error "error asserting migrations table")
    | .ok _ => .op (.query (.selectHistory table)) fun
      | .error _ => .ret (.error "error getting applied migrations")
      | .ok applied => applyAfter table ms applied

/-- The plain runner applies the migrations that are missing, in their order. -/
theorem conforms_applyMissing {ms : List (Migration String)} {table : String}
    (hsql : ∀ m ∈ ms, ∃ body, m.sql = some body) (k : Nat) (rest : List (Migration String))
    (hrest : ms.drop k = rest) (hk : k ≤ ms.length) :
    Conforms plainRefinery ms table (.read k) (applyMissing table rest) := by
  induction rest generalizing k with
  | nil =>
    have hlen := List.drop_eq_nil_iff.mp hrest
    obtain rfl : k = ms.length := le_antisymm hk hlen
    exact .done
  | cons m rest ih =>
    have hm : ms[k]? = some m := by
      rw [← List.head?_drop, hrest, List.head?_cons]
    have hnext : ms.drop (k + 1) = rest := by
      rw [← List.drop_drop, hrest, List.drop_one, List.tail_cons]
    obtain ⟨body, hbody⟩ := hsql m (List.mem_of_getElem? hm)
    have hlt : k < ms.length := (List.getElem?_eq_some_iff.mp hm).1
    rw [applyMissing, hbody]
    exact .apply hm hbody ⟨rfl, rfl, rfl, rfl⟩ (fun _ => ih (k + 1) hnext hlt) fun _ => .failed

/-- The plain runner checks what is applied against the plan, then applies the rest. -/
theorem conforms_applyAfter {ms applied : List (Migration String)} {table : String}
    (hsql : ∀ m ∈ ms, ∃ body, m.sql = some body) {k : Nat} (hk : k ≤ ms.length)
    (hsame : List.Forall₂ SameMigration (ms.take k) applied) :
    Conforms plainRefinery ms table (.read k) (applyAfter table ms applied) := by
  have hlen : applied.length = k := by
    rw [← hsame.length_eq, List.length_take, Nat.min_eq_left hk]
  unfold applyAfter
  split_ifs
  · exact conforms_applyMissing hsql k _ (by rw [hlen]) hk
  · exact .failed

/-- The plain runner does what refinery documents. -/
theorem plainRefinery_documented : Documented plainRefinery := by
  have hunapplied : ∀ name ∈ migrations.map Prod.fst, ∀ body, ∃ m,
      plainRefinery.unapplied name body = .ok m ∧ m.sql = some body ∧ m.checksum < 2 ^ 64 := by
    intro name hname body
    have hsplit : (splitName name).isSome := by
      have hall : ∀ name ∈ migrations.map Prod.fst, (splitName name).isSome := by decide +kernel
      exact hall name hname
    obtain ⟨v, hv⟩ := Option.isSome_iff_exists.mp hsplit
    refine ⟨⟨v.1, v.2, body.length % 2 ^ 64, some body, none⟩, ?_, rfl, ?_⟩
    · simp only [plainRefinery, hv]
    · exact Nat.mod_lt _ (by decide)
  refine ⟨hunapplied, fun p ms hms => ?_⟩
  obtain ⟨ms', hplan⟩ := plan_of_unapplied hunapplied p
  obtain rfl : ms' = ms := Except.ok.inj (hplan.eq.symm.trans hms)
  refine .ensure (fun _ => .read (fun k applied hk hsame => ?_) fun _ => .failed) fun _ => .failed
  exact conforms_applyAfter hplan.sql hk hsame

/-! ### Any interleaving of calls -/

/-- The connections of the processes that share a database, with their `migrate` calls. -/
abbrev Pools (ι : Type) : Type :=
  System ι Int64 String Schema Statement (List HistoryRow) PgError (Except MigrateError Unit)

abbrev PoolLabel (ι : Type) : Type := Label ι String PgError (Except MigrateError Unit)

section Pools

variable {ι : Type} {x x' x₀ : Pools ι} {s t : ι} {tr tr' : List (Move (Pools ι) (PoolLabel ι))}
  {l : PoolLabel ι}

/-- No call is under way, no advisory lock is taken, and each queue is as an earlier `migrate`
    left it, if there was one. -/
structure Idle (R : Refinery) (x : Pools ι) : Prop where
  sessions : ∀ s, x.sessions s = ⟨true, .idle, [], none⟩
  locks : ∀ k, x.locks k = none
  queues : ∀ p, Migratable R p (x.db.of p)

/-- Pools without a call under way are sound. -/
theorem Idle.sound (h : Idle R x) : Sound R.guarded (Migratable R) x where
  sessions s := by
    rw [h.sessions s]
    exact .free (.idle .nil)
  past p := .now (h.queues p)

variable [DecidableEq ι]

/-- One step of the calls. -/
abbrev MigrateStep (R : Refinery) : Pools ι → PoolLabel ι → Pools ι → Prop :=
  System.Step postgres (PostgresStore.migrate R)

/-- Pools without a call under way are calm. -/
theorem Idle.calm (h : Idle R x) : Calm R.guarded x where
  rolls s := by
    rw [h.sessions s]
    exact List.forall_mem_nil _
  even s _ k := by
    rw [h.sessions s, depth, h.locks k]
    rfl

/-- What is applied on top leaves the recorded history as it was. -/
theorem Advances.isPrefix {d d' : QueueSchema} (h : Advances R ms d d') :
    d.history.getD [] <+: d'.history.getD [] := by
  cases h with
  | created _ hhistory =>
    rw [hhistory]
    exact List.nil_prefix
  | applied _ _ _ hrows =>
    obtain ⟨rows, row, hrows, hrows'⟩ := hrows
    rw [hrows, hrows']
    exact List.prefix_append rows [row]

/-- However far a prefix comes, its recorded history only grows at its end. -/
theorem isPrefix_of_reach {d d' : QueueSchema} (h : R.guarded.Reach p d d') :
    d.history.getD [] <+: d'.history.getD [] := by
  induction h with
  | refl => exact List.prefix_refl _
  | tail _ hstep ih =>
    obtain ⟨ms, -, hstep⟩ := hstep
    exact ih.trans hstep.isPrefix

/-- All migrations stay applied: there is nothing to apply after the last. -/
theorem complete_of_reach {d d' : QueueSchema} (hplan : Plan R p ms)
    (hd : AppliedTo R ms ms.length d) (h : R.guarded.Reach p d d') :
    AppliedTo R ms ms.length d' := by
  induction h with
  | refl => exact hd
  | tail _ hstep ih =>
    obtain ⟨ms', hplan', hstep⟩ := hstep
    obtain rfl := hplan.unique hplan'
    obtain ⟨k, hle, hge, hk⟩ := hstep.mono le_rfl ih
    rwa [le_antisymm hle hge]

/-- **Concurrent startups migrate once.** Whatever `migrate` calls are made on any connections,
    for any prefixes, in any interleaving, with any failures, lost connections and
    cancellations: each queue has an initial segment of its migrations applied, each once, in
    order and with its record; no record is ever removed or rewritten; and from the moment a
    call returned `Ok` all migrations of its prefix are applied. -/
theorem migrate_serialized (hR : Documented R) (hx : Idle R x₀)
    (h : Run x₀ (fun _ => MigrateStep R) tr x) (p : String) :
    ∃ ms, Plan R p ms ∧ Initial R ms (x.db.of p) ∧
      (∀ m ∈ tr, (m.before.db.of p).history.getD [] <+: (x.db.of p).history.getD []) ∧
      ∀ m ∈ tr, ∀ s, m.label = .returned s p (.ok ()) → AppliedTo R ms ms.length (x.db.of p) := by
  obtain ⟨ms, hplan⟩ := hR.plan p
  have hcode := migrate_disciplined hR
  refine ⟨ms, hplan, ?_, fun m hm => ?_, fun m hm s hlabel => ?_⟩
  · exact migratable_of_past hplan ((sound_of_run hx.sound hcode h).past p)
  · exact isPrefix_of_reach (reach_since hx.sound hcode h hm p)
  · obtain ⟨d, hpost, hreach⟩ := returned_post hx.sound hcode h hm hlabel
    obtain ⟨ms', hplan', hdone⟩ := hpost rfl
    obtain rfl := hplan.unique hplan'
    exact complete_of_reach hplan hdone hreach

/-- Two connections to an empty database. -/
def emptyPools : Pools Bool :=
  ⟨⟨[], fun _ => none⟩, fun _ => none, fun _ => ⟨true, .idle, [], none⟩⟩

/-- No call is under way in the empty pools. -/
theorem emptyPools_idle : Idle plainRefinery emptyPools where
  sessions _ := rfl
  locks _ := rfl
  queues p := by
    obtain ⟨ms, hplan⟩ := plainRefinery_documented.plan p
    exact ⟨ms, hplan, .fresh rfl rfl⟩

/-- A call of `migrate` takes connection `s`. -/
def Pools.called (x : Pools Bool) (s : Bool) (p : String) : Pools Bool :=
  x.set s ((x.sessions s).enter p (PostgresStore.migrate plainRefinery p))

/-- At most `n` steps of a call for the queue `q`, from an empty database. -/
def firstCall (n : Nat) : List (Move (Pools Bool) (PoolLabel Bool)) × Pools Bool :=
  let run := System.drive postgres false n (emptyPools.called false "q")
  (⟨emptyPools, .start false "q", emptyPools.called false "q"⟩ :: run.1, run.2)

/-- The first call runs as the pools do, however far it comes. -/
theorem firstCall_run (n : Nat) :
    Run emptyPools (fun _ => MigrateStep plainRefinery) (firstCall n).1 (firstCall n).2 :=
  (Run.start.snoc (.start rfl rfl)).append (System.run_drive n _)

/-- The second connection calls `migrate` for the same queue after `n` steps of the first; then
    each takes at most `m` steps, the first one first. -/
def contended (n m : Nat) : List (Move (Pools Bool) (PoolLabel Bool)) × Pools Bool :=
  let called := (firstCall n).2.called true "q"
  let first := System.drive postgres false m called
  let second := System.drive postgres true m first.2
  ((firstCall n).1 ++ [⟨(firstCall n).2, .start true "q", called⟩] ++ first.1 ++ second.1,
    second.2)

theorem contended_run {n : Nat} (m : Nat) (halive : ((firstCall n).2.sessions true).alive)
    (hfree : ((firstCall n).2.sessions true).client = none) :
    Run emptyPools (fun _ => MigrateStep plainRefinery) (contended n m).1 (contended n m).2 :=
  ((((firstCall_run n).snoc (.start halive hfree)).append (System.run_drive m _)).append
    (System.run_drive m _))

/-- When the first of two contending calls is done, the prefix is migrated, once, and the history
    it had in any earlier state is a prefix of the one it has. -/
theorem migrate_serialized_first : ∃ ms, Plan plainRefinery "q" ms ∧
    AppliedTo plainRefinery ms ms.length ((contended 5 40).2.db.of "q") ∧
    ∀ m ∈ (contended 5 40).1, (m.before.db.of "q").history.getD [] <+:
      ((contended 5 40).2.db.of "q").history.getD [] := by
  have hrun := contended_run 40 (n := 5) (by decide +kernel) rfl
  have hreturned : (contended 5 40).1.any fun m => m.label = .returned true "q" (.ok ()) := by
    decide +kernel
  obtain ⟨m, hm, hlabel⟩ := List.any_eq_true.mp hreturned
  obtain ⟨ms, hplan, -, hprefix, hdone⟩ :=
    migrate_serialized plainRefinery_documented emptyPools_idle hrun "q"
  exact ⟨ms, hplan, hdone m hm true (of_decide_eq_true hlabel), hprefix⟩

/-- The step by which a call on `s` for `p` leaves its advisory lock taken: it is cancelled
    past its lock, with no unlock sent, or its unlock fails. -/
def Leaks (x : Pools ι) (s : ι) (p : String) : PoolLabel ι → Prop
  | .cancelled s' _ sent => s' = s ∧ ∃ c, (x.sessions s).client = some c ∧ c.resource = p ∧
      busy c.code ∧ ¬ (sent ∧ c.request? = some (.unlock (advisoryLockId p)))
  | .failed s' _ => s' = s ∧ (x.sessions s).next? = some (.unlock (advisoryLockId p))
  | _ => False

/-- A call that is not granted its lock returns an error. -/
theorem migrate_lockedOut (p : String) :
    LockedOut (advisoryLockId p) (fun result => ∃ e, result = Except.error e)
      (PostgresStore.migrate R p) :=
  .wait fun _ => .ret ⟨_, rfl⟩

/-- A leak leaves its connection with one lock more than its client has to give back. -/
theorem surplus_of_leak (hR : Documented R) (hx : Idle R x₀)
    (h : Run x₀ (fun _ => MigrateStep R) tr x) (hs : MigrateStep R x l x') (hl : Leaks x s p l)
    (halive : (x'.sessions s).alive) : Surplus R.guarded x' s (advisoryLockId p) 1 := by
  have hcode := migrate_disciplined hR
  have hsound := sound_of_run hx.sound hcode h
  have hbefore := (hsound.surplus (k := advisoryLockId p) hcode hs s halive).1
  have hzero := Surplus.zero (k := advisoryLockId p) hx.sound hcode h hbefore (hx.sessions s)
  cases hs with
  | @cancelled s' c' sent hclient' =>
    obtain ⟨rfl, c, hclient, rfl, hbusy, hsent⟩ := hl
    obtain rfl := Option.some.inj (hclient'.symm.trans hclient)
    exact hzero.cancel hsound hclient hbusy rfl hsent
  | @failed s' r e halive' hnext =>
    obtain ⟨rfl, hunlock⟩ := hl
    exact hzero.fail hsound hunlock _ e
  | start | served | lost | refused | abandoned | returned | closed => exact hl.elim

/-- **A leaked lock blocks the queue.** After a call was cancelled past its lock, or its unlock
    failed, its connection keeps the lock while it lives, whatever calls are made on it.  Take any
    call begun since on another connection: neither it nor a later one there is granted the lock,
    for that prefix or any other with the same key, and each that returns, returns an error. -/
theorem migrate_leak (hR : Documented R) (hx : Idle R x₀) {x₁ : Pools ι}
    (h : Run x₀ (fun _ => MigrateStep R) tr x) (hs : MigrateStep R x l x₁) (hl : Leaks x s p l)
    (h' : Run x₁ (fun _ => MigrateStep R) tr' x') (halive : (x'.sessions s).alive) :
    Holds x'.locks s (advisoryLockId p) ∧
      ∀ tr₁ m₀ tr₂ t q, tr' = tr₁ ++ m₀ :: tr₂ → m₀.label = .start t q → t ≠ s →
        (∀ c, (x'.sessions t).client = some c → advisoryLockId c.resource = advisoryLockId p →
          busy c.code = false) ∧
        ∀ m ∈ tr₂, ∀ q' result, m.label = .returned t q' result →
          advisoryLockId q' = advisoryLockId p → ∃ e, result = .error e := by
  have hcode := migrate_disciplined hR
  have hsound := ((sound_of_run hx.sound hcode h).step hcode hs).1
  have hsurplus (halive : (x₁.sessions s).alive) := surplus_of_leak hR hx h hs hl halive
  have hlocked (q : String) (hq : advisoryLockId q = advisoryLockId p) :=
    hq ▸ migrate_lockedOut (R := R) q
  refine ⟨(Surplus.of_run hsound hcode h' halive hsurplus).holds, ?_⟩
  rintro tr₁ m₀ tr₂ t q rfl hstart hts
  -- a call begins on a connection that has none
  have hbarred : Barred R.guarded m₀.before t (advisoryLockId p)
      fun result => ∃ e, result = .error e := by
    obtain ⟨-, hstep, -⟩ := h'.split
    rw [hstart] at hstep
    intro c hclient _
    cases hclient.symm.trans (client_of_start hstep)
  obtain ⟨hwaits, hreturned⟩ := hbarred.since hsound hcode h' halive hsurplus hts hlocked
  exact ⟨fun c hclient hkey => (hwaits c hclient hkey).not_busy, hreturned⟩

/-- The first call, cancelled right after it got its lock. -/
def cancelledCall : Pools Bool :=
  match ((firstCall 1).2.sessions false).client with
  | some c => (firstCall 1).2.set false (((firstCall 1).2.sessions false).cancel c false)
  | none => (firstCall 1).2

/-- The lock of a cancelled call stays with its connection, and no other connection holds up a call
    past it. -/
theorem migrate_leak_cancelled :
    Holds (cancelledCall.called true "q").locks false (advisoryLockId "q") ∧
      ∀ c, ((cancelledCall.called true "q").sessions true).client = some c →
        advisoryLockId c.resource = advisoryLockId "q" → busy c.code = false := by
  have hcall : ((firstCall 1).2.sessions false).client.any fun c =>
      busy c.code && decide (c.resource = "q") := by
    decide +kernel
  obtain ⟨c, hclient, hc⟩ := (Option.any_eq_true ..).mp hcall
  obtain ⟨hbusy, hresource⟩ := Bool.and_eq_true_iff.mp hc
  have hresource : c.resource = "q" := of_decide_eq_true hresource
  have heq : cancelledCall =
      (firstCall 1).2.set false (((firstCall 1).2.sessions false).cancel c false) := by
    rw [cancelledCall, hclient]
  have hcancel : MigrateStep plainRefinery (firstCall 1).2 (.cancelled false c.resource false)
      cancelledCall := by
    rw [heq]
    exact .cancelled false hclient
  have hleaks : Leaks (firstCall 1).2 false "q" (.cancelled false c.resource false) :=
    ⟨rfl, c, hclient, hresource, hbusy, fun h => by cases h.1⟩
  have halive : ((cancelledCall.called true "q").sessions false).alive := by decide +kernel
  have hfree : (cancelledCall.sessions true).client = none := rfl
  have hother : (cancelledCall.sessions true).alive := by decide +kernel
  obtain ⟨hholds, hothers⟩ := migrate_leak plainRefinery_documented emptyPools_idle
    (firstCall_run 1) hcancel hleaks (Run.start.snoc (.start hother hfree)) halive
  exact ⟨hholds, (hothers [] _ [] true "q" rfl rfl (by decide)).1⟩

/-- **Startups do not deadlock.** Where no call was cancelled and no unlock failed: a call under
    way can go on, or it waits for a lock whose holder can; whoever holds a lock is a call past it,
    so no two wait for each other; and what a call past its lock sends is carried out, so no
    statement of a migration is rejected by the schema it meets. -/
theorem migrate_progress (hR : Documented R) (hx : Idle R x₀)
    (h : Run x₀ (fun _ => MigrateStep R) tr x) (htr : ∀ m ∈ tr, ¬ Trouble m.before m.label) :
    (∀ s c, (x.sessions s).client = some c → Advance postgres (PostgresStore.migrate R) x s ∨
      ∃ t, c.request? = some (.lock (advisoryLockId c.resource)) ∧
        Holds x.locks t (advisoryLockId c.resource) ∧
        Advance postgres (PostgresStore.migrate R) x t) ∧
    (∀ t k, Holds x.locks t k → ∃ c, (x.sessions t).client = some c ∧
      advisoryLockId c.resource = k ∧ busy c.code = true) ∧
    ∀ t c r, (x.sessions t).alive → (x.sessions t).orphans = [] →
      (x.sessions t).client = some c → busy c.code = true → c.request? = some r →
      ∃ a y, (x.backend t).serve postgres t r = some (a, y) := by
  have hcode := migrate_disciplined hR
  have hsound := sound_of_run hx.sound hcode h
  have hcalm := Calm.of_run hx.sound hx.calm hcode h htr
  refine ⟨fun s c hclient => hcalm.advance hsound hclient,
    fun t k hholds => hcalm.holder hsound hholds, ?_⟩
  exact fun t c r halive horphans hclient hbusy hrequest =>
    serve_inside hsound halive horphans hclient hbusy hrequest

/-- Neither of the two calls is cancelled, and no unlock of theirs fails. -/
theorem contended_calm (n m : Nat) :
    ∀ move ∈ (contended n m).1, ¬ Trouble move.before move.label := by
  have hdrive {s : Bool} {n : Nat} {x : Pools Bool} :
      ∀ move ∈ (System.drive postgres s n x).1, ¬ Trouble move.before move.label :=
    fun move hmove => (advances_drive n x move hmove).not_trouble
  have hfirst : ∀ move ∈ (firstCall n).1, ¬ Trouble move.before move.label :=
    List.forall_mem_cons.mpr ⟨id, hdrive⟩
  refine List.forall_mem_append.mpr ⟨List.forall_mem_append.mpr ⟨List.forall_mem_append.mpr
    ⟨hfirst, List.forall_mem_singleton.mpr id⟩, hdrive⟩, hdrive⟩

/-- While the second call waits, the first can go on. -/
theorem migrate_progress_midway : Holds (contended 5 0).2.locks false (advisoryLockId "q") ∧
    Advance postgres (PostgresStore.migrate plainRefinery) (contended 5 0).2 false := by
  have hrun := contended_run 0 (n := 5) (by decide +kernel) rfl
  have htr : ∀ m ∈ (contended 5 0).1, ¬ Trouble m.before m.label := contended_calm 5 0
  obtain ⟨hadvance, hholder, -⟩ :=
    migrate_progress plainRefinery_documented emptyPools_idle hrun htr
  have hholds : Holds (contended 5 0).2.locks false (advisoryLockId "q") :=
    ⟨0, by decide +kernel⟩
  refine ⟨hholds, ?_⟩
  obtain ⟨c, hclient, -, hbusy⟩ := hholder false _ hholds
  rcases hadvance false c hclient with hgoes | ⟨t, hrequest, -⟩
  · exact hgoes
  · exact absurd hrequest (not_lock_of_busy hbusy)

end Pools

end Venturi
