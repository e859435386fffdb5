import Mathlib.Data.List.Forall2
import Mathlib.Data.Set.Function
import Venturi.Postgres.Migrate

namespace Venturi

open Sql Trace

/-!
# What `migrate` leaves

* `Schema.of` — the part of the schema that belongs to a prefix; no statement of another
  prefix touches it.
* `Conforms` / `Documented` — what refinery documents of its runner.
* `AppliedTo` — the first `k` migrations are applied and recorded, and no more.
* `Refinery.guarded` — the prefixes as resources under their advisory locks.
* `migrate_disciplined` — `migrate` keeps the discipline.
-/

/-! ### The part of a prefix -/

/-- The tables and indexes of one queue, and its migration history, if it has one. -/
@[ext] structure QueueSchema where
  relations : List String
  history : Option (List HistoryRow)

/-- The part of the schema that belongs to `tablePrefix`. -/
def Schema.of (s : Schema) (tablePrefix : String) : QueueSchema :=
  ⟨s.relations.filter (· ∈ names tablePrefix), s.history (historyTable tablePrefix)⟩

/-- The statement names nothing but tables and indexes of `tablePrefix`. -/
def Statement.On (tablePrefix : String) : Statement → Prop
  | .createHistory table | .selectHistory table | .insertHistory table _ =>
      table = historyTable tablePrefix
  | .batch body => ∀ d ∈ body, ∀ name ∈ d.names, name ∈ names tablePrefix

/-- What a statement on a prefix does to its part. -/
def Statement.act : Statement → QueueSchema → Option (List HistoryRow × QueueSchema)
  | .createHistory _, d => some ([], { d with history := some (d.history.getD []) })
  | .selectHistory _, d => d.history.map fun rows => (rows, d)
  | .insertHistory _ row, d =>
      d.history.map fun rows => ([], { d with history := some (rows ++ [row]) })
  | .batch body, d => (runDdl body d.relations).map fun relations => ([], { d with relations })

section Parts

variable {p q : String} {S : List String} {relations relations' : List String} {d : Ddl}
  {body : List Ddl}

/-- A statement that names only relations of `S` depends on these only. -/
theorem Ddl.run_filter (hnames : ∀ name ∈ d.names, name ∈ S) :
    (d.run relations).map (List.filter (· ∈ S)) = d.run (relations.filter (· ∈ S)) := by
  cases d with
  | createTable name references =>
    obtain ⟨hname, hrefs⟩ := List.forall_mem_cons.mp hnames
    have hiff : (name ∈ relations.filter (· ∈ S) ∨
        ∃ r ∈ references, r ∉ relations.filter (· ∈ S)) ↔
        (name ∈ relations ∨ ∃ r ∈ references, r ∉ relations) := by
      simp only [List.mem_filter, hname, decide_true, and_true]
      refine or_congr_right (exists_congr fun r => and_congr_right fun hr => ?_)
      simp [hrefs r hr]
    simp only [Ddl.run, hiff]
    split_ifs
    · rfl
    · simp [hname]
  | createIndex name on =>
    have hname := hnames name List.mem_cons_self
    have hon := hnames on (by simp [Ddl.names])
    have hiff : (name ∈ relations.filter (· ∈ S) ∨ on ∉ relations.filter (· ∈ S)) ↔
        (name ∈ relations ∨ on ∉ relations) := by
      simp [List.mem_filter, hname, hon]
    simp only [Ddl.run, hiff]
    split_ifs
    · rfl
    · simp [hname]
  | dropIndex name =>
    have hname := hnames name List.mem_cons_self
    have hiff : name ∈ relations.filter (· ∈ S) ↔ name ∈ relations := by
      simp [List.mem_filter, hname]
    simp only [Ddl.run, hiff]
    split_ifs
    · simp [List.filter_filter, Bool.and_comm]
    · rfl

variable (relations) in
/-- So does a migration of such statements. -/
theorem runDdl_filter (hnames : ∀ d ∈ body, ∀ name ∈ d.names, name ∈ S) :
    (runDdl body relations).map (List.filter (· ∈ S)) = runDdl body (relations.filter (· ∈ S)) := by
  induction body generalizing relations with
  | nil => rfl
  | cons d body ih =>
    obtain ⟨hd, hbody⟩ := List.forall_mem_cons.mp hnames
    simp only [runDdl, ← Ddl.run_filter hd]
    cases d.run relations with
    | none => rfl
    | some relations' => exact ih _ hbody

/-- A statement that names no relation of `S` leaves these alone. -/
theorem Ddl.run_disjoint (hnames : ∀ name ∈ d.names, name ∉ S)
    (hrun : d.run relations = some relations') :
    relations'.filter (· ∈ S) = relations.filter (· ∈ S) := by
  cases d with
  | createTable name references =>
    simp only [Ddl.run] at hrun
    split_ifs at hrun
    obtain rfl := Option.some.inj hrun
    simp [hnames name List.mem_cons_self]
  | createIndex name on =>
    simp only [Ddl.run] at hrun
    split_ifs at hrun
    obtain rfl := Option.some.inj hrun
    simp [hnames name List.mem_cons_self]
  | dropIndex name =>
    simp only [Ddl.run] at hrun
    split_ifs at hrun
    obtain rfl := Option.some.inj hrun
    rw [List.filter_filter]
    refine List.filter_congr fun r _ => ?_
    by_cases hr : r ∈ S
    · have hne : r ≠ name := fun h => hnames name List.mem_cons_self (h ▸ hr)
      simp [hr, hne]
    · simp [hr]

/-- So does a migration of such statements. -/
theorem runDdl_disjoint (hnames : ∀ d ∈ body, ∀ name ∈ d.names, name ∉ S)
    (hrun : runDdl body relations = some relations') :
    relations'.filter (· ∈ S) = relations.filter (· ∈ S) := by
  induction body generalizing relations with
  | nil =>
    obtain rfl := Option.some.inj hrun
    rfl
  | cons d body ih =>
    obtain ⟨hd, hbody⟩ := List.forall_mem_cons.mp hnames
    obtain ⟨relations₁, hrun₁, hrest⟩ := Option.bind_eq_some_iff.mp hrun
    rw [ih hbody hrest, Ddl.run_disjoint hd hrun₁]

/-- Different prefixes have different history tables. -/
theorem historyTable_ne (hpq : q ≠ p) : historyTable q ≠ historyTable p := by
  intro h
  rw [historyTable, historyTable, ← String.toList_inj, String.toList_append,
    String.toList_append] at h
  exact hpq (String.toList_inj.mp (List.append_cancel_right h))

variable {a : Statement} {s : Schema} {x : List HistoryRow × Schema}

/-- A statement of a prefix does to its part what `act` says. -/
theorem Statement.run_of (h : a.On p) (s : Schema) :
    (a.run s).map (fun x => (x.1, x.2.of p)) = a.act (s.of p) := by
  cases a with
  | createHistory table =>
    obtain rfl := h
    cases hhistory : s.history (historyTable p) with
    | none => simp [Statement.run, Statement.act, Schema.of, hhistory]
    | some rows => simp [Statement.run, Statement.act, Schema.of, hhistory]
  | selectHistory table =>
    obtain rfl := h
    simp [Statement.run, Statement.act, Schema.of, Function.comp_def]
  | insertHistory table row =>
    obtain rfl := h
    simp [Statement.run, Statement.act, Schema.of, Function.comp_def]
  | batch body =>
    have hfilter := runDdl_filter s.relations h
    simp only [Statement.run, Statement.act, Schema.of, ← hfilter, Option.map_map,
      Function.comp_def]

/-- It does nothing to the part of another prefix. -/
theorem Statement.run_other (h : a.On p) (hq : q ≠ p) (hrun : a.run s = some x) :
    x.2.of q = s.of q := by
  cases a with
  | createHistory table =>
    obtain rfl := h
    cases hhistory : s.history (historyTable p) with
    | none =>
      simp only [Statement.run, hhistory] at hrun
      obtain rfl := Option.some.inj hrun
      simp [Schema.of, Function.update_of_ne (historyTable_ne hq)]
    | some rows =>
      simp only [Statement.run, hhistory] at hrun
      obtain rfl := Option.some.inj hrun
      rfl
  | selectHistory table =>
    obtain ⟨rows, -, rfl⟩ := Option.map_eq_some_iff.mp hrun
    rfl
  | insertHistory table row =>
    obtain rfl := h
    obtain ⟨rows, -, rfl⟩ := Option.map_eq_some_iff.mp hrun
    simp [Schema.of, Function.update_of_ne (historyTable_ne hq)]
  | batch body =>
    obtain ⟨relations, hrelations, rfl⟩ := Option.map_eq_some_iff.mp hrun
    have hdisjoint := runDdl_disjoint (S := names q)
      (fun d hd name hname hmem => names_disjoint hq hmem (h d hd name hname)) hrelations
    simp [Schema.of, hdisjoint]

end Parts

/-! ### The bodies are valid -/

section Bodies

variable {f : String → String} {S : Set String} {relations relations' : List String} {d : Ddl}
  {body body' : List Ddl}

theorem runDdl_append (body body' : List Ddl) (relations : List String) :
    runDdl (body ++ body') relations = (runDdl body relations).bind (runDdl body') := by
  induction body generalizing relations with
  | nil => rfl
  | cons d body ih =>
    simp only [List.cons_append, runDdl]
    cases d.run relations with
    | none => rfl
    | some relations' => exact ih relations'

/-- The relations after a statement are among those before and the names it mentions. -/
theorem Ddl.run_subset (hrel : ∀ r ∈ relations, r ∈ S) (hnames : ∀ name ∈ d.names, name ∈ S)
    (hrun : d.run relations = some relations') : ∀ r ∈ relations', r ∈ S := by
  cases d with
  | createTable name references =>
    simp only [Ddl.run] at hrun
    split_ifs at hrun
    obtain rfl := Option.some.inj hrun
    exact List.forall_mem_cons.mpr ⟨hnames name List.mem_cons_self, hrel⟩
  | createIndex name on =>
    simp only [Ddl.run] at hrun
    split_ifs at hrun
    obtain rfl := Option.some.inj hrun
    exact List.forall_mem_cons.mpr ⟨hnames name List.mem_cons_self, hrel⟩
  | dropIndex name =>
    simp only [Ddl.run] at hrun
    split_ifs at hrun
    obtain rfl := Option.some.inj hrun
    exact fun r hr => hrel r (List.mem_of_mem_filter hr)

/-- Renaming a name that stays apart from the others. -/
theorem mem_map_iff {name : String} (hinj : S.InjOn f) (hrel : ∀ r ∈ relations, r ∈ S)
    (hname : name ∈ S) : f name ∈ relations.map f ↔ name ∈ relations := by
  constructor
  · intro h
    obtain ⟨r, hr, heq⟩ := List.mem_map.mp h
    rwa [← hinj (hrel r hr) hname heq]
  · exact List.mem_map_of_mem

/-- A statement runs alike under other names, as long as these stay apart. -/
theorem Ddl.run_map (hinj : S.InjOn f) (hrel : ∀ r ∈ relations, r ∈ S)
    (hnames : ∀ name ∈ d.names, name ∈ S) :
    (d.map f).run (relations.map f) = (d.run relations).map (List.map f) := by
  cases d with
  | createTable name references =>
    obtain ⟨hname, hrefs⟩ := List.forall_mem_cons.mp hnames
    have hiff : (∃ r ∈ references.map f, r ∉ relations.map f) ↔
        ∃ r ∈ references, r ∉ relations := by
      constructor
      · rintro ⟨_, hmem, hnot⟩
        obtain ⟨r, hr, rfl⟩ := List.mem_map.mp hmem
        exact ⟨r, hr, fun h => hnot (List.mem_map_of_mem h)⟩
      · rintro ⟨r, hr, hnot⟩
        exact ⟨f r, List.mem_map_of_mem hr,
          fun h => hnot ((mem_map_iff hinj hrel (hrefs r hr)).mp h)⟩
    simp only [Ddl.map, Ddl.run, mem_map_iff hinj hrel hname, hiff]
    split_ifs <;> rfl
  | createIndex name on =>
    have hname := hnames name List.mem_cons_self
    have hon := hnames on (by simp [Ddl.names])
    simp only [Ddl.map, Ddl.run, mem_map_iff hinj hrel hname, mem_map_iff hinj hrel hon]
    split_ifs <;> rfl
  | dropIndex name =>
    have hname := hnames name List.mem_cons_self
    simp only [Ddl.map, Ddl.run, mem_map_iff hinj hrel hname]
    split_ifs
    · simp only [Option.map_some, List.filter_map]
      refine congrArg some (congrArg (List.map f) (List.filter_congr fun r hr => ?_))
      have hiff : f r = f name ↔ r = name := ⟨hinj (hrel r hr) hname, congrArg f⟩
      simp [hiff]
    · rfl

/-- Renaming every relation alike changes nothing else. -/
theorem runDdl_map (hinj : S.InjOn f) (hrel : ∀ r ∈ relations, r ∈ S)
    (hnames : ∀ d ∈ body, ∀ name ∈ d.names, name ∈ S) :
    runDdl (body.map (Ddl.map f)) (relations.map f) =
      (runDdl body relations).map (List.map f) := by
  induction body generalizing relations with
  | nil => rfl
  | cons d body ih =>
    obtain ⟨hd, hbody⟩ := List.forall_mem_cons.mp hnames
    simp only [List.map_cons, runDdl, Ddl.run_map hinj hrel hd]
    cases hrun : d.run relations with
    | none => rfl
    | some relations' => exact ih (Ddl.run_subset hrel hd hrun) hbody

/-- The names a migration is written with. -/
def templates : Set String := {name | ∃ s ∈ suffixes, name = prefixToken ++ s}

/-- The prefix keeps the names of the templates apart. -/
theorem replace_injOn (p : String) : templates.InjOn (replace · prefixToken p) := by
  rintro _ ⟨s, hs, rfl⟩ _ ⟨t, ht, rfl⟩ heq
  simp only [replace_template hs, replace_template ht] at heq
  rw [← String.toList_inj, String.toList_append, String.toList_append] at heq
  rw [String.toList_inj.mp (List.append_cancel_left heq)]

/-- **The migrations apply** in their order, from nothing. -/
theorem runDdl_unapplied (p : String) :
    ∃ relations, runDdl ((unapplied p).flatMap Prod.snd) [] = some relations := by
  have hbodies : (unapplied p).flatMap Prod.snd =
      (migrations.flatMap Prod.snd).map (Ddl.map (replace · prefixToken p)) := by
    simp only [unapplied, List.flatMap_map, List.map_flatMap]
  have hnames : ∀ d ∈ migrations.flatMap Prod.snd, ∀ name ∈ d.names, name ∈ templates := by
    intro d hd name hname
    obtain ⟨m, hm, hd⟩ := List.mem_flatMap.mp hd
    exact template_eq m hm d hd name hname
  have hsome : (runDdl (migrations.flatMap Prod.snd) []).isSome := by decide +kernel
  obtain ⟨relations, hrun⟩ := Option.isSome_iff_exists.mp hsome
  have hmap := runDdl_map (replace_injOn p) (List.forall_mem_nil _) hnames
  rw [hbodies]
  exact ⟨_, hmap.trans (congrArg _ hrun)⟩

end Bodies

/-! ### What refinery documents -/

/-- A history row records the migration. -/
structure Recorded (R : Refinery) (m : Migration R.Instant) (row : HistoryRow) : Prop where
  version : row.version = m.version
  name : row.name = m.name
  appliedOn : (R.parse row.appliedOn).isSome
  checksum : row.checksum = toString m.checksum

/-- The migration read from the history is this one. -/
def SameMigration {Instant : Type} (m applied : Migration Instant) : Prop :=
  applied.version = m.version ∧ applied.name = m.name ∧ applied.checksum = m.checksum

/-- What the runner knows of the history. -/
inductive Known where
  | start
  /-- The history table exists. -/
  | ready
  /-- It records the first `k` migrations. -/
  | read (k : Nat)

/-- The runner makes sure that its table exists, reads it, and applies what is missing in
    order, each migration with its record in one `execute`; it returns `Ok` when nothing is
    missing. -/
inductive Conforms (R : Refinery) (ms : List (Migration R.Instant)) (table : String) :
    Known → Program (Bridge.Answer R.Instant) (Except String Unit) → Prop
  | failed {known : Known} {e : String} : Conforms R ms table known (.ret (.error e))
  | done : Conforms R ms table (.read ms.length) (.ret (.ok ()))
  | ensure {f : Except MigrationBridgeError Nat → Program _ _}
      (hok : ∀ n, Conforms R ms table .ready (f (.ok n)))
      (herr : ∀ e, Conforms R ms table .start (f (.error e))) :
      Conforms R ms table .start (.op (.execute [.createHistory table]) f)
  | read {f : Except MigrationBridgeError (List (Migration R.Instant)) → Program _ _}
      (hok : ∀ k applied, k ≤ ms.length → List.Forall₂ SameMigration (ms.take k) applied →
        Conforms R ms table (.read k) (f (.ok applied)))
      (herr : ∀ e, Conforms R ms table .ready (f (.error e))) :
      Conforms R ms table .ready (.op (.query (.selectHistory table)) f)
  | apply {k : Nat} {m : Migration R.Instant} {body : List Ddl} {row : HistoryRow}
      {f : Except MigrationBridgeError Nat → Program _ _} (hm : ms[k]? = some m)
      (hbody : m.sql = some body) (hrow : Recorded R m row)
      (hok : ∀ n, Conforms R ms table (.read (k + 1)) (f (.ok n)))
      (herr : ∀ e, Conforms R ms table (.read k) (f (.error e))) :
      Conforms R ms table (.read k) (.op (.execute [.batch body, .insertHistory table row]) f)

/-- What refinery documents: the names `MIGRATIONS` uses are accepted, the body is kept, and
    the runner conforms. -/
structure Documented (R : Refinery) : Prop where
  unapplied : ∀ name ∈ migrations.map Prod.fst, ∀ body, ∃ m, R.unapplied name body = .ok m ∧
    m.sql = some body ∧ m.checksum < 2 ^ 64
  runs : ∀ p ms, R.migrations p = .ok ms →
    Conforms R ms (historyTable p) .start (R.runAsync ms (historyTable p))

/-! ### The plan -/

section Plan

variable {R : Refinery} {p : String} {ms : List (Migration R.Instant)}

/-- The migrations of a prefix as the runner gets them. -/
structure Plan (R : Refinery) (p : String) (ms : List (Migration R.Instant)) : Prop where
  eq : R.migrations p = .ok ms
  bodies : List.Forall₂ (fun m b => m.sql = some b.2) ms (unapplied p)
  checksums : ∀ m ∈ ms, m.checksum < 2 ^ 64

/-- What a prefix has to apply are the embedded migrations. -/
theorem unapplied_names (p : String) : ∀ m ∈ unapplied p, m.1 ∈ migrations.map Prod.fst := by
  intro m hm
  obtain ⟨m', hm', rfl⟩ := List.mem_map.mp hm
  exact List.mem_map.mpr ⟨m', hm', rfl⟩

/-- A runner that loads every embedded migration has a plan for every prefix. -/
theorem plan_of_unapplied (hR : ∀ name ∈ migrations.map Prod.fst, ∀ body, ∃ m,
    R.unapplied name body = .ok m ∧ m.sql = some body ∧ m.checksum < 2 ^ 64) (p : String) :
    ∃ ms, Plan R p ms := by
  have hmap : ∀ l : List (String × List Ddl), (∀ m ∈ l, m.1 ∈ migrations.map Prod.fst) →
      ∃ ms, l.mapM (fun m => R.unapplied m.1 m.2) = .ok ms ∧
        List.Forall₂ (fun m b => m.sql = some b.2) ms l ∧ ∀ m ∈ ms, m.checksum < 2 ^ 64 := by
    intro l hl
    induction l with
    | nil => exact ⟨[], rfl, .nil, List.forall_mem_nil _⟩
    | cons b l ih =>
      obtain ⟨hb, hl⟩ := List.forall_mem_cons.mp hl
      obtain ⟨ms, hms, hbodies, hsums⟩ := ih hl
      obtain ⟨m, hm, hsql, hsum⟩ := hR b.1 hb b.2
      refine ⟨m :: ms, ?_, .cons hsql hbodies, List.forall_mem_cons.mpr ⟨hsum, hsums⟩⟩
      rw [List.mapM_cons, hm, hms]
      rfl
  obtain ⟨ms, heq, hbodies, hsums⟩ := hmap _ (unapplied_names p)
  exact ⟨ms, heq, hbodies, hsums⟩

/-- The documented runner has a plan for every prefix. -/
theorem Documented.plan (hR : Documented R) (p : String) : ∃ ms, Plan R p ms :=
  plan_of_unapplied hR.unapplied p

/-- A prefix has one plan. -/
theorem Plan.unique {ms' : List (Migration R.Instant)} (h : Plan R p ms) (h' : Plan R p ms') :
    ms' = ms := by
  have heq := h'.eq
  rw [h.eq] at heq
  exact (Except.ok.inj heq).symm

/-- Every migration of a plan has a body. -/
theorem Plan.sql (h : Plan R p ms) : ∀ m ∈ ms, ∃ body, m.sql = some body := by
  have hbodies := h.bodies
  clear h
  generalize unapplied p = l at hbodies
  induction hbodies with
  | nil => exact List.forall_mem_nil _
  | cons hm _ ih => exact List.forall_mem_cons.mpr ⟨⟨_, hm⟩, ih⟩

/-- The statements of some migrations, in order. -/
def statements {Instant : Type} (ms : List (Migration Instant)) : List Ddl :=
  ms.flatMap fun m => m.sql.getD []

/-- The statements of a plan are those of the embedded migrations under this prefix. -/
theorem Plan.statements_eq (h : Plan R p ms) :
    statements ms = (unapplied p).flatMap Prod.snd := by
  have hbodies := h.bodies
  clear h
  generalize unapplied p = l at hbodies
  induction hbodies with
  | nil => rfl
  | cons hm _ ih =>
    simp only [statements, List.flatMap_cons, hm, Option.getD_some] at ih ⊢
    rw [ih]

/-- A body of the plan names relations of its prefix only. -/
theorem Plan.on (h : Plan R p ms) {m : Migration R.Instant} {body : List Ddl} (hm : m ∈ ms)
    (hbody : m.sql = some body) : (Statement.batch body).On p := by
  intro d hd name hname
  have hmem : d ∈ (unapplied p).flatMap Prod.snd := by
    rw [← h.statements_eq]
    exact List.mem_flatMap.mpr ⟨m, hm, by rw [hbody]; exact hd⟩
  obtain ⟨b, hb, hd⟩ := List.mem_flatMap.mp hmem
  refine List.mem_cons_of_mem _ (List.mem_flatMap.mpr ⟨b, hb, ?_⟩)
  exact List.mem_flatMap.mpr ⟨d, hd, hname⟩

/-- The statements of the first `k + 1` are those of the first `k` and the next. -/
theorem statements_take_succ {Instant : Type} {ms : List (Migration Instant)} {k : Nat}
    {m : Migration Instant} {body : List Ddl} (hm : ms[k]? = some m) (hbody : m.sql = some body) :
    statements (ms.take (k + 1)) = statements (ms.take k) ++ body := by
  rw [List.take_add_one, hm, statements, statements, List.flatMap_append]
  simp [hbody]

end Plan

/-! ### How far a queue is migrated -/

section Applied

variable {R : Refinery} {p : String} {ms : List (Migration R.Instant)} {k k' : Nat}
  {d d' : QueueSchema}

/-- The first `k` migrations are applied, each once and in order, and the history records them
    and no others. -/
structure AppliedTo (R : Refinery) (ms : List (Migration R.Instant)) (k : Nat)
    (d : QueueSchema) : Prop where
  relations : runDdl (statements (ms.take k)) [] = some d.relations
  history : ∃ rows, d.history = some rows ∧ List.Forall₂ (Recorded R) (ms.take k) rows

/-- Nothing is applied, or an initial segment of the migrations. -/
inductive Initial (R : Refinery) (ms : List (Migration R.Instant)) (d : QueueSchema) : Prop
  | fresh (hrelations : d.relations = []) (hhistory : d.history = none)
  | applied {k : Nat} (hk : k ≤ ms.length) (h : AppliedTo R ms k d)

/-- What `migrate` may do to the part of a prefix: create its history, or apply the next
    migration and record it. -/
inductive Advances (R : Refinery) (ms : List (Migration R.Instant)) (d d' : QueueSchema) : Prop
  | created (hrelations : d.relations = []) (hhistory : d.history = none)
      (h : AppliedTo R ms 0 d')
  | applied {k : Nat} (hk : k < ms.length) (h : AppliedTo R ms k d) (h' : AppliedTo R ms (k + 1) d')
      (hrows : ∃ rows row, d.history = some rows ∧ d'.history = some (rows ++ [row]))

/-- How far a queue is migrated shows in the length of its history. -/
theorem AppliedTo.length (h : AppliedTo R ms k d) (hk : k ≤ ms.length) :
    (d.history.getD []).length = k := by
  obtain ⟨rows, hrows, hrecorded⟩ := h.history
  rw [hrows, Option.getD_some, ← hrecorded.length_eq, List.length_take, Nat.min_eq_left hk]

/-- How far a prefix is migrated is determined by its state. -/
theorem AppliedTo.unique (h : AppliedTo R ms k d) (h' : AppliedTo R ms k' d) (hk : k ≤ ms.length)
    (hk' : k' ≤ ms.length) : k = k' :=
  (h.length hk).symm.trans (h'.length hk')

/-- A prefix that was migrated further can be migrated again. -/
theorem Advances.initial (h : Advances R ms d d') : Initial R ms d' := by
  cases h with
  | created _ _ h => exact .applied (Nat.zero_le _) h
  | applied hk _ h => exact .applied hk h

/-- What is applied stays applied. -/
theorem Advances.mono (h : Advances R ms d d') (hk : k ≤ ms.length) (hd : AppliedTo R ms k d) :
    ∃ k', k ≤ k' ∧ k' ≤ ms.length ∧ AppliedTo R ms k' d' := by
  cases h with
  | created _ hhistory =>
    obtain ⟨rows, hrows, -⟩ := hd.history
    rw [hhistory] at hrows
    cases hrows
  | applied hj hj' hnext =>
    have hjk := hj'.unique hd hj.le hk
    exact ⟨_, by omega, hj, hnext⟩

end Applied

/-- **The prefixes as guarded resources**: each under the advisory lock its hash names. -/
def Refinery.guarded (R : Refinery) :
    Guarded postgres String Int64 QueueSchema (Except MigrateError Unit) where
  key := advisoryLockId
  view p s := s.of p
  owner p a := a.On p
  act _ := Statement.act
  run_view s h := Statement.run_of h s
  run_other := Statement.run_other
  Allowed p d d' := ∃ ms, Plan R p ms ∧ Advances R ms d d'
  Post p result d := result = .ok () → ∃ ms, Plan R p ms ∧ AppliedTo R ms ms.length d

/-- Where the part of a prefix may stand. -/
def Migratable (R : Refinery) (p : String) (d : QueueSchema) : Prop :=
  ∃ ms, Plan R p ms ∧ Initial R ms d

end Venturi
