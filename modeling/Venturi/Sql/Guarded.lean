import Mathlib.Logic.Relation
import Venturi.Sql.Session

namespace Sql

open Trace Relation

/-!
# Resources guarded by session locks

A database holds several resources. Client code works on one of them, and only while its
session holds the lock of that resource; two resources may share a lock.

* `Guarded` — the resources, their locks, the changes each may undergo, and what a client's
  result says of its resource.
* `Disciplined` — code that locks before it looks, commits only allowed changes, and knows what
  it says when it returns.
* `Residue` — what cancelled clients may leave for the server to do on a session.
* `Moves` — what a step of one session is to the others.
-/

variable {ι κ ρ δ A R E β D : Type}

/-- Resources of a database, each under a lock. -/
structure Guarded (sem : Semantics δ A R) (ρ κ D β : Type) where
  key : ρ → κ
  /-- The part of the database that is the resource. -/
  view : ρ → δ → D
  /-- The statements on a resource. -/
  owner : ρ → A → Prop
  /-- What a statement does to its resource. -/
  act : ρ → A → D → Option (R × D)
  run_view : ∀ {p a} (db : δ), owner p a →
    (sem.run a db).map (fun x => (x.1, view p x.2)) = act p a (view p db)
  run_other : ∀ {p q a} {db : δ} {x : R × δ}, owner p a → q ≠ p → sem.run a db = some x →
    view q x.2 = view q db
  /-- The changes a resource may undergo. -/
  Allowed : ρ → D → D → Prop
  /-- What a result says of the resource. -/
  Post : ρ → β → D → Prop

namespace Guarded

variable {sem : Semantics δ A R} (G : Guarded sem ρ κ D β) {p q : ρ} {as : List A}

/-- Allowed changes, one after the other. -/
def Reach (p : ρ) : D → D → Prop := ReflTransGen (G.Allowed p)

/-- `K` held at some time, and the resource changed in allowed steps since. -/
def Past (p : ρ) (K : D → Prop) (d : D) : Prop := ∃ d₀, K d₀ ∧ G.Reach p d₀ d

variable {G}

/-- What a client knows now it knows of a past state. -/
theorem Past.now {K : D → Prop} {d : D} (h : K d) : G.Past p K d := ⟨d, h, .refl⟩

/-- What it knew stays in the past as the resource goes on. -/
theorem Past.trans {K : D → Prop} {d d' : D} (h : G.Past p K d) (hd : G.Reach p d d') :
    G.Past p K d' := by
  obtain ⟨d₀, hK, hreach⟩ := h
  exact ⟨d₀, hK, ReflTransGen.trans hreach hd⟩

theorem Past.imp {K K' : D → Prop} {d : D} (h : G.Past p K d) (hK : ∀ d, K d → K' d) :
    G.Past p K' d := by
  obtain ⟨d₀, h₀, hreach⟩ := h
  exact ⟨d₀, hK d₀ h₀, hreach⟩

/-! ### Statements on a resource -/

/-- The statements of an owner act on its part of the database. -/
theorem runAll_view (has : ∀ a ∈ as, G.owner p a) (db : δ) :
    (runAll sem.run as db).map (G.view p) = runAll (G.act p) as (G.view p db) := by
  induction as generalizing db with
  | nil => rfl
  | cons a as ih =>
    have hview := G.run_view db (has a List.mem_cons_self)
    simp only [runAll]
    rw [← hview]
    cases sem.run a db with
    | none => rfl
    | some x => exact ih (fun b hb => has b (List.mem_cons_of_mem _ hb)) x.2

/-- They leave the parts of the other resources alone. -/
theorem runAll_other {db db' : δ} (has : ∀ a ∈ as, G.owner p a) (hq : q ≠ p)
    (hrun : runAll sem.run as db = some db') : G.view q db' = G.view q db := by
  induction as generalizing db with
  | nil =>
    obtain rfl := Option.some.inj hrun
    rfl
  | cons a as ih =>
    obtain ⟨x, hx, hrest⟩ := Option.bind_eq_some_iff.mp hrun
    rw [ih (fun b hb => has b (List.mem_cons_of_mem _ hb)) hrest]
    exact G.run_other (has a List.mem_cons_self) hq hx

/-- The answer to a statement after others is that of the resource. -/
theorem bind_view {a : A} {db : δ} {x : R × δ} (has : ∀ b ∈ as, G.owner p b) (ha : G.owner p a)
    (hrun : (runAll sem.run as db).bind (sem.run a) = some x) :
    (runAll (G.act p) as (G.view p db)).bind (G.act p a) = some (x.1, G.view p x.2) := by
  obtain ⟨db', hdb', hx⟩ := Option.bind_eq_some_iff.mp hrun
  rw [← runAll_view has, hdb', Option.map_some, Option.bind_some, ← G.run_view _ ha, hx]
  rfl

end Guarded

/-! ### Disciplined code -/

/-- After the statements `as`, the statement `a` is valid and answers `r`. -/
def Answers (act : A → D → Option (R × D)) (as : List A) (a : A) (r : R) (d : D) : Prop :=
  ∃ d', (runAll act as d).bind (act a) = some (r, d')

/-- Every statement of a list that runs is valid in its place. -/
theorem answers_of_runAll {act : A → D → Option (R × D)} {as bs : List A} {a : A} {d d' : D}
    (h : runAll act (as ++ a :: bs) d = some d') : ∃ r, Answers act as a r d := by
  rw [runAll_append] at h
  obtain ⟨d₁, h₁, h₂⟩ := Option.bind_eq_some_iff.mp h
  obtain ⟨x, hx, -⟩ := Option.bind_eq_some_iff.mp h₂
  exact ⟨x.1, x.2, by rw [h₁, Option.bind_some, hx]⟩

/-- Where disciplined code stands, with what it knows of its resource. -/
inductive Stage (A D : Type) where
  /-- It has not taken the lock, or has given it back. -/
  | out (K : D → Prop)
  | held (K : D → Prop)
  /-- In a transaction, after these statements. -/
  | active (K : D → Prop) (as : List A)
  /-- In a transaction, after a statement failed. -/
  | broken (K : D → Prop)

/-- What the code knows: of the present while its session holds the lock, of the past after. -/
def Stage.knows : Stage A D → D → Prop
  | .out K | .held K | .active K _ | .broken K => K

/-- The same place, with other knowledge. -/
def Stage.withKnows (K : D → Prop) : Stage A D → Stage A D
  | .out _ => .out K
  | .held _ => .held K
  | .active _ as => .active K as
  | .broken _ => .broken K

/-- Code that works on `p` under its lock. -/
inductive Disciplined {sem : Semantics δ A R} (G : Guarded sem ρ κ D β) (p : ρ) :
    Stage A D → ClientCode κ A E R β → Prop
  | ret {K : D → Prop} {b : β} (hpost : ∀ d, K d → G.Post p b d) :
      Disciplined G p (.out K) (.ret b)
  | lock {K K' : D → Prop} {f : Except E R → ClientCode κ A E R β}
      (hK : ∀ d, G.Past p K d → K' d) (hok : ∀ r, Disciplined G p (.held K') (f (.ok r)))
      (herr : ∀ e, Disciplined G p (.out K) (f (.error e))) :
      Disciplined G p (.out K) (.op (.request (.lock (G.key p))) f)
  | unlock {K : D → Prop} {f : Except E R → ClientCode κ A E R β}
      (hnext : ∀ r, Disciplined G p (.out K) (f r)) :
      Disciplined G p (.held K) (.op (.request (.unlock (G.key p))) f)
  | begin {K : D → Prop} {f : Except E R → ClientCode κ A E R β}
      (hok : ∀ r, Disciplined G p (.active K []) (f (.ok r)))
      (herr : ∀ e, Disciplined G p (.held K) (f (.error e))) :
      Disciplined G p (.held K) (.op (.request .begin) f)
  /-- The statement is valid, and its answer tells of the resource. -/
  | exec {K : D → Prop} {as : List A} {a : A} {f : Except E R → ClientCode κ A E R β}
      (howner : G.owner p a)
      (hvalid : ∀ d, K d → ∃ r, Answers (G.act p) as a r d)
      (hok : ∀ r, (∃ d, K d ∧ Answers (G.act p) as a r d) → Disciplined G p
        (.active (fun d => K d ∧ Answers (G.act p) as a r d) (as ++ [a])) (f (.ok r)))
      (herr : ∀ e, Disciplined G p (.broken K) (f (.error e))) :
      Disciplined G p (.active K as) (.op (.request (.exec a)) f)
  | commit {K K' : D → Prop} {as : List A} {f : Except E R → ClientCode κ A E R β}
      (hK : ∀ d, K d → ∃ d', runAll (G.act p) as d = some d' ∧ G.Reach p d d' ∧ K' d')
      (hok : ∀ r, Disciplined G p (.held K') (f (.ok r)))
      (herr : ∀ e, Disciplined G p (.held K) (f (.error e))) :
      Disciplined G p (.active K as) (.op (.request .commit) f)
  | abandon {K : D → Prop} {f : Unit → ClientCode κ A E R β}
      (hnext : Disciplined G p (.held K) (f ())) :
      Disciplined G p (.broken K) (.op .abandon f)

namespace Disciplined

variable {sem : Semantics δ A R} {G : Guarded sem ρ κ D β} {p : ρ} {st : Stage A D}
  {code : ClientCode κ A E R β}

/-- An error teaches the code nothing, and it forgets nothing. -/
theorem error {r : Request κ A} {f : Except E R → ClientCode κ A E R β}
    (h : Disciplined G p st (.op (.request r) f)) (e : E) :
    ∃ st', Disciplined G p st' (f (.error e)) ∧ st'.knows = st.knows := by
  cases h with
  | lock _ _ herr => exact ⟨_, herr e, rfl⟩
  | unlock hnext => exact ⟨_, hnext (.error e), rfl⟩
  | begin _ herr => exact ⟨_, herr e, rfl⟩
  | exec _ _ _ herr => exact ⟨_, herr e, rfl⟩
  | commit _ _ herr => exact ⟨_, herr e, rfl⟩

/-- Code that knows more does not go wrong. -/
theorem weaken (h : Disciplined G p st code) {K : D → Prop} (hK : ∀ d, K d → st.knows d) :
    Disciplined G p (st.withKnows K) code := by
  induction h generalizing K with
  | ret hpost => exact .ret fun d hd => hpost d (hK d hd)
  | lock hlocked _ _ ihok iherr =>
    refine .lock (fun d hd => hlocked d (hd.imp hK)) (fun r => ihok r fun _ hd => hd) fun e => ?_
    exact iherr e hK
  | unlock _ ih => exact .unlock fun r => ih r hK
  | begin _ _ ihok iherr => exact .begin (fun r => ihok r hK) fun e => iherr e hK
  | exec howner hvalid _ _ ihok iherr =>
    refine .exec howner (fun d hd => hvalid d (hK d hd)) (fun r hr => ?_) fun e => iherr e hK
    obtain ⟨d, hd, hans⟩ := hr
    exact ihok r ⟨d, hK d hd, hans⟩ fun d hd => ⟨hK d hd.1, hd.2⟩
  | commit hcommit _ _ ihok iherr =>
    refine .commit (fun d hd => hcommit d (hK d hd)) (fun r => ihok r fun _ hd => hd) fun e => ?_
    exact iherr e hK
  | abandon _ ih => exact .abandon (ih hK)

end Disciplined

/-! ### What a session has left to do -/

variable {rs rs' : List (Request κ A)} {tx : Tx A}

/-- Requests nobody awaits, on a session without a transaction: what they begin they roll
    back. -/
inductive Drains : List (Request κ A) → Prop
  | nil : Drains []
  | lock {k : κ} {rs : List (Request κ A)} (h : Drains rs) : Drains (.lock k :: rs)
  | unlock {k : κ} {rs : List (Request κ A)} (h : Drains rs) : Drains (.unlock k :: rs)
  | rollback {rs : List (Request κ A)} (h : Drains rs) : Drains (.rollback :: rs)
  | begin {rs : List (Request κ A)} (h : Drains rs) : Drains (.begin :: .rollback :: rs)

theorem Drains.append (h : Drains rs) (h' : Drains rs') : Drains (rs ++ rs') := by
  induction h with
  | nil => exact h'
  | lock _ ih => exact .lock ih
  | unlock _ ih => exact .unlock ih
  | rollback _ ih => exact .rollback ih
  | begin _ ih => exact .begin ih

/-- Rollbacks drain. -/
theorem Drains.of_rollbacks (h : ∀ r ∈ rs, r = .rollback) : Drains rs := by
  induction rs with
  | nil => exact .nil
  | cons r rs ih =>
    obtain rfl := h r List.mem_cons_self
    exact .rollback (ih fun r' hr' => h r' (List.mem_cons_of_mem _ hr'))

/-- Requests nobody awaits: an open transaction is rolled back, or its commit, already sent, is
    one that `C` admits. -/
inductive Residue (C : List A → Prop) : Tx A → List (Request κ A) → Prop
  | idle {rs : List (Request κ A)} (h : Drains rs) : Residue C .idle rs
  | rollback {tx : Tx A} {rs : List (Request κ A)} (h : Drains rs) :
      Residue C tx (.rollback :: rs)
  | exec {tx : Tx A} {a : A} {rs : List (Request κ A)} (htx : tx ≠ .idle) (h : Drains rs) :
      Residue C tx (.exec a :: .rollback :: rs)
  | commit {as : List A} {rs : List (Request κ A)} (hC : C as) (h : Drains rs) :
      Residue C (.active as) (.commit :: rs)

namespace Residue

variable {C C' : List A → Prop}

theorem append (h : Residue C tx rs) (h' : Drains rs') : Residue C tx (rs ++ rs') := by
  cases h with
  | idle h => exact .idle (h.append h')
  | rollback h => exact .rollback (h.append h')
  | exec htx h => exact .exec htx (h.append h')
  | commit hC h => exact .commit hC (h.append h')

theorem imp (h : Residue C tx rs) (hC : ∀ as, C as → C' as) : Residue C' tx rs := by
  cases h with
  | idle h => exact .idle h
  | rollback h => exact .rollback h
  | exec htx h => exact .exec htx h
  | commit has h => exact .commit (hC _ has) h

/-- A session that only has rollbacks to do. -/
theorem of_rollbacks (h : ∀ r ∈ rs, r = .rollback) (htx : rs = [] → tx = .idle) :
    Residue C tx rs := by
  cases rs with
  | nil =>
    rw [htx rfl]
    exact .idle .nil
  | cons r rs =>
    obtain rfl := h r List.mem_cons_self
    exact .rollback (Drains.of_rollbacks fun r' hr' => h r' (List.mem_cons_of_mem _ hr'))

/-- After an error on the first request. -/
theorem fail {r : Request κ A} (h : Residue C tx (r :: rs)) (hr : r ≠ .rollback) :
    Residue C' (tx.spoil r) rs := by
  cases h with
  | idle h =>
    cases h with
    | lock h | unlock h => exact .idle h
    | rollback => exact absurd rfl hr
    | begin h => exact .rollback h
  | rollback => exact absurd rfl hr
  | exec _ h => exact .rollback h
  | commit _ h => exact .idle h

end Residue

/-! ### Holders -/

section Holders

variable {locks locks' : κ → Option (ι × Nat)} {s t : ι} {k : κ}

/-- Session `s` holds the lock `k`. -/
def Holds (locks : κ → Option (ι × Nat)) (s : ι) (k : κ) : Prop := ∃ n, locks k = some (s, n)

/-- A lock has at most one holder. -/
theorem Holds.unique (hs : Holds locks s k) (ht : Holds locks t k) : s = t := by
  obtain ⟨n, hs⟩ := hs
  obtain ⟨m, ht⟩ := ht
  rw [hs] at ht
  exact congrArg Prod.fst (Option.some.inj ht)

variable [DecidableEq ι]

/-- A session that releases all its locks holds none. -/
theorem releaseAll_self : ¬ Holds (releaseAll s locks) s k := by
  rintro ⟨n, h⟩
  obtain ⟨-, hs⟩ := Option.filter_eq_some_iff.mp h
  simp at hs

/-- The locks of the others stay as they are. -/
theorem releaseAll_other (hts : t ≠ s) (k : κ) (n : Nat) :
    releaseAll s locks k = some (t, n) ↔ locks k = some (t, n) := by
  simp [releaseAll, Option.filter_eq_some_iff, hts]

variable [DecidableEq κ]

/-- Who acquires a lock holds it. -/
theorem acquire_holds (h : acquire s locks k = some locks') : Holds locks' s k := by
  unfold acquire at h
  split at h
  · obtain rfl := Option.some.inj h
    exact ⟨0, Function.update_self ..⟩
  · split_ifs at h
    obtain rfl := Option.some.inj h
    exact ⟨_, Function.update_self ..⟩

/-- Taking a lock changes nothing for another session. -/
theorem acquire_other (h : acquire s locks k = some locks') (hts : t ≠ s) (k' : κ) (n : Nat) :
    locks' k' = some (t, n) ↔ locks k' = some (t, n) := by
  unfold acquire at h
  by_cases hk : k' = k
  · subst hk
    split at h
    next hnone =>
      obtain rfl := Option.some.inj h
      simp [hnone, Ne.symm hts]
    next u m hsome =>
      split_ifs at h with hu
      obtain rfl := Option.some.inj h
      simp [hsome, hu, Ne.symm hts]
  · split at h
    next =>
      obtain rfl := Option.some.inj h
      rw [Function.update_of_ne hk]
    next =>
      split_ifs at h
      obtain rfl := Option.some.inj h
      rw [Function.update_of_ne hk]

/-- Nor does giving one back. -/
theorem unlockOne_other (hts : t ≠ s) (k' : κ) (n : Nat) :
    unlockOne s locks k k' = some (t, n) ↔ locks k' = some (t, n) := by
  unfold unlockOne
  rcases hlocks : locks k with _ | ⟨u, _ | m⟩
  · exact Iff.rfl
  all_goals
    dsimp only
    split_ifs with hu
    · by_cases hk : k' = k
      · simp [hk, hlocks, hu, Ne.symm hts]
      · rw [Function.update_of_ne hk]
    · exact Iff.rfl

end Holders

/-! ### What a step of one session is to the others -/

section Moves

variable {sem : Semantics δ A R} (G : Guarded sem ρ κ D β)

/-- Session `s` turned the database and the locks into these: it changed resources it holds
    the lock of, in allowed steps, and left the locks of the others alone. -/
structure Moves (s : ι) (db : δ) (locks : κ → Option (ι × Nat)) (db' : δ)
    (locks' : κ → Option (ι × Nat)) : Prop where
  reach : ∀ p, G.Reach p (G.view p db) (G.view p db')
  mine : ∀ p, G.view p db' ≠ G.view p db → Holds locks s (G.key p)
  others : ∀ t, t ≠ s → ∀ k n, locks' k = some (t, n) ↔ locks k = some (t, n)

/-- A commit of session `s` would change its resource in allowed steps. -/
def Committable (db : δ) (locks : κ → Option (ι × Nat)) (s : ι) (as : List A) : Prop :=
  ∃ p, Holds locks s (G.key p) ∧ (∀ a ∈ as, G.owner p a) ∧
    ∃ d, runAll (G.act p) as (G.view p db) = some d ∧ G.Reach p (G.view p db) d

variable {G} {s t : ι} {db db' : δ} {locks locks' locks'' : κ → Option (ι × Nat)}

namespace Moves

/-- A step that changes the locks of its own session only moves nothing of the others. -/
theorem of_locks (h : ∀ t, t ≠ s → ∀ k n, locks' k = some (t, n) ↔ locks k = some (t, n)) :
    Moves G s db locks db locks' :=
  ⟨fun _ => .refl, fun _ hne => absurd rfl hne, h⟩

theorem refl : Moves G s db locks db locks := of_locks fun _ _ _ _ => Iff.rfl

/-- What the others hold, they hold as before. -/
theorem holds_iff (h : Moves G s db locks db' locks') (hts : t ≠ s) (k : κ) :
    Holds locks' t k ↔ Holds locks t k :=
  exists_congr (h.others t hts k)

/-- The resource another session holds the lock of stays as it is. -/
theorem view_eq (h : Moves G s db locks db' locks') (hts : t ≠ s) {p : ρ}
    (ht : Holds locks t (G.key p)) : G.view p db' = G.view p db := by
  by_contra hne
  exact hts (ht.unique (h.mine p hne))

/-- What another session has in its transaction can still be committed. -/
theorem committable (h : Moves G s db locks db' locks') (hts : t ≠ s) {as : List A}
    (hC : Committable G db locks t as) : Committable G db' locks' t as := by
  obtain ⟨p, hlock, howner, hrun⟩ := hC
  refine ⟨p, (h.holds_iff hts _).mpr hlock, howner, ?_⟩
  rwa [h.view_eq hts hlock]

end Moves

/-- A commit that `Committable` admits. -/
theorem Committable.moves {as : List A} (hC : Committable G db locks s as)
    (hrun : runAll sem.run as db = some db') : Moves G s db locks db' locks := by
  obtain ⟨p, hlock, howner, d, hact, hreach⟩ := hC
  have hd : G.view p db' = d := by
    have hview := Guarded.runAll_view howner db
    rw [hrun, hact] at hview
    exact Option.some.inj hview
  refine ⟨fun q => ?_, fun q hne => ?_, fun _ _ _ _ => Iff.rfl⟩
  · by_cases hq : q = p
    · subst hq
      rwa [hd]
    · rw [Guarded.runAll_other howner hq hrun]
      exact .refl
  · by_cases hq : q = p
    · exact hq ▸ hlock
    · exact absurd (Guarded.runAll_other howner hq hrun) hne

variable [DecidableEq ι]

/-- The session closes after its move. -/
theorem Moves.release (h : Moves G s db locks db' locks') :
    Moves G s db locks db' (releaseAll s locks') where
  reach := h.reach
  mine := h.mine
  others t hts k n := (releaseAll_other hts k n).trans (h.others t hts k n)

variable [DecidableEq κ]

/-- A request the server carries out, when it neither writes outside a transaction nor commits
    what it should not. -/
theorem moves_of_serve {r : Request κ A} {a : R} {y : Backend ι κ δ A}
    (h : (Backend.mk db locks tx).serve sem s r = some (a, y))
    (hexec : ∀ a, r = .exec a → tx ≠ .idle)
    (hcommit : ∀ as, r = .commit → tx = .active as → Committable G db locks s as) :
    Moves G s db locks y.db y.locks := by
  cases r with
  | begin =>
    cases tx <;> obtain ⟨rfl, rfl⟩ := Prod.mk.inj (Option.some.inj h) <;> exact Moves.refl
  | exec b =>
    cases tx with
    | idle => exact absurd rfl (hexec b rfl)
    | active as =>
      obtain ⟨x, -, hy⟩ := Option.map_eq_some_iff.mp h
      obtain ⟨rfl, rfl⟩ := Prod.mk.inj hy
      exact Moves.refl
    | aborted => cases h
  | commit =>
    cases tx with
    | active as =>
      obtain ⟨db', hrun, hy⟩ := Option.map_eq_some_iff.mp h
      obtain ⟨rfl, rfl⟩ := Prod.mk.inj hy
      exact (hcommit as rfl rfl).moves hrun
    | idle | aborted =>
      obtain ⟨rfl, rfl⟩ := Prod.mk.inj (Option.some.inj h)
      exact Moves.refl
  | rollback =>
    obtain ⟨rfl, rfl⟩ := Prod.mk.inj (Option.some.inj h)
    exact Moves.refl
  | lock k =>
    obtain ⟨locks', hlocks, hy⟩ := Option.map_eq_some_iff.mp h
    obtain ⟨rfl, rfl⟩ := Prod.mk.inj hy
    exact Moves.of_locks fun t hts => acquire_other hlocks hts
  | unlock k =>
    obtain ⟨rfl, rfl⟩ := Prod.mk.inj (Option.some.inj h)
    exact Moves.of_locks fun t hts => unlockOne_other hts

/-- What an orphan does, and what is left after it. -/
theorem Residue.serve {r : Request κ A} {a : R} {y : Backend ι κ δ A} {C : List A → Prop}
    (hres : Residue (Committable G db locks s) tx (r :: rs))
    (h : (Backend.mk db locks tx).serve sem s r = some (a, y)) :
    Moves G s db locks y.db y.locks ∧ Residue C y.tx rs := by
  constructor
  · refine moves_of_serve h (fun b hb => ?_) (fun as hr htx => ?_)
    · subst hb
      cases hres with
      | idle h => cases h
      | exec htx => exact htx
    · subst hr htx
      cases hres with
      | commit hC => exact hC
  · cases hres with
    | idle hdrain =>
      cases hdrain with
      | lock hdrain =>
        obtain ⟨_, -, hy⟩ := Option.map_eq_some_iff.mp h
        obtain ⟨rfl, rfl⟩ := Prod.mk.inj hy
        exact .idle hdrain
      | unlock hdrain | rollback hdrain =>
        obtain ⟨rfl, rfl⟩ := Prod.mk.inj (Option.some.inj h)
        exact .idle hdrain
      | begin hdrain => exact .rollback hdrain
    | rollback hdrain =>
      obtain ⟨rfl, rfl⟩ := Prod.mk.inj (Option.some.inj h)
      exact .idle hdrain
    | exec _ hdrain => exact .rollback hdrain
    | commit _ hdrain =>
      obtain ⟨_, -, hy⟩ := Option.map_eq_some_iff.mp h
      obtain ⟨rfl, rfl⟩ := Prod.mk.inj hy
      exact .idle hdrain

end Moves

end Sql
