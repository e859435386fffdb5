import Venturi.Sql.Guarded

namespace Sql

open Trace Relation

/-!
# Runs of disciplined clients

* `Ok` — what holds of one session, whatever was cancelled on it before.
* `Sound` — it holds of every session, and every resource had a past that allows what it is.
  `Sound.step`: every step of the system keeps it.
* `sound_of_run` / `returned_post` — **the rule**: when every client is disciplined, in every run
  each resource changes in allowed steps only, and what a client returned is true of it.
-/

variable {ι κ ρ δ A R E β D : Type} {sem : Semantics δ A R} {G : Guarded sem ρ κ D β}

/-- What holds of session `s` whose clients are disciplined. -/
inductive Ok (G : Guarded sem ρ κ D β) (db : δ) (locks : κ → Option (ι × Nat)) (s : ι) :
    Session κ ρ A R E β → Prop
  | free {tx : Tx A} {orphans : List (Request κ A)}
      (hres : Residue (Committable G db locks s) tx orphans) :
      Ok G db locks s ⟨true, tx, orphans, none⟩
  | out {tx : Tx A} {orphans : List (Request κ A)} {p : ρ} {code : ClientCode κ A E R β}
      {K : D → Prop} (hres : Residue (Committable G db locks s) tx orphans)
      (hcode : Disciplined G p (.out K) code) (hK : G.Past p K (G.view p db)) :
      Ok G db locks s ⟨true, tx, orphans, some ⟨p, code, false⟩⟩
  | held {tx : Tx A} {orphans : List (Request κ A)} {p : ρ} {code : ClientCode κ A E R β}
      {K : D → Prop} (hrolls : ∀ r ∈ orphans, r = .rollback) (htx : orphans = [] → tx = .idle)
      (hcode : Disciplined G p (.held K) code) (hlock : Holds locks s (G.key p))
      (hK : K (G.view p db)) :
      Ok G db locks s ⟨true, tx, orphans, some ⟨p, code, false⟩⟩
  | active {p : ρ} {code : ClientCode κ A E R β} {K : D → Prop} {as : List A}
      (howner : ∀ a ∈ as, G.owner p a) (hcode : Disciplined G p (.active K as) code)
      (hlock : Holds locks s (G.key p)) (hK : K (G.view p db)) :
      Ok G db locks s ⟨true, .active as, [], some ⟨p, code, true⟩⟩
  | broken {tx : Tx A} {p : ρ} {code : ClientCode κ A E R β} {K : D → Prop}
      (hcode : Disciplined G p (.broken K) code) (hlock : Holds locks s (G.key p))
      (hK : K (G.view p db)) :
      Ok G db locks s ⟨true, tx, [], some ⟨p, code, true⟩⟩
  | closed (hlocks : ∀ k, ¬ Holds locks s k) : Ok G db locks s ⟨false, .idle, [], none⟩
  /-- The connection is gone, and the client has not noticed or is ending. -/
  | dead {p : ρ} {code : ClientCode κ A E R β} {inTx : Bool} {st : Stage A D}
      (hlocks : ∀ k, ¬ Holds locks s k) (hcode : Disciplined G p st code)
      (hK : G.Past p st.knows (G.view p db)) :
      Ok G db locks s ⟨false, .idle, [], some ⟨p, code, inTx⟩⟩

namespace Ok

variable {s t : ι} {db db' : δ} {locks locks' : κ → Option (ι × Nat)}
  {c : Session κ ρ A R E β} {client : Client κ ρ A R E β}

/-- The client of a session, and what it knows. -/
theorem stage (h : Ok G db locks s c) (hclient : c.client = some client) :
    ∃ st, Disciplined G client.resource st client.code ∧
      G.Past client.resource st.knows (G.view client.resource db) := by
  cases h with
  | free | closed => cases hclient
  | out _ hcode hK | dead _ hcode hK =>
    obtain rfl := Option.some.inj hclient
    exact ⟨_, hcode, hK⟩
  | held _ _ hcode _ hK | active _ hcode _ hK | broken hcode _ hK =>
    obtain rfl := Option.some.inj hclient
    exact ⟨_, hcode, .now hK⟩

/-- **Frame.** A move of another session. -/
theorem frame (h : Ok G db locks t c) (hts : t ≠ s) (hmove : Moves G s db locks db' locks') :
    Ok G db' locks' t c := by
  have hlock {p : ρ} (ht : Holds locks t (G.key p)) : Holds locks' t (G.key p) :=
    (hmove.holds_iff hts _).mpr ht
  cases h with
  | free hres => exact .free (hres.imp fun _ => hmove.committable hts)
  | out hres hcode hK =>
    exact .out (hres.imp fun _ => hmove.committable hts) hcode (hK.trans (hmove.reach _))
  | held hrolls htx hcode ht hK =>
    exact .held hrolls htx hcode (hlock ht) (by rwa [hmove.view_eq hts ht])
  | active howner hcode ht hK =>
    exact .active howner hcode (hlock ht) (by rwa [hmove.view_eq hts ht])
  | broken hcode ht hK => exact .broken hcode (hlock ht) (by rwa [hmove.view_eq hts ht])
  | closed hlocks => exact .closed fun k ht => hlocks k ((hmove.holds_iff hts k).mp ht)
  | dead hlocks hcode hK =>
    exact .dead (fun k ht => hlocks k ((hmove.holds_iff hts k).mp ht)) hcode
      (hK.trans (hmove.reach _))

/-! ### What a session does -/

section Serve

variable [DecidableEq ι] [DecidableEq κ] {r : Request κ A} {a : R} {y : Backend ι κ δ A} {e : E}

/-- The server carries out the next request of a session. -/
theorem moves (h : Ok G db locks s c) (halive : c.alive) (hnext : c.next? = some r)
    (hserve : (Backend.mk db locks c.tx).serve sem s r = some (a, y)) :
    Moves G s db locks y.db y.locks := by
  cases h with
  | @free tx orphans hres =>
    cases orphans with
    | nil => cases hnext
    | cons r' rs =>
      -- an orphan: what a cancelled client left
      obtain rfl := Option.some.inj hnext
      exact (Residue.serve (C := fun _ => True) hres hserve).1
  | @out tx orphans p code K hres hcode hK =>
    cases orphans with
    | cons r' rs =>
      obtain rfl := Option.some.inj hnext
      exact (Residue.serve (C := fun _ => True) hres hserve).1
    | nil =>
      cases hcode with
      | ret => cases hnext
      | lock =>
        obtain rfl := Option.some.inj hnext
        exact moves_of_serve hserve (fun _ h => by cases h) (fun _ h => by cases h)
  | @held tx orphans p code K hrolls htx hcode hlock hK =>
    cases orphans with
    | cons r' rs =>
      obtain rfl := Option.some.inj hnext
      obtain rfl := hrolls r' List.mem_cons_self
      exact moves_of_serve hserve (fun _ h => by cases h) (fun _ h => by cases h)
    | nil =>
      cases hcode with
      | unlock | begin =>
        obtain rfl := Option.some.inj hnext
        exact moves_of_serve hserve (fun _ h => by cases h) (fun _ h => by cases h)
  | @active p code K as howner hcode hlock hK =>
    cases hcode with
    | exec =>
      obtain rfl := Option.some.inj hnext
      exact moves_of_serve hserve (fun _ _ h => by cases h) (fun _ h => by cases h)
    | commit hcommit =>
      -- the others see the resource of the lock change, as its owner may change it
      obtain rfl := Option.some.inj hnext
      refine moves_of_serve hserve (fun _ h => by cases h) (fun as' _ has => ?_)
      cases has
      obtain ⟨d, hrun, hreach, -⟩ := hcommit _ hK
      exact ⟨p, hlock, howner, d, hrun, hreach⟩
  | broken hcode hlock hK =>
    cases hcode with
    | abandon => cases hnext
  | closed | dead => cases halive

/-- A request that the server answers leaves the session in order. -/
theorem served (h : Ok G db locks s c) (halive : c.alive) (hnext : c.next? = some r)
    (hserve : (Backend.mk db locks c.tx).serve sem s r = some (a, y)) :
    Ok G y.db y.locks s ((c.withTx y.tx).answered (.ok a)) := by
  cases h with
  | @free tx orphans hres =>
    cases orphans with
    | nil => cases hnext
    | cons r' rs =>
      obtain rfl := Option.some.inj hnext
      exact .free (hres.serve hserve).2
  | @out tx orphans p code K hres hcode hK =>
    cases orphans with
    | cons r' rs =>
      obtain rfl := Option.some.inj hnext
      obtain ⟨hmove, hrest⟩ := hres.serve hserve
      exact .out hrest hcode (hK.trans (hmove.reach p))
    | nil =>
      cases hcode with
      | ret => cases hnext
      | lock hlocked hok =>
        -- the lock is granted: what is known of the past holds now
        obtain rfl := Option.some.inj hnext
        obtain ⟨locks', hlocks, hy⟩ := Option.map_eq_some_iff.mp hserve
        obtain ⟨rfl, rfl⟩ := Prod.mk.inj hy
        cases hres with
        | idle =>
          exact .held (List.forall_mem_nil _) (fun _ => rfl) (hok _) (acquire_holds hlocks)
            (hlocked _ hK)
  | @held tx orphans p code K hrolls htx hcode hlock hK =>
    cases orphans with
    | cons r' rs =>
      obtain rfl := Option.some.inj hnext
      obtain ⟨hr, hrs⟩ := List.forall_mem_cons.mp hrolls
      subst hr
      obtain ⟨rfl, rfl⟩ := Prod.mk.inj (Option.some.inj hserve)
      exact .held hrs (fun _ => rfl) hcode hlock hK
    | nil =>
      obtain rfl := htx rfl
      cases hcode with
      | unlock hcode =>
        -- without the lock, what is known is of the past again
        obtain rfl := Option.some.inj hnext
        obtain ⟨rfl, rfl⟩ := Prod.mk.inj (Option.some.inj hserve)
        exact .out (.idle .nil) (hcode _) (.now hK)
      | begin hok =>
        obtain rfl := Option.some.inj hnext
        obtain ⟨rfl, rfl⟩ := Prod.mk.inj (Option.some.inj hserve)
        exact .active (List.forall_mem_nil _) (hok _) hlock hK
  | @active p code K as howner hcode hlock hK =>
    cases hcode with
    | exec ha _ hok =>
      -- the answer is one that the statements so far can get
      obtain rfl := Option.some.inj hnext
      obtain ⟨x, hx, hy⟩ := Option.map_eq_some_iff.mp hserve
      obtain ⟨rfl, rfl⟩ := Prod.mk.inj hy
      have hans : Answers (G.act p) as _ x.1 (G.view p db) :=
        ⟨_, Guarded.bind_view howner ha hx⟩
      refine .active ?_ (hok _ ⟨_, hK, hans⟩) hlock ⟨hK, hans⟩
      exact List.forall_mem_append.mpr ⟨howner, List.forall_mem_singleton.mpr ha⟩
    | commit hcommit hok =>
      -- the database commits what the statements do to the part of the owner
      obtain rfl := Option.some.inj hnext
      obtain ⟨db', hrun, hy⟩ := Option.map_eq_some_iff.mp hserve
      obtain ⟨rfl, rfl⟩ := Prod.mk.inj hy
      obtain ⟨d, hd, -, hK'⟩ := hcommit _ hK
      rw [← Guarded.runAll_view howner, hrun] at hd
      obtain rfl := Option.some.inj hd
      exact .held (List.forall_mem_nil _) (fun _ => rfl) (hok _) hlock hK'
  | broken hcode hlock hK =>
    cases hcode with
    | abandon => cases hnext
  | closed | dead => cases halive

end Serve

theorem failed {r : Request κ A} (h : Ok G db locks s c) (halive : c.alive)
    (hnext : c.next? = some r) (hr : r ≠ .rollback) (e : E) :
    Ok G db locks s ((c.withTx (c.tx.spoil r)).answered (.error e)) := by
  cases h with
  | @free tx orphans hres =>
    cases orphans with
    | nil => cases hnext
    | cons r' rs =>
      obtain rfl := Option.some.inj hnext
      exact .free (hres.fail hr)
  | @out tx orphans p code K hres hcode hK =>
    cases orphans with
    | cons r' rs =>
      obtain rfl := Option.some.inj hnext
      exact .out (hres.fail hr) hcode hK
    | nil =>
      cases hcode with
      | ret => cases hnext
      | lock _ _ herr =>
        obtain rfl := Option.some.inj hnext
        cases hres with
        | idle => exact .out (.idle .nil) (herr e) hK
  | @held tx orphans p code K hrolls htx hcode hlock hK =>
    cases orphans with
    | cons r' rs =>
      obtain rfl := Option.some.inj hnext
      exact absurd (hrolls r' List.mem_cons_self) hr
    | nil =>
      obtain rfl := htx rfl
      cases hcode with
      | unlock hcode =>
        -- the lock may be held on, but the code no longer relies on it
        obtain rfl := Option.some.inj hnext
        exact .out (.idle .nil) (hcode _) (.now hK)
      | begin _ herr =>
        obtain rfl := Option.some.inj hnext
        -- the rollback that follows a failed begin
        exact .held (List.forall_mem_singleton.mpr rfl) (fun h => by cases h) (herr e) hlock hK
  | @active p code K as howner hcode hlock hK =>
    cases hcode with
    | exec _ _ _ herr =>
      obtain rfl := Option.some.inj hnext
      exact .broken (herr e) hlock hK
    | commit _ _ herr =>
      obtain rfl := Option.some.inj hnext
      exact .held (List.forall_mem_nil _) (fun _ => rfl) (herr e) hlock hK
  | broken hcode hlock hK =>
    cases hcode with
    | abandon => cases hnext
  | closed | dead => cases halive

/-- The connection is gone while the client awaits an answer. -/
theorem died {r : Request κ A} (h : Ok G db locks s c) (hclient : c.client = some client)
    (hrequest : client.request? = some r) (e : E)
    (hreach : ∀ p, G.Reach p (G.view p db) (G.view p db')) (hlocks : ∀ k, ¬ Holds locks' s k) :
    Ok G db' locks' s (c.resume client (.error e)).closed := by
  obtain ⟨st, hcode, hK⟩ := h.stage hclient
  obtain ⟨p, code, inTx⟩ := client
  cases code with
  | ret => cases hrequest
  | op o k =>
    cases o with
    | abandon => cases hrequest
    | request r' =>
      obtain ⟨st', hcode', hknows⟩ := hcode.error e
      have hK' := hK.trans (hreach p)
      rw [← hknows] at hK'
      cases r' <;> exact .dead hlocks hcode' hK'

/-- The connection closes under a client that awaits nothing. -/
theorem close (h : Ok G db locks s c) (hlocks : ∀ k, ¬ Holds locks' s k) :
    Ok G db locks' s c.closed := by
  obtain ⟨alive, tx, orphans, client⟩ := c
  cases client with
  | none => exact .closed hlocks
  | some client =>
    obtain ⟨st, hcode, hK⟩ := h.stage rfl
    exact .dead hlocks hcode hK

theorem abandoned {k : Unit → ClientCode κ A E R β} (h : Ok G db locks s c)
    (hclient : c.client = some client) (hcode : client.code = .op .abandon k) :
    Ok G db locks s (c.abandon client (k ())) := by
  cases h with
  | free | closed => cases hclient
  | out _ hdisc | held _ _ hdisc | active _ hdisc =>
    obtain rfl := Option.some.inj hclient
    obtain rfl := hcode
    cases hdisc
  | broken hdisc hlock hK =>
    obtain rfl := Option.some.inj hclient
    obtain rfl := hcode
    cases hdisc with
    | abandon hnext =>
      exact .held (List.forall_mem_singleton.mpr rfl) (fun h => by cases h) hnext hlock hK
  | dead hlocks hdisc hK =>
    obtain rfl := Option.some.inj hclient
    obtain rfl := hcode
    cases hdisc with
    | abandon hnext => exact .dead hlocks hnext hK

/-- What a cancelled client leaves behind. -/
theorem cancelled (h : Ok G db locks s c) (hclient : c.client = some client) (sent : Bool) :
    Ok G db locks s (c.cancel client sent) := by
  cases h with
  | free | closed => cases hclient
  | out hres hcode =>
    obtain rfl := Option.some.inj hclient
    refine .free (hres.append ?_)
    cases hcode with
    | ret => exact .nil
    -- a request that was sent may still be granted
    | lock => cases sent <;> first | exact .nil | exact .lock .nil
  | held hrolls htx hcode =>
    obtain rfl := Option.some.inj hclient
    refine .free ((Residue.of_rollbacks hrolls htx).append ?_)
    cases hcode with
    | unlock => cases sent <;> first | exact .nil | exact .unlock .nil
    | begin => cases sent <;> first | exact .nil | exact .begin .nil
  | active howner hcode hlock hK =>
    obtain rfl := Option.some.inj hclient
    cases hcode with
    | exec =>
      cases sent with
      | true => exact .free (.exec (fun h => by cases h) .nil)
      | false => exact .free (.rollback .nil)
    | commit hcommit =>
      -- a commit that was sent may still be carried out
      cases sent with
      | true =>
        obtain ⟨d, hrun, hreach, -⟩ := hcommit _ hK
        exact .free (.commit ⟨_, hlock, howner, d, hrun, hreach⟩ .nil)
      | false => exact .free (.rollback .nil)
  | broken hcode =>
    obtain rfl := Option.some.inj hclient
    cases hcode with
    | abandon => exact .free (.rollback .nil)
  | dead hlocks => exact .closed hlocks

/-- A client that returned says what is true of its resource. -/
theorem returned {b : β} (h : Ok G db locks s c) (hclient : c.client = some client)
    (hcode : client.code = .ret b) :
    Ok G db locks s c.giveBack ∧
      G.Past client.resource (G.Post client.resource b) (G.view client.resource db) := by
  cases h with
  | free | closed => cases hclient
  | held _ _ hdisc | active _ hdisc | broken hdisc =>
    obtain rfl := Option.some.inj hclient
    obtain rfl := hcode
    cases hdisc
  | out hres hdisc hK =>
    obtain rfl := Option.some.inj hclient
    obtain rfl := hcode
    cases hdisc with
    | ret hpost => exact ⟨.free hres, hK.imp hpost⟩
  | dead hlocks hdisc hK =>
    obtain rfl := Option.some.inj hclient
    obtain rfl := hcode
    cases hdisc with
    | ret hpost => exact ⟨.closed hlocks, hK.imp hpost⟩

end Ok

/-! ### Runs -/

section Runs

variable {I : ρ → D → Prop} {code : ρ → ClientCode κ A E R β} {x x' x₀ : System ι κ ρ δ A R E β}
  {s : ι}

/-- Every session is in order, and each resource satisfied `I` once and changed in allowed
    steps since. -/
structure Sound (G : Guarded sem ρ κ D β) (I : ρ → D → Prop) (x : System ι κ ρ δ A R E β) :
    Prop where
  sessions : ∀ s, Ok G x.db x.locks s (x.sessions s)
  past : ∀ p, G.Past p (I p) (G.view p x.db)

variable [DecidableEq ι]

/-- A move of session `s` that leaves it in order. -/
theorem Sound.move {db : δ} {locks : κ → Option (ι × Nat)} {c : Session κ ρ A R E β}
    (h : Sound G I x) (hmove : Moves G s x.db x.locks db locks) (hok : Ok G db locks s c) :
    Sound G I ({ x with db, locks }.set s c) where
  sessions t := by
    by_cases hts : t = s
    · subst hts
      simpa [System.set] using hok
    · simpa [System.set, Function.update_of_ne hts] using (h.sessions t).frame hts hmove
  past p := (h.past p).trans (hmove.reach p)

/-- A step of session `s` that leaves database and locks alone. -/
theorem Sound.set {c : Session κ ρ A R E β} (h : Sound G I x) (hok : Ok G x.db x.locks s c) :
    Sound G I (x.set s c) :=
  h.move Moves.refl hok

variable [DecidableEq κ]

/-- **One step.** The system stays sound, and every resource goes on as its owners allow. -/
theorem Sound.step {l : Label ι ρ E β} (h : Sound G I x)
    (hcode : ∀ p, Disciplined G p (.out (I p)) (code p)) (hs : System.Step sem code x l x') :
    Sound G I x' ∧ ∀ p, G.Reach p (G.view p x.db) (G.view p x'.db) := by
  cases hs with
  | @start s p halive hfree =>
    have hok := h.sessions s
    refine ⟨h.set ?_, fun _ => .refl⟩
    generalize x.sessions s = c at hok halive hfree
    cases hok with
    | free hres => exact .out hres (hcode p) (h.past p)
    | closed => cases halive
    | out | held | active | broken | dead => cases hfree
  | @served s r a y halive hnext hserve =>
    have hmove := (h.sessions s).moves halive hnext hserve
    exact ⟨h.move hmove ((h.sessions s).served halive hnext hserve), hmove.reach⟩
  | @failed s r e halive hnext hr =>
    exact ⟨h.set ((h.sessions s).failed halive hnext hr e), fun _ => .refl⟩
  | @lost s c r a y e halive horphans hclient hrequest hserve =>
    -- the server carried it out, and released what the session held
    have hnext : (x.sessions s).next? = some r := by
      rw [Session.next?, horphans, hclient]
      exact hrequest
    have hmove := ((h.sessions s).moves halive hnext hserve).release
    refine ⟨h.move hmove ?_, hmove.reach⟩
    exact (h.sessions s).died hclient hrequest e hmove.reach fun _ => releaseAll_self
  | @refused s c r e hdead hclient hrequest =>
    have hlocks : ∀ k, ¬ Holds x.locks s k := by
      have hok := h.sessions s
      generalize x.sessions s = c' at hok hdead hclient
      cases hok with
      | closed hlocks | dead hlocks => exact hlocks
      | free | out | held | active | broken => exact absurd rfl hdead
    exact ⟨h.set ((h.sessions s).died hclient hrequest e (fun _ => .refl) hlocks), fun _ => .refl⟩
  | @abandoned s c k hclient hcode' =>
    exact ⟨h.set ((h.sessions s).abandoned hclient hcode'), fun _ => .refl⟩
  | @cancelled s c sent hclient =>
    exact ⟨h.set ((h.sessions s).cancelled hclient sent), fun _ => .refl⟩
  | @returned s c b hclient hcode' =>
    exact ⟨h.set ((h.sessions s).returned hclient hcode').1, fun _ => .refl⟩
  | @closed s halive =>
    have hmove : Moves G s x.db x.locks x.db (releaseAll s x.locks) := Moves.refl.release
    exact ⟨h.move hmove ((h.sessions s).close fun _ => releaseAll_self), fun _ => .refl⟩

variable {tr : List (Move (System ι κ ρ δ A R E β) (Label ι ρ E β))}

/-- **The rule.** When every client is disciplined, every session stays in order. -/
theorem sound_of_run (h₀ : Sound G I x₀) (hcode : ∀ p, Disciplined G p (.out (I p)) (code p))
    (h : Run x₀ (fun _ => System.Step sem code) tr x) : Sound G I x :=
  h.invariant (I := fun _ x => Sound G I x) h₀ fun _ _ _ _ _ hsound hs =>
    (hsound.step hcode hs).1

/-- From every step of a run to its end, each resource changed in allowed steps. -/
theorem reach_since (h₀ : Sound G I x₀) (hcode : ∀ p, Disciplined G p (.out (I p)) (code p))
    (h : Run x₀ (fun _ => System.Step sem code) tr x)
    {m : Move (System ι κ ρ δ A R E β) (Label ι ρ E β)} (hm : m ∈ tr) (p : ρ) :
    G.Reach p (G.view p m.before.db) (G.view p x.db) := by
  obtain ⟨tr₁, tr₂, rfl⟩ := List.append_of_mem hm
  refine h.since (J := fun _ x => G.Reach p (G.view p m.before.db) (G.view p x.db)) ?_ ?_
  · exact fun hbefore hs => ((sound_of_run h₀ hcode hbefore).step hcode hs).2 p
  · intro _ _ _ _ hbefore hreach hs
    exact ReflTransGen.trans hreach (((sound_of_run h₀ hcode hbefore).step hcode hs).2 p)

/-- What a client returned was true of its resource, which changed in allowed steps since. -/
theorem returned_post (h₀ : Sound G I x₀) (hcode : ∀ p, Disciplined G p (.out (I p)) (code p))
    (h : Run x₀ (fun _ => System.Step sem code) tr x)
    {m : Move (System ι κ ρ δ A R E β) (Label ι ρ E β)} (hm : m ∈ tr) {p : ρ} {b : β}
    (hlabel : m.label = .returned s p b) : G.Past p (G.Post p b) (G.view p x.db) := by
  obtain ⟨tr₁, tr₂, rfl⟩ := List.append_of_mem hm
  refine h.since (J := fun _ x => G.Past p (G.Post p b) (G.view p x.db)) ?_ ?_
  · intro hbefore hs
    have hsound := sound_of_run h₀ hcode hbefore
    generalize m.after = x₁ at hs
    rw [hlabel] at hs
    cases hs with
    | returned hclient hcode' => exact ((hsound.sessions s).returned hclient hcode').2
  · intro _ x₁ _ _ hbefore hpast hs
    exact hpast.trans (((sound_of_run h₀ hcode hbefore).step hcode hs).2 p)

end Runs

end Sql
