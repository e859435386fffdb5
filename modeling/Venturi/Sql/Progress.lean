import Venturi.Sql.Leak

namespace Sql

open Trace

/-!
# Clients that can go on

* `Trouble` — the steps after which a lock may outlive its client: a cancellation, and an
  unlock that fails.
* `Calm` — each session holds its locks exactly as often as its client will give them back.
* `Calm.holder` — so whoever holds a lock has a client past it, which waits for no other.
* `serve_inside` — no statement of disciplined code is invalid.
* `Calm.advance` — every client can go on, or the one that holds its lock can.
-/

variable {ι κ ρ δ A R E β D : Type} {sem : Semantics δ A R} {G : Guarded sem ρ κ D β}
  {I : ρ → D → Prop} {code : ρ → ClientCode κ A E R β} {x x' x₀ : System ι κ ρ δ A R E β}
  {s t : ι} {k : κ} {l : Label ι ρ E β}

/-- A valid statement of a resource is one of the database. -/
theorem Guarded.serve_exec {p : ρ} {as : List A} {a : A} {db : δ} {d : R × D}
    (has : ∀ b ∈ as, G.owner p b) (ha : G.owner p a)
    (hact : (runAll (G.act p) as (G.view p db)).bind (G.act p a) = some d) :
    ∃ y, (runAll sem.run as db).bind (sem.run a) = some y := by
  rw [← Guarded.runAll_view has] at hact
  cases hrun : runAll sem.run as db with
  | none => simp [hrun] at hact
  | some db' =>
    rw [hrun, Option.map_some, Option.bind_some, ← G.run_view db' ha] at hact
    obtain ⟨y, hy, -⟩ := Option.map_eq_some_iff.mp hact
    exact ⟨y, hy⟩

/-- A step after which a lock may outlive its client. -/
def Trouble (x : System ι κ ρ δ A R E β) : Label ι ρ E β → Prop
  | .cancelled _ _ _ => True
  | .failed s _ => ∃ k, (x.sessions s).next? = some (.unlock k)
  | _ => False

/-- A client goes on: its request is answered, or it drops its transaction, or it returns. -/
def Label.Advances : Label ι ρ E β → Prop
  | .served _ | .refused _ _ | .abandoned _ | .returned _ _ _ => True
  | _ => False

/-- The orphans after an answer: one less, or a rollback more. -/
theorem rolls_answered {c : Session κ ρ A R E β} {answer : Except E R} {tx : Tx A}
    (h : ∀ r ∈ c.orphans, r = .rollback) :
    ∀ r ∈ ((c.withTx tx).answered answer).orphans, r = .rollback := by
  rcases horphans : c.orphans with _ | ⟨r, rs⟩
  · rcases hclient : c.client with _ | client
    · simp [Session.answered, Session.withTx, horphans, hclient]
    · obtain ⟨p, code, inTx⟩ := client
      simp only [Session.answered, Session.withTx, horphans, hclient]
      cases code with
      | ret => simp [Session.resume]
      | op o f =>
        cases o with
        | abandon => simp [Session.resume]
        | request r => cases r <;> cases answer <;> simp [Session.resume]
  · rw [horphans] at h
    simpa [Session.answered, Session.withTx, horphans] using (List.forall_mem_cons.mp h).2

/-- A step that advances is no trouble. -/
theorem Label.Advances.not_trouble (h : l.Advances) : ¬ Trouble x l := by
  cases l <;> first | exact id | exact h.elim

variable [DecidableEq ι] [DecidableEq κ]

/-- The step that a session has ahead advances. -/
theorem advances_of_advance (h : x.advance sem s = some (l, x')) : l.Advances := by
  unfold System.advance at h
  split at h
  · cases h
  · split at h
    · obtain ⟨rfl, -⟩ := Prod.mk.inj (Option.some.inj h)
      exact trivial
    · obtain ⟨rfl, -⟩ := Prod.mk.inj (Option.some.inj h)
      exact trivial
    · split_ifs at h
      split at h
      · cases h
      · obtain ⟨y, -, hy⟩ := Option.map_eq_some_iff.mp h
        obtain ⟨rfl, -⟩ := Prod.mk.inj hy
        exact trivial

/-- A session that runs by itself gets into no trouble. -/
theorem advances_drive (n : Nat) (x : System ι κ ρ δ A R E β) :
    ∀ m ∈ (x.drive sem s n).1, m.label.Advances := by
  induction n generalizing x with
  | zero => exact List.forall_mem_nil _
  | succ n ih =>
    unfold System.drive
    split
    · exact List.forall_mem_nil _
    next l x' hadvance =>
      exact List.forall_mem_cons.mpr ⟨advances_of_advance hadvance, ih x'⟩

/-- Only rollbacks are awaited by nobody, and each live session holds its locks exactly as
    often as its client will give them back. -/
structure Calm (G : Guarded sem ρ κ D β) (x : System ι κ ρ δ A R E β) : Prop where
  rolls : ∀ s, ∀ r ∈ (x.sessions s).orphans, r = .rollback
  even : ∀ s, (x.sessions s).alive → ∀ k, depth x.locks s k = (x.sessions s).duty G.key k

/-- Rollbacks owe nothing, so the duty of the session is that of its client. -/
theorem duty_of_rolls {c : Session κ ρ A R E β} (h : ∀ r ∈ c.orphans, r = .rollback) :
    c.duty G.key k = (c.client.map (Client.duty G.key k)).getD 0 := by
  have hsum : (c.orphans.map (Request.gives k)).sum = 0 := by
    generalize c.orphans = rs at h
    induction rs with
    | nil => rfl
    | cons r rs ih =>
      obtain ⟨hr, hrs⟩ := List.forall_mem_cons.mp h
      simpa [hr, Request.gives] using ih hrs
  rw [Session.duty, hsum, Nat.zero_add]

/-! ### Calm is kept -/

/-- A move of session `s` that keeps the calm. -/
theorem Calm.move {db : δ} {locks : κ → Option (ι × Nat)} {c : Session κ ρ A R E β}
    (h : Calm G x) (hmove : Moves G s x.db x.locks db locks)
    (hrolls : ∀ r ∈ c.orphans, r = .rollback)
    (heven : c.alive → ∀ k, depth locks s k = c.duty G.key k) :
    Calm G ({ x with db, locks }.set s c) where
  rolls t := by
    by_cases hts : t = s
    · subst hts
      simpa [System.set] using hrolls
    · simpa [System.set, Function.update_of_ne hts] using h.rolls t
  even t := by
    by_cases hts : t = s
    · subst hts
      simpa [System.set] using heven
    · intro halive k
      simp only [System.set, Function.update_of_ne hts] at halive ⊢
      rw [depth_congr (hmove.others t hts k), h.even t halive k]

/-- A step without trouble leaves a calm system calm. -/
theorem Calm.step (h : Calm G x) (hsound : Sound G I x)
    (hcode : ∀ p, Disciplined G p (.out (I p)) (code p)) (hs : System.Step sem code x l x')
    (hl : ¬ Trouble x l) : Calm G x' := by
  cases hs with
  | @start s p halive hfree =>
    refine h.move Moves.refl (h.rolls s) fun _ k => ?_
    rw [h.even s halive k, Ok.duty_start (hcode p) hfree]
  | @served s r a y halive hnext hserve =>
    refine h.move ((hsound.sessions s).moves halive hnext hserve) (rolls_answered (h.rolls s))
      fun _ k => ?_
    have hdepth : depth y.locks s k = depth x.locks s k + r.takes k - r.gives k :=
      depth_serve hserve
    have heven := h.even s halive k
    rcases horphans : (x.sessions s).orphans with _ | ⟨r', rs⟩
    · have hduty := (hsound.sessions s).duty_served (k := k) halive hnext horphans hserve
      omega
    · have hr : r' = r := by
        rw [Session.next?, horphans] at hnext
        exact Option.some.inj hnext
      subst hr
      have hduty := Ok.duty_orphan (G := G) (k := k) horphans (.ok a) y.tx
      obtain rfl : r' = .rollback := h.rolls s r' (horphans ▸ List.mem_cons_self)
      simp only [Request.takes, Request.gives] at hdepth hduty
      omega
  | @failed s r e halive hnext hr =>
    -- no unlock failed, so what is owed is what was
    refine h.move Moves.refl (rolls_answered (h.rolls s)) fun _ k => ?_
    have hunlock : ∀ k, r ≠ .unlock k := by
      rintro k rfl
      exact hl ⟨k, hnext⟩
    rw [h.even s halive k, ((hsound.sessions s).duty_failed halive hnext _ e).2 hunlock]
  | @lost s c r a y e halive horphans hclient hrequest hserve =>
    have hnext : (x.sessions s).next? = some r := by
      rw [Session.next?, horphans, hclient]
      exact hrequest
    exact h.move ((hsound.sessions s).moves halive hnext hserve).release (List.forall_mem_nil _)
      fun h => by cases h
  | refused => exact h.move Moves.refl (List.forall_mem_nil _) fun h => by cases h
  | @abandoned s c f hclient hcode' =>
    refine h.move Moves.refl ?_ fun halive k => ?_
    · rw [Session.abandon]
      split_ifs
      · exact List.forall_mem_append.mpr ⟨h.rolls s, List.forall_mem_singleton.mpr rfl⟩
      · exact List.forall_mem_nil _
    · rw [h.even s halive k, (hsound.sessions s).duty_abandoned hclient hcode' halive]
  -- the cases that could leave a lock behind are trouble
  | cancelled => exact absurd trivial hl
  | @returned s c b hclient hcode' =>
    refine h.move Moves.refl (h.rolls s) fun halive k => ?_
    rw [h.even s halive k, Ok.duty_returned hclient hcode']
  | closed =>
    exact h.move (Moves.release Moves.refl) (List.forall_mem_nil _) fun h => by cases h

variable {tr : List (Move (System ι κ ρ δ A R E β) (Label ι ρ E β))}

/-- So does a run without trouble. -/
theorem Calm.of_run (h₀ : Sound G I x₀) (hcalm : Calm G x₀)
    (hcode : ∀ p, Disciplined G p (.out (I p)) (code p))
    (h : Run x₀ (fun _ => System.Step sem code) tr x) (htr : ∀ m ∈ tr, ¬ Trouble m.before m.label) :
    Calm G x := by
  induction h with
  | start => exact hcalm
  | snoc hrun hs ih =>
    have hbefore := ih fun m hm => htr m (List.mem_append_left _ hm)
    exact hbefore.step (sound_of_run h₀ hcode hrun) hcode hs
      (htr _ (List.mem_append_right _ (List.mem_singleton_self _)))

/-! ### Progress -/

/-- The session a step is of. -/
def Label.session : Label ι ρ E β → ι
  | .start s _ | .served s | .failed s _ | .lost s _ | .refused s _ | .abandoned s
  | .cancelled s _ _ | .returned s _ _ | .closed s => s

/-- Session `s` goes on by one of these steps; a rollback that nobody awaits is one. -/
def Advance (sem : Semantics δ A R) (code : ρ → ClientCode κ A E R β)
    (x : System ι κ ρ δ A R E β) (s : ι) : Prop :=
  ∃ l x', System.Step sem code x l x' ∧ l.Advances ∧ l.session = s

/-- A session whose next request the server can serve goes on. -/
theorem advance_served {r : Request κ A} {a : R} {y : Backend ι κ δ A}
    (halive : (x.sessions s).alive) (hnext : (x.sessions s).next? = some r)
    (hserve : (x.backend s).serve sem s r = some (a, y)) : Advance sem code x s :=
  ⟨_, _, .served halive hnext hserve, trivial, rfl⟩

/-- A session with a rollback to do. -/
theorem advance_rollback {r : Request κ A} {rs : List (Request κ A)} (halive : (x.sessions s).alive)
    (horphans : (x.sessions s).orphans = r :: rs) (hr : r = .rollback) : Advance sem code x s := by
  subst hr
  have hnext : (x.sessions s).next? = some .rollback := by rw [Session.next?, horphans]
  exact advance_served (a := sem.done) (y := ⟨x.db, x.locks, .idle⟩) halive hnext rfl

/-- The client of a dead session ends, with errors for what it still asks. -/
theorem advance_dead [Nonempty E] {client : Client κ ρ A R E β} (hdead : ¬ (x.sessions s).alive)
    (hclient : (x.sessions s).client = some client) : Advance sem code x s := by
  obtain ⟨e⟩ := ‹Nonempty E›
  cases hcode : client.code with
  | ret b => exact ⟨_, _, .returned hclient hcode, trivial, rfl⟩
  | op o f =>
    cases o with
    | abandon => exact ⟨_, _, .abandoned hclient hcode, trivial, rfl⟩
    | request r =>
      have hrequest : client.request? = some r := by rw [Client.request?, hcode]
      exact ⟨_, _, .refused (e := e) hdead hclient hrequest, trivial, rfl⟩

/-- **The server carries out what a client past its lock asks for**: no statement of disciplined
    code is invalid on what it meets. -/
theorem serve_inside (h : Sound G I x) {client : Client κ ρ A R E β} {r : Request κ A}
    (halive : (x.sessions s).alive) (horphans : (x.sessions s).orphans = [])
    (hclient : (x.sessions s).client = some client) (hbusy : busy client.code = true)
    (hrequest : client.request? = some r) : ∃ a y, (x.backend s).serve sem s r = some (a, y) := by
  have hok := h.sessions s
  rw [System.backend]
  generalize x.sessions s = c at hok halive horphans hclient
  cases hok with
  | free | closed => cases hclient
  | dead => cases halive
  | out _ hcode =>
    -- before its lock the code is not busy
    obtain rfl := Option.some.inj hclient
    rw [hcode.busy_eq] at hbusy
    cases hbusy
  | @held tx orphans p code' K _ htx hcode =>
    obtain rfl := Option.some.inj hclient
    obtain rfl := htx horphans
    cases hcode with
    | unlock | begin =>
      obtain rfl := Option.some.inj hrequest
      exact ⟨_, _, rfl⟩
  | @active p code' K as howner hcode hlock hK =>
    obtain rfl := Option.some.inj hclient
    cases hcode with
    | @exec _ _ a _ ha hvalid =>
      -- valid on what is known, so valid on the part the session sees
      obtain rfl := Option.some.inj hrequest
      obtain ⟨_, _, hd⟩ := hvalid _ hK
      obtain ⟨y, hy⟩ := Guarded.serve_exec howner ha hd
      exact ⟨y.1, ⟨x.db, x.locks, .active (as ++ [a])⟩, by simp [Backend.serve, hy]⟩
    | commit hcommit =>
      obtain rfl := Option.some.inj hrequest
      obtain ⟨d, hd, -⟩ := hcommit _ hK
      rw [← Guarded.runAll_view howner] at hd
      obtain ⟨db, hdb, -⟩ := Option.map_eq_some_iff.mp hd
      exact ⟨sem.done, ⟨db, x.locks, .idle⟩, by simp [Backend.serve, hdb]⟩
  | broken hcode =>
    obtain rfl := Option.some.inj hclient
    cases hcode
    cases hrequest

/-- **A client that has its lock** can go on. -/
theorem advance_inside [Nonempty E] (h : Sound G I x) (hcalm : Calm G x)
    {client : Client κ ρ A R E β} (hclient : (x.sessions s).client = some client)
    (hbusy : busy client.code = true) : Advance sem code x s := by
  by_cases halive : (x.sessions s).alive
  · cases horphans : (x.sessions s).orphans with
    | cons r rs =>
      exact advance_rollback halive horphans (hcalm.rolls s r (horphans ▸ List.mem_cons_self))
    | nil =>
      cases hcode : client.code with
      | ret b => exact ⟨_, _, .returned hclient hcode, trivial, rfl⟩
      | op o f =>
        cases o with
        | abandon => exact ⟨_, _, .abandoned hclient hcode, trivial, rfl⟩
        | request r =>
          have hrequest : client.request? = some r := by rw [Client.request?, hcode]
          have hnext : (x.sessions s).next? = some r := by
            rw [Session.next?, horphans, hclient]
            exact hrequest
          obtain ⟨a, y, hserve⟩ := serve_inside h halive horphans hclient hbusy hrequest
          exact advance_served halive hnext hserve
  · exact advance_dead halive hclient

/-- **Whoever holds a lock** has a client on it that is past the lock. -/
theorem Calm.holder (h : Calm G x) (hsound : Sound G I x) (hholds : Holds x.locks t k) :
    ∃ holder, (x.sessions t).client = some holder ∧ G.key holder.resource = k ∧
      busy holder.code = true := by
  have halive : (x.sessions t).alive := by
    have hok := hsound.sessions t
    generalize x.sessions t = c at hok
    cases hok with
    | closed hlocks | dead hlocks => exact absurd hholds (hlocks _)
    | free | out | held | active | broken => rfl
  have hduty := h.even t halive k
  rw [duty_of_rolls (h.rolls t)] at hduty
  have hpos := depth_pos.mpr hholds
  cases hholder : (x.sessions t).client with
  | none =>
    simp [hholder] at hduty
    omega
  | some holder =>
    have hgives : G.key holder.resource = k ∧ busy holder.code = true := by
      by_contra hnot
      simp [hholder, Client.duty, hnot] at hduty
      omega
    exact ⟨holder, rfl, hgives⟩

/-- **No deadlock.** A client can go on, or it waits for a lock whose holder can. -/
theorem Calm.advance [Nonempty E] (h : Calm G x) (hsound : Sound G I x)
    {client : Client κ ρ A R E β} (hclient : (x.sessions s).client = some client) :
    Advance sem code x s ∨ ∃ t, client.request? = some (.lock (G.key client.resource)) ∧
      Holds x.locks t (G.key client.resource) ∧ Advance sem code x t := by
  cases hbusy : busy client.code with
  | true => exact .inl (advance_inside hsound h hclient hbusy)
  | false =>
    by_cases halive : (x.sessions s).alive
    · cases horphans : (x.sessions s).orphans with
      | cons r rs =>
        exact .inl (advance_rollback halive horphans
          (h.rolls s r (horphans ▸ List.mem_cons_self)))
      | nil =>
        obtain ⟨st, hcode, -⟩ := (hsound.sessions s).stage hclient
        rw [hcode.busy_eq] at hbusy
        cases st with
        | out K =>
          generalize hcode' : client.code = code' at hcode
          cases hcode with
          | ret => exact .inl ⟨_, _, .returned hclient hcode', trivial, rfl⟩
          | lock =>
            have hrequest : client.request? = some (.lock (G.key client.resource)) := by
              rw [Client.request?, hcode']
            cases hlock : acquire s x.locks (G.key client.resource) with
            | some locks =>
              have hnext : (x.sessions s).next? = some (.lock (G.key client.resource)) := by
                rw [Session.next?, horphans, hclient]
                exact hrequest
              refine .inl (advance_served (a := sem.done)
                (y := ⟨x.db, locks, (x.sessions s).tx⟩) halive hnext ?_)
              simp [System.backend, Backend.serve, hlock]
            | none =>
              -- another session holds the lock, and its client can go on
              obtain ⟨t, hholds⟩ : ∃ t, Holds x.locks t (G.key client.resource) := by
                unfold acquire at hlock
                split at hlock
                next => cases hlock
                next t n hsome => exact ⟨t, n, hsome⟩
              obtain ⟨holder, hholder, -, hinside⟩ := h.holder hsound hholds
              exact .inr ⟨t, hrequest, hholds, advance_inside hsound h hholder hinside⟩
        | held | active | broken => cases hbusy
    · exact .inl (advance_dead halive hclient)

end Sql
