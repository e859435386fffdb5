import Mathlib.Algebra.Order.Ring.Nat
import Mathlib.Tactic.SplitIfs
import Venturi.Sql.Disciplined

namespace Sql

open Trace

/-!
# Locks a session keeps

A lock belongs to its session, not to the client that took it.

* `depth` / `Session.duty` — how often a session holds a lock, and how often what is left of it
  gives the lock back.
* `Sound.surplus` — no step lowers what a live session holds beyond its duty, so a lock that a
  cancelled client left behind stays for as long as the connection (`Surplus.of_run`).
* `LockedOut` — code that ends with `P` when it is never granted its lock.
* `Barred.since` — while one session keeps a lock, no client of another gets past it.
-/

variable {ι κ ρ δ A R E β D : Type}

/-- 1 when the request takes the lock `k`. -/
def Request.takes [DecidableEq κ] (k : κ) : Request κ A → Nat
  | .lock k' => if k' = k then 1 else 0
  | _ => 0

/-- 1 when the request gives the lock `k` back. -/
def Request.gives [DecidableEq κ] (k : κ) : Request κ A → Nat
  | .unlock k' => if k' = k then 1 else 0
  | _ => 0

/-- The code is past its lock and has an unlock ahead. -/
def busy : ClientCode κ A E R β → Bool
  | .ret _ => false
  | .op (.request (.lock _)) _ => false
  | _ => true

/-- The code has taken its lock, or not. -/
def Stage.inside : Stage A D → Bool
  | .out _ => false
  | _ => true

/-- A client past its lock waits for no other. -/
theorem not_lock_of_busy {client : Client κ ρ A R E β} {k : κ} (h : busy client.code = true) :
    client.request? ≠ some (.lock k) := by
  intro hrequest
  obtain ⟨f, hf⟩ := Client.code_of_request hrequest
  rw [hf] at h
  cases h

/-- Disciplined code is busy exactly if it has taken its lock. -/
theorem Disciplined.busy_eq {sem : Semantics δ A R} {G : Guarded sem ρ κ D β} {p : ρ}
    {st : Stage A D} {code : ClientCode κ A E R β} (h : Disciplined G p st code) :
    busy code = st.inside := by
  cases h <;> rfl

section Counts

/-- How often session `s` holds the lock `k`. -/
def depth [DecidableEq ι] (locks : κ → Option (ι × Nat)) (s : ι) (k : κ) : Nat :=
  match locks k with
  | some (t, n) => if t = s then n + 1 else 0
  | none => 0

variable [DecidableEq ι] {locks locks' : κ → Option (ι × Nat)} {s t : ι} {k : κ}

/-- A session holds a lock so many times, by the table of the locks. -/
theorem depth_eq_succ {n : Nat} : depth locks s k = n + 1 ↔ locks k = some (s, n) := by
  unfold depth
  rcases locks k with _ | ⟨t, m⟩
  · simp
  · by_cases ht : t = s <;> simp [ht]

/-- It holds the lock at least once exactly if it is the holder. -/
theorem depth_pos : 0 < depth locks s k ↔ Holds locks s k := by
  constructor
  · intro hd
    obtain ⟨n, hn⟩ := Nat.exists_eq_succ_of_ne_zero hd.ne'
    exact ⟨n, depth_eq_succ.mp hn⟩
  · rintro ⟨n, hn⟩
    rw [depth_eq_succ.mpr hn]
    exact Nat.succ_pos n

/-- The depth of a session is its own entry. -/
theorem depth_congr (h : ∀ n, locks' k = some (t, n) ↔ locks k = some (t, n)) :
    depth locks' t k = depth locks t k := by
  cases hd : depth locks t k with
  | succ n => exact depth_eq_succ.mpr ((h n).mpr (depth_eq_succ.mp hd))
  | zero =>
    by_contra hne
    obtain ⟨n, hn⟩ := Nat.exists_eq_succ_of_ne_zero hne
    rw [depth_eq_succ.mpr ((h n).mp (depth_eq_succ.mp hn))] at hd
    cases hd

variable [DecidableEq κ]

/-- How often the client of a session will give the lock `k` back. -/
def Client.duty (key : ρ → κ) (k : κ) (c : Client κ ρ A R E β) : Nat :=
  if key c.resource = k ∧ busy c.code then 1 else 0

/-- How often what is left of a session gives the lock `k` back. -/
def Session.duty (key : ρ → κ) (k : κ) (c : Session κ ρ A R E β) : Nat :=
  (c.orphans.map (Request.gives k)).sum + (c.client.map (Client.duty key k)).getD 0

/-- A lock request adds one to the depth of its own key. -/
theorem depth_acquire {k' : κ} (h : acquire s locks k' = some locks') :
    depth locks' s k = depth locks s k + Request.takes k (.lock k' : Request κ A) := by
  unfold acquire at h
  rcases hl : locks k' with _ | ⟨u, n⟩
  · simp only [hl] at h
    obtain rfl := Option.some.inj h
    by_cases hk : k' = k
    · subst hk
      simp [depth, hl, Request.takes]
    · simp [depth, Function.update_of_ne (Ne.symm hk), Request.takes, hk]
  · simp only [hl] at h
    split_ifs at h with hu
    obtain rfl := Option.some.inj h
    by_cases hk : k' = k
    · subst hk
      simp [depth, hl, hu, Request.takes]
    · simp [depth, Function.update_of_ne (Ne.symm hk), Request.takes, hk]

/-- An unlock takes one from the depth of its own key. -/
theorem depth_unlockOne {k' : κ} :
    depth (unlockOne s locks k') s k =
      depth locks s k - Request.gives k (.unlock k' : Request κ A) := by
  unfold unlockOne
  by_cases hk : k' = k
  · subst hk
    rcases hl : locks k' with _ | ⟨u, _ | n⟩
    · simp [depth, hl, Request.gives]
    · by_cases hu : u = s <;> simp [depth, hl, hu, Request.gives]
    · by_cases hu : u = s <;> simp [depth, hl, hu, Request.gives]
  · rcases hl : locks k' with _ | ⟨u, _ | n⟩
    · simp [depth, Request.gives, hk]
    all_goals
      dsimp only
      split_ifs
      · simp [depth, Function.update_of_ne (Ne.symm hk), Request.gives, hk]
      · simp [Request.gives, hk]

/-- What a request does to what its session holds. -/
theorem depth_serve {sem : Semantics δ A R} {db : δ} {tx : Tx A} {r : Request κ A} {a : R}
    {y : Backend ι κ δ A} (h : (Backend.mk db locks tx).serve sem s r = some (a, y)) :
    depth y.locks s k = depth locks s k + r.takes k - r.gives k := by
  cases r with
  | begin =>
    -- only requests for a lock change what is held
    cases tx <;> obtain ⟨rfl, rfl⟩ := Prod.mk.inj (Option.some.inj h) <;> rfl
  | exec b =>
    cases tx with
    | idle | active =>
      obtain ⟨x, -, hy⟩ := Option.map_eq_some_iff.mp h
      obtain ⟨rfl, rfl⟩ := Prod.mk.inj hy
      rfl
    | aborted => cases h
  | commit =>
    cases tx with
    | active as =>
      obtain ⟨db', -, hy⟩ := Option.map_eq_some_iff.mp h
      obtain ⟨rfl, rfl⟩ := Prod.mk.inj hy
      rfl
    | idle | aborted =>
      obtain ⟨rfl, rfl⟩ := Prod.mk.inj (Option.some.inj h)
      rfl
  | rollback =>
    obtain ⟨rfl, rfl⟩ := Prod.mk.inj (Option.some.inj h)
    rfl
  | lock k' =>
    obtain ⟨locks', hlocks, hy⟩ := Option.map_eq_some_iff.mp h
    obtain ⟨rfl, rfl⟩ := Prod.mk.inj hy
    exact depth_acquire hlocks
  | unlock k' =>
    obtain ⟨rfl, rfl⟩ := Prod.mk.inj (Option.some.inj h)
    exact depth_unlockOne

end Counts

/-! ### What a step does to the duty of a session -/

namespace Ok

variable [DecidableEq κ] {sem : Semantics δ A R} {G : Guarded sem ρ κ D β} {s : ι} {db : δ}
  {locks : κ → Option (ι × Nat)} {c : Session κ ρ A R E β} {client : Client κ ρ A R E β}
  {r : Request κ A} {k : κ}

/-- An orphan pays what it gives back. -/
theorem duty_orphan {rs : List (Request κ A)} (horphans : c.orphans = r :: rs)
    (answer : Except E R) (tx : Tx A) :
    ((c.withTx tx).answered answer).duty G.key k + r.gives k = c.duty G.key k := by
  simp only [Session.answered, Session.withTx, Session.duty, horphans, List.map_cons, List.sum_cons]
  omega

/-- A session that has no orphans owes what its client does. -/
theorem duty_alone {alive inTx : Bool} {tx : Tx A} {p : ρ} {code : ClientCode κ A E R β} :
    (⟨alive, tx, [], some ⟨p, code, inTx⟩⟩ : Session κ ρ A R E β).duty G.key k =
      if G.key p = k ∧ busy code then 1 else 0 := by
  simp [Session.duty, Client.duty]

/-- After an answer it owes what the rest of the code does. -/
theorem duty_resumed {alive inTx : Bool} {tx tx' : Tx A} {p : ρ}
    {f : Except E R → ClientCode κ A E R β} (answer : Except E R) :
    (((⟨alive, tx, [], some ⟨p, .op (.request r) f, inTx⟩⟩ : Session κ ρ A R E β).withTx
      tx').answered answer).duty G.key k = if G.key p = k ∧ busy (f answer) then 1 else 0 := by
  cases r <;> cases answer <;>
    simp [Session.duty, Session.answered, Session.withTx, Session.resume, Client.duty,
      Request.gives]

/-- A client that gets its answer owes one more for what it took, one less for what it gave. -/
theorem duty_served [DecidableEq ι] {a : R} {y : Backend ι κ δ A} (h : Ok G db locks s c)
    (halive : c.alive) (hnext : c.next? = some r) (horphans : c.orphans = [])
    (hserve : (Backend.mk db locks c.tx).serve sem s r = some (a, y)) :
    ((c.withTx y.tx).answered (.ok a)).duty G.key k + r.gives k =
      c.duty G.key k + r.takes k := by
  cases h with
  | free =>
    obtain rfl := horphans
    cases hnext
  | out _ hcode =>
    obtain rfl := horphans
    have hbusy := hcode.busy_eq
    cases hcode with
    | ret => cases hnext
    | lock _ hok =>
      -- it takes the lock, and owes it from now on
      obtain rfl := Option.some.inj hnext
      simp [duty_alone, duty_resumed, (hok a).busy_eq, hbusy, Stage.inside, Request.gives,
        Request.takes]
  | held _ _ hcode =>
    obtain rfl := horphans
    have hbusy := hcode.busy_eq
    cases hcode with
    | unlock hcode =>
      -- it gives the lock back, and owes it no more
      obtain rfl := Option.some.inj hnext
      simp [duty_alone, duty_resumed, (hcode (.ok a)).busy_eq, hbusy, Stage.inside, Request.gives,
        Request.takes]
    | begin hok =>
      obtain rfl := Option.some.inj hnext
      simp [duty_alone, duty_resumed, (hok a).busy_eq, hbusy, Stage.inside, Request.gives,
        Request.takes]
  | active howner hcode _ hK =>
    have hbusy := hcode.busy_eq
    cases hcode with
    | exec ha _ hok =>
      obtain rfl := Option.some.inj hnext
      obtain ⟨x, hx, hy⟩ := Option.map_eq_some_iff.mp hserve
      obtain ⟨rfl, rfl⟩ := Prod.mk.inj hy
      have hnext := hok x.1 ⟨_, hK, _, Guarded.bind_view howner ha hx⟩
      simp [duty_alone, duty_resumed, hnext.busy_eq, hbusy, Stage.inside, Request.gives,
        Request.takes]
    | commit _ hok =>
      obtain rfl := Option.some.inj hnext
      simp [duty_alone, duty_resumed, (hok a).busy_eq, hbusy, Stage.inside, Request.gives,
        Request.takes]
  | broken hcode =>
    have hbusy := hcode.busy_eq
    cases hcode with
    | abandon => cases hnext
  | closed | dead => cases halive

/-- An error does not raise the duty, and lowers it only where an unlock failed. -/
theorem duty_failed (h : Ok G db locks s c) (halive : c.alive) (hnext : c.next? = some r)
    (tx : Tx A) (e : E) :
    ((c.withTx tx).answered (.error e)).duty G.key k ≤ c.duty G.key k ∧
      ((∀ k, r ≠ .unlock k) →
        ((c.withTx tx).answered (.error e)).duty G.key k = c.duty G.key k) := by
  rcases horphans : c.orphans with _ | ⟨r', rs⟩
  · cases h with
    | free =>
      obtain rfl := horphans
      cases hnext
    | out _ hcode =>
      obtain rfl := horphans
      have hbusy := hcode.busy_eq
      cases hcode with
      | ret => cases hnext
      | lock _ _ herr =>
        simp [duty_alone, duty_resumed, (herr e).busy_eq, hbusy, Stage.inside]
    | held _ _ hcode =>
      obtain rfl := horphans
      have hbusy := hcode.busy_eq
      cases hcode with
      | unlock hcode =>
        -- the code goes on as if the lock were released
        obtain rfl := Option.some.inj hnext
        refine ⟨?_, fun hr => absurd rfl (hr _)⟩
        simp [duty_alone, duty_resumed, (hcode (.error e)).busy_eq, hbusy, Stage.inside]
      | begin _ herr =>
        simp [duty_alone, duty_resumed, (herr e).busy_eq, hbusy, Stage.inside]
    | active _ hcode =>
      have hbusy := hcode.busy_eq
      cases hcode with
      | exec _ _ _ herr | commit _ _ herr =>
        simp [duty_alone, duty_resumed, (herr e).busy_eq, hbusy, Stage.inside]
    | broken hcode =>
      have hbusy := hcode.busy_eq
      cases hcode with
      | abandon => cases hnext
    | closed | dead => cases halive
  · -- a failed orphan is gone: only an unlock gave something back
    have hr : r' = r := by
      rw [Session.next?, horphans] at hnext
      exact Option.some.inj hnext
    subst hr
    have hduty := duty_orphan (G := G) (k := k) horphans (.error e) tx
    refine ⟨by omega, fun hr => ?_⟩
    have hgives : r'.gives k = 0 := by
      cases r' with
      | unlock k' => exact absurd rfl (hr k')
      | _ => rfl
    omega

/-- A dropped transaction leaves the duty of the session as it is. -/
theorem duty_abandoned {f : Unit → ClientCode κ A E R β} (h : Ok G db locks s c)
    (hclient : c.client = some client) (hcode : client.code = .op .abandon f) (halive : c.alive) :
    (c.abandon client (f ())).duty G.key k = c.duty G.key k := by
  obtain ⟨st, hdisc, -⟩ := h.stage hclient
  rw [hcode] at hdisc
  have hbusy := hdisc.busy_eq
  cases hdisc with
  | abandon hnext =>
    simp [Session.duty, Session.abandon, halive, hclient, Client.duty, hcode, hnext.busy_eq,
      Stage.inside, hbusy, Request.gives]

/-- So does the return of its client. -/
theorem duty_returned {b : β} (hclient : c.client = some client) (hcode : client.code = .ret b) :
    c.giveBack.duty G.key k = c.duty G.key k := by
  simp [Session.duty, Session.giveBack, hclient, Client.duty, hcode, busy]

/-- What a cancelled client leaves does not owe more than the client did. -/
theorem duty_cancelled (h : Ok G db locks s c) (hclient : c.client = some client)
    (halive : c.alive) (sent : Bool) :
    (c.cancel client sent).duty G.key k ≤ c.duty G.key k := by
  obtain ⟨st, hdisc, -⟩ := h.stage hclient
  obtain ⟨p, code, inTx⟩ := client
  change Disciplined G p st code at hdisc
  have hwreck : ((Session.wreckage ⟨p, code, inTx⟩ sent).map (Request.gives k)).sum ≤
      Client.duty G.key k ⟨p, code, inTx⟩ := by
    -- of what it leaves behind at most one request is an unlock
    cases hdisc <;> cases sent <;> cases inTx <;>
      simp [Session.wreckage, Client.request?, Request.gives, Client.duty, busy]
  simp only [Session.duty, Session.cancel, halive, hclient, if_true, List.map_append,
    List.sum_append, Option.map_none, Option.getD_none, Option.map_some, Option.getD_some]
  omega

/-- A client that is cancelled past its lock, with no unlock sent, no longer gives it back. -/
theorem duty_cancelled_lt {sent : Bool} (h : Ok G db locks s c) (hclient : c.client = some client)
    (halive : c.alive) (hbusy : busy client.code = true) (hkey : G.key client.resource = k)
    (hsent : ¬ (sent = true ∧ client.request? = some (.unlock k))) :
    (c.cancel client sent).duty G.key k + 1 ≤ c.duty G.key k := by
  obtain ⟨st, hdisc, -⟩ := h.stage hclient
  obtain ⟨p, code, inTx⟩ := client
  change Disciplined G p st code at hdisc
  change G.key p = k at hkey
  subst hkey
  have hwreck :
      ((Session.wreckage ⟨p, code, inTx⟩ sent).map (Request.gives (G.key p))).sum = 0 := by
    cases hdisc <;> cases sent <;> cases inTx <;>
      simp [Session.wreckage, Client.request?, Request.gives, busy] at hsent hbusy ⊢
  have hclientDuty : Client.duty G.key (G.key p) ⟨p, code, inTx⟩ = 1 := by
    simp [Client.duty, show busy code = true from hbusy]
  simp only [Session.duty, Session.cancel, halive, hclient, if_true, List.map_append,
    List.sum_append, Option.map_none, Option.getD_none, Option.map_some, Option.getD_some,
    hwreck, hclientDuty]
  omega

/-- Nor does a session whose unlock failed. -/
theorem duty_failed_unlock (h : Ok G db locks s c) (halive : c.alive)
    (hnext : c.next? = some (.unlock k)) (tx : Tx A) (e : E) :
    ((c.withTx tx).answered (.error e)).duty G.key k + 1 = c.duty G.key k := by
  rcases horphans : c.orphans with _ | ⟨r', rs⟩
  · cases h with
    | free =>
      obtain rfl := horphans
      cases hnext
    | out _ hcode =>
      obtain rfl := horphans
      cases hcode <;> cases hnext
    | held _ _ hcode =>
      obtain rfl := horphans
      have hbusy := hcode.busy_eq
      cases hcode with
      | unlock hcode =>
        obtain rfl := Request.unlock.inj (Option.some.inj hnext)
        simp [duty_alone, duty_resumed, (hcode (.error e)).busy_eq, hbusy, Stage.inside]
      | begin => cases hnext
    | active _ hcode => cases hcode <;> cases hnext
    | broken hcode =>
      cases hcode
      cases hnext
    | closed | dead => cases halive
  · have hr : r' = .unlock k := by
      rw [Session.next?, horphans] at hnext
      exact Option.some.inj hnext
    subst hr
    have hduty := duty_orphan (G := G) (k := k) horphans (.error e) tx
    simpa [Request.gives] using hduty

/-- So does a client that begins. -/
theorem duty_start {p : ρ} {code : ClientCode κ A E R β} {K : D → Prop}
    (hcode : Disciplined G p (.out K) code) (hfree : c.client = none) :
    (c.enter p code).duty G.key k =
      c.duty G.key k := by
  simp [Session.duty, Session.enter, hfree, Client.duty, hcode.busy_eq, Stage.inside]

end Ok

/-! ### Code that is not granted its lock -/

section LockedOut

variable {c : Session κ ρ A R E β} {client client' : Client κ ρ A R E β} {r : Request κ A} {k : κ}
  {P : β → Prop}

/-- Code that ends with `P` when its lock is never granted. -/
inductive LockedOut (k : κ) (P : β → Prop) : ClientCode κ A E R β → Prop
  | ret {b : β} (hb : P b) : LockedOut k P (.ret b)
  | wait {f : Except E R → ClientCode κ A E R β} (hf : ∀ e, LockedOut k P (f (.error e))) :
      LockedOut k P (.op (.request (.lock k)) f)

/-- What locked-out code sends first is the lock, and without it the code stays locked out. -/
theorem LockedOut.of_request {r : Request κ A} {f : Except E R → ClientCode κ A E R β}
    (h : LockedOut k P (.op (.request r) f)) : r = .lock k ∧ ∀ e, LockedOut k P (f (.error e)) := by
  cases h with
  | wait hf => exact ⟨rfl, hf⟩

/-- Locked-out code is not past its lock. -/
theorem LockedOut.not_busy {code : ClientCode κ A E R β} (h : LockedOut k P code) :
    busy code = false := by
  cases h <;> rfl

/-- A session whose clients are barred, after its client got an error. -/
theorem LockedOut.resume {e : E} (h : LockedOut k P client.code)
    (hrequest : client.request? = some r)
    (hclient : (c.resume client (.error e)).client = some client') :
    LockedOut k P client'.code := by
  obtain ⟨f, hf⟩ := Client.code_of_request hrequest
  obtain ⟨inTx, hresume⟩ := Session.resume_client (c := c) hf (.error e)
  rw [hresume] at hclient
  obtain rfl := Option.some.inj hclient
  rw [hf] at h
  exact h.of_request.2 e

end LockedOut

/-! ### What is left behind -/

section Leaks

variable [DecidableEq ι] {sem : Semantics δ A R} {G : Guarded sem ρ κ D β}
  {I : ρ → D → Prop} {code : ρ → ClientCode κ A E R β} {x x' x₀ : System ι κ ρ δ A R E β}
  {s t : ι} {k : κ} {l : Label ι ρ E β} {P : β → Prop}

/-- The clients of session `t` that want the lock `k` do not get past it. -/
def Barred (G : Guarded sem ρ κ D β) (x : System ι κ ρ δ A R E β) (t : ι) (k : κ)
    (P : β → Prop) : Prop :=
  ∀ c, (x.sessions t).client = some c → G.key c.resource = k → LockedOut k P c.code

/-- A move of session `s`, seen by the clients of another. -/
theorem Barred.set {db : δ} {locks : κ → Option (ι × Nat)} {c : Session κ ρ A R E β} {u : ι}
    (h : Barred G x t k P)
    (hself : u = t → ∀ client, c.client = some client → G.key client.resource = k →
      LockedOut k P client.code) :
    Barred G (({ x with db, locks }).set u c) t k P := by
  intro client hclient
  by_cases hut : u = t
  · subst hut
    simp only [System.set, Function.update_self] at hclient
    exact hself rfl client hclient
  · simp only [System.set, Function.update_of_ne (Ne.symm hut)] at hclient
    exact h client hclient

variable [DecidableEq κ]

/-- What session `s` holds of the lock `k` exceeds its duty by `m`. -/
def Surplus (G : Guarded sem ρ κ D β) (x : System ι κ ρ δ A R E β) (s : ι) (k : κ) (m : Nat) :
    Prop :=
  (x.sessions s).alive ∧ m + (x.sessions s).duty G.key k ≤ depth x.locks s k

/-- A session with a surplus of a lock holds it. -/
theorem Surplus.holds {m : Nat} (h : Surplus G x s k (m + 1)) : Holds x.locks s k :=
  depth_pos.mp (by have hle := h.2; omega)

/-- A move of session `s`, seen by any session. -/
theorem surplus_of_move {db : δ} {locks : κ → Option (ι × Nat)} {c : Session κ ρ A R E β}
    (hmove : Moves G s x.db x.locks db locks)
    (hself : c.alive → (x.sessions s).alive ∧
      depth x.locks s k + c.duty G.key k ≤ depth locks s k + (x.sessions s).duty G.key k) :
    ∀ t, ((({ x with db, locks }).set s c).sessions t).alive → (x.sessions t).alive ∧
      depth x.locks t k + ((({ x with db, locks }).set s c).sessions t).duty G.key k ≤
        depth locks t k + (x.sessions t).duty G.key k := by
  intro t
  by_cases hts : t = s
  · subst hts
    simpa [System.set] using hself
  · simp [System.set, Function.update_of_ne hts, depth_congr (hmove.others t hts k)]

/-- **No step lowers what a live session holds beyond its duty.** -/
theorem Sound.surplus (h : Sound G I x) (hcode : ∀ p, Disciplined G p (.out (I p)) (code p))
    (hs : System.Step sem code x l x') :
    ∀ t, (x'.sessions t).alive → (x.sessions t).alive ∧
      depth x.locks t k + (x'.sessions t).duty G.key k ≤
        depth x'.locks t k + (x.sessions t).duty G.key k := by
  cases hs with
  | @start s p halive hfree =>
    refine surplus_of_move Moves.refl fun _ => ⟨halive, ?_⟩
    rw [Ok.duty_start (hcode p) hfree]
  | @served s r a y halive hnext hserve =>
    refine surplus_of_move ((h.sessions s).moves halive hnext hserve) fun _ => ⟨halive, ?_⟩
    have hdepth : depth y.locks s k = depth x.locks s k + r.takes k - r.gives k :=
      depth_serve hserve
    rcases horphans : (x.sessions s).orphans with _ | ⟨r', rs⟩
    · have hduty := (h.sessions s).duty_served (k := k) halive hnext horphans hserve
      omega
    · have hr : r' = r := by
        rw [Session.next?, horphans] at hnext
        exact Option.some.inj hnext
      subst hr
      have hduty := Ok.duty_orphan (G := G) (k := k) horphans (.ok a) y.tx
      omega
  | @failed s r e halive hnext hr =>
    refine surplus_of_move Moves.refl fun _ => ⟨halive, ?_⟩
    have hduty := ((h.sessions s).duty_failed (k := k) halive hnext ((x.sessions s).tx.spoil r) e).1
    omega
  | @lost s c r a y e halive horphans hclient hrequest hserve =>
    -- a session that is gone is not live
    have hnext : (x.sessions s).next? = some r := by
      rw [Session.next?, horphans, hclient]
      exact hrequest
    exact surplus_of_move ((h.sessions s).moves halive hnext hserve).release fun h => by cases h
  | refused => exact surplus_of_move Moves.refl fun h => by cases h
  | @abandoned s c f hclient hcode' =>
    refine surplus_of_move Moves.refl fun halive => ⟨halive, ?_⟩
    rw [(h.sessions s).duty_abandoned hclient hcode' halive]
  | @cancelled s c sent hclient =>
    refine surplus_of_move Moves.refl fun halive => ⟨halive, ?_⟩
    have hduty := (h.sessions s).duty_cancelled (k := k) hclient halive sent
    omega
  | @returned s c b hclient hcode' =>
    refine surplus_of_move Moves.refl fun halive => ⟨halive, ?_⟩
    rw [Ok.duty_returned hclient hcode']
  | closed =>
    exact surplus_of_move (Moves.release Moves.refl) fun h => by cases h

variable {tr : List (Move (System ι κ ρ δ A R E β) (Label ι ρ E β))} {m : Nat}

/-- **What is left behind stays** for as long as the connection. -/
theorem Surplus.of_run (h₀ : Sound G I x₀)
    (hcode : ∀ p, Disciplined G p (.out (I p)) (code p))
    (h : Run x₀ (fun _ => System.Step sem code) tr x) (halive : (x.sessions s).alive)
    (hm : (x₀.sessions s).alive → Surplus G x₀ s k m) : Surplus G x s k m := by
  induction h with
  | start => exact hm halive
  | snoc hrun hs ih =>
    obtain ⟨halive', hle⟩ := (sound_of_run h₀ hcode hrun).surplus (k := k) hcode hs s halive
    have hbefore := (ih halive').2
    exact ⟨halive, by omega⟩

/-- A session gives back no lock it does not hold. -/
theorem Surplus.zero (h₀ : Sound G I x₀) (hcode : ∀ p, Disciplined G p (.out (I p)) (code p))
    (h : Run x₀ (fun _ => System.Step sem code) tr x) (halive : (x.sessions s).alive)
    (hfree : x₀.sessions s = ⟨true, .idle, [], none⟩) : Surplus G x s k 0 := by
  refine Surplus.of_run h₀ hcode h halive fun _ => ⟨by rw [hfree], ?_⟩
  rw [hfree]
  exact Nat.zero_le _

/-- **A cancellation leaks the lock.** -/
theorem Surplus.cancel (h : Sound G I x) (hm : Surplus G x s k m) {c : Client κ ρ A R E β}
    {sent : Bool} (hclient : (x.sessions s).client = some c) (hbusy : busy c.code = true)
    (hkey : G.key c.resource = k) (hsent : ¬ (sent = true ∧ c.request? = some (.unlock k))) :
    Surplus G (x.set s ((x.sessions s).cancel c sent)) s k (m + 1) := by
  have hduty := (h.sessions s).duty_cancelled_lt hclient hm.1 hbusy hkey hsent
  have hle := hm.2
  refine ⟨by simpa [System.set, Session.cancel] using hm.1, ?_⟩
  simp only [System.set, Function.update_self]
  omega

/-- **A failed unlock leaks the lock.** -/
theorem Surplus.fail (h : Sound G I x) (hm : Surplus G x s k m)
    (hnext : (x.sessions s).next? = some (.unlock k)) (tx : Tx A) (e : E) :
    Surplus G (x.set s (((x.sessions s).withTx tx).answered (.error e))) s k (m + 1) := by
  have hduty := (h.sessions s).duty_failed_unlock hm.1 hnext tx e
  have hle := hm.2
  have halive : (((x.sessions s).withTx tx).answered (.error e)).alive = (x.sessions s).alive := by
    unfold Session.answered
    split
    · rfl
    next client _ _ =>
      unfold Session.resume
      split
      · split <;> rfl
      · rfl
    · rfl
  refine ⟨by simpa [System.set, halive] using hm.1, ?_⟩
  simp only [System.set, Function.update_self]
  omega

/-- While another session holds the lock, it is not granted. -/
theorem not_serve_lock {db : δ} {locks : κ → Option (ι × Nat)} {tx : Tx A} (hts : t ≠ s)
    (h : Holds locks s k) : (Backend.mk db locks tx).serve sem t (.lock k) = none := by
  obtain ⟨n, hn⟩ := h
  simp [Backend.serve, acquire, hn, Ne.symm hts]

/-- A client begins on a session that has none. -/
theorem client_of_start {p : ρ} (hs : System.Step sem code x (.start t p) x') :
    (x.sessions t).client = none := by
  cases hs with
  | start _ hfree => exact hfree

/-- As long as another session holds the lock, every step leaves a barred session barred, and what
    its client returns is what locked-out code returns. -/
theorem Barred.step (h : Barred G x t k P) (hts : t ≠ s) (hholds : Holds x.locks s k)
    (hcode : ∀ q, G.key q = k → LockedOut k P (code q)) (hs : System.Step sem code x l x') :
    Barred G x' t k P ∧ ∀ q b, l = .returned t q b → G.key q = k → P b := by
  have hwait {client : Client κ ρ A R E β} {r : Request κ A} (hlocked : LockedOut k P client.code)
      (hrequest : client.request? = some r) : r = .lock k := by
    obtain ⟨f, hf⟩ := Client.code_of_request hrequest
    rw [hf] at hlocked
    exact hlocked.of_request.1
  cases hs with
  | @start u p halive hfree =>
    refine ⟨h.set fun _ client hclient hkey => ?_, fun _ _ hl => by cases hl⟩
    obtain rfl := Option.some.inj hclient
    exact hcode p hkey
  | @served u r a y halive hnext hserve =>
    refine ⟨h.set fun hut client' hclient' hkey => ?_, fun _ _ hl => by cases hl⟩
    subst hut
    rcases horphans : (x.sessions u).orphans with _ | ⟨r', rs⟩
    · rcases hclient : (x.sessions u).client with _ | client
      · simp [Session.next?, horphans, hclient] at hnext
      · have hrequest : client.request? = some r := by
          simpa [Session.next?, horphans, hclient] using hnext
        simp only [Session.answered, Session.withTx, horphans, hclient] at hclient'
        -- its lock is held by another session
        rw [Session.resource_of_resume hrequest hclient'] at hkey
        obtain rfl := hwait (h client hclient hkey) hrequest
        rw [System.backend, not_serve_lock hts hholds] at hserve
        cases hserve
    · simp only [Session.answered, Session.withTx, horphans] at hclient'
      exact h client' hclient' hkey
  | @failed u r e halive hnext hr =>
    refine ⟨h.set fun hut client' hclient' hkey => ?_, fun _ _ hl => by cases hl⟩
    subst hut
    rcases horphans : (x.sessions u).orphans with _ | ⟨r', rs⟩
    · rcases hclient : (x.sessions u).client with _ | client
      · simp [Session.next?, horphans, hclient] at hnext
      · have hrequest : client.request? = some r := by
          simpa [Session.next?, horphans, hclient] using hnext
        simp only [Session.answered, Session.withTx, horphans, hclient] at hclient'
        rw [Session.resource_of_resume hrequest hclient'] at hkey
        exact (h client hclient hkey).resume hrequest hclient'
    · simp only [Session.answered, Session.withTx, horphans] at hclient'
      exact h client' hclient' hkey
  | @lost u client r a y e halive horphans hclient hrequest hserve =>
    refine ⟨h.set fun hut client' hclient' hkey => ?_, fun _ _ hl => by cases hl⟩
    subst hut
    rw [Session.resource_of_resume hrequest hclient'] at hkey
    exact (h client hclient hkey).resume hrequest hclient'
  | @refused u client r e hdead hclient hrequest =>
    refine ⟨h.set fun hut client' hclient' hkey => ?_, fun _ _ hl => by cases hl⟩
    subst hut
    rw [Session.resource_of_resume hrequest hclient'] at hkey
    exact (h client hclient hkey).resume hrequest hclient'
  | @abandoned u client f hclient hcode' =>
    refine ⟨h.set fun hut client' hclient' hkey => ?_, fun _ _ hl => by cases hl⟩
    subst hut
    obtain rfl := Option.some.inj hclient'
    have hlocked := h client hclient hkey
    rw [hcode'] at hlocked
    cases hlocked
  | cancelled =>
    exact ⟨h.set fun _ _ hclient' _ => (by cases hclient'), fun _ _ hl => by cases hl⟩
  | @returned u client b hclient hcode' =>
    refine ⟨h.set fun _ _ hclient' _ => (by cases hclient'), fun q b' hl hkey => ?_⟩
    cases hl
    have hlocked := h client hclient hkey
    rw [hcode'] at hlocked
    cases hlocked with
    | ret hb => exact hb
  | @closed u halive =>
    refine ⟨h.set fun hut client' hclient' hkey => ?_, fun _ _ hl => by cases hl⟩
    subst hut
    exact h client' hclient' hkey

/-- **A lock left behind bars the others** for as long as the connection: from a move on that
    finds no client of another session past the lock, none gets past it. -/
theorem Barred.since {tr₁ tr₂ : List (Move (System ι κ ρ δ A R E β) (Label ι ρ E β))}
    {m₀ : Move (System ι κ ρ δ A R E β) (Label ι ρ E β)} (h₀ : Sound G I x₀)
    (hcode : ∀ p, Disciplined G p (.out (I p)) (code p))
    (h : Run x₀ (fun _ => System.Step sem code) (tr₁ ++ m₀ :: tr₂) x)
    (halive : (x.sessions s).alive) (hm : (x₀.sessions s).alive → Surplus G x₀ s k 1)
    (hts : t ≠ s) (hlocked : ∀ q, G.key q = k → LockedOut k P (code q))
    (hbarred : Barred G m₀.before t k P) :
    Barred G x t k P ∧ ∀ m ∈ tr₂, ∀ q b, m.label = .returned t q b → G.key q = k → P b := by
  have hholds {tr : List (Move (System ι κ ρ δ A R E β) (Label ι ρ E β))}
      {x x' : System ι κ ρ δ A R E β} {l : Label ι ρ E β}
      (hrun : Run x₀ (fun _ => System.Step sem code) tr x) (hs : System.Step sem code x l x')
      (halive : (x'.sessions s).alive) : (x.sessions s).alive ∧ Holds x.locks s k := by
    have halive' := ((sound_of_run h₀ hcode hrun).surplus (k := k) hcode hs s halive).1
    exact ⟨halive', (Surplus.of_run h₀ hcode hrun halive' hm).holds⟩
  refine Run.since (J := fun tr x => (x.sessions s).alive → Barred G x t k P ∧
    ∀ m ∈ tr, ∀ q b, m.label = .returned t q b → G.key q = k → P b) ?start ?step h halive
  case start =>
    intro hrun hs halive
    exact ⟨(hbarred.step hts (hholds hrun hs halive).2 hlocked hs).1, List.forall_mem_nil _⟩
  case step =>
    intro tr x l x' hrun ih hs halive
    obtain ⟨halive', hholds⟩ := hholds hrun hs halive
    obtain ⟨hbefore, hreturned⟩ := ih halive'
    obtain ⟨hafter, hlast⟩ := hbefore.step hts hholds hlocked hs
    exact ⟨hafter, List.forall_mem_append.mpr ⟨hreturned, List.forall_mem_singleton.mpr hlast⟩⟩

end Leaks

end Sql
