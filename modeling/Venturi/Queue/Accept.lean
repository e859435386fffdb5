import Venturi.Postgres.Programs
import Venturi.Queue.Merge

namespace Venturi

open Sql PostgresStore StoreProgram

/-!
# What an accepted enqueue wrote

`Queue::submit` is up to four store calls, and other parties may claim, settle or delete its
candidate between any two of them.

* `Inserts` / `MergesInto` — the two writes an enqueue can end with.
* `Update` / `Rewrites` — what a merge decision writes, and what it makes of a row.
* `ensures_insert`, `ensures_applyMerge`, `ensures_resolve` — what the parts of
  `Queue::submit` ensure, from the last one back.
* `Queue.submit_writes_once` — a submission that returns an id made exactly one write, and
  one that failed made none.
-/

namespace Queue

variable {T Carry : Type} (τ : Task T Carry) (task : T) (createdAt visibleAt : DateTime)

/-! ### The two writes -/

/-- The incoming work as a new job, under the default carry. -/
def incoming (id : Ulid) (payload carry : Value) : NewJob where
  id := id
  kind := τ.kind
  payload := payload
  priority := (τ.priority task).asSmallint
  createdAt := createdAt
  visibleAt := visibleAt
  carry := carry
  dedupKey := τ.dedupKey task

/-- `w` inserted the incoming work as the new pending job `id`, and touched no other job. -/
def Inserts (id : Ulid) (w : OwnMove) : Prop :=
  ∃ payload carry, τ.toValue task = .ok payload ∧ τ.carryToValue τ.carryDefault = .ok carry ∧
    w.before.view id = none ∧
    w.after.view = Function.update w.before.view id
      (some ⟨(incoming τ task createdAt visibleAt id payload carry).record, []⟩)

/-- What a decision writes into the candidate: nothing for a Keep. -/
inductive Update : Merge T Carry → Option MergePayload → Prop
  | keep : Update .keep none
  | replace {payload carry : Value} (hpayload : τ.toValue task = .ok payload)
      (hcarry : τ.carryToValue τ.carryDefault = .ok carry) :
      Update .replace (some ⟨payload, carry, (τ.priority task).asSmallint⟩)
  | with {merged : T} {typed : Carry} {payload carry : Value}
      (hpayload : τ.toValue merged = .ok payload) (hcarry : τ.carryToValue typed = .ok carry) :
      Update (.with merged typed) (some ⟨payload, carry, (τ.priority merged).asSmallint⟩)

/-- What a decision makes of the row it is applied to: payload, carry and priority are written,
    and every other column stays; a Keep changes nothing. -/
inductive Rewrites (row : JobRecord) : Merge T Carry → JobRecord → Prop
  | keep : Rewrites row .keep row
  | replace {payload carry : Value} (hpayload : τ.toValue task = .ok payload)
      (hcarry : τ.carryToValue τ.carryDefault = .ok carry) :
      Rewrites row .replace
        { row with payload := payload, carry := carry, priority := (τ.priority task).asSmallint }
  | with {merged : T} {typed : Carry} {payload carry : Value}
      (hpayload : τ.toValue merged = .ok payload) (hcarry : τ.carryToValue typed = .ok carry) :
      Rewrites row (.with merged typed)
        { row with payload := payload, carry := carry, priority := (τ.priority merged).asSmallint }

/-- `w` is a merge that found the job `id` pending, of the incoming kind and key, wrote the
    decision into it with one journal entry, and touched no other job. -/
def Merges (decision : Merge T Carry) (id : Ulid) (w : OwnMove) : Prop :=
  w.merge? = some id ∧ ∃ j row entry, Rewrites τ task j.row decision row ∧
    w.before.view id = some j ∧ j.row.status = .pending ∧ j.row.kind = τ.kind ∧
    j.row.dedupKey = τ.dedupKey task ∧ entry.outcome = .merged ∧
    w.after.view = Function.update w.before.view id (some ⟨row, j.log ++ [entry]⟩)

/-- The operations read this candidate and its journal, and `pending` is what
    `Task::merge` was shown of them. -/
structure Considered (ms : List OwnMove) (candidate : JobRecord) (pending : Pending T Carry) :
    Prop where
  read : ∃ m ∈ ms, ∃ key, τ.dedupKey task = some key ∧
    m.label.2 = ⟨.call (.dedupCandidate τ.kind key), .ok (some candidate)⟩
  journal : ∃ m ∈ ms, ∃ entries, pending.journal = entries.map JournalEntry.fromRecord ∧
    m.label.2 = ⟨.call (.journal candidate.id), .ok entries⟩
  payload : τ.fromValue candidate.payload = .ok pending.payload
  carry : τ.decodeCarry candidate.carry = .ok pending.carry
  runCount : pending.runCount = candidate.runCount

/-! ### The parts of a submission -/

variable {R : Trace.Move PostgresStore Event → Prop} {τ task createdAt visibleAt}

/-- A successful `enqueue` of the incoming work inserts it. -/
theorem Inserts.of_step {w : OwnMove} {env : Env} {id : Ulid} {payload carry : Value} {u : Unit}
    (hpayload : τ.toValue task = .ok payload) (hcarry : τ.carryToValue τ.carryDefault = .ok carry)
    (hs : w.before.Step
      ⟨env, .enqueue (incoming τ task createdAt visibleAt id payload carry), .ok u⟩ w.after) :
    Inserts τ task createdAt visibleAt id w := by
  rcases commit_eq hs with ⟨_, hok, -⟩ | ⟨_, -, herr, -⟩
  · obtain ⟨hnone, hview⟩ := enqueue_cases hok
    exact ⟨payload, carry, hpayload, hcarry, hnone, hview⟩
  · cases herr

/-- The `SET` clause of a merge rewrites the row as decided. -/
theorem Update.rewrites {decision : Merge T Carry} {update : Option MergePayload}
    (h : Update τ task decision update) (row : JobRecord) :
    Rewrites τ task row decision (row.merge update) := by
  cases h with
  | keep => exact .keep
  | replace hpayload hcarry => exact .replace hpayload hcarry
  | «with» hpayload hcarry => exact .with hpayload hcarry

/-- What an insert ends with: the write, and no merge before it. -/
def Inserted (τ : Task T Carry) (task : T) (createdAt visibleAt : DateTime) (ms : List OwnMove)
    (id : Ulid) (w : OwnMove) : Prop :=
  Inserts τ task createdAt visibleAt id w ∧ ∀ m ∈ ms, m.merge? = none

/-- An insert writes with its last operation, and merges nothing. -/
theorem ensures_insert {key : Option String} (hkey : τ.dedupKey task = key) :
    Ensures R (fun _ => True) (insert τ task createdAt visibleAt key)
      (Writes (Inserted τ task createdAt visibleAt)) := by
  subst hkey
  unfold insert
  refine ensures_newUlid .true (fun s env id _ => ?_)
  refine ensures_json (fun payload hpayload => ?_) (fun _ => .failed rfl)
  refine ensures_json (fun carry hcarry => ?_) (fun _ => .failed rfl)
  refine ensures_call .true (fun s₁ env₁ _ s₂ _ hs => ?_) (fun _ _ _ => ?_)
  · refine ⟨fun _ => True, trivial, ensures_return ?_⟩
    refine .cons (.one ⟨Inserts.of_step hpayload hcarry hs, List.forall_mem_nil _⟩) rfl ?_
    exact fun _ _ _ h => ⟨h.1, List.forall_mem_cons.mpr ⟨rfl, h.2⟩⟩
  · exact .never (by simp)

/-- What a decision on the candidate ends with, after the operations `ms`. -/
inductive Applied (τ : Task T Carry) (task : T) (createdAt visibleAt : DateTime)
    (candidate : JobRecord) (decision : Merge T Carry) (ms : List OwnMove) (id : Ulid)
    (w : OwnMove) : Prop
  /-- An insert beside the candidate. -/
  | independent (hdecision : decision = .independent) (hw : Inserts τ task createdAt visibleAt id w)
      (hnone : ∀ m ∈ ms, m.merge? = none)
  /-- An insert after a merge found the candidate no longer pending. -/
  | missed (hw : Inserts τ task createdAt visibleAt id w)
      (hmerge : ∃ m ∈ ms, m.merge? = some candidate.id)
      (hgone : ∀ m ∈ ms, ∀ c ∈ m.merge?, ¬ m.before.Pending c)
  | merged (hid : id = candidate.id) (hw : Merges τ task decision id w)
      (hnone : ∀ m ∈ ms, m.merge? = none)

section Applied

variable {candidate : JobRecord} {decision : Merge T Carry} {ms : List OwnMove} {m : OwnMove}
  {id : Ulid} {w : OwnMove}

/-- One more operation before, that was no merge. -/
theorem Applied.cons (h : Applied τ task createdAt visibleAt candidate decision ms id w)
    (hm : m.merge? = none) :
    Applied τ task createdAt visibleAt candidate decision (m :: ms) id w := by
  cases h with
  | independent hdecision hw hnone =>
    exact .independent hdecision hw (List.forall_mem_cons.mpr ⟨hm, hnone⟩)
  | missed hw hmerge hgone =>
    obtain ⟨m', hm', hc⟩ := hmerge
    refine .missed hw ⟨m', List.mem_cons_of_mem _ hm', hc⟩ (List.forall_mem_cons.mpr ⟨?_, hgone⟩)
    simp [hm]
  | merged hid hw hnone => exact .merged hid hw (List.forall_mem_cons.mpr ⟨hm, hnone⟩)

/-- One more operation before, a merge that found the candidate no longer pending. -/
theorem Inserted.after_merge (h : Inserted τ task createdAt visibleAt ms id w)
    (hm : m.merge? = some candidate.id) (hgone : ¬ m.before.Pending candidate.id) :
    Applied τ task createdAt visibleAt candidate decision (m :: ms) id w := by
  refine .missed h.1 ⟨m, List.mem_cons_self, hm⟩ (List.forall_mem_cons.mpr ⟨?_, ?_⟩)
  · rw [hm]
    rintro _ ⟨⟩
    exact hgone
  · exact fun m hm => by simp [h.2 m hm]

end Applied

/-- The job `id`, while it is stored, is of this kind and key. -/
def Identified (kind key : String) (id : Ulid) (s : PostgresStore) : Prop :=
  ∀ j, s.view id = some j → j.row.kind = kind ∧ j.row.dedupKey = some key

/-- A job keeps its kind and key as long as nobody inserts its id again. -/
theorem Identified.stable {kind key : String} {id : Ulid}
    (hR : ∀ m, R m → m.label.call.enqueues ≠ some id) : Stable R (Identified kind key id) := by
  intro m hm hs h j' hj'
  rcases exec_view hs id with ⟨hview, -⟩ | hstep
  · exact h j' (hview ▸ hj')
  · rw [hj'] at hstep
    cases hj : m.before.view id with
    | none =>
      rw [hj] at hstep
      exact absurd (enqueues_of_opened hstep.opened_of_none) (hR m hm)
    | some j =>
      rw [hj] at hstep
      have hsame := hstep.identity
      simp only [JobRecord.identity, Prod.mk.injEq] at hsame
      obtain ⟨hkind, hkey⟩ := h j hj
      exact ⟨hsame.2.1.trans hkind, hsame.2.2.2.trans hkey⟩

/-- **A merge, or an insert in its place.** -/
theorem ensures_applyMerge {candidate : JobRecord} {decision : Merge T Carry}
    {update : Option MergePayload} {key : String} (hkey : τ.dedupKey task = some key)
    (hR : ∀ m, R m → m.label.call.enqueues ≠ some candidate.id)
    (hupdate : Update τ task decision update) :
    Ensures R (Identified τ.kind key candidate.id)
      (applyMerge τ candidate update task createdAt visibleAt key)
      (Writes (Applied τ task createdAt visibleAt candidate decision)) := by
  have hstable : Stable R (Identified τ.kind key candidate.id) := Identified.stable hR
  unfold applyMerge
  refine ensures_now hstable (fun s env now _ => ?_)
  refine ensures_call hstable (fun s₁ env₁ merged s₂ hident hs => ?_) (fun _ _ _ => ?_)
  · rcases commit_eq hs with ⟨_, hok, hreply⟩ | ⟨_, -, herr, -⟩
    · cases hreply
      rcases mergeInto_cases hok with ⟨rfl, rfl, hmiss⟩ | ⟨rfl, j, n, hj, hg, hview⟩
      · -- the candidate is not pending any more: the incoming work is inserted
        have hgone : ¬ s₂.Pending candidate.id := by
          rintro ⟨j, hj, hpending⟩
          exact hmiss j hj (JobRecord.mergeable_iff.mpr ⟨view_id hj, hpending⟩)
        refine ⟨fun _ => True, trivial, (ensures_insert hkey).imp (fun r ms h => ?_)⟩
        refine .cons (h.after (List.forall_mem_singleton.mpr rfl) ?_) rfl
          (fun _ _ _ h => Applied.cons h rfl)
        exact fun _ _ _ h => h.after_merge rfl hgone
      · refine ⟨fun _ => True, trivial, ensures_return ?_⟩
        obtain ⟨hkind, hkey'⟩ := hident j hj
        have hpending := (JobRecord.mergeable_iff.mp hg).2
        refine .cons (.one (.merged rfl ⟨rfl, ?_⟩ (List.forall_mem_nil _))) rfl
          (fun _ _ _ h => Applied.cons h rfl)
        exact ⟨j, _, _, hupdate.rewrites j.row, hj, hpending, hkind, hkey'.trans hkey.symm, rfl,
          hview⟩
    · cases herr
  · exact .never (by simp)

/-- **The decision of the task, applied.** -/
theorem ensures_resolve {candidate : JobRecord} {pending : Pending T Carry} {key : String}
    (hkey : τ.dedupKey task = some key)
    (hR : ∀ m, R m → m.label.call.enqueues ≠ some candidate.id) :
    Ensures R (Identified τ.kind key candidate.id)
      (resolve τ task createdAt visibleAt key candidate pending)
      (Writes (Applied τ task createdAt visibleAt candidate (τ.merge task pending))) := by
  unfold resolve
  cases hdecision : τ.merge task pending with
  | independent =>
    refine Trace.Ensures.weaken (fun _ _ => trivial) ((ensures_insert hkey).imp ?_)
    exact fun r ms h => h.imp (fun _ _ _ h => .independent rfl h.1 h.2)
  | keep => exact ensures_applyMerge hkey hR .keep
  | replace =>
    refine ensures_json (fun payload hpayload => ?_) (fun _ => .none)
    refine ensures_json (fun carry hcarry => ?_) (fun _ => .none)
    exact ensures_applyMerge hkey hR (.replace hpayload hcarry)
  | «with» merged typed =>
    refine ensures_json (fun payload hpayload => ?_) (fun _ => .none)
    refine ensures_json (fun carry hcarry => ?_) (fun _ => .none)
    exact ensures_applyMerge hkey hR (.with hpayload hcarry)

/-! ### The submission -/

/-- What an accepted submission ends with, after the operations `ms`: an insert when there is
    no key or no candidate, or else what its decision ends with. -/
inductive Accepted (τ : Task T Carry) (task : T) (createdAt visibleAt : DateTime)
    (ms : List OwnMove) (id : Ulid) (w : OwnMove) : Prop
  | fresh (hread : ∀ key ∈ τ.dedupKey task, ∃ m ∈ ms,
        m.label.2 = ⟨.call (.dedupCandidate τ.kind key), .ok none⟩)
      (hw : Inserted τ task createdAt visibleAt ms id w)
  | decided {candidate : JobRecord} {pending : Pending T Carry}
      (hread : Considered τ task ms candidate pending)
      (hw : Applied τ task createdAt visibleAt candidate (τ.merge task pending) ms id w)

/-- A decision is about the candidate and the journal that were read before. -/
theorem Applied.accepted {candidate : JobRecord} {pending : Pending T Carry}
    {read journal : OwnMove} {key : String} {entries : List JournalRecord} {ms : List OwnMove}
    {id : Ulid} {w : OwnMove}
    (hkey : τ.dedupKey task = some key)
    (hread : read.label.2 = ⟨.call (.dedupCandidate τ.kind key), .ok (some candidate)⟩)
    (hjournal : journal.label.2 = ⟨.call (.journal candidate.id), .ok entries⟩)
    (hpayload : τ.fromValue candidate.payload = .ok pending.payload)
    (hcarry : τ.decodeCarry candidate.carry = .ok pending.carry)
    (hcount : pending.runCount = candidate.runCount)
    (hentries : pending.journal = entries.map JournalEntry.fromRecord)
    (h : Applied τ task createdAt visibleAt candidate (τ.merge task pending) ms id w) :
    Accepted τ task createdAt visibleAt ([read, journal] ++ ms) id w := by
  have hnone : read.merge? = none := by simp [OwnMove.merge?, hread]
  have hnone' : journal.merge? = none := by simp [OwnMove.merge?, hjournal]
  refine .decided ⟨?_, ?_, hpayload, hcarry, hcount⟩ ((h.cons hnone').cons hnone)
  · exact ⟨read, List.mem_cons_self, key, hkey, hread⟩
  · exact ⟨journal, by simp, entries, hentries, hjournal⟩

/-- The submission from the read of a candidate on. -/
theorem ensures_considered {candidate : JobRecord} {key : String} {read : OwnMove}
    (hkey : τ.dedupKey task = some key) (hR : ∀ m, R m → m.label.call.enqueues ≠ some candidate.id)
    (hread : read.label.2 = ⟨.call (.dedupCandidate τ.kind key), .ok (some candidate)⟩)
    (hsame : read.after = read.before) :
    Ensures R (Identified τ.kind key candidate.id)
      (do
        let payload ← json (τ.fromValue candidate.payload)
        let carry ← json (τ.decodeCarry candidate.carry)
        let journal ← call (.journal candidate.id)
        let pending : Pending T Carry :=
          ⟨payload, carry, candidate.runCount, journal.map JournalEntry.fromRecord⟩
        resolve τ task createdAt visibleAt key candidate pending)
      (fun r ms => Writes (Accepted τ task createdAt visibleAt) r (read :: ms)) := by
  have hstable : Stable R (Identified τ.kind key candidate.id) := Identified.stable hR
  refine ensures_json (fun payload hpayload => ?_) (fun _ => .failed hsame)
  refine ensures_json (fun carry hcarry => ?_) (fun _ => .failed hsame)
  refine ensures_call hstable (fun s env entries s' hident hs => ?_) (fun _ _ _ => ?_)
  · obtain ⟨-, rfl⟩ := Prod.mk.inj hs
    -- the two reads come before what the decision ends with
    have hreads : ∀ m ∈ [read, ⟨s, (env, ⟨.call (.journal candidate.id), .ok entries⟩), s⟩],
        m.after = m.before := List.forall_mem_cons.mpr ⟨hsame, by simp⟩
    refine ⟨_, hident, (ensures_resolve hkey hR).imp (fun r ms h => h.after hreads ?_)⟩
    exact fun _ _ _ h => h.accepted hkey hread rfl hpayload hcarry rfl rfl
  · exact .never (List.forall_mem_cons.mpr ⟨hsame, by simp⟩)

/-- The id another party presents to `enqueue` in this step. -/
def enqueuedByOther : StoreTurn → Option Ulid
  | .own _ => none
  | .other m => m.label.call.enqueues

/-- No other party enqueues under an id that was stored earlier in the execution: ids come
    from `Ulid::new()`. -/
def FreshTurns (tr : List StoreTurn) : Prop :=
  ∀ tr₁ t tr₂, tr = tr₁ ++ t :: tr₂ → ∀ id ∈ enqueuedByOther t, ∀ t' ∈ tr₁, t'.before.view id = none

/-- Turns in which nobody else presents an id are fresh. -/
theorem FreshTurns.of_none {tr : List StoreTurn} (h : ∀ t ∈ tr, enqueuedByOther t = none) :
    FreshTurns tr := by
  rintro tr₁ t tr₂ rfl id hid
  simp [h t (by simp)] at hid

/-- Nobody enqueues a stored id from then on. -/
theorem FreshTurns.since {tr₁ tr₂ : List StoreTurn} {t : StoreTurn} {id : Ulid} {j : Job}
    (h : FreshTurns (tr₁ ++ t :: tr₂)) (hj : t.before.view id = some j) :
    ∀ m, .other m ∈ tr₂ → m.label.call.enqueues ≠ some id := by
  intro m hm henq
  obtain ⟨tr₃, tr₄, rfl⟩ := List.append_of_mem hm
  have hnone : t.before.view id = none :=
    h (tr₁ ++ t :: tr₃) (.other m) tr₄ (by simp) id henq t (by simp)
  exact absurd (hj.symm.trans hnone) (by simp)

/-- **An execution of a submission.** -/
theorem submit_writes {s s' : PostgresStore} {tr : List StoreTurn} {r : Except Error Ulid}
    (h : Exec (submit τ task createdAt visibleAt).run s tr (.ret r) s') (hfresh : FreshTurns tr) :
    Writes (Accepted τ task createdAt visibleAt) r (Trace.owns tr) := by
  unfold submit at h
  cases hkey : τ.dedupKey task with
  | none =>
    simp only [hkey] at h
    have hins := ensures_insert (R := fun _ => True) hkey s tr r s' h (fun _ _ => trivial) trivial
    exact hins.imp (fun _ _ _ h => .fresh (by simp [hkey]) h)
  | some key =>
    simp only [hkey] at h
    rw [run_call_bind] at h
    obtain ⟨ms, s₁, env, reply, s₂, tr', rfl, -, hread, hrest⟩ := h.of_op
    rw [Trace.owns_others, Trace.owns_own]
    rcases reply with e | _ | candidate
    · -- a failed read ends the submission
      obtain ⟨rfl, others, rfl, -⟩ := hrest.of_ret
      rw [Trace.owns_map_other]
      exact .failed hread.of_error
    · obtain ⟨-, rfl⟩ := Prod.mk.inj hread.of_ok
      have hins : Writes (Inserted τ task createdAt visibleAt) r (Trace.owns tr') :=
        ensures_insert (R := fun _ => True) hkey s₁ tr' r s' hrest (fun _ _ => trivial) trivial
      have hread' : ∀ m ∈ [(⟨s₁, (env, ⟨.call (.dedupCandidate τ.kind key), .ok none⟩), s₁⟩ :
          OwnMove)], m.after = m.before := List.forall_mem_singleton.mpr rfl
      refine hins.after hread' (fun ms id w h => .fresh ?_ ⟨h.1, ?_⟩)
      · rw [hkey]
        rintro _ ⟨⟩
        exact ⟨_, List.mem_cons_self, rfl⟩
      · exact List.forall_mem_cons.mpr ⟨rfl, h.2⟩
    · obtain ⟨hreply, rfl⟩ := Prod.mk.inj hread.of_ok
      obtain ⟨hstored, hcandidate, -⟩ := dedupCandidate_cases (Except.ok.inj hreply)
      obtain ⟨hkind, hkey', -⟩ := JobRecord.dedupCandidate_iff.mp hcandidate
      have hident : Identified τ.kind key candidate.id s₁ := by
        intro j hj
        obtain rfl := Option.some.inj (hstored.symm.trans hj)
        exact ⟨hkind, hkey'⟩
      exact ensures_considered hkey (fun _ h => h) rfl rfl s₁ tr' r s' hrest
        (hfresh.since hstored) hident

/-- **An accepted enqueue writes exactly once and loses no work.** In every execution of
    `Queue::submit`, whatever other parties do between its store calls: if it returns an id,
    its last operation is its only write, an insert of the incoming work or a merge into a
    pending job of its kind and key; and it is the insert whenever a merge found the
    candidate no longer pending.  If it returns an error, it wrote nothing. -/
theorem submit_writes_once {s s' : PostgresStore} {tr : List StoreTurn} {r : Except Error Ulid}
    (h : Exec (submit τ task createdAt visibleAt).run s tr (.ret r) s') (hfresh : FreshTurns tr) :
    (∀ id, r = .ok id → ∃ ms w, Trace.owns tr = ms ++ [w] ∧ (∀ m ∈ ms, m.after = m.before) ∧
      (Inserts τ task createdAt visibleAt id w ∨
        ∃ candidate pending, Considered τ task ms candidate pending ∧ id = candidate.id ∧
          Merges τ task (τ.merge task pending) id w) ∧
      ∀ m ∈ ms ++ [w], ∀ c ∈ m.merge?, ¬ m.before.Pending c →
        Inserts τ task createdAt visibleAt id w) ∧
    (∀ e, r = .error e → ∀ m ∈ Trace.owns tr, m.after = m.before) := by
  have hwrites := submit_writes h hfresh
  constructor
  · rintro id rfl
    generalize Trace.owns tr = ms at hwrites
    cases hwrites with
    | @once _ ms w hsame hw =>
      refine ⟨ms, w, rfl, hsame, ?_⟩
      cases hw with
      | fresh _ hins => exact ⟨.inl hins.1, fun _ _ _ _ _ => hins.1⟩
      | @decided candidate pending hread hw =>
        cases hw with
        | independent _ hins => exact ⟨.inl hins, fun _ _ _ _ _ => hins⟩
        | missed hins => exact ⟨.inl hins, fun _ _ _ _ _ => hins⟩
        | merged hid hw hnone =>
          refine ⟨.inr ⟨candidate, pending, hread, hid, hw⟩, fun m hm c hc hgone => ?_⟩
          -- the only merge is the write, and it found its job pending
          obtain ⟨hlabel, j, _, _, _, hj, hpending, -⟩ := hw
          rcases List.mem_append.mp hm with hm | hm
          · simp [hnone m hm] at hc
          · obtain rfl := List.mem_singleton.mp hm
            obtain rfl : id = c := Option.some.inj (hlabel.symm.trans hc)
            exact absurd ⟨j, hj, hpending⟩ hgone
  · rintro e rfl
    generalize Trace.owns tr = ms at hwrites
    cases hwrites with
    | never hsame => exact hsame

/-- The sample worker claims the candidate of a submission between its read of the journal and
    its merge. -/
def overtaken : List StoreTurn × Except Error Ulid × PostgresStore :=
  (submit sampleTask (.json "2") 1 1).amid (.ofNow 1) 7
    [[], [], [(.ofNow 1, .claimNext ["feed"] 0 10 "w")]] sampleEnqueue.after

/-- The sample submission whose candidate is claimed in between enqueues a job of its own. -/
theorem submit_writes_once_overtaken :
    ∃ ms w, Trace.owns overtaken.1 = ms ++ [w] ∧ (∀ m ∈ ms, m.after = m.before) ∧
      (Inserts sampleTask (.json "2") 1 1 7 w ∨
        ∃ candidate pending, Considered sampleTask (.json "2") ms candidate pending ∧
          7 = candidate.id ∧
          Merges sampleTask (.json "2") (sampleTask.merge (.json "2") pending) 7 w) ∧
      ∀ m ∈ ms ++ [w], ∀ c ∈ m.merge?, ¬ m.before.Pending c →
        Inserts sampleTask (.json "2") 1 1 7 w :=
  (submit_writes_once (exec_amid _ _ _ _ _) (FreshTurns.of_none (by decide))).1 7 rfl

end Queue

end Venturi
