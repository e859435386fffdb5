import Venturi.Postgres.Pages
import Venturi.Postgres.Runs

namespace Venturi

open PostgresStore

/-!
# What the database makes of the values it is handed (`postgres/mod.rs`)

A text with a null character, or a dedup key too long for its index, is refused.  A JSON number
comes back as `jsonb` and `serde_json` give it, an instant in microseconds.  None of this is
decided in this repository, so it is a parameter.

* `Storage` — what becomes of a value: it is refused, or stored and from then on read as this.
  `Storage.verbatim` keeps every value, `Storage.nullFree` refuses the null character.
* `Storage.call` — a call with the values that are stored for it.
* `Storage.through` — a call as it is carried out: a refused value of a statement fails the
  call, one of a journal entry fails it where the entry is inserted.  `through_map`: two stores
  that answer alike answer alike behind it.
* `Storage.Run.stored` — the runs of the store behind a storage are runs of the store.
-/

/-- What the server and its driver make of the values of a call. -/
structure Storage where
  text : String → Except Error Unit
  json : Value → Except Error Value
  time : DateTime → Except Error DateTime
  /-- The seconds of a lease, as an interval. -/
  interval : Duration → Except Error Duration
  /-- The indexes over the kind and the dedup key. -/
  index : String → Option String → Except Error Unit

/-- Every value comes back as it is. -/
def Storage.verbatim : Storage where
  text _ := .ok ()
  json := .ok
  time := .ok
  interval := .ok
  index _ _ := .ok ()

/-- The null character is in no text; anything else comes back as it is. -/
def Storage.nullFree : Storage :=
  { Storage.verbatim with
    text := fun text =>
      if text.toList.contains '\x00' then .error (.database .characterNotInRepertoire)
      else .ok () }

/-- Where a value is refused: by a statement, or by the insert of the journal entry that follows
    when the statement applied. -/
inductive Refusal where
  | statement (e : Error)
  | entry (e : Error)

/-- What a call checks before it sends anything. -/
def Call.check : Call → Except Error Unit
  | .enqueue new => new.validate
  | .settle _ _ runNo _ entry | .recover _ _ _ runNo entry => do
      let _ ← runNoToDb runNo
      let _ ← runNoToDb entry.runNo
      return ()
  | .extendLease _ _ runNo _ => do
      let _ ← runNoToDb runNo
      return ()
  | .mergeInto _ _ entry => do
      let _ ← runNoToDb entry.runNo
      return ()
  | _ => .ok ()

/-- The answer says that the statement of the call applied. -/
def Call.applied : (c : Call) → c.Answer → Bool
  | .settle .., b | .recover .., b | .mergeInto .., b => b
  | _, _ => true

namespace Storage

variable (st : Storage)

/-! ### The values of a call -/

def job (new : NewJob) : Except Error NewJob := do
  st.text new.kind
  new.dedupKey.forM st.text
  st.index new.kind new.dedupKey
  return { new with
    payload := ← st.json new.payload
    createdAt := ← st.time new.createdAt
    visibleAt := ← st.time new.visibleAt
    carry := ← st.json new.carry }

def settlement : Settlement → Except Error Settlement
  | .complete finishedAt => return .complete (← st.time finishedAt)
  | .retry visibleAt failureCount carry =>
      return .retry (← st.time visibleAt) failureCount (← st.json carry)
  | .pause visibleAt carry => return .pause (← st.time visibleAt) (← st.json carry)
  | .dead finishedAt failureCount => return .dead (← st.time finishedAt) failureCount
  | .release visibleAt => return .release (← st.time visibleAt)

def entry (journal : JournalAppend) : Except Error JournalAppend := do
  st.text journal.kind
  journal.note.forM st.text
  return { journal with
    recordedAt := ← st.time journal.recordedAt
    attachment := ← journal.attachment.mapM st.json }

def update (u : MergePayload) : Except Error MergePayload := do
  return { u with payload := ← st.json u.payload, carry := ← st.json u.carry }

def criteria (c : CleanupCriteria) : Except Error CleanupCriteria := do
  c.kind.forM st.text
  return { c with finishedBefore := ← st.time c.finishedBefore }

def filter (f : HistoryFilter) : Except Error HistoryFilter := do
  f.kind.forM st.text
  return { f with
    finishedSince := ← f.finishedSince.mapM st.time
    finishedUntil := ← f.finishedUntil.mapM st.time
    createdBefore := ← f.createdBefore.mapM fun cursor => return (← st.time cursor.1, cursor.2) }

/-- The values a statement binds, and the call with what is stored for them. -/
def statement {α : Type} (bound : Except Error α) (c : α → Call) : Except Refusal Call :=
  (bound.mapError .statement).map c

/-- The same for a statement with a journal entry. -/
def journaled {α : Type} (bound : Except Error α) (journal : JournalAppend)
    (c : α → JournalAppend → Call) : Except Refusal Call := do
  let a ← bound.mapError .statement
  let journal ← (st.entry journal).mapError .entry
  return c a journal

/-- A call with the values that are stored for it. -/
def call : Call → Except Refusal Call
  | .enqueue new => statement (st.job new) .enqueue
  | .claimNext kinds priorityFloor lease claimedBy =>
      statement (do st.text claimedBy; kinds.forM st.text; st.interval lease) fun lease =>
        .claimNext kinds priorityFloor lease claimedBy
  | .settle id claimedBy runNo settlement journal =>
      st.journaled (do st.text claimedBy; st.settlement settlement) journal
        fun settlement journal => .settle id claimedBy runNo settlement journal
  | .journal id => .ok (.journal id)
  | .nextVisibleAt kinds => statement (kinds.forM st.text) fun _ => .nextVisibleAt kinds
  | .dedupCandidate kind dedupKey =>
      statement (do st.text kind; st.text dedupKey) fun _ => .dedupCandidate kind dedupKey
  | .findStale => .ok .findStale
  | .recover id visibleAt failureCount runNo journal =>
      st.journaled (st.time visibleAt) journal fun visibleAt journal =>
        .recover id visibleAt failureCount runNo journal
  | .extendLease id claimedBy runNo lease =>
      statement (do st.text claimedBy; st.interval lease) fun lease =>
        .extendLease id claimedBy runNo lease
  | .job id => .ok (.job id)
  | .cleanup criteria => statement (st.criteria criteria) .cleanup
  | .mergeInto id update journal =>
      st.journaled (update.mapM st.update) journal fun update journal =>
        .mergeInto id update journal

/-- The values of the call come back as they are. -/
def Keeps (c : Call) : Prop := st.call c = .ok c

variable {st}

section Values

variable {α : Type} {bound : Except Error α} {c' : Call} {journal : JournalAppend}

/-- A statement with one parameter is bound exactly if the parameter is. -/
theorem statement_eq_ok {c : α → Call} :
    statement bound c = .ok c' ↔ ∃ a, bound = .ok a ∧ c a = c' := by
  cases bound <;> simp [statement, Except.mapError, Except.map]

/-- A call without a journal entry is refused by its statement. -/
theorem statement_ne_entry {c : α → Call} {e : Error} : statement bound c ≠ .error (.entry e) := by
  cases bound <;> simp [statement, Except.mapError, Except.map]

/-- A statement with a journal entry is bound exactly if both are. -/
theorem journaled_eq_ok {c : α → JournalAppend → Call} :
    st.journaled bound journal c = .ok c' ↔
      ∃ a journal', bound = .ok a ∧ st.entry journal = .ok journal' ∧ c a journal' = c' := by
  cases bound with
  | error e => simp [journaled, Except.mapError, bind, Except.bind]
  | ok a =>
    cases hentry : st.entry journal <;>
      simp [journaled, hentry, Except.mapError, bind, Except.bind, pure, Except.pure]

end Values

/-- A call is answered like the one that is stored for it. -/
theorem answer_eq {c c' : Call} (h : st.call c = .ok c') : c'.Answer = c.Answer := by
  cases c with
  | journal | findStale | job =>
    obtain rfl := Except.ok.inj h
    rfl
  | settle | recover | mergeInto =>
    obtain ⟨a, journal', -, -, rfl⟩ := journaled_eq_ok.mp h
    rfl
  | enqueue | claimNext | nextVisibleAt | dedupCandidate | extendLease | cleanup =>
    obtain ⟨a, -, rfl⟩ := statement_eq_ok.mp h
    rfl

/-! ### Calls behind a storage -/

variable (st)

/-- A call, carried out by `exec` on the values that are stored for it. -/
def through {σ F : Type} (inj : Error → F) (s : σ)
    (exec : (c : Call) → Except F c.Answer × σ) (c : Call) : Except F c.Answer × σ :=
  match c.check with
  | .error e => (.error (inj e), s)
  | .ok () =>
    match h : st.call c with
    | .ok c' => (cast (congrArg (Except F) (answer_eq h)) (exec c').1, (exec c').2)
    | .error (.statement e) => (.error (inj e), s)
    | .error (.entry e) =>
      -- the entry is inserted after a statement that applied, in its transaction
      match (exec c).1 with
      | .ok a => (if c.applied a then .error (inj e) else .ok a, s)
      | .error f => (.error f, s)

/-- A reply at another name of its type. -/
theorem cast_mapError {A B E F : Type} (h : A = B) (g : E → F) (x : Except E A) :
    cast (congrArg (Except F) h) (x.mapError g) =
      (cast (congrArg (Except E) h) x).mapError g := by
  subst h
  rfl

variable {st} in
/-- **Two stores that answer alike** answer alike behind the storage. -/
theorem through_map {σ σ' F : Type} {s : σ} {s' : σ'} {f : σ → σ'} {g : Error → F}
    {exec : (c : Call) → Except Error c.Answer × σ} {exec' : (c : Call) → Except F c.Answer × σ'}
    {c : Call} (hstate : s' = f s)
    (hstored : ∀ c', st.call c = .ok c' →
      exec' c' = ((exec c').1.mapError g, f (exec c').2))
    (hentry : ∀ e, st.call c = .error (.entry e) → (exec' c).1 = (exec c).1.mapError g) :
    st.through g s' exec' c =
      ((st.through id s exec c).1.mapError g, f (st.through id s exec c).2) := by
  subst hstate
  unfold through
  cases c.check with
  | error error => rfl
  | ok u =>
    simp only
    split
    · rename_i c' hc
      rw [hstored c' hc]
      exact Prod.ext (cast_mapError (answer_eq hc) g _) rfl
    · rfl
    · rename_i error herr
      rw [hentry error herr]
      cases (exec c).1 with
      | error error' => rfl
      | ok a =>
        simp only [Except.mapError]
        split_ifs <;> rfl

/-- A call of the store behind the storage. -/
def exec (s : PostgresStore) (env : Env) (c : Call) : Except Error c.Answer × PostgresStore :=
  st.through id s (s.exec env) c

/-- `PostgresStore::query_jobs` behind the storage. -/
def queryJobs (s : PostgresStore) (filter : HistoryFilter) : Except QueryError (List JobRecord) :=
  match st.filter filter with
  | .ok filter => s.queryJobs filter
  | .error e => .error (.refused e)

/-- The event `e` takes the store behind the storage from `s` to `s'`. -/
def Step (s : PostgresStore) (e : Event) (s' : PostgresStore) : Prop :=
  st.exec s e.env e.call = (e.reply, s')

/-- The runs of the store behind the storage, under any calls of any parties. -/
abbrev Run : History → PostgresStore → Prop :=
  Trace.Run PostgresStore.empty fun _ s e s' => st.Step s e s'

/-- The event of the store, if no value is refused. -/
def event (e : Event) : Option Event :=
  match e.call.check, h : st.call e.call with
  | .ok (), .ok c => some ⟨e.env, c, cast (congrArg (Except Error) (answer_eq h).symm) e.reply⟩
  | _, _ => none

/-- What the store carried out. -/
def stored (tr : History) : History := Trace.project id st.event tr

variable {st} {s s' : PostgresStore} {env : Env} {c c' : Call} {e e' : Event} {tr : History}

/-- A call that fails its check does nothing else. -/
theorem exec_of_check {error : Error} (h : c.check = .error error) :
    s.exec env c = (.error error, s) := by
  cases c with
  | enqueue new =>
    have hvalid : new.validate = .error error := h
    simp [PostgresStore.exec, PostgresStore.enqueue, hvalid, commit, bind, Except.bind]
  | settle id claimedBy runNo settlement entry =>
    cases hno : runNoToDb runNo <;> cases hentry : runNoToDb entry.runNo <;>
      simp_all [Call.check, PostgresStore.exec, PostgresStore.settle, commit, bind, Except.bind,
        pure, Except.pure]
  | recover id visibleAt failureCount runNo entry =>
    cases hno : runNoToDb runNo <;> cases hentry : runNoToDb entry.runNo <;>
      simp_all [Call.check, PostgresStore.exec, PostgresStore.recover, commit, bind, Except.bind,
        pure, Except.pure]
  | extendLease id claimedBy runNo lease =>
    cases hno : runNoToDb runNo <;>
      simp_all [Call.check, PostgresStore.exec, PostgresStore.extendLease, commit, bind,
        Except.bind, pure, Except.pure]
  | mergeInto id update entry =>
    cases hentry : runNoToDb entry.runNo <;>
      simp_all [Call.check, PostgresStore.exec, PostgresStore.mergeInto, commit, bind, Except.bind,
        pure, Except.pure]
  | _ => cases h

/-- **A call whose values are kept** is carried out as it is. -/
theorem exec_of_keeps (h : st.Keeps c) : st.exec s env c = s.exec env c := by
  unfold exec through
  cases hcheck : c.check with
  | error error => exact (exec_of_check hcheck).symm
  | ok u =>
    simp only
    split
    · rename_i c' hc'
      obtain rfl : c = c' := Except.ok.inj (h.symm.trans hc')
      rfl
    · rename_i error herr
      cases h.symm.trans herr
    · rename_i error herr
      cases h.symm.trans herr

/-! ### Nothing refused, nothing changed -/

section Verbatim

theorem forM_text (o : Option String) : o.forM verbatim.text = .ok () := by
  cases o <;> rfl

theorem forM_texts (l : List String) : l.forM verbatim.text = .ok () := by
  induction l with
  | nil => rfl
  | cons t l ih => exact ih

/-- The verbatim storage leaves a journal entry as it is. -/
theorem entry_verbatim (journal : JournalAppend) : verbatim.entry journal = .ok journal := by
  obtain ⟨kind, runNo, recordedAt, outcome, note, attachment⟩ := journal
  cases note <;> cases attachment <;> rfl

/-- **Every call keeps its values.** -/
theorem keeps_verbatim (c : Call) : verbatim.Keeps c := by
  cases c with
  | enqueue new =>
    obtain ⟨id, kind, payload, priority, createdAt, visibleAt, carry, dedupKey⟩ := new
    cases dedupKey <;> rfl
  | claimNext kinds floor lease claimedBy =>
    refine statement_eq_ok.mpr ⟨lease, ?_, rfl⟩
    show (kinds.forM verbatim.text >>= fun _ => Except.ok lease) = _
    rw [forM_texts]
    rfl
  | nextVisibleAt kinds => exact statement_eq_ok.mpr ⟨(), forM_texts kinds, rfl⟩
  | settle id claimedBy runNo settlement journal =>
    refine journaled_eq_ok.mpr ⟨settlement, journal, ?_, entry_verbatim journal, rfl⟩
    cases settlement <;> rfl
  | recover id visibleAt failureCount runNo journal =>
    exact journaled_eq_ok.mpr ⟨visibleAt, journal, rfl, entry_verbatim journal, rfl⟩
  | mergeInto id update journal =>
    refine journaled_eq_ok.mpr ⟨update, journal, ?_, entry_verbatim journal, rfl⟩
    cases update <;> rfl
  | cleanup criteria =>
    obtain ⟨finishedBefore, kind, status⟩ := criteria
    cases kind <;> rfl
  | journal | dedupCandidate | findStale | extendLease | job => rfl

/-- The runs of the store are those behind a storage that keeps every value. -/
theorem Run.verbatim (h : PostgresStore.Run tr s) : verbatim.Run tr s :=
  Trace.Run.mono (fun _ _ e _ hs => (exec_of_keeps (keeps_verbatim e.call)).trans hs) h

end Verbatim

/-! ### What the store carries out -/

/-- An event of which no value is refused. -/
theorem event_of_ok (env : Env) (reply : Except Error c.Answer) (hcheck : c.check = .ok ())
    (hc : st.call c = .ok c') : st.event ⟨env, c, reply⟩ =
      some ⟨env, c', cast (congrArg (Except Error) (answer_eq hc).symm) reply⟩ := by
  unfold event
  simp only
  split
  · rename_i c'' _ hc''
    obtain rfl : c' = c'' := Except.ok.inj (hc.symm.trans hc'')
    rfl
  · rename_i hnone
    exact absurd hc (hnone c' hcheck)

/-- Otherwise nothing is stored. -/
theorem event_eq_none {reply : Except Error c.Answer}
    (h : c.check = .ok () → ∀ c', st.call c ≠ .ok c') : st.event ⟨env, c, reply⟩ = none := by
  unfold event
  simp only
  split
  · rename_i c' hcheck hc
    exact absurd hc (h hcheck c')
  · rfl

/-- What an event is stored as. -/
theorem event_eq_some (h : st.event e = some e') : ∃ c', ∃ hc : st.call e.call = .ok c',
    e' = ⟨e.env, c', cast (congrArg (Except Error) (answer_eq hc).symm) e.reply⟩ := by
  unfold event at h
  split at h
  · rename_i c' hcheck hc
    exact ⟨c', hc, (Option.some.inj h).symm⟩
  · cases h

/-- A job is stored under its id. -/
theorem id_of_job {new new' : NewJob} (h : st.job new = .ok new') : new'.id = new.id := by
  -- one step for each value that is bound
  iterate 7 obtain ⟨_, -, h⟩ := bind_eq_ok.mp h
  obtain rfl := Except.ok.inj h
  rfl

/-- What is stored presents the id that was sent. -/
theorem enqueues_event (h : st.event e = some e') : e'.call.enqueues = e.call.enqueues := by
  obtain ⟨env, c, reply⟩ := e
  obtain ⟨c', hc, rfl⟩ := event_eq_some h
  dsimp only at hc
  cases c with
  | journal | findStale | job =>
    obtain rfl := Except.ok.inj hc
    rfl
  | enqueue new =>
    obtain ⟨new', hnew, rfl⟩ := statement_eq_ok.mp hc
    exact congrArg some (id_of_job hnew)
  | claimNext | nextVisibleAt | dedupCandidate | extendLease | cleanup =>
    obtain ⟨a, -, rfl⟩ := statement_eq_ok.mp hc
    rfl
  | settle | recover | mergeInto =>
    obtain ⟨a, journal', -, -, rfl⟩ := journaled_eq_ok.mp hc
    rfl

/-- **The effect of an event** is the same, but for how far a lease is extended. -/
theorem effect_event (h : st.event e = some e') : e'.effect = e.effect ∨
    ∃ id runNo expires, e'.effect = some (id, .extended runNo expires) := by
  obtain ⟨env, c, reply⟩ := e
  obtain ⟨c', hc, rfl⟩ := event_eq_some h
  dsimp only at hc
  cases c with
  | journal | findStale | job =>
    obtain rfl := Except.ok.inj hc
    exact .inl rfl
  | enqueue new =>
    obtain ⟨new', hnew, rfl⟩ := statement_eq_ok.mp hc
    cases reply with
    | error e => exact .inl rfl
    | ok u => exact .inl (congrArg (fun id => some (id, Mark.opened)) (id_of_job hnew))
  | claimNext | nextVisibleAt | dedupCandidate | cleanup =>
    obtain ⟨a, -, rfl⟩ := statement_eq_ok.mp hc
    rcases reply with e | _ | r <;> exact .inl rfl
  | extendLease id claimedBy runNo lease =>
    obtain ⟨lease', -, rfl⟩ := statement_eq_ok.mp hc
    rcases reply with e | _ | _
    · exact .inl rfl
    · exact .inl rfl
    · exact .inr ⟨id, runNo, env.now + lease', rfl⟩
  | settle | recover | mergeInto =>
    obtain ⟨a, journal', -, -, rfl⟩ := journaled_eq_ok.mp hc
    rcases reply with e | _ | _ <;> exact .inl rfl

/-- A mark that is not of an extension is that of the event. -/
theorem mark_event {id : Ulid} {mark : Mark} (h : st.event e = some e') (hmark : e'.mark id = mark)
    (hquiet : mark ≠ .quiet) (hextended : ∀ runNo expires, mark ≠ .extended runNo expires) :
    e.mark id = mark := by
  have heffect := Event.effect_of_mark hmark hquiet
  rcases effect_event h with hsame | ⟨id', runNo, expires, hlease⟩
  · unfold Event.mark
    rw [← hsame, heffect]
    exact if_pos rfl
  · obtain ⟨-, hmark⟩ := Prod.mk.inj (Option.some.inj (heffect.symm.trans hlease))
    exact absurd hmark (hextended runNo expires)

/-- What merged behind the storage was a merge. -/
theorem event_merged {id : Ulid} {update : Option MergePayload} {journal : JournalAppend}
    (h : st.event e = some ⟨env, .mergeInto id update journal, .ok true⟩) :
    ∃ update' journal', e = ⟨env, .mergeInto id update' journal', .ok true⟩ := by
  obtain ⟨env', c, reply⟩ := e
  obtain ⟨c', hc, he'⟩ := event_eq_some h
  dsimp only at hc
  cases c with
  | mergeInto id' update' journal' =>
    obtain ⟨_, _, -, -, rfl⟩ := journaled_eq_ok.mp hc
    rcases reply with error | _ | _
    · cases he'
    · cases he'
    · cases he'
      exact ⟨update', journal', rfl⟩
  | journal | findStale | job =>
    obtain rfl := Except.ok.inj hc
    cases he'
  | enqueue | claimNext | nextVisibleAt | dedupCandidate | extendLease | cleanup =>
    obtain ⟨_, -, rfl⟩ := statement_eq_ok.mp hc
    cases he'
  | settle | recover =>
    obtain ⟨_, _, -, -, rfl⟩ := journaled_eq_ok.mp hc
    cases he'

/-- **A settlement that applied** was stored. -/
theorem Step.settled {jobId : Ulid} {claimedBy : String} {runNo : Nat} {settlement : Settlement}
    {journal : JournalAppend}
    (h : st.Step s ⟨env, .settle jobId claimedBy runNo settlement journal, .ok true⟩ s') :
    ∃ settlement' journal', st.settlement settlement = .ok settlement' ∧
      st.event ⟨env, .settle jobId claimedBy runNo settlement journal, .ok true⟩ =
        some ⟨env, .settle jobId claimedBy runNo settlement' journal', .ok true⟩ := by
  have hexec : st.through id s (s.exec env) (.settle jobId claimedBy runNo settlement journal) =
    (.ok true, s') := h
  unfold through at hexec
  cases hcheck : (Call.settle jobId claimedBy runNo settlement journal).check with
  | error error =>
    rw [hcheck] at hexec
    cases hexec
  | ok u =>
    rw [hcheck] at hexec
    simp only at hexec
    split at hexec
    · rename_i c' hc
      have hstored := event_of_ok env (.ok true) hcheck hc
      obtain ⟨settlement', journal', hbound, -, rfl⟩ := journaled_eq_ok.mp hc
      obtain ⟨_, -, hbound⟩ := bind_eq_ok.mp hbound
      exact ⟨settlement', journal', hbound, hstored⟩
    · cases hexec
    · -- a refused entry fails the call, once the update applied
      split at hexec
      · rename_i a _
        cases a <;> cases hexec
      · cases hexec

/-- A call that its statement refuses fails. -/
theorem exec_of_refused {error : Error} (hcheck : c.check = .ok ())
    (h : st.call c = .error (.statement error)) : st.exec s env c = (.error error, s) := by
  unfold exec through
  rw [hcheck]
  simp only
  split
  · rename_i c' hc
    cases h.symm.trans hc
  · rename_i error' herr
    obtain rfl := Refusal.statement.inj (Except.error.inj (h.symm.trans herr))
    rfl
  · rename_i error' herr
    cases h.symm.trans herr

/-- **One step**: the store carries out the event with its stored values, or is left as it was. -/
theorem Step.stored (h : st.Step s e s') :
    (∃ e', st.event e = some e' ∧ s.Step e' s') ∨ (st.event e = none ∧ s' = s) := by
  obtain ⟨env, c, reply⟩ := e
  have hexec : st.through id s (s.exec env) c = (reply, s') := h
  unfold through at hexec
  cases hcheck : c.check with
  | error error =>
    rw [hcheck] at hexec
    refine .inr ⟨event_eq_none fun hok => ?_, (Prod.mk.inj hexec).2.symm⟩
    cases hcheck.symm.trans hok
  | ok u =>
    rw [hcheck] at hexec
    simp only at hexec
    split at hexec
    · rename_i c' hc
      obtain ⟨hreply, rfl⟩ := Prod.mk.inj hexec
      refine .inl ⟨_, event_of_ok env reply hcheck hc, ?_⟩
      subst hreply
      simp [PostgresStore.Step]
    all_goals
      rename_i error herr
      refine .inr ⟨event_eq_none fun _ c' hc => ?_, ?_⟩
      · cases herr.symm.trans hc
      · first
          | exact (Prod.mk.inj hexec).2.symm
          | split at hexec <;> exact (Prod.mk.inj hexec).2.symm

/-- What was presented is presented to the store, or refused. -/
theorem enqueued_stored (tr : History) : (enqueued (st.stored tr)).Sublist (enqueued tr) := by
  induction tr using List.reverseRecOn with
  | nil => exact .slnil
  | append_singleton tr m ih =>
    rw [stored, Trace.project_snoc, Trace.Move.project, enqueued_snoc]
    cases he : st.event m.label with
    | none => exact List.Sublist.trans (by simpa [stored] using ih) (List.sublist_append_left _ _)
    | some e' =>
      have hsame : e'.call.enqueues = m.label.call.enqueues := enqueues_event he
      simp only [Option.map_some, Option.toList_some, enqueued_snoc, hsame]
      exact ih.append_right _

/-- **The runs behind a storage are runs of the store**, with the values that are stored. -/
theorem Run.stored (h : st.Run tr s) : PostgresStore.Run (st.stored tr) s := by
  refine Trace.Run.project (f := id) (fun _ s e s' hs e' he' => ?_) (fun _ s e s' hs hnone => ?_) h
  · rcases Step.stored hs with ⟨e'', he'', hstep⟩ | ⟨hnone, -⟩
    · obtain rfl : e' = e'' := Option.some.inj (he'.symm.trans he'')
      exact hstep
    · cases hnone.symm.trans he'
  · rcases Step.stored hs with ⟨e'', he'', -⟩ | ⟨-, hsame⟩
    · cases hnone.symm.trans he''
    · exact hsame

end Storage

end Venturi
