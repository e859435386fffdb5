import Venturi.Store.Records

namespace Venturi

/-!
# Calls of the `Store` trait

A call as data, so that a run of several parties over one store is a sequence of calls.
`Call.Answer` is what a call returns when it succeeds; `Env` is what the backend
contributes to it: its clock, and the order an unordered scan visits the rows in.
-/

/-- A call of the `Store` trait. -/
inductive Call where
  | enqueue (job : NewJob)
  | claimNext (kinds : List String) (priorityFloor : Int) (lease : Duration) (claimedBy : String)
  | settle (id : Ulid) (claimedBy : String) (runNo : Nat) (settlement : Settlement)
      (journal : JournalAppend)
  | journal (id : Ulid)
  | nextVisibleAt (kinds : List String)
  | dedupCandidate (kind dedupKey : String)
  | findStale
  | recover (id : Ulid) (visibleAt : DateTime) (failureCount : Int) (runNo : Nat)
      (journal : JournalAppend)
  | extendLease (id : Ulid) (claimedBy : String) (runNo : Nat) (lease : Duration)
  | job (id : Ulid)
  | cleanup (criteria : CleanupCriteria)
  | mergeInto (id : Ulid) (update : Option MergePayload) (journal : JournalAppend)
  deriving DecidableEq

/-- What a successful call returns. -/
abbrev Call.Answer : Call → Type
  | .enqueue _ => Unit
  | .claimNext .. => Option JobRecord
  | .settle .. => Bool
  | .journal _ => List JournalRecord
  | .nextVisibleAt _ => Option DateTime
  | .dedupCandidate .. => Option JobRecord
  | .findStale => List JobRecord
  | .recover .. => Bool
  | .extendLease .. => Bool
  | .job _ => Option JobRecord
  | .cleanup _ => Nat
  | .mergeInto .. => Bool

/-- The id an `enqueue` presents. -/
def Call.enqueues : Call → Option Ulid
  | .enqueue new => some new.id
  | _ => none

/-- What the backend contributes to a call. -/
structure Env where
  now : DateTime
  rank : Ulid → Nat

/-- A call made at a moment, with its reply. -/
structure Event where
  env : Env
  call : Call
  reply : Except Error call.Answer

/-- What a call meant for the job it is about. -/
inductive Mark where
  | quiet
  /-- An `enqueue` inserted the job. -/
  | opened
  /-- A `claim_next` handed out this run number. -/
  | handed (runNo : Nat)
  /-- A `settle` or `recover` returned `true` for this run number. -/
  | closed (runNo : Nat)
  /-- An `extend_lease` at this run number moved the expiry. -/
  | extended (runNo : Nat) (expires : DateTime)
  deriving DecidableEq, Repr

/-- The job a call took effect on, and how. -/
def Event.effect : Event → Option (Ulid × Mark)
  | ⟨_, .enqueue new, .ok ()⟩ => some (new.id, .opened)
  | ⟨_, .claimNext .., .ok (some r)⟩ => some (r.id, .handed r.runCount)
  | ⟨_, .settle id _ runNo _ _, .ok true⟩ => some (id, .closed runNo)
  | ⟨_, .recover id _ _ runNo _, .ok true⟩ => some (id, .closed runNo)
  | ⟨env, .extendLease id _ runNo lease, .ok true⟩ => some (id, .extended runNo (env.now + lease))
  | _ => none

/-- What an event means for the job `id`. -/
def Event.mark (id : Ulid) (e : Event) : Mark :=
  match e.effect with
  | some (id', mark) => if id' = id then mark else .quiet
  | none => .quiet

section Marks

variable {e : Event} {id : Ulid}

/-- A mark other than quiet is of an effect on the job. -/
theorem Event.effect_of_mark {mark : Mark} (h : e.mark id = mark) (hne : mark ≠ .quiet) :
    e.effect = some (id, mark) := by
  unfold Event.mark at h
  split at h
  · rename_i id' mark' heffect
    split at h
    · rename_i hid
      rw [heffect, hid, h]
    · exact absurd h.symm hne
  · exact absurd h.symm hne

/-- A job is opened by an applied insert. -/
theorem opened_inv (h : e.mark id = .opened) :
    ∃ env new, e = ⟨env, .enqueue new, .ok ()⟩ ∧ new.id = id := by
  have heffect := e.effect_of_mark h (by simp)
  unfold Event.effect at heffect
  split at heffect <;> simp_all

/-- Only an `enqueue` of the id opens the job. -/
theorem enqueues_of_opened (h : e.mark id = .opened) : e.call.enqueues = some id := by
  obtain ⟨env, new, rfl, rfl⟩ := opened_inv h
  rfl

end Marks

end Venturi
