import Venturi.Trace.Run
import Venturi.Postgres.Refine

namespace Venturi

/-!
# Runs of the store

* `PostgresStore.Run` — every sequence of atomic calls, with any arguments, from the
  empty database.
* `PostgresStore.Run.job` — the induction rule of the development: what every step of the
  job machine preserves, and every quiet stutter, holds of every job in every run.
* `replay` — runs a list of calls, so that a concrete run can be evaluated.
-/

/-- The recorded steps of a run of the store. -/
abbrev History := List (Trace.Move PostgresStore Event)

/-- The runs of the store under any calls of any parties. -/
abbrev PostgresStore.Run : History → PostgresStore → Prop :=
  Trace.Run PostgresStore.empty (fun _ s e s' => s.Step e s')

/-- The ids presented to `enqueue`, in order. -/
def enqueued (tr : History) : List Ulid := tr.filterMap (fun m => m.label.call.enqueues)

/-- Every `enqueue` uses an id never used before. -/
def FreshIds (tr : History) : Prop := (enqueued tr).Nodup

instance (tr : History) : Decidable (FreshIds tr) := inferInstanceAs (Decidable (List.Nodup _))

section Fresh

variable {tr : History} {m : Trace.Move PostgresStore Event}

theorem enqueued_snoc : enqueued (tr ++ [m]) = enqueued tr ++ m.label.call.enqueues.toList := by
  rw [enqueued, List.filterMap_append]
  cases h : m.label.call.enqueues <;> simp [enqueued, h]

/-- An id that was not presented was not presented before. -/
theorem not_mem_enqueued {id : Ulid} (h : id ∉ enqueued (tr ++ [m])) : id ∉ enqueued tr := by
  rw [enqueued_snoc] at h
  exact fun hid => h (List.mem_append_left _ hid)

theorem FreshIds.of_append {tr' : History} (h : FreshIds (tr ++ tr')) : FreshIds tr := by
  rw [FreshIds, enqueued, List.filterMap_append] at h
  exact h.of_append_left

/-- The id of the last `enqueue` was not presented before. -/
theorem FreshIds.not_mem {id : Ulid} (h : FreshIds (tr ++ [m]))
    (hm : m.label.call.enqueues = some id) : id ∉ enqueued tr := by
  rw [FreshIds, enqueued_snoc, hm] at h
  intro hid
  exact (List.nodup_append.mp h).2.2 id hid id (by simp) rfl

end Fresh

namespace PostgresStore

/-! ### One job over a run -/

/-- **Induction over the life of one job.** -/
theorem Run.job {I : History → Option Job → Prop} {id : Ulid} {tr : History} {s : PostgresStore}
    (h0 : I [] none)
    (hquiet : ∀ tr job m, I tr job → m.label.mark id = .quiet → I (tr ++ [m]) job)
    (hstep : ∀ tr job job' m, I tr job → (∀ j ∈ job, j.row.id = id) → (∀ j ∈ job', j.row.id = id) →
      Job.Step m.label.env.now m.label.call (m.label.mark id) job job' → I (tr ++ [m]) job')
    (h : Run tr s) : I tr (s.view id) := by
  refine Trace.Run.invariant (I := fun tr s => I tr (s.view id)) ?_ ?_ h
  · exact h0
  · intro tr s e s' _ hI hs
    rcases exec_view hs id with ⟨hview, hmark⟩ | hjob
    · exact hview ▸ hquiet tr (s.view id) ⟨s, e, s'⟩ hI hmark
    · exact hstep tr (s.view id) (s'.view id) ⟨s, e, s'⟩ hI (fun _ => view_id) (fun _ => view_id)
        hjob

/-- **Induction over the life of one job from a recorded move on**, for a job whose id is
    used by then: it is never inserted anew. -/
theorem Run.jobSince {J : History → Option Job → Prop} {id : Ulid} {tr₁ tr₂ : History}
    {m : Trace.Move PostgresStore Event} {s : PostgresStore}
    (hborn : id ∈ enqueued (tr₁ ++ [m])) (hstart : J [] (m.after.view id))
    (hquiet : ∀ tr job m', J tr job → m'.label.mark id = .quiet → J (tr ++ [m']) job)
    (hstep : ∀ tr m', Run (tr₁ ++ m :: tr) m'.before → J tr (m'.before.view id) →
      m'.label.mark id ≠ .opened →
      Job.Step m'.label.env.now m'.label.call (m'.label.mark id) (m'.before.view id)
        (m'.after.view id) → J (tr ++ [m']) (m'.after.view id))
    (h : Run (tr₁ ++ m :: tr₂) s) (hfresh : FreshIds (tr₁ ++ m :: tr₂)) : J tr₂ (s.view id) := by
  refine Trace.Run.since (J := fun tr s => FreshIds (tr₁ ++ m :: tr) → J tr (s.view id)) ?_ ?_ h
    hfresh
  · exact fun _ _ _ => hstart
  · intro tr s e s' hrun hI hs hfresh
    rw [← List.cons_append, ← List.append_assoc] at hfresh
    have hJ := hI hfresh.of_append
    rcases exec_view hs id with ⟨hview, hmark⟩ | hjob
    · exact hview ▸ hquiet tr (s.view id) ⟨s, e, s'⟩ hJ hmark
    · refine hstep tr ⟨s, e, s'⟩ hrun hJ (fun hopened => ?_) hjob
      -- the id is used, so no `enqueue` presents it again
      have hborn' : id ∈ enqueued (tr₁ ++ m :: tr) := by
        rw [List.append_cons, enqueued, List.filterMap_append]
        exact List.mem_append_left _ hborn
      exact hfresh.not_mem (m := ⟨s, e, s'⟩) (enqueues_of_opened hopened) hborn'

/-! ### Running a list of calls -/

/-- Run a list of calls. -/
def replay (s : PostgresStore) : List (Env × Call) → History × PostgresStore
  | [] => ([], s)
  | (env, c) :: calls =>
      let (r, s') := s.exec env c
      let (tr, s'') := s'.replay calls
      (⟨s, ⟨env, c, r⟩, s'⟩ :: tr, s'')

/-- What `replay` records is a run. -/
theorem Run.replay {tr : History} {s : PostgresStore} (h : Run tr s) (calls : List (Env × Call)) :
    Run (tr ++ (s.replay calls).1) (s.replay calls).2 := by
  induction calls generalizing tr s with
  | nil => simpa [PostgresStore.replay] using h
  | cons ec calls ih =>
    obtain ⟨env, c⟩ := ec
    have hs : s.Step ⟨env, c, (s.exec env c).1⟩ (s.exec env c).2 := rfl
    have hrun := ih (Trace.Run.snoc h hs)
    rw [List.append_assoc] at hrun
    exact hrun

theorem run_replay (calls : List (Env × Call)) :
    Run (empty.replay calls).1 (empty.replay calls).2 := Run.replay .start calls

/-- The recorded step of one more call. -/
def next (s : PostgresStore) (env : Env) (c : Call) : Trace.Move PostgresStore Event :=
  ⟨s, ⟨env, c, (s.exec env c).1⟩, (s.exec env c).2⟩

theorem run_next (calls : List (Env × Call)) (env : Env) (c : Call) :
    Run ((empty.replay calls).1 ++ [(empty.replay calls).2.next env c])
      ((empty.replay calls).2.next env c).after := Trace.Run.snoc (run_replay calls) rfl

end PostgresStore

/-! ### A sample feed job -/

/-- The clock at `now`; ties are broken in storage order. -/
def Env.ofNow (now : DateTime) : Env := ⟨now, fun _ => 0⟩

/-- A job of kind `feed` under the key `k`, visible from 0. -/
def sampleJob : NewJob where
  id := 0
  kind := "feed"
  payload := .json "1"
  priority := 1
  createdAt := 0
  visibleAt := 0
  carry := .null
  dedupKey := some "k"

/-- A journal entry for it. -/
def sampleEntry (runNo : Nat) (outcome : JournalOutcome) : JournalAppend :=
  ⟨"feed", runNo, 0, outcome, none, none⟩

/-- The job is enqueued and worker `w` claims it at time 0 until time 10. -/
def sampleClaim : List (Env × Call) :=
  [(.ofNow 0, .enqueue sampleJob), (.ofNow 0, .claimNext ["feed"] 0 10 "w")]

/-- The job is claimed and completed at time 1. -/
def sampleCompleted : List (Env × Call) :=
  sampleClaim ++ [(.ofNow 1, .settle 0 "w" 1 (.complete 1) (sampleEntry 1 .completed))]

end Venturi
