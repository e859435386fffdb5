import Venturi.Queue.Merge

namespace Venturi

open Sql PostgresStore

/-!
# When pending jobs become visible, and what announces them (`postgres/mod.rs`)

* `PostgresStore.Due` — a pending job of these kinds is visible from then on.
* `nextVisibleAt_eq_some` / `nextVisibleAt_eq_none` — what `next_visible_at` returns.
* `Event.notifies` — the calls whose transaction issues a `NOTIFY`.
* `Step.notifies_or_pending` — where the pending jobs after a call come from.
* `Step.due_of_silent` — a call that issues no `NOTIFY` makes no job due.
-/

/-! ### Due jobs -/

/-- A pending job of one of these kinds is visible from `t` on. -/
def PostgresStore.Due (s : PostgresStore) (kinds : List String) (t : DateTime) : Prop :=
  ∃ id j, s.view id = some j ∧ j.row.status = .pending ∧ j.row.kind ∈ kinds ∧ j.row.visibleAt = t

/-- A job is due at a time exactly if a pending row of these kinds becomes visible then. -/
theorem PostgresStore.due_iff {s : PostgresStore} {kinds : List String} {t : DateTime} :
    s.Due kinds t ↔
      ∃ r ∈ s.jobs.rows, r.status = .pending ∧ r.kind ∈ kinds ∧ r.visibleAt = t := by
  constructor
  · rintro ⟨id, j, hj, hpending, hkind, ht⟩
    exact ⟨j.row, Table.mem_of_find? (view_eq_some.mp hj).1, hpending, hkind, ht⟩
  · rintro ⟨r, hr, hpending, hkind, ht⟩
    have hview : s.view r.id = some ⟨r, s.journalOf r.id⟩ :=
      view_eq_some.mpr ⟨Table.find?_key hr, rfl⟩
    exact ⟨r.id, _, hview, hpending, hkind, ht⟩

namespace PostgresStore

/-- A floor of zero admits every stored job. -/
theorem lt_of_ineligible {s : PostgresStore} {kinds : List String} {now t : DateTime}
    (h : ∀ id j, s.view id = some j → ¬ j.row.eligible kinds 0 now) (hdue : s.Due kinds t) :
    now < t := by
  obtain ⟨id, j, hj, hpending, hkind, rfl⟩ := hdue
  refine not_le.mp (fun hvisible => h id j hj (JobRecord.eligible_iff.mpr ?_))
  have htier : j.row.ValidTier := s.tiers _ (Table.mem_of_find? (view_eq_some.mp hj).1)
  exact ⟨hpending, hvisible, hkind, htier.1⟩

section Lookup

variable {s : PostgresStore} {now t : DateTime} {kinds : List String}

/-- What the lookup takes the minimum of. -/
theorem mem_upcoming :
    t ∈ (s.jobs.rows.filter (fun r =>
      r.status = .pending ∧ r.kind ∈ kinds ∧ now < r.visibleAt)).map JobRecord.visibleAt ↔
      s.Due kinds t ∧ now < t := by
  rw [due_iff]
  simp only [List.mem_map, List.mem_filter, decide_eq_true_eq]
  constructor
  · rintro ⟨r, ⟨hr, hpending, hkind, hfuture⟩, rfl⟩
    exact ⟨⟨r, hr, hpending, hkind, rfl⟩, hfuture⟩
  · rintro ⟨⟨r, hr, hpending, hkind, rfl⟩, hfuture⟩
    exact ⟨r, ⟨hr, hpending, hkind, hfuture⟩, rfl⟩

/-- **`next_visible_at`** is the first instant strictly ahead at which a job gets visible. -/
theorem nextVisibleAt_eq_some (h : s.nextVisibleAt now kinds = some t) :
    s.Due kinds t ∧ now < t ∧ ∀ t', s.Due kinds t' → now < t' → t ≤ t' := by
  obtain ⟨hmem, hleast⟩ := List.min?_eq_some_iff.mp h
  obtain ⟨hdue, hfuture⟩ := mem_upcoming.mp hmem
  exact ⟨hdue, hfuture, fun t' hdue' hfuture' => hleast t' (mem_upcoming.mpr ⟨hdue', hfuture'⟩)⟩

/-- Where no job is to become visible, every due time has passed. -/
theorem nextVisibleAt_eq_none (h : s.nextVisibleAt now kinds = none) (hdue : s.Due kinds t) :
    t ≤ now := by
  refine not_lt.mp (fun hfuture => ?_)
  have hmem := mem_upcoming.mpr ⟨hdue, hfuture⟩
  rw [List.min?_eq_none_iff.mp h] at hmem
  exact absurd hmem List.not_mem_nil

end Lookup

/-! ### Announcements -/

end PostgresStore

/-- `notifies_on_repend`. -/
def Settlement.notifiesOnRepend : Settlement → Bool
  | .retry .. | .pause .. | .release .. => true
  | .complete .. | .dead .. => false

/-- Whether the transaction of a call issues a `NOTIFY`. -/
def Event.notifies : Event → Bool
  | ⟨_, .enqueue _, .ok ()⟩ => true
  | ⟨_, .settle _ _ _ settlement _, .ok true⟩ => settlement.notifiesOnRepend
  | ⟨_, .recover .., .ok true⟩ => true
  | _ => false

section Notifies

variable {e : Event} {id : Ulid}

/-- An insert is announced. -/
theorem Event.notifies_of_opened (h : e.mark id = .opened) : e.notifies := by
  obtain ⟨env, new, rfl, -⟩ := opened_inv h
  rfl

/-- What puts a job back to pending is announced. -/
theorem Event.notifies_of_closed {n : Nat} (h : e.mark id = .closed n)
    (hrepends : e.call.repends) : e.notifies := by
  have heffect := e.effect_of_mark h (by simp)
  unfold Event.effect at heffect
  split at heffect
  · simp at heffect
  · simp at heffect
  · rename_i settlement _
    cases settlement <;> simp_all [Event.notifies, Call.repends, Settlement.notifiesOnRepend]
  · rfl
  · simp at heffect
  · simp at heffect

end Notifies

/-- **A job that is pending after a step** is announced by it, or it was pending before, of the
    same kind and visible from the same time on. -/
theorem PostgresStore.Step.notifies_or_pending {s s' : PostgresStore} {e : Event} {id : Ulid}
    {j' : Job} (h : s.Step e s') (hj' : s'.view id = some j')
    (hpending : j'.row.status = .pending) :
    e.notifies ∨ ∃ j, s.view id = some j ∧ j.row.status = .pending ∧ j.row.kind = j'.row.kind ∧
      j.row.visibleAt = j'.row.visibleAt := by
  rcases exec_view h id with ⟨hview, -⟩ | hstep
  · exact .inr ⟨j', hview ▸ hj', hpending, rfl, rfl⟩
  · rw [hj'] at hstep
    rcases hstep.pending_inv hpending with
      ⟨new, -, hopened, -⟩ | ⟨j, hj, ⟨hrepends, n, hclosed⟩ | hbefore⟩
    · exact .inl (Event.notifies_of_opened hopened)
    · exact .inl (Event.notifies_of_closed hclosed hrepends)
    · exact .inr ⟨j, hj, hbefore⟩

/-- **A call that announces nothing makes no job due.** -/
theorem PostgresStore.Step.due_of_silent {s s' : PostgresStore} {e : Event} {kinds : List String}
    {t : DateTime} (h : s.Step e s') (hsilent : e.notifies = false) (hdue : s'.Due kinds t) :
    s.Due kinds t := by
  obtain ⟨id, j', hj', hpending, hkind, ht⟩ := hdue
  rcases h.notifies_or_pending hj' hpending with hloud | ⟨j, hj, hbefore, hsame, hvisible⟩
  · exact absurd hloud (by simp [hsilent])
  · exact ⟨id, j, hj, hbefore, hsame ▸ hkind, hvisible.trans ht⟩

end Venturi
