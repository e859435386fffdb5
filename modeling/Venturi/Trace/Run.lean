import Mathlib.Data.List.Induction

namespace Trace

/-!
# Runs of a transition system, with their history

* `Move` — one recorded step: the state before, the label, the state after.
* `Run init step` — the runs from `init`.  A step may look at the history that led to
  its state, so "an actor answers a message it received" is a step relation, with no
  ghost field in the state.
* `Run.invariant` — the induction rule: an invariant of history and state that holds
  at the start and survives every step holds at the end of every run.
* `Run.since` — the same rule from a recorded move on.
* `Run.split` / `Run.and_iff` — a recorded move was a step of the run, and a side
  condition on every step is a property of the recorded moves.
* `Run.append` / `Run.descents` — a run goes on after its end; how often a rank can fall.
* `Run.budget` — what the steps of a run may cost, when a rank pays for them.
* `project` / `Run.project` — the run another system takes part in.
-/

variable {σ ε : Type*}

/-- One recorded step of a run. -/
structure Move (σ ε : Type*) where
  before : σ
  label : ε
  after : σ

/-- The runs from `init`: the history, oldest move first, and the state reached. -/
inductive Run (init : σ) (step : List (Move σ ε) → σ → ε → σ → Prop) :
    List (Move σ ε) → σ → Prop
  | start : Run init step [] init
  | snoc {tr : List (Move σ ε)} {s s' : σ} {e : ε} (h : Run init step tr s)
      (hs : step tr s e s') : Run init step (tr ++ [⟨s, e, s'⟩]) s'

namespace Run

variable {init : σ} {step step' : List (Move σ ε) → σ → ε → σ → Prop}
  {tr tr₁ tr₂ : List (Move σ ε)} {s : σ} {m : Move σ ε}

/-- **Invariant rule.** What holds at the start and survives every step of a run holds
    at its end. -/
theorem invariant {I : List (Move σ ε) → σ → Prop} (h0 : I [] init)
    (hstep : ∀ tr s e s', Run init step tr s → I tr s → step tr s e s' →
      I (tr ++ [⟨s, e, s'⟩]) s')
    (h : Run init step tr s) : I tr s := by
  induction h with
  | start => exact h0
  | snoc hr hs ih => exact hstep _ _ _ _ hr ih hs

/-- A larger step relation has every run of the smaller one. -/
theorem mono (hle : ∀ tr s e s', step tr s e s' → step' tr s e s')
    (h : Run init step tr s) : Run init step' tr s := by
  induction h with
  | start => exact .start
  | snoc _ hs ih => exact .snoc ih (hle _ _ _ _ hs)

/-- The last move of a run was a step, from a run of what came before. -/
theorem of_snoc (h : Run init step (tr ++ [m]) s) :
    Run init step tr m.before ∧ step tr m.before m.label m.after ∧ m.after = s := by
  generalize htr : tr ++ [m] = tr' at h
  cases h with
  | start => simp at htr
  | snoc hr hs =>
    obtain ⟨rfl, hm⟩ := List.append_inj' htr rfl
    obtain rfl := List.singleton_inj.mp hm
    exact ⟨hr, hs, rfl⟩

/-- Every prefix of a history is the history of a run. -/
theorem of_append (h : Run init step (tr₁ ++ tr₂) s) : ∃ s₁, Run init step tr₁ s₁ := by
  induction tr₂ using List.reverseRecOn generalizing s with
  | nil => exact ⟨s, by simpa using h⟩
  | append_singleton tr₂ m ih =>
    rw [← List.append_assoc] at h
    exact ih h.of_snoc.1

/-- A recorded move was a step of the run, taken after the moves before it. -/
theorem split (h : Run init step (tr₁ ++ m :: tr₂) s) :
    Run init step tr₁ m.before ∧ step tr₁ m.before m.label m.after ∧
      Run init step (tr₁ ++ [m]) m.after := by
  rw [List.append_cons] at h
  obtain ⟨s₁, h₁⟩ := h.of_append
  obtain ⟨hr, hs, rfl⟩ := h₁.of_snoc
  exact ⟨hr, hs, h₁⟩

/-- **Induction from a recorded move on.** What a move establishes and every later step
    keeps holds at the end, of the moves since. -/
theorem since {J : List (Move σ ε) → σ → Prop}
    (hstart : Run init step tr₁ m.before → step tr₁ m.before m.label m.after → J [] m.after)
    (hstep : ∀ tr s e s', Run init step (tr₁ ++ m :: tr) s → J tr s →
      step (tr₁ ++ m :: tr) s e s' → J (tr ++ [⟨s, e, s'⟩]) s')
    (h : Run init step (tr₁ ++ m :: tr₂) s) : J tr₂ s := by
  induction tr₂ using List.reverseRecOn generalizing s with
  | nil =>
    obtain ⟨hr, hs, rfl⟩ := h.of_snoc
    exact hstart hr hs
  | append_singleton tr₂ m' ih =>
    rw [← List.cons_append, ← List.append_assoc] at h
    obtain ⟨hr, hs, rfl⟩ := h.of_snoc
    exact hstep tr₂ m'.before m'.label m'.after hr (ih hr) hs

/-- A side condition on every step is a condition on the recorded moves. -/
theorem and_iff {C : σ → ε → Prop} :
    Run init (fun tr s e s' => step tr s e s' ∧ C s e) tr s ↔
      Run init step tr s ∧ ∀ m ∈ tr, C m.before m.label := by
  constructor
  · intro h
    refine ⟨h.mono (fun _ _ _ _ hs => hs.1), fun m hm => ?_⟩
    obtain ⟨tr₁, tr₂, rfl⟩ := List.append_of_mem hm
    exact h.split.2.1.2
  · rintro ⟨h, hC⟩
    induction h with
    | start => exact .start
    | snoc hr hs ih =>
      refine .snoc (ih (fun m hm => hC m (by simp [hm]))) ⟨hs, ?_⟩
      exact hC _ (List.mem_append_right _ (List.mem_singleton_self _))

end Run

/-! ### Continued runs -/

section Continue

variable {init : σ} {step : List (Move σ ε) → σ → ε → σ → Prop} {tr tr' : List (Move σ ε)}
  {s s' : σ}

/-- A run from the end of a run continues it, when steps do not look at the history. -/
theorem Run.append {step : σ → ε → σ → Prop} (h : Run init (fun _ => step) tr s)
    (h' : Run s (fun _ => step) tr' s') : Run init (fun _ => step) (tr ++ tr') s' := by
  induction h' with
  | start => rwa [List.append_nil]
  | snoc _ hs ih =>
    rw [← List.append_assoc]
    exact ih.snoc hs

/-- **Descents.** A rank that no step of a run raises bounds the number of steps that lower
    it. -/
theorem Run.descents (rank : σ → Nat) (hrank : ∀ m ∈ tr, rank m.after ≤ rank m.before)
    (h : Run init step tr s) :
    tr.countP (fun m => rank m.after < rank m.before) + rank s ≤ rank init := by
  induction h with
  | start => simp
  | @snoc tr s s' e _ hs ih =>
    have hbefore := ih (fun m hm => hrank m (List.mem_append_left _ hm))
    have hlast : rank s' ≤ rank s := hrank ⟨s, e, s'⟩ (by simp)
    rw [List.countP_append, List.countP_singleton]
    split_ifs with hlower
    · have hlower : rank s' < rank s := by simpa using hlower
      omega
    · omega

/-- What the labels of a history add up to. -/
def total (f : ε → Nat) (tr : List (Move σ ε)) : Nat := tr.foldl (fun n m => n + f m.label) 0

@[simp] theorem total_nil (f : ε → Nat) : total f ([] : List (Move σ ε)) = 0 := rfl

@[simp] theorem total_snoc (f : ε → Nat) (tr : List (Move σ ε)) (m : Move σ ε) :
    total f (tr ++ [m]) = total f tr + f m.label := by
  simp [total, List.foldl_append]

@[simp] theorem total_zero (tr : List (Move σ ε)) : total (fun _ => 0) tr = 0 := by
  induction tr using List.reverseRecOn with
  | nil => rfl
  | append_singleton tr m ih => rw [total_snoc, ih]

/-- **Budgets.** When each step pays for what it costs out of a rank, up to what its label
    refunds, a run costs no more than the rank at its start and the refunds. -/
theorem Run.budget {step : σ → ε → σ → Prop} {I : σ → Prop} (rank : σ → Nat)
    (cost refund : ε → Nat) (hI : ∀ s e s', I s → step s e s' → I s')
    (hstep : ∀ s e s', I s → step s e s' → rank s' + cost e ≤ rank s + refund e)
    (h : Run init (fun _ => step) tr s) (h0 : I init) :
    total cost tr + rank s ≤ rank init + total refund tr ∧ I s := by
  induction h with
  | start => simp [h0]
  | @snoc tr s s' e _ hs ih =>
    obtain ⟨hle, hs₀⟩ := ih
    have hpaid := hstep s e s' hs₀ hs
    simp only [total_snoc]
    exact ⟨by omega, hI s e s' hs₀ hs⟩

end Continue

/-! ### Projections -/

section Project

variable {σ' ε' : Type*} {f : σ → σ'} {g : ε → Option ε'} {tr tr' : List (Move σ ε)}
  {m : Move σ ε}

/-- One recorded step, as another system sees it. -/
def Move.project (f : σ → σ') (g : ε → Option ε') (m : Move σ ε) : Option (Move σ' ε') :=
  (g m.label).map (fun e => ⟨f m.before, e, f m.after⟩)

/-- A history, as another system sees it: the steps whose label means nothing to it are
    stutters and leave no record. -/
def project (f : σ → σ') (g : ε → Option ε') (tr : List (Move σ ε)) : List (Move σ' ε') :=
  tr.filterMap (Move.project f g)

theorem project_append : project f g (tr ++ tr') = project f g tr ++ project f g tr' :=
  List.filterMap_append

theorem project_snoc : project f g (tr ++ [m]) = project f g tr ++ (m.project f g).toList := by
  rw [project_append]
  cases h : m.project f g <;> simp [project, h]

/-- A move the other system sees stands in its history between what came before and after. -/
theorem project_middle {m' : Move σ' ε'} (h : m.project f g = some m') :
    project f g (tr ++ m :: tr') = project f g tr ++ m' :: project f g tr' := by
  rw [project_append, project, project, project, List.filterMap_cons_some h]

/-- **Projection.** When every step is a step of another system, or a stutter of it, the
    projected history is a run of the other system. -/
theorem Run.project {init : σ} {step : List (Move σ ε) → σ → ε → σ → Prop}
    {step' : List (Move σ' ε') → σ' → ε' → σ' → Prop} {s : σ}
    (hstep : ∀ tr s e s', step tr s e s' → ∀ e' ∈ g e, step' (project f g tr) (f s) e' (f s'))
    (hstutter : ∀ tr s e s', step tr s e s' → g e = none → f s' = f s)
    (h : Run init step tr s) : Run (f init) step' (project f g tr) (f s) := by
  induction h with
  | start => exact .start
  | @snoc tr s s' e _ hs ih =>
    rw [project_snoc, Move.project]
    cases hg : g e with
    | none =>
      -- a stutter leaves no record
      rw [hstutter _ _ _ _ hs hg]
      simpa using ih
    | some e' => exact ih.snoc (hstep _ _ _ _ hs e' hg)

end Project

end Trace
