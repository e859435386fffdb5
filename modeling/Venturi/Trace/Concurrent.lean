import Venturi.Trace.Program
import Venturi.Trace.Run

namespace Trace

/-!
# Programs among other parties

A program is not alone with the state it works on: between any two of its operations other
parties may take any number of steps.

* `Turn` — one recorded step while a program is under way: an operation of its own, in the
  environment it was performed in and with its answer, or a step of somebody else.
* `Exec` — the executions of a program among such steps.
* `Path` — a stretch of steps of others; what each of them keeps, the stretch keeps.
* `Exec.of_ret` / `Exec.of_op` — how an execution that returned begins, for each form of the
  program.
* `Exec.slice` / `Exec.agree` — what an execution does between two positions, and what it is
  the same in at both.
* `Ensures` — what a program returns and does, from a state that satisfies a condition the
  steps of others keep; `Ensures.ret` and `Ensures.op` are the rules a proof follows the code
  with.
* `Program.amid` — runs a program while others act on a schedule, so that a concrete execution
  can be evaluated.
-/

open Program

/-! ### Turns -/

/-- One step while a program is under way. -/
inductive Turn {Op : Type} (σ η : Type*) (Ans : Op → Type) (ε : Type*) where
  /-- An operation of the program. -/
  | own (m : Move σ (η × Act Ans))
  /-- A step of another party. -/
  | other (m : Move σ ε)

section Turns

variable {Op : Type} {σ η ε : Type*} {Ans : Op → Type} {tr tr' : List (Turn σ η Ans ε)}
  {ms : List (Move σ ε)} {m : Move σ (η × Act Ans)}

/-- The state a step is taken in. -/
def Turn.before : Turn σ η Ans ε → σ
  | .own m => m.before
  | .other m => m.before

/-- The operation of the program, if the step is one. -/
def Turn.own? : Turn σ η Ans ε → Option (Move σ (η × Act Ans))
  | .own m => some m
  | .other _ => none

/-- The operations the program performed, in order. -/
def owns (tr : List (Turn σ η Ans ε)) : List (Move σ (η × Act Ans)) := tr.filterMap Turn.own?

@[simp] theorem owns_nil : owns ([] : List (Turn σ η Ans ε)) = [] := rfl

@[simp] theorem owns_own : owns (.own m :: tr) = m :: owns tr := rfl

theorem owns_append : owns (tr ++ tr') = owns tr ++ owns tr' := List.filterMap_append

@[simp] theorem owns_others : owns (ms.map .other ++ tr) = owns tr := by
  induction ms with
  | nil => rfl
  | cons m ms ih => exact ih

/-- Steps of others are no operations. -/
@[simp] theorem owns_map_other : owns (ms.map .other : List (Turn σ η Ans ε)) = [] := by
  have hothers : owns (ms.map .other ++ [] : List (Turn σ η Ans ε)) = owns [] := owns_others
  rwa [List.append_nil] at hothers

/-- Nobody else took a step. -/
def Solo (tr : List (Turn σ η Ans ε)) : Prop := ∀ t ∈ tr, t.own?.isSome

instance (tr : List (Turn σ η Ans ε)) : Decidable (Solo tr) :=
  inferInstanceAs (Decidable (∀ t ∈ tr, t.own?.isSome))

/-- A run by one party alone without a step of it is empty. -/
theorem Solo.of_owns_nil (h : Solo tr) (hnil : owns tr = []) : tr = [] := by
  cases tr with
  | nil => rfl
  | cons t tr =>
    have hsome := h t List.mem_cons_self
    cases t with
    | own m => cases hnil
    | other m => cases hsome

/-- A step is an own one exactly if the run has it as a turn of the program. -/
theorem mem_owns : m ∈ owns tr ↔ .own m ∈ tr := by
  rw [owns, List.mem_filterMap]
  constructor
  · rintro ⟨t, ht, hm⟩
    cases t with
    | own m' => exact Option.some.inj hm ▸ ht
    | other m' => cases hm
  · exact fun h => ⟨.own m, h, rfl⟩

end Turns

/-! ### Stretches of steps of others -/

section Paths

variable {σ ε : Type*} {step : σ → ε → σ → Prop} {s s' : σ} {ms : List (Move σ ε)}

/-- Steps of other parties, one after the other. -/
inductive Path (step : σ → ε → σ → Prop) : σ → List (Move σ ε) → σ → Prop
  | nil (s : σ) : Path step s [] s
  | cons {s s' s'' : σ} {e : ε} {ms : List (Move σ ε)} (hs : step s e s')
      (h : Path step s' ms s'') : Path step s (⟨s, e, s'⟩ :: ms) s''

/-- What every step keeps, the stretch keeps. -/
theorem Path.keeps {I : σ → Prop} (h : Path step s ms s')
    (hstep : ∀ m ∈ ms, step m.before m.label m.after → I m.before → I m.after) (hs : I s) :
    I s' := by
  induction h with
  | nil => exact hs
  | cons hstep₁ _ ih =>
    refine ih (fun m hm => hstep m (List.mem_cons_of_mem _ hm)) ?_
    exact hstep _ List.mem_cons_self hstep₁ hs

end Paths

/-! ### Executions -/

section Executions

variable {Op : Type} {σ η ε : Type*} {Ans : Op → Type} {α : Type}
  {own : σ → η → (o : Op) → Ans o → σ → Prop} {other : σ → ε → σ → Prop}

/-- `Exec own other p s tr q s'`: while the turns `tr` took the state from `s` to `s'`, the
    program `p` became `q`. -/
inductive Exec (own : σ → η → (o : Op) → Ans o → σ → Prop) (other : σ → ε → σ → Prop) :
    Program Ans α → σ → List (Turn σ η Ans ε) → Program Ans α → σ → Prop
  | done (p : Program Ans α) (s : σ) : Exec own other p s [] p s
  | own {o : Op} {k : Ans o → Program Ans α} {a : Ans o} {env : η} {s s' s'' : σ}
      {tr : List (Turn σ η Ans ε)} {q : Program Ans α} (hs : own s env o a s')
      (h : Exec own other (k a) s' tr q s'') :
      Exec own other (.op o k) s (.own ⟨s, (env, ⟨o, a⟩), s'⟩ :: tr) q s''
  | other {p q : Program Ans α} {s s' s'' : σ} {e : ε} {tr : List (Turn σ η Ans ε)}
      (hs : other s e s') (h : Exec own other p s' tr q s'') :
      Exec own other p s (.other ⟨s, e, s'⟩ :: tr) q s''

variable {s s' : σ} {tr : List (Turn σ η Ans ε)} {a b : α}

/-- A program that returned performs nothing more. -/
theorem Exec.of_ret (h : Exec own other (.ret a) s tr (.ret b) s') :
    b = a ∧ ∃ ms, tr = ms.map .other ∧ Path other s ms s' := by
  generalize hp : (Program.ret a : Program Ans α) = p at h
  generalize hq : (Program.ret b : Program Ans α) = q at h
  induction h with
  | done p s =>
    subst hp
    exact ⟨Program.ret.inj hq, [], rfl, .nil s⟩
  | own => cases hp
  | other hs _ ih =>
    obtain ⟨hb, ms, rfl, hpath⟩ := ih hp hq
    exact ⟨hb, _ :: ms, rfl, .cons hs hpath⟩

/-- **A program that performs an operation and returned.** Others took their steps, then the
    operation was performed, and the rest of the program went on with the answer. -/
theorem Exec.of_op {o : Op} {k : Ans o → Program Ans α}
    (h : Exec own other (.op o k) s tr (.ret b) s') :
    ∃ ms s₁ env a s₂ tr', tr = ms.map .other ++ .own ⟨s₁, (env, ⟨o, a⟩), s₂⟩ :: tr' ∧
      Path other s ms s₁ ∧ own s₁ env o a s₂ ∧ Exec own other (k a) s₂ tr' (.ret b) s' := by
  generalize hp : Program.op o k = p at h
  generalize hq : (Program.ret b : Program Ans α) = q at h
  induction h with
  | done p s =>
    subst hp
    cases hq
  | own hs h =>
    cases hp
    subst hq
    exact ⟨[], _, _, _, _, _, rfl, .nil _, hs, h⟩
  | other hs _ ih =>
    obtain ⟨ms, s₁, env, a, s₂, tr', rfl, hpath, hown, hrest⟩ := ih hp hq
    exact ⟨_ :: ms, s₁, env, a, s₂, tr', rfl, .cons hs hpath, hown, hrest⟩

theorem Exec.of_nil {p q : Program Ans α}
    (h : Exec own other p s ([] : List (Turn σ η Ans ε)) q s') : q = p ∧ s' = s := by
  cases h
  exact ⟨rfl, rfl⟩

/-- Every operation of the program was performed as `own` says. -/
theorem Exec.performed {p q : Program Ans α} (h : Exec own other p s tr q s') :
    ∀ m ∈ owns tr, own m.before m.label.1 m.label.2.1 m.label.2.2 m.after := by
  induction h with
  | done => exact List.forall_mem_nil _
  | own hs _ ih => exact List.forall_mem_cons.mpr ⟨hs, ih⟩
  | other _ _ ih => exact ih

/-- Every other turn was a step of somebody else. -/
theorem Exec.stepped {p q : Program Ans α} (h : Exec own other p s tr q s') :
    ∀ m, .other m ∈ tr → other m.before m.label m.after := by
  induction h with
  | done => exact fun _ hm => absurd hm List.not_mem_nil
  | own _ _ ih =>
    intro m hm
    rcases List.mem_cons.mp hm with hm | hm
    · cases hm
    · exact ih m hm
  | other hs _ ih =>
    intro m hm
    rcases List.mem_cons.mp hm with hm | hm
    · cases hm
      exact hs
    · exact ih m hm

/-- **What every turn keeps** holds before every turn. -/
theorem Exec.keeps {I : σ → Prop} {p q : Program Ans α} (h : Exec own other p s tr q s')
    (hown : ∀ s env o a s', own s env o a s' → I s → I s')
    (hother : ∀ s e s', other s e s' → I s → I s') (hI : I s) : ∀ t ∈ tr, I t.before := by
  induction h with
  | done => exact List.forall_mem_nil _
  | own hs _ ih => exact List.forall_mem_cons.mpr ⟨hI, ih (hown _ _ _ _ _ hs hI)⟩
  | other hs _ ih => exact List.forall_mem_cons.mpr ⟨hI, ih (hother _ _ _ hs hI)⟩

/-- **A program nobody else steps into, that changes the state with its last operation only**:
    each operation finds the state of the start, and the last one leaves that of the end. -/
theorem Exec.solo {p q : Program Ans α} {ms : List (Move σ (η × Act Ans))}
    {w : Move σ (η × Act Ans)} (h : Exec own other p s tr q s') (hsolo : Solo tr)
    (howns : owns tr = ms ++ [w]) (hsame : ∀ m ∈ ms, m.after = m.before) :
    (∀ m ∈ ms, m.before = s) ∧ w.before = s ∧ w.after = s' := by
  induction h generalizing ms with
  | done => simp at howns
  | @own o k a env s s₁ s' tr q hs hrest ih =>
    have hsolo' : Solo tr := fun t ht => hsolo t (List.mem_cons_of_mem _ ht)
    cases ms with
    | nil =>
      -- the last operation: nothing follows it
      obtain ⟨rfl, hnil⟩ := List.cons.inj howns
      obtain rfl := hsolo'.of_owns_nil hnil
      obtain ⟨-, rfl⟩ := hrest.of_nil
      exact ⟨List.forall_mem_nil _, rfl, rfl⟩
    | cons m ms =>
      obtain ⟨rfl, hrest'⟩ := List.cons.inj howns
      obtain ⟨hfirst, hlater⟩ := List.forall_mem_cons.mp hsame
      obtain rfl : s₁ = s := hfirst
      obtain ⟨hbefore, hlast⟩ := ih hsolo' hrest' hlater
      exact ⟨List.forall_mem_cons.mpr ⟨rfl, hbefore⟩, hlast⟩
  | other _ _ _ => exact absurd (hsolo _ List.mem_cons_self) Bool.false_ne_true

/-- A program nobody else steps into performs its first operation first. -/
theorem Exec.of_op_solo {o : Op} {k : Ans o → Program Ans α}
    (h : Exec own other (.op o k) s tr (.ret b) s') (hsolo : Solo tr) :
    ∃ env a s₁ tr', tr = .own ⟨s, (env, ⟨o, a⟩), s₁⟩ :: tr' ∧ own s env o a s₁ ∧ Solo tr' ∧
      Exec own other (k a) s₁ tr' (.ret b) s' := by
  cases h with
  | own hs hrest =>
    exact ⟨_, _, _, _, rfl, hs, fun t ht => hsolo t (List.mem_cons_of_mem _ ht), hrest⟩
  | other => exact absurd (hsolo _ List.mem_cons_self) Bool.false_ne_true

/-- One that returned is done. -/
theorem Exec.of_ret_solo (h : Exec own other (.ret a) s tr (.ret b) s') (hsolo : Solo tr) :
    tr = [] ∧ s' = s := by
  cases h with
  | done => exact ⟨rfl, rfl⟩
  | other => exact absurd (hsolo _ List.mem_cons_self) Bool.false_ne_true

/-! ### Positions in an execution -/

/-- The state before the turn at a position, or at the end. -/
def stateAt (tr : List (Turn σ η Ans ε)) (s' : σ) (i : Nat) : σ :=
  ((tr.drop i).head?.map Turn.before).getD s'

/-- The turns between two positions, whichever comes first. -/
def between (tr : List (Turn σ η Ans ε)) (i j : Nat) : List (Turn σ η Ans ε) :=
  (tr.take (max i j)).drop (min i j)

/-- At a turn of its own the program sees the state before it. -/
theorem stateAt_of_own {m : Move σ (η × Act Ans)} {i : Nat} (h : tr[i]? = some (.own m)) :
    stateAt tr s' i = m.before := by
  rw [stateAt, List.head?_drop, h]
  rfl

/-- The states of an execution are those its turns are taken in, and the last one. -/
theorem stateAt_mem (tr : List (Turn σ η Ans ε)) (s' : σ) (i : Nat) :
    stateAt tr s' i ∈ tr.map Turn.before ++ [s'] := by
  unfold stateAt
  cases h : (tr.drop i).head? with
  | none => exact List.mem_append_right _ (List.mem_singleton_self s')
  | some t =>
    have hmem : t ∈ tr := List.mem_of_mem_drop (List.mem_of_head? h)
    exact List.mem_append_left _ (List.mem_map_of_mem hmem)

/-- An execution starts in the state of its first position. -/
theorem Exec.start_eq {p q : Program Ans α} (h : Exec own other p s tr q s') :
    s = stateAt tr s' 0 := by
  cases h <;> rfl

/-- An execution falls in two at every turn. -/
theorem Exec.split {p q : Program Ans α} {tr₁ tr₂ : List (Turn σ η Ans ε)}
    (h : Exec own other p s (tr₁ ++ tr₂) q s') :
    ∃ p' u, Exec own other p s tr₁ p' u ∧ Exec own other p' u tr₂ q s' := by
  induction tr₁ generalizing p s with
  | nil => exact ⟨p, s, .done p s, h⟩
  | cons t tr₁ ih =>
    cases h with
    | own hs h =>
      obtain ⟨p', u, h₁, h₂⟩ := ih h
      exact ⟨p', u, .own hs h₁, h₂⟩
    | other hs h =>
      obtain ⟨p', u, h₁, h₂⟩ := ih h
      exact ⟨p', u, .other hs h₁, h₂⟩

/-- **Between two positions** the program goes from the one state to the other. -/
theorem Exec.slice {p q : Program Ans α} (h : Exec own other p s tr q s') {i j : Nat}
    (hij : i ≤ j) : ∃ p₁ p₂ : Program Ans α,
      Exec own other p₁ (stateAt tr s' i) ((tr.take j).drop i) p₂ (stateAt tr s' j) := by
  rw [← List.take_append_drop i tr] at h
  obtain ⟨p₁, u, -, hrest⟩ := h.split
  have hu : u = stateAt tr s' i := by
    rw [hrest.start_eq, stateAt, stateAt, List.drop_zero]
  rw [← List.take_append_drop (j - i) (tr.drop i)] at hrest
  obtain ⟨p₂, v, hmid, hlast⟩ := hrest.split
  have hv : v = stateAt tr s' j := by
    rw [hlast.start_eq, stateAt, stateAt, List.drop_zero, List.drop_drop, Nat.add_sub_cancel' hij]
  rw [← hu, ← hv, List.drop_take]
  exact ⟨p₁, p₂, hmid⟩

/-- What every turn keeps is the same at the end as at the start. -/
theorem Exec.related {rel : σ → σ → Prop} {p q : Program Ans α} (hrefl : ∀ s, rel s s)
    (htrans : ∀ s₁ s₂ s₃, rel s₁ s₂ → rel s₂ s₃ → rel s₁ s₃) (h : Exec own other p s tr q s')
    (hown : ∀ m, .own m ∈ tr → rel m.before m.after)
    (hother : ∀ m, .other m ∈ tr → rel m.before m.after) : rel s s' := by
  induction h with
  | done => exact hrefl _
  | own hs _ ih =>
    have hrest := ih (fun m hm => hown m (List.mem_cons_of_mem _ hm))
      (fun m hm => hother m (List.mem_cons_of_mem _ hm))
    exact htrans _ _ _ (hown _ List.mem_cons_self) hrest
  | other hs _ ih =>
    have hrest := ih (fun m hm => hown m (List.mem_cons_of_mem _ hm))
      (fun m hm => hother m (List.mem_cons_of_mem _ hm))
    exact htrans _ _ _ (hother _ List.mem_cons_self) hrest

/-- **Two positions of an execution agree** on what the turns between them keep. -/
theorem Exec.agree {rel : σ → σ → Prop} {p q : Program Ans α} (hrel : Equivalence rel)
    (h : Exec own other p s tr q s') (i j : Nat)
    (hown : ∀ m, .own m ∈ between tr i j → rel m.before m.after)
    (hother : ∀ m, .other m ∈ between tr i j → rel m.before m.after) :
    rel (stateAt tr s' i) (stateAt tr s' j) := by
  have htrans : ∀ s₁ s₂ s₃, rel s₁ s₂ → rel s₂ s₃ → rel s₁ s₃ := fun _ _ _ => hrel.trans
  rcases Nat.le_total i j with hij | hij
  · obtain ⟨p₁, p₂, hslice⟩ := h.slice hij
    rw [between, Nat.max_eq_right hij, Nat.min_eq_left hij] at hown hother
    exact hslice.related hrel.refl htrans hown hother
  · obtain ⟨p₁, p₂, hslice⟩ := h.slice hij
    rw [between, Nat.max_eq_left hij, Nat.min_eq_right hij] at hown hother
    exact hrel.symm (hslice.related hrel.refl htrans hown hother)

/-! ### What a program ensures -/

/-- `Ensures own other R I p Q`: an execution of `p` that starts in a state of `I`, among
    steps of others that satisfy `R`, returns a value and performs operations of `Q`. -/
def Ensures (own : σ → η → (o : Op) → Ans o → σ → Prop) (other : σ → ε → σ → Prop)
    (R : Move σ ε → Prop) (I : σ → Prop) (p : Program Ans α)
    (Q : α → List (Move σ (η × Act Ans)) → Prop) : Prop :=
  ∀ s tr a s', Exec own other p s tr (.ret a) s' → (∀ m, .other m ∈ tr → R m) → I s →
    Q a (owns tr)

variable {R : Move σ ε → Prop} {I : σ → Prop} {Q Q' : α → List (Move σ (η × Act Ans)) → Prop}

theorem Ensures.imp {p : Program Ans α} (h : Ensures own other R I p Q)
    (hQ : ∀ a ms, Q a ms → Q' a ms) : Ensures own other R I p Q' :=
  fun s tr a s' hexec hR hI => hQ a _ (h s tr a s' hexec hR hI)

/-- A condition on the start that implies the one assumed. -/
theorem Ensures.weaken {I' : σ → Prop} {p : Program Ans α} (hI : ∀ s, I s → I' s)
    (h : Ensures own other R I' p Q) : Ensures own other R I p Q :=
  fun s tr a s' hexec hR hs => h s tr a s' hexec hR (hI s hs)

theorem Ensures.ret (h : Q a []) : Ensures own other R I (.ret a) Q := by
  intro s tr b s' hexec _ _
  obtain ⟨rfl, ms, rfl, -⟩ := hexec.of_ret
  rw [owns_map_other]
  exact h

/-- **The rule of an operation.** The condition survives the steps of others, and the rest of
    the program ensures its part from the state the operation leaves. -/
theorem Ensures.op {o : Op} {k : Ans o → Program Ans α}
    (hstable : ∀ m : Move σ ε, R m → other m.before m.label m.after → I m.before → I m.after)
    (h : ∀ s env a s', I s → own s env o a s' → ∃ I', I' s' ∧
      Ensures own other R I' (k a) (fun b ms => Q b (⟨s, (env, ⟨o, a⟩), s'⟩ :: ms))) :
    Ensures own other R I (.op o k) Q := by
  intro s tr b s' hexec hR hI
  obtain ⟨ms, s₁, env, a, s₂, tr', rfl, hpath, hown, hrest⟩ := hexec.of_op
  have hI₁ : I s₁ := hpath.keeps
    (fun m hm hstep => hstable m (hR m (List.mem_append_left _ (List.mem_map_of_mem hm))) hstep) hI
  obtain ⟨I', hI', hensures⟩ := h s₁ env a s₂ hI₁ hown
  have hR' : ∀ m, .other m ∈ tr' → R m :=
    fun m hm => hR m (List.mem_append_right _ (List.mem_cons_of_mem _ hm))
  rw [owns_others, owns_own]
  exact hensures s₂ tr' b s' hrest hR' hI'

/-! ### Running a program on a schedule -/

variable {ι : Type*}

/-- The steps others take on these inputs, and the state they leave. -/
def others (act : σ → ι → ε × σ) (s : σ) : List ι → List (Move σ ε) × σ
  | [] => ([], s)
  | i :: inputs =>
      let rest := others act (act s i).2 inputs
      (⟨s, (act s i).1, (act s i).2⟩ :: rest.1, rest.2)

/-- What others do with their inputs is a path of theirs. -/
theorem Path.others {act : σ → ι → ε × σ} (hact : ∀ s i, other s (act s i).1 (act s i).2) (s : σ)
    (inputs : List ι) : Path other s (others act s inputs).1 (others act s inputs).2 := by
  induction inputs generalizing s with
  | nil => exact .nil s
  | cons i inputs ih => exact .cons (hact s i) (ih _)

/-- Run a program in one environment, while others act on the inputs the schedule lists
    before each of its operations. -/
def Program.amid (env : η) (answer : σ → (o : Op) → Ans o × σ) (act : σ → ι → ε × σ) :
    Program Ans α → List (List ι) → σ → List (Turn σ η Ans ε) × α × σ
  | .ret a, _, s => ([], a, s)
  | .op o k, schedule, s =>
      let before := others act s (schedule.headD [])
      let done := answer before.2 o
      let rest := (k done.1).amid env answer act schedule.tail done.2
      (before.1.map .other ++ .own ⟨before.2, (env, ⟨o, done.1⟩), done.2⟩ :: rest.1, rest.2)

/-- Others may step before an execution. -/
theorem Exec.of_path {p q : Program Ans α} {s₁ : σ} {ms : List (Move σ ε)}
    (hpath : Path other s ms s₁) (h : Exec own other p s₁ tr q s') :
    Exec own other p s (ms.map .other ++ tr) q s' := by
  induction hpath with
  | nil => exact h
  | cons hs _ ih => exact .other hs (ih h)

/-- Every operation is performed in the one environment. -/
theorem Program.amid_env {env : η} {answer : σ → (o : Op) → Ans o × σ} {act : σ → ι → ε × σ}
    (p : Program Ans α) (schedule : List (List ι)) (s : σ) :
    ∀ m ∈ owns (p.amid env answer act schedule s).1, m.label.1 = env := by
  induction p generalizing schedule s with
  | ret a => exact List.forall_mem_nil _
  | op o k ih =>
    rw [amid, owns_others, owns_own]
    exact List.forall_mem_cons.mpr ⟨rfl, ih _ _ _⟩

/-- On an empty schedule nobody else takes a step. -/
theorem Program.amid_solo {env : η} {answer : σ → (o : Op) → Ans o × σ} {act : σ → ι → ε × σ}
    (p : Program Ans α) (s : σ) : Solo (p.amid env answer act [] s).1 := by
  induction p generalizing s with
  | ret a => exact List.forall_mem_nil _
  | op o k ih => exact List.forall_mem_cons.mpr ⟨rfl, ih _ _⟩

/-- What `amid` records is an execution. -/
theorem Exec.amid {env : η} {answer : σ → (o : Op) → Ans o × σ} {act : σ → ι → ε × σ}
    (hown : ∀ s o, own s env o (answer s o).1 (answer s o).2)
    (hact : ∀ s i, other s (act s i).1 (act s i).2) (p : Program Ans α)
    (schedule : List (List ι)) (s : σ) :
    Exec own other p s (p.amid env answer act schedule s).1
      (.ret (p.amid env answer act schedule s).2.1) (p.amid env answer act schedule s).2.2 := by
  induction p generalizing schedule s with
  | ret a => exact .done _ _
  | op o k ih =>
    refine Exec.of_path (Path.others hact s _) (.own (hown _ o) ?_)
    exact ih _ _ _

end Executions

end Trace
