import Mathlib.Data.List.Basic

namespace Trace

/-!
# Programs over operations

* `Program Ans` — a party's code as a tree: it either returns, or performs an operation
  `o` and goes on with the answer, of type `Ans o`.  It is a monad, so code is written in
  `do` notation.
* `Program.handle` — the same program, over the operations another layer provides.
* `Program.Follows` — the program performed these operations with these answers, and this
  program remains.  Whatever other parties do between two operations does not show here:
  it is in the answers.
-/

/-- A program that performs operations and returns an `α`. -/
inductive Program {Op : Type} (Ans : Op → Type) (α : Type) where
  | ret (a : α)
  | op (o : Op) (k : Ans o → Program Ans α)

namespace Program

variable {Op : Type} {Ans : Op → Type} {α β : Type}

/-- Sequential composition. -/
def bind : Program Ans α → (α → Program Ans β) → Program Ans β
  | .ret a, f => f a
  | .op o k, f => .op o (fun a => (k a).bind f)

/-- Three programs in a row may be put together in either way. -/
theorem bind_assoc {γ : Type} (p : Program Ans α) (f : α → Program Ans β)
    (g : β → Program Ans γ) : (p.bind f).bind g = p.bind fun a => (f a).bind g := by
  induction p with
  | ret a => rfl
  | op o k ih => exact congrArg (Program.op o) (funext ih)

instance : Monad (Program Ans) where
  pure := .ret
  bind := bind

/-- Perform one operation. -/
def perform (o : Op) : Program Ans (Ans o) := .op o .ret

/-- The program with every operation carried out by code over other operations. -/
def handle {Op' : Type} {Ans' : Op' → Type} (h : (o : Op) → Program Ans' (Ans o)) :
    Program Ans α → Program Ans' α
  | .ret a => .ret a
  | .op o k => (h o).bind fun a => (k a).handle h

/-- An operation with its answer. -/
abbrev Act (Ans : Op → Type) : Type := (o : Op) × Ans o

/-- `Follows p es q`: the program `p` performed `es`, and `q` remains. -/
inductive Follows : Program Ans α → List (Act Ans) → Program Ans α → Prop
  | done (p : Program Ans α) : Follows p [] p
  | step {o : Op} {k : Ans o → Program Ans α} {a : Ans o} {es : List (Act Ans)}
      {q : Program Ans α} (h : Follows (k a) es q) : Follows (.op o k) (⟨o, a⟩ :: es) q

/-- A program that has performed nothing is still itself. -/
theorem follows_nil {p q : Program Ans α} : Follows p [] q ↔ q = p := by
  constructor
  · rintro ⟨⟩
    rfl
  · rintro rfl
    exact .done q

/-- A program that performs an operation follows what starts with it. -/
theorem follows_op {o : Op} {k : Ans o → Program Ans α} {e : Act Ans} {es : List (Act Ans)}
    {q : Program Ans α} :
    Follows (.op o k) (e :: es) q ↔ ∃ a, e = ⟨o, a⟩ ∧ Follows (k a) es q := by
  constructor
  · intro h
    cases h with
    | step h => exact ⟨_, rfl, h⟩
  · rintro ⟨a, rfl, h⟩
    exact .step h

/-- A returned program performs nothing. -/
theorem not_follows_ret {a : α} {e : Act Ans} {es : List (Act Ans)} {q : Program Ans α} :
    ¬ Follows (.ret a) (e :: es) q := nofun

end Program

end Trace
