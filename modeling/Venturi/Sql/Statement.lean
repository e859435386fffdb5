import Mathlib.Tactic.SplitIfs
import Venturi.Sql.Table

namespace Sql

/-!
# SQL statements

A client's statements as syntax, and what they mean on rows of nullable columns.

* `Engine` / `Ctx` — how the database orders and adds values; what a statement runs with.
* `Term`, `Expr`, `Cond` — what a `SET`, a `WHERE` and a `CHECK` are made of.  A comparison with
  `NULL` is unknown: `WHERE` drops the row, `CHECK` admits it.
* `Select`, `SelectMin`, `Update`, `InsertInto`, `DeleteFrom` — the statements.  Each takes as many
  parameters as its highest placeholder says.
* `Select.pick_map`, `Update.run_map`, … — a statement on rows that stand for typed records, from
  what its clauses mean on a record.
-/

/-- A value, or `NULL`. -/
abbrev Datum (V : Type) := Option V

/-- A row of a table. -/
abbrev Row (Col V : Type) := Col → Datum V

/-- Why a statement fails. -/
inductive Fault where
  /-- The client binds another number of parameters than the statement has. -/
  | parameters
  | outOfRange
  | datetimeOverflow
  | negativeLimit
  | cardinality
  | notNull
  | check
  | unique
  | foreignKey
  deriving DecidableEq, Repr

/-- How the database treats values. -/
structure Engine (V : Type) where
  /-- The order of the values of one type. -/
  lt : V → V → Bool
  /-- `+`, when the sum is in the range of its type. -/
  add : V → V → Except Fault V
  /-- The number a `LIMIT` reads. -/
  count : V → Int

/-- A bound parameter. -/
inductive Param (V : Type) where
  | scalar (d : Datum V)
  | array (vs : List V)

/-- What a statement runs with. -/
structure Ctx (V : Type) where
  engine : Engine V
  now : V
  params : List (Param V)

/-! ### Conditions -/

section Syntax

variable (Col V : Type)

/-- A column, the parameter `$n`, a literal, or `now()`. -/
inductive Term where
  | col (c : Col)
  | param (n : Nat)
  | lit (d : Datum V)
  | now

/-- An expression of a `SET` or `VALUES` clause. -/
inductive Expr where
  | term (t : Term Col V)
  | add (a b : Expr)

inductive Comparison where
  | eq
  | lt
  | le
  | gt
  | ge

/-- A condition of a `WHERE` or `CHECK` clause. -/
inductive Cond where
  | cmp (op : Comparison) (a b : Term Col V)
  | isNotNull (a : Term Col V)
  /-- `a IN (…)`. -/
  | isIn (a : Term Col V) (vs : List V)
  /-- `a = ANY($n)`. -/
  | any (a : Term Col V) (n : Nat)
  /-- `(a, …) < (b, …)`. -/
  | rowLt (as bs : List (Term Col V))

/-- The direction of a sort key. -/
inductive Dir where
  | asc
  | desc

/-- `SELECT columns … WHERE conds ORDER BY order LIMIT limit`. -/
structure Select where
  columns : List Col
  conds : List (Cond Col V)
  order : List (Col × Dir)
  limit : Option (Term Col V)

/-- `SELECT min(column) … WHERE conds`. -/
structure SelectMin where
  column : Col
  conds : List (Cond Col V)

/-- The rows an update is about: `WHERE conds`, or `WHERE c = (SELECT c …)`. -/
inductive Target where
  | all (conds : List (Cond Col V))
  | one (c : Col) (q : Select Col V)

/-- `UPDATE … SET sets WHERE … RETURNING`. -/
structure Update where
  sets : List (Col × Expr Col V)
  target : Target Col V

/-- `INSERT INTO … (columns) VALUES (…)`. -/
structure InsertInto where
  values : List (Col × Expr Col V)

/-- `DELETE FROM … WHERE conds`. -/
structure DeleteFrom where
  conds : List (Cond Col V)

/-- A table: its primary key, its column constraints and defaults, its `CHECK`s. -/
structure TableDef where
  key : Col
  notNull : List Col
  default : Col → Datum V
  checks : List (Cond Col V)

end Syntax

variable {Col V : Type}

/-! ### Placeholders -/

def Term.arity : Term Col V → Nat
  | .param n => n
  | _ => 0

def Expr.arity : Expr Col V → Nat
  | .term t => t.arity
  | .add a b => max a.arity b.arity

/-- The highest of some placeholders. -/
def highest (l : List Nat) : Nat := l.foldr max 0

theorem highest_append (l l' : List Nat) : highest (l ++ l') = max (highest l) (highest l') := by
  induction l with
  | nil => simp [highest]
  | cons n l ih =>
    show max n (highest (l ++ l')) = max (max n (highest l)) (highest l')
    rw [ih, max_assoc]

def Cond.arity : Cond Col V → Nat
  | .cmp _ a b => max a.arity b.arity
  | .isNotNull a => a.arity
  | .isIn a _ => a.arity
  | .any a n => max a.arity n
  | .rowLt as bs => highest ((as ++ bs).map Term.arity)

def Select.arity (q : Select Col V) : Nat :=
  max (highest (q.conds.map Cond.arity)) ((q.limit.map Term.arity).getD 0)

def Target.arity : Target Col V → Nat
  | .all conds => highest (conds.map Cond.arity)
  | .one _ q => q.arity

/-- The highest placeholder of a `SET` or `VALUES` clause. -/
def setsArity (sets : List (Col × Expr Col V)) : Nat := highest (sets.map fun s => s.2.arity)

/-- The client binds what the statement has placeholders for. -/
def Ctx.bind (x : Ctx V) (arity : Nat) : Except Fault Unit :=
  if x.params.length = arity then .ok () else .error .parameters

/-! ### Evaluation -/

/-- The value bound to `$n`. -/
@[simp] def Ctx.scalar (x : Ctx V) (n : Nat) : Datum V :=
  match x.params[n - 1]? with
  | some (.scalar d) => d
  | _ => none

/-- The array bound to `$n`. -/
@[simp] def Ctx.array (x : Ctx V) (n : Nat) : List V :=
  match x.params[n - 1]? with
  | some (.array vs) => vs
  | _ => []

@[simp] def Term.eval (x : Ctx V) (r : Row Col V) : Term Col V → Datum V
  | .col c => r c
  | .param n => x.scalar n
  | .lit d => d
  | .now => some x.now

def Expr.eval (x : Ctx V) (r : Row Col V) : Expr Col V → Except Fault (Datum V)
  | .term t => .ok (t.eval x r)
  | .add a b => do
    match ← a.eval x r, ← b.eval x r with
    | some a, some b => return some (← x.engine.add a b)
    | _, _ => return none

/-- A sum of two values is the sum of the engine. -/
theorem Expr.eval_add {x : Ctx V} {r : Row Col V} {a b : Expr Col V} {u v : V}
    (ha : a.eval x r = .ok (some u)) (hb : b.eval x r = .ok (some v)) :
    (Expr.add a b).eval x r = (x.engine.add u v).map some := by
  rw [Expr.eval, ha, hb]
  simp only [bind, Except.bind]
  cases x.engine.add u v <;> rfl

section Eval

variable [DecidableEq V]

@[simp] def Comparison.holds (engine : Engine V) (a b : V) : Comparison → Bool
  | .eq => a = b
  | .lt => engine.lt a b
  | .le => !engine.lt b a
  | .gt => engine.lt b a
  | .ge => !engine.lt a b

/-- `(a, …) < (b, …)`: decided by the first pair that differs or has a `NULL`. -/
def rowBelow (engine : Engine V) : List (Datum V) → List (Datum V) → Option Bool
  | some a :: as, some b :: bs => if a = b then rowBelow engine as bs else some (engine.lt a b)
  | [], [] => some false
  | _, _ => none

/-- What a condition says of a row; `none` is unknown. -/
@[simp] def Cond.eval (x : Ctx V) (r : Row Col V) : Cond Col V → Option Bool
  | .cmp op a b => do return op.holds x.engine (← a.eval x r) (← b.eval x r)
  | .isNotNull a => some (a.eval x r).isSome
  | .isIn a vs => (a.eval x r).map fun v => decide (v ∈ vs)
  | .any a n => (a.eval x r).map fun v => decide (v ∈ x.array n)
  | .rowLt as bs => rowBelow x.engine (as.map (Term.eval x r)) (bs.map (Term.eval x r))

/-- `WHERE` keeps the rows of which every condition is true. -/
@[simp] def holds (x : Ctx V) (conds : List (Cond Col V)) (r : Row Col V) : Bool :=
  conds.all fun c => c.eval x r = some true

theorem holds_append (x : Ctx V) (conds conds' : List (Cond Col V)) (r : Row Col V) :
    holds x (conds ++ conds') r = (holds x conds r && holds x conds' r) := List.all_append

/-- `CHECK` admits the rows of which no condition is false. -/
def admits (x : Ctx V) (checks : List (Cond Col V)) (r : Row Col V) : Bool :=
  checks.all fun c => c.eval x r ≠ some false

/-- Whether `a` sorts before `b`: `NULL` is above every value. -/
def Dir.before (engine : Engine V) (a b : Datum V) : Dir → Bool
  | .asc => match a, b with
    | some a, some b => engine.lt a b
    | some _, none => true
    | none, _ => false
  | .desc => match a, b with
    | some a, some b => engine.lt b a
    | none, some _ => true
    | _, none => false

/-- The order of an `ORDER BY` clause. -/
def sorted (engine : Engine V) (r r' : Row Col V) : List (Col × Dir) → Bool
  | [] => true
  | (c, dir) :: order =>
    if r c = r' c then sorted engine r r' order else dir.before engine (r c) (r' c)

/-! ### Running statements -/

/-- The number of rows a `LIMIT` lets through; none lets all. -/
def Select.bound (x : Ctx V) (q : Select Col V) : Except Fault (Option Nat) :=
  match q.limit.bind (Term.eval x fun _ => none) with
  | none => .ok none
  | some v =>
    if 0 ≤ x.engine.count v then .ok (some (x.engine.count v).toNat) else .error .negativeLimit

/-- At most so many rows. -/
def cut {R : Type} (bound : Option Nat) (rows : List R) : List R :=
  match bound with
  | none => rows
  | some n => rows.take n

/-- The rows a query selects, out of a scan of the table. -/
def Select.pick (x : Ctx V) (q : Select Col V) (scan : List (Row Col V)) :
    Except Fault (List (Row Col V)) := do
  let bound ← q.bound x
  return cut bound
    ((scan.filter (holds x q.conds)).insertionSort fun r r' => sorted x.engine r r' q.order)

/-- What a query returns. -/
def Select.run (x : Ctx V) (q : Select Col V) (scan : List (Row Col V)) :
    Except Fault (List (List (Datum V))) := do
  x.bind q.arity
  let rows ← q.pick x scan
  return rows.map fun r => q.columns.map r

/-- The least of some data; `NULL` counts for nothing. -/
def least (engine : Engine V) (ds : List (Datum V)) : Datum V :=
  ds.foldl (fun least d =>
    match least, d with
    | some a, some b => if engine.lt b a then some b else some a
    | none, d => d
    | a, none => a) none

/-- What `SELECT min(…)` returns. -/
def SelectMin.run (x : Ctx V) (q : SelectMin Col V) (rows : List (Row Col V)) :
    Except Fault (Datum V) := do
  x.bind (highest (q.conds.map Cond.arity))
  return least x.engine ((rows.filter (holds x q.conds)).map fun r => r q.column)

/-- Whether an update is about a row. -/
def Target.select (x : Ctx V) (scan : List (Row Col V)) :
    Target Col V → Except Fault (Row Col V → Bool)
  | .all conds => .ok (holds x conds)
  | .one c q => do
    match ← q.pick x scan with
    | [] => return fun _ => false
    | [r] => return fun r' => (r c).isSome ∧ r' c = r c
    | _ => throw .cardinality

/-- A row may stand in the table. -/
def TableDef.check (d : TableDef Col V) (x : Ctx V) (r : Row Col V) : Except Fault Unit :=
  if d.notNull.any fun c => (r c).isNone then .error .notNull
  else if admits x d.checks r then .ok ()
  else .error .check

variable [DecidableEq Col]

/-- The row after a `SET` clause; its expressions read the row before. -/
def assign (x : Ctx V) (r : Row Col V) : List (Col × Expr Col V) → Except Fault (Row Col V)
  | [] => .ok r
  | (c, e) :: sets => do
    let r' ← assign x r sets
    return Function.update r' c (← e.eval x r)

/-- An updated row. -/
def TableDef.set (d : TableDef Col V) (x : Ctx V) (sets : List (Col × Expr Col V))
    (r : Row Col V) : Except Fault (Row Col V) := do
  let r' ← assign x r sets
  d.check x r'
  return r'

/-- No two rows under one key. -/
def TableDef.unique (d : TableDef Col V) (rows : List (Row Col V)) : Except Fault Unit :=
  if (rows.map fun r => r d.key).Nodup then .ok () else .error .unique

/-- The rows an update changed, and the table after it. -/
def Update.run (d : TableDef Col V) (x : Ctx V) (u : Update Col V) (scan rows : List (Row Col V)) :
    Except Fault (List (Row Col V) × List (Row Col V)) := do
  x.bind (max (setsArity u.sets) u.target.arity)
  let selects ← u.target.select x scan
  let changed ← (rows.filter selects).mapM (d.set x u.sets)
  let rows ← rows.mapM fun r => if selects r then d.set x u.sets r else .ok r
  d.unique rows
  return (changed, rows)

/-- The table after an insert; `base` holds the defaults and the generated values. -/
def InsertInto.run (d : TableDef Col V) (base : Row Col V) (x : Ctx V) (i : InsertInto Col V)
    (rows : List (Row Col V)) : Except Fault (List (Row Col V)) := do
  x.bind (setsArity i.values)
  let r ← d.set x i.values base
  d.unique (rows ++ [r])
  return rows ++ [r]

/-- The rows a delete removes, and those it leaves. -/
def DeleteFrom.run (x : Ctx V) (q : DeleteFrom Col V) (rows : List (Row Col V)) :
    Except Fault (List (Row Col V) × List (Row Col V)) := do
  x.bind (highest (q.conds.map Cond.arity))
  return (rows.filter (holds x q.conds), rows.filter fun r => !holds x q.conds r)

end Eval

/-! ### Rows that stand for records -/

section Records

variable {R : Type} {f : R → Row Col V} {p : R → Bool} {rs : List R} {x : Ctx V}

/-- A statement with as many parameters as it is given is bound. -/
theorem bind_eq {n : Nat} (h : x.params.length = n) : x.bind n = .ok () := by
  rw [Ctx.bind, if_pos h]

/-- A `LIMIT` on mapped rows maps the rows it leaves. -/
theorem cut_map {S : Type} (g : R → S) (bound : Option Nat) (rs : List R) :
    cut bound (rs.map g) = (cut bound rs).map g := by
  cases bound with
  | none => rfl
  | some n => exact List.map_take.symm

/-- Rows a condition keeps. -/
theorem filter_map_of {select : Row Col V → Bool} (h : ∀ r ∈ rs, select (f r) = p r) :
    (rs.map f).filter select = (rs.filter p).map f := by
  rw [List.filter_map]
  exact congrArg _ (List.filter_congr h)

/-- A pass that may refuse a record. -/
theorem mapM_guarded {α β ε : Type} {valid : α → Prop} [DecidablePred valid] {l : List α}
    {h : α → Except ε β} {g : α → β} {e : ε}
    (hh : ∀ a ∈ l, h a = if valid a then .ok (g a) else .error e) :
    l.mapM h = if ∀ a ∈ l, valid a then .ok (l.map g) else .error e := by
  induction l with
  | nil => simp [pure, Except.pure]
  | cons a l ih =>
    obtain ⟨ha, hl⟩ := List.forall_mem_cons.mp hh
    rw [List.mapM_cons, ha, ih hl]
    by_cases hvalid : valid a
    · by_cases hrest : ∀ a ∈ l, valid a
      · rw [if_pos hvalid, if_pos hrest, if_pos (List.forall_mem_cons.mpr ⟨hvalid, hrest⟩)]
        rfl
      · rw [if_pos hvalid, if_neg hrest, if_neg fun h => hrest (List.forall_mem_cons.mp h).2]
        rfl
    · rw [if_neg hvalid, if_neg fun h => hvalid (List.forall_mem_cons.mp h).1]
      rfl

variable [DecidableEq V]

/-- **A query** selects the rows of the records its clauses are about, in their order. -/
theorem Select.pick_map {κ : Type} [LinearOrder κ] {key : R → κ} {q : Select Col V}
    {bound : Option Nat} (hbound : q.bound x = .ok bound)
    (hp : ∀ r ∈ rs, holds x q.conds (f r) = p r)
    (hkey : ∀ r ∈ rs, ∀ r' ∈ rs, p r → p r' →
      (key r ≤ key r' ↔ sorted x.engine (f r) (f r') q.order = true)) :
    q.pick x (rs.map f) = .ok ((cut bound (orderBy key (rs.filter p))).map f) := by
  have hsort := List.map_insertionSort (fun r r' => key r ≤ key r')
    (fun r r' => sorted x.engine r r' q.order = true) f (rs.filter p) fun r hr r' hr' =>
      hkey r (List.mem_of_mem_filter hr) r' (List.mem_of_mem_filter hr') (List.of_mem_filter hr)
        (List.of_mem_filter hr')
  rw [Select.pick, hbound, filter_map_of hp]
  show Except.ok (cut bound (((rs.filter p).map f).insertionSort _)) = _
  rw [← hsort, cut_map]
  rfl

variable [DecidableEq Col]

/-- **An update** of the records its clauses are about, when the constraints refuse what is
    not `valid`. -/
theorem Update.run_map {d : TableDef Col V} {u : Update Col V} {scan : List (Row Col V)}
    {selects : Row Col V → Bool} {g : R → R} {valid : R → Prop} [DecidablePred valid] {e : Fault}
    (harity : x.params.length = max (setsArity u.sets) u.target.arity)
    (hselect : u.target.select x scan = .ok selects) (hp : ∀ r ∈ rs, selects (f r) = p r)
    (hset : ∀ r ∈ rs, p r →
      d.set x u.sets (f r) = if valid r then .ok (f (g r)) else .error e)
    (hkey : ∀ r ∈ rs, p r → f (g r) d.key = f r d.key)
    (hnodup : (rs.map fun r => f r d.key).Nodup) :
    u.run d x scan (rs.map f) =
      if ∀ r ∈ rs, p r → valid r then
        .ok (((rs.filter p).map g).map f, (rs.map fun r => if p r then g r else r).map f)
      else .error e := by
  -- what the statement returns
  have hchanged : ((rs.map f).filter selects).mapM (d.set x u.sets) =
      if ∀ r ∈ rs.filter p, valid r then .ok ((rs.filter p).map (f ∘ g)) else .error e := by
    rw [filter_map_of hp, List.mapM_map]
    exact mapM_guarded fun r hr => hset r (List.mem_of_mem_filter hr) (List.of_mem_filter hr)
  -- what it leaves in the table
  have hrows : ((rs.map f).mapM fun r => if selects r then d.set x u.sets r else .ok r) =
      if ∀ r ∈ rs, p r → valid r then .ok (rs.map fun r => f (if p r then g r else r))
      else .error e := by
    rw [List.mapM_map]
    refine mapM_guarded fun r hr => ?_
    cases hpr : p r with
    | false => simp [Function.comp_apply, hp r hr, hpr]
    | true => simp [Function.comp_apply, hp r hr, hpr, hset r hr hpr]
  -- the keys stay as they are, so they stay apart
  have hkeys : (rs.map fun r => f (if p r then g r else r)).map (fun r => r d.key) =
      rs.map fun r => f r d.key := by
    rw [List.map_map]
    refine List.map_congr_left fun r hr => ?_
    cases hpr : p r with
    | false => simp [Function.comp_apply, hpr]
    | true => simpa [Function.comp_apply, hpr] using hkey r hr hpr
  have hunique : d.unique (rs.map fun r => f (if p r then g r else r)) = .ok () := by
    rw [TableDef.unique, hkeys, if_pos hnodup]
  have hfilter : (∀ r ∈ rs.filter p, valid r) ↔ ∀ r ∈ rs, p r → valid r := by
    simp only [List.mem_filter, and_imp]
  rw [Update.run, bind_eq harity, hselect]
  simp only [bind, Except.bind, hchanged, hfilter]
  by_cases hvalid : ∀ r ∈ rs, p r → valid r
  · simp only [if_pos hvalid, hrows, hunique]
    simp [pure, Except.pure, List.map_map, Function.comp_def]
  · simp only [if_neg hvalid]

/-- **An insert** of a record's row. -/
theorem InsertInto.run_map {d : TableDef Col V} {base : Row Col V} {i : InsertInto Col V} {r : R}
    {valid : Prop} [Decidable valid] {e : Fault} (harity : x.params.length = setsArity i.values)
    (hset : d.set x i.values base = if valid then .ok (f r) else .error e)
    (hnodup : (rs.map fun r => f r d.key).Nodup) :
    i.run d base x (rs.map f) =
      if valid then
        if f r d.key ∈ rs.map (fun r => f r d.key) then .error .unique
        else .ok ((rs ++ [r]).map f)
      else .error e := by
  have hkeys : (rs.map f ++ [f r]).map (fun r => r d.key) =
      (rs.map fun r => f r d.key) ++ [f r d.key] := by
    simp
  have hunique : d.unique (rs.map f ++ [f r]) =
      if f r d.key ∈ rs.map (fun r => f r d.key) then .error .unique else .ok () := by
    rw [TableDef.unique, hkeys]
    by_cases hmem : f r d.key ∈ rs.map (fun r => f r d.key)
    · rw [if_pos hmem, if_neg fun h => List.nodup_append.mp h |>.2.2 _ hmem _ (by simp) rfl]
    · rw [if_neg hmem, if_pos]
      exact List.nodup_append_comm.mp (List.nodup_cons.mpr ⟨hmem, hnodup⟩)
  rw [InsertInto.run, bind_eq harity, hset]
  simp only [bind, Except.bind]
  split_ifs with hvalid hmem
  · rw [if_pos hmem] at hunique
    simp only [hunique]
  · rw [if_neg hmem] at hunique
    simp only [hunique, pure, Except.pure, List.map_append, List.map_cons, List.map_nil]
  · rfl

omit [DecidableEq Col] in
/-- **A delete** of the records its clauses are about. -/
theorem DeleteFrom.run_map {q : DeleteFrom Col V}
    (harity : x.params.length = highest (q.conds.map Cond.arity))
    (hp : ∀ r ∈ rs, holds x q.conds (f r) = p r) :
    q.run x (rs.map f) = .ok ((rs.filter p).map f, (rs.filter fun r => !p r).map f) := by
  have hkept : (rs.map f).filter (fun r => !holds x q.conds r) =
      (rs.filter fun r => !p r).map f := filter_map_of fun r hr => by rw [hp r hr]
  rw [DeleteFrom.run, bind_eq harity, filter_map_of hp, hkept]
  rfl

omit [DecidableEq V] [DecidableEq Col] in
/-- The least of ordered values. -/
theorem least_map {κ : Type} [LinearOrder κ] {engine : Engine V} {c : κ → V}
    (hlt : ∀ a b, engine.lt (c a) (c b) = decide (a < b)) (l : List κ) :
    least engine (l.map (some ∘ c)) = l.min?.map c := by
  cases l with
  | nil => rfl
  | cons a l =>
    rw [List.min?_cons']
    show List.foldl _ (some (c a)) (l.map (some ∘ c)) = some (c (l.foldl min a))
    induction l generalizing a with
    | nil => rfl
    | cons b l ih =>
      rw [List.foldl_cons, ← ih, List.map_cons, List.foldl_cons]
      congr 1
      by_cases hlt' : b < a
      · simp [hlt, hlt', min_eq_right hlt'.le]
      · simp [hlt, hlt', min_eq_left (not_lt.mp hlt')]

end Records

end Sql
