import Mathlib.Data.List.Sort
import Mathlib.Data.List.Nodup

namespace Sql

/-!
# Relational tables

A small library of the relational operations an embedded SQL statement needs, over
arbitrary row types.

* `Table key` — rows under a primary key; the key constraint is a field, so a table
  with two rows under one key cannot be built.
* `Table.insert` / `Table.update` / `Table.delete` — `INSERT`, `UPDATE … WHERE` and
  `DELETE … WHERE`, each with its effect on the key lookup `Table.find?`.
* `Serial ident` — an append-only table under a generated identity column.
* `Table.scan` / `orderBy` — `ORDER BY` over a scan whose visiting order is a
  parameter, so ties between equal sort keys stay open.
-/

variable {R K : Type*} {key : R → K}

/-- A table under the primary key `key`. -/
@[ext] structure Table (key : R → K) where
  rows : List R
  nodup : (rows.map key).Nodup

namespace Table

/-- The table without rows. -/
def empty : Table key := ⟨[], List.nodup_nil⟩

@[simp] theorem rows_empty : (empty : Table key).rows = [] := rfl

/-! ### Lookup by primary key -/

/-- Two rows of a table under one key are one row. -/
theorem eq_of_key_eq (t : Table key) {r r' : R} (hr : r ∈ t.rows) (hr' : r' ∈ t.rows)
    (h : key r = key r') : r = r' :=
  List.inj_on_of_nodup_map t.nodup hr hr' h

section Lookup

variable [DecidableEq K]

/-- The row under a key. -/
def find? (t : Table key) (k : K) : Option R :=
  t.rows.find? (fun r => key r = k)

/-- A lookup returns exactly the stored row of that key. -/
theorem find?_eq_some {t : Table key} {k : K} {r : R} :
    t.find? k = some r ↔ r ∈ t.rows ∧ key r = k := by
  constructor
  · intro h
    exact ⟨List.mem_of_find?_eq_some h, by simpa using List.find?_some h⟩
  · rintro ⟨hmem, hkey⟩
    -- some row is found, and the key admits no other
    obtain ⟨r', hr'⟩ : ∃ r', t.find? k = some r' := by
      rw [find?, ← Option.isSome_iff_exists, List.find?_isSome]
      exact ⟨r, hmem, by simpa using hkey⟩
    have hmem' : r' ∈ t.rows := List.mem_of_find?_eq_some hr'
    have hkey' : key r' = k := by simpa using List.find?_some hr'
    rw [hr', t.eq_of_key_eq hmem' hmem (hkey'.trans hkey.symm)]

/-- A lookup fails exactly when no row is stored under the key. -/
theorem find?_eq_none {t : Table key} {k : K} :
    t.find? k = none ↔ ∀ r ∈ t.rows, key r ≠ k := by
  simp [find?, List.find?_eq_none]

/-- What is found under a key has this key. -/
theorem key_of_find? {t : Table key} {k : K} {r : R} (h : t.find? k = some r) : key r = k :=
  (find?_eq_some.mp h).2

/-- What is found is a row of the table. -/
theorem mem_of_find? {t : Table key} {k : K} {r : R} (h : t.find? k = some r) : r ∈ t.rows :=
  (find?_eq_some.mp h).1

/-- Every stored row is found under its own key. -/
theorem find?_key {t : Table key} {r : R} (h : r ∈ t.rows) : t.find? (key r) = some r :=
  find?_eq_some.mpr ⟨h, rfl⟩

/-- **Tables that answer every lookup alike**, as far as `p` selects rows and `f` reads them,
    hold the same. -/
theorem perm_filter_map {α : Type*} {p : R → Bool} {f : R → α} {t t' : Table key}
    (h : ∀ k, ((t.find? k).filter p).map f = ((t'.find? k).filter p).map f) :
    ((t.rows.filter p).map f).Perm ((t'.rows.filter p).map f) := by
  have hnodup (t : Table key) : ((t.rows.filter p).map (fun r => (key r, f r))).Nodup := by
    refine List.Nodup.of_map Prod.fst ?_
    rw [List.map_map]
    exact t.nodup.sublist (List.filter_sublist.map key)
  have hmem (t : Table key) (x : K × α) : x ∈ (t.rows.filter p).map (fun r => (key r, f r)) ↔
      ((t.find? x.1).filter p).map f = some x.2 := by
    obtain ⟨k, a⟩ := x
    simp only [List.mem_map, List.mem_filter, Prod.mk.injEq, Option.map_eq_some_iff,
      Option.filter_eq_some_iff, find?_eq_some]
    constructor
    · rintro ⟨r, ⟨hr, hp⟩, hk, hf⟩
      exact ⟨r, ⟨⟨hr, hk⟩, hp⟩, hf⟩
    · rintro ⟨r, ⟨⟨hr, hk⟩, hp⟩, hf⟩
      exact ⟨r, ⟨hr, hp⟩, hk, hf⟩
  have hpairs : ((t.rows.filter p).map (fun r => (key r, f r))).Perm
      ((t'.rows.filter p).map (fun r => (key r, f r))) := by
    refine (List.perm_ext_iff_of_nodup (hnodup t) (hnodup t')).mpr (fun x => ?_)
    rw [hmem, hmem, h]
  simpa [List.map_map, Function.comp_def] using hpairs.map Prod.snd

/-- Tables that answer every lookup alike hold the same rows. -/
theorem perm_of_find? {t t' : Table key} (h : ∀ k, t.find? k = t'.find? k) :
    t.rows.Perm t'.rows := by
  have hrows : ((t.rows.filter (fun _ => true)).map id).Perm
      ((t'.rows.filter (fun _ => true)).map id) := perm_filter_map (fun k => by rw [h k])
  simpa using hrows

/-! ### `INSERT` -/

/-- `INSERT`: fails on a key that is already stored. -/
def insert (t : Table key) (r : R) : Option (Table key) :=
  if h : key r ∈ t.rows.map key then none
  else some ⟨t.rows ++ [r], by
    rw [List.map_append, List.nodup_append_comm]
    simpa using ⟨by simpa using h, t.nodup⟩⟩

/-- An insert appends the row. -/
theorem rows_insert {t t' : Table key} {r : R} (h : t.insert r = some t') :
    t'.rows = t.rows ++ [r] := by
  unfold insert at h
  split at h
  · simp at h
  · rw [← Option.some.inj h]

/-- A successful insert finds its key unused. -/
theorem find?_of_insert {t t' : Table key} {r : R} (h : t.insert r = some t') :
    t.find? (key r) = none := by
  unfold insert at h
  split at h
  · simp at h
  · rename_i hnew
    rw [find?_eq_none]
    intro r' hr' heq
    exact hnew (List.mem_map.mpr ⟨r', hr', heq⟩)

/-- An insert fails exactly when its key is stored. -/
theorem insert_eq_none {t : Table key} {r : R} :
    t.insert r = none ↔ t.find? (key r) ≠ none := by
  unfold insert
  split
  · rename_i h
    obtain ⟨r', hr', heq⟩ := List.mem_map.mp h
    simp only [true_iff, ne_eq, find?_eq_none, not_forall]
    exact ⟨r', hr', by simpa using heq⟩
  · rename_i h
    simp only [reduceCtorEq, false_iff, ne_eq, not_not, find?_eq_none]
    intro r' hr' heq
    exact h (List.mem_map.mpr ⟨r', hr', heq⟩)

/-- After an insert the row is found under its key, and everything else as before. -/
theorem find?_insert {t t' : Table key} {r : R} (h : t.insert r = some t') (k : K) :
    t'.find? k = if key r = k then some r else t.find? k := by
  have hold := find?_of_insert h
  simp only [find?, rows_insert h, List.find?_append] at hold ⊢
  by_cases hk : key r = k
  · subst hk
    simp [hold]
  · simp [hk]

/-- Insert-or-overwrite, as a hash map keyed by `key` does it. -/
def put (t : Table key) (r : R) : Table key where
  rows := t.rows.filter (fun r' => key r' ≠ key r) ++ [r]
  nodup := by
    -- the overwritten row is gone, so the key of `r` is stored once
    rw [List.map_append, List.nodup_append_comm]
    simp only [List.map_cons, List.map_nil, List.cons_append, List.nil_append, List.nodup_cons]
    refine ⟨?_, t.nodup.sublist (List.filter_sublist.map key)⟩
    intro h
    obtain ⟨r', hr', heq⟩ := List.mem_map.mp h
    simp [heq] at hr'

/-- After a put the row is found under its key, and everything else as before. -/
theorem find?_put (t : Table key) (r : R) (k : K) :
    (t.put r).find? k = if key r = k then some r else t.find? k := by
  by_cases hk : key r = k
  · rw [if_pos hk, find?_eq_some]
    exact ⟨by simp [put], hk⟩
  · rw [if_neg hk]
    simp only [find?, put, List.find?_append, List.find?_filter]
    simp only [hk, List.find?_singleton, decide_false, Bool.false_eq_true, if_false, Option.or_none]
    congr 1
    funext r'
    by_cases h' : key r' = k
    · simp [h', Ne.symm hk]
    · simp [h']

end Lookup

/-! ### `UPDATE … WHERE` -/

/-- `UPDATE … SET f WHERE p`, for a `SET` that leaves the primary key alone. -/
def update (t : Table key) (p : R → Bool) (f : R → R)
    (hf : ∀ r, key (f r) = key r) : Table key where
  rows := t.rows.map (fun r => if p r then f r else r)
  nodup := by
    -- the keys are the same list
    have h : (t.rows.map (fun r => if p r then f r else r)).map key = t.rows.map key := by
      rw [List.map_map]
      refine List.map_congr_left (fun r _ => ?_)
      by_cases hp : p r <;> simp [hp, hf]
    rw [h]
    exact t.nodup

/-- The row count an `UPDATE` or `DELETE` under `p` reports. -/
def affected (t : Table key) (p : R → Bool) : Nat := t.rows.countP p

section Update

variable [DecidableEq K] {p : R → Bool} {f : R → R} {hf : ∀ r, key (f r) = key r}

/-- Under a key an update leaves what it selects there, changed. -/
theorem find?_update (t : Table key) (k : K) :
    (t.update p f hf).find? k = (t.find? k).map (fun r => if p r then f r else r) := by
  simp only [find?, update, List.find?_map]
  congr 2
  funext r
  by_cases hp : p r <;> simp [hp, hf]

/-- An update confined to key `k` leaves every other key alone. -/
theorem find?_update_of_ne {t : Table key} {k k' : K} (hp : ∀ r, p r → key r = k) (hk : k' ≠ k) :
    (t.update p f hf).find? k' = t.find? k' := by
  rw [find?_update]
  cases h : t.find? k' with
  | none => rfl
  | some r =>
    have hr : ¬ p r := fun hpr => hk ((key_of_find? h).symm.trans (hp r hpr))
    simp [hr]

/-- A row that an update selects is found changed. -/
theorem find?_update_self {t : Table key} {k : K} {r : R} (h : t.find? k = some r) (hp : p r) :
    (t.update p f hf).find? k = some (f r) := by
  rw [find?_update, h]
  simp [hp]

/-- An update under a predicate confined to key `k` affects a row exactly when the row
    under `k` satisfies it. -/
theorem affected_pos_iff {t : Table key} {k : K} (hp : ∀ r, p r → key r = k) :
    0 < t.affected p ↔ ∃ r, t.find? k = some r ∧ p r := by
  rw [affected, List.countP_pos_iff]
  constructor
  · rintro ⟨r, hr, hpr⟩
    exact ⟨r, find?_eq_some.mpr ⟨hr, hp r hpr⟩, hpr⟩
  · rintro ⟨r, hr, hpr⟩
    exact ⟨r, mem_of_find? hr, hpr⟩

end Update

/-- The rows after an update are the rows before it, those it selects changed. -/
theorem mem_update {t : Table key} {p : R → Bool} {f : R → R} {hf : ∀ r, key (f r) = key r}
    {r' : R} : r' ∈ (t.update p f hf).rows ↔ ∃ r ∈ t.rows, (if p r then f r else r) = r' := by
  simp [update]

/-- An update that affects no row is no update. -/
theorem update_of_affected_eq_zero {t : Table key} {p : R → Bool} {f : R → R}
    {hf : ∀ r, key (f r) = key r} (h : t.affected p = 0) : t.update p f hf = t := by
  apply Table.ext
  rw [affected, List.countP_eq_zero] at h
  refine (List.map_congr_left (fun r hr => ?_)).trans (List.map_id t.rows)
  simp [h r hr]

/-! ### `DELETE … WHERE` -/

/-- `DELETE … WHERE p`. -/
def delete (t : Table key) (p : R → Bool) : Table key where
  rows := t.rows.filter (fun r => !p r)
  nodup := t.nodup.sublist (List.filter_sublist.map key)

theorem mem_delete {t : Table key} {p : R → Bool} {r : R} :
    r ∈ (t.delete p).rows ↔ r ∈ t.rows ∧ ¬ p r := by
  simp [delete]

/-- Under a key a delete leaves what it does not select there. -/
theorem find?_delete [DecidableEq K] (t : Table key) (p : R → Bool) (k : K) :
    (t.delete p).find? k = (t.find? k).filter (fun r => !p r) := by
  cases h : t.find? k with
  | none =>
    rw [find?_eq_none] at h
    rw [Option.filter_none, find?_eq_none]
    exact fun r hr => h r (mem_delete.mp hr).1
  | some r =>
    obtain ⟨hmem, hkey⟩ := find?_eq_some.mp h
    by_cases hp : p r
    · rw [Option.filter_some_neg (by simp [hp]), find?_eq_none]
      intro r' hr' hkey'
      obtain ⟨hmem', hp'⟩ := mem_delete.mp hr'
      rw [t.eq_of_key_eq hmem' hmem (hkey'.trans hkey.symm)] at hp'
      exact hp' hp
    · rw [Option.filter_some_pos (by simp [hp]), find?_eq_some]
      exact ⟨mem_delete.mpr ⟨hmem, hp⟩, hkey⟩

end Table

/-! ### Scans and `ORDER BY` -/

/-- `ORDER BY f`: a stable sort, so rows with equal sort keys keep their scan order. -/
def orderBy {κ : Type*} [LinearOrder κ] (f : R → κ) (rows : List R) : List R :=
  rows.insertionSort (fun a b => f a ≤ f b)

section OrderBy

variable {κ : Type*} [LinearOrder κ] {f : R → κ} {rows : List R}

/-- Ordering the rows keeps them all. -/
theorem perm_orderBy : (orderBy f rows).Perm rows := List.perm_insertionSort _ _

@[simp] theorem mem_orderBy {r : R} : r ∈ orderBy f rows ↔ r ∈ rows := perm_orderBy.mem_iff

/-- The ordered rows go up in the value they are ordered by. -/
theorem pairwise_orderBy : (orderBy f rows).Pairwise (fun a b => f a ≤ f b) :=
  haveI : Std.Total (fun a b : R => f a ≤ f b) := ⟨fun a b => le_total (f a) (f b)⟩
  haveI : IsTrans R (fun a b => f a ≤ f b) := ⟨fun _ _ _ => le_trans⟩
  List.pairwise_insertionSort _ _

/-- Rows already in order stay as they are. -/
theorem orderBy_eq_self (h : rows.Pairwise (fun a b => f a ≤ f b)) : orderBy f rows = rows :=
  h.insertionSort_eq

/-- `ORDER BY f LIMIT 1` returns a row with the least sort key. -/
theorem orderBy_head?_eq_some {r : R} (h : (orderBy f rows).head? = some r) :
    r ∈ rows ∧ ∀ r' ∈ rows, f r ≤ f r' := by
  have hcons := List.head?_eq_some_iff.mp h
  obtain ⟨rest, hrest⟩ := hcons
  -- the head of a sorted list is below the rest
  have hsorted : (orderBy f rows).Pairwise (fun a b => f a ≤ f b) := pairwise_orderBy
  refine ⟨mem_orderBy.mp (hrest ▸ List.mem_cons_self), fun r' hr' => ?_⟩
  rw [← mem_orderBy (f := f), hrest] at hr'
  rw [hrest] at hsorted
  rcases List.mem_cons.mp hr' with rfl | hr'
  · exact le_refl _
  · exact (List.pairwise_cons.mp hsorted).1 r' hr'

/-- With distinct sort keys the order does not depend on the scan. -/
theorem orderBy_perm {rows' : List R} (h : rows.Perm rows') (hnodup : (rows.map f).Nodup) :
    orderBy f rows = orderBy f rows' := by
  have hdistinct : ∀ a ∈ orderBy f rows, ∀ b ∈ orderBy f rows', f a ≤ f b → f b ≤ f a → a = b := by
    intro a ha b hb hab hba
    have hb' : b ∈ rows := h.mem_iff.mpr (mem_orderBy.mp hb)
    exact List.inj_on_of_nodup_map hnodup (mem_orderBy.mp ha) hb' (le_antisymm hab hba)
  have hperm : (orderBy f rows).Perm (orderBy f rows') :=
    perm_orderBy.trans (h.trans perm_orderBy.symm)
  exact hperm.eq_of_pairwise (fun a b ha hb => hdistinct a ha b hb) pairwise_orderBy
    pairwise_orderBy

/-- `ORDER BY f LIMIT n` returns rows below those it leaves out. -/
theorem orderBy_take_le {n : Nat} {r r' : R} (hr : r ∈ (orderBy f rows).take n) (hr' : r' ∈ rows)
    (hleft : r' ∉ (orderBy f rows).take n) : f r ≤ f r' := by
  have hsorted : (orderBy f rows).Pairwise (fun a b => f a ≤ f b) := pairwise_orderBy
  rw [← List.take_append_drop n (orderBy f rows)] at hsorted
  have hmem : r' ∈ (orderBy f rows).take n ++ (orderBy f rows).drop n := by
    rw [List.take_append_drop]
    exact mem_orderBy.mpr hr'
  have hdrop : r' ∈ (orderBy f rows).drop n := (List.mem_append.mp hmem).resolve_left hleft
  exact (List.pairwise_append.mp hsorted).2.2 r hr r' hdrop

/-- Ordered rows have no first one exactly if there are none. -/
theorem orderBy_head?_eq_none : (orderBy f rows).head? = none ↔ rows = [] := by
  rw [List.head?_eq_none_iff]
  exact ⟨fun h => (h ▸ perm_orderBy).symm.eq_nil, fun h => by subst h; rfl⟩

end OrderBy

/-- The rows in the order an unordered scan visits them.  `rank` stands for whatever
    decides that order (a plan, a hash seed): every permutation of the rows is the scan
    of some `rank`. -/
def Table.scan (t : Table key) (rank : K → Nat) : List R := orderBy (fun r => rank (key r)) t.rows

/-- A scan visits every row once. -/
theorem Table.perm_scan {t : Table key} {rank : K → Nat} : (t.scan rank).Perm t.rows :=
  perm_orderBy

@[simp] theorem Table.mem_scan {t : Table key} {rank : K → Nat} {r : R} :
    r ∈ t.scan rank ↔ r ∈ t.rows := mem_orderBy

/-! ### Identity columns -/

/-- An append-only table under a generated identity column: identities increase in
    insertion order and stay below the generator's next value. -/
@[ext] structure Serial (ident : R → Nat) where
  rows : List R
  next : Nat
  increasing : rows.Pairwise (fun a b => ident a < ident b)
  below : ∀ r ∈ rows, ident r < next

namespace Serial

variable {ident : R → Nat}

/-- The table without rows; identities start at 1. -/
def empty : Serial ident := ⟨[], 1, List.Pairwise.nil, by simp⟩

@[simp] theorem rows_empty : (empty : Serial ident).rows = [] := rfl

/-- `INSERT` of a row under the next identity. -/
def append (t : Serial ident) (mk : Nat → R) (hmk : ∀ n, ident (mk n) = n) : Serial ident where
  rows := t.rows ++ [mk t.next]
  next := t.next + 1
  increasing := by
    rw [List.pairwise_append]
    refine ⟨t.increasing, List.pairwise_singleton _ _, fun a ha b hb => ?_⟩
    rw [List.mem_singleton.mp hb, hmk]
    exact t.below a ha
  below := by
    intro r hr
    rcases List.mem_append.mp hr with hr | hr
    · exact Nat.lt_succ_of_lt (t.below r hr)
    · rw [List.mem_singleton.mp hr, hmk]
      exact Nat.lt_succ_self _

/-- `DELETE … WHERE p`; the generator does not move. -/
def delete (t : Serial ident) (p : R → Bool) : Serial ident where
  rows := t.rows.filter (fun r => !p r)
  next := t.next
  increasing := t.increasing.filter _
  below := fun r hr => t.below r (List.mem_of_mem_filter hr)

/-- `SELECT … WHERE p ORDER BY` identity. -/
def select (t : Serial ident) (p : R → Bool) : List R := orderBy ident (t.rows.filter p)

/-- A selection reads the rows of the table in their order. -/
theorem select_eq (t : Serial ident) (p : R → Bool) : t.select p = t.rows.filter p :=
  orderBy_eq_self ((t.increasing.filter p).imp (fun h => le_of_lt h))

variable {p : R → Bool} {mk : Nat → R} {hmk : ∀ n, ident (mk n) = n}

/-- An appended row that matches comes last. -/
theorem select_append_pos {t : Serial ident} (h : p (mk t.next)) :
    (t.append mk hmk).select p = t.select p ++ [mk t.next] := by
  simp [select_eq, append, h]

/-- A selection that the appended row does not satisfy reads the same rows. -/
theorem select_append_neg {t : Serial ident} (h : ¬ p (mk t.next)) :
    (t.append mk hmk).select p = t.select p := by
  simp [select_eq, append, h]

theorem mem_append {t : Serial ident} {r : R} :
    r ∈ (t.append mk hmk).rows ↔ r ∈ t.rows ∨ r = mk t.next := by
  simp [append]

theorem mem_delete {t : Serial ident} {q : R → Bool} {r : R} :
    r ∈ (t.delete q).rows ↔ r ∈ t.rows ∧ ¬ q r := by
  simp [delete]

/-- Deleting rows outside the selection leaves it alone. -/
theorem select_delete_disjoint {t : Serial ident} {q : R → Bool} (h : ∀ r ∈ t.rows, p r → ¬ q r) :
    (t.delete q).select p = t.select p := by
  rw [select_eq, select_eq, delete, List.filter_filter]
  refine List.filter_congr (fun r hr => ?_)
  by_cases hp : p r
  · simp [hp, h r hr hp]
  · simp [hp]

end Serial

end Sql
