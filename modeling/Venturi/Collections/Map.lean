import Mathlib.Data.List.AList
import Mathlib.Data.List.Count
import Mathlib.Data.List.Perm.Basic

namespace Collections

open List

/-!
# Finite maps and tallies

* `Map` — a finite map with one value type, as an association list; `Map.values` lists the
  stored values, in the order of the map; `Map.collect` inserts a list of entries.
* `Tally` — a map of counts that keeps no zero entry, moved by `Tally.take` and
  `Tally.release`.
* `Tally.Counts` — the tally counts a list of keys; taking and releasing follow the list.
-/

/-! ### Maps -/

/-- A finite map. -/
abbrev Map (K V : Type*) := AList (fun _ : K => V)

namespace Map

variable {K V : Type*} {m : Map K V} {k : K} {v : V}

/-- The stored values. -/
def values (m : Map K V) : List V := m.entries.map Sigma.snd

@[simp] theorem values_empty : values (∅ : Map K V) = [] := rfl

/-- As many values as keys. -/
theorem length_values : m.values.length = m.keys.length := by
  simp [values, AList.keys, List.keys]

/-- Maps that store something under the same keys are of one size. -/
theorem length_keys_eq {W : Type*} {m' : Map K W} (h : ∀ k, k ∈ m ↔ k ∈ m') :
    m.keys.length = m'.keys.length :=
  ((List.perm_ext_iff_of_nodup m.keys_nodup m'.keys_nodup).mpr h).length_eq

/-- Without keys nothing is in the map. -/
theorem not_mem_of_keys_nil (h : m.keys = []) : k ∉ m := by
  rw [AList.mem_keys, h]
  exact List.not_mem_nil

variable [DecidableEq K]

/-- A value is in the map exactly if some key finds it. -/
theorem mem_values : v ∈ m.values ↔ ∃ k, m.lookup k = some v := by
  rw [values, List.mem_map]
  constructor
  · rintro ⟨⟨k, _⟩, hmem, rfl⟩
    exact ⟨k, Option.mem_def.mp (AList.mem_lookup_iff.mpr hmem)⟩
  · rintro ⟨k, hk⟩
    exact ⟨⟨k, v⟩, AList.mem_lookup_iff.mp (Option.mem_def.mpr hk), rfl⟩

/-- A key that finds a value is in the map. -/
theorem mem_of_lookup (h : m.lookup k = some v) : k ∈ m := by
  rw [← AList.lookup_isSome, h]
  rfl

/-- A new key adds its value. -/
theorem values_insert (h : k ∉ m) : values (m.insert k v) = v :: m.values := by
  rw [values, AList.entries_insert_of_notMem h]
  rfl

/-- A stored value, and the values under the other keys. -/
theorem values_perm_erase (h : m.lookup k = some v) : m.values ~ v :: values (m.erase k) := by
  -- the entry erased is the one looked up
  obtain ⟨v₀, l₁, l₂, -, hentries, herase⟩ := List.exists_of_kerase (mem_of_lookup h)
  have hv : v₀ = v := by
    have hmem : v₀ ∈ m.lookup k := by
      rw [AList.mem_lookup_iff, hentries]
      simp
    exact Option.some.inj ((Option.mem_def.mp hmem).symm.trans h)
  have hrest : (m.erase k).entries = l₁ ++ l₂ := herase
  simp only [values, hentries, hrest, ← hv, List.map_append]
  exact List.perm_middle

/-- What is stored after an insert is the new value, or was stored before. -/
theorem lookup_of_insert {k' : K} {v' : V} (h : (m.insert k v).lookup k' = some v') :
    (k' = k ∧ v' = v) ∨ (k' ≠ k ∧ m.lookup k' = some v') := by
  by_cases hk : k' = k
  · subst hk
    rw [AList.lookup_insert] at h
    exact .inl ⟨rfl, (Option.some.inj h).symm⟩
  · rw [AList.lookup_insert_ne hk] at h
    exact .inr ⟨hk, h⟩

/-- What is stored after an erase was stored before, under another key. -/
theorem lookup_of_erase {k' : K} (h : (m.erase k).lookup k' = some v) :
    k' ≠ k ∧ m.lookup k' = some v := by
  by_cases hk : k' = k
  · subst hk
    simp at h
  · rw [AList.lookup_erase_ne hk] at h
    exact ⟨hk, h⟩

/-- A key that is there leaves the keys as they are, up to their order. -/
theorem keys_perm_insert (h : k ∈ m) : (m.insert k v).keys ~ m.keys := by
  rw [AList.keys_insert]
  exact (List.perm_cons_erase h).symm

/-! Maps collected from a list of entries. -/

/-- Insert one entry after the other. -/
def collect (l : List (K × V)) : Map K V := l.foldl (fun m x => m.insert x.1 x.2) ∅

/-- Entries under other keys leave what is stored. -/
theorem lookup_foldl_insert {l : List (K × V)} (h : k ∉ l.map Prod.fst) (m : Map K V) :
    (l.foldl (fun m x => m.insert x.1 x.2) m).lookup k = m.lookup k := by
  induction l generalizing m with
  | nil => rfl
  | cons x l ih =>
    rw [List.map_cons, List.mem_cons, not_or] at h
    rw [List.foldl_cons, ih h.2, AList.lookup_insert_ne h.1]

theorem lookup_collect_eq_none {l : List (K × V)} (h : k ∉ l.map Prod.fst) :
    (collect l).lookup k = none := by
  rw [collect, lookup_foldl_insert h, AList.lookup_empty]

/-- Each entry is stored, when no two share a key. -/
theorem lookup_collect {l : List (K × V)} (h : (l.map Prod.fst).Nodup) (hmem : (k, v) ∈ l) :
    (collect l).lookup k = some v := by
  obtain ⟨l₁, l₂, rfl⟩ := List.append_of_mem hmem
  rw [List.map_append, List.map_cons, List.nodup_append] at h
  rw [collect, List.foldl_append, List.foldl_cons,
    lookup_foldl_insert (List.nodup_cons.mp h.2.1).1, AList.lookup_insert]

end Map

/-! ### Tallies -/

/-- A count for each key that has one. -/
abbrev Tally (K : Type*) := Map K Nat

namespace Tally

variable {K : Type*} [DecidableEq K] {t : Tally K} {l l' : List K} {k : K}

/-- Count one more of a key. -/
def take (t : Tally K) (k : K) : Tally K := t.insert k ((t.lookup k).getD 0 + 1)

/-- Count one less of a key, and drop the key when nothing is left. -/
def release (t : Tally K) (k : K) : Tally K :=
  match t.lookup k with
  | some count => if count - 1 = 0 then t.erase k else t.insert k (count - 1)
  | none => t

/-- The tally counts the list, and stores no zero. -/
def Counts (t : Tally K) (l : List K) : Prop :=
  ∀ k, t.lookup k = if l.count k = 0 then none else some (l.count k)

namespace Counts

theorem nil : (∅ : Tally K).Counts [] := fun _ => rfl

theorem perm (h : t.Counts l) (hl : l ~ l') : t.Counts l' := by
  intro k
  rw [h k, hl.count_eq]

/-- Two tallies of one list store the same. -/
theorem lookup_eq {t' : Tally K} (h : t.Counts l) (h' : t'.Counts l') (hl : l ~ l') (k : K) :
    t.lookup k = t'.lookup k := by
  rw [h k, h' k, hl.count_eq]

/-- It shows how often the key occurs. -/
theorem getD (h : t.Counts l) (k : K) : (t.lookup k).getD 0 = l.count k := by
  rw [h k]
  split
  · rename_i hzero
    exact hzero.symm
  · rfl

/-- A listed key has a positive count. -/
theorem lookup_of_mem (h : t.Counts l) (hk : k ∈ l) : ∃ n, t.lookup k = some (n + 1) := by
  have hpos : 0 < l.count k := List.count_pos_iff.mpr hk
  refine ⟨l.count k - 1, ?_⟩
  rw [h k, if_neg (by omega)]
  congr 1
  omega

/-- One more of a key is counted. -/
theorem take (h : t.Counts l) (k : K) : (t.take k).Counts (k :: l) := by
  intro k'
  rw [Tally.take, h.getD]
  by_cases hk : k' = k
  · subst hk
    rw [AList.lookup_insert, List.count_cons_self, if_neg (by omega)]
  · rw [AList.lookup_insert_ne hk, h k', List.count_cons_of_ne (Ne.symm hk)]

/-- Releasing a listed key removes one occurrence of it. -/
theorem release (h : t.Counts (k :: l)) : (t.release k).Counts l := by
  intro k'
  have hk : t.lookup k = some (l.count k + 1) := by
    rw [h k, List.count_cons_self, if_neg (by omega)]
  have hother : k' ≠ k → t.lookup k' = if l.count k' = 0 then none else some (l.count k') := by
    intro hne
    rw [h k', List.count_cons_of_ne (Ne.symm hne)]
  rw [Tally.release, hk]
  simp only [Nat.add_sub_cancel]
  split
  · -- the last occurrence: the key goes
    rename_i hzero
    by_cases hkk : k' = k
    · subst hkk
      rw [AList.lookup_erase, if_pos hzero]
    · rw [AList.lookup_erase_ne hkk, hother hkk]
  · -- one less is stored
    rename_i hpos
    by_cases hkk : k' = k
    · subst hkk
      rw [AList.lookup_insert, if_neg hpos]
    · rw [AList.lookup_insert_ne hkk, hother hkk]

end Counts

end Tally

end Collections
