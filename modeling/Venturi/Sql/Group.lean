import Mathlib.Data.List.Dedup
import Venturi.Collections.Map
import Venturi.Sql.Table

namespace Sql

open Collections List

/-!
# `GROUP BY`

* `groupBy` — the groups of a grouped query, one for each key that occurs.
* `lookup_collect_groupBy` — an aggregate of the groups, collected in a map by key.
* `min?_perm` — `min` does not depend on the order of the rows.
-/

variable {R K V : Type*} [DecidableEq K] {key : R → K} {rows : List R} {k : K}

/-- `GROUP BY key`: each key that occurs, with its rows. -/
def groupBy (key : R → K) (rows : List R) : List (K × List R) :=
  (rows.map key).dedup.map (fun k => (k, rows.filter (fun r => key r = k)))

/-- The groups are under the keys that occur, each once. -/
theorem keys_groupBy : (groupBy key rows).map Prod.fst = (rows.map key).dedup := by
  rw [groupBy, List.map_map]
  exact List.map_id _

/-- **An aggregate collected by key** stores it under the keys that occur. -/
theorem lookup_collect_groupBy (key : R → K) (rows : List R) (k : K) (f : List R → V) :
    (Map.collect ((groupBy key rows).map (fun g => (g.1, f g.2)))).lookup k =
      if k ∈ rows.map key then some (f (rows.filter (fun r => key r = k))) else none := by
  have hkeys : ((groupBy key rows).map (fun g => (g.1, f g.2))).map Prod.fst =
      (rows.map key).dedup := by
    rw [List.map_map]
    exact keys_groupBy
  split
  · rename_i hk
    refine Map.lookup_collect (hkeys ▸ List.nodup_dedup _) ?_
    refine List.mem_map.mpr ⟨(k, rows.filter (fun r => key r = k)), ?_, rfl⟩
    exact List.mem_map.mpr ⟨k, List.mem_dedup.mpr hk, rfl⟩
  · rename_i hk
    refine Map.lookup_collect_eq_none ?_
    rw [hkeys, List.mem_dedup]
    exact hk

/-- **The counts of the groups** count the keys. -/
theorem counts_collect_groupBy :
    Tally.Counts (Map.collect ((groupBy key rows).map (fun g => (g.1, g.2.length))))
      (rows.map key) := by
  intro k
  have hcount : (rows.map key).count k = (rows.filter (fun r => key r = k)).length := by
    rw [List.count, List.countP_map, List.countP_eq_length_filter]
    rfl
  rw [lookup_collect_groupBy key rows k List.length, ← hcount]
  by_cases hk : k ∈ rows.map key
  · have hpos : (rows.map key).count k ≠ 0 := Nat.pos_iff_ne_zero.mp (List.count_pos_iff.mpr hk)
    rw [if_pos hk, if_neg hpos]
  · rw [if_neg hk, if_pos (List.count_eq_zero.mpr hk)]

/-- The least value does not depend on the order. -/
theorem min?_perm [LE V] [Min V] [Std.IsLinearOrder V] [Std.LawfulOrderMin V] {l l' : List V}
    (h : l ~ l') : l.min? = l'.min? := by
  cases hmin : l'.min? with
  | none =>
    rw [List.min?_eq_none_iff] at hmin ⊢
    exact (hmin ▸ h).eq_nil
  | some v =>
    obtain ⟨hmem, hleast⟩ := List.min?_eq_some_iff.mp hmin
    exact List.min?_eq_some_iff.mpr ⟨h.mem_iff.mpr hmem, fun b hb => hleast b (h.mem_iff.mp hb)⟩

end Sql
