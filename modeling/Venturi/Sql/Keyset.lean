import Venturi.Sql.Table

namespace Sql

/-!
# Keyset pagination

Reading a table in pages of descending position, each page below the last row of the one
before, while the table changes between the reads.

* `page` — one page below a cursor.
* `Walk` — the reads of a walk: the table each request found and the page it returned, up to
  the first empty page.
* `Walk.pairwise` — what a walk returns descends, so nothing comes twice.
* `Walk.complete` — a position that every table holds is returned.
* `Walk.constant` / `Walk.exists_constant` — over a table that stays as it is, a walk comes to
  an end and returns the sorted table.
-/

variable {R K : Type*} [LinearOrder K] (pos : R → K)

/-- `ORDER BY pos DESC`. -/
def descending (rows : List R) : List R := orderBy (fun r => OrderDual.toDual (pos r)) rows

/-- `WHERE pos < cursor ORDER BY pos DESC LIMIT limit`. -/
def page (limit : Nat) (cursor : Option K) (rows : List R) : List R :=
  (descending pos (rows.filter (fun r => cursor.all (pos r < ·)))).take limit

/-- The reads of a walk from a cursor on: each request continues below the last row of the page
    before, and the first empty page ends it. -/
inductive Walk (limit : Nat) : Option K → List (List R × List R) → Prop
  | stop {cursor : Option K} {rows : List R} (h : page pos limit cursor rows = []) :
      Walk limit cursor [(rows, [])]
  | next {cursor : Option K} {rows p : List R} {last : R} {reads : List (List R × List R)}
      (hpage : page pos limit cursor rows = p) (hlast : p.getLast? = some last)
      (h : Walk limit (some (pos last)) reads) : Walk limit cursor ((rows, p) :: reads)

/-- The rows of all pages. -/
def returned (reads : List (List R × List R)) : List R := reads.flatMap Prod.snd

variable {pos} {limit : Nat} {cursor : Option K} {rows : List R} {r last : R}

/-! ### One page -/

/-- The order of the rows leaves them as they are. -/
theorem mem_descending : r ∈ descending pos rows ↔ r ∈ rows := mem_orderBy

/-- Rows at different positions descend strictly. -/
theorem pairwise_descending (h : (rows.map pos).Nodup) :
    (descending pos rows).Pairwise (fun a b => pos b < pos a) := by
  have hle : (descending pos rows).Pairwise
      (fun a b => OrderDual.toDual (pos a) ≤ OrderDual.toDual (pos b)) := pairwise_orderBy
  have hne : (descending pos rows).Pairwise (fun a b => pos a ≠ pos b) :=
    List.pairwise_map.mp ((perm_orderBy.map pos).nodup_iff.mpr h)
  exact hle.imp₂ (fun _ _ hle hne => lt_of_le_of_ne hle hne.symm) hne

/-- The rows of a page are rows of the table past the cursor. -/
theorem mem_page (hr : r ∈ page pos limit cursor rows) : r ∈ rows ∧ cursor.all (pos r < ·) := by
  have hmem := mem_descending.mp (List.mem_of_mem_take hr)
  exact List.mem_filter.mp hmem

/-- The rows a page is taken from, in its order. -/
theorem pairwise_below (h : (rows.map pos).Nodup) :
    (descending pos (rows.filter (fun r => cursor.all (pos r < ·)))).Pairwise
      (fun a b => pos b < pos a) :=
  pairwise_descending (h.sublist (List.filter_sublist.map pos))

/-- A page descends strictly. -/
theorem pairwise_page (h : (rows.map pos).Nodup) :
    (page pos limit cursor rows).Pairwise (fun a b => pos b < pos a) :=
  (pairwise_below h).sublist (List.take_sublist _ _)

/-- The last row of a page is its lowest. -/
theorem last_le (h : (rows.map pos).Nodup) (hr : r ∈ page pos limit cursor rows)
    (hlast : (page pos limit cursor rows).getLast? = some last) : pos last ≤ pos r := by
  obtain ⟨init, hinit⟩ := List.getLast?_eq_some_iff.mp hlast
  have hsorted : (page pos limit cursor rows).Pairwise (fun a b => pos b < pos a) :=
    pairwise_page h
  rw [hinit] at hr hsorted
  rcases List.mem_append.mp hr with hr | hr
  · exact le_of_lt ((List.pairwise_append.mp hsorted).2.2 r hr last (List.mem_singleton_self _))
  · rw [List.mem_singleton.mp hr]

/-- **A row below the cursor** is on the page, or below its last row. -/
theorem mem_page_or_below (h : (rows.map pos).Nodup) (hlimit : 0 < limit) (hr : r ∈ rows)
    (hbelow : cursor.all (pos r < ·)) :
    r ∈ page pos limit cursor rows ∨
      ∃ last, (page pos limit cursor rows).getLast? = some last ∧ pos r < pos last := by
  have hmem : r ∈ descending pos (rows.filter (fun r => cursor.all (pos r < ·))) :=
    mem_descending.mpr (List.mem_filter.mpr ⟨hr, hbelow⟩)
  have hsorted : (descending pos (rows.filter (fun r => cursor.all (pos r < ·)))).Pairwise
      (fun a b => pos b < pos a) := pairwise_below h
  rw [← List.take_append_drop limit (descending pos _)] at hmem hsorted
  rcases List.mem_append.mp hmem with hmem | hmem
  · exact .inl hmem
  · -- the page is full, and the row comes after it
    have hne : page pos limit cursor rows ≠ [] := by
      intro hempty
      rcases List.take_eq_nil_iff.mp hempty with hzero | hnil
      · omega
      · rw [hnil, List.drop_nil] at hmem
        exact List.not_mem_nil hmem
    refine .inr ⟨_, List.getLast?_eq_some_getLast hne, ?_⟩
    exact (List.pairwise_append.mp hsorted).2.2 _ (List.getLast_mem hne) r hmem

/-! ### A walk -/

namespace Walk

variable {reads : List (List R × List R)}

/-- Every page is one of the table its request found. -/
theorem mem_read (h : Walk pos limit cursor reads) {x : List R × List R} (hx : x ∈ reads)
    (hr : r ∈ x.2) : r ∈ x.1 := by
  induction h with
  | stop =>
    obtain rfl := List.mem_singleton.mp hx
    exact absurd hr List.not_mem_nil
  | next hpage _ _ ih =>
    rcases List.mem_cons.mp hx with rfl | hx
    · exact (mem_page (hpage.symm ▸ hr)).1
    · exact ih hx

/-- What a walk returns is below its cursor. -/
theorem lt_cursor (h : Walk pos limit cursor reads) (hnodup : ∀ x ∈ reads, (x.1.map pos).Nodup)
    (hr : r ∈ returned reads) : cursor.all (pos r < ·) := by
  induction h with
  | stop => simp [returned] at hr
  | @next cursor rows p last reads hpage hlast _ ih =>
    rw [returned, List.flatMap_cons] at hr
    rcases List.mem_append.mp hr with hr | hr
    · exact (mem_page (hpage.symm ▸ hr)).2
    · -- below the last row of the page, which is below the cursor
      have hlower : pos r < pos last := by
        simpa using ih (fun x hx => hnodup x (List.mem_cons_of_mem _ hx)) hr
      have hmem : last ∈ page pos limit cursor rows := hpage.symm ▸ List.mem_of_getLast? hlast
      have hcursor := (mem_page hmem).2
      cases cursor with
      | none => rfl
      | some k => exact decide_eq_true (hlower.trans (of_decide_eq_true hcursor))

/-- **What a walk returns descends.** -/
theorem pairwise (h : Walk pos limit cursor reads) (hnodup : ∀ x ∈ reads, (x.1.map pos).Nodup) :
    (returned reads).Pairwise (fun a b => pos b < pos a) := by
  induction h with
  | stop => simp [returned]
  | @next cursor rows p last reads hpage hlast hrest ih =>
    have hnodup' : ∀ x ∈ reads, (x.1.map pos).Nodup :=
      fun x hx => hnodup x (List.mem_cons_of_mem _ hx)
    have hrows : (rows.map pos).Nodup := hnodup _ List.mem_cons_self
    subst hpage
    rw [returned, List.flatMap_cons]
    refine List.pairwise_append.mpr ⟨pairwise_page hrows, ih hnodup', fun a ha b hb => ?_⟩
    have hlower : pos b < pos last := by
      simpa using hrest.lt_cursor hnodup' hb
    exact hlower.trans_le (last_le hrows ha hlast)

/-- **A position that every table holds is returned**, when it is below the cursor. -/
theorem complete (h : Walk pos limit cursor reads) (hnodup : ∀ x ∈ reads, (x.1.map pos).Nodup)
    (hlimit : 0 < limit) {k : K} (hbelow : cursor.all (k < ·))
    (hpresent : ∀ x ∈ reads, ∃ r ∈ x.1, pos r = k) : ∃ r ∈ returned reads, pos r = k := by
  induction h with
  | @stop cursor rows hempty =>
    obtain ⟨r, hr, rfl⟩ := hpresent _ List.mem_cons_self
    have hrows : (rows.map pos).Nodup := hnodup _ List.mem_cons_self
    rcases mem_page_or_below hrows hlimit hr hbelow with hpage | ⟨last, hlast, -⟩
    · rw [hempty] at hpage
      exact absurd hpage List.not_mem_nil
    · rw [hempty] at hlast
      cases hlast
  | @next cursor rows p last reads hpage hlast _ ih =>
    subst hpage
    obtain ⟨r, hr, rfl⟩ := hpresent _ List.mem_cons_self
    have hrows : (rows.map pos).Nodup := hnodup _ List.mem_cons_self
    rw [returned, List.flatMap_cons]
    rcases mem_page_or_below hrows hlimit hr hbelow with hmem | ⟨last', hlast', hlower⟩
    · exact ⟨r, List.mem_append_left _ hmem, rfl⟩
    · -- not on this page, so below the cursor of the next request
      obtain rfl := Option.some.inj (hlast.symm.trans hlast')
      obtain ⟨r', hr', hpos⟩ := ih (fun x hx => hnodup x (List.mem_cons_of_mem _ hx))
        (decide_eq_true hlower) (fun x hx => hpresent x (List.mem_cons_of_mem _ hx))
      exact ⟨r', List.mem_append_right _ hr', hpos⟩

/-- **Over a table that stays as it is, a walk returns the sorted table.** -/
theorem constant (h : Walk pos limit none reads) (hrows : (rows.map pos).Nodup)
    (hlimit : 0 < limit) (hsame : ∀ x ∈ reads, x.1 = rows) :
    returned reads = descending pos rows := by
  have hnodup : ∀ x ∈ reads, (x.1.map pos).Nodup := fun x hx => (hsame x hx).symm ▸ hrows
  have hsorted := h.pairwise hnodup
  have hmem (r : R) : r ∈ returned reads ↔ r ∈ descending pos rows := by
    rw [mem_descending]
    constructor
    · intro hr
      obtain ⟨x, hx, hrx⟩ := List.mem_flatMap.mp hr
      exact hsame x hx ▸ h.mem_read hx hrx
    · intro hr
      obtain ⟨r', hr', hpos⟩ := h.complete hnodup hlimit (k := pos r) rfl
        (fun x hx => ⟨r, (hsame x hx).symm ▸ hr, rfl⟩)
      -- no two rows share a position
      obtain ⟨x, hx, hrx⟩ := List.mem_flatMap.mp hr'
      have hr'' : r' ∈ rows := hsame x hx ▸ h.mem_read hx hrx
      exact List.inj_on_of_nodup_map hrows hr'' hr hpos ▸ hr'
  have hnodup_of {l : List R} (hl : l.Pairwise (fun a b => pos b < pos a)) : l.Nodup :=
    hl.imp (fun hlt heq => absurd (heq ▸ hlt) (lt_irrefl _))
  have hdescending : (descending pos rows).Nodup := hnodup_of (pairwise_descending hrows)
  have hperm : (returned reads).Perm (descending pos rows) :=
    (List.perm_ext_iff_of_nodup (hnodup_of hsorted) hdescending).mpr hmem
  exact hperm.eq_of_pairwise (fun a b _ _ hab hba => absurd (hab.trans hba) (lt_irrefl _)) hsorted
    (pairwise_descending hrows)

/-- **Over a table that stays as it is, a walk comes to an end**: with each page fewer rows are
    left below the cursor. -/
theorem exists_constant (pos : R → K) (limit : Nat) (cursor : Option K) (rows : List R) :
    ∃ reads, Walk pos limit cursor reads ∧ ∀ x ∈ reads, x.1 = rows := by
  induction hleft : (rows.filter (fun r => cursor.all (pos r < ·))).length
    using Nat.strong_induction_on generalizing cursor with
  | _ n ih =>
    cases hlast : (page pos limit cursor rows).getLast? with
    | none =>
      have hempty : page pos limit cursor rows = [] := List.getLast?_eq_none_iff.mp hlast
      exact ⟨_, .stop hempty, List.forall_mem_singleton.mpr rfl⟩
    | some last =>
      obtain ⟨hmem, hbelow⟩ := mem_page (List.mem_of_getLast? hlast)
      -- the rows below the last row are rows below the cursor, and the last row is not
      have hfilter : rows.filter (fun r => (some (pos last)).all (pos r < ·)) =
          (rows.filter (fun r => cursor.all (pos r < ·))).filter
            (fun r => decide (pos r < pos last)) := by
        rw [List.filter_filter]
        refine List.filter_congr (fun r _ => ?_)
        cases cursor with
        | none => simp
        | some k =>
          have hk : pos last < k := of_decide_eq_true hbelow
          by_cases hr : pos r < pos last
          · simp [hr, hr.trans hk]
          · simp [hr]
      have hless : (rows.filter (fun r => (some (pos last)).all (pos r < ·))).length < n := by
        rw [hfilter, ← hleft, List.length_filter_lt_length_iff_exists]
        exact ⟨last, List.mem_filter.mpr ⟨hmem, hbelow⟩, by simp⟩
      obtain ⟨reads, hwalk, hsame⟩ := ih _ hless (some (pos last)) rfl
      exact ⟨_, .next rfl hlast hwalk, List.forall_mem_cons.mpr ⟨rfl, hsame⟩⟩

end Walk

end Sql
