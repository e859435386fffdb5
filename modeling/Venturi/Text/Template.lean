import Mathlib.Data.List.Basic
import Mathlib.Data.List.Infix

namespace Text

/-!
# Text templates

Substituting a token in a text, and names made by appending a fixed suffix to a
parameter.

* `substitute` — every occurrence of a token replaced, from left to right and without
  overlap.
* `SuffixFree` — no word of the list ends in another one.

A text splits into a parameter and a suffix from a suffix-free list in at most one way
(`SuffixFree.append_inj`). So two different parameters generate no common name, also when
one parameter extends the other by text that looks like a suffix.
-/

variable {α : Type*}

/-! ### Substitution -/

section Substitute

variable [BEq α] {token value : List α}

/-- Replace every occurrence of `token` by `value`; the number counts the characters of a
match that are still to be skipped. `token` is not empty. -/
def substitute (token value : List α) : Nat → List α → List α
  | _, [] => []
  | skip + 1, _ :: rest => substitute token value skip rest
  | 0, c :: rest =>
      if token.isPrefixOf (c :: rest) then
        value ++ substitute token value (token.length - 1) rest
      else c :: substitute token value 0 rest

/-- What is left of a token that was replaced is skipped. -/
theorem substitute_skip (skipped rest : List α) :
    substitute token value skipped.length (skipped ++ rest) = substitute token value 0 rest := by
  induction skipped with
  | nil => rfl
  | cons c skipped ih => exact ih

/-- An occurrence at the front is replaced, and the scan goes on behind it. -/
theorem substitute_token [LawfulBEq α] (htoken : token ≠ []) (rest : List α) :
    substitute token value 0 (token ++ rest) = value ++ substitute token value 0 rest := by
  obtain ⟨c, tail, rfl⟩ := List.exists_cons_of_ne_nil htoken
  have hfront : (c :: tail).isPrefixOf (c :: tail ++ rest) = true :=
    List.isPrefixOf_iff_prefix.mpr (List.prefix_append _ _)
  rw [List.cons_append] at hfront ⊢
  rw [substitute, if_pos hfront, List.length_cons, Nat.add_sub_cancel, substitute_skip]

/-- A text without the first character of the token is left as it is. -/
theorem substitute_clean [LawfulBEq α] {c : α} {tail text : List α} (hclean : c ∉ text) :
    substitute (c :: tail) value 0 text = text := by
  induction text with
  | nil => rfl
  | cons d text ih =>
    rw [List.mem_cons, not_or] at hclean
    have hfront : (c :: tail).isPrefixOf (d :: text) = false := by
      simp [List.isPrefixOf, hclean.1]
    rw [substitute, if_neg (by simp [hfront]), ih hclean.2]

end Substitute

/-! ### Suffixes -/

/-- No word of the list is a proper suffix of another one. -/
def SuffixFree (words : List (List α)) : Prop :=
  ∀ s ∈ words, ∀ t ∈ words, s <:+ t → s = t

instance [DecidableEq α] (words : List (List α)) : Decidable (SuffixFree words) :=
  inferInstanceAs (Decidable (∀ s ∈ words, ∀ t ∈ words, s <:+ t → s = t))

/-- Two ways to split one text leave one tail a suffix of the other. -/
theorem suffix_or_suffix {p q s t : List α} (h : p ++ s = q ++ t) : s <:+ t ∨ t <:+ s := by
  have hs : s <:+ p ++ s := List.suffix_append p s
  have ht : t <:+ p ++ s := h ▸ List.suffix_append q t
  exact List.suffix_or_suffix_of_suffix hs ht

/-- A text is a parameter followed by a word of the list in one way only. -/
theorem SuffixFree.append_inj {words : List (List α)} (hfree : SuffixFree words)
    {p q s t : List α} (hs : s ∈ words) (ht : t ∈ words) (h : p ++ s = q ++ t) :
    p = q ∧ s = t := by
  have hst : s = t := by
    rcases suffix_or_suffix h with hsuf | hsuf
    · exact hfree s hs t ht hsuf
    · exact (hfree t ht s hs hsuf).symm
  subst hst
  exact ⟨List.append_cancel_right h, rfl⟩

end Text
