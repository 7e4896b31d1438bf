import Mathlib.Algebra.Order.Ring.Nat
import Mathlib.Data.List.Infix

/-!
# The first occurrence of a list in another

A search from the left, and the two parts it leaves on either side.  Where the first
occurrence is depends only on what stands before its end.
-/

namespace TomAgent.Search

variable {α : Type*}

/-- `sub` stands between `before` and `rest`, and nowhere earlier. -/
structure FirstAt (l sub before rest : List α) : Prop where
  split : l = before ++ (sub ++ rest)
  first : ∀ i < before.length, ¬ sub <+: l.drop i

theorem FirstAt.isInfix {l sub before rest : List α} (h : FirstAt l sub before rest) : sub <:+: l :=
  ⟨before, rest, by rw [h.split, List.append_assoc]⟩

/-- What follows may be replaced: an earlier occurrence would end before it. -/
theorem FirstAt.replace {l sub before rest : List α} (h : FirstAt l sub before rest)
    (other : List α) : FirstAt (before ++ (sub ++ other)) sub before other := by
  refine ⟨rfl, ?_⟩
  intro i hi hoccurs
  refine h.first i hi ?_
  rw [List.drop_append_of_le_length (Nat.le_of_lt hi), ← List.append_assoc] at hoccurs
  have hwithin : sub <+: before.drop i ++ sub := by
    refine List.prefix_of_prefix_length_le hoccurs (List.prefix_append _ _) ?_
    rw [List.length_append]
    exact Nat.le_add_left _ _
  rw [h.split, List.drop_append_of_le_length (Nat.le_of_lt hi), ← List.append_assoc]
  exact hwithin.trans (List.prefix_append _ _)

/-! ## Searching -/

variable [DecidableEq α]

def index (l sub : List α) : Option Nat :=
  (List.range (l.length + 1)).find? fun i => sub.isPrefixOf (l.drop i)

theorem FirstAt.index {l sub before rest : List α} (h : FirstAt l sub before rest) :
    index l sub = some before.length := by
  have hlength : before.length ≤ l.length := by
    rw [h.split, List.length_append]
    exact Nat.le_add_right _ _
  have hhere : sub <+: l.drop before.length := by
    rw [h.split, List.drop_left]
    exact List.prefix_append _ _
  rw [Search.index, List.find?_range_eq_some]
  refine ⟨List.isPrefixOf_iff_prefix.mpr hhere, List.mem_range.mpr (by omega), ?_⟩
  intro i hi
  have hno := h.first i hi
  rw [← List.isPrefixOf_iff_prefix, Bool.not_eq_true] at hno
  rw [hno]
  rfl

theorem firstAt_of_index {l sub : List α} {i : Nat} (h : index l sub = some i) :
    FirstAt l sub (l.take i) (l.drop (i + sub.length)) := by
  rw [index, List.find?_range_eq_some] at h
  obtain ⟨hhere, hrange, hearlier⟩ := h
  rw [List.isPrefixOf_iff_prefix] at hhere
  obtain ⟨rest, hrest⟩ := hhere
  refine ⟨?_, ?_⟩
  · have hdrop : l.drop (i + sub.length) = rest := by
      rw [← List.drop_drop, ← hrest, List.drop_left]
    rw [hdrop, hrest, List.take_append_drop]
  · intro k hk hoccurs
    rw [List.length_take] at hk
    have hno := hearlier k (by omega)
    rw [List.isPrefixOf_iff_prefix.mpr hoccurs] at hno
    cases hno

theorem index_eq_none_iff {l sub : List α} : index l sub = none ↔ ¬ sub <:+: l := by
  constructor
  · rintro hnone ⟨before, rest, rfl⟩
    rw [index, List.find?_eq_none] at hnone
    refine hnone before.length (List.mem_range.mpr ?_) ?_
    · simp only [List.length_append]
      omega
    · rw [List.isPrefixOf_iff_prefix, List.append_assoc, List.drop_left]
      exact List.prefix_append _ _
  · intro hno
    rw [index, List.find?_eq_none]
    intro i _ hoccurs
    rw [List.isPrefixOf_iff_prefix] at hoccurs
    exact hno (hoccurs.isInfix.trans (List.drop_suffix i l).isInfix)

theorem exists_firstAt {l sub : List α} (h : sub <:+: l) :
    ∃ before rest, FirstAt l sub before rest := by
  cases hindex : index l sub with
  | none => exact absurd h (index_eq_none_iff.mp hindex)
  | some i => exact ⟨_, _, firstAt_of_index hindex⟩

theorem FirstAt.unique {l sub before rest before' rest' : List α} (h : FirstAt l sub before rest)
    (h' : FirstAt l sub before' rest') : before = before' ∧ rest = rest' := by
  have hlength : before.length = before'.length := by
    have hsame := h.index.symm.trans h'.index
    simpa using hsame
  obtain ⟨hbefore, htail⟩ := List.append_inj (h.split.symm.trans h'.split) hlength
  exact ⟨hbefore, List.append_cancel_left htail⟩

end TomAgent.Search
