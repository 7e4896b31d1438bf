import Mathlib.Algebra.Order.Ring.Nat
import Mathlib.Algebra.BigOperators.Group.List.Basic

/-!
# Counting what a list holds

The entries of a list are processes or calls, and each one has a weight or stands for some
items.  When an entry is replaced or removed, the total changes by what it stood for.
-/

namespace TomAgent.Ledger

variable {α β : Type*} {l : List α} {i : Nat} {x : α}

theorem sum_eraseIdx (h : l[i]? = some x) (weight : α → Nat) :
    ((l.eraseIdx i).map weight).sum + weight x = (l.map weight).sum := by
  obtain ⟨hi, rfl⟩ := List.getElem?_eq_some_iff.mp h
  have hsum := ((List.getElem_cons_eraseIdx_perm hi).map weight).sum_eq
  rw [List.map_cons, List.sum_cons] at hsum
  omega

theorem sum_set (h : l[i]? = some x) (weight : α → Nat) (y : α) :
    ((l.set i y).map weight).sum + weight x = (l.map weight).sum + weight y := by
  obtain ⟨hi, -⟩ := List.getElem?_eq_some_iff.mp h
  have hset := ((List.set_perm_cons_eraseIdx hi y).map weight).sum_eq
  rw [List.map_cons, List.sum_cons] at hset
  have herase := sum_eraseIdx h weight
  omega

variable [BEq β]

theorem count_eraseIdx (h : l[i]? = some x) (items : α → List β) (b : β) :
    ((l.eraseIdx i).flatMap items).count b + (items x).count b = (l.flatMap items).count b := by
  rw [List.count_flatMap, List.count_flatMap]
  exact sum_eraseIdx h (List.count b ∘ items)

theorem count_set (h : l[i]? = some x) (items : α → List β) (b : β) (y : α) :
    ((l.set i y).flatMap items).count b + (items x).count b =
      (l.flatMap items).count b + (items y).count b := by
  rw [List.count_flatMap, List.count_flatMap]
  exact sum_set h (List.count b ∘ items) y

end TomAgent.Ledger
