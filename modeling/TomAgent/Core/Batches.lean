import Mathlib.Algebra.BigOperators.Group.List.Basic
import Mathlib.Algebra.Order.Ring.Nat
import Mathlib.Data.List.Nodup

/-!
# Serving a list in batches

A list is served in batches of bounded size, always from its front.  Some entries come back:
they keep their place in line and are served again.  So the entries that have been served at
all are a prefix of the list, and it grows by what the returning entries leave of a batch.
-/

namespace TomAgent.Batches

variable {α : Type*} (size : Nat) (back : α → Bool) (entries : List α)

def returning (r : Nat) : Nat := (entries.take r).countP back

/-- The entries in line once the first `r` have been served. -/
def line (r : Nat) : List α := (entries.take r).filter back ++ entries.drop r

/-- How many entries have been served after so many batches; it may exceed their number. -/
def reach : Nat → Nat
  | 0 => 0
  | k + 1 => reach k + (size - returning back entries (reach k))

/-- The places of the first `k` batches that go to entries served before. -/
def repeats (k : Nat) : Nat :=
  ((List.range k).map fun j => min size (returning back entries (reach size back entries j))).sum

variable {size back entries}

theorem take_line (r : Nat) :
    (line back entries r).take size =
      ((entries.take r).filter back).take size ++
        (entries.drop r).take (size - returning back entries r) := by
  rw [line, List.take_append, returning, List.countP_eq_length_filter]

theorem mem_take_line {r : Nat} {a : α} (h : a ∈ (line back entries r).take size) :
    a ∈ entries.take (r + (size - returning back entries r)) := by
  rw [take_line] at h
  rw [List.take_add]
  cases List.mem_append.mp h with
  | inl hold =>
      have hserved := (List.mem_filter.mp (List.mem_of_mem_take hold)).1
      exact List.mem_append_left _ hserved
  | inr hnew => exact List.mem_append_right _ hnew

theorem mem_take_line_of_new {r : Nat} {a : α}
    (h : a ∈ entries.take (r + (size - returning back entries r))) (hnew : a ∉ entries.take r) :
    a ∈ (line back entries r).take size := by
  rw [List.take_add] at h
  rw [take_line]
  exact List.mem_append_right _ ((List.mem_append.mp h).resolve_left hnew)

/-- Each place of a batch goes to a new entry or to one served before. -/
theorem reach_add_repeats (k : Nat) :
    reach size back entries k + repeats size back entries k = size * k := by
  induction k with
  | zero => rfl
  | succ k ih =>
      have hrepeats : repeats size back entries (k + 1) = repeats size back entries k +
          min size (returning back entries (reach size back entries k)) := by
        simp [repeats, List.range_succ]
      rw [hrepeats, reach, Nat.mul_succ]
      omega

/-- All entries have been served iff the repeated ones fit in the places to spare. -/
theorem le_reach_iff {k : Nat} (hk : entries.length ≤ size * k) :
    entries.length ≤ reach size back entries k ↔
      repeats size back entries k ≤ size * k - entries.length := by
  have htotal : reach size back entries k + repeats size back entries k = size * k :=
    reach_add_repeats k
  omega

theorem forall_mem_take_iff (hnodup : entries.Nodup) (r : Nat) :
    (∀ a ∈ entries, a ∈ entries.take r) ↔ entries.length ≤ r := by
  constructor
  · intro hall
    by_contra hlt
    have hlt : r < entries.length := by omega
    have hmem := hall _ (List.getElem_mem hlt)
    have hdrop : entries[r] ∈ entries.drop r := by
      rw [List.drop_eq_getElem_cons hlt]
      exact List.mem_cons_self
    exact List.disjoint_take_drop hnodup (Nat.le_refl r) hmem hdrop
  · intro hle a ha
    rw [List.take_of_length_le hle]
    exact ha

end TomAgent.Batches
