import Mathlib.Data.List.AList

/-!
# Tables

Finite maps, and whether some entry has a property.  Replacing or removing an entry
matters to such a property only through that entry.
-/

namespace TomAgent.Table

section Found

variable {α : Type*} {P : α → Prop}

theorem exists_some_iff {a : α} : (∃ b, some a = some b ∧ P b) ↔ P a := by simp

theorem not_exists_none : ¬ ∃ b, (none : Option α) = some b ∧ P b := by simp

def decidableFound (found : Option α) (P : α → Prop) [DecidablePred P] :
    Decidable (∃ a, found = some a ∧ P a) :=
  match found with
  | none => isFalse not_exists_none
  | some a => decidable_of_iff (P a) exists_some_iff.symm

end Found

variable {κ β : Type*} [DecidableEq κ] {table : AList (fun _ : κ => β)} {k : κ} {b : β}
  {P : β → Prop}

theorem lookup_insert_cases {j : κ} {a : β} (h : (table.insert k b).lookup j = some a) :
    j = k ∧ b = a ∨ j ≠ k ∧ table.lookup j = some a := by
  by_cases hj : j = k
  · subst hj
    rw [AList.lookup_insert] at h
    exact Or.inl ⟨rfl, Option.some.inj h⟩
  · rw [AList.lookup_insert_ne hj] at h
    exact Or.inr ⟨hj, h⟩

theorem lookup_erase_cases {j : κ} {a : β} (h : (table.erase k).lookup j = some a) :
    j ≠ k ∧ table.lookup j = some a := by
  by_cases hj : j = k
  · subst hj
    rw [AList.lookup_erase] at h
    cases h
  · rw [AList.lookup_erase_ne hj] at h
    exact ⟨hj, h⟩

def Holds (table : AList (fun _ : κ => β)) (P : β → Prop) : Prop :=
  ∃ k b, table.lookup k = some b ∧ P b

theorem holds_iff_entries : Holds table P ↔ ∃ e ∈ table.entries, P e.2 := by
  constructor
  · rintro ⟨k, b, hb, hP⟩
    exact ⟨⟨k, b⟩, AList.mem_lookup_iff.mp hb, hP⟩
  · rintro ⟨⟨k, b⟩, hmem, hP⟩
    exact ⟨k, b, AList.mem_lookup_iff.mpr hmem, hP⟩

instance [DecidablePred P] : Decidable (Holds table P) :=
  decidable_of_iff' _ holds_iff_entries

theorem holds_of_lookup (h : table.lookup k = some b) (hb : P b) : Holds table P := ⟨k, b, h, hb⟩

theorem not_holds_empty : ¬ Holds (∅ : AList (fun _ : κ => β)) P := by
  rintro ⟨k, b, hb, -⟩
  cases hb

theorem holds_insert (hb : P b) : Holds (table.insert k b) P := ⟨k, b, AList.lookup_insert _, hb⟩

/-- Only the entry that is replaced can be missed. -/
theorem Holds.insert (h : Holds table P) (k : κ) (b : β) :
    Holds (table.insert k b) P ∨ ∃ old, table.lookup k = some old ∧ P old := by
  obtain ⟨j, a, ha, hP⟩ := h
  by_cases hj : j = k
  · subst hj
    exact Or.inr ⟨a, ha, hP⟩
  · exact Or.inl ⟨j, a, (AList.lookup_insert_ne hj).trans ha, hP⟩

theorem Holds.erase (h : Holds table P) (k : κ) :
    Holds (table.erase k) P ∨ ∃ old, table.lookup k = some old ∧ P old := by
  obtain ⟨j, a, ha, hP⟩ := h
  by_cases hj : j = k
  · subst hj
    exact Or.inr ⟨a, ha, hP⟩
  · exact Or.inl ⟨j, a, (AList.lookup_erase_ne hj).trans ha, hP⟩

/-- What holds of an entry after a replacement holds of the new one or held before. -/
theorem Holds.of_insert (h : Holds (table.insert k b) P) : P b ∨ Holds table P := by
  obtain ⟨j, a, ha, hP⟩ := h
  cases lookup_insert_cases ha with
  | inl ha => exact Or.inl (ha.2 ▸ hP)
  | inr ha => exact Or.inr ⟨j, a, ha.2, hP⟩

theorem Holds.of_erase (h : Holds (table.erase k) P) : Holds table P := by
  obtain ⟨j, a, ha, hP⟩ := h
  exact ⟨j, a, (lookup_erase_cases ha).2, hP⟩

end TomAgent.Table
