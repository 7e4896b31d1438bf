import Mathlib.Algebra.Order.Ring.Nat
import Mathlib.Data.Finset.Card
import Mathlib.Data.Finset.Image

/-!
# Sets whose entries expire

A set of keys with expiry times that takes a key at most once.  What has expired
is only purged when the set has reached its capacity, so an expired key can still
be in the way, and a set of unexpired entries grows beyond the capacity.
-/

namespace TomAgent

namespace ExpiringSet

variable {κ ι τ : Type*}

section Operations

variable [LT τ] [DecidableLT τ]

def unexpired (s : Finset (κ × τ)) (now : τ) : Finset (κ × τ) := s.filter fun e => now < e.2

def Full (capacity : Int) (s : Finset (κ × τ)) : Prop := s.Nonempty ∧ capacity ≤ s.card

instance (capacity : Int) (s : Finset (κ × τ)) : Decidable (Full capacity s) :=
  inferInstanceAs (Decidable (_ ∧ _))

def purge (capacity : Int) (s : Finset (κ × τ)) (now : τ) : Finset (κ × τ) :=
  if Full capacity s then unexpired s now else s

def keys [DecidableEq κ] (s : Finset (κ × τ)) : Finset κ := s.image Prod.fst

variable [DecidableEq κ] [DecidableEq τ]

/-- The set after a key was offered to it, and whether the key was taken. -/
def offer (capacity : Int) (s : Finset (κ × τ)) (k : κ) (expiry now : τ) :
    Finset (κ × τ) × Bool :=
  let s := purge capacity s now
  if k ∈ keys s then (s, false) else (insert (k, expiry) s, true)

theorem offer_of_mem {capacity : Int} {s : Finset (κ × τ)} {k : κ} {now : τ}
    (h : k ∈ keys (purge capacity s now)) (expiry : τ) :
    offer capacity s k expiry now = (purge capacity s now, false) := if_pos h

theorem offer_of_notMem {capacity : Int} {s : Finset (κ × τ)} {k : κ} {now : τ}
    (h : k ∉ keys (purge capacity s now)) (expiry : τ) :
    offer capacity s k expiry now = (insert (k, expiry) (purge capacity s now), true) := if_neg h

/-- At most one entry is added to what the purge leaves. -/
theorem card_offer_le (capacity : Int) (s : Finset (κ × τ)) (k : κ) (expiry now : τ) :
    (offer capacity s k expiry now).1.card ≤ (purge capacity s now).card + 1 := by
  by_cases h : k ∈ keys (purge capacity s now)
  · rw [offer_of_mem h]
    exact Nat.le_succ _
  · rw [offer_of_notMem h]
    exact Finset.card_insert_le _ _

/-- Beyond the capacity no expired entry was left. -/
theorem unexpired_of_capacity_lt {capacity : Int} {s : Finset (κ × τ)} {k : κ} {expiry now : τ}
    (h : capacity < (offer capacity s k expiry now).1.card) :
    ∀ e ∈ purge capacity s now, now < e.2 := by
  intro e he
  have hadded := card_offer_le capacity s k expiry now
  unfold purge at he hadded
  by_cases hfull : Full capacity s
  · rw [if_pos hfull] at he
    exact (Finset.mem_filter.mp he).2
  · rw [if_neg hfull] at he hadded
    have hroom : ¬ capacity ≤ s.card := fun hcap => hfull ⟨⟨e, he⟩, hcap⟩
    omega

end Operations

/-! ## Other names for the keys -/

section Renaming

variable (f : κ ↪ ι)

def rename : (κ × τ) ↪ (ι × τ) := f.prodMap (Function.Embedding.refl τ)

theorem mem_keys_map [DecidableEq κ] [DecidableEq ι] (s : Finset (κ × τ)) (k : κ) :
    f k ∈ keys (s.map (rename f)) ↔ k ∈ keys s := by
  simp only [keys, Finset.mem_image, Finset.mem_map]
  constructor
  · rintro ⟨_, ⟨e, he, rfl⟩, hkey⟩
    exact ⟨e, he, f.injective hkey⟩
  · rintro ⟨e, he, rfl⟩
    exact ⟨rename f e, ⟨e, he, rfl⟩, rfl⟩

theorem full_map (capacity : Int) (s : Finset (κ × τ)) :
    Full capacity (s.map (rename f)) ↔ Full capacity s := by
  unfold Full
  rw [Finset.map_nonempty, Finset.card_map]

variable [LT τ] [DecidableLT τ]

theorem unexpired_map (s : Finset (κ × τ)) (now : τ) :
    unexpired (s.map (rename f)) now = (unexpired s now).map (rename f) := by
  unfold unexpired
  rw [Finset.filter_map]
  rfl

theorem purge_map (capacity : Int) (s : Finset (κ × τ)) (now : τ) :
    purge capacity (s.map (rename f)) now = (purge capacity s now).map (rename f) := by
  unfold purge
  by_cases hfull : Full capacity s
  · rw [if_pos hfull, if_pos ((full_map f capacity s).mpr hfull), unexpired_map]
  · rw [if_neg hfull, if_neg (mt (full_map f capacity s).mp hfull)]

variable [DecidableEq κ] [DecidableEq ι] [DecidableEq τ]

/-- Nothing depends on how the keys are written. -/
theorem offer_map (capacity : Int) (s : Finset (κ × τ)) (k : κ) (expiry now : τ) :
    offer capacity (s.map (rename f)) (f k) expiry now =
      ((offer capacity s k expiry now).1.map (rename f), (offer capacity s k expiry now).2) := by
  have hkeys : f k ∈ keys (purge capacity (s.map (rename f)) now) ↔
      k ∈ keys (purge capacity s now) := by
    rw [purge_map, mem_keys_map]
  by_cases h : k ∈ keys (purge capacity s now)
  · rw [offer_of_mem (hkeys.mpr h), offer_of_mem h, purge_map]
  · rw [offer_of_notMem (mt hkeys.mp h), offer_of_notMem h, purge_map, Finset.map_insert]
    rfl

end Renaming

end ExpiringSet

end TomAgent
