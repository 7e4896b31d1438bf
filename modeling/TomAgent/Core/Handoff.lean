import Mathlib.Data.List.Nodup
import Mathlib.Logic.Function.Basic

/-!
# Work queues and one-slot channels

A work queue hands each entry to one worker at a time.  A one-slot channel holds
at most one value; sending to a full one blocks the sender.  Both are indexed
families over arbitrary types.
-/

namespace TomAgent.Handoff

variable {ι α β : Type*}

/-! ## Families with one member replaced -/

theorem update_cases [DecidableEq ι] {f : ι → α} {i j : ι} {a b : α}
    (h : Function.update f i a j = b) : j = i ∧ a = b ∨ j ≠ i ∧ f j = b := by
  by_cases hj : j = i
  · subst hj
    rw [Function.update_self] at h
    exact Or.inl ⟨rfl, h⟩
  · rw [Function.update_of_ne hj] at h
    exact Or.inr ⟨hj, h⟩

theorem mem_update [DecidableEq ι] {f : ι → List α} {i j : ι} {xs : List α} {x : α}
    (h : x ∈ Function.update f i xs j) : j = i ∧ x ∈ xs ∨ x ∈ f j := by
  by_cases hj : j = i
  · subst hj
    rw [Function.update_self] at h
    exact Or.inl ⟨rfl, h⟩
  · rw [Function.update_of_ne hj] at h
    exact Or.inr h

theorem update_subset [DecidableEq ι] {f : ι → List α} {i : ι} {xs : List α} (h : xs ⊆ f i)
    (j : ι) : Function.update f i xs j ⊆ f j := by
  intro x hx
  cases mem_update hx with
  | inl hx => exact hx.1 ▸ h hx.2
  | inr hx => exact hx

/-! ## One-slot channels -/

abbrev Slots (α β : Type*) := α → Option β

namespace Slots

def fill [DecidableEq α] (ch : Slots α β) (targets : List α) (v : β) : Slots α β :=
  fun c => if c ∈ targets then some v else ch c

variable [DecidableEq α] {ch : Slots α β} {targets : List α} {v : β} {c : α}

theorem fill_of_mem (h : c ∈ targets) : ch.fill targets v c = some v := if_pos h

theorem fill_of_not_mem (h : c ∉ targets) : ch.fill targets v c = ch c := if_neg h

/-- What a filled channel holds was sent now or was there before. -/
theorem fill_eq_some {w : β} (h : ch.fill targets v c = some w) :
    c ∈ targets ∧ w = v ∨ ch c = some w := by
  by_cases hc : c ∈ targets
  · rw [fill_of_mem hc] at h
    exact Or.inl ⟨hc, (Option.some.inj h).symm⟩
  · rw [fill_of_not_mem hc] at h
    exact Or.inr h

end Slots

/-! ## Work queues -/

/-- Entries in line, and the entry each worker has in hand. -/
structure Queue (ι α : Type*) where
  waiting : List α
  held : ι → Option α

namespace Queue

def empty : Queue ι α := ⟨[], fun _ => none⟩

def push (q : Queue ι α) (a : α) : Queue ι α := { q with waiting := q.waiting ++ [a] }

variable [DecidableEq ι]

def take (q : Queue ι α) (i : ι) : Option (α × Queue ι α) :=
  match q.held i, q.waiting with
  | none, a :: rest => some (a, ⟨rest, Function.update q.held i (some a)⟩)
  | _, _ => none

def release (q : Queue ι α) (i : ι) : Queue ι α :=
  { q with held := Function.update q.held i none }

def Pending (q : Queue ι α) (a : α) : Prop := a ∈ q.waiting ∨ ∃ i, q.held i = some a

structure Exclusive (q : Queue ι α) : Prop where
  nodup : q.waiting.Nodup
  apart : ∀ i a, q.held i = some a → a ∉ q.waiting
  single : ∀ i j a, q.held i = some a → q.held j = some a → i = j

theorem take_eq_some {q q' : Queue ι α} {i : ι} {a : α} (h : q.take i = some (a, q')) :
    q.held i = none ∧ ∃ rest, q.waiting = a :: rest ∧
      q' = ⟨rest, Function.update q.held i (some a)⟩ := by
  unfold take at h
  split at h
  next b rest hheld hwait =>
    cases h
    exact ⟨hheld, rest, hwait, rfl⟩
  next => cases h

theorem held_take {q q' : Queue ι α} {i j : ι} {a b : α} (h : q.take i = some (a, q'))
    (hb : q'.held j = some b) : j = i ∧ b = a ∨ j ≠ i ∧ q.held j = some b := by
  obtain ⟨-, rest, -, rfl⟩ := take_eq_some h
  by_cases hj : j = i
  · left
    have hab : some a = some b := by simpa [hj] using hb
    exact ⟨hj, (Option.some.inj hab).symm⟩
  · right
    exact ⟨hj, by simpa [hj] using hb⟩

theorem held_release {q : Queue ι α} {i j : ι} {b : α} (h : (q.release i).held j = some b) :
    j ≠ i ∧ q.held j = some b := by
  by_cases hj : j = i
  · simp [release, hj] at h
  · exact ⟨hj, by simpa [release, hj] using h⟩

theorem waiting_take {q q' : Queue ι α} {i : ι} {a : α} (h : q.take i = some (a, q')) :
    q.waiting = a :: q'.waiting := by
  obtain ⟨-, rest, hwait, rfl⟩ := take_eq_some h
  exact hwait

omit [DecidableEq ι] in
theorem not_pending_empty (a : α) : ¬ (empty : Queue ι α).Pending a := by
  intro h
  cases h with
  | inl h => cases h
  | inr h =>
      cases h with
      | intro i hi => cases hi

omit [DecidableEq ι] in
theorem pending_push {q : Queue ι α} {a b : α} (h : (q.push a).Pending b) :
    b = a ∨ q.Pending b := by
  cases h with
  | inl h =>
      cases List.mem_append.mp h with
      | inl h => exact Or.inr (Or.inl h)
      | inr h => exact Or.inl (List.mem_singleton.mp h)
  | inr h => exact Or.inr (Or.inr h)

/-- Taking an entry moves it; nothing else becomes pending. -/
theorem pending_take {q q' : Queue ι α} {i : ι} {a b : α} (h : q.take i = some (a, q'))
    (hb : q'.Pending b) : q.Pending b := by
  have hwait := waiting_take h
  cases hb with
  | inl hb => exact Or.inl (hwait ▸ List.mem_cons_of_mem a hb)
  | inr hb =>
      cases hb with
      | intro j hj =>
          cases held_take h hj with
          | inl hnew => exact Or.inl (hwait ▸ hnew.2 ▸ List.mem_cons_self)
          | inr hold => exact Or.inr ⟨j, hold.2⟩

theorem pending_release {q : Queue ι α} {i : ι} {b : α} (h : (q.release i).Pending b) :
    q.Pending b := by
  cases h with
  | inl h => exact Or.inl h
  | inr h =>
      cases h with
      | intro j hj => exact Or.inr ⟨j, (held_release hj).2⟩

/-! ### Exclusiveness is kept -/

omit [DecidableEq ι] in
theorem exclusive_empty : (empty : Queue ι α).Exclusive :=
  ⟨List.nodup_nil, fun _ _ h => (Option.some_ne_none _ h.symm).elim,
    fun _ _ _ h => (Option.some_ne_none _ h.symm).elim⟩

omit [DecidableEq ι] in
theorem Exclusive.push {q : Queue ι α} {a : α} (h : q.Exclusive) (ha : ¬ q.Pending a) :
    (q.push a).Exclusive := by
  have hfresh : a ∉ q.waiting := fun hmem => ha (Or.inl hmem)
  refine ⟨?_, ?_, h.single⟩
  · exact List.nodup_append.mpr ⟨h.nodup, List.nodup_singleton a, fun x hx y hy hxy =>
      hfresh (List.mem_singleton.mp hy ▸ hxy ▸ hx)⟩
  · intro i b hb hmem
    cases List.mem_append.mp hmem with
    | inl hmem => exact h.apart i b hb hmem
    | inr hmem => exact ha (Or.inr ⟨i, List.mem_singleton.mp hmem ▸ hb⟩)

theorem Exclusive.take {q q' : Queue ι α} {i : ι} {a : α} (h : q.Exclusive)
    (htake : q.take i = some (a, q')) : q'.Exclusive := by
  have hwait := waiting_take htake
  have hnodup : (a :: q'.waiting).Nodup := hwait ▸ h.nodup
  -- Nobody holds the entry that is first in line.
  have hother : ∀ j, q.held j ≠ some a := fun j hj =>
    h.apart j a hj (hwait ▸ List.mem_cons_self)
  refine ⟨hnodup.of_cons, ?_, ?_⟩
  · intro j b hb hmem
    cases held_take htake hb with
    | inl hnew => exact (List.nodup_cons.mp hnodup).1 (hnew.2 ▸ hmem)
    | inr hold => exact h.apart j b hold.2 (hwait ▸ List.mem_cons_of_mem a hmem)
  · intro j k b hj hk
    cases held_take htake hj with
    | inl hnew =>
        cases held_take htake hk with
        | inl hnew' => rw [hnew.1, hnew'.1]
        | inr hold' => exact (hother k (hnew.2 ▸ hold'.2)).elim
    | inr hold =>
        cases held_take htake hk with
        | inl hnew' => exact (hother j (hnew'.2 ▸ hold.2)).elim
        | inr hold' => exact h.single j k b hold.2 hold'.2

theorem Exclusive.release {q : Queue ι α} (h : q.Exclusive) (i : ι) :
    (q.release i).Exclusive :=
  ⟨h.nodup, fun j b hb => h.apart j b (held_release hb).2,
    fun j k b hj hk => h.single j k b (held_release hj).2 (held_release hk).2⟩

/-- A worker that is done leaves its entry nowhere. -/
theorem Exclusive.not_pending_release {q : Queue ι α} {i : ι} {a : α} (h : q.Exclusive)
    (ha : q.held i = some a) : ¬ (q.release i).Pending a := by
  intro hpend
  cases hpend with
  | inl hmem => exact h.apart i a ha hmem
  | inr hex =>
      cases hex with
      | intro j hj =>
          have hother := held_release hj
          exact hother.1 (h.single j i a hother.2 ha)

/-! ### Workers that are not ready -/

/-- What a step can ask of a queue. -/
inductive Turn (ι α : Type*) where
  | enter (a : α)
  | take (i : ι)
  | release (i : ι)
  | rest

def turn (q : Queue ι α) : Turn ι α → Option (Queue ι α)
  | .enter a => some (q.push a)
  | .take i => (q.take i).map (·.2)
  | .release i => some (q.release i)
  | .rest => some q

/-- While there are entries in line all workers that run are ready, and so is every worker with
an entry in hand. -/
structure Reserved (q : Queue ι α) (runs ready : ι → Prop) : Prop where
  waiting : q.waiting ≠ [] → ∀ i, runs i → ready i
  held : ∀ i a, q.held i = some a → ready i

variable {q q' : Queue ι α} {runs ready : ι → Prop}

omit [DecidableEq ι] in
theorem reserved_empty : (empty : Queue ι α).Reserved runs ready :=
  ⟨fun h => absurd rfl h, fun _ _ h => (Option.some_ne_none _ h.symm).elim⟩

omit [DecidableEq ι] in
theorem Reserved.mono (h : q.Reserved runs ready) {ready' : ι → Prop}
    (hready : ∀ i, ready i → ready' i) : q.Reserved runs ready' :=
  ⟨fun hline i hi => hready i (h.waiting hline i hi), fun i a ha => hready i (h.held i a ha)⟩

omit [DecidableEq ι] in
theorem Reserved.anti (h : q.Reserved runs ready) {runs' : ι → Prop}
    (hruns : ∀ i, runs' i → runs i) : q.Reserved runs' ready :=
  ⟨fun hline i hi => h.waiting hline i (hruns i hi), h.held⟩

omit [DecidableEq ι] in
/-- Another worker may start while nothing is in line, or if it is ready. -/
theorem Reserved.start (h : q.Reserved runs ready) {j : ι} (hj : q.waiting = [] ∨ ready j)
    {runs' : ι → Prop} (hruns : ∀ i, runs' i → i = j ∨ runs i) : q.Reserved runs' ready := by
  refine ⟨fun hline i hi => ?_, h.held⟩
  cases hruns i hi with
  | inl heq => exact heq ▸ hj.resolve_left hline
  | inr hold => exact h.waiting hline i hold

/-- Entries get in line while all workers that run are ready, and only such workers take one. -/
theorem Reserved.turn (h : q.Reserved runs ready) {t : Turn ι α} (hq : q.turn t = some q')
    (henter : ∀ a, t = .enter a → ∀ i, runs i → ready i) (htake : ∀ i, t = .take i → runs i) :
    q'.Reserved runs ready := by
  cases t with
  | enter a =>
      cases hq
      exact ⟨fun _ => henter a rfl, h.held⟩
  | take i =>
      obtain ⟨⟨a, q₁⟩, htaken, rfl⟩ := Option.map_eq_some_iff.mp hq
      have hwait := waiting_take htaken
      have hline : q.waiting ≠ [] := by rw [hwait]; exact List.cons_ne_nil _ _
      refine ⟨fun _ => h.waiting hline, fun j b hb => ?_⟩
      cases held_take htaken hb with
      | inl hnew => exact hnew.1 ▸ h.waiting hline i (htake i rfl)
      | inr hold => exact h.held j b hold.2
  | release i =>
      cases hq
      exact ⟨h.waiting, fun j b hb => h.held j b (held_release hb).2⟩
  | rest =>
      cases hq
      exact h

end Queue

end TomAgent.Handoff
