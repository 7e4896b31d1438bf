import TomAgent.Core.Replay

/-!
# Sending one by one from a saved position

A reader takes a batch of log entries and sends them one by one.  Only when the last
one is accepted does it move on; a refused entry makes it start the batch again, and a
restart takes it back to the saved position.  Every entry before the saved position has
been received, and the receiver has the entries in order, up to repetitions.
-/

namespace TomAgent.Resend

open Execution Replay

variable {α : Type*}

/-- `batch` is the end of the batch under way and the entry to send next. -/
structure State (α : Type*) where
  log : List α
  position : Nat
  saved : Nat
  batch : Option (Nat × Nat)
  received : List α

def State.start : State α := ⟨[], 0, 0, none, []⟩

inductive Step : State α → State α → Prop
  | append (s : State α) (x : α) (hx : x ∉ s.log) : Step s { s with log := s.log ++ [x] }
  | read (s : State α) (upTo : Nat) (hlow : s.position ≤ upTo) (hhigh : upTo ≤ s.log.length) :
      Step s { s with batch := some (upTo, s.position) }
  | accept (s : State α) (upTo i : Nat) (x : α) (hbatch : s.batch = some (upTo, i))
      (hi : i < upTo) (hx : s.log[i]? = some x) :
      Step s { s with batch := some (upTo, i + 1), received := s.received ++ [x] }
  | abandon (s : State α) : Step s { s with batch := none }
  | finish (s : State α) (upTo : Nat) (hbatch : s.batch = some (upTo, upTo)) :
      Step s { s with position := upTo, batch := none }
  | save (s : State α) : Step s { s with saved := s.position }
  | resume (s : State α) (n : Nat) (hn : n ≤ s.saved) :
      Step s { s with position := n, batch := none }

section Copies

variable [BEq α] [LawfulBEq α]

structure Inv (s : State α) : Prop where
  nodup : s.log.Nodup
  position : Passed s.log s.received s.position
  saved : Passed s.log s.received s.saved
  batch : ∀ upTo i, s.batch = some (upTo, i) →
    i ≤ upTo ∧ upTo ≤ s.log.length ∧ Passed s.log s.received i
  order : s.received.eraseDups <+: s.log

omit [LawfulBEq α] in
theorem start_inv : Inv (State.start : State α) where
  nodup := List.nodup_nil
  position := ⟨Nat.le_refl 0, List.nil_subset _⟩
  saved := ⟨Nat.le_refl 0, List.nil_subset _⟩
  batch := fun _ _ h => nomatch h
  order := List.prefix_refl _

omit [LawfulBEq α] in
theorem Inv.append {s : State α} (h : Inv s) {x : α} (hx : x ∉ s.log) :
    Inv { s with log := s.log ++ [x] } := by
  have hlog : s.log <+: s.log ++ [x] := List.prefix_append _ _
  have hgrow : ∀ {n}, Passed s.log s.received n → Passed (s.log ++ [x]) s.received n :=
    fun hn => hn.grow hlog (List.Subset.refl _)
  refine ⟨?_, hgrow h.position, hgrow h.saved, ?_, h.order.trans hlog⟩
  · refine List.nodup_append.mpr ⟨h.nodup, List.nodup_singleton x, ?_⟩
    intro a ha b hb heq
    rw [List.mem_singleton] at hb
    exact hx (hb ▸ heq ▸ ha)
  · intro upTo i hbatch
    obtain ⟨hlow, hhigh, hpassed⟩ := h.batch upTo i hbatch
    refine ⟨hlow, ?_, hgrow hpassed⟩
    rw [List.length_append]
    omega

theorem Inv.accept {s : State α} (h : Inv s) {upTo i : Nat} {x : α}
    (hbatch : s.batch = some (upTo, i)) (hi : i < upTo) (hx : s.log[i]? = some x) :
    Inv { s with batch := some (upTo, i + 1), received := s.received ++ [x] } := by
  obtain ⟨-, hhigh, hpassed⟩ := h.batch upTo i hbatch
  have hmore : s.received ⊆ s.received ++ [x] := List.subset_append_left _ _
  refine ⟨h.nodup, h.position.grow (List.prefix_refl _) hmore,
    h.saved.grow (List.prefix_refl _) hmore, ?_, ?_⟩
  · intro upTo' i' heq
    cases heq
    exact ⟨hi, hhigh, hpassed.succ hx⟩
  · have hone : (window s.log (i, i + 1)).take 1 = [x] := by
      obtain ⟨hlt, rfl⟩ := List.getElem?_eq_some_iff.mp hx
      rw [window, List.drop_take, List.drop_eq_getElem_cons hlt, Nat.add_sub_cancel_left]
      rfl
    have hpart := @prefix_append_part α _ _ s.log s.received i (i + 1) h.nodup h.order hpassed 1
    rwa [hone] at hpart

theorem Inv.step {s t : State α} (h : Inv s) (hstep : Step s t) : Inv t := by
  cases hstep with
  | append x hx => exact h.append hx
  | read upTo hlow hhigh =>
      refine { h with batch := ?_ }
      intro upTo' i heq
      cases heq
      exact ⟨hlow, hhigh, h.position⟩
  | accept upTo i x hbatch hi hx => exact h.accept hbatch hi hx
  | abandon => exact { h with batch := fun _ _ heq => nomatch heq }
  | finish upTo hbatch =>
      obtain ⟨-, -, hpassed⟩ := h.batch upTo upTo hbatch
      exact { h with position := hpassed, batch := fun _ _ heq => nomatch heq }
  | save => exact { h with saved := h.position }
  | resume n hn =>
      exact { h with position := h.saved.smaller hn, batch := fun _ _ heq => nomatch heq }

theorem inv_of_run {s : State α} (run : Reaches Step State.start s) : Inv s :=
  invariant Inv (fun _ _ h hstep => h.step hstep) start_inv run

/-- An entry has been received, or a restart sends it again. -/
theorem received_or_ahead {s : State α} (run : Reaches Step State.start s) {x : α}
    (hx : x ∈ s.log) : x ∈ s.received ∨ x ∈ s.log.drop s.saved := by
  rw [← List.take_append_drop s.saved s.log, List.mem_append] at hx
  exact hx.imp_left fun hin => (inv_of_run run).saved.received hin

end Copies

end TomAgent.Resend
