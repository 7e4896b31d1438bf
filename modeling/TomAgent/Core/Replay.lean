import Mathlib.Data.List.Nodup
import Mathlib.Order.Basic
import TomAgent.Core.Execution

/-!
# Replay from a saved position

A reader sends a log in batches.  It moves on when a batch is accepted, saves its
position now and then, and resumes at the saved position, or at the start, after
a restart.  Whatever it does, a log entry is in an accepted batch or at or behind
the saved position, and the first copies of the accepted entries are a prefix of
the log.
-/

namespace TomAgent.Replay

open Execution

variable {α : Type*}

def window (log : List α) (w : Nat × Nat) : List α := (log.take w.2).drop w.1

/-- `inFlight` is the end of the batch being sent; `accepted` lists the windows
whose batches were accepted. -/
structure State (α : Type*) where
  log : List α
  position : Nat
  saved : Nat
  inFlight : Option Nat
  accepted : List (Nat × Nat)

def State.start : State α := ⟨[], 0, 0, none, []⟩

inductive Step : State α → State α → Prop
  | append (s : State α) (x : α) (hx : x ∉ s.log) : Step s { s with log := s.log ++ [x] }
  | read (s : State α) (upTo : Nat) (hlow : s.position ≤ upTo) (hhigh : upTo ≤ s.log.length) :
      Step s { s with inFlight := some upTo }
  | accept (s : State α) (upTo : Nat) (h : s.inFlight = some upTo) :
      Step s { s with
        position := upTo
        inFlight := none
        accepted := s.accepted ++ [(s.position, upTo)] }
  | reject (s : State α) : Step s { s with inFlight := none }
  | save (s : State α) : Step s { s with saved := s.position }
  | resume (s : State α) (n : Nat) (hn : n ≤ s.saved) :
      Step s { s with position := n, inFlight := none }

def State.copies (s : State α) : List α := s.accepted.flatMap (window s.log)

/-! ## Windows -/

theorem window_append (xs ys : List α) {w : Nat × Nat} (h : w.2 ≤ xs.length) :
    window (xs ++ ys) w = window xs w := by
  unfold window
  rw [List.take_append_of_le_length h]

theorem window_split (log : List α) {a m b : Nat} (ham : a ≤ m) (hmb : m ≤ b) :
    window log (a, b) = window log (a, m) ++ window log (m, b) := by
  simp only [window, List.drop_take]
  have hlen : b - a = (m - a) + (b - m) := by omega
  rw [hlen, List.take_add, List.drop_drop]
  congr 3
  omega

theorem take_append_window (log : List α) {m b : Nat} (h : m ≤ b) :
    log.take m ++ window log (m, b) = log.take b := by
  have hsplit := window_split log (Nat.zero_le m) h
  simpa [window] using hsplit.symm

theorem mem_take_of_mem_window {log : List α} {a b : Nat} {x : α} (h : x ∈ window log (a, b)) :
    x ∈ log.take b := List.mem_of_mem_drop h

theorem mem_window {log : List α} {a b i : Nat} (hlow : a ≤ i) (hhigh : i < b)
    (hi : i < log.length) : log[i] ∈ window log (a, b) := by
  have hget : (window log (a, b))[i - a]? = some log[i] := by
    rw [window, List.getElem?_drop, List.getElem?_take_of_lt (by simp only; omega)]
    rw [show a + (i - a) = i by omega, List.getElem?_eq_getElem hi]
  exact List.mem_of_getElem? hget

section Copies

variable [BEq α] [LawfulBEq α]

theorem removeAll_of_subset {xs ys : List α} (h : ∀ x ∈ xs, x ∈ ys) : xs.removeAll ys = [] := by
  simpa [List.removeAll, List.filter_eq_nil_iff] using h

theorem removeAll_of_disjoint {xs ys : List α} (h : ∀ x ∈ xs, x ∉ ys) : xs.removeAll ys = xs := by
  simpa [List.removeAll, List.filter_eq_self] using h

theorem eraseDups_of_nodup {xs : List α} (h : xs.Nodup) : xs.eraseDups = xs := by
  induction xs with
  | nil => rfl
  | cons x xs ih =>
      obtain ⟨hx, hxs⟩ := List.nodup_cons.mp h
      have hrest : xs.filter (fun y => !y == x) = xs := by
        rw [List.filter_eq_self]
        intro y hy
        have hne : y ≠ x := fun heq => hx (heq ▸ hy)
        simp [hne]
      rw [List.eraseDups_cons, hrest, ih hxs]

/-- Accepting a window that leaves no gap extends the prefix of first copies to
the end of the window. -/
theorem eraseDups_append_window {log copies : List α} {n a b : Nat} (hlog : log.Nodup)
    (hcopies : copies.eraseDups = log.take n) (ha : a ≤ n) :
    (copies ++ window log (a, b)).eraseDups = log.take (max n b) := by
  have hold : ∀ x, x ∈ copies ↔ x ∈ log.take n := by
    intro x
    rw [← hcopies, List.mem_eraseDups]
  rw [List.eraseDups_append, hcopies]
  rcases Nat.le_total b n with hb | hb
  · have hall : ∀ x ∈ window log (a, b), x ∈ copies := by
      intro x hx
      rw [hold]
      exact List.take_subset_take_left log hb (mem_take_of_mem_window hx)
    rw [removeAll_of_subset hall, Nat.max_eq_left hb]
    simp
  · -- the part before `n` is a repetition, the part behind it is new
    have hdisjoint : ∀ x ∈ window log (n, b), x ∉ copies := by
      have hnodup : (log.take n ++ window log (n, b)).Nodup := by
        rw [take_append_window log hb]
        exact hlog.sublist (List.take_sublist b log)
      intro x hx hmem
      exact (List.nodup_append.mp hnodup).2.2 x ((hold x).mp hmem) x hx rfl
    have hrepeat : ∀ x ∈ window log (a, n), x ∈ copies := fun x hx =>
      (hold x).mpr (mem_take_of_mem_window hx)
    have hnew : (window log (n, b)).Nodup :=
      hlog.sublist ((List.drop_sublist _ _).trans (List.take_sublist _ _))
    have hkept : (window log (a, b)).removeAll copies = window log (n, b) := by
      rw [window_split log ha hb, List.removeAll, List.filter_append]
      have hfirst := removeAll_of_subset hrepeat
      have hsecond := removeAll_of_disjoint hdisjoint
      rw [List.removeAll] at hfirst hsecond
      rw [hfirst, hsecond, List.nil_append]
    rw [hkept, eraseDups_of_nodup hnew, take_append_window log hb, Nat.max_eq_right hb]

/-! ## Receivers

What a receiver has recorded is put together from the beginnings of windows, each of
which starts no later than what is recorded ends. -/

omit [BEq α] [LawfulBEq α] in
theorem take_window (log : List α) (a b n : Nat) :
    (window log (a, b)).take n = window log (a, min (a + n) b) := by
  simp only [window, List.drop_take, List.take_take]
  congr 1
  omega

omit [BEq α] [LawfulBEq α] in
theorem le_of_take_subset {log : List α} (hlog : log.Nodup) {a n : Nat} (ha : a ≤ log.length)
    (h : log.take a ⊆ log.take n) : a ≤ n := by
  by_contra hlt
  have hn : n < log.length := by omega
  have hin : log[n] ∈ log.take a := List.mem_take_iff_getElem.mpr ⟨n, by omega, rfl⟩
  obtain ⟨i, hi, heq⟩ := List.mem_take_iff_getElem.mp (h hin)
  have hindex : i = n := (hlog.getElem_inj_iff).mp heq
  omega

structure Passed (log received : List α) (n : Nat) : Prop where
  le : n ≤ log.length
  received : log.take n ⊆ received

omit [BEq α] [LawfulBEq α] in
theorem Passed.grow {log log' received received' : List α} {n : Nat} (h : Passed log received n)
    (hlog : log <+: log') (hreceived : received ⊆ received') : Passed log' received' n := by
  obtain ⟨extra, rfl⟩ := hlog
  have hle := h.le
  refine ⟨?_, ?_⟩
  · rw [List.length_append]
    omega
  · rw [List.take_append_of_le_length h.le]
    exact List.Subset.trans h.received hreceived

omit [BEq α] [LawfulBEq α] in
theorem Passed.smaller {log received : List α} {n m : Nat} (h : Passed log received n)
    (hm : m ≤ n) : Passed log received m :=
  ⟨Nat.le_trans hm h.le,
    List.Subset.trans (List.take_subset_take_left log hm) h.received⟩

omit [BEq α] [LawfulBEq α] in
theorem Passed.succ {log received : List α} {n : Nat} {x : α} (h : Passed log received n)
    (hx : log[n]? = some x) : Passed log (received ++ [x]) (n + 1) := by
  obtain ⟨hn, rfl⟩ := List.getElem?_eq_some_iff.mp hx
  refine ⟨hn, ?_⟩
  rw [List.take_succ_eq_append_getElem hn]
  exact List.append_subset.mpr ⟨List.Subset.trans h.received (List.subset_append_left _ _),
    List.subset_append_right _ _⟩

/-- A receiver that has everything before a window stays in order with a part of it. -/
theorem prefix_append_part {log received : List α} {a b : Nat} (hlog : log.Nodup)
    (hreceived : received.eraseDups <+: log) (hpast : Passed log received a) (k : Nat) :
    (received ++ (window log (a, b)).take k).eraseDups <+: log := by
  have htake := List.prefix_iff_eq_take.mp hreceived
  have hsubset : log.take a ⊆ log.take received.eraseDups.length := by
    intro x hx
    rw [← htake, List.mem_eraseDups]
    exact hpast.received hx
  rw [take_window, eraseDups_append_window hlog htake (le_of_take_subset hlog hpast.le hsubset)]
  exact List.take_prefix _ log

/-! ## Runs -/

/-- Everything before `reached` was accepted and nothing behind it. -/
structure Inv (s : State α) (reached : Nat) : Prop where
  nodup : s.log.Nodup
  reached_le : reached ≤ s.log.length
  position_le : s.position ≤ reached
  saved_le : s.saved ≤ reached
  inFlight_le : ∀ upTo ∈ s.inFlight, s.position ≤ upTo ∧ upTo ≤ s.log.length
  windows : ∀ w ∈ s.accepted, w.2 ≤ s.log.length
  covered : ∀ i < reached, ∃ w ∈ s.accepted, w.1 ≤ i ∧ i < w.2
  copies : s.copies.eraseDups = s.log.take reached

omit [LawfulBEq α] in
theorem start_inv : Inv (State.start : State α) 0 where
  nodup := List.nodup_nil
  reached_le := Nat.le_refl 0
  position_le := Nat.le_refl 0
  saved_le := Nat.le_refl 0
  inFlight_le := by simp [State.start]
  windows := by simp [State.start]
  covered := by simp
  copies := rfl

omit [LawfulBEq α] in
theorem Inv.append {s : State α} {reached : Nat} (h : Inv s reached) {x : α} (hx : x ∉ s.log) :
    Inv { s with log := s.log ++ [x] } reached := by
  have hlen : (s.log ++ [x]).length = s.log.length + 1 := by simp
  have hcopies : ({ s with log := s.log ++ [x] } : State α).copies = s.copies := by
    unfold State.copies
    apply List.flatMap_congr
    intro w hw
    exact window_append s.log [x] (h.windows w hw)
  refine ⟨?_, ?_, h.position_le, h.saved_le, ?_, ?_, h.covered, ?_⟩
  · exact List.nodup_append.mpr ⟨h.nodup, List.nodup_singleton x, by
      intro a ha b hb heq
      rw [List.mem_singleton] at hb
      exact hx (hb ▸ heq ▸ ha)⟩
  · have := h.reached_le
    simp only [hlen]
    omega
  · intro upTo hupTo
    have := h.inFlight_le upTo hupTo
    simp only [hlen]
    omega
  · intro w hw
    have := h.windows w hw
    simp only [hlen]
    omega
  · rw [hcopies, h.copies, List.take_append_of_le_length h.reached_le]

theorem Inv.accept {s : State α} {reached upTo : Nat} (h : Inv s reached)
    (hupTo : s.inFlight = some upTo) :
    Inv { s with
      position := upTo
      inFlight := none
      accepted := s.accepted ++ [(s.position, upTo)] } (max reached upTo) := by
  obtain ⟨hlow, hhigh⟩ := h.inFlight_le upTo hupTo
  refine ⟨h.nodup, ?_, Nat.le_max_right _ _, ?_, by simp, ?_, ?_, ?_⟩
  · exact Nat.max_le.mpr ⟨h.reached_le, hhigh⟩
  · exact Nat.le_trans h.saved_le (Nat.le_max_left _ _)
  · intro w hw
    rcases List.mem_append.mp hw with hw | hw
    · exact h.windows w hw
    · rw [List.mem_singleton] at hw
      subst hw
      exact hhigh
  · intro i hi
    by_cases hold : i < reached
    · obtain ⟨w, hw, hin⟩ := h.covered i hold
      exact ⟨w, List.mem_append_left _ hw, hin⟩
    · have hposition := h.position_le
      have hlt : i < upTo := by omega
      exact ⟨(s.position, upTo), by simp, by omega, hlt⟩
  · have hextend := @eraseDups_append_window α _ _ s.log s.copies reached s.position upTo
      h.nodup h.copies h.position_le
    simpa [State.copies] using hextend

theorem Inv.step {s t : State α} (h : ∃ reached, Inv s reached) (hstep : Step s t) :
    ∃ reached, Inv t reached := by
  obtain ⟨reached, h⟩ := h
  cases hstep with
  | append x hx => exact ⟨reached, h.append hx⟩
  | read upTo hlow hhigh =>
      refine ⟨reached, { h with inFlight_le := ?_ }⟩
      intro n hn
      cases hn
      exact ⟨hlow, hhigh⟩
  | accept upTo hupTo => exact ⟨max reached upTo, h.accept hupTo⟩
  | reject => exact ⟨reached, { h with inFlight_le := by simp }⟩
  | save => exact ⟨reached, { h with saved_le := h.position_le }⟩
  | resume n hn =>
      exact ⟨reached, { h with
        position_le := Nat.le_trans hn h.saved_le
        inFlight_le := by simp }⟩

theorem inv_of_run {s : State α} (run : Reaches Step State.start s) :
    ∃ reached, Inv s reached :=
  invariant (fun s => ∃ reached, Inv s reached) (fun _ _ h hstep => Inv.step h hstep)
    ⟨0, start_inv⟩ run

/-- An entry is in an accepted batch, or a restart reads it again. -/
theorem accepted_or_ahead {s : State α} (run : Reaches Step State.start s) (i : Nat) :
    (∃ w ∈ s.accepted, w.1 ≤ i ∧ i < w.2) ∨ s.saved ≤ i := by
  obtain ⟨reached, h⟩ := inv_of_run run
  by_cases hi : i < reached
  · exact Or.inl (h.covered i hi)
  · have hsaved := h.saved_le
    right
    omega

/-- Without repetitions the accepted entries are the beginning of the log. -/
theorem copies_in_order {s : State α} (run : Reaches Step State.start s) :
    s.copies.eraseDups <+: s.log := by
  obtain ⟨reached, h⟩ := inv_of_run run
  rw [h.copies]
  exact List.take_prefix reached s.log

end Copies

end TomAgent.Replay
