import Mathlib.Data.List.Basic

/-!
# Slices and filtering in place

A slice is an array and the number of its elements that are in use.  The idiom
`kept := s[:0]` with `kept = append(kept, a)` inside a loop over `s` overwrites the
array that the loop reads from; it is the same as filtering the list of elements.
-/

namespace TomAgent

structure Slice (α : Type*) where
  backing : List α
  len : Nat
  fits : len ≤ backing.length

namespace Slice

variable {α σ : Type*}

def empty : Slice α := ⟨[], 0, Nat.le_refl 0⟩

def elems (s : Slice α) : List α := s.backing.take s.len

def append (s : Slice α) (a : α) : Slice α where
  backing := s.backing.take s.len ++ a :: s.backing.drop (s.len + 1)
  len := s.len + 1
  fits := by
    have hfits := s.fits
    rw [List.length_append, List.length_take, List.length_cons]
    omega

@[simp] theorem elems_append (s : Slice α) (a : α) : (s.append a).elems = s.elems ++ [a] := by
  have hlength : (s.backing.take s.len).length = s.len := by simp [s.fits]
  unfold elems append
  dsimp only
  rw [List.take_append, hlength, List.take_of_length_le (by omega), Nat.add_sub_cancel_left,
    List.take_succ_cons, List.take_zero]

/-! ## One pass over a list -/

/-- A pass that visits every element with a state and keeps some of them. -/
def pass (visit : σ → α → σ × Bool) : List α → σ → List α × σ
  | [], s => ([], s)
  | a :: rest, s =>
      let r := visit s a
      let q := pass visit rest r.1
      (if r.2 then a :: q.1 else q.1, q.2)

/-- The loop in place: `n` elements from index `i` on are still to be visited, and the
first `kept` elements of the array are those kept so far. -/
def passLoop (visit : σ → α → σ × Bool) : Nat → Nat → List α → Nat → σ → List α × Nat × σ
  | 0, _, backing, kept, s => (backing, kept, s)
  | n + 1, i, backing, kept, s =>
      match backing[i]? with
      | none => (backing, kept, s)
      | some a =>
          let r := visit s a
          if r.2 then passLoop visit n (i + 1) (backing.set kept a) (kept + 1) r.1
          else passLoop visit n (i + 1) backing kept r.1

/-- The writes of the loop stay behind its reads. -/
theorem passLoop_eq (visit : σ → α → σ × Bool) (n i : Nat) (backing : List α) (kept : Nat) (s : σ)
    (hkept : kept ≤ i) (hfits : i + n ≤ backing.length) :
    (passLoop visit n i backing kept s).2.1 ≤ (passLoop visit n i backing kept s).1.length ∧
      (passLoop visit n i backing kept s).1.take (passLoop visit n i backing kept s).2.1 =
        backing.take kept ++ (pass visit ((backing.drop i).take n) s).1 ∧
      (passLoop visit n i backing kept s).2.2 = (pass visit ((backing.drop i).take n) s).2 := by
  induction n generalizing i backing kept s with
  | zero =>
      simp only [passLoop, List.take_zero, pass, List.append_nil, and_true]
      omega
  | succ n ih =>
      have hi : i < backing.length := by omega
      have hdrop : (backing.drop i).take (n + 1) = backing[i] :: (backing.drop (i + 1)).take n := by
        rw [List.drop_eq_getElem_cons hi, List.take_succ_cons]
      rw [hdrop]
      simp only [passLoop, pass, List.getElem?_eq_getElem hi]
      cases hvisit : (visit s backing[i]).2 with
      | false =>
          simp only [Bool.false_eq_true, if_false]
          exact ih (i + 1) backing kept _ (by omega) (by omega)
      | true =>
          simp only [if_true]
          have hrest := ih (i + 1) (backing.set kept backing[i]) (kept + 1)
            (visit s backing[i]).1 (by omega) (by rw [List.length_set]; omega)
          have hread : (backing.set kept backing[i]).drop (i + 1) = backing.drop (i + 1) :=
            List.drop_set_of_lt (by omega)
          have hwritten : (backing.set kept backing[i]).take (kept + 1) =
              backing.take kept ++ [backing[i]] := by
            rw [List.take_succ_eq_append_getElem (by rw [List.length_set]; omega),
              List.take_set_of_le (Nat.le_refl kept), List.getElem_set_self]
          rw [hread, hwritten, List.append_assoc, List.singleton_append] at hrest
          exact hrest

def compact (s : Slice α) (visit : σ → α → σ × Bool) (init : σ) : Slice α × σ :=
  let r := passLoop visit s.len 0 s.backing 0 init
  (⟨r.1, r.2.1, (passLoop_eq visit s.len 0 s.backing 0 init (Nat.le_refl 0)
    (by have := s.fits; omega)).1⟩, r.2.2)

/-- Filtering in place is filtering. -/
theorem pass_elems (s : Slice α) (visit : σ → α → σ × Bool) (init : σ) :
    pass visit s.elems init = ((s.compact visit init).1.elems, (s.compact visit init).2) := by
  obtain ⟨-, hkept, hstate⟩ := passLoop_eq visit s.len 0 s.backing 0 init (Nat.le_refl 0)
    (by have := s.fits; omega)
  rw [List.take_zero, List.nil_append, List.drop_zero] at hkept
  rw [List.drop_zero] at hstate
  exact Prod.ext hkept.symm hstate.symm

end Slice

end TomAgent
