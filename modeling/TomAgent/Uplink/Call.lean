import TomAgent.Core.Handoff

/-!
# Calls that wait for an acknowledgement

`SendReliable` and `SendMetrics` end in `waitReady`: the call reads its channel or
runs into a timeout.  A timeout leaves the channel behind, and whoever knows of it
may still send to it.
-/

namespace TomAgent.Uplink

open Handoff

inductive Completion where
  | ok
  | error
deriving Repr, DecidableEq

/-- How a call ends: with what it read from its channel, on a timeout, or because
the queue stayed full. -/
inductive Outcome where
  | received (v : Completion)
  | gaveUp
  | queueFull
deriving Repr, DecidableEq

inductive Phase where
  | idle
  | registered
  | waiting
  | returned (o : Outcome)
deriving Repr, DecidableEq

/-- A nil is in the channel of the call or was returned by it. -/
def Answered (ch : Slots Nat Completion) (phase : Nat → Phase) (c : Nat) : Prop :=
  ch c = some .ok ∨ phase c = .returned (.received .ok)

def Received (phase : Nat → Phase) (c : Nat) : Prop := ∃ v, phase c = .returned (.received v)

variable {ch : Slots Nat Completion} {phase : Nat → Phase} {c c' : Nat}

theorem Answered.of_phase {p : Phase} (hp : p ≠ .returned (.received .ok))
    (h : Answered ch (Function.update phase c p) c') : Answered ch phase c' := by
  cases h with
  | inl h => exact Or.inl h
  | inr h =>
      cases update_cases h with
      | inl hnew => exact absurd hnew.2 hp
      | inr hold => exact Or.inr hold.2

/-- Errors on channels answer nobody. -/
theorem Answered.of_error {targets : List Nat} (h : Answered (ch.fill targets .error) phase c) :
    Answered ch phase c := by
  cases h with
  | inr h => exact Or.inr h
  | inl h =>
      cases Slots.fill_eq_some h with
      | inl hnew => cases hnew.2
      | inr hold => exact Or.inl hold

theorem Answered.of_receive {v : Completion} (hch : ch c = some v)
    (h : Answered (Function.update ch c none)
      (Function.update phase c (.returned (.received v))) c') : Answered ch phase c' := by
  cases h with
  | inl h =>
      cases update_cases h with
      | inl hnew => cases hnew.2
      | inr hold => exact Or.inl hold.2
  | inr h =>
      cases update_cases h with
      | inl hnew =>
          have hv : v = .ok := by simpa using hnew.2
          exact Or.inl (by rw [hnew.1, hch, hv])
      | inr hold => exact Or.inr hold.2

theorem registered_of_phase {p : Phase} (hp : p ≠ .registered)
    (h : Function.update phase c p c' = .registered) : phase c' = .registered := by
  cases update_cases h with
  | inl hnew => exact absurd hnew.2 hp
  | inr hold => exact hold.2

theorem received_of_phase {p : Phase} (hp : ∀ v, p ≠ .returned (.received v))
    (h : Received (Function.update phase c p) c') :
    Received phase c' := by
  obtain ⟨v, hv⟩ := h
  cases update_cases hv with
  | inl hnew => exact absurd hnew.2 (hp v)
  | inr hold => exact ⟨v, hold.2⟩

end TomAgent.Uplink
