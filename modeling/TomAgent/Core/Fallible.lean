import Mathlib.Data.List.Forall2

/-!
# Checks in a row

A function that checks one thing after the other and stops at the first that fails.  It
succeeds if and only if every check does, and what the checks found is known then.
-/

namespace TomAgent.Fallible

universe u v

variable {ε : Type u} {α β : Type v}

def require (cond : Bool) (err : ε) : Except ε Unit :=
  if cond then .ok () else .error err

def orError (o : Option α) (err : ε) : Except ε α :=
  match o with
  | some a => .ok a
  | none => .error err

theorem bind_eq_ok {x : Except ε α} {f : α → Except ε β} {b : β} :
    (x >>= f) = .ok b ↔ ∃ a, x = .ok a ∧ f a = .ok b := by
  cases x with
  | error err => simp [bind, Except.bind]
  | ok a => simp [bind, Except.bind]

theorem require_eq_ok {cond : Bool} {err : ε} {u : Unit} :
    require cond err = .ok u ↔ cond = true := by
  cases cond <;> simp [require]

theorem require_bind_eq_ok {β : Type} {cond : Bool} {err : ε} {f : Unit → Except ε β} {b : β} :
    (require cond err >>= f) = .ok b ↔ cond = true ∧ f () = .ok b := by
  rw [bind_eq_ok]
  constructor
  · rintro ⟨u, hcond, hf⟩
    exact ⟨require_eq_ok.mp hcond, hf⟩
  · rintro ⟨hcond, hf⟩
    exact ⟨(), require_eq_ok.mpr hcond, hf⟩

theorem orError_eq_ok {o : Option α} {err : ε} {a : α} :
    orError o err = .ok a ↔ o = some a := by
  cases o <;> simp [orError]

theorem mapError_eq_ok {ε' : Type*} {x : Except ε α} {f : ε → ε'} {a : α} :
    x.mapError f = .ok a ↔ x = .ok a := by
  cases x with
  | error err => simp [Except.mapError]
  | ok a' => simp [Except.mapError]

theorem exists_of_forall₂ {R : α → β → Prop} {l : List α} {l' : List β}
    (h : List.Forall₂ R l l') {a : α} (ha : a ∈ l) : ∃ b ∈ l', R a b := by
  induction h with
  | nil => cases ha
  | cons hab _ ih =>
      rcases List.mem_cons.mp ha with rfl | ha
      · exact ⟨_, List.mem_cons_self, hab⟩
      · obtain ⟨b, hb, hR⟩ := ih ha
        exact ⟨b, List.mem_cons_of_mem _ hb, hR⟩

end TomAgent.Fallible
