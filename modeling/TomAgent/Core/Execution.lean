import Mathlib.Logic.Relation

/-!
# Runs of a transition relation

A run is a reflexive transitive closure of steps.  Every safety result of the
development is an instance of `invariant`: what holds initially and survives
one step holds in every state a run reaches.
-/

namespace TomAgent.Execution

variable {σ : Type*} {step : σ → σ → Prop}

abbrev Reaches (step : σ → σ → Prop) : σ → σ → Prop := Relation.ReflTransGen step

theorem invariant (Inv : σ → Prop) (hstep : ∀ s t, Inv s → step s t → Inv t) {s t : σ}
    (hs : Inv s) (hrun : Reaches step s t) : Inv t := by
  induction hrun with
  | refl => exact hs
  | tail _ hlast ih => exact hstep _ _ ih hlast

/-! ## Machines driven by events -/

variable {ε : Type*}

/-- The steps of a machine whose events meet a condition on the state before. -/
def Fires (next : σ → ε → Option σ) (may : σ → ε → Prop) (s t : σ) : Prop :=
  ∃ e, may s e ∧ next s e = some t

def play (next : σ → ε → Option σ) : σ → List ε → Option σ
  | s, [] => some s
  | s, e :: es => (next s e).bind fun t => play next t es

/-- Every event of the list meets the condition when its turn comes. -/
def Permitted (next : σ → ε → Option σ) (may : σ → ε → Prop) : σ → List ε → Prop
  | _, [] => True
  | s, e :: es => may s e ∧ ∀ t, next s e = some t → Permitted next may t es

theorem permitted_of_forall {next : σ → ε → Option σ} {may : σ → ε → Prop} {es : List ε}
    (h : ∀ e ∈ es, ∀ s, may s e) (s : σ) : Permitted next may s es := by
  induction es generalizing s with
  | nil => trivial
  | cons e es ih =>
      refine ⟨h e List.mem_cons_self s, fun t _ => ?_⟩
      exact ih (fun e' he' => h e' (List.mem_cons_of_mem e he')) t

def permits (next : σ → ε → Option σ) (test : σ → ε → Bool) : σ → List ε → Bool
  | _, [] => true
  | s, e :: es => test s e && (next s e).all fun t => permits next test t es

theorem permitted_of_permits {next : σ → ε → Option σ} {may : σ → ε → Prop} {test : σ → ε → Bool}
    (htest : ∀ s e, test s e = true → may s e) {es : List ε} {s : σ}
    (h : permits next test s es = true) : Permitted next may s es := by
  induction es generalizing s with
  | nil => trivial
  | cons e es ih =>
      obtain ⟨hfirst, hrest⟩ := Bool.and_eq_true_iff.mp h
      refine ⟨htest s e hfirst, fun t ht => ?_⟩
      rw [ht, Option.all_some] at hrest
      exact ih hrest

theorem permitted_of_decide {next : σ → ε → Option σ} {may : σ → ε → Prop}
    [∀ s e, Decidable (may s e)] {es : List ε} {s : σ}
    (h : permits next (fun s e => decide (may s e)) s es = true) : Permitted next may s es :=
  permitted_of_permits (fun _ _ => of_decide_eq_true) h

theorem reaches_of_play {next : σ → ε → Option σ} {may : σ → ε → Prop} {es : List ε} {s t : σ}
    (hmay : Permitted next may s es) (h : play next s es = some t) :
    Reaches (Fires next may) s t := by
  induction es generalizing s with
  | nil =>
      cases h
      exact Relation.ReflTransGen.refl
  | cons e es ih =>
      obtain ⟨m, hm, hrest⟩ := Option.bind_eq_some_iff.mp h
      exact Relation.ReflTransGen.head ⟨e, hmay.1, hm⟩ (ih (hmay.2 m hm) hrest)

/-- A property that holds at the end of a run, with the run. -/
theorem reaches_of_any (next : σ → ε → Option σ) {may : σ → ε → Prop} {s : σ} (es : List ε)
    (p : σ → Prop) [DecidablePred p] (hmay : Permitted next may s es)
    (h : (play next s es).any p = true) : ∃ t, Reaches (Fires next may) s t ∧ p t := by
  cases ht : play next s es with
  | none => simp [ht] at h
  | some t =>
      rw [ht, Option.any_some] at h
      exact ⟨t, reaches_of_play hmay ht, of_decide_eq_true h⟩

/-! ## Runs with their past -/

/-- A run with its steps, newest first: the state before each of them and its event.  What a
step may do can depend on the steps before it. -/
inductive Course (next : σ → ε → Option σ) (may : List (σ × ε) → σ → ε → Prop) (s : σ) :
    List (σ × ε) → σ → Prop
  | start : Course next may s [] s
  | step {past : List (σ × ε)} {t u : σ} {e : ε} (hrun : Course next may s past t)
      (hmay : may past t e) (hnext : next t e = some u) :
      Course next may s ((t, e) :: past) u

section Course

variable {next : σ → ε → Option σ} {may : List (σ × ε) → σ → ε → Prop}

theorem Course.invariant (Inv : List (σ × ε) → σ → Prop) {s t : σ} {past : List (σ × ε)}
    (hs : Inv [] s)
    (hstep : ∀ past t e u, Inv past t → may past t e → next t e = some u → Inv ((t, e) :: past) u)
    (hrun : Course next may s past t) : Inv past t := by
  induction hrun with
  | start => exact hs
  | step _ hmay hnext ih => exact hstep _ _ _ _ ih hmay hnext

def follow (next : σ → ε → Option σ) (may : List (σ × ε) → σ → ε → Prop)
    [∀ past s e, Decidable (may past s e)] :
    List (σ × ε) → σ → List ε → Option (List (σ × ε) × σ)
  | past, s, [] => some (past, s)
  | past, s, e :: es =>
      if may past s e then (next s e).bind fun t => follow next may ((s, e) :: past) t es
      else none

theorem course_of_follow [∀ past s e, Decidable (may past s e)] {s t u : σ}
    {past past' : List (σ × ε)} {es : List ε} (hrun : Course next may s past t)
    (h : follow next may past t es = some (past', u)) : Course next may s past' u := by
  induction es generalizing past t with
  | nil =>
      cases h
      exact hrun
  | cons e es ih =>
      unfold follow at h
      split at h
      next hmay =>
        obtain ⟨m, hm, hrest⟩ := Option.bind_eq_some_iff.mp h
        exact ih (hrun.step hmay hm) hrest
      next => cases h

/-- A property of a run and of its end, with the run. -/
theorem course_of_any (next : σ → ε → Option σ) (may : List (σ × ε) → σ → ε → Prop)
    [∀ past s e, Decidable (may past s e)] {s : σ} (es : List ε)
    (p : List (σ × ε) → σ → Prop) [∀ past t, Decidable (p past t)]
    (h : (follow next may [] s es).any (fun r => p r.1 r.2) = true) :
    ∃ past t, Course next may s past t ∧ p past t := by
  cases hr : follow next may [] s es with
  | none => simp [hr] at h
  | some r =>
      rw [hr, Option.any_some] at h
      exact ⟨r.1, r.2, course_of_follow .start hr, of_decide_eq_true h⟩

end Course

end TomAgent.Execution
