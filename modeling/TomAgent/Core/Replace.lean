import Mathlib.Algebra.Order.Ring.Nat
import Mathlib.Data.List.Infix

/-!
# Replacing in a text

One scan from the left: where a rule applies, a number of letters is replaced and the
scan goes on behind them; all other letters are copied.  `strings.ReplaceAll` is the
scan for the occurrences of one word.
-/

namespace TomAgent.Replace

variable {α β : Type*}

/-- The scan; the first `skip` letters belong to what was replaced last. -/
def rewrite (rule : List β → Option (Nat × List β)) : Nat → List β → List β
  | _, [] => []
  | skip + 1, _ :: s => rewrite rule skip s
  | 0, c :: s =>
      match rule (c :: s) with
      | some (width, new) => new ++ rewrite rule (width - 1) s
      | none => c :: rewrite rule 0 s

@[simp] theorem rewrite_nil (rule : List β → Option (Nat × List β)) (skip : Nat) :
    rewrite rule skip [] = [] := by
  cases skip <;> rfl

@[simp] theorem rewrite_skip (rule : List β → Option (Nat × List β)) (skip : Nat) (c : β)
    (s : List β) : rewrite rule (skip + 1) (c :: s) = rewrite rule skip s := rfl

theorem rewrite_cons_of_none {rule : List β → Option (Nat × List β)} {c : β} {s : List β}
    (h : rule (c :: s) = none) : rewrite rule 0 (c :: s) = c :: rewrite rule 0 s := by
  simp only [rewrite, h]

theorem rewrite_cons_of_some {rule : List β → Option (Nat × List β)} {c : β} {s : List β}
    {width : Nat} {new : List β} (h : rule (c :: s) = some (width, new)) :
    rewrite rule 0 (c :: s) = new ++ rewrite rule (width - 1) s := by
  simp only [rewrite, h]

theorem rewrite_drop (rule : List β → Option (Nat × List β)) (skip : Nat) (s : List β) :
    rewrite rule skip s = rewrite rule 0 (s.drop skip) := by
  induction s generalizing skip with
  | nil => simp
  | cons c s ih =>
      cases skip with
      | zero => rfl
      | succ skip =>
          rw [rewrite_skip, List.drop_succ_cons]
          exact ih skip

/-- What was found is replaced and the scan goes on behind it. -/
theorem rewrite_append_of_some {rule : List β → Option (Nat × List β)} {old s new : List β}
    (hne : old ≠ []) (h : rule (old ++ s) = some (old.length, new)) :
    rewrite rule 0 (old ++ s) = new ++ rewrite rule 0 s := by
  cases old with
  | nil => exact absurd rfl hne
  | cons c old =>
      rw [List.cons_append] at h ⊢
      rw [rewrite_cons_of_some h, rewrite_drop]
      simp

/-- Letters at which the rule does not apply are copied. -/
theorem rewrite_append_of_none {rule : List β → Option (Nat × List β)} {front s : List β}
    (h : ∀ t, t <:+ front → t ≠ [] → rule (t ++ s) = none) :
    rewrite rule 0 (front ++ s) = front ++ rewrite rule 0 s := by
  induction front with
  | nil => rfl
  | cons c front ih =>
      have hhere := h (c :: front) (List.suffix_refl _) (List.cons_ne_nil c front)
      rw [List.cons_append] at hhere ⊢
      rw [rewrite_cons_of_none hhere,
        ih fun t ht hne => h t (ht.trans (List.suffix_cons c front)) hne]
      rfl

/-- Rules that agree on what is left of a text give the same text. -/
theorem rewrite_congr {rule rule' : List β → Option (Nat × List β)} {s : List β}
    (h : ∀ t, t <:+ s → t ≠ [] → rule t = rule' t) (skip : Nat) :
    rewrite rule skip s = rewrite rule' skip s := by
  induction s generalizing skip with
  | nil => simp
  | cons c s ih =>
      have hrest := ih fun t ht hne => h t (ht.trans (List.suffix_cons c s)) hne
      cases skip with
      | succ skip => exact hrest skip
      | zero =>
          have hhere := h (c :: s) (List.suffix_refl _) (List.cons_ne_nil c s)
          cases hrule : rule (c :: s) with
          | none =>
              rw [rewrite_cons_of_none hrule, rewrite_cons_of_none (hhere ▸ hrule), hrest]
          | some r =>
              rw [rewrite_cons_of_some hrule, rewrite_cons_of_some (hhere ▸ hrule), hrest]

theorem rewrite_of_none {rule : List β → Option (Nat × List β)} {s : List β}
    (h : ∀ t, t <:+ s → t ≠ [] → rule t = none) : rewrite rule 0 s = s := by
  induction s with
  | nil => rfl
  | cons c s ih =>
      rw [rewrite_cons_of_none (h (c :: s) (List.suffix_refl _) (List.cons_ne_nil c s)),
        ih fun t ht hne => h t (ht.trans (List.suffix_cons c s)) hne]

/-- Letters may carry more than the rule looks at. -/
theorem map_rewrite (f : β → α) {rule : List β → Option (Nat × List β)}
    {rule' : List α → Option (Nat × List α)}
    (h : ∀ t, rule' (t.map f) = (rule t).map fun r => (r.1, r.2.map f)) (skip : Nat)
    (s : List β) : (rewrite rule skip s).map f = rewrite rule' skip (s.map f) := by
  induction s generalizing skip with
  | nil => simp
  | cons c s ih =>
      cases skip with
      | succ skip => exact ih skip
      | zero =>
          have hhere := h (c :: s)
          cases hrule : rule (c :: s) with
          | none =>
              rw [hrule, Option.map_none, List.map_cons] at hhere
              rw [rewrite_cons_of_none hrule, List.map_cons, List.map_cons,
                rewrite_cons_of_none hhere, ih]
          | some r =>
              rw [hrule, Option.map_some, List.map_cons] at hhere
              rw [rewrite_cons_of_some hrule, List.map_append, List.map_cons,
                rewrite_cons_of_some hhere, ih]

/-- Every letter was there or is one of a replacement. -/
theorem mem_rewrite {rule : List β → Option (Nat × List β)} {skip : Nat} {s : List β} {b : β}
    (h : b ∈ rewrite rule skip s) :
    b ∈ s ∨ ∃ t width new, rule t = some (width, new) ∧ b ∈ new := by
  induction s generalizing skip with
  | nil => simp at h
  | cons c s ih =>
      have hlater : ∀ skip, b ∈ rewrite rule skip s →
          b ∈ c :: s ∨ ∃ t width new, rule t = some (width, new) ∧ b ∈ new :=
        fun skip hmem => (ih hmem).imp_left (List.mem_cons_of_mem c)
      cases skip with
      | succ skip => exact hlater skip h
      | zero =>
          cases hrule : rule (c :: s) with
          | none =>
              rw [rewrite_cons_of_none hrule] at h
              rcases List.mem_cons.mp h with rfl | h
              · exact .inl List.mem_cons_self
              · exact hlater 0 h
          | some r =>
              rw [rewrite_cons_of_some hrule] at h
              rcases List.mem_append.mp h with h | h
              · exact .inr ⟨c :: s, r.1, r.2, hrule, h⟩
              · exact hlater _ h

def found (rule : List β → Option (Nat × List β)) : Nat → List β → List (List β)
  | _, [] => []
  | skip + 1, _ :: s => found rule skip s
  | 0, c :: s =>
      match rule (c :: s) with
      | some (width, _) => (c :: s).take width :: found rule (width - 1) s
      | none => found rule 0 s

theorem found_cons_of_none {rule : List β → Option (Nat × List β)} {c : β} {s : List β}
    (h : rule (c :: s) = none) : found rule 0 (c :: s) = found rule 0 s := by
  simp only [found, h]

theorem found_cons_of_some {rule : List β → Option (Nat × List β)} {c : β} {s : List β}
    {width : Nat} {new : List β} (h : rule (c :: s) = some (width, new)) :
    found rule 0 (c :: s) = (c :: s).take width :: found rule (width - 1) s := by
  simp only [found, h]

/-! ## One word -/

variable [DecidableEq α]

def wordRule (old new : List α) (s : List α) : Option (Nat × List α) :=
  if old <+: s then some (old.length, new) else none

/-- `strings.ReplaceAll` for a word that is not empty. -/
def replaceAll (s old new : List α) : List α := rewrite (wordRule old new) 0 s

theorem replaceAll_of_absent {s old : List α} (h : ¬ old <:+: s) (new : List α) :
    replaceAll s old new = s := by
  apply rewrite_of_none
  intro t ht _
  exact if_neg fun hp => h (hp.isInfix.trans ht.isInfix)

theorem replaceAll_of_notMem {s old : List α} {c : α} (hc : c ∈ old) (h : c ∉ s) (new : List α) :
    replaceAll s old new = s :=
  replaceAll_of_absent (fun hwithin => h (hwithin.subset hc)) new

theorem replaceAll_self {old : List α} (hne : old ≠ []) (new : List α) :
    replaceAll old old new = new := by
  have hrule : wordRule old new (old ++ []) = some (old.length, new) :=
    if_pos (List.prefix_append old [])
  have hscan := rewrite_append_of_some hne hrule
  rw [List.append_nil, rewrite_nil, List.append_nil] at hscan
  exact hscan

end TomAgent.Replace
