import Mathlib.Data.List.Nodup
import TomAgent.Core.Replace

/-!
# Filling a template in

Several words of a template are replaced by values, one word after the other.  The
letters of the template carry their position and those of a value carry none, so that
one can say which replaced words were words of the template.  If no others are replaced
and words of the template do not overlap, this is the same as filling in all values at
once, and the order makes no difference.
-/

namespace TomAgent.Filling

open Replace

variable {α : Type*}

/-- A letter and its position in the template; a letter of a value has none. -/
abbrev Traced (α : Type*) := α × Option Nat

abbrev Entry (α : Type*) := List α × List α

def traceFrom : Nat → List α → List (Traced α)
  | _, [] => []
  | i, a :: s => (a, some i) :: traceFrom (i + 1) s

def trace (s : List α) : List (Traced α) := traceFrom 0 s

def letters (t : List (Traced α)) : List α := t.map Prod.fst

def literal (v : List α) : List (Traced α) := v.map fun a => (a, none)

def isPieceFrom : Nat → List (Traced α) → Bool
  | _, [] => true
  | i, c :: t => c.2 == some i && isPieceFrom (i + 1) t

/-- The letters stand next to each other in the template. -/
def isPiece : List (Traced α) → Bool
  | [] => true
  | (_, none) :: _ => false
  | (_, some i) :: t => isPieceFrom (i + 1) t

@[simp] theorem letters_traceFrom (i : Nat) (s : List α) : letters (traceFrom i s) = s := by
  induction s generalizing i with
  | nil => rfl
  | cons a s ih =>
      have hrest := ih (i + 1)
      rw [letters] at hrest ⊢
      rw [traceFrom, List.map_cons, hrest]

@[simp] theorem letters_literal (v : List α) : letters (literal v) = v := by
  rw [letters, literal, List.map_map]
  exact List.map_id v

@[simp] theorem length_traceFrom (i : Nat) (s : List α) : (traceFrom i s).length = s.length := by
  rw [← List.length_map Prod.fst, ← letters, letters_traceFrom]

theorem traceFrom_ne_nil {s : List α} (h : s ≠ []) (i : Nat) : traceFrom i s ≠ [] := by
  rw [← List.length_pos_iff, length_traceFrom]
  exact List.length_pos_iff.mpr h

theorem traceFrom_append (i : Nat) (s r : List α) :
    traceFrom i (s ++ r) = traceFrom i s ++ traceFrom (i + s.length) r := by
  induction s generalizing i with
  | nil => rfl
  | cons a s ih =>
      rw [List.cons_append, traceFrom, ih, traceFrom, List.cons_append, List.length_cons,
        Nat.add_right_comm, Nat.add_assoc]

theorem rewrite_word {rule : List (Traced α) → Option (Nat × List (Traced α))} {i : Nat}
    {w r : List α} {new : List (Traced α)} (hw : w ≠ [])
    (h : rule (traceFrom i (w ++ r)) = some (w.length, new)) :
    rewrite rule 0 (traceFrom i (w ++ r)) = new ++ rewrite rule 0 (traceFrom (i + w.length) r) := by
  rw [← length_traceFrom i w, traceFrom_append] at h
  rw [traceFrom_append, rewrite_append_of_some (traceFrom_ne_nil hw i) h]

theorem le_of_mem_traceFrom {i : Nat} {s : List α} {c : Traced α} (h : c ∈ traceFrom i s) {j : Nat}
    (hj : c.2 = some j) : i ≤ j := by
  induction s generalizing i with
  | nil => cases h
  | cons a s ih =>
      rcases List.mem_cons.mp h with rfl | h
      · exact Nat.le_of_eq (Option.some.inj hj)
      · exact Nat.le_of_succ_le (ih h)

theorem isPieceFrom_traceFrom (i : Nat) (s : List α) : isPieceFrom i (traceFrom i s) = true := by
  induction s generalizing i with
  | nil => rfl
  | cons a s ih => simp [traceFrom, isPieceFrom, ih]

theorem isPiece_traceFrom (i : Nat) (s : List α) : isPiece (traceFrom i s) = true := by
  cases s with
  | nil => rfl
  | cons a s => exact isPieceFrom_traceFrom (i + 1) s

/-- Different words do not overlap in the text. -/
def Apart (entries : List (Entry α)) (s : List α) : Prop :=
  ∀ e ∈ entries, ∀ e' ∈ entries, e.1 ≠ e'.1 → ∀ i j, e.1 <+: s.drop i → e'.1 <+: s.drop j →
    i + e.1.length ≤ j ∨ j + e'.1.length ≤ i

theorem Apart.drop {entries : List (Entry α)} {s : List α} (h : Apart entries s) (n : Nat) :
    Apart entries (s.drop n) := by
  intro e he e' he' hne i j hi hj
  rw [List.drop_drop] at hi hj
  have hapart := h e he e' he' hne _ _ hi hj
  omega

theorem Apart.mono {entries entries' : List (Entry α)} {s : List α} (h : Apart entries s)
    (hsub : entries' ⊆ entries) : Apart entries' s :=
  fun e he e' he' => h e (hsub he) e' (hsub he')

variable [DecidableEq α]

/-! ## One word -/

def plainRule (e : Entry α) (t : List (Traced α)) : Option (Nat × List (Traced α)) :=
  if e.1 <+: letters t then some (e.1.length, literal e.2) else none

/-- The word is replaced where it is a word of the template. -/
def fillRule (e : Entry α) (t : List (Traced α)) : Option (Nat × List (Traced α)) :=
  if e.1 <+: letters t ∧ isPiece (t.take e.1.length) = true then some (e.1.length, literal e.2)
  else none

def OnlyPieces (e : Entry α) (t : List (Traced α)) : Prop :=
  ∀ occurrence ∈ found (plainRule e) 0 t, isPiece occurrence = true

instance (e : Entry α) (t : List (Traced α)) : Decidable (OnlyPieces e t) :=
  inferInstanceAs (Decidable (∀ occurrence ∈ _, _))

theorem letters_rewrite_plain (e : Entry α) (t : List (Traced α)) :
    letters (rewrite (plainRule e) 0 t) = replaceAll (letters t) e.1 e.2 := by
  refine map_rewrite Prod.fst ?_ 0 t
  intro t
  have hvalue : (literal e.2).map Prod.fst = e.2 := letters_literal e.2
  unfold wordRule plainRule letters
  split
  · rw [Option.map_some, hvalue]
  · rfl

theorem fillRule_word (e : Entry α) (i : Nat) (t : List (Traced α)) :
    fillRule e (traceFrom i e.1 ++ t) = some ((traceFrom i e.1).length, literal e.2) := by
  rw [length_traceFrom]
  refine if_pos ⟨?_, ?_⟩
  · rw [letters, List.map_append, ← letters, letters_traceFrom]
    exact List.prefix_append _ _
  · rw [← length_traceFrom i e.1, List.take_left]
    exact isPiece_traceFrom i e.1

theorem rewrite_fill_of_onlyPieces {e : Entry α} {t : List (Traced α)} (h : OnlyPieces e t) :
    rewrite (fillRule e) 0 t = rewrite (plainRule e) 0 t := by
  suffices hskip : ∀ skip, (∀ occurrence ∈ found (plainRule e) skip t, isPiece occurrence = true) →
      rewrite (fillRule e) skip t = rewrite (plainRule e) skip t from hskip 0 h
  clear h
  induction t with
  | nil => simp
  | cons c t ih =>
      intro skip hpieces
      cases skip with
      | succ skip => exact ih skip hpieces
      | zero =>
          by_cases hword : e.1 <+: letters (c :: t)
          · have hplain : plainRule e (c :: t) = some (e.1.length, literal e.2) := if_pos hword
            rw [found_cons_of_some hplain] at hpieces
            have hfill : fillRule e (c :: t) = some (e.1.length, literal e.2) :=
              if_pos ⟨hword, hpieces _ List.mem_cons_self⟩
            rw [rewrite_cons_of_some hplain, rewrite_cons_of_some hfill,
              ih _ fun occurrence hmem => hpieces occurrence (List.mem_cons_of_mem _ hmem)]
          · have hplain : plainRule e (c :: t) = none := if_neg hword
            have hfill : fillRule e (c :: t) = none := if_neg fun hboth => hword hboth.1
            rw [found_cons_of_none hplain] at hpieces
            rw [rewrite_cons_of_none hplain, rewrite_cons_of_none hfill, ih 0 hpieces]

/-! ## One word after the other -/

theorem forall_split_cons {β : Type*} {P : List β → β → Prop} {a : β} {l : List β} :
    (∀ before x after, a :: l = before ++ x :: after → P before x) ↔
      P [] a ∧ ∀ before x after, l = before ++ x :: after → P (a :: before) x := by
  constructor
  · intro h
    refine ⟨h [] a l rfl, ?_⟩
    intro before x after heq
    exact h (a :: before) x after (by rw [heq]; rfl)
  · intro h before x after heq
    cases before with
    | nil =>
        obtain ⟨rfl, -⟩ := List.cons.inj heq
        exact h.1
    | cons b before =>
        obtain ⟨rfl, htail⟩ := List.cons.inj heq
        exact h.2 before x after htail

def replaceEach (entries : List (Entry α)) (s : List α) : List α :=
  entries.foldl (fun s e => replaceAll s e.1 e.2) s

def traceEach (entries : List (Entry α)) (t : List (Traced α)) : List (Traced α) :=
  entries.foldl (fun t e => rewrite (plainRule e) 0 t) t

def fillEach (entries : List (Entry α)) (t : List (Traced α)) : List (Traced α) :=
  entries.foldl (fun t e => rewrite (fillRule e) 0 t) t

/-- No word is replaced, on the way through all of them, that is not a word of the template:
nothing of a value, and nothing that a value is a part of. -/
def Verbatim (entries : List (Entry α)) (t : List (Traced α)) : Prop :=
  ∀ before e after, entries = before ++ e :: after → OnlyPieces e (traceEach before t)

theorem letters_traceEach (entries : List (Entry α)) (t : List (Traced α)) :
    letters (traceEach entries t) = replaceEach entries (letters t) := by
  induction entries generalizing t with
  | nil => rfl
  | cons e entries ih =>
      rw [traceEach, replaceEach, List.foldl_cons, List.foldl_cons, ← letters_rewrite_plain]
      exact ih _

theorem verbatim_cons {e : Entry α} {entries : List (Entry α)} {t : List (Traced α)} :
    Verbatim (e :: entries) t ↔
      OnlyPieces e t ∧ Verbatim entries (rewrite (plainRule e) 0 t) := forall_split_cons

/-- Whether nothing else is replaced can be told from the template alone. -/
theorem verbatim_iff_fillEach (entries : List (Entry α)) (t : List (Traced α)) :
    Verbatim entries t ↔
      ∀ before e after, entries = before ++ e :: after → OnlyPieces e (fillEach before t) := by
  induction entries generalizing t with
  | nil =>
      constructor
      · intro _ before e after heq
        simp at heq
      · intro _ before e after heq
        simp at heq
  | cons e entries ih =>
      rw [verbatim_cons, forall_split_cons]
      refine and_congr_right fun hfirst : OnlyPieces e t => ?_
      rw [← rewrite_fill_of_onlyPieces hfirst]
      exact ih _

theorem traceEach_eq_fillEach {entries : List (Entry α)} {t : List (Traced α)}
    (h : Verbatim entries t) : traceEach entries t = fillEach entries t := by
  induction entries generalizing t with
  | nil => rfl
  | cons e entries ih =>
      obtain ⟨hfirst, hrest⟩ := verbatim_cons.mp h
      rw [traceEach, fillEach, List.foldl_cons, List.foldl_cons, rewrite_fill_of_onlyPieces hfirst]
      exact ih hrest

/-! ## All words at once -/

def onceRule (entries : List (Entry α)) (t : List (Traced α)) : Option (Nat × List (Traced α)) :=
  (entries.find? fun e => e.1 <+: letters t).map fun e => (e.1.length, literal e.2)

/-- The template with the values of all entries, none of which is looked at. -/
def fillAtOnce (entries : List (Entry α)) (t : List (Traced α)) : List (Traced α) :=
  rewrite (onceRule entries) 0 t

theorem onceRule_eq_none {entries : List (Entry α)} {t : List (Traced α)} :
    onceRule entries t = none ↔ ∀ e ∈ entries, ¬ e.1 <+: letters t := by
  simp [onceRule]

theorem onceRule_of_find {entries : List (Entry α)} {t : List (Traced α)} {e : Entry α}
    (h : entries.find? (fun e => e.1 <+: letters t) = some e) :
    onceRule entries t = some (e.1.length, literal e.2) := by
  rw [onceRule, h, Option.map_some]

theorem mem_of_mem_rewrite_once {entries : List (Entry α)} {skip : Nat} {t : List (Traced α)}
    {c : Traced α} (h : c ∈ rewrite (onceRule entries) skip t) {j : Nat} (hj : c.2 = some j) :
    c ∈ t := by
  refine (mem_rewrite h).resolve_right ?_
  rintro ⟨t', width, new, hrule, hmem⟩
  obtain ⟨e, -, heq⟩ := Option.map_eq_some_iff.mp hrule
  obtain ⟨-, rfl⟩ := Prod.mk.inj heq
  obtain ⟨a, -, rfl⟩ := List.mem_map.mp hmem
  cases hj

/-- A piece at the beginning of the filled template is the beginning of the template. -/
theorem piece_of_fillAtOnce {entries : List (Entry α)} {i : Nat} {s : List α}
    {front : List (Traced α)} (hfront : front <+: fillAtOnce entries (traceFrom i s))
    (hpiece : isPieceFrom i front = true) : front <+: traceFrom i s := by
  induction front generalizing i s with
  | nil => exact List.nil_prefix
  | cons c front ih =>
      rw [isPieceFrom, Bool.and_eq_true, beq_iff_eq] at hpiece
      cases s with
      | nil =>
          have hnil := List.prefix_nil.mp hfront
          cases hnil
      | cons a s =>
          rw [traceFrom] at hfront ⊢
          cases hrule : onceRule entries ((a, some i) :: traceFrom (i + 1) s) with
          | none =>
              rw [fillAtOnce, rewrite_cons_of_none hrule, List.cons_prefix_cons] at hfront
              exact List.cons_prefix_cons.mpr ⟨hfront.1, ih hfront.2 hpiece.2⟩
          | some r =>
              -- the first letter would have to be behind the replaced word
              exfalso
              obtain ⟨e, -, rfl⟩ := Option.map_eq_some_iff.mp hrule
              rw [fillAtOnce, rewrite_cons_of_some hrule] at hfront
              rcases List.mem_append.mp (hfront.subset List.mem_cons_self) with hmem | hmem
              · obtain ⟨b, -, rfl⟩ := List.mem_map.mp hmem
                cases hpiece.1
              · have hlater := le_of_mem_traceFrom (mem_of_mem_rewrite_once hmem hpiece.1) hpiece.1
                omega

/-- Values are passed over. -/
theorem rewrite_fill_literal {e : Entry α} (hword : e.1 ≠ []) (v : List α) (t : List (Traced α)) :
    rewrite (fillRule e) 0 (literal v ++ t) = literal v ++ rewrite (fillRule e) 0 t := by
  apply rewrite_append_of_none
  intro s hs hne
  refine if_neg ?_
  rintro ⟨-, hpiece⟩
  cases s with
  | nil => exact hne rfl
  | cons c s =>
      obtain ⟨a, -, rfl⟩ := List.mem_map.mp (hs.subset List.mem_cons_self)
      cases hlength : e.1.length with
      | zero => exact hword (List.eq_nil_of_length_eq_zero hlength)
      | succ n =>
          rw [hlength] at hpiece
          cases hpiece

theorem fillAtOnce_found {entries : List (Entry α)} {f : Entry α} {r : List α}
    (hf : f.1 ≠ []) (h : entries.find? (fun e => e.1 <+: f.1 ++ r) = some f) (i : Nat) :
    fillAtOnce entries (traceFrom i (f.1 ++ r)) =
      literal f.2 ++ fillAtOnce entries (traceFrom (i + f.1.length) r) :=
  rewrite_word hf (onceRule_of_find (by rw [letters_traceFrom]; exact h))

/-- A word that is apart from those of the entries is left alone. -/
theorem fillAtOnce_apart {entries : List (Entry α)} {e : Entry α} {r : List α}
    (hwords : ∀ e' ∈ entries, e'.1 ≠ []) (hnew : ∀ e' ∈ entries, e'.1 ≠ e.1)
    (hapart : Apart (entries ++ [e]) (e.1 ++ r)) (i : Nat) :
    fillAtOnce entries (traceFrom i (e.1 ++ r)) =
      traceFrom i e.1 ++ fillAtOnce entries (traceFrom (i + e.1.length) r) := by
  rw [traceFrom_append]
  apply rewrite_append_of_none
  intro t ht hne
  rw [onceRule_eq_none]
  intro e' he' hoccurs
  obtain ⟨front, hsplit⟩ := ht
  have hlength : front.length + t.length = e.1.length := by
    rw [← List.length_append, hsplit, length_traceFrom]
  have hletters : letters (t ++ traceFrom (i + e.1.length) r) = (e.1 ++ r).drop front.length := by
    have hall : letters (front ++ (t ++ traceFrom (i + e.1.length) r)) = e.1 ++ r := by
      rw [← List.append_assoc, hsplit, ← traceFrom_append, letters_traceFrom]
    rw [← hall, letters, letters, ← List.map_drop, List.drop_left]
  rw [hletters] at hoccurs
  have hover := hapart e' (List.mem_append_left _ he') e (by simp) (hnew e' he') front.length 0
    hoccurs (List.prefix_append e.1 r)
  have htail := List.length_pos_iff.mpr hne
  have hother := List.length_pos_iff.mpr (hwords e' he')
  omega

theorem fillAtOnce_cons {entries : List (Entry α)} {a : α} {s : List α}
    (h : ∀ e ∈ entries, ¬ e.1 <+: a :: s) (i : Nat) :
    fillAtOnce entries (traceFrom i (a :: s)) =
      (a, some i) :: fillAtOnce entries (traceFrom (i + 1) s) := by
  refine rewrite_cons_of_none (onceRule_eq_none.mpr ?_)
  change ∀ e ∈ entries, ¬ e.1 <+: letters (traceFrom i (a :: s))
  rw [letters_traceFrom]
  exact h

theorem fillRule_fillAtOnce_eq_none {entries : List (Entry α)} {e : Entry α} {a : α} {s : List α}
    (hword : e.1 ≠ []) (hnone : ∀ e' ∈ entries, ¬ e'.1 <+: a :: s) (habsent : ¬ e.1 <+: a :: s)
    (i : Nat) : fillRule e (fillAtOnce entries (traceFrom i (a :: s))) = none := by
  refine if_neg ?_
  rintro ⟨hletters, hpiece⟩
  have htake : ((fillAtOnce entries (traceFrom i (a :: s))).take e.1.length) <+:
      fillAtOnce entries (traceFrom i (a :: s)) := List.take_prefix _ _
  have hfrom :
      isPieceFrom i ((fillAtOnce entries (traceFrom i (a :: s))).take e.1.length) = true := by
    cases hlength : e.1.length with
    | zero => exact absurd (List.eq_nil_of_length_eq_zero hlength) hword
    | succ n =>
        rw [hlength, fillAtOnce_cons hnone] at hpiece
        rw [fillAtOnce_cons hnone, List.take_succ_cons, isPieceFrom, beq_self_eq_true,
          Bool.true_and]
        exact hpiece
  have hfront := (piece_of_fillAtOnce htake hfrom).map Prod.fst
  have htemplate : (traceFrom i (a :: s)).map Prod.fst = a :: s := letters_traceFrom i (a :: s)
  rw [List.map_take, htemplate] at hfront
  have hsame : (letters (fillAtOnce entries (traceFrom i (a :: s)))).take e.1.length = e.1 :=
    (List.prefix_iff_eq_take.mp hletters).symm
  rw [letters] at hsame
  rw [hsame] at hfront
  exact habsent hfront

/-- One more word, filled in after the others or together with them. -/
theorem fill_fillAtOnce {entries : List (Entry α)} {e : Entry α} {s : List α}
    (hwords : ∀ e' ∈ entries ++ [e], e'.1 ≠ []) (hnew : ∀ e' ∈ entries, e'.1 ≠ e.1)
    (hapart : Apart (entries ++ [e]) s) (i : Nat) :
    rewrite (fillRule e) 0 (fillAtOnce entries (traceFrom i s)) =
      fillAtOnce (entries ++ [e]) (traceFrom i s) := by
  have hword : e.1 ≠ [] := hwords e (by simp)
  have hothers : ∀ e' ∈ entries, e'.1 ≠ [] := fun e' he' => hwords e' (List.mem_append_left _ he')
  induction hn : s.length using Nat.strong_induction_on generalizing s i with
  | _ n ih =>
    -- the same holds behind a word or a letter
    have hbehind : ∀ w r : List α, w ≠ [] → s = w ++ r → ∀ k,
        rewrite (fillRule e) 0 (fillAtOnce entries (traceFrom k r)) =
          fillAtOnce (entries ++ [e]) (traceFrom k r) := by
      intro w r hw hs k
      have hr : Apart (entries ++ [e]) r := by
        have hdrop := hapart.drop w.length
        rwa [hs, List.drop_left] at hdrop
      have hpos := List.length_pos_iff.mpr hw
      have hshort : s.length = w.length + r.length := by rw [hs, List.length_append]
      exact ih r.length (by omega) hr k rfl
    cases hfind : entries.find? fun e' => e'.1 <+: s with
    | some f =>
        have hf : f.1 <+: s := by simpa using List.find?_some hfind
        have hfne : f.1 ≠ [] := hothers f (List.mem_of_find?_eq_some hfind)
        obtain ⟨r, rfl⟩ := hf
        have hboth : (entries ++ [e]).find? (fun e' => e'.1 <+: f.1 ++ r) = some f := by
          rw [List.find?_append, hfind, Option.some_or]
        rw [fillAtOnce_found hfne hfind, rewrite_fill_literal hword, fillAtOnce_found hfne hboth,
          hbehind f.1 r hfne rfl]
    | none =>
        have hnone : ∀ e' ∈ entries, ¬ e'.1 <+: s := by simpa using List.find?_eq_none.mp hfind
        by_cases hhere : e.1 <+: s
        · obtain ⟨r, rfl⟩ := hhere
          have hboth : (entries ++ [e]).find? (fun e' => e'.1 <+: e.1 ++ r) = some e := by
            rw [List.find?_append, hfind, Option.none_or]
            simp
          rw [fillAtOnce_apart hothers hnew hapart,
            rewrite_append_of_some (traceFrom_ne_nil hword i) (fillRule_word e i _),
            hbehind e.1 r hword rfl, fillAtOnce_found hword hboth]
        · cases s with
          | nil => simp [traceFrom, fillAtOnce]
          | cons a s =>
              have hrule := fillRule_fillAtOnce_eq_none hword hnone hhere i
              have hboth : ∀ e' ∈ entries ++ [e], ¬ e'.1 <+: a :: s := by
                intro e' he'
                rcases List.mem_append.mp he' with he' | he'
                · exact hnone e' he'
                · rw [List.mem_singleton.mp he']
                  exact hhere
              rw [fillAtOnce_cons hnone] at hrule ⊢
              rw [rewrite_cons_of_none hrule, hbehind [a] s (List.cons_ne_nil a []) rfl,
                fillAtOnce_cons hboth]

/-- One word after the other is all of them at once. -/
theorem fillEach_eq_fillAtOnce {entries : List (Entry α)} {s : List α}
    (hwords : ∀ e ∈ entries, e.1 ≠ []) (hdistinct : (entries.map Prod.fst).Nodup)
    (hapart : Apart entries s) : fillEach entries (trace s) = fillAtOnce entries (trace s) := by
  induction entries using List.reverseRecOn with
  | nil =>
      refine (rewrite_of_none ?_).symm
      intro t _ _
      rfl
  | append_singleton entries e ih =>
      rw [List.map_append, List.nodup_append] at hdistinct
      have hnew : ∀ e' ∈ entries, e'.1 ≠ e.1 := by
        intro e' he'
        exact hdistinct.2.2 e'.1 (List.mem_map_of_mem he') e.1 (by simp)
      have hothers := ih (fun e' he' => hwords e' (List.mem_append_left _ he')) hdistinct.1
        (hapart.mono (List.subset_append_left _ _))
      have hlast : fillEach (entries ++ [e]) (trace s) =
          rewrite (fillRule e) 0 (fillEach entries (trace s)) := List.foldl_append
      rw [hlast, hothers]
      exact fill_fillAtOnce hwords hnew hapart 0

theorem Apart.eq_of_begins {entries : List (Entry α)} {s : List α} (hapart : Apart entries s)
    (hwords : ∀ e ∈ entries, e.1 ≠ []) (hdistinct : (entries.map Prod.fst).Nodup) {i : Nat}
    {e e' : Entry α} (he : e ∈ entries) (he' : e' ∈ entries) (h : e.1 <+: s.drop i)
    (h' : e'.1 <+: s.drop i) : e = e' := by
  by_contra hne
  have hword : e.1 ≠ e'.1 := fun heq => hne (List.inj_on_of_nodup_map hdistinct he he' heq)
  have hover := hapart e he e' he' hword i i h h'
  have hpos := List.length_pos_iff.mpr (hwords e he)
  have hpos' := List.length_pos_iff.mpr (hwords e' he')
  omega

/-- At once there is no order. -/
theorem fillAtOnce_perm {entries entries' : List (Entry α)} {s : List α}
    (hperm : entries.Perm entries') (hwords : ∀ e ∈ entries, e.1 ≠ [])
    (hdistinct : (entries.map Prod.fst).Nodup) (hapart : Apart entries s) :
    fillAtOnce entries (trace s) = fillAtOnce entries' (trace s) := by
  apply rewrite_congr
  intro t ht _
  have hletters : ∃ i, letters t = s.drop i := by
    obtain ⟨front, hsplit⟩ := ht
    refine ⟨front.length, ?_⟩
    rw [← letters_traceFrom 0 s, ← trace, ← hsplit, letters, letters, ← List.map_drop,
      List.drop_left]
  obtain ⟨i, hletters⟩ := hletters
  unfold onceRule
  rw [hletters]
  congr 1
  cases hfind : entries.find? fun e => e.1 <+: s.drop i with
  | none =>
      rw [List.find?_eq_none] at hfind
      rw [eq_comm, List.find?_eq_none]
      exact fun e he => hfind e (hperm.mem_iff.mpr he)
  | some e =>
      have he := List.mem_of_find?_eq_some hfind
      have hhere : e.1 <+: s.drop i := by simpa using List.find?_some hfind
      cases hfind' : entries'.find? fun e => e.1 <+: s.drop i with
      | none =>
          rw [List.find?_eq_none] at hfind'
          exact absurd (by simpa using hhere) (hfind' e (hperm.mem_iff.mp he))
      | some e' =>
          have he' := hperm.mem_iff.mpr (List.mem_of_find?_eq_some hfind')
          have hhere' : e'.1 <+: s.drop i := by simpa using List.find?_some hfind'
          rw [hapart.eq_of_begins hwords hdistinct he he' hhere hhere']

end TomAgent.Filling
