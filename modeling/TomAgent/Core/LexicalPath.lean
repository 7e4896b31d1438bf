import Mathlib.Algebra.Order.Ring.Nat
import Mathlib.Data.List.Infix
import Mathlib.Data.List.Flatten

/-!
# Paths as texts

`path/filepath` without looking at a file system: a path is cleaned by going through
the names between its slashes, and written from the names that are left.
-/

namespace TomAgent.LexicalPath

abbrev Name := List UInt8

def current : Name := [46]

def parent : Name := [46, 46]

def isAbs (p : List UInt8) : Bool := p.head? = some 47

/-- One more name: nothing, a step back, or a step down.  There is nothing above the root,
and a path that is not rooted begins with the steps back it cannot make. -/
def push (rooted : Bool) (names : List Name) (c : Name) : List Name :=
  if c = [] ∨ c = current then names
  else if c = parent then
    match names.getLast? with
    | none => if rooted then [] else [parent]
    | some last => if last = parent then names ++ [parent] else names.dropLast
  else names ++ [c]

def names (p : List UInt8) : List Name := (p.splitOn 47).foldl (push (isAbs p)) []

def render (rooted : Bool) (names : List Name) : List UInt8 :=
  if rooted then 47 :: [47].intercalate names
  else if names = [] then current
  else [47].intercalate names

def clean (p : List UInt8) : List UInt8 := render (isAbs p) (names p)

/-- `filepath.Join`; empty elements do not count. -/
def join (elements : List (List UInt8)) : List UInt8 :=
  let elements := elements.filter fun e => e ≠ []
  if elements = [] then [] else clean ([47].intercalate elements)

/-- `filepath.Base` of a cleaned path. -/
def base (p : List UInt8) : Name :=
  match (p.splitOn 47).filter (fun c => c ≠ []) |>.getLast? with
  | some name => name
  | none => if p = [] then current else [47]

/-! ## The names between the slashes -/

theorem splitOn_append_slash (p q : List UInt8) :
    (p ++ 47 :: q).splitOn 47 = p.splitOn 47 ++ q.splitOn 47 :=
  List.splitOnP_append_cons p q (by decide)

theorem splitOn_ne_nil (p : List UInt8) : p.splitOn 47 ≠ [] := List.splitOnP_ne_nil _ _

theorem splitOn_cons (b : UInt8) (p : List UInt8) :
    (b :: p).splitOn 47 =
      if b = 47 then [] :: p.splitOn 47 else (p.splitOn 47).modifyHead (List.cons b) := by
  rw [List.splitOn_eq_splitOnP, List.splitOnP_cons_eq_if_modifyHead]
  by_cases hb : b = 47
  · rw [if_pos (by simpa using hb), if_pos hb]
    rfl
  · rw [if_neg (by simpa using hb), if_neg hb]
    rfl

/-- The first name is at the beginning, and all others are inside. -/
theorem splitOn_cases (p : List UInt8) :
    ∃ first rest, p.splitOn 47 = first :: rest ∧ first <+: p ∧ 47 ∉ first ∧
      ∀ c ∈ rest, c <:+: p ∧ 47 ∉ c := by
  induction p with
  | nil => exact ⟨[], [], rfl, List.prefix_refl _, by simp, by simp⟩
  | cons b p ih =>
      obtain ⟨first, rest, hsplit, hfirst, hslash, hrest⟩ := ih
      rw [splitOn_cons, hsplit]
      have hwithin : ∀ c, c <:+: p → c <:+: b :: p :=
        fun c hc => hc.trans (List.suffix_cons b p).isInfix
      by_cases hb : b = 47
      · refine ⟨[], first :: rest, if_pos hb, List.nil_prefix, by simp, ?_⟩
        intro c hc
        rcases List.mem_cons.mp hc with rfl | hc
        · exact ⟨hwithin _ hfirst.isInfix, hslash⟩
        · exact ⟨hwithin c (hrest c hc).1, (hrest c hc).2⟩
      · refine ⟨b :: first, rest, if_neg hb, List.cons_prefix_cons.mpr ⟨rfl, hfirst⟩, ?_, ?_⟩
        · simp [hslash, Ne.symm hb]
        · intro c hc
          exact ⟨hwithin c (hrest c hc).1, (hrest c hc).2⟩

theorem isInfix_of_mem_splitOn {p c : List UInt8} (h : c ∈ p.splitOn 47) : c <:+: p := by
  obtain ⟨first, rest, hsplit, hfirst, -, hrest⟩ := splitOn_cases p
  rw [hsplit] at h
  rcases List.mem_cons.mp h with rfl | h
  · exact hfirst.isInfix
  · exact (hrest c h).1

theorem slash_notMem_of_mem_splitOn {p c : List UInt8} (h : c ∈ p.splitOn 47) : 47 ∉ c := by
  obtain ⟨first, rest, hsplit, -, hfirst, hrest⟩ := splitOn_cases p
  rw [hsplit] at h
  rcases List.mem_cons.mp h with rfl | h
  · exact hfirst
  · exact (hrest c h).2

/-! ## Paths without steps back -/

def IsStep (c : Name) : Prop := c ≠ [] ∧ c ≠ current

instance (c : Name) : Decidable (IsStep c) := inferInstanceAs (Decidable (_ ∧ _))

theorem foldl_push_of_no_parent {rooted : Bool} {cs : List Name} (h : parent ∉ cs)
    (at_ : List Name) : cs.foldl (push rooted) at_ = at_ ++ cs.filter fun c => IsStep c := by
  induction cs generalizing at_ with
  | nil => simp
  | cons c cs ih =>
      have hc : c ≠ parent := fun heq => h (heq ▸ List.mem_cons_self)
      have hrest : parent ∉ cs := fun hmem => h (List.mem_cons_of_mem c hmem)
      rw [List.foldl_cons, ih hrest]
      by_cases hstep : IsStep c
      · have hpush : push rooted at_ c = at_ ++ [c] := by
          rw [push, if_neg (by rintro (h | h); exacts [hstep.1 h, hstep.2 h]), if_neg hc]
        rw [hpush, List.filter_cons_of_pos (by simpa using hstep), List.append_assoc]
        rfl
      · have hpush : push rooted at_ c = at_ := by
          rw [push, if_pos (by unfold IsStep at hstep; tauto)]
        rw [hpush, List.filter_cons_of_neg (by simpa using hstep)]

/-- Without `..` a path is cleaned by leaving out what is no step. -/
theorem names_of_no_parent {p : List UInt8} (h : ¬ parent <:+: p) :
    names p = (p.splitOn 47).filter fun c => IsStep c := by
  have hno : parent ∉ p.splitOn 47 := fun hmem => h (isInfix_of_mem_splitOn hmem)
  rw [names, foldl_push_of_no_parent hno, List.nil_append]

/-- What such a path begins with it also begins with when it is cleaned. -/
theorem names_append_slash_of_no_parent {p q : List UInt8} (h : ¬ parent <:+: p ++ 47 :: q) :
    names (p ++ 47 :: q) =
      (p.splitOn 47).filter (fun c => IsStep c) ++ (q.splitOn 47).filter fun c => IsStep c := by
  rw [names_of_no_parent h, splitOn_append_slash, List.filter_append]

/-! ## Cleaned paths -/

/-- Steps, with all steps back in front; a rooted path has none. -/
structure Valid (rooted : Bool) (names : List Name) : Prop where
  step : ∀ n ∈ names, IsStep n ∧ 47 ∉ n
  back : ∃ k rest, names = List.replicate k parent ++ rest ∧ parent ∉ rest ∧ (rooted = true → k = 0)

theorem valid_nil (rooted : Bool) : Valid rooted [] :=
  ⟨by simp, 0, [], rfl, by simp, fun _ => rfl⟩

theorem Valid.down {rooted : Bool} {names : List Name} (h : Valid rooted names) {c : Name}
    (hstep : IsStep c) (hslash : 47 ∉ c) (hparent : c ≠ parent) : Valid rooted (names ++ [c]) := by
  obtain ⟨k, rest, rfl, hrest, hroot⟩ := h.back
  refine ⟨?_, k, rest ++ [c], List.append_assoc _ _ _, ?_, hroot⟩
  · intro n hn
    rcases List.mem_append.mp hn with hn | hn
    · exact h.step n hn
    · rw [List.mem_singleton.mp hn]
      exact ⟨hstep, hslash⟩
  · simp [hrest, Ne.symm hparent]

theorem Valid.dropLast {rooted : Bool} {names : List Name} (h : Valid rooted names) {last : Name}
    (hlast : names.getLast? = some last) (hparent : last ≠ parent) :
    Valid rooted names.dropLast := by
  obtain ⟨k, rest, rfl, hrest, hroot⟩ := h.back
  have hne : rest ≠ [] := by
    rintro rfl
    rw [List.append_nil] at hlast
    exact hparent (List.eq_of_mem_replicate (List.mem_of_getLast? hlast))
  refine ⟨fun n hn => h.step n (List.mem_of_mem_dropLast hn), k, rest.dropLast,
    List.dropLast_append_of_ne_nil hne, fun hmem => hrest (List.mem_of_mem_dropLast hmem), hroot⟩

theorem Valid.up {names : List Name} (h : Valid false names)
    (hlast : ∀ last, names.getLast? = some last → last = parent) :
    Valid false (names ++ [parent]) := by
  obtain ⟨k, rest, rfl, hrest, -⟩ := h.back
  have hnil : rest = [] := by
    by_contra hne
    have hend := List.getLast?_eq_some_getLast hne
    have hparent := hlast _ (by rw [List.getLast?_append, hend]; rfl)
    exact hrest (hparent ▸ List.getLast_mem hne)
  subst hnil
  refine ⟨?_, k + 1, [], ?_, by simp, fun hroot => by cases hroot⟩
  · intro n hn
    rcases List.mem_append.mp hn with hn | hn
    · exact h.step n hn
    · rw [List.mem_singleton.mp hn]
      decide
  · rw [List.append_nil, List.append_nil, List.replicate_succ']

theorem Valid.push {rooted : Bool} {names : List Name} (h : Valid rooted names) {c : Name}
    (hslash : 47 ∉ c) : Valid rooted (LexicalPath.push rooted names c) := by
  unfold LexicalPath.push
  split
  next => exact h
  next hstep =>
    split
    next =>
      split
      next hlast =>
        cases rooted with
        | true => exact valid_nil true
        | false =>
            rw [List.getLast?_eq_none_iff] at hlast
            subst hlast
            exact h.up (by simp)
      next last hlast =>
        split
        next hparent =>
          cases rooted with
          | true =>
              exfalso
              obtain ⟨k, rest, rfl, hrest, hroot⟩ := h.back
              rw [hroot rfl, List.replicate_zero, List.nil_append] at hlast
              exact hrest (hparent ▸ List.mem_of_getLast? hlast)
          | false =>
              refine h.up fun last' hlast' => ?_
              rw [hlast] at hlast'
              exact (Option.some.inj hlast') ▸ hparent
        next hparent => exact h.dropLast hlast hparent
    next hparent => exact h.down (by unfold IsStep; tauto) hslash hparent

theorem valid_names (p : List UInt8) : Valid (isAbs p) (names p) := by
  have hfold : ∀ (cs : List Name) (at_ : List Name), (∀ c ∈ cs, 47 ∉ c) → Valid (isAbs p) at_ →
      Valid (isAbs p) (cs.foldl (push (isAbs p)) at_) := by
    intro cs
    induction cs with
    | nil => exact fun at_ _ hat => hat
    | cons c cs ih =>
        intro at_ hcs hat
        exact ih _ (fun c' hc' => hcs c' (List.mem_cons_of_mem c hc'))
          (hat.push (hcs c List.mem_cons_self))
  exact hfold _ _ (fun c hc => slash_notMem_of_mem_splitOn hc) (valid_nil _)

/-- In front of a step back there are only others. -/
theorem Valid.eq_replicate {rooted : Bool} {at_ cs : List Name}
    (h : Valid rooted (at_ ++ parent :: cs)) :
    at_ = List.replicate at_.length parent ∧ rooted = false := by
  obtain ⟨k, rest, heq, hrest, hroot⟩ := h.back
  by_cases hk : at_.length < k
  · constructor
    · have hfront := congrArg (List.take at_.length) heq
      rw [List.take_left, List.take_append_of_le_length
        (by rw [List.length_replicate]; omega), List.take_replicate] at hfront
      rw [Nat.min_eq_left (Nat.le_of_lt hk)] at hfront
      exact hfront
    · cases rooted with
      | true => exact absurd (hroot rfl) (by omega)
      | false => rfl
  · exfalso
    have hback := congrArg (List.drop k) heq
    rw [List.drop_append_of_le_length (by omega)] at hback
    have hall : (List.replicate k parent ++ rest).drop k = rest := by
      rw [List.drop_append, List.length_replicate, Nat.sub_self, List.drop_zero,
        List.drop_of_length_le (by rw [List.length_replicate]), List.nil_append]
    rw [hall] at hback
    exact hrest (by rw [← hback]; simp)

/-- A name of a cleaned path is taken as it is. -/
theorem Valid.push_eq {rooted : Bool} {at_ cs : List Name} {c : Name}
    (h : Valid rooted (at_ ++ c :: cs)) : LexicalPath.push rooted at_ c = at_ ++ [c] := by
  have hstep := (h.step c (by simp)).1
  rw [LexicalPath.push, if_neg (by rintro (heq | heq); exacts [hstep.1 heq, hstep.2 heq])]
  by_cases hparent : c = parent
  · subst hparent
    obtain ⟨hback, rfl⟩ := h.eq_replicate
    rw [if_pos rfl]
    cases hn : at_.length with
    | zero =>
        rw [List.eq_nil_of_length_eq_zero hn]
        rfl
    | succ n =>
        have hlast : at_.getLast? = some parent := by
          rw [hback, hn, List.replicate_succ', List.getLast?_append]
          rfl
        simp [hlast]
  · rw [if_neg hparent]

theorem Valid.foldl_push {rooted : Bool} {cs more : List Name} (at_ : List Name)
    (h : Valid rooted (at_ ++ (cs ++ more))) :
    cs.foldl (LexicalPath.push rooted) at_ = at_ ++ cs := by
  induction cs generalizing at_ with
  | nil => simp
  | cons c cs ih =>
      rw [List.foldl_cons, h.push_eq, ih (at_ ++ [c]) (by rw [List.append_assoc]; exact h),
        List.append_assoc]
      rfl

/-- Between the slashes of a cleaned path are its names. -/
theorem splitOn_render {rooted : Bool} {names : List Name} (h : Valid rooted names)
    (hne : names ≠ []) :
    (render rooted names).splitOn 47 = (if rooted then [[]] else []) ++ names := by
  have hsplit := List.splitOn_intercalate (47 : UInt8) (fun n hn => (h.step n hn).2) hne
  cases rooted with
  | true =>
      rw [render, if_pos rfl, splitOn_cons, if_pos rfl, hsplit]
      rfl
  | false =>
      rw [render, if_neg (by simp), if_neg hne, hsplit]
      rfl

theorem isAbs_render {rooted : Bool} {names : List Name} (h : Valid rooted names) :
    isAbs (render rooted names) = rooted := by
  cases rooted with
  | true => rfl
  | false =>
      cases names with
      | nil => rfl
      | cons n names =>
          -- a slash in front would leave an empty name
          have hsplit := splitOn_render h (List.cons_ne_nil n names)
          have hn := (h.step n List.mem_cons_self).1.1
          cases hp : render false (n :: names) with
          | nil => rfl
          | cons b q =>
              have hb : b ≠ 47 := by
                intro heq
                rw [hp, splitOn_cons, if_pos heq] at hsplit
                exact hn (List.cons.inj hsplit).1.symm
              simpa [isAbs] using hb

theorem names_render {rooted : Bool} {names : List Name} (h : Valid rooted names) :
    LexicalPath.names (render rooted names) = names := by
  rw [LexicalPath.names, isAbs_render h]
  by_cases hne : names = []
  · subst hne
    cases rooted <;> decide
  · rw [splitOn_render h hne]
    have hall : names.foldl (LexicalPath.push rooted) [] = names :=
      @Valid.foldl_push rooted names [] [] (by rw [List.append_nil]; exact h)
    cases rooted with
    | true => exact hall
    | false => exact hall

theorem names_clean (p : List UInt8) : names (clean p) = names p := names_render (valid_names p)

theorem isAbs_clean (p : List UInt8) : isAbs (clean p) = isAbs p := isAbs_render (valid_names p)

/-- Below a directory as a text is below it as a path, if the path is cleaned. -/
theorem names_of_clean_append {dir s : List UInt8} (hdir : dir ≠ [])
    (hclean : clean (dir ++ 47 :: s) = dir ++ 47 :: s) :
    isAbs (dir ++ 47 :: s) = isAbs dir ∧ names (dir ++ 47 :: s) = names dir ++ s.splitOn 47 := by
  have hvalid := valid_names (dir ++ 47 :: s)
  have habs : isAbs (dir ++ 47 :: s) = isAbs dir := by
    obtain ⟨b, dir, rfl⟩ := List.exists_cons_of_ne_nil hdir
    rfl
  refine ⟨habs, ?_⟩
  have hne : names (dir ++ 47 :: s) ≠ [] := by
    intro hnil
    have hlength := congrArg List.length hclean
    have hpos := List.length_pos_iff.mpr hdir
    rw [clean, hnil, List.length_append, List.length_cons] at hlength
    have hshort : (render (isAbs (dir ++ 47 :: s)) []).length = 1 := by
      cases isAbs (dir ++ 47 :: s) <;> rfl
    omega
  have hsplit := splitOn_render hvalid hne
  rw [← clean, hclean, splitOn_append_slash] at hsplit
  obtain ⟨first, rest, hfirst, -⟩ := splitOn_cases dir
  have hnames : names dir = (dir.splitOn 47).foldl (push (isAbs dir)) [] := rfl
  rw [habs] at hsplit hvalid
  cases hroot : isAbs dir with
  | true =>
      rw [hroot, hfirst] at hsplit
      obtain ⟨rfl, htail⟩ : first = [] ∧ rest ++ s.splitOn 47 = names (dir ++ 47 :: s) :=
        List.cons.inj hsplit
      rw [hroot, ← htail] at hvalid
      have hfront : names dir = rest := by
        rw [hnames, hfirst, hroot]
        exact Valid.foldl_push [] hvalid
      rw [← htail, hfront]
  | false =>
      rw [hroot] at hsplit
      have hall : dir.splitOn 47 ++ s.splitOn 47 = names (dir ++ 47 :: s) := hsplit
      rw [hroot, ← hall] at hvalid
      have hfront : names dir = dir.splitOn 47 := by
        rw [hnames, hroot]
        exact Valid.foldl_push [] hvalid
      rw [← hall, hfront]

/-- Behind a name that is no step back there is none. -/
theorem Valid.parent_notMem {rooted : Bool} {front rest : List Name} {last : Name}
    (h : Valid rooted (front ++ rest)) (hlast : last ∈ front) (hparent : last ≠ parent) :
    parent ∉ rest := by
  intro hmem
  obtain ⟨before, after, rfl⟩ := List.append_of_mem hmem
  rw [← List.append_assoc] at h
  have hback := h.eq_replicate.1
  have hall : last ∈ front ++ before := List.mem_append_left _ hlast
  rw [hback] at hall
  exact hparent (List.eq_of_mem_replicate hall)

/-! ## One name below a directory -/

structure IsEntry (e : Name) : Prop where
  step : IsStep e
  parent : e ≠ parent
  slash : 47 ∉ e

theorem splitOn_of_notMem {e : Name} (h : 47 ∉ e) : e.splitOn 47 = [e] := by
  refine List.splitOnP_eq_singleton ?_
  intro b hb
  rw [beq_eq_false_iff_ne]
  exact fun heq => h (heq ▸ hb)

theorem push_entry {e : Name} (he : IsEntry e) (rooted : Bool) (at_ : List Name) :
    push rooted at_ e = at_ ++ [e] := by
  rw [push, if_neg (by rintro (heq | heq); exacts [he.step.1 heq, he.step.2 heq]),
    if_neg he.parent]

/-- The path to an entry of a directory is cleaned and ends with the name of the entry. -/
theorem join_entry (root : List UInt8) {e : Name} (he : IsEntry e) :
    ∃ p front, join [root, e] = clean p ∧ names p = front ++ [e] := by
  have hname := splitOn_of_notMem he.slash
  by_cases hroot : root = []
  · refine ⟨e, [], by simp [join, hroot, he.step.1], ?_⟩
    rw [names, hname, List.foldl_cons, List.foldl_nil, push_entry he]
  · refine ⟨root ++ 47 :: e, (root.splitOn 47).foldl (push (isAbs (root ++ 47 :: e))) [],
      by simp [join, hroot, he.step.1, List.intercalate, List.intersperse], ?_⟩
    rw [names, splitOn_append_slash, hname, List.foldl_append, List.foldl_cons, List.foldl_nil,
      push_entry he]

theorem clean_ne_nil (p : List UInt8) : clean p ≠ [] := by
  intro hnil
  have hvalid := valid_names p
  by_cases hne : names p = []
  · rw [clean, hne] at hnil
    cases habs : isAbs p <;> rw [habs] at hnil <;> cases hnil
  · have hsplit := splitOn_render hvalid hne
    rw [← clean, hnil] at hsplit
    cases habs : isAbs p with
    | true =>
        rw [clean, habs] at hnil
        cases hnil
    | false =>
        rw [habs] at hsplit
        have hempty : [[]] = names p := hsplit
        exact (hvalid.step [] (by rw [← hempty]; simp)).1.1 rfl

theorem base_clean {p : List UInt8} {front : List Name} {e : Name} (h : names p = front ++ [e]) :
    base (clean p) = e := by
  have hvalid := valid_names p
  have hsplit := splitOn_render hvalid (by rw [h]; simp)
  have hfilter : ((clean p).splitOn 47).filter (fun c => c ≠ []) = names p := by
    have hall : (names p).filter (fun c => c ≠ []) = names p := by
      rw [List.filter_eq_self]
      intro n hn
      simpa using (hvalid.step n hn).1.1
    rw [clean, hsplit, List.filter_append, hall]
    cases isAbs p <;> rfl
  rw [base, hfilter, h, List.getLast?_append]
  rfl

end TomAgent.LexicalPath
