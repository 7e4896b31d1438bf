import Mathlib.Data.List.DropRight
import Mathlib.Data.List.Forall2
import TomAgent.Core.JsonText
import TomAgent.Core.Search

/-!
# Redaction of command lines

`collectProcesses` joins the arguments of a process and replaces what follows a
configured option up to the next space.  The arguments' boundaries are gone by then,
and each pattern is looked up once: a space inside a secret ends it, and a second
option with the same name is not seen.
-/

namespace TomAgent.Inventory

open JsonText Search

def space : UInt8 := 0x20

def star : UInt8 := 0x2a

def mask : Bytes := [star, star, star]

def afterWord (text : Bytes) : Bytes := text.dropWhile (· ≠ space)

/-- One round of the loop of `redact`. -/
def redactPattern (cmdline p : Bytes) : Bytes :=
  if p.getLast? = some star then
    let option := p.dropLast
    match index cmdline option with
    | none => cmdline
    | some idx =>
        let start := idx + option.length
        cmdline.take start ++ (mask ++ afterWord (cmdline.drop start))
  else cmdline

def redact (cmdline : Bytes) (patterns : List Bytes) : Bytes := patterns.foldl redactPattern cmdline

/-- The file `cmdline` of a process: every argument is followed by a NUL. -/
def procCmdline (args : List Bytes) : Bytes := args.flatMap (· ++ [0])

def joined (args : List Bytes) : Bytes :=
  ((procCmdline args).rdropWhile (· = 0)).map fun b => if b = 0 then space else b

def collectCmdline (patterns args : List Bytes) : Bytes := redact (joined args) patterns

/-! ## One pattern -/

/-- The lines differ at most in the word behind the first occurrence of the option. -/
def OnlyWordDiffers (option line line' : Bytes) : Prop :=
  ∃ before rest rest', FirstAt line option before rest ∧ FirstAt line' option before rest' ∧
    afterWord rest = afterWord rest'

theorem redactPattern_firstAt {line option before rest : Bytes}
    (h : FirstAt line option before rest) :
    redactPattern line (option ++ [star]) = before ++ (option ++ (mask ++ afterWord rest)) := by
  have hsplit : line = (before ++ option) ++ rest := by rw [h.split, List.append_assoc]
  have hstart : before.length + option.length = (before ++ option).length := by
    rw [List.length_append]
  simp only [redactPattern, List.getLast?_concat, if_true, List.dropLast_concat, h.index, hstart]
  rw [hsplit, List.take_left, List.drop_left, List.append_assoc]

theorem redactPattern_absent {line option : Bytes} (h : ¬ option <:+: line) :
    redactPattern line (option ++ [star]) = line := by
  simp only [redactPattern, List.getLast?_concat, if_true, List.dropLast_concat,
    index_eq_none_iff.mpr h]

theorem firstAt_redactPattern {line option before rest : Bytes}
    (h : FirstAt line option before rest) :
    FirstAt (redactPattern line (option ++ [star])) option before (mask ++ afterWord rest) := by
  rw [redactPattern_firstAt h]
  exact h.replace _

theorem isInfix_redactPattern_iff {line option : Bytes} :
    option <:+: redactPattern line (option ++ [star]) ↔ option <:+: line := by
  constructor
  · intro hafter
    by_contra hno
    rw [redactPattern_absent hno] at hafter
    exact hno hafter
  · intro hline
    obtain ⟨before, rest, h⟩ := exists_firstAt hline
    exact (firstAt_redactPattern h).isInfix

/-- One pattern makes two lines equal if only the word behind the option differs. -/
theorem redactPattern_eq_iff {line line' option : Bytes} :
    redactPattern line (option ++ [star]) = redactPattern line' (option ++ [star]) ↔
      line = line' ∨ OnlyWordDiffers option line line' := by
  constructor
  · intro heq
    by_cases hoption : option <:+: line
    · have hoption' : option <:+: line' := by
        rw [← isInfix_redactPattern_iff, ← heq, isInfix_redactPattern_iff]
        exact hoption
      obtain ⟨before, rest, h⟩ := exists_firstAt hoption
      obtain ⟨before', rest', h'⟩ := exists_firstAt hoption'
      have hmasked := firstAt_redactPattern h
      rw [heq] at hmasked
      obtain ⟨rfl, htail⟩ := hmasked.unique (firstAt_redactPattern h')
      exact Or.inr ⟨before, rest, rest', h, h', List.append_cancel_left htail⟩
    · have hoption' : ¬ option <:+: line' := by
        rw [← isInfix_redactPattern_iff, ← heq, isInfix_redactPattern_iff]
        exact hoption
      rw [redactPattern_absent hoption, redactPattern_absent hoption'] at heq
      exact Or.inl heq
  · rintro (rfl | ⟨before, rest, rest', h, h', htail⟩)
    · rfl
    · rw [redactPattern_firstAt h, redactPattern_firstAt h', htail]

/-! ## All patterns -/

theorem redact_cons (line p : Bytes) (patterns : List Bytes) :
    redact line (p :: patterns) = redact (redactPattern line p) patterns := rfl

theorem redact_eq_iff {options : List Bytes} {line line' : Bytes} :
    redact line (options.map (· ++ [star])) = redact line' (options.map (· ++ [star])) ↔
      line = line' ∨ ∃ before option after, options = before ++ option :: after ∧
        OnlyWordDiffers option (redact line (before.map (· ++ [star])))
          (redact line' (before.map (· ++ [star]))) := by
  induction options generalizing line line' with
  | nil => simp [redact]
  | cons option options ih =>
      rw [List.map_cons, redact_cons, redact_cons, ih, redactPattern_eq_iff, or_assoc]
      refine or_congr_right ?_
      constructor
      · rintro (hdiffers | ⟨before, next, after, rfl, hdiffers⟩)
        · exact ⟨[], option, options, rfl, hdiffers⟩
        · exact ⟨option :: before, next, after, rfl, hdiffers⟩
      · rintro ⟨before, next, after, hoptions, hdiffers⟩
        cases before with
        | nil =>
            obtain ⟨rfl, rfl⟩ := List.cons.inj hoptions
            exact Or.inl hdiffers
        | cons first before =>
            obtain ⟨rfl, rfl⟩ := List.cons.inj hoptions
            exact Or.inr ⟨before, next, after, rfl, hdiffers⟩

theorem redact_hides_word {option front back secret secret' : Bytes}
    (hfirst : FirstAt (front ++ option) option front []) (hsecret : space ∉ secret)
    (hsecret' : space ∉ secret') (hback : ∀ b ∈ back.head?, b = space) (options : List Bytes) :
    redact (front ++ (option ++ (secret ++ back))) ((option :: options).map (· ++ [star])) =
      redact (front ++ (option ++ (secret' ++ back))) ((option :: options).map (· ++ [star])) := by
  have hword : ∀ word, space ∉ word → afterWord (word ++ back) = back := by
    intro word hno
    have hinside : ∀ b ∈ word, decide (b ≠ space) = true := by
      intro b hb
      exact decide_eq_true fun heq => hno (heq ▸ hb)
    rw [afterWord, List.dropWhile_append_of_pos hinside]
    cases back with
    | nil => rfl
    | cons b back => simp [hback b (by simp)]
  refine redact_eq_iff.mpr (Or.inr ⟨[], option, options, rfl, ?_⟩)
  refine ⟨front, _, _, hfirst.replace _, hfirst.replace _, ?_⟩
  rw [hword secret hsecret, hword secret' hsecret']

/-! ## Noninterference -/

/-- Two argument vectors that differ only behind an option, within arguments that
begin with it. -/
def SecretsDiffer (options : List Bytes) : List Bytes → List Bytes → Prop :=
  List.Forall₂ fun arg arg' => arg = arg' ∨ ∃ option ∈ options, option <+: arg ∧ option <+: arg'

/-- Whatever the options are and however two argument vectors differ, their command lines in the
inventory are equal if and only if the joined arguments are, or if there is an option such that,
when its turn comes, the lines differ in nothing but the word behind its first occurrence. -/
theorem redaction_hides_iff (options args args' : List Bytes) :
    collectCmdline (options.map (· ++ [star])) args =
        collectCmdline (options.map (· ++ [star])) args' ↔
      joined args = joined args' ∨ ∃ before option after, options = before ++ option :: after ∧
        OnlyWordDiffers option (collectCmdline (before.map (· ++ [star])) args)
          (collectCmdline (before.map (· ++ [star])) args') :=
  redact_eq_iff

def passwordOption : Bytes := utf8 "--password=".toList

def password (secret : String) : Bytes := passwordOption ++ utf8 secret.toList

theorem secretsDiffer_password (front : List Bytes) (secret secret' : String) :
    SecretsDiffer [passwordOption] (front ++ [password secret]) (front ++ [password secret']) := by
  have hlast : SecretsDiffer [passwordOption] [password secret] [password secret'] :=
    .cons (Or.inr ⟨passwordOption, List.mem_singleton_self _, List.prefix_append _ _,
      List.prefix_append _ _⟩) .nil
  have hfront : SecretsDiffer [passwordOption] front front :=
    List.forall₂_same.mpr fun _ _ => Or.inl rfl
  exact List.rel_append hfront hlast

/-- What stands behind a space in a password stays readable, and so does a second
password. -/
theorem secrets_readable :
    (SecretsDiffer [passwordOption] [password "a b"] [password "a c"] ∧
      collectCmdline [passwordOption ++ [star]] [password "a b"] ≠
        collectCmdline [passwordOption ++ [star]] [password "a c"]) ∧
    SecretsDiffer [passwordOption] [password "a", password "b"] [password "a", password "c"] ∧
      collectCmdline [passwordOption ++ [star]] [password "a", password "b"] ≠
        collectCmdline [passwordOption ++ [star]] [password "a", password "c"] := by
  refine ⟨⟨?_, by decide +kernel⟩, ?_, by decide +kernel⟩
  · exact secretsDiffer_password [] "a b" "a c"
  · exact secretsDiffer_password [password "a"] "b" "c"

end TomAgent.Inventory
