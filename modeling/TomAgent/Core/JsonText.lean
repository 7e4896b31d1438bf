import Mathlib.Data.List.Basic
import TomAgent.Core.BigEndian

/-!
# Pieces of JSON text

Strings, integers and fixed pieces of text, as an encoder writes them and as a
decoder reads them off the front of a longer text.  Strings are written with the
escapes that keep a text safe inside HTML.  Each reader gives back what was
written and the text behind it.
-/

namespace TomAgent.JsonText

/-! ## Characters and bytes -/

def utf8 (text : List Char) : Bytes := text.flatMap String.utf8EncodeChar

def ofUtf8 (bytes : Bytes) : Option (List Char) := bytes.toByteArray.utf8Decode?.map Array.toList

@[simp] theorem ofUtf8_utf8 (text : List Char) : ofUtf8 (utf8 text) = some text := by
  have hencode : (utf8 text).toByteArray = text.utf8Encode := List.utf8Encode.eq_1 text
  rw [ofUtf8, hencode, List.utf8Decode?_utf8Encode]
  rfl

/-! ## Fixed text -/

def readText (expected text : List Char) : Option (List Char) :=
  if expected.isPrefixOf text then some (text.drop expected.length) else none

@[simp] theorem readText_append (expected rest : List Char) :
    readText expected (expected ++ rest) = some rest := by
  have hfront : expected.isPrefixOf (expected ++ rest) = true := by
    rw [List.isPrefixOf_iff_prefix]
    exact List.prefix_append expected rest
  simp [readText, hfront]

/-! ## Strings -/

def hexDigit (c : Char) : Option Nat :=
  if '0' ≤ c ∧ c ≤ '9' then some (c.toNat - '0'.toNat)
  else if 'a' ≤ c ∧ c ≤ 'f' then some (c.toNat - 'a'.toNat + 10)
  else if 'A' ≤ c ∧ c ≤ 'F' then some (c.toNat - 'A'.toNat + 10)
  else none

def escapeUnit (n : Nat) : List Char :=
  ['\\', 'u', Nat.digitChar (n / 4096 % 16), Nat.digitChar (n / 256 % 16),
    Nat.digitChar (n / 16 % 16), Nat.digitChar (n % 16)]

def shortEscape (c : Char) : Option Char :=
  if c = '\x22' then some '\x22'
  else if c = '\\' then some '\\'
  else if c = '\x08' then some 'b'
  else if c = '\x0c' then some 'f'
  else if c = '\n' then some 'n'
  else if c = '\r' then some 'r'
  else if c = '\t' then some 't'
  else none

/-- Control characters, the characters of HTML markup, and the two line
separators that JavaScript does not allow in strings. -/
def needsUnit (c : Char) : Bool :=
  c.toNat < 0x20 || c = '<' || c = '>' || c = '&' || c.toNat = 0x2028 || c.toNat = 0x2029

def quoteChar (c : Char) : List Char :=
  match shortEscape c with
  | some e => ['\\', e]
  | none => if needsUnit c then escapeUnit c.toNat else [c]

def quote (text : List Char) : List Char := '\x22' :: text.flatMap quoteChar ++ ['\x22']

def shortUnescape (e : Char) : Option Char :=
  if e = '\x22' then some '\x22'
  else if e = '\\' then some '\\'
  else if e = '/' then some '/'
  else if e = 'b' then some '\x08'
  else if e = 'f' then some '\x0c'
  else if e = 'n' then some '\n'
  else if e = 'r' then some '\r'
  else if e = 't' then some '\t'
  else none

/-- A string up to its closing quote.  Surrogate pairs, which `quote` never
writes, are not read. -/
def readChars : List Char → Option (List Char × List Char)
  | [] => none
  | c :: rest =>
      if c = '\x22' then some ([], rest)
      else if c = '\\' then
        match rest with
        | 'u' :: h₃ :: h₂ :: h₁ :: h₀ :: rest =>
            match hexDigit h₃, hexDigit h₂, hexDigit h₁, hexDigit h₀ with
            | some d₃, some d₂, some d₁, some d₀ =>
                (readChars rest).map fun r =>
                  (Char.ofNat (4096 * d₃ + 256 * d₂ + 16 * d₁ + d₀) :: r.1, r.2)
            | _, _, _, _ => none
        | e :: rest =>
            match shortUnescape e with
            | some c => (readChars rest).map fun r => (c :: r.1, r.2)
            | none => none
        | [] => none
      else if c.toNat < 0x20 then none
      else (readChars rest).map fun r => (c :: r.1, r.2)

def readQuoted (text : List Char) : Option (List Char × List Char) :=
  (readText ['\x22'] text).bind readChars

theorem hexDigit_digitChar : ∀ d < 16, hexDigit (Nat.digitChar d) = some d := by decide

theorem shortUnescape_of_shortEscape {c e : Char} (h : shortEscape c = some e) :
    shortUnescape e = some c ∧ e ≠ 'u' := by
  unfold shortEscape at h
  repeat' split at h
  all_goals
    cases h
    try
      subst c
      decide

theorem readChars_short {c e : Char} (h : shortEscape c = some e) (rest : List Char) :
    readChars ('\\' :: e :: rest) = (readChars rest).map fun r => (c :: r.1, r.2) := by
  obtain ⟨hback, hne⟩ := shortUnescape_of_shortEscape h
  rw [readChars.eq_def]
  simp [hback, hne]

theorem readChars_unit {c : Char} (h : c.toNat < 65536) (rest : List Char) :
    readChars (escapeUnit c.toNat ++ rest) =
      (readChars rest).map fun r => (c :: r.1, r.2) := by
  have hdigit : ∀ n, hexDigit (Nat.digitChar (n % 16)) = some (n % 16) := fun n =>
    hexDigit_digitChar (n % 16) (Nat.mod_lt n (by decide))
  have hvalue : 4096 * (c.toNat / 4096 % 16) + 256 * (c.toNat / 256 % 16) +
      16 * (c.toNat / 16 % 16) + c.toNat % 16 = c.toNat := by omega
  rw [escapeUnit, readChars.eq_def]
  simp [hdigit, hvalue]

theorem needsUnit_lt {c : Char} (h : needsUnit c = true) : c.toNat < 65536 := by
  simp only [needsUnit, Bool.or_eq_true, decide_eq_true_eq] at h
  rcases h with ((((h | rfl) | rfl) | rfl) | h) | h
  all_goals first
    | omega
    | decide

theorem readChars_quoteChar (c : Char) (rest : List Char) :
    readChars (quoteChar c ++ rest) = (readChars rest).map fun r => (c :: r.1, r.2) := by
  unfold quoteChar
  cases hshort : shortEscape c with
  | some e => exact readChars_short hshort rest
  | none =>
      by_cases hunit : needsUnit c = true
      · simp only [hunit, if_true]
        exact readChars_unit (needsUnit_lt hunit) rest
      · have hquote : c ≠ '\x22' := by
          rintro rfl
          simp [shortEscape] at hshort
        have hslash : c ≠ '\\' := by
          rintro rfl
          simp [shortEscape] at hshort
        have hplain : ¬ c.toNat < 0x20 := by
          intro hlt
          simp [needsUnit, hlt] at hunit
        simp only [hunit, Bool.false_eq_true, if_false, List.singleton_append]
        rw [readChars.eq_def]
        simp [hquote, hslash, hplain]

theorem readChars_quoted (text rest : List Char) :
    readChars (text.flatMap quoteChar ++ '\x22' :: rest) = some (text, rest) := by
  induction text with
  | nil =>
      rw [readChars.eq_def]
      simp
  | cons c text ih =>
      rw [List.flatMap_cons, List.append_assoc, readChars_quoteChar, ih]
      rfl

@[simp] theorem readQuoted_quote (text rest : List Char) :
    readQuoted (quote text ++ rest) = some (text, rest) := by
  have hopen : quote text ++ rest =
      ['\x22'] ++ (text.flatMap quoteChar ++ '\x22' :: rest) := by
    simp [quote]
  rw [readQuoted, hopen, readText_append, Option.bind_some, readChars_quoted]

/-! ## Numbers -/

def natText (n : Nat) : List Char := Nat.toDigits 10 n

def readNat (text : List Char) : Option (Nat × List Char) :=
  let digits := text.takeWhile Char.isDigit
  if digits = [] then none
  else some (Nat.ofDigitChars 10 digits 0, text.dropWhile Char.isDigit)

/-- The text behind a number does not go on with a digit. -/
def EndsNumber (rest : List Char) : Prop := ∀ c ∈ rest.head?, c.isDigit = false

theorem readNat_natText (n : Nat) {rest : List Char} (h : EndsNumber rest) :
    readNat (natText n ++ rest) = some (n, rest) := by
  have hdigits : ∀ c ∈ natText n, c.isDigit = true := fun c hc =>
    Nat.isDigit_of_mem_toDigits (by decide) (by decide) hc
  have hstop : rest.takeWhile Char.isDigit = [] ∧ rest.dropWhile Char.isDigit = rest := by
    cases rest with
    | nil => exact ⟨rfl, rfl⟩
    | cons c rest =>
        have hc : c.isDigit = false := h c (by simp)
        simp [hc]
  have hvalue : Nat.ofDigitChars 10 (natText n) 0 = n :=
    Nat.ofDigitChars_toDigits (by decide) (by decide)
  have hne : natText n ≠ [] := Nat.toDigits_ne_nil
  unfold readNat
  rw [List.takeWhile_append_of_pos hdigits, List.dropWhile_append_of_pos hdigits, hstop.1,
    hstop.2, List.append_nil]
  simp [hne, hvalue]

def intText : Int → List Char
  | .ofNat n => natText n
  | .negSucc n => '-' :: natText (n + 1)

def readInt (text : List Char) : Option (Int × List Char) :=
  match text with
  | '-' :: rest => (readNat rest).map fun r => (-(r.1 : Int), r.2)
  | _ => (readNat text).map fun r => ((r.1 : Int), r.2)

theorem readInt_of_digit {text : List Char} (h : text.head? ≠ some '-') :
    readInt text = (readNat text).map fun r => ((r.1 : Int), r.2) := by
  unfold readInt
  split
  · simp at h
  · rfl

theorem readInt_intText (i : Int) {rest : List Char} (h : EndsNumber rest) :
    readInt (intText i ++ rest) = some (i, rest) := by
  cases i with
  | ofNat n =>
      have hne : natText n ≠ [] := Nat.toDigits_ne_nil
      have hhead : (natText n ++ rest).head? ≠ some '-' := by
        intro hminus
        rw [List.head?_append_of_ne_nil _ hne] at hminus
        have hdigit := Nat.isDigit_of_mem_toDigits (by decide) (by decide)
          (List.mem_of_mem_head? hminus)
        simp at hdigit
      rw [intText, readInt_of_digit hhead, readNat_natText n h]
      rfl
  | negSucc n =>
      rw [intText, List.cons_append, readInt, readNat_natText (n + 1) h]
      simp [Int.negSucc_eq]

end TomAgent.JsonText
