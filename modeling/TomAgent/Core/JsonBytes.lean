import Mathlib.Algebra.BigOperators.Group.List.Basic
import Mathlib.Algebra.Order.Ring.Nat
import TomAgent.Core.JsonText

/-!
# Strings of arbitrary bytes, and how long their JSON gets

A string in memory need not be valid UTF-8.  The encoder goes over its characters
and writes a byte that begins none as the escape of U+FFFD.  The length of what it
writes is a sum over the characters, up to six bytes for one.
-/

namespace TomAgent.JsonText

/-! ## Characters of a byte string -/

def firstRune (bytes : Bytes) : Option Char := bytes.toByteArray.utf8DecodeChar? 0

/-- The characters one after the other; `none` is a byte that begins no character. -/
def runes : Bytes → List (Option Char)
  | [] => []
  | b :: rest =>
      match firstRune (b :: rest) with
      | some c => some c :: runes ((b :: rest).drop c.utf8Size)
      | none => none :: runes rest
termination_by bytes => bytes.length
decreasing_by
  · have hpos := c.utf8Size_pos
    simp only [List.length_drop, List.length_cons]
    omega
  · simp

theorem firstRune_encode (c : Char) (rest : Bytes) :
    firstRune (String.utf8EncodeChar c ++ rest) = some c := by
  rw [firstRune, List.toByteArray_append, ByteArray.utf8DecodeChar?_utf8EncodeChar_append]

theorem runes_encode (c : Char) (rest : Bytes) :
    runes (String.utf8EncodeChar c ++ rest) = some c :: runes rest := by
  have hfirst := firstRune_encode c rest
  have hlength := String.length_utf8EncodeChar c
  have hpos := c.utf8Size_pos
  cases hbytes : String.utf8EncodeChar c ++ rest with
  | nil =>
      have hnil := congrArg List.length hbytes
      rw [List.length_append, List.length_nil] at hnil
      omega
  | cons b tail =>
      rw [hbytes] at hfirst
      simp only [runes, hfirst]
      rw [← hbytes, ← hlength, List.drop_left]

/-- The characters of a valid text. -/
@[simp] theorem runes_utf8 (text : List Char) : runes (utf8 text) = text.map some := by
  induction text with
  | nil => simp [utf8, runes]
  | cons c text ih =>
      rw [utf8, List.flatMap_cons, runes_encode]
      exact congrArg (some c :: ·) ih

/-! ## Where a string can be divided -/

theorem firstRune_eq_some_iff {bytes : Bytes} {c : Char} :
    firstRune bytes = some c ↔ ∃ rest, bytes = String.utf8EncodeChar c ++ rest := by
  constructor
  · intro h
    obtain ⟨rest, hrest⟩ := ByteArray.exists_of_utf8DecodeChar?_eq_some h
    have hlists := congrArg (fun b : ByteArray => b.data.toList) hrest
    exact ⟨rest.data.toList, by simpa using hlists⟩
  · rintro ⟨rest, rfl⟩
    exact firstRune_encode c rest

/-- A character does not go on over a byte that can begin one. -/
theorem firstRune_append {bytes : Bytes} (hne : bytes ≠ []) {b : UInt8} (hb : b.IsUTF8FirstByte)
    (rest : Bytes) : firstRune (bytes ++ b :: rest) = firstRune bytes := by
  ext c
  simp only [firstRune_eq_some_iff]
  constructor
  · rintro ⟨more, hmore⟩
    by_cases hlen : (String.utf8EncodeChar c).length ≤ bytes.length
    · obtain ⟨tail, htail⟩ : String.utf8EncodeChar c <+: bytes :=
        List.prefix_of_prefix_length_le ⟨more, hmore.symm⟩ (List.prefix_append _ _) hlen
      exact ⟨tail, htail.symm⟩
    · -- the byte would be inside the character
      have hin : bytes.length < (String.utf8EncodeChar c).length := Nat.lt_of_not_le hlen
      have hbyte : (String.utf8EncodeChar c)[bytes.length] = b := by
        have hget := congrArg (·[bytes.length]?) hmore
        simp only [List.getElem?_append_right (Nat.le_refl _), Nat.sub_self,
          List.getElem?_cons_zero, List.getElem?_append_left hin, List.getElem?_eq_getElem hin,
          Option.some.injEq] at hget
        exact hget.symm
      rw [← hbyte, UInt8.isUTF8FirstByte_getElem_utf8EncodeChar, List.length_eq_zero_iff] at hb
      exact absurd hb hne
  · rintro ⟨more, rfl⟩
    exact ⟨more ++ b :: rest, List.append_assoc _ _ _⟩

theorem runes_append (bytes : Bytes) {b : UInt8} (hb : b.IsUTF8FirstByte) (rest : Bytes) :
    runes (bytes ++ b :: rest) = runes bytes ++ runes (b :: rest) := by
  fun_induction runes bytes with
  | case1 => rfl
  | case2 a bytes c hc ih =>
      obtain ⟨more, hmore⟩ := firstRune_eq_some_iff.mp hc
      have hdrop : (a :: bytes).drop c.utf8Size = more := by
        rw [hmore, ← String.length_utf8EncodeChar, List.drop_left]
      rw [hdrop] at ih ⊢
      rw [hmore, List.append_assoc, runes_encode, ih]
      rfl
  | case3 a bytes hnone ih =>
      have hfirst := firstRune_append (List.cons_ne_nil a bytes) hb rest
      rw [hnone, List.cons_append] at hfirst
      rw [List.cons_append, runes]
      simp only [hfirst, ih]
      rfl

theorem runes_utf8_append (text : List Char) (rest : Bytes) :
    runes (utf8 text ++ rest) = runes (utf8 text) ++ runes rest := by
  induction text with
  | nil => simp [utf8, runes]
  | cons c text ih =>
      rw [utf8, List.flatMap_cons, List.append_assoc, runes_encode, runes_encode, List.cons_append]
      exact congrArg (some c :: ·) ih

def quoteRune : Option Char → List Char
  | some c => quoteChar c
  | none => escapeUnit 0xfffd

def quoteBytes (bytes : Bytes) : List Char :=
  '\x22' :: (runes bytes).flatMap quoteRune ++ ['\x22']

/-- On a valid text it is the encoding of the text. -/
@[simp] theorem quoteBytes_utf8 (text : List Char) : quoteBytes (utf8 text) = quote text := by
  rw [quoteBytes, runes_utf8, List.flatMap_map]
  rfl

/-! ## Lengths -/

def size (text : List Char) : Nat := (utf8 text).length

@[simp] theorem size_nil : size [] = 0 := rfl

@[simp] theorem size_cons (c : Char) (text : List Char) :
    size (c :: text) = c.utf8Size + size text := by
  rw [size, utf8, List.flatMap_cons, List.length_append, String.length_utf8EncodeChar]
  rfl

@[simp] theorem size_append (front back : List Char) :
    size (front ++ back) = size front + size back := by
  rw [size, utf8, List.flatMap_append, List.length_append]
  rfl

theorem size_flatMap {α : Type} (f : α → List Char) (l : List α) :
    size (l.flatMap f) = (l.map fun a => size (f a)).sum := by
  induction l with
  | nil => rfl
  | cons a l ih => rw [List.flatMap_cons, size_append, ih, List.map_cons, List.sum_cons]

def charCost (c : Char) : Nat :=
  if (shortEscape c).isSome then 2 else if needsUnit c then 6 else c.utf8Size

def runeCost : Option Char → Nat
  | some c => charCost c
  | none => 6

/-- The bytes written for a string, without the quotes around it. -/
def cost (bytes : Bytes) : Nat := ((runes bytes).map runeCost).sum

theorem cost_append (bytes : Bytes) {b : UInt8} (hb : b.IsUTF8FirstByte) (rest : Bytes) :
    cost (bytes ++ b :: rest) = cost bytes + cost (b :: rest) := by
  rw [cost, runes_append bytes hb, List.map_append, List.sum_append]
  rfl

theorem cost_utf8_append (text : List Char) (rest : Bytes) :
    cost (utf8 text ++ rest) = cost (utf8 text) + cost rest := by
  rw [cost, runes_utf8_append, List.map_append, List.sum_append]
  rfl

theorem utf8Size_digitChar : ∀ d < 16, (Nat.digitChar d).utf8Size = 1 := by decide

theorem size_escapeUnit (n : Nat) : size (escapeUnit n) = 6 := by
  have hdigit : ∀ m, (Nat.digitChar (m % 16)).utf8Size = 1 := fun m =>
    utf8Size_digitChar (m % 16) (Nat.mod_lt m (by decide))
  simp [escapeUnit, hdigit, show '\\'.utf8Size = 1 from rfl, show 'u'.utf8Size = 1 from rfl]

theorem utf8Size_shortEscape {c e : Char} (h : shortEscape c = some e) : e.utf8Size = 1 := by
  unfold shortEscape at h
  repeat' split at h
  all_goals
    cases h
    try rfl

theorem size_quoteChar (c : Char) : size (quoteChar c) = charCost c := by
  unfold quoteChar charCost
  cases hshort : shortEscape c with
  | some e =>
      simp [utf8Size_shortEscape hshort, show '\\'.utf8Size = 1 from rfl]
  | none =>
      by_cases hunit : needsUnit c = true
      · simp [hunit, size_escapeUnit]
      · simp [hunit]

theorem size_quoteRune (r : Option Char) : size (quoteRune r) = runeCost r := by
  cases r with
  | some c => exact size_quoteChar c
  | none => exact size_escapeUnit _

theorem size_quoteBytes (bytes : Bytes) : size (quoteBytes bytes) = 2 + cost bytes := by
  have hquote : '\x22'.utf8Size = 1 := rfl
  have hrunes : size ((runes bytes).flatMap quoteRune) = cost bytes := by
    rw [size_flatMap]
    exact congrArg List.sum (List.map_congr_left fun r _ => size_quoteRune r)
  simp only [quoteBytes, List.cons_append, size_cons, size_append, size_nil, hrunes, hquote]
  omega

theorem size_quote (text : List Char) : size (quote text) = 2 + cost (utf8 text) := by
  rw [← quoteBytes_utf8, size_quoteBytes]

theorem cost_replicate (n : Nat) (c : Char) :
    cost (utf8 (List.replicate n c)) = n * charCost c := by
  rw [cost, runes_utf8, List.map_map, List.map_replicate, List.sum_replicate]
  rfl

/-- A NUL byte becomes an escape of six bytes. -/
theorem cost_replicate_zero (n : Nat) : cost (List.replicate n 0) = n * 6 := by
  have htext : utf8 (List.replicate n '\x00') = List.replicate n 0 := by
    induction n with
    | zero => rfl
    | succ n ih =>
        rw [List.replicate_succ, utf8, List.flatMap_cons, List.replicate_succ]
        exact congrArg (0 :: ·) ih
  rw [← htext, cost_replicate]
  rfl

end TomAgent.JsonText
