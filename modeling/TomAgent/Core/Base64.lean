import TomAgent.Core.BigEndian

/-!
# Base64

The standard alphabet with padding.  A decoder skips line breaks and ignores the
bits that the padding leaves over.
-/

namespace TomAgent.Base64

def alphabet : List Char :=
  ['A', 'B', 'C', 'D', 'E', 'F', 'G', 'H', 'I', 'J', 'K', 'L', 'M', 'N', 'O', 'P',
    'Q', 'R', 'S', 'T', 'U', 'V', 'W', 'X', 'Y', 'Z', 'a', 'b', 'c', 'd', 'e', 'f',
    'g', 'h', 'i', 'j', 'k', 'l', 'm', 'n', 'o', 'p', 'q', 'r', 's', 't', 'u', 'v',
    'w', 'x', 'y', 'z', '0', '1', '2', '3', '4', '5', '6', '7', '8', '9', '+', '/']

def symbol (n : Nat) : Char := alphabet.getD n '='

def value (c : Char) : Option Nat := alphabet.idxOf? c

def encode : Bytes → List Char
  | [] => []
  | [a] => [symbol (a.toNat / 4), symbol (a.toNat % 4 * 16), '=', '=']
  | [a, b] =>
      [symbol (a.toNat / 4), symbol (a.toNat % 4 * 16 + b.toNat / 16), symbol (b.toNat % 16 * 4), '=']
  | a :: b :: c :: rest =>
      symbol (a.toNat / 4) :: symbol (a.toNat % 4 * 16 + b.toNat / 16) ::
        symbol (b.toNat % 16 * 4 + c.toNat / 64) :: symbol (c.toNat % 64) :: encode rest

/-- Padding is accepted in the last group only. -/
def decode : List Char → Option Bytes
  | [] => some []
  | a :: b :: c :: d :: rest =>
      match value a, value b with
      | some a, some b =>
          let first := UInt8.ofNat (a * 4 + b / 16)
          if c = '=' ∧ d = '=' ∧ rest = [] then some [first]
          else
            match value c with
            | none => none
            | some c =>
                let second := UInt8.ofNat (b % 16 * 16 + c / 4)
                if d = '=' ∧ rest = [] then some [first, second]
                else
                  match value d with
                  | none => none
                  | some d =>
                      (decode rest).map (first :: second :: UInt8.ofNat (c % 4 * 64 + d) :: ·)
      | _, _ => none
  | _ => none

def encodeToString (bytes : Bytes) : String := String.ofList (encode bytes)

def decodeString (text : String) : Option Bytes :=
  decode (text.toList.filter fun c => c ≠ '\n' ∧ c ≠ '\r')

/-! ## Symbols -/

theorem value_symbol : ∀ n < 64, value (symbol n) = some n := by
  decide +kernel

theorem symbol_ne_padding : ∀ n < 64, symbol n ≠ '=' := by
  decide +kernel

theorem symbol_ne_break (n : Nat) : symbol n ≠ '\n' ∧ symbol n ≠ '\r' := by
  by_cases hn : n < 64
  · revert n
    decide +kernel
  · have hlength : alphabet.length = 64 := by decide +kernel
    unfold symbol
    rw [List.getD_eq_getElem?_getD, List.getElem?_eq_none (by omega)]
    decide

theorem mem_encode {bytes : Bytes} {c : Char} (h : c ∈ encode bytes) : c ≠ '\n' ∧ c ≠ '\r' := by
  induction bytes using encode.induct with
  | case1 => cases h
  | case2 a =>
      simp only [encode, List.mem_cons, List.not_mem_nil, or_false] at h
      rcases h with rfl | rfl | rfl | rfl
      · exact symbol_ne_break _
      · exact symbol_ne_break _
      · decide
      · decide
  | case3 a b =>
      simp only [encode, List.mem_cons, List.not_mem_nil, or_false] at h
      rcases h with rfl | rfl | rfl | rfl
      · exact symbol_ne_break _
      · exact symbol_ne_break _
      · exact symbol_ne_break _
      · decide
  | case4 a b c rest ih =>
      simp only [encode, List.mem_cons] at h
      rcases h with rfl | rfl | rfl | rfl | h
      · exact symbol_ne_break _
      · exact symbol_ne_break _
      · exact symbol_ne_break _
      · exact symbol_ne_break _
      · exact ih h

/-! ## Round trip -/

theorem ofNat_eq {n : Nat} {b : UInt8} (h : n = b.toNat) : UInt8.ofNat n = b := by
  rw [h, UInt8.ofNat_toNat]

theorem decode_encode (bytes : Bytes) : decode (encode bytes) = some bytes := by
  induction bytes using encode.induct with
  | case1 => rfl
  | case2 a =>
      have ha := a.toNat_lt
      have hfirst : UInt8.ofNat (a.toNat / 4 * 4 + a.toNat % 4 * 16 / 16) = a := ofNat_eq (by omega)
      simp only [encode, decode, value_symbol _ (show a.toNat / 4 < 64 by omega),
        value_symbol _ (show a.toNat % 4 * 16 < 64 by omega), and_self, if_true, hfirst]
  | case3 a b =>
      have ha := a.toNat_lt
      have hb := b.toNat_lt
      have hfirst : UInt8.ofNat (a.toNat / 4 * 4 + (a.toNat % 4 * 16 + b.toNat / 16) / 16) = a :=
        ofNat_eq (by omega)
      have hsecond : UInt8.ofNat ((a.toNat % 4 * 16 + b.toNat / 16) % 16 * 16 +
          b.toNat % 16 * 4 / 4) = b := ofNat_eq (by omega)
      have hthird : b.toNat % 16 * 4 < 64 := by omega
      simp only [encode, decode, value_symbol _ (show a.toNat / 4 < 64 by omega),
        value_symbol _ (show a.toNat % 4 * 16 + b.toNat / 16 < 64 by omega),
        value_symbol _ hthird, symbol_ne_padding _ hthird, false_and, and_self, if_false, if_true,
        hfirst, hsecond]
  | case4 a b c rest ih =>
      have ha := a.toNat_lt
      have hb := b.toNat_lt
      have hc := c.toNat_lt
      have hfirst : UInt8.ofNat (a.toNat / 4 * 4 + (a.toNat % 4 * 16 + b.toNat / 16) / 16) = a :=
        ofNat_eq (by omega)
      have hsecond : UInt8.ofNat ((a.toNat % 4 * 16 + b.toNat / 16) % 16 * 16 +
          (b.toNat % 16 * 4 + c.toNat / 64) / 4) = b := ofNat_eq (by omega)
      have hlast : UInt8.ofNat ((b.toNat % 16 * 4 + c.toNat / 64) % 4 * 64 + c.toNat % 64) = c :=
        ofNat_eq (by omega)
      have hthird : b.toNat % 16 * 4 + c.toNat / 64 < 64 := by omega
      have hfourth : c.toNat % 64 < 64 := by omega
      simp only [encode, decode, value_symbol _ (show a.toNat / 4 < 64 by omega),
        value_symbol _ (show a.toNat % 4 * 16 + b.toNat / 16 < 64 by omega),
        value_symbol _ hthird, symbol_ne_padding _ hthird, value_symbol _ hfourth,
        symbol_ne_padding _ hfourth, false_and, if_false, hfirst, hsecond, hlast, ih,
        Option.map_some]

theorem decodeString_encodeToString (bytes : Bytes) :
    decodeString (encodeToString bytes) = some bytes := by
  unfold decodeString encodeToString
  rw [String.toList_ofList, List.filter_eq_self.mpr, decode_encode]
  intro c hc
  exact decide_eq_true (mem_encode hc)

end TomAgent.Base64
