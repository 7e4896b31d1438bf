import Mathlib.Data.Nat.Digits.Defs

/-!
# Numbers in decimal

Numbers with a sign in front, as `strconv` reads them, and with zeros in front, as `%06d`
writes them.
-/

namespace TomAgent.Decimal

def parse (text : List Char) : Option Int :=
  let digits := if text.head? = some '-' ∨ text.head? = some '+' then text.tail else text
  if digits ≠ [] ∧ digits.all Char.isDigit then
    let n := Nat.ofDigitChars 10 digits 0
    some (if text.head? = some '-' then -(n : Int) else n)
  else none

/-- `strconv.Atoi`: a number of 64 bits. -/
def atoi (text : List Char) : Option Int :=
  (parse text).filter fun i => -(2 ^ 63) ≤ i ∧ i < 2 ^ 63

def zeroPadded (width n : Nat) : List Char :=
  let digits := Nat.toDigits 10 n
  List.replicate (width - digits.length) '0' ++ digits

theorem zeroPadded_ne_nil (width n : Nat) : zeroPadded width n ≠ [] := by
  simp [zeroPadded, Nat.toDigits_ne_nil]

theorem zeroPadded_isDigit {width n : Nat} {c : Char} (h : c ∈ zeroPadded width n) :
    c.isDigit = true := by
  simp only [zeroPadded, List.mem_append, List.mem_replicate] at h
  rcases h with ⟨-, rfl⟩ | h
  · decide
  · exact Nat.isDigit_of_mem_toDigits (by decide) (by decide) h

theorem parse_zeroPadded (width n : Nat) : parse (zeroPadded width n) = some (n : Int) := by
  have hsign : ∀ c, c.isDigit = false → (zeroPadded width n).head? ≠ some c := by
    intro c hc h
    rw [zeroPadded_isDigit (List.mem_of_mem_head? h)] at hc
    cases hc
  have hvalue : Nat.ofDigitChars 10 (zeroPadded width n) 0 = n := by
    simp only [zeroPadded, Nat.ofDigitChars_append, Nat.ofDigitChars_replicate_zero, Nat.mul_zero]
    exact Nat.ofDigitChars_toDigits (by decide) (by decide)
  have hall : (zeroPadded width n).all Char.isDigit = true :=
    List.all_eq_true.mpr fun c hc => zeroPadded_isDigit hc
  simp [parse, hsign '-' rfl, hsign '+' rfl, zeroPadded_ne_nil, hall, hvalue]

end TomAgent.Decimal
