import Mathlib.Algebra.Order.Ring.Nat
import Mathlib.Data.List.Basic

/-!
# Fixed-width big-endian integers

The byte order of network headers and length prefixes.  `encode width` writes
exactly `width` octets and truncates, `decode` reads any number of octets, and
the two are inverse below `256 ^ width`.
-/

namespace TomAgent

abbrev Bytes := List UInt8

namespace BigEndian

/-- Big endian, truncating to exactly `width` octets. -/
def encode : Nat → Nat → Bytes
  | 0, _ => []
  | width + 1, n => UInt8.ofNat (n / 256 ^ width) :: encode width n

def decode : Bytes → Nat
  | [] => 0
  | b :: rest => b.toNat * 256 ^ rest.length + decode rest

@[simp] theorem encode_length (width n : Nat) : (encode width n).length = width := by
  induction width with
  | zero => rfl
  | succ width ih => simp [encode, ih]

theorem decode_encode (width n : Nat) : decode (encode width n) = n % 256 ^ width := by
  induction width with
  | zero => simp [encode, decode, Nat.mod_one]
  | succ width ih =>
      simp only [encode, decode, encode_length, ih, UInt8.toNat_ofNat']
      have hsplit : n % 256 ^ (width + 1) =
          n % 256 ^ width + 256 ^ width * (n / 256 ^ width % 256) := by
        rw [Nat.pow_succ, Nat.mod_mul]
      rw [hsplit, Nat.mul_comm (256 ^ width), Nat.add_comm]

theorem decode_encode_of_lt {width n : Nat} (h : n < 256 ^ width) :
    decode (encode width n) = n := by
  rw [decode_encode, Nat.mod_eq_of_lt h]

/-- The leading octets are the encoding of the number without its low octets. -/
theorem encode_take (front back n : Nat) :
    (encode (front + back) n).take front = encode front (n / 256 ^ back) := by
  induction front with
  | zero => simp [encode]
  | succ front ih =>
      have hdigit : n / 256 ^ (front + back) = n / 256 ^ back / 256 ^ front := by
        rw [Nat.div_div_eq_div_mul, ← Nat.pow_add, Nat.add_comm]
      rw [Nat.succ_add, encode, encode, List.take_succ_cons, ih, hdigit]

theorem decode_encode_take {width n : Nat} (h : n < 256 ^ width) (k : Nat) :
    decode ((encode width n).take k) = n / 256 ^ (width - k) := by
  by_cases hk : k ≤ width
  · obtain ⟨back, rfl⟩ := Nat.exists_eq_add_of_le hk
    have hsmall : n / 256 ^ back < 256 ^ k := by
      rw [Nat.div_lt_iff_lt_mul (Nat.pow_pos (by decide)), ← Nat.pow_add]
      exact h
    rw [encode_take, decode_encode_of_lt hsmall, Nat.add_sub_cancel_left]
  · have hzero : width - k = 0 := by omega
    rw [List.take_of_length_le (by rw [encode_length]; omega), decode_encode_of_lt h, hzero,
      Nat.pow_zero, Nat.div_one]

theorem encode_inj {width m n : Nat} (hm : m < 256 ^ width) (hn : n < 256 ^ width)
    (h : encode width m = encode width n) : m = n := by
  have hd := congrArg decode h
  rwa [decode_encode_of_lt hm, decode_encode_of_lt hn] at hd

theorem decode_append (xs ys : Bytes) :
    decode (xs ++ ys) = decode xs * 256 ^ ys.length + decode ys := by
  induction xs with
  | nil => simp [decode]
  | cons b rest ih =>
      simp only [List.cons_append, decode, ih, List.length_append, Nat.pow_add]
      rw [Nat.add_mul, Nat.mul_assoc, Nat.add_assoc]

theorem decode_replicate_zero (n : Nat) : decode (List.replicate n 0) = 0 := by
  induction n with
  | zero => rfl
  | succ n ih => simp [List.replicate_succ, decode, ih]

end BigEndian

end TomAgent
