import Mathlib.Algebra.Order.Ring.Nat
import Mathlib.Data.Nat.Log
import TomAgent.Core.BigEndian

/-!
# Messages in the protocol buffer format

A message is the concatenation of its fields, each with a tag that holds the number
of the field and how its value is written.  Numbers are written seven bits a byte,
byte strings and nested messages behind their length.  A field that has the default
value is left out.  Beside each encoder stands the length of what it writes.
-/

namespace TomAgent.ProtoWire

/-- Seven bits a byte, the lowest first; the top bit says that more follow. -/
def varint (n : Nat) : Bytes :=
  if n < 128 then [UInt8.ofNat n] else UInt8.ofNat (n % 128 + 128) :: varint (n / 128)

def varintSize (n : Nat) : Nat := Nat.log 128 n + 1

@[simp] theorem varint_length (n : Nat) : (varint n).length = varintSize n := by
  induction n using varint.induct with
  | case1 n hlt =>
      rw [varint, if_pos hlt, varintSize, Nat.log_of_lt hlt]
      rfl
  | case2 n hge ih =>
      have hlog : Nat.log 128 n = Nat.log 128 (n / 128) + 1 :=
        Nat.log_of_one_lt_of_le (by decide) (Nat.le_of_not_lt hge)
      rw [varint, if_neg hge, List.length_cons, ih, varintSize, varintSize, hlog]

/-- An `int64` as the 64 bits it is written as. -/
def int64Bits (i : Int) : Nat := (i % 2 ^ 64).toNat

/-! ## Fields -/

def numberTag (field : Nat) : Bytes := varint (8 * field)

def lengthTag (field : Nat) : Bytes := varint (8 * field + 2)

def numberField (field value : Nat) : Bytes :=
  if value = 0 then [] else numberTag field ++ varint value

def messageField (field : Nat) (body : Bytes) : Bytes :=
  lengthTag field ++ (varint body.length ++ body)

def bytesField (field : Nat) (value : Bytes) : Bytes :=
  if value = [] then [] else messageField field value

def numberFieldSize (field value : Nat) : Nat :=
  if value = 0 then 0 else varintSize (8 * field) + varintSize value

/-- A value of `length` bytes with its tag and its length. -/
def framedSize (field length : Nat) : Nat :=
  varintSize (8 * field + 2) + varintSize length + length

def bytesFieldSize (field length : Nat) : Nat := if length = 0 then 0 else framedSize field length

@[simp] theorem numberField_length (field value : Nat) :
    (numberField field value).length = numberFieldSize field value := by
  unfold numberField numberFieldSize
  split
  · rfl
  · rw [List.length_append, numberTag, varint_length, varint_length]

@[simp] theorem messageField_length (field : Nat) (body : Bytes) :
    (messageField field body).length = framedSize field body.length := by
  simp only [messageField, lengthTag, framedSize, List.length_append, varint_length, Nat.add_assoc]

@[simp] theorem bytesField_length (field : Nat) (value : Bytes) :
    (bytesField field value).length = bytesFieldSize field value.length := by
  unfold bytesField bytesFieldSize
  by_cases hempty : value = []
  · rw [if_pos hempty, hempty]
    rfl
  · have hlength : value.length ≠ 0 := fun h => hempty (List.eq_nil_of_length_eq_zero h)
    rw [if_neg hempty, if_neg hlength, messageField_length]

/-- A repeated field: every element has its own tag and length. -/
theorem flatMap_messageField_length {α : Type} (field : Nat) (encode : α → Bytes) (l : List α) :
    (l.flatMap fun a => messageField field (encode a)).length =
      (l.map fun a => framedSize field (encode a).length).sum := by
  simp [List.length_flatMap]

end TomAgent.ProtoWire
