import Mathlib.Algebra.Order.Ring.Nat
import Mathlib.Data.List.DropRight
import TomAgent.Core.BigEndian

/-!
# Captured output

`cappedBuffer` collects what a command prints.  Up to a limit it keeps everything;
beyond it, it keeps the beginning and the last half of the limit.  The limit is a
product of machine integers that nobody checks: it can wrap around, and with a
negative one the first write slices out of range.
-/

namespace TomAgent.Executor

structure CappedBuffer where
  limit : Int
  head : Bytes
  tail : Bytes
  truncated : Bool
deriving Repr, DecidableEq

namespace CappedBuffer

/-- `newCappedBuffer`; the product is that of 64 bit integers. -/
def new (limitKB : Int64) : CappedBuffer :=
  let limitKB := if limitKB ≤ 0 then 1024 else limitKB
  ⟨(limitKB * 1024).toInt, [], [], false⟩

/-- `p[low:]`, which panics out of range. -/
def sliceFrom (p : Bytes) (low : Int) : Option Bytes :=
  if 0 ≤ low ∧ low ≤ p.length then some (p.drop low.toNat) else none

def sliceTo (p : Bytes) (high : Int) : Option Bytes :=
  if 0 ≤ high ∧ high ≤ p.length then some (p.take high.toNat) else none

/-- The bytes that do not fit any more: the head is filled up to `half`, the rest
goes to the tail. -/
def spill (b : CappedBuffer) (half : Int) (p : Bytes) : Option CappedBuffer :=
  if b.head.length < half then do
    let need := half - b.head.length
    let front ← sliceTo p (min need p.length)
    let b := { b with head := b.head ++ front }
    if need < p.length then do
      let rest ← sliceFrom p need
      pure { b with tail := b.tail ++ rest }
    else pure b
  else pure { b with tail := b.tail ++ p }

def write (b : CappedBuffer) (p : Bytes) : Option CappedBuffer :=
  let half := b.limit.tdiv 2
  let total := b.head.length + b.tail.length
  if (total + p.length : Int) ≤ b.limit then
    if 0 < b.tail.length then some { b with tail := b.tail ++ p }
    else some { b with head := b.head ++ p }
  else do
    let b ← spill { b with truncated := true } half p
    if half < b.tail.length then do
      let tail ← sliceFrom b.tail (b.tail.length - half)
      pure { b with tail := tail }
    else pure b

def writeAll (b : CappedBuffer) : List Bytes → Option CappedBuffer
  | [] => some b
  | p :: rest => (b.write p).bind fun b => b.writeAll rest

def truncationMark : Bytes := "\n...[TRUNCATED]...\n".toUTF8.toList

def text (b : CappedBuffer) : Bytes :=
  if b.truncated then b.head ++ truncationMark ++ b.tail else b.head ++ b.tail

/-! ## The limit -/

/-- The limit is even, whatever the product wraps around to. -/
theorem exists_half (limitKB : Int64) : ∃ h : Int, (new limitKB).limit = 2 * h := by
  have hproduct : ∀ kb : Int64, ∃ h : Int, (kb * 1024).toInt = 2 * h := by
    intro kb
    have hwrap := Int64.toInt_mul kb 1024
    have hfactor : (1024 : Int64).toInt = 1024 := rfl
    rw [hfactor, Int.bmod_def] at hwrap
    exact ⟨(kb * 1024).toInt / 2, by omega⟩
  exact hproduct _

/-! ## The last bytes of a stream -/

theorem rtake_of_length_le {l : Bytes} {n : Nat} (h : l.length ≤ n) : l.rtake n = l := by
  rw [List.rtake, Nat.sub_eq_zero_of_le h, List.drop_zero]

theorem rtake_length (l : Bytes) (n : Nat) : (l.rtake n).length = min n l.length := by
  rw [List.rtake, List.length_drop]
  omega

theorem rtake_append_of_le {l p : Bytes} {n : Nat} (h : n ≤ p.length) :
    (l ++ p).rtake n = p.rtake n := by
  have hcut : l.length + p.length - n = l.length + (p.length - n) := by omega
  rw [List.rtake, List.rtake, List.length_append, hcut, List.drop_append,
    List.drop_of_length_le (Nat.le_add_right _ _), Nat.add_sub_cancel_left, List.nil_append]

theorem rtake_rtake_append (l p : Bytes) (n : Nat) :
    (l.rtake n ++ p).rtake n = (l ++ p).rtake n := by
  by_cases hl : l.length ≤ n
  · rw [rtake_of_length_le hl]
  · have hlength := rtake_length l n
    have hsplit : l ++ p = l.take (l.length - n) ++ (l.rtake n ++ p) := by
      rw [List.rtake, ← List.append_assoc, List.take_append_drop]
    have hlong : n ≤ (l.rtake n ++ p).length := by
      rw [List.length_append]
      omega
    rw [hsplit, rtake_append_of_le hlong]

/-! ## What the buffer holds -/

/-- The buffer after the bytes `data`: everything, or the beginning and the last
`half` bytes of the rest. -/
inductive Caps (half : Nat) (data : Bytes) : CappedBuffer → Prop
  | whole (hfits : data.length ≤ 2 * half) : Caps half data ⟨2 * half, data, [], false⟩
  | cut (head rest : Bytes) (hdata : data = head ++ rest) (hlong : 2 * half < data.length)
      (hhead : half ≤ head.length) (hlimit : head.length ≤ 2 * half) :
      Caps half data ⟨2 * half, head, rest.rtake half, true⟩

theorem tdiv_half (half : Nat) : (2 * half : Int).tdiv 2 = half := by
  rw [Int.mul_tdiv_cancel_left _ (by decide)]

theorem sliceFrom_of_le {p : Bytes} {n : Nat} (h : n ≤ p.length) :
    sliceFrom p n = some (p.drop n) := by
  simp [sliceFrom, h]

theorem trim_tail (b : CappedBuffer) (half : Nat) :
    (if (half : Int) < b.tail.length then do
        let tail ← sliceFrom b.tail (b.tail.length - half)
        pure { b with tail := tail }
      else pure b) = some { b with tail := b.tail.rtake half } := by
  by_cases hlong : half < b.tail.length
  · have hlow : (b.tail.length - half : Int) = (b.tail.length - half : Nat) := by omega
    rw [if_pos (by exact_mod_cast hlong), hlow, sliceFrom_of_le (by omega)]
    rfl
  · rw [if_neg (by exact_mod_cast hlong), rtake_of_length_le (by omega)]
    rfl

theorem spill_full {b : CappedBuffer} {half : Nat} (h : half ≤ b.head.length) (p : Bytes) :
    b.spill half p = some { b with tail := b.tail ++ p } := by
  rw [spill, if_neg (by omega)]
  rfl

theorem spill_fill {b : CappedBuffer} {half : Nat} (h : b.head.length < half) {p : Bytes}
    (hp : half < b.head.length + p.length) :
    b.spill half p = some { b with
      head := b.head ++ p.take (half - b.head.length)
      tail := b.tail ++ p.drop (half - b.head.length) } := by
  have hneed : (half - b.head.length : Int) = (half - b.head.length : Nat) := by omega
  have hmin : min ((half - b.head.length : Nat) : Int) p.length = (half - b.head.length : Nat) := by
    omega
  have hfront : sliceTo p (half - b.head.length : Nat) = some (p.take (half - b.head.length)) := by
    have hle : half - b.head.length ≤ p.length := by omega
    rw [sliceTo, if_pos (by omega), Int.toNat_natCast]
  have hrest : sliceFrom p (half - b.head.length : Nat) = some (p.drop (half - b.head.length)) :=
    sliceFrom_of_le (by omega)
  have hmore : ((half - b.head.length : Nat) : Int) < p.length := by omega
  rw [spill, if_pos (by omega)]
  simp only [hneed, hmin, hfront, Option.bind_eq_bind, Option.bind_some, if_pos hmore, hrest]
  rfl

theorem write_of_gt {head tail p : Bytes} {half : Nat} {truncated : Bool}
    (h : 2 * half < head.length + tail.length + p.length) {full : CappedBuffer}
    (hspill : spill ⟨2 * half, head, tail, true⟩ half p = some full) :
    write ⟨2 * half, head, tail, truncated⟩ p = some { full with tail := full.tail.rtake half } := by
  have htrim := trim_tail full half
  simp only [write, tdiv_half]
  rw [if_neg (by omega), hspill]
  exact htrim

theorem write_whole_fits {half : Nat} {data p : Bytes}
    (hroom : data.length + p.length ≤ 2 * half) :
    write ⟨2 * half, data, [], false⟩ p = some ⟨2 * half, data ++ p, [], false⟩ := by
  have htotal : ((data.length + ([] : Bytes).length : Nat) + p.length : Int) ≤ 2 * half := by
    simp only [List.length_nil]
    omega
  simp only [write]
  rw [if_pos (by simpa using htotal)]
  simp

/-- The write that does not fit decides what the head is. -/
theorem write_whole_over {half : Nat} {data p : Bytes}
    (hover : 2 * half < data.length + p.length) :
    write ⟨2 * half, data, [], false⟩ p =
      some ⟨2 * half, (data ++ p).take (max half data.length),
        ((data ++ p).drop (max half data.length)).rtake half, true⟩ := by
  by_cases hhead : half ≤ data.length
  · have hspill := @spill_full ⟨2 * half, data, [], true⟩ half hhead p
    rw [write_of_gt (by simp only [List.length_nil]; omega) hspill, Nat.max_eq_right hhead,
      List.take_left, List.drop_left]
    rfl
  · have hspill := @spill_fill ⟨2 * half, data, [], true⟩ half (Nat.lt_of_not_le hhead) p
      (by dsimp only; omega)
    have hfront : (data ++ p).take half = data ++ p.take (half - data.length) := by
      rw [List.take_append, List.take_of_length_le (Nat.le_of_not_le hhead)]
    have hback : (data ++ p).drop half = p.drop (half - data.length) := by
      rw [List.drop_append, List.drop_of_length_le (Nat.le_of_not_le hhead), List.nil_append]
    rw [write_of_gt (by simp only [List.length_nil]; omega) hspill,
      Nat.max_eq_left (Nat.le_of_not_le hhead), hfront, hback]
    rfl

/-- A write to a buffer that has dropped something already: the head stays. -/
theorem write_cut {half : Nat} {head rest : Bytes} (hlong : 2 * half < (head ++ rest).length)
    (hhead : half ≤ head.length) (p : Bytes) :
    write ⟨2 * half, head, rest.rtake half, true⟩ p =
      some ⟨2 * half, head, (rest ++ p).rtake half, true⟩ := by
  have hrest := rtake_length rest half
  by_cases hroom : head.length + (rest.rtake half).length + p.length ≤ 2 * half
  · -- the tail is not full, or nothing is written: it is the whole rest in both cases
    rw [List.length_append] at hlong
    have hshort : (rest ++ p).rtake half = rest.rtake half ++ p := by
      rw [← rtake_rtake_append, rtake_of_length_le]
      rw [List.length_append]
      omega
    simp only [write]
    rw [if_pos (by omega), hshort]
    by_cases hempty : 0 < (rest.rtake half).length
    · rw [if_pos hempty]
    · have hp : p = [] := List.eq_nil_of_length_eq_zero (by omega)
      rw [if_neg hempty, hp, List.append_nil, List.append_nil]
  · have hspill := @spill_full ⟨2 * half, head, rest.rtake half, true⟩ half hhead p
    rw [write_of_gt (Nat.lt_of_not_le hroom) hspill]
    dsimp only
    rw [rtake_rtake_append]

theorem Caps.write_whole {half : Nat} {data : Bytes} (hfits : data.length ≤ 2 * half) (p : Bytes) :
    ∃ b, CappedBuffer.write ⟨2 * half, data, [], false⟩ p = some b ∧ Caps half (data ++ p) b := by
  have hlength : (data ++ p).length = data.length + p.length := List.length_append
  by_cases hroom : data.length + p.length ≤ 2 * half
  · exact ⟨_, write_whole_fits hroom, .whole (by omega)⟩
  · refine ⟨_, write_whole_over (Nat.lt_of_not_le hroom), ?_⟩
    refine .cut _ _ (List.take_append_drop _ _).symm (by omega) ?_ ?_
    · rw [List.length_take]
      omega
    · rw [List.length_take]
      omega

theorem Caps.write_cut {half : Nat} {head rest : Bytes} (hlong : 2 * half < (head ++ rest).length)
    (hhead : half ≤ head.length) (hlimit : head.length ≤ 2 * half) (p : Bytes) :
    ∃ b, CappedBuffer.write ⟨2 * half, head, rest.rtake half, true⟩ p = some b ∧
      Caps half (head ++ rest ++ p) b := by
  have hmore : 2 * half < (head ++ rest ++ p).length := by
    rw [List.length_append]
    omega
  exact ⟨_, CappedBuffer.write_cut hlong hhead p,
    .cut head (rest ++ p) (List.append_assoc _ _ _) hmore hhead hlimit⟩

theorem Caps.write {half : Nat} {data : Bytes} {b : CappedBuffer} (h : Caps half data b)
    (p : Bytes) : ∃ b', b.write p = some b' ∧ Caps half (data ++ p) b' := by
  cases h with
  | whole hfits => exact Caps.write_whole hfits p
  | cut head rest hdata hlong hhead hlimit =>
      subst hdata
      exact Caps.write_cut hlong hhead hlimit p

theorem Caps.writeAll {half : Nat} {data : Bytes} {b : CappedBuffer} (h : Caps half data b)
    (writes : List Bytes) :
    ∃ b', b.writeAll writes = some b' ∧ Caps half (data ++ writes.flatten) b' := by
  induction writes generalizing data b with
  | nil => exact ⟨b, rfl, by simpa using h⟩
  | cons p rest ih =>
      obtain ⟨b', hwrite, h'⟩ := h.write p
      obtain ⟨b'', hrest, h''⟩ := ih h'
      refine ⟨b'', by rw [CappedBuffer.writeAll, hwrite, Option.bind_some, hrest], ?_⟩
      rwa [List.flatten_cons, ← List.append_assoc]

/-- What the buffer is for: `data` as it is up to the limit, else a head of at least
half the limit, the last bytes up to half the limit, and one block missing between. -/
structure HeadAndTail (data : Bytes) (b : CappedBuffer) : Prop where
  truncated : b.truncated = true ↔ b.limit < data.length
  whole : data.length ≤ b.limit → b.text = data
  parts : b.limit < data.length → ∃ missing, data = b.head ++ missing ++ b.tail ∧
    b.limit.tdiv 2 ≤ b.head.length ∧ b.head.length ≤ b.limit ∧
    b.tail.length = min (b.limit.tdiv 2) (data.length - b.head.length)

theorem Caps.headAndTail {half : Nat} {data : Bytes} {b : CappedBuffer} (h : Caps half data b) :
    HeadAndTail data b := by
  cases h with
  | whole hfits =>
      refine ⟨?_, ?_, ?_⟩
      · simp only [Bool.false_eq_true, false_iff]
        omega
      · intro _
        simp [text]
      · intro hlong
        dsimp only at hlong
        omega
  | cut head rest hdata hlong hhead hlimit =>
      have hlength := rtake_length rest half
      have hall : data.length = head.length + rest.length := by rw [hdata, List.length_append]
      refine ⟨?_, ?_, ?_⟩
      · simp only [true_iff]
        omega
      · intro hshort
        dsimp only at hshort
        omega
      · intro _
        dsimp only
        rw [tdiv_half]
        refine ⟨rest.take (rest.length - half), ?_, by omega, by omega, by omega⟩
        rw [List.rtake, List.append_assoc, List.take_append_drop, hdata]

theorem write_of_neg {half : Int} (h : half < 0) (p : Bytes) :
    write ⟨2 * half, [], [], false⟩ p = none := by
  have hhalf : (2 * half).tdiv 2 = half := Int.mul_tdiv_cancel_left _ (by decide)
  have hspill : spill ⟨2 * half, [], [], true⟩ half p = some ⟨2 * half, [], p, true⟩ := by
    rw [spill, if_neg (by simp only [List.length_nil]; omega)]
    rfl
  have hrange : sliceFrom p (p.length - half) = none := by
    rw [sliceFrom, if_neg (by omega)]
  simp only [write, hhalf]
  rw [if_neg (by simp only [List.length_nil]; omega), hspill]
  simp only [Option.bind_eq_bind, Option.bind_some, hrange, Option.bind_none]
  rw [if_pos (by omega)]

end CappedBuffer

open CappedBuffer

/-- For every `limitKB` and every sequence of writes, all writes return and the buffer has the
whole output, or a head and a tail of it with one block missing, if and only if the limit has
not wrapped around to a negative number. -/
theorem capped_output_iff (limitKB : Int64) (writes : List Bytes) :
    (∃ b, (new limitKB).writeAll writes = some b ∧ b.limit = (new limitKB).limit ∧
      HeadAndTail writes.flatten b) ↔ 0 ≤ (new limitKB).limit := by
  obtain ⟨half, hlimit⟩ := exists_half limitKB
  have hnew : new limitKB = ⟨2 * half, [], [], false⟩ := by rw [← hlimit]; rfl
  rw [hnew]
  constructor
  · rintro ⟨b, hwrites, -, hspec⟩
    by_contra hneg
    dsimp only at hneg
    cases writes with
    | nil =>
        cases hwrites
        have htruncated := hspec.truncated.mpr (by
          simp only [List.flatten_nil, List.length_nil]
          omega)
        cases htruncated
    | cons p rest =>
        rw [writeAll, write_of_neg (by omega)] at hwrites
        cases hwrites
  · intro hpos
    dsimp only at hpos
    obtain ⟨h, rfl⟩ := Int.eq_ofNat_of_zero_le (show 0 ≤ half by omega)
    have hempty : Caps h [] ⟨2 * h, [], [], false⟩ := .whole (Nat.zero_le _)
    obtain ⟨b, hwrites, hcaps⟩ := hempty.writeAll writes
    refine ⟨b, hwrites, ?_, hcaps.headAndTail⟩
    cases hcaps with
    | whole => rfl
    | cut => rfl

/-- The product wraps around: without output `Truncated` is wrong, and a write panics. -/
theorem capped_limit_wraps :
    (new 9007199254740992).limit = -9223372036854775808 ∧
      (new 9007199254740992).truncated = false ∧ (new 9007199254740992).write [65] = none := by
  decide

end TomAgent.Executor
