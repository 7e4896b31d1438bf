import TomAgent.Executor.CappedBuffer

/-!
# Captured output and how it was written

The head of a captured output is whatever had been written before the first write that
did not fit, and never less than half the limit.  How many bytes those are depends on
how the output was divided into writes, and the tail is cut back to half the limit
without looking at the head: together they can be more than the limit.
-/

namespace TomAgent.Executor

namespace CappedBuffer

/-- How many bytes there are, after `n` others, before the first write beyond the limit. -/
def fitted (limit : Int) : Nat → List Bytes → Nat
  | n, [] => n
  | n, p :: rest => if (n + p.length : Int) ≤ limit then fitted limit (n + p.length) rest else n

def retained (b : CappedBuffer) : Nat := b.head.length + b.tail.length

def Reached (b : CappedBuffer) (writes : List Bytes) (state : CappedBuffer) : Prop :=
  ∃ k, b.writeAll (writes.take k) = some state

theorem fitted_le {limit : Int} {n : Nat} (h : n ≤ limit) (writes : List Bytes) :
    fitted limit n writes ≤ limit := by
  induction writes generalizing n with
  | nil => exact h
  | cons p rest ih =>
      unfold fitted
      split
      next hroom => exact ih (by exact_mod_cast hroom)
      next => exact h

theorem le_fitted (limit : Int) (n : Nat) (writes : List Bytes) : n ≤ fitted limit n writes := by
  induction writes generalizing n with
  | nil => exact Nat.le_refl n
  | cons p rest ih =>
      unfold fitted
      split
      next => exact Nat.le_trans (Nat.le_add_right n p.length) (ih _)
      next => exact Nat.le_refl n

theorem fitted_take_le (limit : Int) (n : Nat) (writes : List Bytes) (k : Nat) :
    fitted limit n (writes.take k) ≤ fitted limit n writes := by
  induction writes generalizing n k with
  | nil => rw [List.take_nil]
  | cons p rest ih =>
      cases k with
      | zero => exact le_fitted limit n (p :: rest)
      | succ k =>
          rw [List.take_succ_cons]
          unfold fitted
          split
          next => exact ih _ k
          next => exact Nat.le_refl n

/-! ## The buffer after all writes -/

def headAndTail (half n : Nat) (data : Bytes) : CappedBuffer :=
  ⟨2 * half, data.take n, (data.drop n).rtake half, true⟩

theorem writeAll_cut {half : Nat} {head rest : Bytes} (hlong : 2 * half < (head ++ rest).length)
    (hhead : half ≤ head.length) (writes : List Bytes) :
    writeAll ⟨2 * half, head, rest.rtake half, true⟩ writes =
      some ⟨2 * half, head, (rest ++ writes.flatten).rtake half, true⟩ := by
  induction writes generalizing rest with
  | nil => rw [List.flatten_nil, List.append_nil, writeAll]
  | cons p writes ih =>
      have hmore : 2 * half < (head ++ (rest ++ p)).length := by
        rw [← List.append_assoc, List.length_append]
        omega
      rw [writeAll, write_cut hlong hhead, Option.bind_some, ih hmore, List.flatten_cons,
        List.append_assoc]

/-- Everything, or a head whose length depends on the writes. -/
theorem writeAll_whole {half : Nat} {data : Bytes} (hfits : data.length ≤ 2 * half)
    (writes : List Bytes) :
    writeAll ⟨2 * half, data, [], false⟩ writes =
      some (if (data ++ writes.flatten).length ≤ 2 * half
        then ⟨2 * half, data ++ writes.flatten, [], false⟩
        else headAndTail half (max half (fitted (2 * half) data.length writes))
          (data ++ writes.flatten)) := by
  induction writes generalizing data with
  | nil => rw [List.flatten_nil, List.append_nil, if_pos hfits, writeAll]
  | cons p writes ih =>
      have hlength : (data ++ p).length = data.length + p.length := List.length_append
      rw [writeAll, List.flatten_cons, ← List.append_assoc]
      by_cases hroom : data.length + p.length ≤ 2 * half
      · have hfitted : fitted (2 * half) data.length (p :: writes) =
            fitted (2 * half) (data.length + p.length) writes := if_pos (by exact_mod_cast hroom)
        rw [write_whole_fits hroom, Option.bind_some, ih (by omega), hlength, hfitted]
      · -- this is the write that decides
        have hfitted : fitted (2 * half) data.length (p :: writes) = data.length :=
          if_neg (by exact_mod_cast hroom)
        have hcut : max half data.length ≤ (data ++ p).length := by omega
        have hhead : ((data ++ p).take (max half data.length)).length = max half data.length := by
          rw [List.length_take, Nat.min_eq_left hcut]
        rw [write_whole_over (Nat.lt_of_not_le hroom), Option.bind_some,
          writeAll_cut (by rw [List.take_append_drop]; omega) (by omega),
          if_neg (by rw [List.length_append]; omega), hfitted, headAndTail,
          List.take_append_of_le_length hcut, List.drop_append_of_le_length hcut]

theorem retained_headAndTail {half n : Nat} {data : Bytes} (hn : n ≤ data.length) :
    (headAndTail half n data).retained = n + min half (data.length - n) := by
  rw [retained, headAndTail]
  dsimp only
  rw [List.length_take, Nat.min_eq_left hn, rtake_length, List.length_drop]

/-- The buffer keeps to the limit unless more than half of it was there before the first
write that did not fit. -/
theorem retained_le_iff {half n : Nat} {data : Bytes} (hlong : 2 * half < data.length)
    (hn : n ≤ 2 * half) : (headAndTail half (max half n) data).retained ≤ 2 * half ↔ n ≤ half := by
  rw [retained_headAndTail (by omega)]
  omega

theorem retained_reached_le {half : Nat} {writes : List Bytes}
    (h : writes.flatten.length ≤ 2 * half ∨ fitted (2 * half) 0 writes ≤ half)
    {state : CappedBuffer} (hstate : Reached ⟨2 * half, [], [], false⟩ writes state) :
    state.retained ≤ 2 * half := by
  obtain ⟨k, hk⟩ := hstate
  rw [writeAll_whole (Nat.zero_le _), List.nil_append, Option.some.injEq] at hk
  subst hk
  by_cases hshort : (writes.take k).flatten.length ≤ 2 * half
  · rw [if_pos hshort, retained]
    simpa using hshort
  · have hlength : (writes.take k).flatten.length ≤ writes.flatten.length := by
      conv_rhs => rw [← List.take_append_drop k writes, List.flatten_append, List.length_append]
      exact Nat.le_add_right _ _
    have hfew := fitted_take_le (2 * half) 0 writes k
    have hlimit := @fitted_le (2 * half) 0 (by omega) (writes.take k)
    rw [if_neg hshort, List.length_nil]
    exact (retained_le_iff (Nat.lt_of_not_le hshort) (by omega)).mpr (by omega)

theorem keeps_limit_iff (half : Nat) (writes : List Bytes) :
    (∀ state, Reached ⟨2 * half, [], [], false⟩ writes state → (state.retained : Int) ≤ 2 * half) ↔
      (writes.flatten.length : Int) ≤ 2 * half ∨ (fitted (2 * half) 0 writes : Int) ≤ half := by
  constructor
  · intro hbound
    by_cases hshort : writes.flatten.length ≤ 2 * half
    · exact .inl (by exact_mod_cast hshort)
    · have hlast := hbound (headAndTail half (max half (fitted (2 * half) 0 writes)) writes.flatten)
        ⟨writes.length, by
          rw [List.take_length, writeAll_whole (Nat.zero_le _), List.nil_append, if_neg hshort]
          rfl⟩
      have hlimit : fitted (2 * half) 0 writes ≤ 2 * half := by
        exact_mod_cast @fitted_le (2 * half) 0 (by omega) writes
      have hfew := (retained_le_iff (Nat.lt_of_not_le hshort) hlimit).mp (by exact_mod_cast hlast)
      exact .inr (by exact_mod_cast hfew)
  · intro hcond state hstate
    have hbound := retained_reached_le (by exact_mod_cast hcond) hstate
    exact_mod_cast hbound

/-- What is left of bytes that were never more than half the limit before a write that did
not fit. -/
theorem writeAll_eq_of_fitted {half : Nat} {writes : List Bytes}
    (h : writes.flatten.length ≤ 2 * half ∨ fitted (2 * half) 0 writes ≤ half) :
    writeAll ⟨2 * half, [], [], false⟩ writes =
      some (if writes.flatten.length ≤ 2 * half then ⟨2 * half, writes.flatten, [], false⟩
        else headAndTail half half writes.flatten) := by
  rw [writeAll_whole (Nat.zero_le _), List.nil_append, List.length_nil]
  by_cases hshort : writes.flatten.length ≤ 2 * half
  · rw [if_pos hshort, if_pos hshort]
  · rw [Nat.max_eq_left (h.resolve_left hshort)]

end CappedBuffer

open CappedBuffer

/-- For every `limitKB` and any two ways to write the same bytes: all writes return, `String`
and `Truncated` are the same and no state keeps more than the limit, if and only if the limit
has not wrapped around to a negative number and either the bytes fit or, both times, at most
half the limit had been written before the first write that did not fit. -/
theorem capped_output_chunking_iff (limitKB : Int64) (writes writes' : List Bytes)
    (h : writes.flatten = writes'.flatten) :
    (∃ b b', (new limitKB).writeAll writes = some b ∧ (new limitKB).writeAll writes' = some b' ∧
        b.text = b'.text ∧ b.truncated = b'.truncated ∧
        ∀ state, Reached (new limitKB) writes state ∨ Reached (new limitKB) writes' state →
          (state.retained : Int) ≤ (new limitKB).limit) ↔
      0 ≤ (new limitKB).limit ∧
        ((writes.flatten.length : Int) ≤ (new limitKB).limit ∨
          (fitted (new limitKB).limit 0 writes : Int) ≤ (new limitKB).limit.tdiv 2 ∧
            (fitted (new limitKB).limit 0 writes' : Int) ≤ (new limitKB).limit.tdiv 2) := by
  obtain ⟨half, hlimit⟩ := exists_half limitKB
  have hnew : new limitKB = ⟨2 * half, [], [], false⟩ := by rw [← hlimit]; rfl
  rw [hnew]
  by_cases hneg : half < 0
  · -- the empty buffer is beyond the limit already
    constructor
    · rintro ⟨b, b', -, -, -, -, hbound⟩
      have hstart := hbound ⟨2 * half, [], [], false⟩ (.inl ⟨0, rfl⟩)
      simp only [retained, List.length_nil] at hstart
      omega
    · intro hright
      have hpos := hright.1
      dsimp only at hpos
      omega
  · obtain ⟨half, rfl⟩ := Int.eq_ofNat_of_zero_le (Int.not_lt.mp hneg)
    dsimp only
    rw [tdiv_half]
    have hlimit := keeps_limit_iff half writes
    have hlimit' := keeps_limit_iff half writes'
    rw [← h] at hlimit'
    constructor
    · rintro ⟨b, b', -, -, -, -, hbound⟩
      have hfew := hlimit.mp fun state hstate => hbound state (.inl hstate)
      have hfew' := hlimit'.mp fun state hstate => hbound state (.inr hstate)
      refine ⟨by omega, ?_⟩
      rcases hfew with hshort | hfew
      · exact .inl hshort
      · rcases hfew' with hshort | hfew'
        · exact .inl hshort
        · exact .inr ⟨hfew, hfew'⟩
    · rintro ⟨-, hcond⟩
      have hfew : (writes.flatten.length : Int) ≤ 2 * half ∨
          (fitted (2 * half) 0 writes : Int) ≤ half := hcond.imp_right fun h => h.1
      have hfew' : (writes.flatten.length : Int) ≤ 2 * half ∨
          (fitted (2 * half) 0 writes' : Int) ≤ half := hcond.imp_right fun h => h.2
      refine ⟨_, _, writeAll_eq_of_fitted (by exact_mod_cast hfew),
        writeAll_eq_of_fitted (by rw [← h]; exact_mod_cast hfew'), by rw [h], by rw [h], ?_⟩
      rintro state (hstate | hstate)
      · exact hlimit.mpr hfew state hstate
      · exact hlimit'.mpr hfew' state hstate

theorem capped_output_chunking_truncated :
    let a := List.replicate 500 (65 : UInt8)
    let b := List.replicate 600 (66 : UInt8)
    (new 1).limit < ([a, b].flatten.length : Int) ∧ [a, b].flatten = [a ++ b].flatten ∧
      ∃ c c', (new 1).writeAll [a, b] = some c ∧ (new 1).writeAll [a ++ b] = some c' ∧
        c.text = c'.text ∧ c.truncated = c'.truncated ∧
        ∀ state, Reached (new 1) [a, b] state ∨ Reached (new 1) [a ++ b] state →
          (state.retained : Int) ≤ (new 1).limit := by
  intro a b
  have hbytes : [a, b].flatten = [a ++ b].flatten := by simp
  exact ⟨by decide +kernel, hbytes,
    (capped_output_chunking_iff 1 [a, b] [a ++ b] hbytes).mpr (by decide +kernel)⟩

/-- With a limit of 1 KB, two writes of 600 bytes leave 1112 bytes, and the same bytes
in one write leave another text. -/
theorem capped_output_chunking_differs :
    let a := List.replicate 600 (65 : UInt8)
    let half := List.replicate 512 (65 : UInt8)
    (new 1).writeAll [a, a] = some ⟨1024, a, half, true⟩ ∧
      (new 1).writeAll [a ++ a] = some ⟨1024, half, half, true⟩ ∧
      retained ⟨1024, a, half, true⟩ = 1112 ∧
      text ⟨1024, a, half, true⟩ ≠ text ⟨1024, half, half, true⟩ := by
  decide +kernel

end TomAgent.Executor
