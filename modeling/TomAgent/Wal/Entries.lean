import TomAgent.Wal.Record

/-!
# What a segment yields

`entries rest` is the reader's view of the bytes `rest` without a batch limit.
Reading in batches walks along this list: `readEntries` returns its first `max`
elements and an offset from which the others are read.  No assumption on the
bytes is made until the last two sections, which compute the list of
well-formed and of torn contents.
-/

namespace TomAgent.Wal

open BigEndian Crc32

def entries (rest : Bytes) : List Bytes :=
  match _step : readEntry rest with
  | .stop _ => []
  | .entry payload tail => payload :: entries tail
termination_by rest.length
decreasing_by exact readEntry_shorter _step

theorem entries_of_stop {rest : Bytes} {corrupt : Bool} (h : readEntry rest = .stop corrupt) :
    entries rest = [] := by
  rw [entries]
  split
  · rfl
  · simp_all

theorem entries_of_entry {rest payload tail : Bytes} (h : readEntry rest = .entry payload tail) :
    entries rest = payload :: entries tail := by
  rw [entries]
  split
  · simp_all
  · simp_all

@[simp] theorem entries_nil : entries [] = [] := entries_of_stop readEntry_nil

/-! ## Batches -/

theorem readEntries_fst (max : Nat) (rest : Bytes) (offset : Nat) :
    (readEntries max rest offset).1 = (entries rest).take max := by
  induction max generalizing rest offset with
  | zero => simp [readEntries]
  | succ max ih =>
      cases h : readEntry rest with
      | stop corrupt => simp [readEntries, h, entries_of_stop h]
      | entry payload tail => simp [readEntries, h, entries_of_entry h, ih]

/-- The offset a batch returns is the position of the first entry it left out. -/
theorem readEntries_next (max : Nat) (data : Bytes) (offset : Nat) :
    entries (data.drop (readEntries max (data.drop offset) offset).2.1) =
      (entries (data.drop offset)).drop max := by
  induction max generalizing offset with
  | zero => simp [readEntries]
  | succ max ih =>
      cases h : readEntry (data.drop offset) with
      | stop corrupt => simp [readEntries, h, entries_of_stop h]
      | entry payload tail =>
          obtain ⟨-, -, -, htail⟩ := readEntry_entry h
          rw [List.drop_drop] at htail
          subst htail
          have hstep := ih (offset + (walHeaderSize + payload.length))
          simpa [readEntries, h, entries_of_entry h] using hstep

theorem le_readEntries_next (max : Nat) (rest : Bytes) (offset : Nat) :
    offset ≤ (readEntries max rest offset).2.1 := by
  induction max generalizing rest offset with
  | zero => simp [readEntries]
  | succ max ih =>
      cases h : readEntry rest with
      | stop corrupt => simp [readEntries, h]
      | entry payload tail =>
          have hstep := ih tail (offset + (walHeaderSize + payload.length))
          simp only [readEntries, h]
          omega

theorem readEntries_next_pos {max : Nat} {rest : Bytes} {offset : Nat}
    (h : (readEntries max rest offset).1 ≠ []) : 0 < (readEntries max rest offset).2.1 := by
  cases max with
  | zero => simp [readEntries] at h
  | succ max =>
      cases hr : readEntry rest with
      | stop corrupt => simp [readEntries, hr] at h
      | entry payload tail =>
          have hle := le_readEntries_next max tail (offset + (walHeaderSize + payload.length))
          simp only [readEntries, hr]
          simp only [walHeaderSize] at hle ⊢
          omega

/-- A segment as `ReadFrom` sees it: what is read from a position of an optional file. -/
def segmentEntries (file : Option Bytes) (offset : Nat) : List Bytes :=
  entries ((file.getD []).drop offset)

theorem readSegment_fst (file : Option Bytes) (offset max : Nat) :
    (readSegment file offset max).1 = (segmentEntries file offset).take max := by
  cases file with
  | none => simp [readSegment, segmentEntries]
  | some data => simp [readSegment, segmentEntries, readEntries_fst]

theorem readSegment_next (file : Option Bytes) (offset max : Nat) :
    segmentEntries file (readSegment file offset max).2.1 =
      (segmentEntries file offset).drop max := by
  cases file with
  | none => simp [readSegment, segmentEntries]
  | some data => simp [readSegment, segmentEntries, readEntries_next]

theorem readSegment_next_pos {file : Option Bytes} {offset max : Nat}
    (h : (readSegment file offset max).1 ≠ []) : 0 < (readSegment file offset max).2.1 := by
  cases file with
  | none => simp [readSegment] at h
  | some data => exact readEntries_next_pos h

/-! ## Well-formed contents -/

def Fits (payload : Bytes) : Prop := payload.length ≤ walMaxEntrySize

instance (payload : Bytes) : Decidable (Fits payload) := by
  unfold Fits; infer_instance

/-- Whole records are read back in order, whatever follows them. -/
theorem entries_encodeAll_append {payloads : List Bytes} (h : ∀ p ∈ payloads, Fits p)
    (tail : Bytes) : entries (encodeAll payloads ++ tail) = payloads ++ entries tail := by
  induction payloads with
  | nil => simp
  | cons p rest ih =>
      have hp : Fits p := h p List.mem_cons_self
      have hrest := ih fun q hq => h q (List.mem_cons_of_mem p hq)
      rw [encodeAll_cons, List.append_assoc, entries_of_entry (readEntry_encodeRecord hp _), hrest,
        List.cons_append]

theorem entries_encodeAll {payloads : List Bytes} (h : ∀ p ∈ payloads, Fits p) :
    entries (encodeAll payloads) = payloads := by
  simpa using entries_encodeAll_append h []

/-! ## Byte accounting

Every entry costs a header and its payload; only the header of an empty last
entry may be cut short by the end of the file. -/

theorem entries_encoded_length (rest : Bytes) :
    (encodeAll (entries rest)).length < rest.length + walHeaderSize := by
  cases h : readEntry rest with
  | stop corrupt => simp [entries_of_stop h, walHeaderSize]
  | entry payload tail =>
      obtain ⟨hne, -, hp, htail⟩ := readEntry_entry h
      have ih := entries_encoded_length tail
      rw [entries_of_entry h, encodeAll_cons, List.length_append, encodeRecord_length]
      have hpos : 0 < rest.length := List.length_pos_iff.mpr hne
      have hlen := congrArg List.length hp
      have htl := congrArg List.length htail
      simp only [List.length_take, List.length_drop] at hlen htl
      by_cases hshort : rest.length < walHeaderSize + payload.length
      · -- the header was cut short, so nothing is left behind it
        have htail0 : tail = [] := List.eq_nil_of_length_eq_zero (by omega)
        subst htail0
        simp only [entries_nil, encodeAll_nil, List.length_nil] at ih ⊢
        omega
      · omega
termination_by rest.length
decreasing_by exact readEntry_shorter h

theorem entries_length_le (rest : Bytes) : (entries rest).length ≤ rest.length := by
  cases h : readEntry rest with
  | stop corrupt => simp [entries_of_stop h]
  | entry payload tail =>
      have ih := entries_length_le tail
      have hshort := readEntry_shorter h
      rw [entries_of_entry h, List.length_cons]
      omega
termination_by rest.length
decreasing_by exact readEntry_shorter h

/-- A nonempty entry takes its whole encoding out of the file. -/
theorem length_of_mem_entries {rest payload : Bytes} (h : payload ∈ entries rest)
    (hne : payload ≠ []) : walHeaderSize + payload.length ≤ rest.length := by
  cases hr : readEntry rest with
  | stop corrupt => simp [entries_of_stop hr] at h
  | entry first tail =>
      rw [entries_of_entry hr, List.mem_cons] at h
      rcases h with rfl | h
      · exact readEntry_fits hr hne
      · have hshort := readEntry_shorter hr
        have ih := length_of_mem_entries h hne
        omega
termination_by rest.length
decreasing_by exact readEntry_shorter hr

end TomAgent.Wal
