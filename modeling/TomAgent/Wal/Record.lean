import TomAgent.Core.Crc32

/-!
# Records of one segment

`Append` frames a payload as a four byte length, a four byte CRC and the
payload itself.  `readSegment` walks such a file from an offset.  The reader's
header read is a single `fd.Read`: near the end of the file it may fill only a
part of the header and still report no error, so a short tail is parsed as a
header whose missing bytes are zero.
-/

namespace TomAgent.Wal

open BigEndian Crc32

def walSegmentMaxBytes : Nat := 32 <<< 20
def walHeaderSize : Nat := 8
def walMaxEntrySize : Nat := 4 <<< 20

def header (payload : Bytes) : Bytes :=
  encode 4 payload.length ++ encode 4 (checksumIEEE payload).toNat

def encodeRecord (payload : Bytes) : Bytes := header payload ++ payload

def encodeAll (payloads : List Bytes) : Bytes := payloads.flatMap encodeRecord

@[simp] theorem header_length (payload : Bytes) : (header payload).length = walHeaderSize := by
  simp [header, walHeaderSize]

@[simp] theorem encodeRecord_length (payload : Bytes) :
    (encodeRecord payload).length = walHeaderSize + payload.length := by
  simp [encodeRecord]

theorem encodeRecord_take_four (p : Bytes) : (encodeRecord p).take 4 = encode 4 p.length := by
  rw [encodeRecord, header, List.append_assoc, List.take_left' (encode_length 4 _)]

@[simp] theorem encodeAll_nil : encodeAll [] = [] := rfl

@[simp] theorem encodeAll_cons (payload : Bytes) (rest : List Bytes) :
    encodeAll (payload :: rest) = encodeRecord payload ++ encodeAll rest := by
  simp [encodeAll]

@[simp] theorem encodeAll_append (xs ys : List Bytes) :
    encodeAll (xs ++ ys) = encodeAll xs ++ encodeAll ys := by
  simp [encodeAll]

theorem encodeAll_singleton (payload : Bytes) : encodeAll [payload] = encodeRecord payload := by
  simp

/-! ## Reading -/

/-- `fd.Read` into a buffer of `size` bytes, on the bytes after the file position:
as many bytes as remain up to the buffer size, and an end-of-file error only
when none remain. -/
def fdRead (size : Nat) (rest : Bytes) : Option (Bytes × Bytes) :=
  if rest = [] then none else some (rest.take size, rest.drop size)

/-- The loop of `readFull`; every read makes progress, so the number of missing
bytes bounds the iterations. -/
def readFullLoop : Nat → Nat → Bytes → Bytes → Option (Bytes × Bytes)
  | 0, missing, buf, rest => if missing = 0 then some (buf, rest) else none
  | fuel + 1, missing, buf, rest =>
      if missing = 0 then some (buf, rest)
      else
        match fdRead missing rest with
        | none => none
        | some (got, rest) => readFullLoop fuel (missing - got.length) (buf ++ got) rest

def readFull (size : Nat) (rest : Bytes) : Option (Bytes × Bytes) :=
  readFullLoop size size [] rest

/-- Outcome of one iteration of `readSegment`: leave the loop, or one more entry. -/
inductive EntryRead where
  | stop (corrupt : Bool)
  | entry (payload rest : Bytes)
deriving Repr, DecidableEq

/-- The header array after one `fd.Read` of `got`: it starts zeroed, and a short
read leaves its tail untouched. -/
def headerBuffer (got : Bytes) : Bytes :=
  got ++ List.replicate (walHeaderSize - got.length) 0

def declaredLength (got : Bytes) : Nat := decode ((headerBuffer got).take 4)

def declaredCrc (got : Bytes) : Nat := decode ((headerBuffer got).drop 4)

def readEntry (rest : Bytes) : EntryRead :=
  match fdRead walHeaderSize rest with
  | none => .stop false
  | some (got, rest) =>
      if walMaxEntrySize < declaredLength got then .stop true
      else
        match readFull (declaredLength got) rest with
        | none => .stop false
        | some (payload, rest) =>
            if (checksumIEEE payload).toNat ≠ declaredCrc got then .stop true
            else .entry payload rest

/-- The loop of `readSegment`: at most `max` entries, the new offset, and whether
the loop was left on a corrupt entry. -/
def readEntries : Nat → Bytes → Nat → List Bytes × Nat × Bool
  | 0, _, offset => ([], offset, false)
  | max + 1, rest, offset =>
      match readEntry rest with
      | .stop corrupt => ([], offset, corrupt)
      | .entry payload rest =>
          let more := readEntries max rest (offset + (walHeaderSize + payload.length))
          (payload :: more.1, more.2)

/-- `none` stands for a file that cannot be opened. -/
def readSegment (file : Option Bytes) (offset max : Nat) : List Bytes × Nat × Bool :=
  match file with
  | none => ([], offset, false)
  | some data => readEntries max (data.drop offset) offset

/-! ## One iteration -/

theorem readFull_eq (size : Nat) (rest : Bytes) :
    readFull size rest =
      if size ≤ rest.length then some (rest.take size, rest.drop size) else none := by
  cases size with
  | zero => simp [readFull, readFullLoop]
  | succ size =>
      cases rest with
      | nil => simp [readFull, readFullLoop, fdRead]
      | cons b rest =>
          by_cases h : size ≤ rest.length
          · have hmin : min size rest.length = size := by omega
            cases size <;> simp_all [readFull, readFullLoop, fdRead]
          · -- the first read drains the file, the second one hits its end
            have hdrop : rest.drop size = [] := List.drop_eq_nil_of_le (by omega)
            have hmiss : ¬ size ≤ rest.length := h
            cases size with
            | zero => omega
            | succ size =>
                have hne : size + 1 - min (size + 1) rest.length ≠ 0 := by omega
                simp [readFull, readFullLoop, fdRead, hdrop, h, hne]

theorem readEntry_nil : readEntry [] = .stop false := by
  simp [readEntry, fdRead]

theorem readEntry_cons {rest : Bytes} (h : rest ≠ []) :
    readEntry rest =
      let n := declaredLength (rest.take walHeaderSize)
      let body := rest.drop walHeaderSize
      if walMaxEntrySize < n then .stop true
      else if body.length < n then .stop false
      else if (checksumIEEE (body.take n)).toNat ≠ declaredCrc (rest.take walHeaderSize) then
        .stop true
      else .entry (body.take n) (body.drop n) := by
  simp only [readEntry, fdRead, h, if_false, readFull_eq]
  by_cases hn : declaredLength (rest.take walHeaderSize) ≤ (rest.drop walHeaderSize).length
  · simp only [if_pos hn, if_neg (Nat.not_lt.mpr hn)]
  · simp only [if_neg hn, if_pos (Nat.lt_of_not_le hn)]

/-- An accepted entry has the declared length, it is what follows the header, and
the position moves by the length of its encoding, past the end of the file if
the header was short. -/
theorem readEntry_entry {rest payload tail : Bytes} (h : readEntry rest = .entry payload tail) :
    rest ≠ [] ∧ payload.length = declaredLength (rest.take walHeaderSize) ∧
      payload = (rest.drop walHeaderSize).take payload.length ∧
      tail = rest.drop (walHeaderSize + payload.length) := by
  have hrest : rest ≠ [] := by
    rintro rfl
    simp [readEntry_nil] at h
  rw [readEntry_cons hrest] at h
  dsimp only at h
  generalize declaredLength (rest.take walHeaderSize) = n at h ⊢
  split at h
  · cases h
  · split at h
    · cases h
    · rename_i hlen
      split at h
      · cases h
      · simp only [EntryRead.entry.injEq] at h
        obtain ⟨rfl, rfl⟩ := h
        have htake : ((rest.drop walHeaderSize).take n).length = n := by
          rw [List.length_take]
          omega
        exact ⟨hrest, htake, by rw [htake], by rw [htake, List.drop_drop]⟩

theorem readEntry_shorter {rest payload tail : Bytes} (h : readEntry rest = .entry payload tail) :
    tail.length < rest.length := by
  obtain ⟨hne, -, -, rfl⟩ := readEntry_entry h
  have hpos : 0 < rest.length := List.length_pos_iff.mpr hne
  simp only [List.length_drop, walHeaderSize]
  omega

theorem readEntry_fits {rest payload tail : Bytes} (h : readEntry rest = .entry payload tail)
    (hne : payload ≠ []) : walHeaderSize + payload.length ≤ rest.length := by
  obtain ⟨-, -, hp, -⟩ := readEntry_entry h
  have hpos : 0 < payload.length := List.length_pos_iff.mpr hne
  have hlen := congrArg List.length hp
  simp only [List.length_take, List.length_drop] at hlen
  omega

theorem headerBuffer_header (payload : Bytes) :
    headerBuffer (header payload) = header payload := by
  simp [headerBuffer]

theorem declaredLength_header {payload : Bytes} (hsize : payload.length ≤ walMaxEntrySize) :
    declaredLength (header payload) = payload.length := by
  rw [declaredLength, headerBuffer_header, header, List.take_left' (encode_length 4 _)]
  exact decode_encode_of_lt (by simp [walMaxEntrySize] at hsize ⊢; omega)

theorem declaredCrc_header (payload : Bytes) :
    declaredCrc (header payload) = (checksumIEEE payload).toNat := by
  rw [declaredCrc, headerBuffer_header, header, List.drop_left' (encode_length 4 _)]
  exact decode_encode_of_lt (by simpa using (checksumIEEE payload).toNat_lt)

theorem readEntry_encodeRecord {payload : Bytes} (hsize : payload.length ≤ walMaxEntrySize)
    (tail : Bytes) : readEntry (encodeRecord payload ++ tail) = .entry payload tail := by
  have hne : encodeRecord payload ++ tail ≠ [] := by
    intro h
    have := congrArg List.length h
    simp [walHeaderSize] at this
  have htake : (encodeRecord payload ++ tail).take walHeaderSize = header payload := by
    rw [encodeRecord, List.append_assoc, List.take_left' (header_length payload)]
  have hdrop : (encodeRecord payload ++ tail).drop walHeaderSize = payload ++ tail := by
    rw [encodeRecord, List.append_assoc, List.drop_left' (header_length payload)]
  rw [readEntry_cons hne, htake, hdrop, declaredLength_header hsize, declaredCrc_header]
  simp [Nat.not_lt.mpr hsize]

end TomAgent.Wal
