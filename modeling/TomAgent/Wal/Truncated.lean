import TomAgent.Wal.Entries

/-!
# Reading a truncated segment

A segment that was cut at an arbitrary byte holds whole records and then the
first bytes of one more.  The reader is meant to return the whole records and to
stop in front of the torn one.  Its header read does not notice a short header:
the missing bytes count as zeros, so a torn record whose length field reads as
zero is taken for an empty one.
-/

namespace TomAgent.Wal

open BigEndian Crc32

/-- The payloads whose encoding lies within the first `length` bytes. -/
def wholeRecords : List Bytes → Nat → List Bytes
  | [], _ => []
  | p :: rest, length =>
      if (encodeRecord p).length ≤ length then
        p :: wholeRecords rest (length - (encodeRecord p).length)
      else []

theorem lt_wholeRecords_length {ps : List Bytes} {length i : Nat} (hi : i < ps.length) :
    i < (wholeRecords ps length).length ↔ (encodeAll (ps.take (i + 1))).length ≤ length := by
  induction ps generalizing length i with
  | nil => simp at hi
  | cons p rest ih =>
      rw [List.take_succ_cons, encodeAll_cons, List.length_append]
      by_cases hp : (encodeRecord p).length ≤ length
      · rw [wholeRecords, if_pos hp]
        cases i with
        | zero => simpa using hp
        | succ i =>
            rw [List.length_cons, Nat.add_lt_add_iff_right, ih (Nat.lt_of_succ_lt_succ hi)]
            omega
      · rw [wholeRecords, if_neg hp, List.length_nil]
        omega

theorem wholeRecords_isPrefix (ps : List Bytes) (length : Nat) : wholeRecords ps length <+: ps := by
  induction ps generalizing length with
  | nil => simp [wholeRecords]
  | cons p rest ih =>
      rw [wholeRecords]
      split
      · exact List.cons_prefix_cons.mpr ⟨rfl, ih _⟩
      · exact List.nil_prefix

/-- A truncated segment: its whole records, and a proper part of the next one. -/
structure Truncated (ps : List Bytes) (whole : List Bytes) (torn : Bytes) : Prop where
  next : ∀ p, ps[whole.length]? = some p → torn <+: encodeRecord p ∧
    torn.length < (encodeRecord p).length
  complete : ps[whole.length]? = none → torn = []

theorem exists_truncated {ps : List Bytes} {data : Bytes} (h : data <+: encodeAll ps) :
    ∃ torn, data = encodeAll (wholeRecords ps data.length) ++ torn ∧
      Truncated ps (wholeRecords ps data.length) torn := by
  induction ps generalizing data with
  | nil =>
      have hnil : data = [] := by simpa using h
      subst hnil
      exact ⟨[], by simp [wholeRecords], by simp [wholeRecords], by simp⟩
  | cons p rest ih =>
      rw [encodeAll_cons] at h
      by_cases hp : (encodeRecord p).length ≤ data.length
      · obtain ⟨more, rfl⟩ := List.prefix_of_prefix_length_le (List.prefix_append _ _) h hp
        obtain ⟨torn, hdata, htorn⟩ := ih ((List.prefix_append_right_inj _).mp h)
        have hwhole : wholeRecords (p :: rest) (encodeRecord p ++ more).length =
            p :: wholeRecords rest more.length := by
          rw [wholeRecords, if_pos hp, List.length_append, Nat.add_sub_cancel_left]
        rw [hwhole]
        refine ⟨torn, ?_, ?_, ?_⟩
        · rw [encodeAll_cons, List.append_assoc, ← hdata]
        · simpa using htorn.next
        · simpa using htorn.complete
      · have hwhole : wholeRecords (p :: rest) data.length = [] := by
          rw [wholeRecords, if_neg hp]
        rw [hwhole]
        refine ⟨data, by simp, ?_, by simp⟩
        intro q hq
        obtain rfl : p = q := by simpa using hq
        exact ⟨List.prefix_of_prefix_length_le h (List.prefix_append _ _) (by omega), by omega⟩

/-! ## The torn record -/

theorem encodeRecord_take_length {p : Bytes} {k : Nat} (hk : k < walHeaderSize) :
    ((encodeRecord p).take k).length = k := by
  rw [List.length_take, encodeRecord_length]
  omega

/-- A cut header declares the length without the octets that are missing. -/
theorem declaredLength_torn {p : Bytes} (hp : Fits p) {k : Nat} (hk : k < walHeaderSize) :
    declaredLength ((encodeRecord p).take k) =
      p.length / 256 ^ (4 - k) * 256 ^ (4 - k) := by
  have hbound : p.length < 256 ^ 4 := by
    simp only [Fits, walMaxEntrySize] at hp
    omega
  have hzeros : min (4 - k) (walHeaderSize - k) = 4 - k := by
    simp only [walHeaderSize]
    omega
  have hfield : (headerBuffer ((encodeRecord p).take k)).take 4 =
      (encode 4 p.length).take k ++ List.replicate (4 - k) 0 := by
    rw [headerBuffer, List.take_append, encodeRecord_take_length hk, List.take_take, Nat.min_comm,
      ← List.take_take, encodeRecord_take_four, List.take_replicate, hzeros]
  rw [declaredLength, hfield, decode_append, decode_encode_take hbound, decode_replicate_zero,
    List.length_replicate, Nat.add_zero]

theorem encodeRecord_nil : encodeRecord [] = List.replicate walHeaderSize 0 := by decide

theorem declaredCrc_torn {p : Bytes} {k : Nat} (hk : k < walHeaderSize)
    (hzero : p.length < 256 ^ (4 - k)) : declaredCrc ((encodeRecord p).take k) = 0 := by
  have hlength := encodeRecord_take_length (p := p) hk
  rw [declaredCrc, headerBuffer, hlength]
  by_cases hcut : k ≤ 4
  · rw [List.drop_append, hlength, List.drop_of_length_le (by omega), List.nil_append,
      List.drop_replicate]
    exact decode_replicate_zero _
  · have hsub : 4 - k = 0 := by omega
    rw [hsub, Nat.pow_zero, Nat.lt_one_iff] at hzero
    rw [List.eq_nil_of_length_eq_zero hzero, encodeRecord_nil, List.take_replicate,
      List.replicate_append_replicate, List.drop_replicate]
    exact decode_replicate_zero _

/-- The reader stops in front of a torn record, unless what is left of its length
field is zero: then it returns an empty entry. -/
theorem readEntry_torn {p : Bytes} (hp : Fits p) {k : Nat} (hpos : 0 < k)
    (hlt : k < (encodeRecord p).length) :
    readEntry ((encodeRecord p).take k) =
      if 256 ^ (4 - k) ≤ p.length then .stop false else .entry [] [] := by
  have hlength : ((encodeRecord p).take k).length = k := by
    rw [List.length_take]
    omega
  have hne : (encodeRecord p).take k ≠ [] := List.ne_nil_of_length_pos (by omega)
  rw [encodeRecord_length] at hlt
  rw [readEntry_cons hne]
  dsimp only
  by_cases hheader : k < walHeaderSize
  · have hshort : ((encodeRecord p).take k).take walHeaderSize = (encodeRecord p).take k :=
      List.take_of_length_le (by omega)
    have hbody : ((encodeRecord p).take k).drop walHeaderSize = [] :=
      List.drop_of_length_le (by omega)
    rw [hshort, hbody, declaredLength_torn hp hheader]
    have hunit : 0 < 256 ^ (4 - k) := Nat.pow_pos (by decide)
    split
    · rename_i hlarge
      have hle := Nat.div_mul_le_self p.length (256 ^ (4 - k))
      simp only [Fits] at hp
      omega
    · by_cases hfield : 256 ^ (4 - k) ≤ p.length
      · have hdeclared : 0 < p.length / 256 ^ (4 - k) * 256 ^ (4 - k) :=
          Nat.mul_pos (Nat.div_pos hfield hunit) hunit
        rw [if_pos hfield, List.length_nil, if_pos hdeclared]
      · rw [if_neg hfield, Nat.div_eq_of_lt (by omega), Nat.zero_mul,
          declaredCrc_torn hheader (by omega)]
        rfl
  · have hwhole : 256 ^ (4 - k) ≤ p.length := by
      have hsub : 4 - k = 0 := by
        simp only [walHeaderSize] at hheader
        omega
      rw [hsub]
      omega
    have htake : ((encodeRecord p).take k).take walHeaderSize = header p := by
      rw [List.take_take, Nat.min_eq_left (by omega), encodeRecord,
        List.take_left' (header_length p)]
    have hbody : (((encodeRecord p).take k).drop walHeaderSize).length < p.length := by
      rw [List.length_drop, hlength]
      omega
    rw [htake, declaredLength_header hp, if_pos hwhole, if_neg (Nat.not_lt.mpr hp), if_pos hbody]

/-! ## The whole segment -/

theorem readEntries_encodeAll_append {whole : List Bytes} (h : ∀ p ∈ whole, Fits p) (more : Nat)
    (tail : Bytes) (offset : Nat) :
    readEntries (whole.length + more) (encodeAll whole ++ tail) offset =
      (whole ++ (readEntries more tail (offset + (encodeAll whole).length)).1,
        (readEntries more tail (offset + (encodeAll whole).length)).2) := by
  induction whole generalizing offset with
  | nil => simp
  | cons p rest ih =>
      have hp : Fits p := h p List.mem_cons_self
      have hrest := ih (fun q hq => h q (List.mem_cons_of_mem p hq))
        (offset + (walHeaderSize + p.length))
      have hsum : offset + (encodeAll (p :: rest)).length =
          offset + (walHeaderSize + p.length) + (encodeAll rest).length := by
        rw [encodeAll_cons, List.length_append, encodeRecord_length]
        omega
      have hread : readEntry (encodeAll (p :: rest) ++ tail) =
          .entry p (encodeAll rest ++ tail) := by
        rw [encodeAll_cons, List.append_assoc]
        exact readEntry_encodeRecord hp _
      have hcount : (p :: rest).length + more = (rest.length + more) + 1 := by
        rw [List.length_cons]
        omega
      rw [hcount, readEntries, hread, hsum]
      simp only [hrest, List.cons_append]

theorem readSegment_truncated {payloads : List Bytes} (hfits : ∀ p ∈ payloads, Fits p)
    {data tail : Bytes} (hsplit : data = encodeAll (wholeRecords payloads data.length) ++ tail)
    {max more : Nat} (hmax : max = (wholeRecords payloads data.length).length + more) :
    let whole := wholeRecords payloads data.length
    readSegment (some data) 0 max = (whole ++ (readEntries more tail (encodeAll whole).length).1,
      (readEntries more tail (encodeAll whole).length).2) := by
  intro whole
  have hwhole : ∀ p ∈ whole, Fits p := fun p hp =>
    hfits p ((wholeRecords_isPrefix payloads data.length).subset hp)
  have hall := readEntries_encodeAll_append hwhole more tail 0
  rw [Nat.zero_add, ← hsplit] at hall
  rw [readSegment, List.drop_zero, hmax]
  exact hall

theorem readEntries_torn_iff {p tail : Bytes} (hp : Fits p) (htail : tail <+: encodeRecord p)
    (hpos : 0 < tail.length) (hlt : tail.length < (encodeRecord p).length) (rest offset : Nat) :
    readEntries (rest + 1) tail offset = ([], offset, false) ↔
      256 ^ (4 - tail.length) ≤ p.length := by
  have hcut : tail = (encodeRecord p).take tail.length := by
    obtain ⟨behind, hbehind⟩ := htail
    rw [← hbehind, List.take_left]
  have hentry := readEntry_torn hp hpos hlt
  rw [← hcut] at hentry
  rw [readEntries, hentry]
  by_cases hsize : 256 ^ (4 - tail.length) ≤ p.length
  · simp [hsize]
  · simp [hsize]

/-- For every list of payloads, every prefix of their encoding and every limit that covers the
records, `readSegment` returns exactly the whole records, the end of the last one and no
corruption, if and only if the segment is cut between two records or the bytes that are left of
the torn record's length field are not all zero. -/
theorem truncated_segment_iff {payloads : List Bytes} (hfits : ∀ p ∈ payloads, Fits p)
    {data : Bytes} (hdata : data <+: encodeAll payloads) {max : Nat}
    (hmax : payloads.length ≤ max) :
    let whole := wholeRecords payloads data.length
    let torn := data.length - (encodeAll whole).length
    readSegment (some data) 0 max = (whole, (encodeAll whole).length, false) ↔
      torn = 0 ∨ ∃ p, payloads[whole.length]? = some p ∧ 256 ^ (4 - torn) ≤ p.length := by
  intro whole torn
  obtain ⟨tail, hsplit, htrunc⟩ := exists_truncated hdata
  have htorn : torn = tail.length := by
    have hlen := congrArg List.length hsplit
    rw [List.length_append] at hlen
    show data.length - (encodeAll (wholeRecords payloads data.length)).length = tail.length
    omega
  have hle : whole.length ≤ payloads.length :=
    (wholeRecords_isPrefix payloads data.length).length_le
  obtain ⟨more, hmore⟩ := Nat.exists_eq_add_of_le (Nat.le_trans hle hmax)
  have hsame : readSegment (some data) 0 max = (whole, (encodeAll whole).length, false) ↔
      readEntries more tail (encodeAll whole).length = ([], (encodeAll whole).length, false) := by
    rw [readSegment_truncated hfits hsplit hmore]
    simp [Prod.ext_iff, whole]
  rw [hsame, htorn]
  cases hnext : payloads[whole.length]? with
  | none =>
      -- all records are whole: the next read finds the end of the file
      rw [htrunc.complete hnext]
      cases more with
      | zero => simp [readEntries]
      | succ more => simp [readEntries, readEntry_nil]
  | some p =>
      obtain ⟨hp, hlt⟩ := htrunc.next p hnext
      obtain ⟨hin, -⟩ := List.getElem?_eq_some_iff.mp hnext
      obtain ⟨rest, rfl⟩ : ∃ rest, more = rest + 1 := Nat.exists_eq_add_one.mpr (by omega)
      by_cases hempty : tail = []
      · rw [hempty]
        simp [readEntries, readEntry_nil]
      · have hpos : 0 < tail.length := List.length_pos_iff.mpr hempty
        rw [readEntries_torn_iff (hfits p (List.mem_of_getElem? hnext)) hp hpos hlt]
        simp [hempty]

theorem truncated_segment_iff_two_bytes :
    readSegment (some ((encodeAll [[1, 2]]).take 8)) 0 1 = ([], 0, false) := by
  have hcut := @truncated_segment_iff [[1, 2]] (by decide) _ (List.take_prefix 8 _) 1 (by decide)
  exact hcut.mpr (Or.inr ⟨[1, 2], rfl, by decide⟩)

/-- One byte of a one byte record: an empty entry is returned, and the offset is
behind the end of the file. -/
theorem truncated_header_read_as_entry :
    (encodeAll [[1]]).take 1 <+: encodeAll [[1]] ∧ wholeRecords [[1]] 1 = [] ∧
      readSegment (some ((encodeAll [[1]]).take 1)) 0 1 = ([[]], 8, false) :=
  ⟨List.take_prefix 1 _, by decide, by decide⟩

end TomAgent.Wal
