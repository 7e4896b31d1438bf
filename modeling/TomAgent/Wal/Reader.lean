import TomAgent.Wal.Journal
import TomAgent.Wal.Stream

/-!
# Reading a well-formed directory

`Holds dir j` ties a directory to the journal it stores.  On such a directory a
cursor at a record boundary stands for the journal's records after it, and the
cursor that `ReadFrom` returns is again at a boundary: the several forms of one
logical position (end of a segment, start of the next) all denote the same
records.
-/

namespace TomAgent.Wal

open Journal

structure Holds (dir : Dir) (j : Journal) : Prop where
  canonical : Canonical dir
  ids : segments dir = j.map Prod.fst
  bytes : ∀ seg ∈ j, content dir seg.1 = encodeAll seg.2
  fits : ∀ seg ∈ j, ∀ p ∈ seg.2, Fits p

/-- A cursor the reader may be given: at a boundary, and not beyond the newest segment. -/
structure Valid (j : Journal) (cur : WalCursor) : Prop where
  boundary : Boundary j cur
  inRange : ∃ seg ∈ j, cur.segment ≤ seg.1

theorem Journal.Boundary.mono {j k : Journal} {cur : WalCursor} (h : Boundary j cur)
    (hsub : ∀ seg ∈ j, seg ∈ k) : Boundary k cur := by
  rcases h with hoff | ⟨front, back, hmem, hoff⟩
  · exact Or.inl hoff
  · exact Or.inr ⟨front, back, hsub _ hmem, hoff⟩

theorem Holds.sorted {dir : Dir} {j : Journal} (h : Holds dir j) :
    (j.map Prod.fst).Pairwise (· < ·) := h.ids ▸ segments_pairwise_lt h.canonical

theorem Holds.entries_content {dir : Dir} {j : Journal} (h : Holds dir j)
    {seg : Nat × List Bytes} (hseg : seg ∈ j) : entries (content dir seg.1) = seg.2 := by
  rw [h.bytes seg hseg, entries_encodeAll (h.fits seg hseg)]

theorem Holds.entriesOf {dir : Dir} {j k : Journal} (h : Holds dir j)
    (hsub : ∀ seg ∈ k, seg ∈ j) : entriesOf dir (k.map Prod.fst) = records k := by
  induction k with
  | nil => rfl
  | cons seg rest ih =>
      have hrest := ih fun s hs => hsub s (List.mem_cons_of_mem seg hs)
      have hseg := h.entries_content (hsub seg List.mem_cons_self)
      simp only [List.map_cons, entriesOf_cons, hseg, hrest]
      simp [records]

theorem Holds.content_drop {dir : Dir} {j : Journal} (h : Holds dir j) {segment : Nat}
    {front back : List Bytes} (hmem : (segment, front ++ back) ∈ j) :
    (content dir segment).drop (encodeAll front).length = encodeAll back := by
  have hbytes : content dir segment = encodeAll (front ++ back) :=
    h.bytes (segment, front ++ back) hmem
  rw [hbytes, encodeAll_append, List.drop_left]

/-! ## The stream -/

/-- If the first segment not before the cursor is not the cursor's own, the cursor
is at offset zero; otherwise it splits that segment. -/
theorem boundary_cons {s : Nat} {recs : List Bytes} {rest : Journal} {cur : WalCursor}
    (hsorted : (((s, recs) :: rest).map Prod.fst).Pairwise (· < ·))
    (h : Boundary ((s, recs) :: rest) cur) (hs : ¬ s < cur.segment) :
    ∃ front back, recs = front ++ back ∧ cur.offset = (encodeAll front).length ∧
      (s ≠ cur.segment → front = []) := by
  rcases h with hoff | ⟨front, back, hmem, hoff⟩
  · exact ⟨[], recs, rfl, by simpa using hoff, fun _ => rfl⟩
  · rcases List.mem_cons.mp hmem with heq | htail
    · rw [Prod.mk.injEq] at heq
      exact ⟨front, back, heq.2.symm, hoff, fun hne => absurd heq.1.symm hne⟩
    · have hlt := (List.pairwise_cons.mp hsorted).1 cur.segment (List.mem_map_of_mem htail)
      omega

theorem boundary_tail {s : Nat} {recs : List Bytes} {rest : Journal} {cur : WalCursor}
    (h : Boundary ((s, recs) :: rest) cur) (hs : s < cur.segment) : Boundary rest cur := by
  rcases h with hoff | ⟨front, back, hmem, hoff⟩
  · exact Or.inl hoff
  · rcases List.mem_cons.mp hmem with heq | htail
    · rw [Prod.mk.injEq] at heq
      omega
    · exact Or.inr ⟨front, back, htail, hoff⟩

theorem pending_eq_after {dir : Dir} {j k : Journal} (h : Holds dir j)
    (hsub : ∀ seg ∈ k, seg ∈ j) (hsorted : (k.map Prod.fst).Pairwise (· < ·))
    {cur : WalCursor} (hcur : Boundary k cur) :
    pending dir (k.map Prod.fst) cur = after k cur := by
  induction k with
  | nil => rfl
  | cons seg rest ih =>
      obtain ⟨s, recs⟩ := seg
      have hsub' : ∀ seg ∈ rest, seg ∈ j := fun t ht => hsub t (List.mem_cons_of_mem _ ht)
      have hsorted' : (rest.map Prod.fst).Pairwise (· < ·) := (List.pairwise_cons.mp hsorted).2
      rw [← List.singleton_append, after_append]
      by_cases hs : s < cur.segment
      · rw [after_older hs, List.nil_append, ← ih hsub' hsorted' (boundary_tail hcur hs)]
        simp [pending, hs]
      · obtain ⟨front, back, rfl, hoff, hfront⟩ := boundary_cons hsorted hcur hs
        have hmem := hsub _ List.mem_cons_self
        have hback : ∀ p ∈ back, Fits p := fun p hp =>
          h.fits _ hmem p (List.mem_append_right front hp)
        have hlater : ∀ seg ∈ rest, cur.segment < seg.1 := by
          intro seg hseg
          have := (List.pairwise_cons.mp hsorted).1 seg.1 (List.mem_map_of_mem hseg)
          simp only at this
          omega
        have hown : after [(s, front ++ back)] cur = back := by
          by_cases heq : s = cur.segment
          · subst heq
            have hcur' : cur = ⟨cur.segment, (encodeAll front).length⟩ := by rw [← hoff]
            rw [hcur']
            exact after_boundary _ front back
          · rw [hfront heq, List.nil_append]
            exact after_newer (by omega)
        rw [hown, after_of_lt hlater]
        simp only [List.singleton_append, List.map_cons, pending, hs, if_false]
        rw [hoff, h.content_drop hmem, entries_encodeAll hback, h.entriesOf hsub']

/-! ## The returned cursor -/

theorem readEntries_encodeAll {recs : List Bytes} (h : ∀ p ∈ recs, Fits p) (max offset : Nat) :
    (readEntries max (encodeAll recs) offset).2.1 =
      offset + (encodeAll (recs.take max)).length := by
  induction max generalizing recs offset with
  | zero => simp [readEntries]
  | succ max ih =>
      cases recs with
      | nil => simp [readEntries, readEntry_nil]
      | cons r rest =>
          have hr := readEntry_encodeRecord (h r List.mem_cons_self) (encodeAll rest)
          have hrest := ih (fun p hp => h p (List.mem_cons_of_mem r hp))
            (offset + (walHeaderSize + r.length))
          rw [encodeAll_cons, readEntries, hr]
          dsimp only
          rw [hrest, List.take_succ_cons, encodeAll_cons, List.length_append, encodeRecord_length,
            Nat.add_assoc]

/-- Reading one segment from a boundary stops at a boundary of it. -/
theorem Holds.readSegment_next {dir : Dir} {j : Journal} (h : Holds dir j) {segment : Nat}
    {front back : List Bytes} (hmem : (segment, front ++ back) ∈ j) (max : Nat) :
    (readSegment (dir.lookup (segName segment)) (encodeAll front).length max).2.1 =
      (encodeAll (front ++ back.take max)).length := by
  have hid : segment ∈ segments dir := h.ids ▸ List.mem_map_of_mem hmem
  have hback : ∀ p ∈ back, Fits p := fun p hp =>
    h.fits _ hmem p (List.mem_append_right front hp)
  rw [lookup_segName h.canonical hid, readSegment, h.content_drop hmem,
    readEntries_encodeAll hback, encodeAll_append, List.length_append]

theorem readFromLoop_full {dir : Dir} {last max : Nat} {out : List Bytes}
    (h : max ≤ out.length) (ids : List Nat) (cur : WalCursor) :
    readFromLoop dir last max ids out cur = (out, cur) := by
  induction ids with
  | nil => rfl
  | cons s rest ih => simp [readFromLoop, h, ih]

theorem readFromLoop_boundary {dir : Dir} {j k : Journal} (h : Holds dir j)
    (hsub : ∀ seg ∈ k, seg ∈ j) (hsorted : (k.map Prod.fst).Pairwise (· < ·))
    {last max : Nat} (hlast : ∀ seg ∈ k, seg.1 ≤ last) {out : List Bytes} {cur : WalCursor}
    (hcur : Boundary k cur) :
    Boundary j (readFromLoop dir last max (k.map Prod.fst) out cur).2 := by
  induction k generalizing out cur with
  | nil => exact hcur.mono hsub
  | cons seg rest ih =>
      obtain ⟨s, recs⟩ := seg
      have hsub' : ∀ seg ∈ rest, seg ∈ j := fun t ht => hsub t (List.mem_cons_of_mem _ ht)
      have hsorted' : (rest.map Prod.fst).Pairwise (· < ·) := (List.pairwise_cons.mp hsorted).2
      have hlast' : ∀ seg ∈ rest, seg.1 ≤ last := fun t ht =>
        hlast t (List.mem_cons_of_mem _ ht)
      by_cases hout : max ≤ out.length
      · rw [readFromLoop_full hout]
        exact hcur.mono hsub
      simp only [List.map_cons, readFromLoop, hout, or_false]
      by_cases hs : s < cur.segment
      · rw [if_pos hs]
        exact ih hsub' hsorted' hlast' (boundary_tail hcur hs)
      · obtain ⟨front, back, rfl, hoff, -⟩ := boundary_cons hsorted hcur hs
        have hmem := hsub _ List.mem_cons_self
        -- wherever the batch ends inside this segment, it ends at a boundary
        have hstop : Boundary j
            (if 0 < (encodeAll (front ++ back.take (max - out.length))).length then
              ⟨s, (encodeAll (front ++ back.take (max - out.length))).length⟩ else cur) := by
          split
          · refine Or.inr ⟨front ++ back.take (max - out.length), back.drop (max - out.length),
              ?_, rfl⟩
            rw [List.append_assoc, List.take_append_drop]
            exact hmem
          · exact hcur.mono hsub
        rw [if_neg hs, hoff, h.readSegment_next hmem]
        split
        · exact hstop
        · by_cases hnewest : s < last
          · rw [if_pos hnewest]
            exact ih hsub' hsorted' hlast' (Or.inl rfl)
          · have hrest : rest = [] := by
              cases rest with
              | nil => rfl
              | cons t rest =>
                  have h1 := (List.pairwise_cons.mp hsorted).1 t.1 (by simp)
                  have h2 := hlast' t List.mem_cons_self
                  simp only at h1
                  omega
            subst hrest
            rw [if_neg hnewest]
            exact hstop

theorem Holds.inRange_iff {dir : Dir} {j : Journal} (h : Holds dir j) {last : Nat}
    (hlast : (segments dir).getLast? = some last) {cur : WalCursor} :
    (∃ seg ∈ j, cur.segment ≤ seg.1) ↔ cur.segment ≤ last := by
  constructor
  · rintro ⟨seg, hseg, hle⟩
    have hid : seg.1 ∈ segments dir := h.ids ▸ List.mem_map_of_mem hseg
    exact Nat.le_trans hle (segments_le_last h.canonical hlast seg.1 hid)
  · intro hle
    have hmem := List.mem_of_getLast? hlast
    rw [h.ids, List.mem_map] at hmem
    obtain ⟨seg, hseg, heq⟩ := hmem
    exact ⟨seg, hseg, heq ▸ hle⟩

theorem Holds.exists_last {dir : Dir} {j : Journal} (h : Holds dir j) {seg : Nat × List Bytes}
    (hseg : seg ∈ j) : ∃ last, (segments dir).getLast? = some last := by
  cases hlast : (segments dir).getLast? with
  | none =>
      rw [List.getLast?_eq_none_iff, h.ids, List.map_eq_nil_iff] at hlast
      simp [hlast] at hseg
  | some last => exact ⟨last, rfl⟩

/-- A valid cursor stands for the records after it. -/
theorem Holds.remaining_eq {dir : Dir} {j : Journal} (h : Holds dir j) {cur : WalCursor}
    (hcur : Valid j cur) : remaining dir cur = after j cur := by
  obtain ⟨seg, hseg, hle⟩ := hcur.inRange
  obtain ⟨last, hlast⟩ := h.exists_last hseg
  have hbound := (h.inRange_iff hlast).mp ⟨seg, hseg, hle⟩
  rw [remaining, restart_of_le hlast hbound, h.ids,
    pending_eq_after h (fun _ hs => hs) h.sorted hcur.boundary]

/-- From a valid cursor, one call returns the next `max` records after it and a valid cursor to
the others. -/
theorem Holds.readFrom {dir : Dir} {j : Journal} (h : Holds dir j) {cur : WalCursor}
    (hcur : Valid j cur) {max : Nat} (hmax : 1 ≤ max) :
    (readFrom dir cur max).1 = (after j cur).take max ∧
      after j (readFrom dir cur max).2 = (after j cur).drop max ∧
      Valid j (readFrom dir cur max).2 := by
  obtain ⟨seg, hseg, hle⟩ := hcur.inRange
  obtain ⟨last, hlast⟩ := h.exists_last hseg
  have hbound := (h.inRange_iff hlast).mp ⟨seg, hseg, hle⟩
  obtain ⟨hout, hnext, hsegment⟩ := readFrom_loop h.canonical hlast cur hmax
  have hids : ∀ seg ∈ j, seg.1 ≤ last := fun s hs =>
    segments_le_last h.canonical hlast s.1 (h.ids ▸ List.mem_map_of_mem hs)
  have hloop : Wal.readFrom dir cur max =
      readFromLoop dir last max (j.map Prod.fst) [] cur := by
    simp [Wal.readFrom, hlast, Nat.not_lt.mpr hbound, ← h.ids]
  have hboundary : Boundary j (Wal.readFrom dir cur max).2 := by
    rw [hloop]
    exact readFromLoop_boundary h (fun _ hs => hs) h.sorted hids hcur.boundary
  rw [h.remaining_eq hcur] at hout hnext
  refine ⟨hout, ?_, hboundary, (h.inRange_iff hlast).mpr hsegment⟩
  rw [← hnext, h.ids, pending_eq_after h (fun _ hs => hs) h.sorted hboundary]

end TomAgent.Wal
