import TomAgent.Wal.Image

/-!
# The log as a list of located records

What the log is for, without files: segments in ascending order, each with its
records.  Every record has a location, the segment and byte offset at which its
header starts, and a cursor separates the records before it from those at or
after it.
-/

namespace TomAgent.Wal

abbrev Journal := Segmented Bytes

/-- Positions in the log are ordered by segment and then by offset. -/
def WalCursor.AtOrBefore (a b : WalCursor) : Prop :=
  a.segment < b.segment ∨ a.segment = b.segment ∧ a.offset ≤ b.offset

instance (a b : WalCursor) : Decidable (a.AtOrBefore b) := by
  unfold WalCursor.AtOrBefore; infer_instance

theorem zero_atOrBefore (cur : WalCursor) : WalCursor.AtOrBefore 0 cur := by
  rcases Nat.eq_zero_or_pos cur.segment with hzero | hpos
  · exact Or.inr ⟨hzero.symm, Nat.zero_le _⟩
  · exact Or.inl hpos

def locatedIn (segment : Nat) : Nat → List Bytes → List (WalCursor × Bytes)
  | _, [] => []
  | offset, r :: rest =>
      (⟨segment, offset⟩, r) :: locatedIn segment (offset + (walHeaderSize + r.length)) rest

namespace Journal

def records (j : Journal) : List Bytes := j.flatMap Prod.snd

def located (j : Journal) : List (WalCursor × Bytes) := j.flatMap fun seg => locatedIn seg.1 0 seg.2

/-- The records at or after a cursor. -/
def after (j : Journal) (cur : WalCursor) : List Bytes :=
  ((located j).filter fun e => cur.AtOrBefore e.1).map Prod.snd

/-- A cursor at the start of some record, at the end of a segment, or at the
start of a segment id, present or not. -/
def Boundary (j : Journal) (cur : WalCursor) : Prop :=
  cur.offset = 0 ∨ ∃ front back, (cur.segment, front ++ back) ∈ j ∧
    cur.offset = (encodeAll front).length

end Journal

/-! ## Locations -/

theorem locatedIn_map_snd (segment offset : Nat) (recs : List Bytes) :
    (locatedIn segment offset recs).map Prod.snd = recs := by
  induction recs generalizing offset with
  | nil => rfl
  | cons r rest ih => simp [locatedIn, ih]

theorem locatedIn_append (segment offset : Nat) (xs ys : List Bytes) :
    locatedIn segment offset (xs ++ ys) =
      locatedIn segment offset xs ++
        locatedIn segment (offset + (encodeAll xs).length) ys := by
  induction xs generalizing offset with
  | nil => simp [locatedIn]
  | cons r rest ih =>
      simp only [List.cons_append, locatedIn, ih, encodeAll_cons, List.length_append,
        encodeRecord_length, Nat.add_assoc]

/-- Locations in a segment carry its id and lie between the offset of the first
record and the end of the last one. -/
theorem mem_locatedIn {segment offset : Nat} {recs : List Bytes} {e : WalCursor × Bytes}
    (h : e ∈ locatedIn segment offset recs) :
    e.1.segment = segment ∧ offset ≤ e.1.offset ∧
      e.1.offset < offset + (encodeAll recs).length := by
  induction recs generalizing offset with
  | nil => simp [locatedIn] at h
  | cons r rest ih =>
      rw [encodeAll_cons, List.length_append, encodeRecord_length]
      simp only [locatedIn, List.mem_cons] at h
      rcases h with rfl | h
      · refine ⟨rfl, Nat.le_refl _, ?_⟩
        simp only [walHeaderSize]
        omega
      · obtain ⟨hseg, hlo, hhi⟩ := ih h
        exact ⟨hseg, by omega, by omega⟩

namespace Journal

@[simp] theorem records_nil : records [] = [] := rfl

@[simp] theorem records_append (j k : Journal) : records (j ++ k) = records j ++ records k := by
  simp [records]

@[simp] theorem located_append (j k : Journal) : located (j ++ k) = located j ++ located k := by
  simp [located]

theorem located_map_snd (j : Journal) : (located j).map Prod.snd = records j := by
  simp [located, records, List.map_flatMap, locatedIn_map_snd]

@[simp] theorem after_append (j k : Journal) (cur : WalCursor) :
    after (j ++ k) cur = after j cur ++ after k cur := by
  simp [after]

theorem after_singleton (segment : Nat) (recs : List Bytes) (cur : WalCursor) :
    after [(segment, recs)] cur =
      ((locatedIn segment 0 recs).filter fun e => cur.AtOrBefore e.1).map Prod.snd := by
  simp [after, located]

theorem after_newer {segment : Nat} {recs : List Bytes} {cur : WalCursor}
    (h : cur.segment < segment) : after [(segment, recs)] cur = recs := by
  rw [after_singleton, List.filter_eq_self.mpr, locatedIn_map_snd]
  intro e he
  obtain ⟨hseg, -, -⟩ := mem_locatedIn he
  simp [WalCursor.AtOrBefore, hseg, h]

theorem after_older {segment : Nat} {recs : List Bytes} {cur : WalCursor}
    (h : segment < cur.segment) : after [(segment, recs)] cur = [] := by
  rw [after_singleton, List.filter_eq_nil_iff.mpr, List.map_nil]
  intro e he
  obtain ⟨hseg, -, -⟩ := mem_locatedIn he
  simp only [WalCursor.AtOrBefore, hseg, decide_eq_true_eq]
  omega

/-- Inside the cursor's own segment the records from its boundary on count. -/
theorem after_boundary (segment : Nat) (front back : List Bytes) :
    after [(segment, front ++ back)] ⟨segment, (encodeAll front).length⟩ = back := by
  rw [after_singleton, locatedIn_append, List.filter_append]
  have hfront : (locatedIn segment 0 front).filter
      (fun e => WalCursor.AtOrBefore ⟨segment, (encodeAll front).length⟩ e.1) = [] := by
    rw [List.filter_eq_nil_iff]
    intro e he
    obtain ⟨hseg, -, hhi⟩ := mem_locatedIn he
    simp only [WalCursor.AtOrBefore, hseg, decide_eq_true_eq]
    omega
  have hback : (locatedIn segment (0 + (encodeAll front).length) back).filter
      (fun e => WalCursor.AtOrBefore ⟨segment, (encodeAll front).length⟩ e.1) =
        locatedIn segment (0 + (encodeAll front).length) back := by
    rw [List.filter_eq_self]
    intro e he
    obtain ⟨hseg, hlo, -⟩ := mem_locatedIn he
    exact decide_eq_true (Or.inr ⟨hseg.symm, by simpa using hlo⟩)
  rw [hfront, hback, List.nil_append, locatedIn_map_snd]

theorem after_of_lt {j : Journal} {cur : WalCursor} (h : ∀ seg ∈ j, cur.segment < seg.1) :
    after j cur = records j := by
  induction j with
  | nil => rfl
  | cons seg rest ih =>
      have hseg : after [seg] cur = seg.2 := after_newer (h seg List.mem_cons_self)
      have hrest := ih fun s hs => h s (List.mem_cons_of_mem seg hs)
      rw [← List.singleton_append, after_append, records_append, hseg, hrest]
      simp [records]

/-- At offset zero a segment counts in full unless it lies before the cursor. -/
theorem after_start {j : Journal} {cur : WalCursor} (hoff : cur.offset = 0)
    (h : ∀ seg ∈ j, cur.segment ≤ seg.1) : after j cur = records j := by
  induction j with
  | nil => rfl
  | cons seg rest ih =>
      have hrest := ih fun s hs => h s (List.mem_cons_of_mem seg hs)
      have hseg : after [seg] cur = seg.2 := by
        rcases Nat.lt_or_eq_of_le (h seg List.mem_cons_self) with hlt | heq
        · exact after_newer hlt
        · have hb := after_boundary seg.1 [] seg.2
          have hcur : cur = ⟨seg.1, (encodeAll []).length⟩ := by
            cases cur
            simp_all
          rw [hcur]
          exact hb
      rw [← List.singleton_append, after_append, records_append, hseg, hrest]
      simp [records]

end Journal

end TomAgent.Wal
