import TomAgent.Wal.History
import TomAgent.Wal.Reader

/-!
# What the writer does to the journal

The effects of opening and appending on the files, read as effects on the
journal those files hold.
-/

namespace TomAgent.Wal

open Segmented Journal

def Journal.encoded (j : Journal) : Segmented UInt8 := j.map fun seg => (seg.1, encodeAll seg.2)

@[simp] theorem encoded_map_fst (j : Journal) : (encoded j).map Prod.fst = j.map Prod.fst := by
  simp [encoded, Function.comp_def]

theorem Holds.image_eq {dir : Dir} {j : Journal} (h : Holds dir j) : image dir = encoded j := by
  refine Wal.image_eq (by simp [h.ids]) ?_
  intro seg hseg
  obtain ⟨s, hs, rfl⟩ := List.mem_map.mp hseg
  exact h.bytes s hs

theorem holds_of_image {dir : Dir} {j : Journal} (hdir : Canonical dir)
    (himg : image dir = encoded j) (hfits : ∀ seg ∈ j, ∀ p ∈ seg.2, Fits p) : Holds dir j := by
  refine ⟨hdir, ?_, ?_, hfits⟩
  · rw [← image_map_fst, himg, encoded_map_fst]
  · intro seg hseg
    have hmem : (seg.1, encodeAll seg.2) ∈ image dir := by
      rw [himg]
      exact List.mem_map_of_mem (f := fun s : Nat × List Bytes => (s.1, encodeAll s.2)) hseg
    exact (mem_image.mp hmem).2

theorem holds_of_no_segments {dir : Dir} (h : segments dir = []) : Holds dir [] :=
  ⟨canonical_of_no_segments h, by simpa using h, by simp, by simp⟩

/-! ## From files to journals -/

theorem Journal.opened_of_encoded {j : Journal} {img : Segmented UInt8}
    (h : Opened (encoded j) img) : ∃ k : Journal, Opened j k ∧ img = encoded k := by
  rcases h with rfl | ⟨id, hid, rfl⟩
  · exact ⟨j, Or.inl rfl, rfl⟩
  · refine ⟨j ++ [(id, [])], Or.inr ⟨id, ?_, rfl⟩, by simp [encoded]⟩
    intro seg hseg
    exact hid (seg.1, encodeAll seg.2) (List.mem_map_of_mem hseg)

theorem Journal.appended_of_encoded {j : Journal} {id : Nat} {p : Bytes} {img : Segmented UInt8}
    (h : Appended (encoded j) id (encodeRecord p) img) :
    ∃ k : Journal, Appended j id [p] k ∧ img = encoded k := by
  obtain ⟨init, bytes, n, hopened, hn, rfl⟩ := h
  obtain ⟨k, hk, heq⟩ := opened_of_encoded hopened
  obtain ⟨init', last, rfl, rfl, hlast⟩ := List.map_eq_append_iff.mp heq.symm
  obtain ⟨⟨id', recs⟩, rfl, hpair⟩ := List.map_eq_singleton_iff.mp hlast
  rw [Prod.mk.injEq] at hpair
  obtain ⟨rfl, rfl⟩ := hpair
  refine ⟨(init' ++ [(id', recs ++ [p])]).drop n, ⟨init', recs, n, hk, ?_, rfl⟩, ?_⟩
  · simpa using hn
  · simp [encoded, List.map_drop]

theorem Segmented.Opened.fits {j k : Journal} (h : Opened j k)
    (hfits : ∀ seg ∈ j, ∀ p ∈ seg.2, Fits p) : ∀ seg ∈ k, ∀ p ∈ seg.2, Fits p := by
  rcases h with rfl | ⟨id, -, rfl⟩
  · exact hfits
  · intro seg hseg p hp
    rcases List.mem_append.mp hseg with hseg | hseg
    · exact hfits seg hseg p hp
    · rw [List.mem_singleton] at hseg
      subst hseg
      simp at hp

theorem Segmented.Appended.fits {j k : Journal} {id : Nat} {p : Bytes} (h : Appended j id [p] k)
    (hp : Fits p) (hfits : ∀ seg ∈ j, ∀ p ∈ seg.2, Fits p) : ∀ seg ∈ k, ∀ p ∈ seg.2, Fits p := by
  obtain ⟨init, recs, n, hopened, -, rfl⟩ := h
  have hbefore := hopened.fits hfits
  intro seg hseg q hq
  rcases List.mem_append.mp (List.mem_of_mem_drop hseg) with hseg | hseg
  · exact hbefore seg (List.mem_append_left _ hseg) q hq
  · rw [List.mem_singleton] at hseg
    subst hseg
    rcases List.mem_append.mp hq with hq | hq
    · exact hbefore (id, recs) (by simp) q hq
    · rw [List.mem_singleton] at hq
      exact hq ▸ hp

/-! ## Operations -/

/-- The writer's directory holds the journal. -/
structure WAL.Stores (w : WAL) (j : Journal) : Prop where
  holds : Holds w.dir j
  ready : w.Ready

theorem openWal_stores {dir : Dir} {j : Journal} (h : Holds dir j) (maxBytes : Int) :
    ∃ k, Opened j k ∧ (openWal dir maxBytes).Stores k ∧
      (openWal dir maxBytes).activeSeg ∈ k.map Prod.fst := by
  obtain ⟨hready, hopened, hactive⟩ := WAL.openWal_image h.canonical maxBytes
  rw [h.image_eq] at hopened
  obtain ⟨k, hk, himg⟩ := opened_of_encoded hopened
  have hholds := holds_of_image hready.canonical himg (hk.fits h.fits)
  exact ⟨k, hk, ⟨hholds, hready⟩, hholds.ids ▸ hactive⟩

/-- Every outcome of `Append` except a write that stops half way: the record is in
the journal, or it is not and the caller saw an error. -/
theorem WAL.append_cases {w : WAL} {j : Journal} (h : w.Stores j) (p : Bytes)
    {fault : Option AppendFault} (hheader : ∀ n, fault ≠ some (.writeHeader n))
    (hpayload : ∀ n, fault ≠ some (.writePayload n)) :
    ∃ k, (w.append p fault).1.Stores k ∧
      (Appended j (w.append p fault).1.activeSeg [p] k ∧ Recorded (w.append p fault).2 ∨
        Opened j k ∧ ¬ Recorded (w.append p fault).2) := by
  obtain ⟨hready, hcase⟩ := append_image h.ready p hheader hpayload
  rw [h.holds.image_eq] at hcase
  rcases hcase with ⟨happ, hp, -, hrecorded⟩ | ⟨hopened, herr⟩
  · obtain ⟨k, hk, himg⟩ := appended_of_encoded happ
    have hholds := holds_of_image hready.canonical himg (hk.fits hp h.holds.fits)
    exact ⟨k, ⟨hholds, hready⟩, Or.inl ⟨hk, hrecorded⟩⟩
  · obtain ⟨k, hk, himg⟩ := opened_of_encoded hopened
    have hholds := holds_of_image hready.canonical himg (hk.fits h.holds.fits)
    exact ⟨k, ⟨hholds, hready⟩, Or.inr ⟨hk, herr⟩⟩

theorem WAL.append_stores {w : WAL} {j : Journal} (h : w.Stores j) {p : Bytes}
    (hp : Fits p) :
    ∃ k, (w.append p none).1.Stores k ∧ Appended j (w.append p none).1.activeSeg [p] k := by
  obtain ⟨k, hk, hcase⟩ := @append_cases w j h p none (by simp) (by simp)
  rcases hcase with ⟨happ, -⟩ | ⟨-, herr⟩
  · exact ⟨k, hk, happ⟩
  · rw [append_ok.mpr hp] at herr
    exact absurd trivial herr

/-! ## Appending without the quota -/

/-- If no segment disappears, an append adds its record and nothing else. -/
theorem Segmented.Appended.kept {j k : Journal} {id : Nat} {p : Bytes} (h : Appended j id [p] k)
    (hsorted : (j.map Prod.fst).Pairwise (· < ·))
    (hkept : ∀ id ∈ j.map Prod.fst, id ∈ k.map Prod.fst) :
    ∃ init recs, Opened j (init ++ [(id, recs)]) ∧ k = init ++ [(id, recs ++ [p])] := by
  obtain ⟨init, recs, n, hopened, hn, rfl⟩ := h
  refine ⟨init, recs, hopened, ?_⟩
  cases n with
  | zero => rfl
  | succ n =>
      -- the oldest segment would be gone, and later ids are larger
      cases init with
      | nil => simp at hn
      | cons first init =>
          have hfirst : first.1 ∈ j.map Prod.fst := by
            rcases hopened with heq | ⟨id', -, heq⟩
            · rw [← heq]
              simp
            · have hj : first :: init = j := List.append_inj_left' heq rfl
              rw [← hj]
              simp
          have hlater := (List.pairwise_cons.mp (hopened.sorted hsorted)).1
          have hmem := hkept first.1 hfirst
          rw [List.cons_append, List.drop_succ_cons, List.mem_map] at hmem
          obtain ⟨seg, hseg, heq⟩ := hmem
          have hid : seg.1 ∈ (init ++ [(id, recs)]).map Prod.fst := by
            have hin := List.mem_map_of_mem (f := Prod.fst) (List.mem_of_mem_drop hseg)
            simpa using hin
          have hlt := hlater seg.1 hid
          omega

/-! ## Cursors while the journal grows -/

theorem Valid.opened {j k : Journal} {cur : WalCursor} (h : Opened j k) (hcur : Valid j cur) :
    Valid k cur ∧ after k cur = after j cur := by
  rcases h with rfl | ⟨id, hid, rfl⟩
  · exact ⟨hcur, rfl⟩
  · obtain ⟨seg, hseg, hle⟩ := hcur.inRange
    refine ⟨⟨hcur.boundary.mono fun s hs => List.mem_append_left _ hs, seg,
      List.mem_append_left _ hseg, hle⟩, ?_⟩
    simp [after, located, locatedIn]

theorem records_opened {j k : Journal} (h : Opened j k) : records k = records j := by
  rcases h with rfl | ⟨id, -, rfl⟩
  · rfl
  · simp [records]

/-- A record appended to the newest segment comes after every valid cursor. -/
theorem Valid.push {init : Journal} {id : Nat} {recs : List Bytes} {cur : WalCursor}
    (hsorted : ((init ++ [(id, recs)]).map Prod.fst).Pairwise (· < ·))
    (hcur : Valid (init ++ [(id, recs)]) cur) (p : Bytes) :
    Valid (init ++ [(id, recs ++ [p])]) cur ∧
      after (init ++ [(id, recs ++ [p])]) cur = after (init ++ [(id, recs)]) cur ++ [p] := by
  have hinit : ∀ seg ∈ init, seg.1 < id := by
    rw [List.map_append, List.pairwise_append] at hsorted
    intro seg hseg
    exact hsorted.2.2 seg.1 (List.mem_map_of_mem hseg) id (by simp)
  have hle : cur.segment ≤ id := by
    obtain ⟨seg, hseg, hle⟩ := hcur.inRange
    rcases List.mem_append.mp hseg with hseg | hseg
    · have := hinit seg hseg
      omega
    · rw [List.mem_singleton] at hseg
      subst hseg
      exact hle
  -- the cursor does not lie beyond the end of the newest segment
  have hend : cur.AtOrBefore ⟨id, (encodeAll recs).length⟩ := by
    rcases Nat.lt_or_eq_of_le hle with hlt | heq
    · exact Or.inl hlt
    · refine Or.inr ⟨heq, ?_⟩
      rcases hcur.boundary with hoff | ⟨front, back, hmem, hoff⟩
      · simp [hoff]
      · rcases List.mem_append.mp hmem with hmem | hmem
        · have := hinit _ hmem
          simp only at this
          omega
        · rw [List.mem_singleton, Prod.mk.injEq] at hmem
          simp [hoff, ← hmem.2]
  refine ⟨⟨?_, (id, recs ++ [p]), by simp, hle⟩, ?_⟩
  · rcases hcur.boundary with hoff | ⟨front, back, hmem, hoff⟩
    · exact Or.inl hoff
    · rcases List.mem_append.mp hmem with hmem | hmem
      · exact Or.inr ⟨front, back, List.mem_append_left _ hmem, hoff⟩
      · rw [List.mem_singleton, Prod.mk.injEq] at hmem
        refine Or.inr ⟨front, back ++ [p], List.mem_append_right _ ?_, hoff⟩
        rw [List.mem_singleton, Prod.mk.injEq, ← List.append_assoc, hmem.2]
        exact ⟨hmem.1, rfl⟩
  · rw [after_append, after_append, List.append_assoc]
    congr 1
    rw [after_singleton, after_singleton, locatedIn_append, List.filter_append, List.map_append]
    congr 1
    simp [locatedIn, hend]

end TomAgent.Wal
