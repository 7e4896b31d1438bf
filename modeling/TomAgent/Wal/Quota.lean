import TomAgent.Core.Execution
import TomAgent.Wal.History
import TomAgent.Wal.Writer

/-!
# Cursors and the quota

Quota enforcement deletes whole segments without knowing any cursor.  `ReadFrom`
then applies the offset of a cursor into a deleted segment to the next segment
that is left.  A cursor is read correctly exactly when its segment still has a
file or its offset is zero.
-/

namespace TomAgent.Wal

open Segmented Journal Execution

/-! ## Runs -/

/-- A log, what was appended to it, and the cursors its reader knows: the zero
cursor and all that `ReadFrom` returned. -/
structure Consumer where
  wal : WAL
  log : History
  cursors : List WalCursor

def Consumer.start (dir : Dir) (maxBytes : Int) : Consumer := ⟨openWal dir maxBytes, [], [0]⟩

/-- The cursor's segment has a file, or the cursor is at the start of it. -/
def Intact (dir : Dir) (cur : WalCursor) : Prop :=
  cur.offset = 0 ∨ cur.segment ∈ segments dir

inductive Consumer.Step (may : Dir → WalCursor → Prop) : Consumer → Consumer → Prop
  | append (s : Consumer) (payload : Bytes) :
      Step may s { s with
        wal := (s.wal.appendAll [payload]).1
        log := s.log ++ (s.wal.appendAll [payload]).2 }
  | reopen (s : Consumer) (maxBytes : Int) :
      Step may s { s with wal := openWal s.wal.dir maxBytes }
  | readFrom (s : Consumer) (cur : WalCursor) (hcur : cur ∈ s.cursors)
      (hmay : may s.wal.dir cur) (max : Nat) (hmax : 1 ≤ max) :
      Step may s { s with cursors := (readFrom s.wal.dir cur max).2 :: s.cursors }

def Consumer.expected (s : Consumer) (cur : WalCursor) : List Bytes :=
  ((surviving s.wal.dir s.log).filter fun e => cur.AtOrBefore e.1).map Prod.snd

def Consumer.ReadsExactly (s : Consumer) (cur : WalCursor) : Prop :=
  ∀ max, 1 ≤ max → (readFrom s.wal.dir cur max).1 = (s.expected cur).take max

/-! ## Cursors while segments disappear -/

/-- A cursor behind at least one record of a segment that is gone. -/
structure Orphan (j : Journal) (cur : WalCursor) : Prop where
  offset : walHeaderSize ≤ cur.offset
  older : ∀ seg ∈ j, cur.segment < seg.1

theorem walHeaderSize_le_encodeAll {recs : List Bytes} (h : recs ≠ []) :
    walHeaderSize ≤ (encodeAll recs).length := by
  cases recs with
  | nil => exact absurd rfl h
  | cons r rest =>
      rw [encodeAll_cons, List.length_append, encodeRecord_length]
      omega

/-- Removing the oldest segments leaves a valid cursor valid or orphans it. -/
theorem Valid.drop {j : Journal} {cur : WalCursor} (hj : (j.map Prod.fst).Pairwise (· < ·))
    (hcur : Valid j cur) {n : Nat} (hn : n < j.length) :
    Valid (j.drop n) cur ∨ Orphan (j.drop n) cur := by
  have hlater : ∀ a ∈ j.take n, ∀ b ∈ j.drop n, a.1 < b.1 := by
    rw [← List.take_append_drop n j, List.map_append, List.pairwise_append] at hj
    intro a ha b hb
    exact hj.2.2 a.1 (List.mem_map_of_mem ha) b.1 (List.mem_map_of_mem hb)
  have hsplit : ∀ seg ∈ j, seg ∈ j.take n ∨ seg ∈ j.drop n := by
    intro seg hseg
    rwa [← List.take_append_drop n j, List.mem_append] at hseg
  have hrange : ∃ seg ∈ j.drop n, cur.segment ≤ seg.1 := by
    obtain ⟨seg, hseg, hle⟩ := hcur.inRange
    rcases hsplit seg hseg with hgone | hkept
    · obtain ⟨b, hb⟩ := List.exists_mem_of_ne_nil _ (List.drop_eq_nil_iff.not.mpr (Nat.not_le.mpr hn))
      exact ⟨b, hb, Nat.le_trans hle (Nat.le_of_lt (hlater seg hgone b hb))⟩
    · exact ⟨seg, hkept, hle⟩
  rcases hcur.boundary with hoff | ⟨front, back, hmem, hoff⟩
  · exact Or.inl ⟨Or.inl hoff, hrange⟩
  · rcases hsplit _ hmem with hgone | hkept
    · by_cases hfront : front = []
      · exact Or.inl ⟨Or.inl (by simp [hoff, hfront]), hrange⟩
      · exact Or.inr ⟨hoff ▸ walHeaderSize_le_encodeAll hfront, hlater _ hgone⟩
    · exact Or.inl ⟨Or.inr ⟨front, back, hkept, hoff⟩, hrange⟩

theorem Valid.appended {j k : Journal} {id : Nat} {p : Bytes} {cur : WalCursor}
    (happ : Appended j id [p] k) (hj : (j.map Prod.fst).Pairwise (· < ·)) (hcur : Valid j cur) :
    Valid k cur ∨ Orphan k cur := by
  obtain ⟨init, recs, n, hopened, hn, rfl⟩ := happ
  obtain ⟨hmid, -⟩ := hcur.opened hopened
  have hsorted := hopened.sorted hj
  obtain ⟨hpush, -⟩ := hmid.push hsorted p
  exact hpush.drop (by simpa using hsorted) (by simp; omega)

theorem Orphan.appended {j k : Journal} {id : Nat} {p : Bytes} {cur : WalCursor}
    (happ : Appended j id [p] k) (hj : (j.map Prod.fst).Pairwise (· < ·)) (hne : j ≠ [])
    (hcur : Orphan j cur) : Orphan k cur := by
  refine ⟨hcur.offset, ?_⟩
  obtain ⟨first, hfirst⟩ := List.exists_mem_of_ne_nil j hne
  have hid : cur.segment < id :=
    Nat.lt_of_lt_of_le (hcur.older first hfirst) (happ.le hj first hfirst)
  obtain ⟨init, recs, n, hopened, -, rfl⟩ := happ
  intro seg hseg
  rcases List.mem_append.mp (List.mem_of_mem_drop hseg) with hseg | hseg
  · rcases hopened with heq | ⟨fresh, -, heq⟩
    · exact hcur.older seg (heq ▸ List.mem_append_left _ hseg)
    · exact hcur.older seg ((List.append_inj' heq rfl).1 ▸ hseg)
  · rw [List.mem_singleton] at hseg
    exact hseg ▸ hid

/-- From an orphan the first segment left is read at the offset of another one. -/
theorem Orphan.remaining_eq {dir : Dir} {s : Nat} {recs : List Bytes} {rest : Journal}
    {cur : WalCursor} (h : Holds dir ((s, recs) :: rest)) (hcur : Orphan ((s, recs) :: rest) cur) :
    remaining dir cur = entries ((encodeAll recs).drop cur.offset) ++ records rest := by
  have hfirst : (s, recs) ∈ (s, recs) :: rest := List.mem_cons_self
  have hs : cur.segment < s := hcur.older (s, recs) hfirst
  obtain ⟨last, hlast⟩ := h.exists_last hfirst
  have hle : cur.segment ≤ last :=
    (h.inRange_iff hlast).mp ⟨(s, recs), hfirst, Nat.le_of_lt hs⟩
  have hbytes : content dir s = encodeAll recs := h.bytes (s, recs) hfirst
  rw [remaining, restart_of_le hlast hle, h.ids, List.map_cons, pending,
    if_neg (Nat.lt_asymm hs), hbytes, h.entriesOf fun seg hseg => List.mem_cons_of_mem _ hseg]

/-- Some of the records of that segment are missed. -/
theorem Orphan.remaining_ne {dir : Dir} {j : Journal} {cur : WalCursor} (h : Holds dir j)
    (hcur : Orphan j cur) (hne : j ≠ []) (hfull : ∀ seg ∈ j, seg.2 ≠ []) :
    remaining dir cur ≠ records j := by
  obtain ⟨⟨s, recs⟩, rest, rfl⟩ := List.exists_cons_of_ne_nil hne
  intro heq
  have hrecords : records ((s, recs) :: rest) = recs ++ records rest := by simp [records]
  rw [hcur.remaining_eq h, hrecords, List.append_cancel_right_eq] at heq
  have hlen := entries_encoded_length ((encodeAll recs).drop cur.offset)
  rw [heq, List.length_drop] at hlen
  have hpos := walHeaderSize_le_encodeAll (hfull (s, recs) List.mem_cons_self)
  have hoff := hcur.offset
  dsimp only at hpos
  omega

/-! ## The invariant -/

structure Consumer.Inv (s : Consumer) (j : Journal) : Prop where
  stores : s.wal.Stores j
  active : s.wal.activeSeg ∈ j.map Prod.fst
  sized : s.wal.Sized
  bound : ∀ e ∈ s.log, e.1.segment ≤ s.wal.activeSeg
  located : located j = surviving s.wal.dir s.log
  -- the writer leaves a segment only when it is full
  older : ∀ seg ∈ j, seg.1 ≠ s.wal.activeSeg → seg.2 ≠ []
  written : s.log ≠ [] → ∀ seg ∈ j, seg.2 ≠ []
  cursors : ∀ cur ∈ s.cursors, Valid j cur ∨ Orphan j cur ∧ s.log ≠ []

theorem Consumer.Inv.expected_eq {s : Consumer} {j : Journal} (h : s.Inv j) (cur : WalCursor) :
    s.expected cur = after j cur := by
  rw [expected, ← h.located, after]

theorem Consumer.Inv.journal_ne_nil {s : Consumer} {j : Journal} (h : s.Inv j) : j ≠ [] := by
  rintro rfl
  simpa using h.active

theorem Consumer.Inv.intact_iff {s : Consumer} {j : Journal} (h : s.Inv j) {cur : WalCursor}
    (hcur : cur ∈ s.cursors) : Intact s.wal.dir cur ↔ Valid j cur := by
  rw [Intact, h.stores.holds.ids]
  constructor
  · intro hintact
    rcases h.cursors cur hcur with hvalid | ⟨horphan, -⟩
    · exact hvalid
    · have hpos : 0 < cur.offset := Nat.lt_of_lt_of_le (by decide) horphan.offset
      rcases hintact with hoff | hmem
      · omega
      · obtain ⟨seg, hseg, hfst⟩ := List.mem_map.mp hmem
        have hlt := horphan.older seg hseg
        omega
  · intro hvalid
    rcases hvalid.boundary with hoff | ⟨front, back, hmem, -⟩
    · exact Or.inl hoff
    · exact Or.inr (List.mem_map_of_mem hmem)

theorem Consumer.Inv.readsExactly_iff {s : Consumer} {j : Journal} (h : s.Inv j) {cur : WalCursor}
    (hcur : cur ∈ s.cursors) : s.ReadsExactly cur ↔ Intact s.wal.dir cur := by
  have hholds := h.stores.holds
  constructor
  · intro hexact
    rw [h.intact_iff hcur]
    refine (h.cursors cur hcur).resolve_right fun horphan => ?_
    -- a batch large enough for both sides shows the whole streams
    have hbatch := hexact
      ((remaining s.wal.dir cur).length + (s.expected cur).length + 1) (Nat.le_add_left 1 _)
    rw [(readFrom_spec hholds.canonical cur (Nat.le_add_left 1 _)).1,
      List.take_of_length_le (by omega), List.take_of_length_le (by omega), h.expected_eq,
      after_of_lt horphan.1.older] at hbatch
    exact horphan.1.remaining_ne hholds h.journal_ne_nil (h.written horphan.2) hbatch
  · intro hintact max hmax
    rw [(hholds.readFrom ((h.intact_iff hcur).mp hintact) hmax).1, h.expected_eq]

/-! ## Steps -/

theorem Consumer.start_inv {dir : Dir} (hdir : segments dir = []) (maxBytes : Int) :
    ∃ j, (Consumer.start dir maxBytes).Inv j := by
  obtain ⟨j, hopened, hstores, hactive⟩ := openWal_stores (holds_of_no_segments hdir) maxBytes
  obtain ⟨seg, hseg, -⟩ := List.mem_map.mp hactive
  have hlocated : Journal.located j = [] := hopened.flatMap (fun _ => rfl)
  refine ⟨j, hstores, hactive, WAL.openActive_sized _, by simp [start], ?_, ?_, by simp [start], ?_⟩
  · simp [hlocated, start, surviving]
  · rcases hopened with rfl | ⟨id, -, rfl⟩
    · simp
    · have hid : (openWal dir maxBytes).activeSeg = id := by simpa using hactive
      simp [start, hid]
  · intro cur hcur
    rw [start, List.mem_singleton] at hcur
    exact Or.inl ⟨Or.inl (by rw [hcur]; rfl), seg, hseg, by rw [hcur]; exact Nat.zero_le _⟩

/-- After an append no segment is empty: the writer leaves only full ones. -/
theorem Consumer.Inv.appended_ne_nil {s : Consumer} {j k : Journal} (h : s.Inv j) {p : Bytes}
    (happ : Appended j (s.wal.rotate none).1.activeSeg [p] k) : ∀ seg ∈ k, seg.2 ≠ [] := by
  obtain ⟨init, recs, n, hopened, -, rfl⟩ := happ
  intro seg hseg
  rcases List.mem_append.mp (List.mem_of_mem_drop hseg) with hseg | hseg
  · have hnewest : ∀ seg ∈ j, seg.1 ≤ s.wal.activeSeg := fun seg hseg =>
      h.stores.ready.newest seg.1 (h.stores.holds.ids ▸ List.mem_map_of_mem hseg)
    have hsorted := hopened.sorted h.stores.holds.sorted
    rw [List.map_append, List.pairwise_append] at hsorted
    have hlt := hsorted.2.2 seg.1 (List.mem_map_of_mem hseg) _ (List.mem_map_of_mem List.mem_cons_self)
    have hmem : seg ∈ j := by
      rcases hopened with heq | ⟨fresh, -, heq⟩
      · exact heq ▸ List.mem_append_left _ hseg
      · exact (List.append_inj' heq rfl).1 ▸ hseg
    by_cases hactive : seg.1 = s.wal.activeSeg
    · -- the active segment was left behind, so it had reached its maximum
      rw [WAL.rotate_activeSeg] at hlt
      split at hlt
      · rename_i hfull
        have hbytes := h.stores.holds.bytes seg hmem
        rw [h.sized, ← hactive, hbytes] at hfull
        rintro hnil
        simp [hnil, walSegmentMaxBytes] at hfull
      · dsimp only at hlt
        omega
    · exact h.older seg hmem hactive
  · rw [List.mem_singleton] at hseg
    subst hseg
    simp

theorem Consumer.Inv.append {s : Consumer} {j : Journal} (h : s.Inv j) {p : Bytes} (hp : Fits p) :
    ∃ k, Consumer.Inv { s with
      wal := (s.wal.append p none).1
      log := s.log ++ [((s.wal.append p none).1.lastPlace p, p)] } k := by
  have hsorted := h.stores.holds.sorted
  obtain ⟨k, hk, happ⟩ := WAL.append_stores h.stores hp
  obtain ⟨-, hid, -⟩ := WAL.append_fits_image h.stores.ready hp
  have hsized := WAL.append_sized h.stores.ready h.sized hp
  generalize (s.wal.append p none).1 = done at hk happ hid hsized ⊢
  have hactive := happ.mem
  have hle : s.wal.activeSeg ≤ done.activeSeg := by
    obtain ⟨seg, hseg, hfst⟩ := List.mem_map.mp h.active
    exact hfst ▸ happ.le hsorted seg hseg
  have hnonempty := h.appended_ne_nil (hid ▸ happ)
  refine ⟨k, hk, hactive, hsized, ?_, ?_, fun seg hseg _ => hnonempty seg hseg,
    fun _ => hnonempty, ?_⟩
  · intro e he
    rcases List.mem_append.mp he with he | he
    · exact Nat.le_trans (h.bound e he) hle
    · rw [List.mem_singleton] at he
      subst he
      exact Nat.le_refl done.activeSeg
  · have hnew := h.stores.ready.next_segment (fun e : WalCursor × Bytes => e.1.segment) h.bound
    rw [← hid, h.stores.holds.ids] at hnew
    have hfilter := happ.filter _ hnew
    obtain ⟨init, recs, n, hopened, hn, hdrop⟩ := happ
    have hlast : (done.activeSeg, recs ++ [p]) ∈ k := by
      rw [hdrop, List.drop_append_of_le_length hn]
      simp
    have hplace : done.lastPlace p = ⟨done.activeSeg, (encodeAll recs).length⟩ :=
      WAL.lastPlace_eq (hk.holds.bytes (done.activeSeg, recs ++ [p]) hlast)
    have hextra : locatedIn done.activeSeg 0 (recs ++ [p]) =
        locatedIn done.activeSeg 0 recs ++ [(done.lastPlace p, p)] := by
      rw [locatedIn_append, hplace]
      simp [locatedIn]
    have hlocated := flatMap_appended (fun e : WalCursor × Bytes => e.1.segment)
      (fun seg : Nat × List Bytes => locatedIn seg.1 0 seg.2) hopened hsorted
      (fun seg e he => (mem_locatedIn he).1) (fun _ => rfl) hextra n
    rw [← hdrop, ← Journal.located, ← Journal.located, h.located, List.filter_append] at hlocated
    rw [hlocated, surviving, surviving, List.filter_append, hk.holds.ids, h.stores.holds.ids,
      hfilter]
  · intro cur hcur
    rcases h.cursors cur hcur with hvalid | ⟨horphan, -⟩
    · rcases hvalid.appended happ hsorted with hvalid | horphan
      · exact Or.inl hvalid
      · exact Or.inr ⟨horphan, by simp⟩
    · exact Or.inr ⟨horphan.appended happ hsorted h.journal_ne_nil, by simp⟩

theorem Consumer.step_inv {s t : Consumer} (h : ∃ j, s.Inv j) (step : Consumer.Step Intact s t) :
    ∃ j, t.Inv j := by
  obtain ⟨j, hinv⟩ := h
  cases step with
  | append payload =>
      by_cases hp : Fits payload
      · rw [WAL.appendAll_singleton _ hp]
        exact hinv.append hp
      · have herr : s.wal.append payload none = (s.wal, some (.entryTooLarge payload.length)) := by
          simp [WAL.append, Nat.lt_of_not_le hp]
        simpa [WAL.appendAll, herr] using ⟨j, hinv⟩
  | reopen maxBytes =>
      have hready := hinv.stores.ready
      have hactive : s.wal.activeSeg ∈ segments s.wal.dir := hinv.stores.holds.ids ▸ hinv.active
      obtain ⟨init, himg⟩ := WAL.image_active hready.canonical hready.newest hactive
      have hopen := WAL.openWal_of_image hready.canonical himg maxBytes
      refine ⟨j, ?_⟩
      rw [hopen]
      exact ⟨⟨hinv.stores.holds, ⟨hready.canonical, hready.newest, Or.inl hactive⟩⟩, hinv.active,
        rfl, hinv.bound, hinv.located, hinv.older, hinv.written, hinv.cursors⟩
  | readFrom cur hcur hmay max hmax =>
      obtain ⟨-, -, hnext⟩ :=
        hinv.stores.holds.readFrom ((hinv.intact_iff hcur).mp hmay) hmax
      refine ⟨j, { hinv with cursors := ?_ }⟩
      intro c hc
      rcases List.mem_cons.mp hc with rfl | hc
      · exact Or.inl hnext
      · exact hinv.cursors c hc

theorem Consumer.inv_of_run {dir : Dir} (hdir : segments dir = []) {maxBytes : Int} {s : Consumer}
    (run : Reaches (Consumer.Step Intact) (Consumer.start dir maxBytes) s) : ∃ j, s.Inv j :=
  invariant (fun s => ∃ j, Consumer.Inv s j) (fun _ _ h step => Consumer.step_inv h step)
    (Consumer.start_inv hdir maxBytes) run

/-! ## A cursor whose segment is deleted -/

theorem exists_consumer_filled {p : Bytes} (hfits : Fits p) (m : Nat) :
    ∃ s, Reaches (Consumer.Step Intact) (Consumer.start ∅ 1) s ∧ s.cursors = [0] ∧
      s.wal = (openWal ∅ 1).fill p m := by
  induction m with
  | zero => exact ⟨_, Relation.ReflTransGen.refl, rfl, rfl⟩
  | succ m ih =>
      obtain ⟨s, run, hcursors, hwal⟩ := ih
      have happend := @Consumer.Step.append Intact s p
      rw [WAL.appendAll_singleton _ hfits] at happend
      refine ⟨_, run.tail happend, hcursors, ?_⟩
      rw [WAL.fill, ← hwal]

theorem readFrom_one {dir : Dir} (hdir : Canonical dir) {p : Bytes} (hp : Fits p)
    {rest : Bytes} (himg : image dir = [(0, encodeRecord p ++ rest)]) :
    (readFrom dir 0 1).2 = ⟨0, walHeaderSize + p.length⟩ := by
  have hsegments : segments dir = [0] := by rw [← image_map_fst, himg]; rfl
  have hmem : (0, encodeRecord p ++ rest) ∈ image dir := by simp [himg]
  have hfile : dir.lookup (segName 0) = some (encodeRecord p ++ rest) := by
    rw [lookup_segName hdir (mem_image.mp hmem).1, (mem_image.mp hmem).2]
  have hbatch : readSegment (some (encodeRecord p ++ rest)) 0 1 =
      ([p], walHeaderSize + p.length, false) := by
    rw [readSegment, List.drop_zero, readEntries, readEntry_encodeRecord hp]
    simp [readEntries]
  have hpos : 0 < walHeaderSize + p.length := by simp [walHeaderSize]
  have hzero : (0 : WalCursor) = ⟨0, 0⟩ := rfl
  simp [readFrom, hsegments, readFromLoop, hfile, hzero, hbatch, hpos]

def behindFirst : WalCursor := ⟨0, walHeaderSize + walMaxEntrySize⟩

/-- The reader stands behind the first of eight records when the ninth starts a
new segment and the quota deletes the first one. -/
theorem exists_orphaned :
    ∃ s, Reaches (Consumer.Step Intact) (Consumer.start ∅ 1) s ∧ s.cursors = [behindFirst, 0] ∧
      image s.wal.dir = [(1, encodeRecord [7])] := by
  obtain ⟨p, hp⟩ : ∃ p : Bytes, p.length = walMaxEntrySize :=
    ⟨List.replicate walMaxEntrySize 0, List.length_replicate⟩
  have hseven : Fits [7] := by decide
  obtain ⟨s, run, hcursors, hwal⟩ := exists_consumer_filled (Nat.le_of_eq hp) 8
  have hfilled : s.wal.Filled 1 (encodeAll (List.replicate 8 p)) :=
    hwal ▸ WAL.fill_filled hp 1 (Nat.le_refl 8)
  have hcur := readFrom_one hfilled.ready.canonical (Nat.le_of_eq hp)
    (by rw [hfilled.files, hfilled.active, List.replicate_succ, encodeAll_cons])
  have hread := @Consumer.Step.readFrom Intact s 0 (by simp [hcursors]) (Or.inl rfl) 1 (Nat.le_refl 1)
  rw [hcur, hp] at hread
  have happend := @Consumer.Step.append Intact { s with cursors := behindFirst :: s.cursors } [7]
  rw [WAL.appendAll_singleton _ hseven] at happend
  refine ⟨_, (run.tail hread).tail happend, by rw [hcursors], ?_⟩
  exact hfilled.rotates (WAL.fill_full hp) hseven

/-! ## The law -/

/-- In every run whose reads so far used intact cursors, reading from a known cursor returns
exactly the surviving records at or after it if and only if the cursor is intact. -/
theorem quota_cursor_iff {dir : Dir} (hdir : segments dir = []) {maxBytes : Int} {s : Consumer}
    (run : Reaches (Consumer.Step Intact) (Consumer.start dir maxBytes) s) {cur : WalCursor}
    (hcur : cur ∈ s.cursors) : s.ReadsExactly cur ↔ Intact s.wal.dir cur := by
  obtain ⟨j, hinv⟩ := Consumer.inv_of_run hdir run
  exact hinv.readsExactly_iff hcur

theorem quota_cursor_iff_deleted_segment :
    ∃ s, Reaches (Consumer.Step Intact) (Consumer.start ∅ 1) s ∧ segments s.wal.dir = [1] ∧
      behindFirst ∈ s.cursors ∧ ¬ s.ReadsExactly behindFirst ∧ s.ReadsExactly 0 := by
  obtain ⟨s, run, hcursors, himg⟩ := exists_orphaned
  have hsegments : segments s.wal.dir = [1] := by
    rw [← image_map_fst, himg]
    rfl
  have hgone : ¬ Intact s.wal.dir behindFirst := by
    rw [Intact, hsegments]
    decide
  refine ⟨s, run, hsegments, by simp [hcursors], ?_, ?_⟩
  · rw [quota_cursor_iff (by decide) run (by simp [hcursors])]
    exact hgone
  · rw [quota_cursor_iff (by decide) run (by simp [hcursors])]
    exact Or.inl rfl

/-- The ninth record is the only one left, and reading from the cursor behind the first one
does not return it. -/
theorem quota_hides_record :
    ∃ s cur, Reaches (Consumer.Step Intact) (Consumer.start ∅ 1) s ∧ cur ∈ s.cursors ∧
      s.expected cur = [[7]] ∧ (readFrom s.wal.dir cur 1).1 = [] := by
  obtain ⟨s, run, hcursors, himg⟩ := exists_orphaned
  obtain ⟨k, hk⟩ := Consumer.inv_of_run (by decide) run
  obtain ⟨recs, rfl, hrecs⟩ : ∃ recs, k = [(1, recs)] ∧ encodeAll recs = encodeRecord [7] := by
    have henc := hk.stores.holds.image_eq.symm.trans himg
    obtain ⟨seg, rfl, hpair⟩ := List.map_eq_singleton_iff.mp henc
    rw [Prod.mk.injEq] at hpair
    exact ⟨seg.2, by rw [← hpair.1], hpair.2⟩
  have hseven : recs = [[7]] := by
    have hfits : ∀ q ∈ recs, Fits q := hk.stores.holds.fits (1, recs) List.mem_cons_self
    calc
      recs = entries (encodeAll recs) := (entries_encodeAll hfits).symm
      _ = entries (encodeAll [[7]]) := by rw [hrecs, encodeAll_singleton]
      _ = [[7]] := entries_encodeAll (by decide)
  subst hseven
  have horphan : Orphan [(1, [[7]])] behindFirst := ⟨Nat.le_add_right _ _, by simp [behindFirst]⟩
  refine ⟨s, behindFirst, run, by simp [hcursors], ?_, ?_⟩
  · rw [hk.expected_eq, after_of_lt horphan.older]
    rfl
  · rw [(readFrom_spec hk.stores.holds.canonical _ (Nat.le_refl 1)).1,
      horphan.remaining_eq hk.stores.holds, List.drop_of_length_le (by decide)]
    simp

end TomAgent.Wal
