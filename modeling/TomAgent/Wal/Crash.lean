import TomAgent.Wal.History

/-!
# Crashes inside Append

A crash leaves a proper prefix of a record at the end of the active file.
`OpenWAL` resumes at the physical end of that file, so the next record is
written behind the torn bytes, while the reader parses the torn bytes together
with it.  Recovery is correct exactly when nothing was torn or when the torn
segment is already full, so that the next append opens a new one.
-/

namespace TomAgent.Wal

open Segmented BigEndian

/-! ## Record boundaries -/

/-- Bytes behind which the reader stands at a record boundary. -/
def Resumable (bytes : Bytes) : Prop :=
  ∀ tail, entries (bytes ++ tail) = entries bytes ++ entries tail

theorem resumable_nil : Resumable [] := by
  intro tail
  simp

theorem Resumable.entries_record {bytes p : Bytes} (h : Resumable bytes) (hp : Fits p)
    (tail : Bytes) :
    entries (bytes ++ encodeRecord p ++ tail) = entries bytes ++ p :: entries tail := by
  rw [List.append_assoc, h, entries_of_entry (readEntry_encodeRecord hp tail)]

theorem Resumable.record {bytes p : Bytes} (h : Resumable bytes) (hp : Fits p) :
    Resumable (bytes ++ encodeRecord p) ∧ entries (bytes ++ encodeRecord p) = entries bytes ++ [p] := by
  have hone : entries (bytes ++ encodeRecord p) = entries bytes ++ [p] := by
    simpa using h.entries_record hp []
  refine ⟨fun tail => ?_, hone⟩
  rw [h.entries_record hp, hone, List.append_assoc, List.singleton_append]

/-! ## What the files hold -/

def tags (log : History) : List (Nat × Bytes) := log.map fun e => (e.1.segment, e.2)

/-- The files hold what is left of the history and nothing else, and the next
record will be written at a record boundary. -/
structure Logged (w : WAL) (log : History) : Prop where
  ready : w.Ready
  bound : ∀ e ∈ log, e.1.segment ≤ w.activeSeg
  exact : tags (surviving w.dir log) = tagged (image w.dir)
  resume : walSegmentMaxBytes ≤ w.activeLen ∨ Resumable (content w.dir w.activeSeg)

theorem tags_surviving (dir : Dir) (log : History) :
    tags (surviving dir log) = (tags log).filter fun e => e.1 ∈ (image dir).map Prod.fst := by
  simp [tags, surviving, List.filter_map, Function.comp_def]

theorem sorted_image {dir : Dir} (hdir : Canonical dir) :
    ((image dir).map Prod.fst).Pairwise (· < ·) := by
  rw [image_map_fst]
  exact segments_pairwise_lt hdir

theorem Logged.drain {w : WAL} {log : History} (h : Logged w log) {out : List Bytes}
    (hout : Drains w.dir 0 out) : out = (surviving w.dir log).map Prod.snd := by
  rw [hout.eq_remaining h.ready.canonical, remaining_zero, ← h.exact]
  simp [tags, Function.comp_def]

theorem Logged.bound_tags {w : WAL} {log : History} (h : Logged w log) :
    ∀ e ∈ tags log, e.1 ≤ w.activeSeg := by
  intro e he
  obtain ⟨e', he', rfl⟩ := List.mem_map.mp he
  exact h.bound e' he'

theorem Logged.resumable_front {w : WAL} {log : History} (h : Logged w log)
    {init : Segmented UInt8} {id : Nat} {bytes : Bytes} (hid : id = (w.rotate none).1.activeSeg)
    (hopened : Opened (image w.dir) (init ++ [(id, bytes)])) : Resumable bytes := by
  rcases hopened with heq | ⟨fresh, -, heq⟩
  · have hlast : (id, bytes) ∈ image w.dir := by simp [← heq]
    obtain ⟨hmem, rfl⟩ := mem_image.mp hlast
    have hle := h.ready.newest id hmem
    rw [WAL.rotate_activeSeg] at hid
    split at hid
    · omega
    · rename_i hfull
      subst hid
      exact h.resume.resolve_left hfull
  · obtain ⟨-, hlast⟩ := List.append_inj' heq rfl
    simp only [List.cons.injEq, Prod.mk.injEq, and_true] at hlast
    rw [hlast.2]
    exact resumable_nil

theorem Logged.next_segment {w : WAL} {log : History} (h : Logged w log) :
    (w.rotate none).1.activeSeg ∈ (image w.dir).map Prod.fst ∨
      ∀ e ∈ tags log, e.1 < (w.rotate none).1.activeSeg := by
  rw [image_map_fst]
  exact h.ready.next_segment Prod.fst h.bound_tags

/-- A record that reaches the active file as a whole is the next one of the log. -/
theorem Logged.appended {w done : WAL} {log : History} (h : Logged w log) {p : Bytes} (hp : Fits p)
    (hready : done.Ready) (hid : done.activeSeg = (w.rotate none).1.activeSeg)
    (happ : Appended (image w.dir) done.activeSeg (encodeRecord p) (image done.dir)) :
    Logged done (log ++ [(done.lastPlace p, p)]) := by
  have hsorted := sorted_image h.ready.canonical
  have hbound : ∀ e ∈ log, e.1.segment ≤ done.activeSeg := by
    have hle : w.activeSeg ≤ done.activeSeg := by
      rw [hid, WAL.rotate_activeSeg]
      split <;> omega
    intro e he
    exact Nat.le_trans (h.bound e he) hle
  have hnew := h.next_segment
  rw [← hid] at hnew
  have hfilter := happ.filter Prod.fst hnew
  obtain ⟨init, bytes, n, hopened, hn, himg⟩ := happ
  obtain ⟨hresume, hentries⟩ := (h.resumable_front hid hopened).record hp
  have hextra : (entries (bytes ++ encodeRecord p)).map (done.activeSeg, ·) =
      (entries bytes).map (done.activeSeg, ·) ++ [(done.activeSeg, p)] := by
    simp [hentries]
  have htagged := flatMap_appended Prod.fst
    (fun seg : Nat × Bytes => (entries seg.2).map (seg.1, ·)) hopened hsorted
    (by simp) (by simp) hextra n
  refine ⟨hready, ?_, ?_, Or.inr ?_⟩
  · intro e he
    rcases List.mem_append.mp he with he | he
    · exact hbound e he
    · rw [List.mem_singleton] at he
      exact he ▸ Nat.le_refl _
  · rw [← himg] at htagged
    rw [tagged, htagged, tags_surviving, tags, List.map_append, ← tags, List.filter_append, hfilter,
      ← tags_surviving, h.exact, List.filter_append]
    rfl
  · have hlast : (done.activeSeg, bytes ++ encodeRecord p) ∈ image done.dir := by
      rw [himg, List.drop_append_of_le_length hn]
      simp
    rw [(mem_image.mp hlast).2]
    exact hresume

theorem Logged.append {w : WAL} {log : History} (h : Logged w log) {p : Bytes} (hp : Fits p) :
    Logged (w.append p none).1 (log ++ [((w.append p none).1.lastPlace p, p)]) := by
  obtain ⟨hready, hid, happ⟩ := WAL.append_fits_image h.ready hp
  exact h.appended hp hready hid happ

theorem Logged.appendAll {w : WAL} {log : History} (h : Logged w log) (ps : List Bytes) :
    Logged (w.appendAll ps).1 (log ++ (w.appendAll ps).2) := by
  induction ps generalizing w log with
  | nil => simpa [WAL.appendAll] using h
  | cons p rest ih =>
      by_cases hp : Fits p
      · have hstep := ih (h.append hp)
        simpa [WAL.appendAll, WAL.append_ok.mpr hp] using hstep
      · have herr : w.append p none = (w, some (.entryTooLarge p.length)) := by
          simp [WAL.append, Nat.lt_of_not_le hp]
        simpa [WAL.appendAll, herr] using ih h

/-! ## The torn segment -/

/-- The disk after a crash: the torn bytes follow a record boundary of the active file. -/
theorem Logged.crash {w : WAL} {log : History} (h : Logged w log) (p : Bytes) (written : Nat) :
    ∃ init id bytes, Resumable bytes ∧ w.activeSeg ≤ id ∧
      Canonical (w.crashDuringAppend p written) ∧
      image (w.crashDuringAppend p written) =
        init ++ [(id, bytes ++ (encodeRecord p).take written)] ∧
      tags (surviving (w.crashDuringAppend p written) log) = tagged (init ++ [(id, bytes)]) := by
  obtain ⟨hready, hopened, hactive⟩ := WAL.rotate_image h.ready none
  obtain ⟨init, himg⟩ :=
    WAL.image_active hready.canonical hready.newest (hactive (WAL.rotate_none w))
  obtain ⟨hcanonical, hdisk⟩ :=
    WAL.write_image hready.canonical himg ((encodeRecord p).take written)
  have hle : w.activeSeg ≤ (w.rotate none).1.activeSeg := by
    rw [WAL.rotate_activeSeg]
    split <;> omega
  rw [himg] at hopened
  refine ⟨init, _, _, h.resumable_front rfl hopened, hle, hcanonical, hdisk, ?_⟩
  have hids : (image (w.crashDuringAppend p written)).map Prod.fst =
      (init ++ [((w.rotate none).1.activeSeg,
        content (w.rotate none).1.dir (w.rotate none).1.activeSeg)]).map Prod.fst := by
    rw [WAL.crashDuringAppend, hdisk]
    simp
  have hsame : tagged _ = tagged (image w.dir) := hopened.flatMap (by simp)
  rw [tags_surviving, hids, hopened.filter Prod.fst h.next_segment, ← tags_surviving, h.exact,
    hsame]

/-- A record that the reader cannot find behind a torn copy of `p`. -/
def probe (p : Bytes) : Bytes := List.replicate (if p.length = 1 then 2 else 1) 0

theorem probe_length (p : Bytes) :
    (probe p).length ≠ p.length ∧ 1 ≤ (probe p).length ∧ (probe p).length ≤ 2 := by
  unfold probe
  split <;> simp <;> omega

theorem fits_probe (p : Bytes) : Fits (probe p) := by
  have := (probe_length p).2.2
  simp only [Fits, walMaxEntrySize]
  omega

theorem declaredLength_of_le {rest : Bytes} (h : walHeaderSize ≤ rest.length) :
    declaredLength (rest.take walHeaderSize) = decode (rest.take 4) := by
  have hfull : (rest.take walHeaderSize).length = walHeaderSize := by simpa using h
  rw [declaredLength, headerBuffer, hfull, Nat.sub_self, List.replicate_zero, List.append_nil,
    List.take_take]
  rfl

/-- The length the reader finds behind the tear: that of the torn record if its
length field is whole, else a multiple of 256, since the bytes that complete the
field are leading zeros of a short length. -/
theorem torn_declaredLength {p q : Bytes} (hp : Fits p) (hq : q.length < 256) {written : Nat}
    (hpos : 0 < written) (hlt : written < (encodeRecord p).length) :
    let n := declaredLength
      (((encodeRecord p).take written ++ encodeRecord q).take walHeaderSize)
    if 4 ≤ written then n = p.length else 256 ∣ n := by
  have hlength : walHeaderSize ≤ ((encodeRecord p).take written ++ encodeRecord q).length := by
    simp
    omega
  have htorn : ((encodeRecord p).take written).length = written := by
    rw [List.length_take]
    omega
  dsimp only
  rw [declaredLength_of_le hlength]
  split
  · rename_i hwhole
    rw [List.take_append_of_le_length (by omega), List.take_take, Nat.min_eq_left hwhole,
      encodeRecord_take_four]
    refine decode_encode_of_lt ?_
    simp only [Fits, walMaxEntrySize] at hp
    omega
  · rename_i hcut
    have hzeros : (encodeRecord q).take (4 - written) = List.replicate (4 - written) 0 := by
      have hshort : encode 4 q.length = List.replicate 3 0 ++ [UInt8.ofNat q.length] := by
        simp [encode, Nat.div_eq_of_lt, hq, show q.length < 65536 by omega,
          show q.length < 16777216 by omega, List.replicate]
      have hnested : (encodeRecord q).take (4 - written) =
          ((encodeRecord q).take 4).take (4 - written) := by
        rw [List.take_take, Nat.min_eq_left (by omega)]
      rw [hnested, encodeRecord_take_four, hshort, List.take_append_of_le_length (by simp; omega),
        List.take_replicate, Nat.min_eq_left (by omega)]
    rw [List.take_append, htorn, List.take_of_length_le (by omega), hzeros, decode_append,
      decode_replicate_zero, List.length_replicate, Nat.add_zero]
    exact Dvd.dvd.mul_left (dvd_pow_self 256 (by omega)) _

/-- The reader does not return the probe: the first thing it finds has another
length, and what is left behind that is too short. -/
theorem probe_not_mem {p : Bytes} (hp : Fits p) {written : Nat} (hpos : 0 < written)
    (hlt : written < (encodeRecord p).length) :
    probe p ∉ entries ((encodeRecord p).take written ++ encodeRecord (probe p)) := by
  obtain ⟨hne, hlo, hhi⟩ := probe_length p
  have hlength := @torn_declaredLength p (probe p) hp (by omega) written hpos hlt
  have htotal : ((encodeRecord p).take written ++ encodeRecord (probe p)).length =
      written + (walHeaderSize + (probe p).length) := by
    rw [List.length_append, List.length_take, Nat.min_eq_left (Nat.le_of_lt hlt),
      encodeRecord_length]
  generalize (encodeRecord p).take written ++ encodeRecord (probe p) = rest at hlength htotal ⊢
  intro hmem
  cases hread : readEntry rest with
  | stop corrupt => simp [entries_of_stop hread] at hmem
  | entry first tail =>
      obtain ⟨-, hfirst, -, htail⟩ := readEntry_entry hread
      dsimp only at hlength
      rw [← hfirst] at hlength
      rw [entries_of_entry hread, List.mem_cons] at hmem
      rw [encodeRecord_length] at hlt
      rcases hmem with heq | hmem
      · rw [← heq] at hlength
        split at hlength
        · exact hne hlength
        · omega
      · have hnonempty : probe p ≠ [] := List.ne_nil_of_length_pos hlo
        have hfit := length_of_mem_entries hmem hnonempty
        rw [htail, List.length_drop, htotal] at hfit
        simp only [walHeaderSize] at hfit hlt
        split at hlength <;> omega

/-! ## Recovery -/

def DrainReturns (dir : Dir) (wanted : List Bytes) : Prop :=
  (∃ out, Drains dir 0 out) ∧ ∀ out, Drains dir 0 out → wanted.Sublist out

theorem Logged.fresh {dir : Dir} (hdir : segments dir = []) (maxBytes : Int) :
    Logged (openWal dir maxBytes) [] := by
  obtain ⟨hready, hopened, hactive⟩ :=
    WAL.openWal_image (canonical_of_no_segments hdir) maxBytes
  have himg : image dir = [] := by simp [image, hdir]
  rw [himg] at hopened
  have hempty : tagged (image (openWal dir maxBytes).dir) = [] := hopened.flatMap (by simp)
  have hbytes : ∀ seg ∈ image (openWal dir maxBytes).dir, seg.2 = [] := by
    rcases hopened with heq | ⟨id, -, heq⟩ <;> simp [heq]
  have hcontent := hbytes _ (mem_image.mpr ⟨hactive, rfl⟩)
  dsimp only at hcontent
  exact ⟨hready, by simp, hempty.symm, Or.inr (hcontent ▸ resumable_nil)⟩

/-- What the reader makes of the torn bytes alone, as if it had been appended. -/
def spurious (id : Nat) (torn : Bytes) : History :=
  (entries torn).map fun payload => (⟨id, 0⟩, payload)

theorem Logged.reopen {w : WAL} {log : History} (h : Logged w log) (p : Bytes) (written : Nat)
    (maxBytes : Int)
    (hsafe : written = 0 ∨
      walSegmentMaxBytes ≤ (openWal (w.crashDuringAppend p written) maxBytes).activeLen) :
    ∃ id torn, Logged (openWal (w.crashDuringAppend p written) maxBytes)
      (log ++ spurious id torn) := by
  obtain ⟨init, id, bytes, hresume, hle, hcanonical, himg, hexact⟩ := h.crash p written
  have hopen := WAL.openWal_of_image hcanonical himg maxBytes
  have hready := (WAL.openWal_image hcanonical maxBytes).1
  have hid : id ∈ segments (w.crashDuringAppend p written) := by
    rw [← image_map_fst, himg]
    simp
  have hbytes : content (w.crashDuringAppend p written) id =
      bytes ++ (encodeRecord p).take written :=
    (mem_image.mp (show (id, _) ∈ _ by rw [himg]; simp)).2
  rw [hopen] at hready hsafe ⊢
  refine ⟨id, (encodeRecord p).take written, hready, ?_, ?_, ?_⟩
  · intro e he
    rcases List.mem_append.mp he with he | he
    · exact Nat.le_trans (h.bound e he) hle
    · obtain ⟨payload, -, rfl⟩ := List.mem_map.mp he
      exact Nat.le_refl id
  · have hspurious : surviving (w.crashDuringAppend p written)
        (spurious id ((encodeRecord p).take written)) =
        spurious id ((encodeRecord p).take written) := by
      simp [surviving, spurious, hid]
    rw [surviving, List.filter_append, ← surviving, ← surviving, hspurious, tags, List.map_append,
      ← tags, hexact, himg, tagged_append, tagged_append, tagged_singleton, tagged_singleton,
      hresume]
    simp [spurious, Function.comp_def]
  · rcases hsafe with rfl | hfull
    · right
      dsimp only
      rw [hbytes, List.take_zero, List.append_nil]
      exact hresume
    · exact Or.inl hfull

/-- Behind torn bytes of a segment that is not full, the record `probe p` is lost. -/
theorem Logged.torn_loses {w : WAL} {log : History} (h : Logged w log) {p : Bytes} (hp : Fits p)
    {written : Nat} (hpos : 0 < written) (hlt : written < (encodeRecord p).length)
    {torn : WAL} (htorn : torn.Ready) (hdir : torn.dir = w.crashDuringAppend p written)
    (hroom : ¬ walSegmentMaxBytes ≤ torn.activeLen) :
    let after := torn.appendAll [probe p]
    ¬ DrainReturns after.1.dir ((surviving after.1.dir (log ++ after.2)).map Prod.snd) := by
  obtain ⟨init, id, bytes, hresume, hle, hcanonical, himg, hexact⟩ := h.crash p written
  rw [← hdir] at hcanonical himg hexact
  have hactive : torn.activeSeg = id := htorn.activeSeg_eq hroom himg
  obtain ⟨hready', hid, happ⟩ := WAL.append_fits_image htorn (fits_probe p)
  rw [WAL.rotate_activeSeg, if_neg hroom, hactive] at hid
  rw [WAL.appendAll_singleton _ (fits_probe p)]
  generalize (torn.append (probe p) none).1 = done at hready' hid happ ⊢
  dsimp only
  have hwas : done.activeSeg ∈ (image torn.dir).map Prod.fst := by simp [himg, hid]
  have hfilter : (tags log).filter (fun e => e.1 ∈ (image done.dir).map Prod.fst) = _ :=
    happ.filter Prod.fst (Or.inl hwas)
  rw [← tags_surviving, ← tags_surviving, hexact] at hfilter
  have hnew := happ.mem
  rw [himg, hid] at happ
  rw [hid] at hnew
  obtain ⟨init', bytes', n, hopened, -, hdone⟩ := happ
  obtain ⟨rfl, rfl⟩ := hopened.existing
  have hsorted : ((init' ++ [(id, bytes ++ (encodeRecord p).take written ++
      encodeRecord (probe p))]).map Prod.fst).Pairwise (· < ·) := by
    have := sorted_image hcanonical
    rw [himg] at this
    simpa using this
  -- the files: what was there before the tear, and what is parsed from the tear on
  have htagged := tagged_drop hsorted n
  rw [← hdone, tagged_append, tagged_singleton, List.append_assoc, hresume,
    List.map_append, ← tagged_singleton id bytes, ← List.append_assoc, ← tagged_append,
    List.filter_append, ← hfilter] at htagged
  rintro ⟨⟨out, hout⟩, hall⟩
  have hsub := hall out hout
  rw [hout.eq_remaining hready'.canonical, remaining_zero, htagged, List.map_append] at hsub
  have hwanted : (surviving done.dir (log ++ [(done.lastPlace (probe p), probe p)])).map Prod.snd =
      (tags (surviving done.dir log)).map Prod.snd ++ [probe p] := by
    have hkept : (done.lastPlace (probe p)).segment ∈ segments done.dir := by
      rw [← image_map_fst, WAL.lastPlace, hid]
      exact hnew
    rw [surviving, List.filter_append, ← surviving, List.map_append]
    simp [tags, hkept, Function.comp_def]
  rw [hwanted, List.append_sublist_append_left, List.singleton_sublist] at hsub
  obtain ⟨e, he, heq⟩ := List.mem_map.mp hsub
  obtain ⟨q, hq, rfl⟩ := List.mem_map.mp (List.mem_of_mem_filter he)
  exact probe_not_mem hp hpos hlt (heq ▸ hq)

/-- Records are appended to a fresh log, the process dies inside one more `Append` after
`written` bytes of its record, and the log is reopened.  Whatever is appended then, draining
from the zero cursor returns every record whose `Append` returned no error, except those in
segments the quota removed, if and only if nothing was torn or the torn segment is already full.
-/
theorem crash_recovery_iff {dir : Dir} (hdir : segments dir = []) (maxBytes reopenBytes : Int)
    (rs : List Bytes) {p : Bytes} (hp : Fits p) {written : Nat}
    (hwritten : written < (encodeRecord p).length) :
    let before := (openWal dir maxBytes).appendAll rs
    let reopened := openWal (before.1.crashDuringAppend p written) reopenBytes
    (∀ qs, let after := reopened.appendAll qs
      DrainReturns after.1.dir ((surviving after.1.dir (before.2 ++ after.2)).map Prod.snd)) ↔
      written = 0 ∨ walSegmentMaxBytes ≤ reopened.activeLen := by
  intro before reopened
  have hbefore : Logged before.1 before.2 := by
    simpa using (Logged.fresh hdir maxBytes).appendAll rs
  constructor
  · intro hall
    by_contra hunsafe
    rw [not_or] at hunsafe
    obtain ⟨init, id, bytes, -, -, hcanonical, himg, -⟩ := hbefore.crash p written
    have hready := (WAL.openWal_image hcanonical reopenBytes).1
    have hopen : reopened.dir = before.1.crashDuringAppend p written := by
      rw [show reopened = _ from WAL.openWal_of_image hcanonical himg reopenBytes]
    exact hbefore.torn_loses hp (Nat.pos_of_ne_zero hunsafe.1) hwritten hready hopen hunsafe.2
      (hall [probe p])
  · intro hsafe qs after
    obtain ⟨id, torn, hreopened⟩ := hbefore.reopen p written reopenBytes hsafe
    have hafter := hreopened.appendAll qs
    refine ⟨exists_drains hafter.ready.canonical 0, fun out hout => ?_⟩
    rw [hafter.drain hout]
    refine List.Sublist.map Prod.snd (List.Sublist.filter _ ?_)
    exact (List.sublist_append_left before.2 _).append_right after.2

theorem crash_recovery_iff_small_segment :
    let before := (openWal ∅ 0).appendAll [[1]]
    let reopened := openWal (before.1.crashDuringAppend [2, 3] 8) 0
    (∀ qs, let after := reopened.appendAll qs
      DrainReturns after.1.dir ((surviving after.1.dir (before.2 ++ after.2)).map Prod.snd)) ↔
      8 = 0 ∨ walSegmentMaxBytes ≤ reopened.activeLen :=
  crash_recovery_iff (by decide) 0 0 [[1]] (by decide) (by decide)

/-- The record appended after the crash is reported durable and never read. -/
theorem append_after_tear_lost :
    let before := (openWal ∅ 0).appendAll [[1]]
    let reopened := openWal (before.1.crashDuringAppend [2, 3] 8) 0
    let after := reopened.appendAll [[4]]
    (surviving after.1.dir (before.2 ++ after.2)).map Prod.snd = [[1], [4]] ∧
      Drains after.1.dir 0 [[1]] := by
  intro before reopened after
  refine ⟨by decide +kernel, ?_⟩
  have hbatch : (readFrom after.1.dir 0 10).1 = [[1]] := by decide +kernel
  have hrest : (readFrom after.1.dir (readFrom after.1.dir 0 10).2 10).1 = [] := by decide +kernel
  exact Drains.one_batch (by decide) (by decide) hbatch hrest

end TomAgent.Wal
