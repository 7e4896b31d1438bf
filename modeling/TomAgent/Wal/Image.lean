import TomAgent.Wal.Entries
import TomAgent.Wal.Log

/-!
# What the writer does to the files

Opening, rotating, appending and enforcing the quota, each described once by its
effect on the raw contents of the segments.  Nothing is assumed about the bytes
that are already there.  A rotation that fails leaves the writer on a segment id
without a file; it then rotates again before the next record, so ids may have
gaps and segments may be empty.
-/

namespace TomAgent.Wal

/-- Numbered segments with their contents, oldest first. -/
abbrev Segmented (α : Type) := List (Nat × List α)

namespace Segmented

variable {α : Type}

def Opened (j k : Segmented α) : Prop :=
  k = j ∨ ∃ id, (∀ seg ∈ j, seg.1 < id) ∧ k = j ++ [(id, [])]

/-- After `data` was written in full to segment `id`: at most one new segment, the
data at the end of the newest one, and a number of older segments removed. -/
def Appended (j : Segmented α) (id : Nat) (data : List α) (k : Segmented α) : Prop :=
  ∃ init recs n, Opened j (init ++ [(id, recs)]) ∧ n ≤ init.length ∧
    k = (init ++ [(id, recs ++ data)]).drop n

end Segmented

open Segmented

def image (dir : Dir) : Segmented UInt8 := (segments dir).map fun s => (s, content dir s)

@[simp] theorem image_map_fst (dir : Dir) : (image dir).map Prod.fst = segments dir := by
  simp [image, Function.comp_def]

theorem mem_image {dir : Dir} {id : Nat} {bytes : Bytes} :
    (id, bytes) ∈ image dir ↔ id ∈ segments dir ∧ content dir id = bytes := by
  simp [image]

theorem image_forall {dir : Dir} {P : Nat → Prop} :
    (∀ seg ∈ image dir, P seg.1) ↔ ∀ s ∈ segments dir, P s := by
  simp [image]

theorem image_eq {dir : Dir} {img : Segmented UInt8} (hids : segments dir = img.map Prod.fst)
    (hbytes : ∀ seg ∈ img, content dir seg.1 = seg.2) : image dir = img := by
  have hsame : ∀ seg ∈ img, ((fun s => (s, content dir s)) ∘ Prod.fst) seg = id seg := by
    intro seg hseg
    simp [hbytes seg hseg]
  rw [image, hids, List.map_map, List.map_congr_left hsame, List.map_id]

/-! ## File operations -/

theorem image_create {dir : Dir} (hdir : Canonical dir) {id : Nat}
    (hid : ∀ s ∈ segments dir, s < id) :
    image (dir.insert (segName id) []) = image dir ++ [(id, [])] := by
  refine image_eq (by simp [segments_insert_last hdir hid]) ?_
  intro seg hseg
  rcases List.mem_append.mp hseg with hseg | hseg
  · obtain ⟨hmem, hbytes⟩ := mem_image.mp hseg
    rw [content_insert_ne dir (Nat.ne_of_lt (hid seg.1 hmem)), hbytes]
  · rw [List.mem_singleton] at hseg
    subst hseg
    simp

theorem image_init_lt {dir : Dir} (hdir : Canonical dir) {init : Segmented UInt8} {id : Nat}
    {bytes : Bytes} (h : image dir = init ++ [(id, bytes)]) : ∀ seg ∈ init, seg.1 < id := by
  have hsorted := segments_pairwise_lt hdir
  rw [← image_map_fst, h, List.map_append, List.pairwise_append] at hsorted
  intro seg hseg
  exact hsorted.2.2 seg.1 (List.mem_map_of_mem hseg) id (by simp)

theorem image_write {dir : Dir} (hdir : Canonical dir) {init : Segmented UInt8} {id : Nat}
    {bytes : Bytes} (h : image dir = init ++ [(id, bytes)]) (data : Bytes) :
    image (dir.insert (segName id) data) = init ++ [(id, data)] := by
  have hlast : (id, bytes) ∈ image dir := by simp [h]
  refine image_eq ?_ ?_
  · rw [segments_insert_mem hdir (mem_image.mp hlast).1, ← image_map_fst, h]
    simp
  · intro seg hseg
    rcases List.mem_append.mp hseg with hseg | hseg
    · have hmem : seg ∈ image dir := by simp [h, hseg]
      rw [content_insert_ne dir (Nat.ne_of_lt (image_init_lt hdir h seg hseg))]
      exact (mem_image.mp hmem).2
    · rw [List.mem_singleton] at hseg
      subst hseg
      simp

theorem image_remove {dir : Dir} (hdir : Canonical dir) {seg : Nat × Bytes}
    {rest : Segmented UInt8} (h : image dir = seg :: rest) :
    image (dir.erase (segName seg.1)) = rest := by
  have hsorted := segments_pairwise_lt hdir
  rw [← image_map_fst, h, List.map_cons, List.pairwise_cons] at hsorted
  have hlater : ∀ s ∈ rest, s.1 ≠ seg.1 := fun s hs =>
    (Nat.ne_of_lt (hsorted.1 s.1 (List.mem_map_of_mem hs))).symm
  refine image_eq ?_ ?_
  · rw [segments_erase hdir, ← image_map_fst, h, List.map_cons, List.filter_cons]
    simp only [ne_eq, not_true_eq_false, decide_false, Bool.false_eq_true, if_false]
    rw [List.filter_eq_self]
    intro s hs
    obtain ⟨t, ht, rfl⟩ := List.mem_map.mp hs
    simpa using hlater t ht
  · intro s hs
    have hmem : s ∈ image dir := by simp [h, hs]
    rw [content_erase_ne dir (hlater s hs)]
    exact (mem_image.mp hmem).2

/-! ## Opening and rotating -/

/-- The writer's state between two operations: the active segment is the newest
one, and it has a file unless the next append rotates anyway. -/
structure WAL.Ready (w : WAL) : Prop where
  canonical : Canonical w.dir
  newest : ∀ s ∈ segments w.dir, s ≤ w.activeSeg
  active : w.activeSeg ∈ segments w.dir ∨ walSegmentMaxBytes ≤ w.activeLen

namespace WAL

theorem image_active {w : WAL} (hdir : Canonical w.dir)
    (hnewest : ∀ s ∈ segments w.dir, s ≤ w.activeSeg) (hactive : w.activeSeg ∈ segments w.dir) :
    ∃ init, image w.dir = init ++ [(w.activeSeg, content w.dir w.activeSeg)] := by
  rcases List.eq_nil_or_concat (image w.dir) with hnil | ⟨init, ⟨id, bytes⟩, heq⟩
  · rw [← image_map_fst, hnil] at hactive
    simp at hactive
  · rw [List.concat_eq_append] at heq
    have hlast : (id, bytes) ∈ image w.dir := by simp [heq]
    have hle : id ≤ w.activeSeg := hnewest id (mem_image.mp hlast).1
    have hid : id = w.activeSeg := by
      have hmem := hactive
      rw [← image_map_fst, heq, List.map_append, List.mem_append] at hmem
      rcases hmem with hmem | hmem
      · obtain ⟨seg, hseg, hfst⟩ := List.mem_map.mp hmem
        have := image_init_lt hdir heq seg hseg
        omega
      · exact (List.mem_singleton.mp hmem).symm
    subst hid
    exact ⟨init, by rw [heq, (mem_image.mp hlast).2]⟩

theorem Ready.activeSeg_eq {w : WAL} (h : w.Ready) (hroom : ¬ walSegmentMaxBytes ≤ w.activeLen)
    {init : Segmented UInt8} {id : Nat} {bytes : Bytes}
    (himg : image w.dir = init ++ [(id, bytes)]) : w.activeSeg = id := by
  obtain ⟨init', hlast⟩ := image_active h.canonical h.newest (h.active.resolve_right hroom)
  rw [hlast] at himg
  have heq := (List.append_inj' himg rfl).2
  rw [List.cons.injEq, Prod.mk.injEq] at heq
  exact heq.1.1

/-- Opening an existing segment changes no file, opening a newer one adds an empty file. -/
theorem createActive_image {w : WAL} (hdir : Canonical w.dir)
    (hnewest : ∀ s ∈ segments w.dir, s ≤ w.activeSeg) :
    Canonical w.createActive ∧ Opened (image w.dir) (image w.createActive) ∧
      (∀ s ∈ segments w.createActive, s ≤ w.activeSeg) ∧
      w.activeSeg ∈ segments w.createActive := by
  by_cases hmem : w.activeSeg ∈ segments w.dir
  · have hsame : w.createActive = w.dir := by
      rw [createActive, lookup_segName hdir hmem]
    rw [hsame]
    exact ⟨hdir, Or.inl rfl, hnewest, hmem⟩
  · have hlt : ∀ s ∈ segments w.dir, s < w.activeSeg := fun s hs =>
      Nat.lt_of_le_of_ne (hnewest s hs) fun heq => hmem (heq ▸ hs)
    have hnone : w.dir.lookup (segName w.activeSeg) = none := by
      rw [AList.lookup_eq_none, ← mem_segments_of_canonical hdir]
      exact hmem
    have hinsert : w.createActive = w.dir.insert (segName w.activeSeg) [] := by
      rw [createActive, hnone]
    rw [hinsert, image_create hdir hlt, segments_insert_last hdir hlt]
    refine ⟨canonical_insert hdir _ _, Or.inr ⟨w.activeSeg, image_forall.mpr hlt, rfl⟩, ?_, by simp⟩
    intro s hs
    rcases List.mem_append.mp hs with hs | hs
    · exact hnewest s hs
    · rw [List.mem_singleton] at hs
      exact Nat.le_of_eq hs

theorem openWal_image {dir : Dir} (hdir : Canonical dir) (maxBytes : Int) :
    (openWal dir maxBytes).Ready ∧ Opened (image dir) (image (openWal dir maxBytes).dir) ∧
      (openWal dir maxBytes).activeSeg ∈ segments (openWal dir maxBytes).dir := by
  have hnewest : ∀ s ∈ segments dir, s ≤ (segments dir).getLast?.getD 0 := by
    intro s hs
    cases hlast : (segments dir).getLast? with
    | none => simp [List.getLast?_eq_none_iff.mp hlast] at hs
    | some last => exact segments_le_last hdir hlast s hs
  obtain ⟨hcanonical, hopened, hle, hactive⟩ :=
    @createActive_image ⟨dir, maxBytes, (segments dir).getLast?.getD 0, 0⟩ hdir hnewest
  exact ⟨⟨hcanonical, hle, Or.inl hactive⟩, hopened, hactive⟩

/-- Reopening a directory that has segments resumes at the end of the newest one. -/
theorem openWal_of_image {dir : Dir} (hdir : Canonical dir) {init : Segmented UInt8} {id : Nat}
    {bytes : Bytes} (h : image dir = init ++ [(id, bytes)]) (maxBytes : Int) :
    openWal dir maxBytes = ⟨dir, maxBytes, id, bytes.length⟩ := by
  have hmem : (id, bytes) ∈ image dir := by simp [h]
  obtain ⟨hid, hbytes⟩ := mem_image.mp hmem
  have hlast : (segments dir).getLast? = some id := by
    rw [← image_map_fst, h]
    simp
  rw [openWal, hlast, Option.getD_some, openActive, createActive]
  dsimp only
  rw [lookup_segName hdir hid, hbytes]

/-- A rotation opens at most one empty segment, and after a successful one the
active segment has a file. -/
theorem rotate_image {w : WAL} (h : w.Ready) (fault : Option AppendFault) :
    (w.rotate fault).1.Ready ∧ Opened (image w.dir) (image (w.rotate fault).1.dir) ∧
      ((w.rotate fault).2 = none →
        (w.rotate fault).1.activeSeg ∈ segments (w.rotate fault).1.dir) := by
  by_cases hfull : walSegmentMaxBytes ≤ w.activeLen
  · have hnewest : ∀ s ∈ segments w.dir, s ≤ w.activeSeg + 1 := fun s hs =>
      Nat.le_succ_of_le (h.newest s hs)
    obtain ⟨hcanonical, hopened, hle, hactive⟩ :=
      @createActive_image { w with activeSeg := w.activeSeg + 1 } h.canonical hnewest
    rw [rotate, if_pos hfull]
    split
    · rename_i created
      cases created with
      | true => exact ⟨⟨hcanonical, hle, Or.inr hfull⟩, hopened, by simp⟩
      | false => exact ⟨⟨h.canonical, hnewest, Or.inr hfull⟩, Or.inl rfl, by simp⟩
    · exact ⟨⟨hcanonical, hle, Or.inl hactive⟩, hopened, fun _ => hactive⟩
  · rw [rotate, if_neg hfull]
    exact ⟨h, Or.inl rfl, fun _ => h.active.resolve_right hfull⟩

theorem rotate_activeSeg (w : WAL) : (w.rotate none).1.activeSeg =
    if walSegmentMaxBytes ≤ w.activeLen then w.activeSeg + 1 else w.activeSeg := by
  unfold rotate
  split <;> rfl

/-- The segment of the next record has a file, or it is newer than every segment written so far. -/
theorem Ready.next_segment {w : WAL} (h : w.Ready) {β : Type} (tag : β → Nat) {log : List β}
    (hlog : ∀ e ∈ log, tag e ≤ w.activeSeg) :
    (w.rotate none).1.activeSeg ∈ segments w.dir ∨
      ∀ e ∈ log, tag e < (w.rotate none).1.activeSeg := by
  rw [rotate_activeSeg]
  split
  next => exact Or.inr fun e he => Nat.lt_succ_of_le (hlog e he)
  next hroom => exact Or.inl (h.active.resolve_right hroom)

/-- A new segment is empty, so after a rotation there is room for a record. -/
theorem rotate_room {w : WAL} (h : w.Ready) :
    ¬ walSegmentMaxBytes ≤ (w.rotate none).1.activeLen := by
  unfold rotate
  split
  next =>
    have hnew : w.activeSeg + 1 ∉ segments w.dir := by
      intro hmem
      have := h.newest _ hmem
      omega
    simp [openActive, content_of_not_mem h.canonical hnew, walSegmentMaxBytes]
  next hroom => exact hroom

theorem rotate_none (w : WAL) : (w.rotate none).2 = none := by
  unfold rotate
  split <;> rfl

/-! ## Quota -/

/-- The quota removes some of the oldest segments, never the active one. -/
theorem dropOldest_image (sizes : Nat → Nat) {w : WAL} {img : Segmented UInt8}
    (hdir : Canonical w.dir) (himg : image w.dir = img) (total : Int) (allowed : Option Nat) :
    ∃ n dir, (w.dropOldest sizes (img.map Prod.fst) total allowed).1 = { w with dir := dir } ∧
      Canonical dir ∧ image dir = img.drop n ∧ ∀ seg ∈ img.take n, seg.1 ≠ w.activeSeg := by
  induction img generalizing w total allowed with
  | nil => exact ⟨0, w.dir, rfl, hdir, himg, by simp⟩
  | cons seg rest ih =>
      simp only [List.map_cons, dropOldest]
      split
      · exact ⟨0, w.dir, rfl, hdir, himg, by simp⟩
      · rename_i hkeep
        split
        · exact ⟨0, w.dir, rfl, hdir, himg, by simp⟩
        · obtain ⟨n, dir, heq, hdir', himg', hne⟩ :=
            @ih { w with dir := w.dir.erase (segName seg.1) } (canonical_erase hdir _)
              (image_remove hdir himg) (total - sizes seg.1) (allowed.map (· - 1))
          refine ⟨n + 1, dir, heq, hdir', by simpa using himg', ?_⟩
          intro s hs
          rw [List.take_succ_cons, List.mem_cons] at hs
          rcases hs with rfl | hs
          · exact fun heq => hkeep (Or.inr heq)
          · exact hne s hs

theorem dropOldest_ok (sizes : Nat → Nat) (ids : List Nat) (total : Int) (w : WAL) :
    (w.dropOldest sizes ids total none).2 = none := by
  induction ids generalizing total w with
  | nil => rfl
  | cons s rest ih =>
      simp only [dropOldest]
      split
      · rfl
      · simpa using ih _ _

def sizeOnDisk (dir : Dir) : Int := totalSize (fun s => (content dir s).length) (segments dir)

theorem totalSize_nonneg (sizes : Nat → Nat) (ids : List Nat) : 0 ≤ totalSize sizes ids := by
  induction ids with
  | nil => exact Int.le_refl 0
  | cons s rest ih =>
      simp only [totalSize]
      omega

theorem le_totalSize {sizes : Nat → Nat} {ids : List Nat} {s : Nat} (h : s ∈ ids) :
    (sizes s : Int) ≤ totalSize sizes ids := by
  induction ids with
  | nil => simp at h
  | cons t rest ih =>
      have hrest := totalSize_nonneg sizes rest
      simp only [totalSize]
      rcases List.mem_cons.mp h with rfl | h
      · omega
      · have := ih h
        omega

def held : Segmented UInt8 → Int
  | [] => 0
  | seg :: rest => seg.2.length + held rest

theorem totalSize_eq_held {sizes : Nat → Nat} {img : Segmented UInt8}
    (h : ∀ seg ∈ img, sizes seg.1 = seg.2.length) :
    totalSize sizes (img.map Prod.fst) = held img := by
  induction img with
  | nil => rfl
  | cons seg rest ih =>
      have hseg := h seg List.mem_cons_self
      have hrest := ih fun s hs => h s (List.mem_cons_of_mem seg hs)
      simp only [List.map_cons, totalSize, held, hseg, hrest]

theorem image_sizes (dir : Dir) : ∀ seg ∈ image dir, (content dir seg.1).length = seg.2.length := by
  intro seg hseg
  rw [(mem_image.mp hseg).2]

theorem sizeOnDisk_eq_held (dir : Dir) : sizeOnDisk dir = held (image dir) := by
  rw [sizeOnDisk, ← image_map_fst]
  exact totalSize_eq_held (image_sizes dir)

/-- `kept` is what is left of `all` without the shortest prefix whose removal brings
the size to the quota, or without all segments but the last. -/
def TrimmedTo (quota : Int) (all kept : Segmented UInt8) : Prop :=
  ∃ n < all.length, kept = all.drop n ∧ (∀ m < n, quota < held (all.drop m)) ∧
    (held kept ≤ quota ∨ n + 1 = all.length)

theorem TrimmedTo.bound {quota : Int} {init kept : Segmented UInt8} {last : Nat × Bytes}
    (h : TrimmedTo quota (init ++ [last]) kept) : held kept ≤ quota ∨ kept = [last] := by
  obtain ⟨n, -, rfl, -, hfits | hall⟩ := h
  · exact Or.inl hfits
  · have hn : n = init.length := by simpa using hall
    exact Or.inr (by rw [hn, List.drop_left])

/-- The removal loop takes the oldest segments until the rest fits into the quota
or the active segment is the oldest one. -/
theorem dropOldest_trimmed {sizes : Nat → Nat} {w : WAL} {init : Segmented UInt8} {bytes : Bytes}
    (hdir : Canonical w.dir) (himg : image w.dir = init ++ [(w.activeSeg, bytes)])
    (hsizes : ∀ seg ∈ init ++ [(w.activeSeg, bytes)], sizes seg.1 = seg.2.length) :
    TrimmedTo w.maxBytes (init ++ [(w.activeSeg, bytes)])
      (image (w.dropOldest sizes ((init ++ [(w.activeSeg, bytes)]).map Prod.fst)
        (held (init ++ [(w.activeSeg, bytes)])) none).1.dir) := by
  induction init generalizing w with
  | nil =>
      refine ⟨0, by simp, ?_, by simp, Or.inr rfl⟩
      simp [dropOldest, himg]
  | cons seg rest ih =>
      have hseg : seg.1 ≠ w.activeSeg :=
        Nat.ne_of_lt (image_init_lt hdir himg seg List.mem_cons_self)
      have hsize := hsizes seg List.mem_cons_self
      simp only [List.cons_append, List.map_cons, dropOldest, hseg, or_false, reduceCtorEq, if_false]
      by_cases hfits : held (seg :: (rest ++ [(w.activeSeg, bytes)])) ≤ w.maxBytes
      · rw [if_pos hfits, himg]
        exact ⟨0, by simp, rfl, by simp, Or.inl hfits⟩
      · have htotal : held (seg :: (rest ++ [(w.activeSeg, bytes)])) - sizes seg.1 =
            held (rest ++ [(w.activeSeg, bytes)]) := by
          simp only [held]
          omega
        obtain ⟨n, hn, hkept, hneeded, hend⟩ :=
          @ih { w with dir := w.dir.erase (segName seg.1) } (canonical_erase hdir _)
            (image_remove hdir himg) fun s hs => hsizes s (List.mem_cons_of_mem seg hs)
        rw [if_neg hfits, htotal]
        refine ⟨n + 1, by simpa using hn, by simpa using hkept, ?_, by simpa using hend⟩
        intro m hm
        cases m with
        | zero => exact Int.lt_of_not_ge hfits
        | succ m => exact hneeded m (Nat.lt_of_succ_lt_succ hm)

theorem enforceQuotaLocked_image {w : WAL} (hdir : Canonical w.dir) (fault : Option AppendFault) :
    ∃ n dir, (w.enforceQuotaLocked fault).1 = { w with dir := dir } ∧
      Canonical dir ∧ image dir = (image w.dir).drop n ∧
      ∀ seg ∈ (image w.dir).take n, seg.1 ≠ w.activeSeg := by
  have hkeep : ∃ n dir, w = { w with dir := dir } ∧ Canonical dir ∧
      image dir = (image w.dir).drop n ∧ ∀ seg ∈ (image w.dir).take n, seg.1 ≠ w.activeSeg :=
    ⟨0, w.dir, rfl, hdir, rfl, by simp⟩
  unfold enforceQuotaLocked
  split
  · exact hkeep
  · split
    · exact hkeep
    · dsimp only
      split
      · exact hkeep
      · have hdrop := dropOldest_image (fun s => (content w.dir s).length) hdir rfl
        rw [image_map_fst] at hdrop
        exact hdrop _ _

theorem enforceQuotaLocked_trimmed {w : WAL} (hdir : Canonical w.dir) (hmax : 0 < w.maxBytes)
    {init : Segmented UInt8} {bytes : Bytes}
    (himg : image w.dir = init ++ [(w.activeSeg, bytes)]) :
    TrimmedTo w.maxBytes (init ++ [(w.activeSeg, bytes)])
      (image (w.enforceQuotaLocked none).1.dir) := by
  have hsizes := image_sizes w.dir
  have hloop := @dropOldest_trimmed (fun s => (content w.dir s).length) w init bytes hdir himg
    (himg ▸ hsizes)
  have hcount : (segments w.dir).length = init.length + 1 := by
    rw [← image_map_fst, himg]
    simp
  simp only [enforceQuotaLocked, Int.not_le.mpr hmax, reduceCtorEq, if_false]
  split
  · have hinit : init = [] := List.eq_nil_of_length_eq_zero (by omega)
    subst hinit
    exact ⟨0, by simp, himg, by simp, Or.inr rfl⟩
  · rw [← himg] at hloop ⊢
    have htotal := @totalSize_eq_held (fun s => (content w.dir s).length) _ hsizes
    rwa [← htotal, image_map_fst] at hloop

theorem enforceQuotaLocked_ok (w : WAL) : (w.enforceQuotaLocked none).2 = none := by
  unfold enforceQuotaLocked
  simp only [reduceCtorEq, if_false]
  split
  · rfl
  · split
    · rfl
    · exact dropOldest_ok _ _ _ _

/-! ## Appending -/

/-- Bytes reach the end of the active file. -/
theorem write_image {w : WAL} (hdir : Canonical w.dir) {init : Segmented UInt8} {bytes : Bytes}
    (h : image w.dir = init ++ [(w.activeSeg, bytes)]) (data : Bytes) :
    Canonical (w.write data).dir ∧
      image (w.write data).dir = init ++ [(w.activeSeg, bytes ++ data)] := by
  have hlast : (w.activeSeg, bytes) ∈ image w.dir := by simp [h]
  refine ⟨canonical_insert hdir _ _, ?_⟩
  rw [write, (mem_image.mp hlast).2]
  exact image_write hdir h _

theorem write_segments {w : WAL} (hdir : Canonical w.dir) (hactive : w.activeSeg ∈ segments w.dir)
    (data : Bytes) : segments (w.write data).dir = segments w.dir :=
  segments_insert_mem hdir hactive _

theorem Ready.write {w : WAL} (h : w.Ready) (hactive : w.activeSeg ∈ segments w.dir)
    (data : Bytes) : (w.write data).Ready := by
  have hids := write_segments h.canonical hactive data
  refine ⟨canonical_insert h.canonical _ _, ?_, Or.inl ?_⟩
  · rw [hids]
    exact h.newest
  · rw [hids]
    exact hactive

/-- A whole record reaches the active file, then the quota may remove segments. -/
theorem write_quota_image {w : WAL} (h : w.Ready) {init : Segmented UInt8} {bytes : Bytes}
    (himg : image w.dir = init ++ [(w.activeSeg, bytes)]) (data : Bytes) (length : Nat)
    (fault : Option AppendFault) :
    let done := (({ w.write data with activeLen := length } : WAL).enforceQuotaLocked fault).1
    done.Ready ∧ done.activeSeg = w.activeSeg ∧ done.activeLen = length ∧ ∃ n, n ≤ init.length ∧
      image done.dir = (init ++ [(w.activeSeg, bytes ++ data)]).drop n := by
  obtain ⟨hcanonical, hwritten⟩ := write_image h.canonical himg data
  obtain ⟨n, dir, heq, hdir, hdrop, hne⟩ :=
    @enforceQuotaLocked_image { w.write data with activeLen := length } hcanonical fault
  dsimp only at hdrop hne heq ⊢
  rw [hwritten] at hdrop hne
  have hn : n ≤ init.length := by
    by_contra hn
    refine hne (w.activeSeg, bytes ++ data) ?_ rfl
    rw [List.take_of_length_le (by simp; omega)]
    simp
  rw [heq]
  refine ⟨⟨hdir, ?_, Or.inl ?_⟩, rfl, rfl, n, hn, hdrop⟩
  · intro s hs
    dsimp only at hs ⊢
    rw [← image_map_fst, hdrop] at hs
    obtain ⟨seg, hseg, rfl⟩ := List.mem_map.mp hs
    rcases List.mem_append.mp (List.mem_of_mem_drop hseg) with hseg | hseg
    · have hmem : seg ∈ image w.dir := by simp [himg, hseg]
      exact h.newest seg.1 (mem_image.mp hmem).1
    · rw [List.mem_singleton] at hseg
      exact hseg ▸ Nat.le_refl _
  · dsimp only
    rw [← image_map_fst, hdrop, List.drop_append_of_le_length hn]
    simp [write]

theorem rotate_error (w : WAL) (fault : Option AppendFault) :
    (w.rotate fault).2 = none ∨ (w.rotate fault).2 = some .openActive := by
  unfold rotate
  split
  · cases fault with
    | none => simp
    | some f => cases f <;> simp
  · simp

theorem dropOldest_recorded (sizes : Nat → Nat) (segs : List Nat) (total : Int)
    (allowed : Option Nat) (w : WAL) : Recorded (w.dropOldest sizes segs total allowed).2 := by
  induction segs generalizing total allowed w with
  | nil => trivial
  | cons s rest ih =>
      unfold dropOldest
      split
      · trivial
      · split
        · trivial
        · exact ih _ _ _

theorem enforceQuotaLocked_recorded (w : WAL) (fault : Option AppendFault) :
    Recorded (w.enforceQuotaLocked fault).2 := by
  unfold enforceQuotaLocked
  split
  · trivial
  · split
    · trivial
    · dsimp only
      split
      · trivial
      · exact dropOldest_recorded _ _ _ _ w

/-- Every outcome of `Append` except a write that stops half way: the record is in
the active file, or it is not and the caller saw an error. -/
theorem append_image {w : WAL} (h : w.Ready) (p : Bytes) {fault : Option AppendFault}
    (hheader : ∀ n, fault ≠ some (.writeHeader n))
    (hpayload : ∀ n, fault ≠ some (.writePayload n)) :
    let done := w.append p fault
    done.1.Ready ∧
      (Appended (image w.dir) done.1.activeSeg (encodeRecord p) (image done.1.dir) ∧ Fits p ∧
          done.1.activeSeg = (w.rotate fault).1.activeSeg ∧ Recorded done.2 ∨
        Opened (image w.dir) (image done.1.dir) ∧ ¬ Recorded done.2) := by
  by_cases hp : Fits p
  · obtain ⟨hready, hopened, hactive⟩ := rotate_image h fault
    have hsize : ¬ walMaxEntrySize < p.length := Nat.not_lt.mpr hp
    simp only [append, hsize, if_false]
    cases hr : w.rotate fault with
    | mk rotated err =>
      rw [hr] at hready hopened hactive
      cases err with
      | some err =>
          have herr := rotate_error w fault
          rw [hr] at herr
          have hopen : err = .openActive := by simpa using herr
          exact ⟨hready, Or.inr ⟨hopened, by simp [hopen, Recorded]⟩⟩
      | none =>
          obtain ⟨init, himg⟩ := image_active hready.canonical hready.newest (hactive rfl)
          dsimp only at hopened hready ⊢
          rw [himg] at hopened
          simp only [writeRecord]
          split
          · exact absurd rfl (hheader _)
          · exact absurd rfl (hpayload _)
          · -- the record is on disk although the caller sees the sync error
            have hwritten := (write_image hready.canonical himg (encodeRecord p)).2
            refine ⟨hready.write (hactive rfl) _, Or.inl ⟨?_, hp, rfl, trivial⟩⟩
            exact ⟨init, content rotated.dir rotated.activeSeg, 0, hopened, Nat.zero_le _, hwritten⟩
          · obtain ⟨hready', hactive', -, n, hn, hdrop⟩ :=
              write_quota_image hready himg (encodeRecord p)
                (rotated.activeLen + (walHeaderSize + p.length)) fault
            refine ⟨hready', Or.inl ⟨⟨init, content rotated.dir rotated.activeSeg, n, ?_, hn, ?_⟩,
              hp, hactive', enforceQuotaLocked_recorded _ fault⟩⟩
            · rw [hactive']
              exact hopened
            · rw [hactive']
              exact hdrop
  · have hsize : walMaxEntrySize < p.length := Nat.lt_of_not_le hp
    simp only [append, hsize, if_true]
    exact ⟨h, Or.inr ⟨Or.inl rfl, by simp [Recorded]⟩⟩

theorem append_ok {w : WAL} {p : Bytes} : (w.append p none).2 = none ↔ Fits p := by
  by_cases hp : Fits p
  · have hsize : ¬ walMaxEntrySize < p.length := Nat.not_lt.mpr hp
    simp only [append, hsize, if_false, hp, iff_true]
    have hr := rotate_none w
    cases hrot : w.rotate none with
    | mk rotated err =>
      rw [hrot] at hr
      subst hr
      exact enforceQuotaLocked_ok _
  · have hsize : walMaxEntrySize < p.length := Nat.lt_of_not_le hp
    simp [append, hsize, hp]

theorem append_eq {w : WAL} {p : Bytes} (hp : Fits p) :
    (w.append p none).1 = (({ (w.rotate none).1.write (encodeRecord p) with
      activeLen := (w.rotate none).1.activeLen + (walHeaderSize + p.length) } :
        WAL).enforceQuotaLocked none).1 := by
  have hsize : ¬ walMaxEntrySize < p.length := Nat.not_lt.mpr hp
  have hr := rotate_none w
  simp only [append, hsize, if_false]
  cases hrot : w.rotate none with
  | mk rotated err =>
    rw [hrot] at hr
    subst hr
    rfl

/-- A successful `Append` puts its record at the end of the active file. -/
theorem append_fits_image {w : WAL} (h : w.Ready) {p : Bytes} (hp : Fits p) :
    (w.append p none).1.Ready ∧
      (w.append p none).1.activeSeg = (w.rotate none).1.activeSeg ∧
      Appended (image w.dir) (w.append p none).1.activeSeg (encodeRecord p)
        (image (w.append p none).1.dir) := by
  obtain ⟨hready, hcase⟩ := @append_image w h p none (by simp) (by simp)
  rcases hcase with ⟨happ, -, hactive, -⟩ | ⟨-, herr⟩
  · exact ⟨hready, hactive, happ⟩
  · rw [append_ok.mpr hp] at herr
    exact absurd trivial herr

theorem rotate_maxBytes (w : WAL) : (w.rotate none).1.maxBytes = w.maxBytes := by
  unfold rotate
  split <;> rfl

theorem append_before_quota {w : WAL} (h : w.Ready) {p : Bytes} (hp : Fits p) :
    ∃ before : WAL, (w.append p none).1 = (before.enforceQuotaLocked none).1 ∧
      before.maxBytes = w.maxBytes ∧ before.activeSeg = (w.rotate none).1.activeSeg ∧
      before.dir = ((w.rotate none).1.write (encodeRecord p)).dir ∧ Canonical before.dir ∧
      ∃ init bytes, image before.dir = init ++ [(before.activeSeg, bytes)] := by
  obtain ⟨hready, -, hactive⟩ := rotate_image h none
  obtain ⟨init, himg⟩ :=
    image_active hready.canonical hready.newest (hactive (rotate_none w))
  obtain ⟨hcanonical, hwritten⟩ := write_image hready.canonical himg (encodeRecord p)
  exact ⟨_, append_eq hp, rotate_maxBytes w, rfl, rfl, hcanonical, init, _, hwritten⟩

theorem append_maxBytes {w : WAL} (h : w.Ready) {p : Bytes} (hp : Fits p) :
    (w.append p none).1.maxBytes = w.maxBytes := by
  obtain ⟨before, heq, hmax, -, -, hcanonical, -⟩ := append_before_quota h hp
  obtain ⟨n, dir, hdone, -⟩ := enforceQuotaLocked_image hcanonical none
  rw [heq, hdone, ← hmax]

/-- An append removes no more segments than the quota asks for. -/
theorem append_trimmed {w : WAL} (h : w.Ready) (hmax : 0 < w.maxBytes) {p : Bytes} (hp : Fits p) :
    TrimmedTo w.maxBytes (image ((w.rotate none).1.write (encodeRecord p)).dir)
      (image (w.append p none).1.dir) := by
  obtain ⟨before, heq, hsame, -, hdir, hcanonical, init, bytes, himg⟩ := append_before_quota h hp
  have htrimmed := enforceQuotaLocked_trimmed hcanonical (hsame ▸ hmax) himg
  rwa [heq, ← hdir, ← hsame, himg]

theorem append_bound {w : WAL} (h : w.Ready) (hmax : 0 < w.maxBytes) {p : Bytes} (hp : Fits p) :
    let done := (w.append p none).1
    sizeOnDisk done.dir ≤ w.maxBytes ∨ ∃ bytes, image done.dir = [(done.activeSeg, bytes)] := by
  obtain ⟨before, -, -, hseg, hdir, -, init, bytes, himg⟩ := append_before_quota h hp
  have hactive := (append_fits_image h hp).2.1
  have htrimmed := append_trimmed h hmax hp
  rw [← hdir, himg, hseg, ← hactive] at htrimmed
  dsimp only
  rw [sizeOnDisk_eq_held]
  rcases htrimmed.bound with hfits | hlast
  · exact Or.inl hfits
  · exact Or.inr ⟨bytes, hlast⟩

/-! ## The recorded length -/

def Sized (w : WAL) : Prop := w.activeLen = (content w.dir w.activeSeg).length

theorem openActive_sized (w : WAL) : w.openActive.Sized := by
  have hsame : content w.createActive w.activeSeg = content w.dir w.activeSeg := by
    unfold createActive
    split
    · rfl
    · rename_i hnone
      simp [content, hnone]
  rw [Sized, openActive]
  exact (congrArg List.length hsame).symm

theorem rotate_sized {w : WAL} (h : w.Sized) : (w.rotate none).1.Sized := by
  unfold rotate
  split
  · exact openActive_sized _
  · exact h

theorem append_active {w : WAL} (h : w.Ready) {p : Bytes} (hp : Fits p) :
    let rotated := (w.rotate none).1
    let done := (w.append p none).1
    done.activeLen = rotated.activeLen + (walHeaderSize + p.length) ∧
      content done.dir done.activeSeg =
        content rotated.dir rotated.activeSeg ++ encodeRecord p := by
  obtain ⟨hready, -, hactive⟩ := rotate_image h none
  obtain ⟨init, himg⟩ :=
    image_active hready.canonical hready.newest (hactive (rotate_none w))
  rw [append_eq hp]
  generalize (w.rotate none).1 = r at hready hactive himg ⊢
  obtain ⟨-, hseg, hlen, n, hn, hdrop⟩ :=
    write_quota_image hready himg (encodeRecord p) (r.activeLen + (walHeaderSize + p.length)) none
  have hlast : (r.activeSeg, content r.dir r.activeSeg ++ encodeRecord p) ∈
      (init ++ [(r.activeSeg, content r.dir r.activeSeg ++ encodeRecord p)]).drop n := by
    rw [List.drop_append_of_le_length hn]
    simp
  rw [← hdrop, mem_image] at hlast
  refine ⟨hlen, ?_⟩
  rw [hseg]
  exact hlast.2

theorem append_sized {w : WAL} (h : w.Ready) (hs : w.Sized) {p : Bytes} (hp : Fits p) :
    (w.append p none).1.Sized := by
  obtain ⟨hlen, hcontent⟩ := append_active h hp
  rw [Sized, hlen, hcontent, List.length_append, encodeRecord_length, rotate_sized hs]

end WAL

end TomAgent.Wal
