import TomAgent.Core.Execution
import TomAgent.Wal.History

/-!
# What the quota keeps

After every successful `Append` the quota removes the oldest segments until the
rest fits or only the active one is left.  The active segment can be larger than
the quota: it is filled until it has reached the size at which the next append
rotates, and the last record may go beyond that.
-/

namespace TomAgent.Wal

open Segmented Execution

/-! ## Runs -/

/-- A log, and the ids of the segments created so far, oldest first. -/
structure Keeper where
  wal : WAL
  created : List Nat

def Keeper.note (created : List Nat) (before : Dir) (next : WAL) : Keeper :=
  ⟨next, created ++ (segments next.dir).filter (· ∉ segments before)⟩

def Keeper.start (dir : Dir) (maxBytes : Int) : Keeper :=
  .note (segments dir) dir (openWal dir maxBytes)

def Keeper.append (s : Keeper) (payload : Bytes) : Keeper :=
  .note s.created s.wal.dir (s.wal.append payload none).1

/-- A successful append, or the process starts again with the same quota. -/
inductive Keeper.Step (maxBytes : Int) : Keeper → Keeper → Prop
  | append (s : Keeper) (payload : Bytes) (hok : (s.wal.append payload none).2 = none) :
      Step maxBytes s (s.append payload)
  | reopen (s : Keeper) :
      Step maxBytes s (.note s.created s.wal.dir (openWal s.wal.dir maxBytes))

/-! ## Segments on disk and segments created -/

def Renewed (ids ids' : List Nat) : Prop :=
  ∃ n fresh, ids' = ids.drop n ++ fresh ∧ ∀ id ∈ fresh, id ∉ ids

theorem Segmented.Opened.renewed {α : Type} {j k : Segmented α} (h : Opened j k) :
    Renewed (j.map Prod.fst) (k.map Prod.fst) := by
  rcases h with rfl | ⟨id, hid, rfl⟩
  · exact ⟨0, [], by simp, by simp⟩
  · refine ⟨0, [id], by simp, ?_⟩
    intro i hi hmem
    obtain ⟨seg, hseg, rfl⟩ := List.mem_map.mp hmem
    have hlt := hid seg hseg
    rw [List.mem_singleton] at hi
    omega

theorem Segmented.Appended.renewed {α : Type} {j k : Segmented α} {id : Nat} {data : List α}
    (h : Appended j id data k) : Renewed (j.map Prod.fst) (k.map Prod.fst) := by
  obtain ⟨init, recs, n, hopened, hn, rfl⟩ := h
  rcases hopened with heq | ⟨fresh, hfresh, heq⟩
  · refine ⟨n, [], ?_, by simp⟩
    rw [← heq]
    simp [List.map_drop]
  · obtain ⟨rfl, hlast⟩ := List.append_inj' heq rfl
    simp only [List.cons.injEq, Prod.mk.injEq, and_true] at hlast
    refine ⟨n, [id], ?_, ?_⟩
    · rw [List.map_drop, List.map_append, List.drop_append_of_le_length (by simpa using hn)]
      simp
    · intro i hi hmem
      obtain ⟨seg, hseg, rfl⟩ := List.mem_map.mp hmem
      have hlt := hfresh seg hseg
      rw [List.mem_singleton] at hi
      omega

theorem Keeper.note_suffix {created : List Nat} {before : Dir} {next : WAL}
    (h : Renewed (segments before) (segments next.dir)) (hsuffix : segments before <:+ created) :
    segments next.dir <:+ (Keeper.note created before next).created := by
  obtain ⟨n, fresh, hids, hfresh⟩ := h
  have hnew : (segments next.dir).filter (· ∉ segments before) = fresh := by
    have hold : ((segments before).drop n).filter (· ∉ segments before) = [] := by
      rw [List.filter_eq_nil_iff]
      intro id hid
      simpa using List.mem_of_mem_drop hid
    have hkept : fresh.filter (· ∉ segments before) = fresh := by
      rw [List.filter_eq_self]
      intro id hid
      simpa using hfresh id hid
    rw [hids, List.filter_append, hold, hkept, List.nil_append]
  obtain ⟨gone, hgone⟩ := ((segments before).drop_suffix n).trans hsuffix
  refine ⟨gone, ?_⟩
  rw [note, hnew, hids, ← hgone, List.append_assoc]

/-! ## Whole runs -/

structure KeptInv (maxBytes : Int) (s : Keeper) : Prop where
  ready : s.wal.Ready
  active : s.wal.activeSeg ∈ segments s.wal.dir
  sized : s.wal.Sized
  quota : s.wal.maxBytes = maxBytes
  suffix : segments s.wal.dir <:+ s.created

theorem KeptInv.opened {dir : Dir} (hdir : Canonical dir) (maxBytes : Int) {created : List Nat}
    (hsuffix : segments dir <:+ created) :
    KeptInv maxBytes (.note created dir (openWal dir maxBytes)) := by
  obtain ⟨hready, hopened, hactive⟩ := WAL.openWal_image hdir maxBytes
  have hrenewed := hopened.renewed
  rw [image_map_fst, image_map_fst] at hrenewed
  exact ⟨hready, hactive, WAL.openActive_sized _, rfl, Keeper.note_suffix hrenewed hsuffix⟩

theorem KeptInv.append {maxBytes : Int} {s : Keeper} (h : KeptInv maxBytes s) {p : Bytes}
    (hp : Fits p) : KeptInv maxBytes (s.append p) := by
  obtain ⟨hready, -, happ⟩ := WAL.append_fits_image h.ready hp
  have hactive := happ.mem
  have hrenewed := happ.renewed
  rw [image_map_fst] at hactive
  rw [image_map_fst, image_map_fst] at hrenewed
  exact ⟨hready, hactive, WAL.append_sized h.ready h.sized hp,
    (WAL.append_maxBytes h.ready hp).trans h.quota, Keeper.note_suffix hrenewed h.suffix⟩

theorem KeptInv.step {maxBytes : Int} {s t : Keeper} (h : KeptInv maxBytes s)
    (hstep : Keeper.Step maxBytes s t) : KeptInv maxBytes t := by
  cases hstep with
  | append payload hok => exact h.append (WAL.append_ok.mp hok)
  | reopen => exact .opened h.ready.canonical maxBytes h.suffix

theorem keptInv_of_reaches {dir : Dir} (hdir : Canonical dir) {maxBytes : Int} {s : Keeper}
    (hrun : Reaches (Keeper.Step maxBytes) (.start dir maxBytes) s) : KeptInv maxBytes s := by
  refine invariant (KeptInv maxBytes) (fun _ _ h hstep => h.step hstep) ?_ hrun
  exact .opened hdir maxBytes (List.suffix_refl _)

/-! ## The bound -/

/-- The active file is at most one record longer than the size at which it is left. -/
theorem WAL.append_active_le {w : WAL} (h : w.Ready) (hs : w.Sized) {p : Bytes} (hp : Fits p) :
    (content (w.append p none).1.dir (w.append p none).1.activeSeg).length ≤
      walSegmentMaxBytes - 1 + walHeaderSize + walMaxEntrySize := by
  obtain ⟨-, hcontent⟩ := WAL.append_active h hp
  have hroom := WAL.rotate_room h
  have hlength : (w.rotate none).1.activeLen = _ := WAL.rotate_sized hs
  simp only [Fits] at hp
  rw [hcontent, List.length_append, encodeRecord_length, ← hlength]
  omega

theorem KeptInv.bounded {maxBytes : Int} {s : Keeper} (h : KeptInv maxBytes s)
    (hmax : 0 < maxBytes) {p : Bytes} (hp : Fits p) :
    WAL.sizeOnDisk (s.append p).wal.dir ≤
      max maxBytes (walSegmentMaxBytes - 1 + walHeaderSize + walMaxEntrySize : Nat) := by
  have hactive := WAL.append_active_le h.ready h.sized hp
  have hquota : 0 < s.wal.maxBytes := h.quota ▸ hmax
  show WAL.sizeOnDisk (s.wal.append p none).1.dir ≤ _
  rcases WAL.append_bound h.ready hquota hp with hfits | ⟨bytes, himg⟩
  · rw [h.quota] at hfits
    exact Int.le_trans hfits (le_max_left _ _)
  · have hbytes : content (s.wal.append p none).1.dir (s.wal.append p none).1.activeSeg = bytes :=
      (mem_image.mp (by rw [himg]; exact List.mem_singleton_self _)).2
    have honly : WAL.sizeOnDisk (s.wal.append p none).1.dir = bytes.length := by
      rw [WAL.sizeOnDisk_eq_held, himg]
      simp [WAL.held]
    rw [hbytes] at hactive
    rw [honly]
    exact Int.le_trans (by exact_mod_cast hactive) (le_max_right _ _)

/-- After every append of every run the segments are within the quota, or within the size of one
segment and a record; the active segment is on disk, with the largest id; the segments on disk
are a suffix of those ever created; and what the append removed is the shortest prefix that
brings the rest into the quota, or all but the active one. -/
theorem quota_retention {dir : Dir} (hdir : Canonical dir) {maxBytes : Int} (hmax : 0 < maxBytes)
    {s : Keeper} (hrun : Reaches (Keeper.Step maxBytes) (.start dir maxBytes) s) {p : Bytes}
    (hok : (s.wal.append p none).2 = none) :
    let done := s.append p
    WAL.sizeOnDisk done.wal.dir ≤
        max maxBytes (walSegmentMaxBytes - 1 + walHeaderSize + walMaxEntrySize : Nat) ∧
      done.wal.activeSeg ∈ segments done.wal.dir ∧
      (∀ id ∈ segments done.wal.dir, id ≤ done.wal.activeSeg) ∧
      segments done.wal.dir <:+ done.created ∧
      WAL.TrimmedTo maxBytes (image ((s.wal.rotate none).1.write (encodeRecord p)).dir)
        (image done.wal.dir) := by
  have hp : Fits p := WAL.append_ok.mp hok
  have h := keptInv_of_reaches hdir hrun
  have hdone := h.append hp
  have htrimmed := WAL.append_trimmed h.ready (h.quota ▸ hmax) hp
  rw [h.quota] at htrimmed
  exact ⟨h.bounded hmax hp, hdone.active, hdone.ready.newest, hdone.suffix, htrimmed⟩

theorem exists_keeper_filled {p : Bytes} (hp : p.length = walMaxEntrySize) {m : Nat} (hm : m ≤ 8) :
    ∃ s, Reaches (Keeper.Step 1) (.start ∅ 1) s ∧ s.created = [0] ∧
      s.wal = (openWal ∅ 1).fill p m := by
  have hfits : Fits p := Nat.le_of_eq hp
  induction m with
  | zero => exact ⟨_, Relation.ReflTransGen.refl, by decide, rfl⟩
  | succ m ih =>
      obtain ⟨s, hrun, hcreated, hwal⟩ := ih (Nat.le_of_succ_le hm)
      have hnext : (s.append p).wal = (openWal ∅ 1).fill p (m + 1) := by
        rw [WAL.fill, ← hwal]
        rfl
      have hsegments : segments (s.append p).wal.dir = segments s.wal.dir := by
        have hbefore := WAL.fill_filled hp 1 (Nat.le_of_succ_le hm)
        have hafter := WAL.fill_filled hp 1 hm
        rw [hnext, hwal, ← image_map_fst, ← image_map_fst, hbefore.files, hafter.files,
          hbefore.active, hafter.active]
        rfl
      refine ⟨_, hrun.tail (.append s p (WAL.append_ok.mpr hfits)), ?_, hnext⟩
      rw [Keeper.append, Keeper.note, hcreated]
      rw [Keeper.append, Keeper.note] at hsegments
      simp [hsegments]

/-- The ninth record starts a second segment, and a quota of one byte removes the first. -/
theorem quota_retention_removed_segment :
    ∃ s, Reaches (Keeper.Step 1) (.start ∅ 1) s ∧ segments s.wal.dir = [0] ∧
      let done := s.append [7]
      done.created = [0, 1] ∧ segments done.wal.dir = [1] ∧
        WAL.sizeOnDisk done.wal.dir ≤
          max 1 (walSegmentMaxBytes - 1 + walHeaderSize + walMaxEntrySize : Nat) ∧
        done.wal.activeSeg ∈ segments done.wal.dir ∧
        (∀ id ∈ segments done.wal.dir, id ≤ done.wal.activeSeg) ∧
        segments done.wal.dir <:+ done.created ∧
        WAL.TrimmedTo 1 (image ((s.wal.rotate none).1.write (encodeRecord [7])).dir)
          (image done.wal.dir) := by
  obtain ⟨p, hp⟩ : ∃ p : Bytes, p.length = walMaxEntrySize :=
    ⟨List.replicate walMaxEntrySize 0, List.length_replicate⟩
  obtain ⟨s, hrun, hcreated, hwal⟩ := exists_keeper_filled hp (Nat.le_refl 8)
  have hfilled : s.wal.Filled 1 (encodeAll (List.replicate 8 p)) :=
    hwal ▸ WAL.fill_filled hp 1 (Nat.le_refl 8)
  have hbefore : segments s.wal.dir = [0] := by
    rw [← image_map_fst, hfilled.files, hfilled.active]
    rfl
  have hafter : segments (s.wal.append [7] none).1.dir = [1] := by
    rw [← image_map_fst, hfilled.rotates (WAL.fill_full hp) (by decide)]
    rfl
  refine ⟨s, hrun, hbefore, ?_, hafter, quota_retention (canonical_of_no_segments rfl) (by decide)
    hrun (WAL.append_ok.mpr (by decide))⟩
  rw [Keeper.append, Keeper.note, hcreated, hafter, hbefore]
  rfl

end TomAgent.Wal
