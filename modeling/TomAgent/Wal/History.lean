import TomAgent.Wal.Stream
import TomAgent.Wal.Image

/-!
# What was appended and what a drain returns

A history lists the records whose `Append` returned no error, each with the place
it was written to.  The quota removes whole segments, so what is left of a
history are the records whose segment still has a file.
-/

namespace TomAgent.Wal

open Segmented

/-- Records with the segment and offset at which they were written. -/
abbrev History := List (WalCursor × Bytes)

def WAL.lastPlace (w : WAL) (payload : Bytes) : WalCursor :=
  ⟨w.activeSeg, (content w.dir w.activeSeg).length - (encodeRecord payload).length⟩

theorem WAL.lastPlace_eq {w : WAL} {recs : List Bytes} {p : Bytes}
    (hbytes : content w.dir w.activeSeg = encodeAll (recs ++ [p])) :
    w.lastPlace p = ⟨w.activeSeg, (encodeAll recs).length⟩ := by
  simp [lastPlace, hbytes]

def WAL.appendAll (w : WAL) : List Bytes → WAL × History
  | [] => (w, [])
  | p :: rest =>
      let done := w.append p none
      let more := done.1.appendAll rest
      (more.1, if done.2 = none then (done.1.lastPlace p, p) :: more.2 else more.2)

theorem WAL.appendAll_singleton (w : WAL) {p : Bytes} (hp : Fits p) :
    w.appendAll [p] =
      ((w.append p none).1, [((w.append p none).1.lastPlace p, p)]) := by
  simp [appendAll, append_ok.mpr hp]

def surviving (dir : Dir) (log : History) : History :=
  log.filter fun e => e.1.segment ∈ segments dir

/-- Reading until nothing more is returned, in batches of any size. -/
inductive Drains (dir : Dir) : WalCursor → List Bytes → Prop
  | done (cur : WalCursor) (max : Nat) (hmax : 1 ≤ max) (hnone : (readFrom dir cur max).1 = []) :
      Drains dir cur []
  | batch (cur : WalCursor) (max : Nat) (hmax : 1 ≤ max) (hsome : (readFrom dir cur max).1 ≠ [])
      (rest : List Bytes) (hrest : Drains dir (readFrom dir cur max).2 rest) :
      Drains dir cur ((readFrom dir cur max).1 ++ rest)

/-! ## Draining -/

theorem Drains.one_batch {dir : Dir} {max : Nat} (hmax : 1 ≤ max) {out : List Bytes}
    (hne : out ≠ []) (hout : (readFrom dir 0 max).1 = out)
    (hrest : (readFrom dir (readFrom dir 0 max).2 max).1 = []) : Drains dir 0 out := by
  subst hout
  simpa using Drains.batch 0 max hmax hne [] (.done _ max hmax hrest)

theorem Drains.eq_remaining {dir : Dir} (hdir : Canonical dir) {cur : WalCursor}
    {out : List Bytes} (h : Drains dir cur out) : out = remaining dir cur := by
  induction h with
  | done cur max hmax hnone =>
      rw [(readFrom_spec hdir cur hmax).1, List.take_eq_nil_iff] at hnone
      exact (hnone.resolve_left (by omega)).symm
  | batch cur max hmax _ rest _ ih =>
      obtain ⟨hout, hnext⟩ := readFrom_spec hdir cur hmax
      rw [ih, hout, hnext, List.take_append_drop]

theorem exists_drains {dir : Dir} (hdir : Canonical dir) (cur : WalCursor) :
    ∃ out, Drains dir cur out := by
  generalize hn : (remaining dir cur).length = n
  induction n generalizing cur with
  | zero =>
      refine ⟨[], .done cur 1 (Nat.le_refl 1) ?_⟩
      rw [(readFrom_spec hdir cur (Nat.le_refl 1)).1, List.eq_nil_of_length_eq_zero hn,
        List.take_nil]
  | succ n ih =>
      obtain ⟨hout, hnext⟩ := readFrom_spec hdir cur (Nat.le_refl 1)
      obtain ⟨rest, hrest⟩ := ih (readFrom dir cur 1).2 (by rw [hnext, List.length_drop]; omega)
      refine ⟨_, .batch cur 1 (Nat.le_refl 1) ?_ rest hrest⟩
      intro hnil
      have hlen := congrArg List.length (hout.symm.trans hnil)
      rw [List.length_take, hn, List.length_nil] at hlen
      omega

def tagged (img : Segmented UInt8) : List (Nat × Bytes) :=
  img.flatMap fun seg => (entries seg.2).map (seg.1, ·)

@[simp] theorem tagged_append (x y : Segmented UInt8) : tagged (x ++ y) = tagged x ++ tagged y := by
  simp [tagged]

theorem tagged_singleton (id : Nat) (bytes : Bytes) :
    tagged [(id, bytes)] = (entries bytes).map (id, ·) := by
  simp [tagged]

theorem remaining_zero (dir : Dir) : remaining dir 0 = (tagged (image dir)).map Prod.snd := by
  have hstart : restart dir 0 = 0 := by
    unfold restart
    split
    · rfl
    · split <;> rfl
  have hall : pending dir (segments dir) 0 = entriesOf dir (segments dir) :=
    pending_start fun s _ => Nat.zero_le s
  rw [remaining, hstart, hall]
  simp [entriesOf, tagged, image, List.flatMap_map, List.map_flatMap, Function.comp_def]

/-! ## Removing the oldest segments -/

namespace Segmented

variable {α β : Type}

theorem Opened.sorted {j k : Segmented α} (h : Opened j k)
    (hj : (j.map Prod.fst).Pairwise (· < ·)) : (k.map Prod.fst).Pairwise (· < ·) := by
  rcases h with rfl | ⟨id, hid, rfl⟩
  · exact hj
  · rw [List.map_append, List.pairwise_append]
    refine ⟨hj, by simp, ?_⟩
    intro a ha b hb
    obtain ⟨seg, hseg, rfl⟩ := List.mem_map.mp ha
    simp only [List.map_cons, List.map_nil, List.mem_singleton] at hb
    exact hb ▸ hid seg hseg

theorem flatMap_drop {j : Segmented α} {tag : β → Nat} {g : Nat × List α → List β}
    (hg : ∀ seg ∈ j, ∀ e ∈ g seg, tag e = seg.1) (hj : (j.map Prod.fst).Pairwise (· < ·))
    (n : Nat) :
    (j.drop n).flatMap g = (j.flatMap g).filter fun e => tag e ∈ (j.drop n).map Prod.fst := by
  have hsplit : j.flatMap g = (j.take n).flatMap g ++ (j.drop n).flatMap g := by
    rw [← List.flatMap_append, List.take_append_drop]
  have hgone : ((j.take n).flatMap g).filter (fun e => tag e ∈ (j.drop n).map Prod.fst) = [] := by
    rw [List.filter_eq_nil_iff]
    intro e he
    obtain ⟨seg, hseg, he⟩ := List.mem_flatMap.mp he
    rw [hg seg (List.mem_of_mem_take hseg) e he, decide_eq_true_eq]
    intro hmem
    rw [← List.take_append_drop n j, List.map_append, List.pairwise_append] at hj
    exact absurd (hj.2.2 seg.1 (List.mem_map_of_mem hseg) seg.1 hmem) (Nat.lt_irrefl _)
  have hkept : ((j.drop n).flatMap g).filter (fun e => tag e ∈ (j.drop n).map Prod.fst) =
      (j.drop n).flatMap g := by
    rw [List.filter_eq_self]
    intro e he
    obtain ⟨seg, hseg, he⟩ := List.mem_flatMap.mp he
    rw [hg seg (List.mem_of_mem_drop hseg) e he, decide_eq_true_eq]
    exact List.mem_map_of_mem hseg
  rw [hsplit, List.filter_append, hgone, hkept, List.nil_append]

theorem tagged_drop {img : Segmented UInt8} (himg : (img.map Prod.fst).Pairwise (· < ·)) (n : Nat) :
    tagged (img.drop n) = (tagged img).filter fun e => e.1 ∈ (img.drop n).map Prod.fst :=
  @flatMap_drop _ _ _ Prod.fst (fun seg : Nat × Bytes => (entries seg.2).map (seg.1, ·))
    (by simp) himg n

theorem Opened.flatMap {j k : Segmented α} {g : Nat × List α → List β} (h : Opened j k)
    (hempty : ∀ id, g (id, []) = []) : k.flatMap g = j.flatMap g := by
  rcases h with rfl | ⟨id, -, rfl⟩
  · rfl
  · simp [hempty]

/-- One append adds its own contribution, and the quota takes whole segments away. -/
theorem flatMap_appended (tag : β → Nat) (g : Nat × List α → List β) {j init : Segmented α}
    {id : Nat} {recs data : List α} {extra : List β} (hopened : Opened j (init ++ [(id, recs)]))
    (hj : (j.map Prod.fst).Pairwise (· < ·)) (hg : ∀ seg, ∀ e ∈ g seg, tag e = seg.1)
    (hempty : ∀ id, g (id, []) = []) (hextra : g (id, recs ++ data) = g (id, recs) ++ extra)
    (n : Nat) :
    ((init ++ [(id, recs ++ data)]).drop n).flatMap g =
      (j.flatMap g ++ extra).filter fun e =>
        tag e ∈ ((init ++ [(id, recs ++ data)]).drop n).map Prod.fst := by
  have hsorted : ((init ++ [(id, recs ++ data)]).map Prod.fst).Pairwise (· < ·) := by
    simpa using hopened.sorted hj
  rw [flatMap_drop (fun seg _ => hg seg) hsorted, List.flatMap_append, List.flatMap_singleton,
    hextra, ← List.append_assoc, ← List.flatMap_singleton g (id, recs), ← List.flatMap_append,
    hopened.flatMap hempty]

theorem Opened.mem_of_mem {j k : Segmented α} (h : Opened j k) {s : Nat}
    (hs : s ∈ j.map Prod.fst) : s ∈ k.map Prod.fst := by
  rcases h with rfl | ⟨fresh, -, rfl⟩
  · exact hs
  · rw [List.map_append]
    exact List.mem_append_left _ hs

theorem Opened.mem_or_last {j init : Segmented α} {id : Nat} {recs : List α}
    (h : Opened j (init ++ [(id, recs)])) {s : Nat}
    (hs : s ∈ (init ++ [(id, recs)]).map Prod.fst) : s ∈ j.map Prod.fst ∨ s = id := by
  rcases h with heq | ⟨fresh, -, heq⟩
  · exact Or.inl (heq ▸ hs)
  · obtain ⟨rfl, hlast⟩ := List.append_inj' heq rfl
    simpa using hs

/-- What is left of a history is the same after a segment is opened that is newer than it. -/
theorem Opened.filter {j init : Segmented α} {id : Nat} {recs : List α}
    (h : Opened j (init ++ [(id, recs)])) (tag : β → Nat) {log : List β}
    (hnew : id ∈ j.map Prod.fst ∨ ∀ e ∈ log, tag e < id) :
    log.filter (fun e => tag e ∈ (init ++ [(id, recs)]).map Prod.fst) =
      log.filter fun e => tag e ∈ j.map Prod.fst := by
  refine List.filter_congr fun e he => ?_
  rw [decide_eq_decide]
  refine ⟨fun hs => ?_, h.mem_of_mem⟩
  rcases h.mem_or_last hs with hold | heq
  · exact hold
  · rcases hnew with hid | hlog
    · exact heq ▸ hid
    · exact absurd heq (Nat.ne_of_lt (hlog e he))

/-- What is left of a history after an append was left of it before. -/
theorem Appended.filter {j k : Segmented α} {id : Nat} {data : List α}
    (h : Appended j id data k) (tag : β → Nat) {log : List β}
    (hnew : id ∈ j.map Prod.fst ∨ ∀ e ∈ log, tag e < id) :
    log.filter (fun e => tag e ∈ k.map Prod.fst) =
      (log.filter fun e => tag e ∈ j.map Prod.fst).filter fun e => tag e ∈ k.map Prod.fst := by
  obtain ⟨init, recs, n, hopened, -, rfl⟩ := h
  rw [← hopened.filter tag hnew, List.filter_filter]
  refine List.filter_congr fun e _ => ?_
  rw [Bool.eq_iff_iff, Bool.and_eq_true, decide_eq_true_eq, decide_eq_true_eq]
  refine ⟨fun hk => ⟨hk, ?_⟩, And.left⟩
  rw [List.map_drop] at hk
  simpa using List.mem_of_mem_drop hk

theorem Opened.existing {init init' : Segmented α} {id : Nat} {bytes bytes' : List α}
    (h : Opened (init ++ [(id, bytes)]) (init' ++ [(id, bytes')])) :
    init' = init ∧ bytes' = bytes := by
  rcases h with heq | ⟨fresh, hfresh, heq⟩
  · obtain ⟨rfl, hlast⟩ := List.append_inj' heq rfl
    simp only [List.cons.injEq, Prod.mk.injEq, true_and, and_true] at hlast
    exact ⟨rfl, hlast⟩
  · obtain ⟨-, hlast⟩ := List.append_inj' heq rfl
    simp only [List.cons.injEq, Prod.mk.injEq, and_true] at hlast
    have hlt := hfresh (id, bytes) (by simp)
    exact absurd hlast.1 (Nat.ne_of_lt hlt)

theorem Appended.mem {j k : Segmented α} {id : Nat} {data : List α} (h : Appended j id data k) :
    id ∈ k.map Prod.fst := by
  obtain ⟨init, recs, n, -, hn, rfl⟩ := h
  rw [List.drop_append_of_le_length hn]
  simp

theorem Appended.le {j k : Segmented α} {id : Nat} {data : List α} (h : Appended j id data k)
    (hj : (j.map Prod.fst).Pairwise (· < ·)) : ∀ seg ∈ j, seg.1 ≤ id := by
  obtain ⟨init, recs, n, hopened, -, -⟩ := h
  have hsorted := hopened.sorted hj
  rw [List.map_append, List.pairwise_append] at hsorted
  intro seg hseg
  have hmem : seg ∈ init ++ [(id, recs)] := by
    rcases hopened with heq | ⟨fresh, -, heq⟩
    · exact heq ▸ hseg
    · rw [heq]
      exact List.mem_append_left _ hseg
  rcases List.mem_append.mp hmem with hmem | hmem
  · exact Nat.le_of_lt (hsorted.2.2 seg.1 (List.mem_map_of_mem hmem) id (by simp))
  · rw [List.mem_singleton] at hmem
    exact hmem ▸ Nat.le_refl id

end Segmented

namespace WAL

/-! ## Filling a segment -/

theorem append_single {w : WAL} (h : w.Ready) (hs : w.Sized) {bytes : Bytes}
    (himg : image w.dir = [(w.activeSeg, bytes)]) (hroom : bytes.length < walSegmentMaxBytes)
    {p : Bytes} (hp : Fits p) :
    (w.append p none).1.activeSeg = w.activeSeg ∧
      image (w.append p none).1.dir = [(w.activeSeg, bytes ++ encodeRecord p)] := by
  obtain ⟨-, hid, happ⟩ := append_fits_image h hp
  have hbytes : content w.dir w.activeSeg = bytes :=
    (mem_image.mp (show (w.activeSeg, bytes) ∈ _ by simp [himg])).2
  rw [rotate_activeSeg, if_neg (by rw [hs, hbytes]; omega)] at hid
  refine ⟨hid, ?_⟩
  rw [hid, himg] at happ
  obtain ⟨init, recs, n, hopened, hn, hdrop⟩ := happ
  obtain ⟨rfl, rfl⟩ := @Opened.existing _ [] _ _ _ _ hopened
  rw [hdrop, Nat.le_zero.mp hn]
  rfl

/-- An append to the only segment when it is full: the quota may delete that one. -/
theorem append_full {w : WAL} (h : w.Ready) (hs : w.Sized) {bytes : Bytes}
    (himg : image w.dir = [(w.activeSeg, bytes)]) (hfull : walSegmentMaxBytes ≤ bytes.length)
    {p : Bytes} (hp : Fits p) :
    ∃ n ≤ 1, image (w.append p none).1.dir =
      [(w.activeSeg, bytes), (w.activeSeg + 1, encodeRecord p)].drop n := by
  obtain ⟨-, hid, happ⟩ := append_fits_image h hp
  have hbytes : content w.dir w.activeSeg = bytes :=
    (mem_image.mp (show (w.activeSeg, bytes) ∈ _ by simp [himg])).2
  rw [rotate_activeSeg, if_pos (by rw [hs, hbytes]; exact hfull)] at hid
  rw [hid, himg] at happ
  obtain ⟨init, recs, n, hopened, hn, hdrop⟩ := happ
  rcases hopened with heq | ⟨fresh, -, heq⟩
  · have hlast := (List.append_inj' (show init ++ [_] = [] ++ [_] from heq) rfl).2
    simp at hlast
  · obtain ⟨rfl, hlast⟩ := List.append_inj' heq rfl
    simp only [List.cons.injEq, Prod.mk.injEq, and_true] at hlast
    obtain ⟨rfl, rfl⟩ := hlast
    exact ⟨n, hn, hdrop⟩

def fill (w : WAL) (p : Bytes) : Nat → WAL
  | 0 => w
  | m + 1 => ((w.fill p m).append p none).1

structure Filled (w : WAL) (maxBytes : Int) (bytes : Bytes) : Prop where
  ready : w.Ready
  sized : w.Sized
  quota : w.maxBytes = maxBytes
  active : w.activeSeg = 0
  files : image w.dir = [(w.activeSeg, bytes)]

theorem encodeAll_replicate_length {p : Bytes} (hp : p.length = walMaxEntrySize) (m : Nat) :
    (encodeAll (List.replicate m p)).length = m * 4194312 := by
  induction m with
  | zero => rfl
  | succ m ih =>
      rw [List.replicate_succ, encodeAll_cons, List.length_append, ih, encodeRecord_length, hp]
      simp only [walHeaderSize, walMaxEntrySize]
      omega

theorem fill_filled {p : Bytes} (hp : p.length = walMaxEntrySize) (maxBytes : Int) {m : Nat}
    (hm : m ≤ 8) :
    ((openWal ∅ maxBytes).fill p m).Filled maxBytes (encodeAll (List.replicate m p)) := by
  have hfits : Fits p := Nat.le_of_eq hp
  induction m with
  | zero =>
      have hempty : segments (∅ : Dir) = [] := rfl
      obtain ⟨hready, -, -⟩ := openWal_image (canonical_of_no_segments hempty) maxBytes
      have himg : image (openWal ∅ 0).dir = [(0, [])] := by decide
      exact ⟨hready, openActive_sized _, rfl, rfl, himg⟩
  | succ m ih =>
      have h := ih (Nat.le_of_succ_le hm)
      have hroom : (encodeAll (List.replicate m p)).length < walSegmentMaxBytes := by
        rw [encodeAll_replicate_length hp]
        simp only [walSegmentMaxBytes]
        omega
      obtain ⟨hsame, himg⟩ := append_single h.ready h.sized h.files hroom hfits
      refine ⟨(append_fits_image h.ready hfits).1, append_sized h.ready h.sized hfits,
        (append_maxBytes h.ready hfits).trans h.quota, hsame.trans h.active, ?_⟩
      rw [List.replicate_succ', encodeAll_append, encodeAll_singleton, fill, hsame]
      exact himg

theorem fill_full {p : Bytes} (hp : p.length = walMaxEntrySize) :
    walSegmentMaxBytes ≤ (encodeAll (List.replicate 8 p)).length := by
  rw [encodeAll_replicate_length hp]
  decide

/-- A quota of one byte deletes the full segment when the next one starts. -/
theorem Filled.rotates {w : WAL} {bytes : Bytes} (h : w.Filled 1 bytes)
    (hfull : walSegmentMaxBytes ≤ bytes.length) {p : Bytes} (hp : Fits p) :
    image (w.append p none).1.dir = [(1, encodeRecord p)] := by
  obtain ⟨n, hn, hdrop⟩ := append_full h.ready h.sized h.files hfull hp
  have hbound := append_bound h.ready (by rw [h.quota]; decide) hp
  dsimp only at hbound
  rw [h.quota] at hbound
  rw [h.active] at hdrop
  have hn : n = 0 ∨ n = 1 := by omega
  rcases hn with rfl | rfl
  · -- nothing deleted: too much for the quota, and the old segment comes first
    have hold : (0, bytes) ∈ image (w.append p none).1.dir := by simp [hdrop]
    rcases hbound with htotal | ⟨_, hhead⟩
    · have hsize := @le_totalSize (fun s => (content (w.append p none).1.dir s).length) _ _
        (mem_image.mp hold).1
      rw [sizeOnDisk] at htotal
      rw [(mem_image.mp hold).2] at hsize
      simp only [walSegmentMaxBytes] at hfull
      omega
    · simp [hdrop] at hhead
  · exact hdrop

end WAL

end TomAgent.Wal
