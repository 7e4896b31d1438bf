import TomAgent.Core.Execution
import TomAgent.Wal.Crash
import TomAgent.Wal.Faults

/-!
# Appends that fail

Nothing truncates the file after an `Append` that failed, and the writer goes on
behind whatever it left.  A failed append is therefore invisible exactly if none of
its bytes reached the file: the payload was too large, the next segment could not
be opened, or the header write stopped at once.
-/

namespace TomAgent.Wal

open Segmented Execution

def ReturnsExactly (dir : Dir) (wanted : List Bytes) : Prop :=
  (∃ out, Drains dir 0 out) ∧ ∀ out, Drains dir 0 out → out = wanted

theorem returnsExactly_iff {dir : Dir} (hdir : Canonical dir) {wanted : List Bytes} :
    ReturnsExactly dir wanted ↔ (tagged (image dir)).map Prod.snd = wanted := by
  have hall : ∀ out, Drains dir 0 out → out = (tagged (image dir)).map Prod.snd := by
    intro out hout
    rw [hout.eq_remaining hdir, remaining_zero]
  obtain ⟨out, hout⟩ := exists_drains hdir 0
  constructor
  · intro h
    rw [← hall out hout, h.2 out hout]
  · rintro rfl
    exact ⟨⟨out, hout⟩, hall⟩

/-! ## The quota is always reached -/

namespace WAL

theorem tagged_length_le (dir : Dir) (ids : List Nat) :
    ((tagged (ids.map fun s => (s, content dir s))).length : Int) ≤
      totalSize (fun s => (content dir s).length) ids := by
  induction ids with
  | nil => simp [tagged, totalSize]
  | cons s rest ih =>
      have hfirst := entries_length_le (content dir s)
      rw [List.map_cons, ← List.singleton_append, tagged_append, tagged_singleton,
        List.length_append, List.length_map, totalSize]
      omega

/-- The active file may be longer than the writer believes, but not by more than before. -/
theorem append_lag {w : WAL} (h : w.Ready) {p : Bytes} (hp : Fits p) {lag : Nat}
    (hlag : (content w.dir w.activeSeg).length ≤ w.activeLen + lag) :
    let done := (w.append p none).1
    (content done.dir done.activeSeg).length ≤ done.activeLen + lag ∧
      done.activeLen < walSegmentMaxBytes + (walHeaderSize + p.length) := by
  have hroom := rotate_room h
  have hrotated : (content (w.rotate none).1.dir (w.rotate none).1.activeSeg).length ≤
      (w.rotate none).1.activeLen + lag := by
    by_cases hfull : walSegmentMaxBytes ≤ w.activeLen
    · have hsized := openActive_sized { w with activeSeg := w.activeSeg + 1 }
      rw [rotate, if_pos hfull]
      exact Nat.le_trans (Nat.le_of_eq hsized.symm) (Nat.le_add_right _ lag)
    · rw [rotate, if_neg hfull]
      exact hlag
  obtain ⟨hlen, hcontent⟩ := append_active h hp
  dsimp only
  rw [hlen, hcontent, List.length_append, encodeRecord_length]
  omega

theorem append_records {w : WAL} (h : w.Ready) (hmax : 0 < w.maxBytes) {lag : Nat}
    (hlag : (content w.dir w.activeSeg).length ≤ w.activeLen + lag) :
    ((tagged (image (w.append [] none).1.dir)).length : Int) ≤
      w.maxBytes + walSegmentMaxBytes + walHeaderSize + lag := by
  have hfits : Fits [] := Nat.zero_le _
  obtain ⟨hbytes, hlen⟩ := append_lag h hfits hlag
  rcases append_bound h hmax hfits with hsize | ⟨bytes, himg⟩
  · have hcount := tagged_length_le (w.append [] none).1.dir (segments (w.append [] none).1.dir)
    rw [sizeOnDisk] at hsize
    rw [image]
    omega
  · -- only the active file is left, and it is at most one record longer than a segment may be
    generalize (w.append [] none).1 = done at hbytes hlen himg ⊢
    have hcontent : content done.dir done.activeSeg = bytes :=
      (mem_image.mp (by rw [himg]; simp)).2
    have hcount := entries_length_le bytes
    rw [hcontent] at hbytes
    rw [himg, tagged_singleton, List.length_map]
    simp only [List.length_nil] at hlen
    omega

theorem appendAll_records {w : WAL} (h : w.Ready) (hmax : 0 < w.maxBytes) {lag : Nat}
    (hlag : (content w.dir w.activeSeg).length ≤ w.activeLen + lag) (n : Nat) :
    let after := w.appendAll (List.replicate (n + 1) [])
    after.2.length = n + 1 ∧
      ((tagged (image after.1.dir)).length : Int) ≤
        w.maxBytes + walSegmentMaxBytes + walHeaderSize + lag := by
  have hfits : Fits [] := Nat.zero_le _
  induction n generalizing w with
  | zero =>
      rw [List.replicate_one, appendAll_singleton w hfits]
      exact ⟨rfl, append_records h hmax hlag⟩
  | succ n ih =>
      obtain ⟨hready, hsame, -⟩ := append_keeps h [] none
      obtain ⟨hlength, hrecords⟩ := ih hready (hsame ▸ hmax) (append_lag h hfits hlag).1
      rw [hsame] at hrecords
      rw [List.replicate_succ]
      refine ⟨?_, hrecords⟩
      simp only [appendAll, append_ok.mpr hfits, if_true, List.length_cons, hlength]

/-- With a quota enough further records always remove acknowledged ones. -/
theorem exists_removed {w : WAL} (h : w.Ready) (hmax : 0 < w.maxBytes) (log : History) :
    ∃ qs, ¬ ReturnsExactly (w.appendAll qs).1.dir
      ((log ++ (w.appendAll qs).2).map Prod.snd) := by
  let lag := (content w.dir w.activeSeg).length
  let n := (w.maxBytes + walSegmentMaxBytes + walHeaderSize + lag).toNat
  obtain ⟨hlength, hrecords⟩ := appendAll_records h hmax (Nat.le_add_left lag w.activeLen) n
  refine ⟨List.replicate (n + 1) [], fun hexact => ?_⟩
  rw [returnsExactly_iff (appendAll_ready h _).canonical] at hexact
  have hlen := congrArg List.length hexact
  simp only [List.length_map, List.length_append, hlength] at hlen
  omega

end WAL

/-! ## Runs -/

structure Appender where
  wal : WAL
  acked : History

namespace Appender

inductive Event where
  | append (payload : Bytes) (fault : Option AppendFault)
  | restart (maxBytes : Int)
deriving Repr, DecidableEq

def start (dir : Dir) (maxBytes : Int) : Appender := ⟨openWal dir maxBytes, []⟩

def append (s : Appender) (p : Bytes) (fault : Option AppendFault) : Appender :=
  let done := s.wal.append p fault
  ⟨done.1, if done.2 = none then s.acked ++ [(done.1.lastPlace p, p)] else s.acked⟩

def step (s : Appender) : Event → Option Appender
  | .append payload fault => some (s.append payload fault)
  | .restart maxBytes => some ⟨openWal s.wal.dir maxBytes, s.acked⟩

/-- An append that fails does so before any of its bytes reached a file. -/
def FailsClean (s : Appender) : Event → Prop
  | .append payload fault =>
      (s.wal.append payload fault).2 ≠ none → s.wal.WritesNothing payload fault
  | .restart _ => True

instance (s : Appender) : (e : Event) → Decidable (s.FailsClean e)
  | .append _ _ => inferInstanceAs (Decidable (_ → _))
  | .restart _ => isTrue trivial

/-- The files hold what is left of the acknowledged records, and only whole records. -/
structure Inv (s : Appender) : Prop where
  ready : s.wal.Ready
  newest : ∀ e ∈ s.acked, ∃ seg ∈ segments s.wal.dir, e.1.segment ≤ seg
  exact : tags (surviving s.wal.dir s.acked) = tagged (image s.wal.dir)
  whole : ∀ seg ∈ image s.wal.dir, Resumable seg.2

theorem Inv.logged {s : Appender} (h : s.Inv) : Logged s.wal s.acked := by
  refine ⟨h.ready, ?_, h.exact, ?_⟩
  · intro e he
    obtain ⟨seg, hseg, hle⟩ := h.newest e he
    exact Nat.le_trans hle (h.ready.newest seg hseg)
  · rcases h.ready.active with hactive | hfull
    · exact Or.inr (h.whole _ (mem_image.mpr ⟨hactive, rfl⟩))
    · exact Or.inl hfull

theorem surviving_opened {dir dir' : Dir} {log : History}
    (hopened : Opened (image dir) (image dir'))
    (hnewest : ∀ e ∈ log, ∃ seg ∈ segments dir, e.1.segment ≤ seg) :
    surviving dir' log = surviving dir log := by
  refine List.filter_congr fun e he => ?_
  rw [decide_eq_decide, ← image_map_fst, ← image_map_fst]
  refine ⟨fun hseg => ?_, hopened.mem_of_mem⟩
  rcases hopened with heq | ⟨fresh, hfresh, heq⟩
  · rwa [heq] at hseg
  · rw [heq, List.map_append, List.mem_append] at hseg
    rcases hseg with hseg | hseg
    · exact hseg
    · obtain ⟨seg, hmem, hle⟩ := hnewest e he
      have hlt : seg < fresh := hfresh (seg, content dir seg) (mem_image.mpr ⟨hmem, rfl⟩)
      simp only [List.map_cons, List.map_nil, List.mem_singleton] at hseg
      omega

theorem Inv.opened {s : Appender} (h : s.Inv) {w : WAL} (hready : w.Ready)
    (hopened : Opened (image s.wal.dir) (image w.dir)) : Inv ⟨w, s.acked⟩ := by
  have htagged : tagged (image w.dir) = tagged (image s.wal.dir) := hopened.flatMap (by simp)
  refine ⟨hready, ?_, ?_, ?_⟩
  · intro e he
    obtain ⟨seg, hseg, hle⟩ := h.newest e he
    rw [← image_map_fst] at hseg
    have hkept := hopened.mem_of_mem hseg
    rw [image_map_fst] at hkept
    exact ⟨seg, hkept, hle⟩
  · rw [htagged, ← h.exact]
    exact congrArg tags (surviving_opened hopened h.newest)
  · intro seg hseg
    rcases hopened with heq | ⟨fresh, -, heq⟩
    · exact h.whole seg (heq ▸ hseg)
    · dsimp only at hseg
      rw [heq, List.mem_append, List.mem_singleton] at hseg
      rcases hseg with hseg | rfl
      · exact h.whole seg hseg
      · exact resumable_nil

theorem Inv.append {s : Appender} (h : s.Inv) {p : Bytes} (hp : Fits p) :
    Inv ⟨(s.wal.append p none).1,
      s.acked ++ [((s.wal.append p none).1.lastPlace p, p)]⟩ := by
  have hlogged := h.logged.append hp
  obtain ⟨-, hid, happ⟩ := WAL.append_fits_image h.ready hp
  generalize (s.wal.append p none).1 = done at hlogged hid happ ⊢
  have hmem := happ.mem
  rw [image_map_fst] at hmem
  refine ⟨hlogged.ready, fun e he => ⟨_, hmem, hlogged.bound e he⟩, hlogged.exact, ?_⟩
  obtain ⟨init, bytes, n, hopened, -, himg⟩ := happ
  have hfront := h.logged.resumable_front hid hopened
  intro seg hseg
  dsimp only at hseg
  rw [himg] at hseg
  rcases List.mem_append.mp (List.mem_of_mem_drop hseg) with hseg | hseg
  · rcases hopened with heq | ⟨fresh, -, heq⟩
    · exact h.whole seg (heq ▸ List.mem_append_left _ hseg)
    · obtain ⟨rfl, -⟩ := List.append_inj' heq rfl
      exact h.whole seg hseg
  · rw [List.mem_singleton] at hseg
    subst hseg
    exact (hfront.record hp).1

theorem Inv.step {s t : Appender} (h : s.Inv) {e : Event} (hclean : s.FailsClean e)
    (hstep : s.step e = some t) : t.Inv := by
  cases e with
  | append p fault =>
      cases hstep
      unfold Appender.append
      dsimp only
      by_cases hok : (s.wal.append p fault).2 = none
      · obtain ⟨hp, heq⟩ := WAL.append_eq_none hok
        rw [heq] at hok ⊢
        rw [if_pos hok]
        exact h.append hp
      · obtain ⟨hready, hopened⟩ := (hclean hok).opened h.ready
        rw [if_neg hok]
        exact h.opened hready hopened
  | restart maxBytes =>
      cases hstep
      obtain ⟨hready, hopened, -⟩ := WAL.openWal_image h.ready.canonical maxBytes
      exact h.opened hready hopened

theorem start_inv {dir : Dir} (hdir : segments dir = []) (maxBytes : Int) :
    (start dir maxBytes).Inv := by
  have hlogged := Logged.fresh hdir maxBytes
  obtain ⟨-, hopened, -⟩ := WAL.openWal_image (canonical_of_no_segments hdir) maxBytes
  refine ⟨hlogged.ready, by simp [start], hlogged.exact, ?_⟩
  intro seg hseg
  rw [show image dir = [] by simp [image, hdir]] at hopened
  rcases hopened with heq | ⟨fresh, -, heq⟩
  · simp [start, heq] at hseg
  · simp only [start, heq, List.nil_append, List.mem_singleton] at hseg
    exact hseg ▸ resumable_nil

theorem inv_of_run {dir : Dir} (hdir : segments dir = []) {maxBytes : Int} {s : Appender}
    (hrun : Reaches (Fires step FailsClean) (start dir maxBytes) s) : s.Inv := by
  refine invariant Inv ?_ (start_inv hdir maxBytes) hrun
  intro s t h hfires
  obtain ⟨e, hclean, hstep⟩ := hfires
  exact h.step hclean hstep

/-! ## After a failed append -/

/-- After this append and any successful ones, a drain returns the acknowledged records. -/
def Invisible (s : Appender) (p : Bytes) (fault : Option AppendFault) : Prop :=
  ∀ qs, let after := (s.wal.append p fault).1.appendAll qs
    ReturnsExactly after.1.dir ((s.acked ++ after.2).map Prod.snd)

/-- The same, except for the records in segments that the quota removed. -/
def InvisibleUpToQuota (s : Appender) (p : Bytes) (fault : Option AppendFault) : Prop :=
  ∀ qs, let after := (s.wal.append p fault).1.appendAll qs
    ReturnsExactly after.1.dir ((surviving after.1.dir (s.acked ++ after.2)).map Prod.snd)

theorem Inv.invisible {s : Appender} (h : s.Inv) {p : Bytes} {fault : Option AppendFault}
    (hnothing : s.wal.WritesNothing p fault) : s.InvisibleUpToQuota p fault := by
  obtain ⟨hready, hopened⟩ := hnothing.opened h.ready
  intro qs after
  have hafter := (h.opened hready hopened).logged.appendAll qs
  exact ⟨exists_drains hafter.ready.canonical 0, fun out hout => hafter.drain hout⟩

theorem Inv.not_invisible {s : Appender} (h : s.Inv) {p : Bytes} {fault : Option AppendFault}
    (hp : Fits p) (hresidue : s.wal.Residue p (s.wal.append p fault).1) :
    ¬ s.InvisibleUpToQuota p fault := by
  intro hall
  unfold InvisibleUpToQuota at hall
  generalize (s.wal.append p fault).1 = failed at hresidue hall
  cases hresidue with
  | whole hready hactive happ =>
      -- the drain returns one record more than was acknowledged
      have hlogged := h.logged.appended hp hready hactive happ
      have hexact := hall []
      obtain ⟨⟨out, hout⟩, heq⟩ := hexact
      have hlen := (hlogged.drain hout).symm.trans (heq out hout)
      have hmem := happ.mem
      rw [image_map_fst] at hmem
      have hkept : surviving failed.dir [(failed.lastPlace p, p)] = [(failed.lastPlace p, p)] := by
        simp [surviving, WAL.lastPlace, hmem]
      simp only [WAL.appendAll, List.append_nil] at hlen
      rw [surviving, List.filter_append, ← surviving, ← surviving, hkept, List.map_append] at hlen
      simpa using congrArg List.length hlen
  | torn written hpos hlt heq =>
      obtain ⟨hrotated, -, hactive⟩ := WAL.rotate_image h.ready none
      have hready := hrotated.write (hactive (WAL.rotate_none s.wal)) ((encodeRecord p).take written)
      rw [← heq] at hready
      have hroom : ¬ walSegmentMaxBytes ≤ failed.activeLen := by
        rw [heq]
        exact WAL.rotate_room h.ready
      refine h.logged.torn_loses hp hpos hlt hready (by rw [heq]; rfl) hroom ?_
      obtain ⟨hdrains, heq⟩ := hall [probe p]
      exact ⟨hdrains, fun out hout => heq out hout ▸ List.Sublist.refl _⟩

theorem Inv.invisible_iff {s : Appender} (h : s.Inv) (hmax : s.wal.maxBytes ≤ 0)
    (hkept : ∀ e ∈ s.acked, e.1.segment ∈ segments s.wal.dir) (p : Bytes)
    (fault : Option AppendFault) : s.Invisible p fault ↔ s.InvisibleUpToQuota p fault := by
  obtain ⟨hready, hsame, hsegs⟩ := WAL.append_keeps h.ready p fault
  refine forall_congr' fun qs => ?_
  obtain ⟨hlater, hnew⟩ := WAL.appendAll_kept hready (hsame ▸ hmax) qs
  generalize (s.wal.append p fault).1.appendAll qs = after at hlater hnew ⊢
  have hall : surviving after.1.dir (s.acked ++ after.2) = s.acked ++ after.2 := by
    refine List.filter_eq_self.mpr fun e he => ?_
    rw [decide_eq_true_eq]
    rcases List.mem_append.mp he with he | he
    · exact hlater _ (hsegs hmax _ (hkept e he))
    · exact hnew e he
  dsimp only
  rw [hall]

end Appender

/-- Take any log that was opened on a fresh directory, restarted and appended to, where appends
may have failed before any of their bytes reached a file.  Let one more `Append` return an
error.  Whatever is appended successfully after it, a drain returns exactly the acknowledged
records, except those in segments the quota removed, if and only if this append wrote nothing
either.  If nothing was removed so far, the same holds without the exception if and only if, in
addition, there is no quota. -/
theorem failed_append_invisible_iff {dir : Dir} (hdir : segments dir = []) {maxBytes : Int}
    {s : Appender}
    (hrun : Reaches (Fires Appender.step Appender.FailsClean) (Appender.start dir maxBytes) s)
    {p : Bytes} {fault : Option AppendFault} (herr : (s.wal.append p fault).2 ≠ none) :
    (s.InvisibleUpToQuota p fault ↔ s.wal.WritesNothing p fault) ∧
      ((∀ e ∈ s.acked, e.1.segment ∈ segments s.wal.dir) →
        (s.Invisible p fault ↔ s.wal.WritesNothing p fault ∧ s.wal.maxBytes ≤ 0)) := by
  have hinv := Appender.inv_of_run hdir hrun
  have hiff : s.InvisibleUpToQuota p fault ↔ s.wal.WritesNothing p fault := by
    refine ⟨fun hall => ?_, hinv.invisible⟩
    by_contra hwrites
    obtain ⟨hp, hresidue⟩ := WAL.append_residue hinv.ready herr hwrites
    exact hinv.not_invisible hp hresidue hall
  refine ⟨hiff, fun hkept => ?_⟩
  constructor
  · intro hall
    have hmax : s.wal.maxBytes ≤ 0 := by
      by_contra hmax
      obtain ⟨hready, hsame, -⟩ := WAL.append_keeps hinv.ready p fault
      obtain ⟨qs, hqs⟩ := WAL.exists_removed hready (by omega) s.acked
      exact hqs (hall qs)
    rw [hinv.invisible_iff hmax hkept, hiff] at hall
    exact ⟨hall, hmax⟩
  · rintro ⟨hnothing, hmax⟩
    rw [hinv.invisible_iff hmax hkept, hiff]
    exact hnothing

/-- One record, a failed append that wrote nothing, a restart, and then a header without
its payload. -/
theorem failed_append_invisible_iff_torn_payload :
    ∃ s : Appender,
      Reaches (Fires Appender.step Appender.FailsClean) (Appender.start ∅ 0) s ∧
      (s.acked.map Prod.snd = [[1]] ∧ (∀ e ∈ s.acked, e.1.segment ∈ segments s.wal.dir) ∧
        (s.wal.append [2, 3] (some (.writePayload 0))).2 ≠ none) ∧
      (s.InvisibleUpToQuota [2, 3] (some (.writePayload 0)) ↔
        s.wal.WritesNothing [2, 3] (some (.writePayload 0))) ∧
      (s.Invisible [2, 3] (some (.writePayload 0)) ↔
        s.wal.WritesNothing [2, 3] (some (.writePayload 0)) ∧ s.wal.maxBytes ≤ 0) := by
  have hreach : ∃ s : Appender,
      Reaches (Fires Appender.step Appender.FailsClean) (Appender.start ∅ 0) s ∧
      (s.acked.map Prod.snd = [[1]] ∧ (∀ e ∈ s.acked, e.1.segment ∈ segments s.wal.dir) ∧
        (s.wal.append [2, 3] (some (.writePayload 0))).2 ≠ none) := by
    apply reaches_of_any Appender.step
      [.append [1] none, .append [2] (some (.writeHeader 0)), .restart 0]
    · exact permitted_of_decide (by decide +kernel)
    · decide +kernel
  obtain ⟨s, hrun, hacked, hkept, herr⟩ := hreach
  obtain ⟨hquota, hexact⟩ := failed_append_invisible_iff (by decide) hrun herr
  exact ⟨s, hrun, ⟨hacked, hkept, herr⟩, hquota, hexact hkept⟩

/-- The payload write fails at once: the next record is acknowledged and never read.
The sync fails: the record is read although its append failed. -/
theorem failed_append_visible :
    let s := (Appender.start ∅ 0).append [1] none
    let torn := s.wal.append [2, 3] (some (.writePayload 0))
    let after := torn.1.appendAll [[4]]
    let unsynced := s.wal.append [2, 3] (some .sync)
    (torn.2 = some .write ∧ (s.acked ++ after.2).map Prod.snd = [[1], [4]] ∧
      Drains after.1.dir 0 [[1]]) ∧
      (unsynced.2 = some .sync ∧ s.acked.map Prod.snd = [[1]] ∧
        Drains unsynced.1.dir 0 [[1], [2, 3]]) := by
  intro s torn after unsynced
  have hlost : Drains after.1.dir 0 [[1]] := by
    have hbatch : (readFrom after.1.dir 0 10).1 = [[1]] := by decide +kernel
    have hrest : (readFrom after.1.dir (readFrom after.1.dir 0 10).2 10).1 = [] := by
      decide +kernel
    exact Drains.one_batch (by decide) (by decide) hbatch hrest
  have hextra : Drains unsynced.1.dir 0 [[1], [2, 3]] := by
    have hbatch : (readFrom unsynced.1.dir 0 10).1 = [[1], [2, 3]] := by decide +kernel
    have hrest : (readFrom unsynced.1.dir (readFrom unsynced.1.dir 0 10).2 10).1 = [] := by
      decide +kernel
    exact Drains.one_batch (by decide) (by decide) hbatch hrest
  exact ⟨⟨by decide +kernel, by decide +kernel, hlost⟩, by decide +kernel, by decide +kernel, hextra⟩

end TomAgent.Wal
