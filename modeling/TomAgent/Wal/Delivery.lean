import TomAgent.Core.Execution
import TomAgent.Wal.Faults
import TomAgent.Wal.Writer

/-!
# First in, first out

A reader that feeds every returned cursor to its next call, interleaved with
appends, rotations and restarts, receives the appended records in order and
each exactly once.
-/

namespace TomAgent.Wal

open Segmented Journal Execution

/-! ## Runs -/

/-- A log with one reader, and what went in and came out so far. -/
structure Reader where
  wal : WAL
  cursor : WalCursor
  appended : List Bytes
  returned : List Bytes

def Reader.start (dir : Dir) (maxBytes : Int) : Reader := ⟨openWal dir maxBytes, 0, [], []⟩

inductive Reader.Step : Reader → Reader → Prop
  /-- A successful append for which the quota deletes nothing. -/
  | append (r : Reader) (payload : Bytes) (w : WAL)
      (hok : r.wal.append payload none = (w, none))
      (hkept : ∀ s ∈ segments r.wal.dir, s ∈ segments w.dir) :
      Step r { r with wal := w, appended := r.appended ++ [payload] }
  /-- A restart: `OpenWAL` on the same directory, possibly with another quota. -/
  | reopen (r : Reader) (maxBytes : Int) :
      Step r { r with wal := openWal r.wal.dir maxBytes }
  | readFrom (r : Reader) (max : Nat) (hmax : 1 ≤ max) :
      Step r { r with
        cursor := (readFrom r.wal.dir r.cursor max).2
        returned := r.returned ++ (readFrom r.wal.dir r.cursor max).1 }

/-- The journal holds what was appended, and the cursor separates what was
returned from what is still to come. -/
structure Reader.Inv (r : Reader) (j : Journal) : Prop where
  stores : r.wal.Stores j
  cursor : Valid j r.cursor
  appended : r.appended = records j
  split : r.appended = r.returned ++ after j r.cursor

theorem Reader.start_inv {dir : Dir} (hdir : segments dir = []) (maxBytes : Int) :
    ∃ j, (Reader.start dir maxBytes).Inv j := by
  obtain ⟨j, hopened, hstores, hactive⟩ := openWal_stores (holds_of_no_segments hdir) maxBytes
  obtain ⟨seg, hseg, -⟩ := List.mem_map.mp hactive
  have hrecords : records j = [] := records_opened hopened
  have hafter : after j 0 = [] := by
    rw [after_start rfl fun s _ => Nat.zero_le s.1, hrecords]
  exact ⟨j, hstores, ⟨Or.inl rfl, seg, hseg, Nat.zero_le _⟩, hrecords.symm, hafter.symm⟩

theorem Reader.step_inv {r r' : Reader} (h : ∃ j, r.Inv j) (step : Reader.Step r r') :
    ∃ j, r'.Inv j := by
  obtain ⟨j, hinv⟩ := h
  cases step with
  | append payload w hok hkept =>
      have hfits : Fits payload := WAL.append_ok.mp (by rw [hok])
      obtain ⟨k, hk, happ⟩ := WAL.append_stores hinv.stores hfits
      rw [hok] at hk
      have hids : ∀ id ∈ j.map Prod.fst, id ∈ k.map Prod.fst := by
        rw [← hinv.stores.holds.ids, ← hk.holds.ids]
        exact hkept
      obtain ⟨init, recs, hopened, rfl⟩ := happ.kept hinv.stores.holds.sorted hids
      obtain ⟨hmid, hafter⟩ := hinv.cursor.opened hopened
      obtain ⟨hcur, hpush⟩ := hmid.push (hopened.sorted hinv.stores.holds.sorted) payload
      refine ⟨_, hk, hcur, ?_, ?_⟩
      · rw [hinv.appended, ← records_opened hopened]
        simp [records]
      · rw [hpush, hafter, ← List.append_assoc, ← hinv.split]
  | reopen maxBytes =>
      obtain ⟨k, hopened, hk, -⟩ := openWal_stores hinv.stores.holds maxBytes
      obtain ⟨hcur, hafter⟩ := hinv.cursor.opened hopened
      refine ⟨k, hk, hcur, ?_, ?_⟩
      · rw [records_opened hopened]
        exact hinv.appended
      · rw [hafter]
        exact hinv.split
  | readFrom max hmax =>
      obtain ⟨hout, hnext, hcur⟩ := hinv.stores.holds.readFrom hinv.cursor hmax
      refine ⟨j, hinv.stores, hcur, hinv.appended, ?_⟩
      rw [hnext, hout, List.append_assoc, List.take_append_drop]
      exact hinv.split

theorem Reader.inv_of_run {dir : Dir} (hdir : segments dir = []) {maxBytes : Int} {r : Reader}
    (run : Reaches Reader.Step (Reader.start dir maxBytes) r) : ∃ j, r.Inv j :=
  invariant (fun r => ∃ j, Reader.Inv r j) (fun _ _ h step => Reader.step_inv h step)
    (Reader.start_inv hdir maxBytes) run

/-- On a fresh directory, whatever the interleaving of
successful appends, restarts and reads, the concatenation of what the reads
returned is a prefix of what was appended, and a read that returns nothing has
been preceded by everything appended so far. -/
theorem fifo_delivery {dir : Dir} (hdir : segments dir = []) {maxBytes : Int} {r : Reader}
    (run : Reaches Reader.Step (Reader.start dir maxBytes) r) :
    r.returned <+: r.appended ∧
      ∀ max, 1 ≤ max → (readFrom r.wal.dir r.cursor max).1 = [] → r.returned = r.appended := by
  obtain ⟨j, hinv⟩ := Reader.inv_of_run hdir run
  refine ⟨⟨after j r.cursor, hinv.split.symm⟩, ?_⟩
  intro max hmax hnothing
  obtain ⟨hout, -, -⟩ := hinv.stores.holds.readFrom hinv.cursor hmax
  have hnil : after j r.cursor = [] := by
    rw [hout, List.take_eq_nil_iff] at hnothing
    exact hnothing.resolve_left (by omega)
  rw [hinv.split, hnil, List.append_nil]

theorem Reader.Step.append_fits {r : Reader} (hready : r.wal.Ready) (hquota : r.wal.maxBytes = 0)
    {payload : Bytes} (hp : Fits payload) :
    Reader.Step r { r with
      wal := (r.wal.append payload none).1
      appended := r.appended ++ [payload] } := by
  have hkept := (WAL.append_keeps hready payload none).2.2 (by rw [hquota])
  exact .append r payload _ (Prod.ext rfl (WAL.append_ok.mpr hp)) hkept

theorem exists_reader_filled {p : Bytes} (hp : p.length = walMaxEntrySize) {m : Nat} (hm : m ≤ 8) :
    ∃ r, Reaches Reader.Step (Reader.start ∅ 0) r ∧ r.wal = (openWal ∅ 0).fill p m ∧
      r.appended.length = m ∧ r.returned = [] := by
  induction m with
  | zero => exact ⟨_, Relation.ReflTransGen.refl, rfl, rfl, rfl⟩
  | succ m ih =>
      obtain ⟨r, hrun, hwal, happended, hreturned⟩ := ih (Nat.le_of_succ_le hm)
      have hfilled := WAL.fill_filled hp 0 (Nat.le_of_succ_le hm)
      rw [← hwal] at hfilled
      have hstep := Reader.Step.append_fits hfilled.ready hfilled.quota (Nat.le_of_eq hp)
      exact ⟨_, hrun.tail hstep, by rw [WAL.fill, ← hwal], by simp [happended], hreturned⟩

theorem exists_reader_rotated :
    ∃ r, Reaches Reader.Step (Reader.start ∅ 0) r ∧ segments r.wal.dir = [0, 1] ∧
      r.appended.length = 9 ∧ r.returned.length = 0 := by
  obtain ⟨p, hp⟩ : ∃ p : Bytes, p.length = walMaxEntrySize :=
    ⟨List.replicate walMaxEntrySize 0, List.length_replicate⟩
  have hseven : Fits [7] := by decide
  obtain ⟨r, hrun, hwal, happended, hreturned⟩ := exists_reader_filled hp (Nat.le_refl 8)
  have hfilled := WAL.fill_filled hp 0 (Nat.le_refl 8)
  rw [← hwal] at hfilled
  refine ⟨_, hrun.tail (.append_fits hfilled.ready hfilled.quota hseven), ?_,
    by simp [happended], by simp [hreturned]⟩
  have hold := (WAL.append_keeps hfilled.ready [7] none).2.2 (by rw [hfilled.quota]) 0
    (by rw [← image_map_fst, hfilled.files, hfilled.active]; exact List.mem_singleton_self _)
  obtain ⟨n, hn, himg⟩ :=
    WAL.append_full hfilled.ready hfilled.sized hfilled.files (WAL.fill_full hp) hseven
  rw [← image_map_fst, himg, hfilled.active] at hold ⊢
  have hcases : n = 0 ∨ n = 1 := by omega
  rcases hcases with rfl | rfl
  · rfl
  · simp at hold

theorem Reader.Inv.length_readFrom {r : Reader} {j : Journal} (h : r.Inv j) {max : Nat}
    (hmax : 1 ≤ max) : (r.returned ++ (readFrom r.wal.dir r.cursor max).1).length =
      min (r.returned.length + max) r.appended.length := by
  have hrest : r.appended.length = r.returned.length + (after j r.cursor).length := by
    rw [h.split, List.length_append]
  rw [List.length_append, (h.stores.holds.readFrom h.cursor hmax).1, List.length_take]
  omega

/-- Nine records in two segments: a read stops inside the first, and after a restart the
next one crosses over to the second. -/
theorem fifo_delivery_two_segments :
    ∃ r t, Reaches Reader.Step (Reader.start ∅ 0) r ∧ segments r.wal.dir = [0, 1] ∧
      r.returned.length = 3 ∧ r.appended.length = 9 ∧ r.returned <+: r.appended ∧
      Reaches Reader.Step r t ∧ t.returned.length = 9 ∧ t.returned = t.appended := by
  have hempty : segments (∅ : Dir) = [] := rfl
  obtain ⟨r, hrun, hsegments, happended, hreturned⟩ := exists_reader_rotated
  obtain ⟨j, hj⟩ := Reader.inv_of_run hempty hrun
  have hrun₁ := hrun.tail (.readFrom r 3 (by decide))
  set r₁ : Reader := { r with
    cursor := (readFrom r.wal.dir r.cursor 3).2
    returned := r.returned ++ (readFrom r.wal.dir r.cursor 3).1 }
  have hthree : r₁.returned.length = 3 := by
    have hread := hj.length_readFrom (show 1 ≤ 3 by decide)
    rwa [happended, hreturned] at hread
  have hreopen := Reader.Step.reopen r₁ 0
  set r₂ : Reader := { r₁ with wal := openWal r₁.wal.dir 0 }
  obtain ⟨j₂, hj₂⟩ := Reader.inv_of_run hempty (hrun₁.tail hreopen)
  have hread₂ := Reader.Step.readFrom r₂ 100 (by decide)
  set t : Reader := { r₂ with
    cursor := (readFrom r₂.wal.dir r₂.cursor 100).2
    returned := r₂.returned ++ (readFrom r₂.wal.dir r₂.cursor 100).1 }
  have hnine : t.returned.length = 9 := by
    have hread := hj₂.length_readFrom (show 1 ≤ 100 by decide)
    rwa [show r₂.appended.length = 9 from happended, show r₂.returned.length = 3 from hthree] at hread
  have hrun₃ := (hrun₁.tail hreopen).tail hread₂
  -- nothing is left, so everything has been returned
  obtain ⟨j₃, hj₃⟩ := Reader.inv_of_run hempty hrun₃
  have hlast := hj₃.length_readFrom (Nat.le_refl 1)
  rw [show t.appended.length = 9 from happended, List.length_append, hnine] at hlast
  have hnothing : (readFrom t.wal.dir t.cursor 1).1 = [] :=
    List.eq_nil_of_length_eq_zero (by omega)
  exact ⟨r₁, t, hrun₁, hsegments, hthree, happended, (fifo_delivery hempty hrun₁).1,
    (Relation.ReflTransGen.single hreopen).tail hread₂, hnine,
    (fifo_delivery hempty hrun₃).2 1 (by decide) hnothing⟩

end TomAgent.Wal
