import TomAgent.Wal.Position

/-!
# A log and its records

What the owner of a log needs to know of it: the records it has, each with its place,
how an append and a restart change them, and what a read returns.  Cursors stand for
positions in this list, and keep them.
-/

namespace TomAgent.Wal

open Segmented Journal

structure WAL.Keeps (w : WAL) (j : Journal) (log : List (WalCursor × Bytes)) : Prop where
  stores : w.Stores j
  places : located j = log

namespace WAL.Keeps

variable {w : WAL} {j : Journal} {log : List (WalCursor × Bytes)}

theorem records_eq (h : w.Keeps j log) : records j = log.map Prod.snd := by
  rw [← located_map_snd, h.places]

theorem length_records (h : w.Keeps j log) : (records j).length = log.length := by
  rw [h.records_eq, List.length_map]

theorem nodup (h : w.Keeps j log) : log.Nodup := by
  have hsorted := located_sorted h.stores.holds.sorted
  rw [h.places] at hsorted
  refine hsorted.imp ?_
  intro a b hab heq
  exact hab (heq ▸ Or.inr ⟨rfl, Nat.le_refl _⟩)

theorem filter_log (h : w.Keeps j log) {cur : WalCursor} {n : Nat} (hcur : Stands j cur n) :
    log.filter (fun e => cur.AtOrBefore e.1) = log.drop n := by
  rw [← h.places]
  exact hcur.located h.stores.holds.sorted

/-- An append that tears nothing and deletes nothing adds its record, if it came so far,
and every cursor keeps its position. -/
theorem append (h : w.Keeps j log) (data : Bytes) {fault : Option AppendFault}
    (hheader : ∀ n, fault ≠ some (.writeHeader n)) (hpayload : ∀ n, fault ≠ some (.writePayload n))
    (hkept : ∀ id ∈ segments w.dir, id ∈ segments (w.append data fault).1.dir) :
    ∃ k, (w.append data fault).1.Keeps k (log ++
        if Recorded (w.append data fault).2 then
          [((w.append data fault).1.lastPlace data, data)] else []) ∧
      ∀ cur n, Stands j cur n → Stands k cur n := by
  obtain ⟨k, hk, hcase⟩ := WAL.append_cases h.stores data hheader hpayload
  generalize w.append data fault = done at hk hcase hkept ⊢
  rcases hcase with ⟨happ, hrecorded⟩ | ⟨hopened, hnot⟩
  · rw [h.stores.holds.ids, hk.holds.ids] at hkept
    obtain ⟨hlocated, hstands⟩ := hk.appended happ h.stores.holds.sorted hkept
    rw [if_pos hrecorded]
    exact ⟨k, ⟨hk, hlocated.trans (by rw [h.places])⟩, hstands⟩
  · have hlocated : located k = located j := hopened.flatMap fun _ => rfl
    rw [if_neg hnot, List.append_nil]
    exact ⟨k, ⟨hk, hlocated.trans h.places⟩, fun _ _ hcur => hcur.opened hopened⟩

theorem reopen (h : w.Keeps j log) (maxBytes : Int) :
    ∃ k, (openWal w.dir maxBytes).Keeps k log ∧ k ≠ [] ∧
      ∀ cur n, Stands j cur n → Stands k cur n := by
  obtain ⟨k, hopened, hk, hactive⟩ := openWal_stores h.stores.holds maxBytes
  have hlocated : located k = located j := hopened.flatMap fun _ => rfl
  refine ⟨k, ⟨hk, hlocated.trans h.places⟩, ?_, fun _ _ hcur => hcur.opened hopened⟩
  rintro rfl
  simp at hactive

theorem start {dir : Dir} (hdir : segments dir = []) (maxBytes : Int) :
    ∃ j, (openWal dir maxBytes).Keeps j [] ∧ j ≠ [] := by
  obtain ⟨j, hopened, hstores, hactive⟩ := openWal_stores (holds_of_no_segments hdir) maxBytes
  have hplaces : located j = [] := hopened.flatMap fun _ => rfl
  refine ⟨j, ⟨hstores, hplaces⟩, ?_⟩
  rintro rfl
  simp at hactive

theorem readFrom (h : w.Keeps j log) {cur : WalCursor} {n : Nat} (hcur : Stands j cur n)
    {max : Nat} (hmax : 1 ≤ max) :
    (Wal.readFrom w.dir cur max).1 = ((log.drop n).take max).map Prod.snd ∧
      Stands j (Wal.readFrom w.dir cur max).2 (n + (Wal.readFrom w.dir cur max).1.length) := by
  obtain ⟨hout, hnext⟩ := hcur.readFrom h.stores.holds hmax
  refine ⟨?_, hnext⟩
  rw [hout, h.records_eq, List.map_take, List.map_drop]

/-- After a restart everything at or after a cursor is read again. -/
theorem reread (h : w.Keeps j log) {cur : WalCursor} {n : Nat} (hcur : Stands j cur n)
    {e : WalCursor × Bytes} (he : e ∈ log.drop n) {maxBytes : Int} {out : List Bytes}
    (hout : Drains (openWal w.dir maxBytes).dir cur out) : e.2 ∈ out := by
  obtain ⟨k, hk, -, hstands⟩ := h.reopen maxBytes
  have hcur' := hstands cur n hcur
  rw [hout.eq_remaining hk.stores.holds.canonical, hk.stores.holds.remaining_eq hcur'.valid,
    hcur'.after hk.stores.holds.sorted, hk.records_eq, ← List.map_drop]
  exact List.mem_map_of_mem he

end WAL.Keeps

end TomAgent.Wal
