import TomAgent.Wal.History
import TomAgent.Wal.Writer

/-!
# Cursors as positions

Records are located in the order in which they were appended, so a cursor that
the reader may hold stands for a number: how many records lie before it.  That
number does not change while the log grows.
-/

namespace TomAgent.Wal

open Segmented Journal

/-! ## Order of the locations -/

theorem locatedIn_sorted (segment offset : Nat) (recs : List Bytes) :
    (locatedIn segment offset recs).Pairwise fun a b => ¬ b.1.AtOrBefore a.1 := by
  induction recs generalizing offset with
  | nil => exact List.Pairwise.nil
  | cons r rest ih =>
      refine List.pairwise_cons.mpr ⟨?_, ih _⟩
      intro e he
      obtain ⟨hseg, hlow, -⟩ := mem_locatedIn he
      simp only [WalCursor.AtOrBefore, walHeaderSize] at hlow ⊢
      omega

theorem Journal.located_sorted {j : Journal} (h : (j.map Prod.fst).Pairwise (· < ·)) :
    (located j).Pairwise fun a b => ¬ b.1.AtOrBefore a.1 := by
  refine List.pairwise_flatMap.mpr ⟨fun seg _ => locatedIn_sorted seg.1 0 seg.2, ?_⟩
  refine (List.pairwise_map.mp h).imp ?_
  intro s t hlt x hx y hy
  have hfirst := (mem_locatedIn hx).1
  have hsecond := (mem_locatedIn hy).1
  simp only [WalCursor.AtOrBefore, hfirst, hsecond]
  omega

theorem WalCursor.AtOrBefore.trans {a b c : WalCursor} (hab : a.AtOrBefore b)
    (hbc : ¬ c.AtOrBefore b) : a.AtOrBefore c := by
  simp only [AtOrBefore] at hab hbc ⊢
  omega

theorem filter_eq_drop {α : Type} {p : α → Bool} {xs : List α} {n : Nat}
    (h : xs.Pairwise fun a b => p a = true → p b = true)
    (hn : n + (xs.filter p).length = xs.length) : xs.filter p = xs.drop n := by
  induction xs generalizing n with
  | nil => simp
  | cons x xs ih =>
      obtain ⟨hx, hxs⟩ := List.pairwise_cons.mp h
      by_cases hp : p x = true
      · have hall : (x :: xs).filter p = x :: xs := by
          rw [List.filter_eq_self]
          intro y hy
          rcases List.mem_cons.mp hy with rfl | hy
          · exact hp
          · exact hx y hy hp
        have hzero : n = 0 := by
          rw [hall] at hn
          omega
        rw [hall, hzero, List.drop_zero]
      · rw [List.filter_cons_of_neg hp] at hn ⊢
        have hle := List.length_filter_le p xs
        rw [List.length_cons] at hn
        obtain ⟨m, rfl⟩ : ∃ m, n = m + 1 := ⟨n - 1, by omega⟩
        rw [List.drop_succ_cons]
        exact ih hxs (by omega)

/-! ## Positions -/

/-- The cursor is valid and `n` records lie before it. -/
structure Stands (j : Journal) (cur : WalCursor) (n : Nat) : Prop where
  valid : Valid j cur
  count : n + (after j cur).length = (records j).length

theorem length_located (j : Journal) : (located j).length = (records j).length := by
  rw [← located_map_snd, List.length_map]

theorem Stands.le {j : Journal} {cur : WalCursor} {n : Nat} (h : Stands j cur n) :
    n ≤ (records j).length := by
  have := h.count
  omega

theorem Stands.located {j : Journal} {cur : WalCursor} {n : Nat} (h : Stands j cur n)
    (hsorted : (j.map Prod.fst).Pairwise (· < ·)) :
    (located j).filter (fun e => cur.AtOrBefore e.1) = (located j).drop n := by
  refine filter_eq_drop ((located_sorted hsorted).imp ?_) ?_
  · intro a b hab ha
    exact decide_eq_true ((of_decide_eq_true ha).trans hab)
  · have hcount := h.count
    rwa [after, List.length_map, ← length_located] at hcount

theorem Stands.after {j : Journal} {cur : WalCursor} {n : Nat} (h : Stands j cur n)
    (hsorted : (j.map Prod.fst).Pairwise (· < ·)) : after j cur = (records j).drop n := by
  rw [Journal.after, h.located hsorted, List.map_drop, located_map_snd]

theorem stands_zero {j : Journal} (h : j ≠ []) : Stands j 0 0 := by
  obtain ⟨seg, rest, rfl⟩ := List.exists_cons_of_ne_nil h
  refine ⟨⟨Or.inl rfl, seg, List.mem_cons_self, Nat.zero_le _⟩, ?_⟩
  rw [after_start rfl fun s _ => Nat.zero_le s.1, Nat.zero_add]

theorem Stands.opened {j k : Journal} {cur : WalCursor} {n : Nat} (hopened : Opened j k)
    (h : Stands j cur n) : Stands k cur n := by
  obtain ⟨hvalid, hafter⟩ := h.valid.opened hopened
  refine ⟨hvalid, ?_⟩
  rw [hafter, records_opened hopened]
  exact h.count

theorem Stands.push {init : Journal} {id : Nat} {recs : List Bytes} {cur : WalCursor} {n : Nat}
    (hsorted : ((init ++ [(id, recs)]).map Prod.fst).Pairwise (· < ·))
    (h : Stands (init ++ [(id, recs)]) cur n) (p : Bytes) :
    Stands (init ++ [(id, recs ++ [p])]) cur n := by
  obtain ⟨hvalid, hafter⟩ := h.valid.push hsorted p
  have hcount := h.count
  refine ⟨hvalid, ?_⟩
  rw [hafter]
  simp [records] at hcount ⊢
  omega

/-- A read moves the position behind the records it returns. -/
theorem Stands.readFrom {dir : Dir} {j : Journal} {cur : WalCursor} {n : Nat}
    (h : Stands j cur n) (hdir : Holds dir j) {max : Nat} (hmax : 1 ≤ max) :
    (readFrom dir cur max).1 = ((records j).drop n).take max ∧
      Stands j (readFrom dir cur max).2 (n + (readFrom dir cur max).1.length) := by
  obtain ⟨hout, hnext, hvalid⟩ := hdir.readFrom h.valid hmax
  have hcount := h.count
  refine ⟨by rw [hout, h.after hdir.sorted], hvalid, ?_⟩
  rw [hnext, hout, List.length_take, List.length_drop]
  omega

theorem readFrom_none (dir : Dir) (cur : WalCursor) : (readFrom dir cur 0).1 = [] := by
  have hloop : ∀ last segs cur, (readFromLoop dir last 0 segs [] cur).1 = [] := by
    intro last segs
    induction segs with
    | nil => exact fun _ => rfl
    | cons s rest ih =>
        intro cur
        rw [readFromLoop, if_pos (Or.inr (Nat.zero_le _))]
        exact ih cur
  unfold readFrom
  split
  · rfl
  · exact hloop _ _ _

/-! ## Appending -/

/-- A record that reaches the file without any segment being removed gets the next
location, and every cursor keeps its position. -/
theorem WAL.Stores.appended {w : WAL} {j k : Journal} {p : Bytes} (h : w.Stores k)
    (happ : Appended j w.activeSeg [p] k) (hsorted : (j.map Prod.fst).Pairwise (· < ·))
    (hkept : ∀ id ∈ j.map Prod.fst, id ∈ k.map Prod.fst) :
    located k = located j ++ [(w.lastPlace p, p)] ∧
      ∀ cur n, Stands j cur n → Stands k cur n := by
  obtain ⟨init, recs, hopened, rfl⟩ := happ.kept hsorted hkept
  have hplace : w.lastPlace p = ⟨w.activeSeg, (encodeAll recs).length⟩ :=
    WAL.lastPlace_eq (h.holds.bytes (w.activeSeg, recs ++ [p]) (by simp))
  constructor
  · have hbefore : located (init ++ [(w.activeSeg, recs)]) = located j :=
      hopened.flatMap fun _ => rfl
    rw [← hbefore, hplace]
    simp [located, locatedIn_append, locatedIn]
  · intro cur n hcur
    exact (hcur.opened hopened).push (hopened.sorted hsorted) p

end TomAgent.Wal
