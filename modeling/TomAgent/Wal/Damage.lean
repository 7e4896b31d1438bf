import TomAgent.Wal.Writer

/-!
# A damaged segment

`ReadFrom` gives up on a segment at the first entry it cannot accept and goes on
with the next one.  Draining is a sequence of calls, each with the cursor of the
call before it and a batch size of its own; on any schedule of sizes it ends, and
a segment with arbitrary bytes costs no record of another one.
-/

namespace TomAgent.Wal

open Journal

/-! ## Draining on a schedule -/

/-- The cursor of call `i`, where call `i` asks for `sizes i` records. -/
def callCursor (dir : Dir) (sizes : Nat → Nat) : Nat → WalCursor
  | 0 => 0
  | i + 1 => (readFrom dir (callCursor dir sizes i) (sizes i)).2

def callBatch (dir : Dir) (sizes : Nat → Nat) (i : Nat) : List Bytes :=
  (readFrom dir (callCursor dir sizes i) (sizes i)).1

/-- Call number `calls` is the first that returns nothing, and `out` is what the
calls before it returned. -/
structure DrainedBy (dir : Dir) (sizes : Nat → Nat) (calls : Nat) (out : List Bytes) : Prop where
  earlier : ∀ i < calls, callBatch dir sizes i ≠ []
  last : callBatch dir sizes calls = []
  returned : (List.range calls).flatMap (callBatch dir sizes) = out

def asked (sizes : Nat → Nat) : Nat → Nat
  | 0 => 0
  | i + 1 => asked sizes i + sizes i

section Schedule

variable {dir : Dir} {sizes : Nat → Nat}

theorem le_asked (hsizes : ∀ i, 1 ≤ sizes i) (calls : Nat) : calls ≤ asked sizes calls := by
  induction calls with
  | zero => exact Nat.zero_le _
  | succ i ih =>
      have hsize := hsizes i
      rw [asked]
      omega

theorem remaining_callCursor (hdir : Canonical dir) (hsizes : ∀ i, 1 ≤ sizes i) (calls : Nat) :
    remaining dir (callCursor dir sizes calls) = (remaining dir 0).drop (asked sizes calls) := by
  induction calls with
  | zero => simp [callCursor, asked]
  | succ i ih =>
      rw [callCursor, (readFrom_spec hdir _ (hsizes i)).2, ih, List.drop_drop, asked]

theorem callBatch_eq (hdir : Canonical dir) (hsizes : ∀ i, 1 ≤ sizes i) (i : Nat) :
    callBatch dir sizes i = ((remaining dir 0).drop (asked sizes i)).take (sizes i) := by
  rw [callBatch, (readFrom_spec hdir _ (hsizes i)).1, remaining_callCursor hdir hsizes]

theorem callBatch_eq_nil (hdir : Canonical dir) (hsizes : ∀ i, 1 ≤ sizes i) (i : Nat) :
    callBatch dir sizes i = [] ↔ (remaining dir 0).length ≤ asked sizes i := by
  have hsize : sizes i ≠ 0 := by
    have hone := hsizes i
    omega
  rw [callBatch_eq hdir hsizes, List.take_eq_nil_iff, or_iff_right hsize, List.drop_eq_nil_iff]

theorem flatMap_callBatch (hdir : Canonical dir) (hsizes : ∀ i, 1 ≤ sizes i) (calls : Nat) :
    (List.range calls).flatMap (callBatch dir sizes) =
      (remaining dir 0).take (asked sizes calls) := by
  induction calls with
  | zero => simp [asked]
  | succ i ih =>
      rw [List.range_succ, List.flatMap_append, ih, List.flatMap_singleton,
        callBatch_eq hdir hsizes, asked, List.take_add]

/-- Every schedule drains the directory, with at most one call for every record. -/
theorem exists_drainedBy (hdir : Canonical dir) (hsizes : ∀ i, 1 ≤ sizes i) :
    ∃ calls, calls ≤ (remaining dir 0).length ∧
      DrainedBy dir sizes calls (remaining dir 0) := by
  have hends : ∃ calls, (remaining dir 0).length ≤ asked sizes calls :=
    ⟨_, le_asked hsizes (remaining dir 0).length⟩
  refine ⟨Nat.find hends, Nat.find_min' hends (le_asked hsizes _), ?_, ?_, ?_⟩
  · intro i hi hnil
    exact Nat.find_min hends hi ((callBatch_eq_nil hdir hsizes i).mp hnil)
  · exact (callBatch_eq_nil hdir hsizes _).mpr (Nat.find_spec hends)
  · rw [flatMap_callBatch hdir hsizes, List.take_of_length_le (Nat.find_spec hends)]

end Schedule

/-! ## Well-formed segments around a damaged one -/

theorem tagged_encoded {j : Journal} (h : ∀ seg ∈ j, ∀ p ∈ seg.2, Fits p) :
    (tagged (encoded j)).map Prod.snd = records j := by
  induction j with
  | nil => rfl
  | cons seg rest ih =>
      have hrest := ih fun s hs => h s (List.mem_cons_of_mem seg hs)
      have hseg := entries_encodeAll (h seg List.mem_cons_self)
      have hsplit : encoded (seg :: rest) = [(seg.1, encodeAll seg.2)] ++ encoded rest := rfl
      rw [hsplit, tagged_append, tagged_singleton, List.map_append, hrest, hseg]
      simp [records, Function.comp_def]

/-- One segment holds arbitrary bytes, the others hold well-formed records.  Draining from the
zero cursor ends, with any batch sizes, and returns the records of the older segments, what the
reader makes of the damaged bytes, and the records of the newer segments, in this order. -/
theorem corruption_isolated {dir : Dir} (hdir : Canonical dir) {older newer : Journal} {id : Nat}
    {damaged : Bytes} (himage : image dir = encoded older ++ (id, damaged) :: encoded newer)
    (holder : ∀ seg ∈ older, ∀ p ∈ seg.2, Fits p) (hnewer : ∀ seg ∈ newer, ∀ p ∈ seg.2, Fits p)
    {sizes : Nat → Nat} (hsizes : ∀ i, 1 ≤ sizes i) :
    ∃ calls, DrainedBy dir sizes calls (records older ++ entries damaged ++ records newer) := by
  obtain ⟨calls, -, hdrained⟩ := exists_drainedBy hdir hsizes
  refine ⟨calls, ?_⟩
  have hsplit : image dir = encoded older ++ [(id, damaged)] ++ encoded newer := by
    rw [himage, List.append_assoc, List.singleton_append]
  have hall : remaining dir 0 = records older ++ entries damaged ++ records newer := by
    rw [remaining_zero, hsplit, tagged_append, tagged_append, List.map_append, List.map_append,
      tagged_encoded holder, tagged_encoded hnewer, tagged_singleton]
    simp [Function.comp_def]
  rw [← hall]
  exact hdrained

/-- A cut header in the middle of three segments, read one record at a time. -/
theorem corruption_isolated_middle :
    let dir := (((∅ : Dir).insert (segName 0) (encodeAll [[1]])).insert (segName 1)
      [0, 0, 0, 1, 9]).insert (segName 2) (encodeAll [[2], [3]])
    ∃ calls, DrainedBy dir (fun _ => 1) calls ([[1]] ++ entries [0, 0, 0, 1, 9] ++ [[2], [3]]) := by
  intro dir
  have hdir : Canonical dir :=
    canonical_insert (canonical_insert (canonical_insert (canonical_of_no_segments rfl) 0 _) 1 _) 2 _
  exact @corruption_isolated dir hdir [(0, [[1]])] [(2, [[2], [3]])] 1 [0, 0, 0, 1, 9]
    (by decide +kernel) (by decide) (by decide) (fun _ => 1) (fun _ => Nat.le_refl 1)

end TomAgent.Wal
