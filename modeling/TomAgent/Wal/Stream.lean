import TomAgent.Wal.Entries
import TomAgent.Wal.Log

/-!
# The stream a cursor stands for

`remaining dir cur` lists everything `ReadFrom` can still return from `cur`, as
the code walks the directory: the first surviving segment at or after the
cursor's is read from the cursor's offset, whichever segment that is, and the
later ones from their start.  One call returns the first `max` elements and a
cursor for the others, on any directory contents.
-/

namespace TomAgent.Wal

def entriesOf (dir : Dir) (ids : List Nat) : List Bytes :=
  ids.flatMap fun s => entries (content dir s)

def pending (dir : Dir) : List Nat → WalCursor → List Bytes
  | [], _ => []
  | s :: rest, cur =>
      if s < cur.segment then pending dir rest cur
      else entries ((content dir s).drop cur.offset) ++ entriesOf dir rest

/-- `ReadFrom` starts over when the cursor lies beyond the newest segment. -/
def restart (dir : Dir) (cur : WalCursor) : WalCursor :=
  match (segments dir).getLast? with
  | none => cur
  | some last => if last < cur.segment then 0 else cur

def remaining (dir : Dir) (cur : WalCursor) : List Bytes :=
  pending dir (segments dir) (restart dir cur)

@[simp] theorem entriesOf_nil (dir : Dir) : entriesOf dir [] = [] := rfl

@[simp] theorem entriesOf_cons (dir : Dir) (s : Nat) (rest : List Nat) :
    entriesOf dir (s :: rest) = entries (content dir s) ++ entriesOf dir rest := by
  simp [entriesOf]

theorem pending_append_of_lt {dir : Dir} {before ids : List Nat} {cur : WalCursor}
    (h : ∀ s ∈ before, s < cur.segment) : pending dir (before ++ ids) cur = pending dir ids cur := by
  induction before with
  | nil => rfl
  | cons s rest ih =>
      have hs := h s List.mem_cons_self
      simp only [List.cons_append, pending, if_pos hs]
      exact ih fun t ht => h t (List.mem_cons_of_mem s ht)

theorem pending_start {dir : Dir} {ids : List Nat} {segment : Nat}
    (h : ∀ s ∈ ids, segment ≤ s) : pending dir ids ⟨segment, 0⟩ = entriesOf dir ids := by
  cases ids with
  | nil => rfl
  | cons s rest =>
      have hs := Nat.not_lt.mpr (h s List.mem_cons_self)
      simp [pending, hs]

/-! ## One call -/

/-- One segment of the loop: the batch, and where the rest of the segment is found. -/
theorem readSegment_content (dir : Dir) (s offset max : Nat) :
    let batch := readSegment (dir.lookup (segName s)) offset max
    batch.1 = (entries ((content dir s).drop offset)).take max ∧
      entries ((content dir s).drop batch.2.1) =
        (entries ((content dir s).drop offset)).drop max :=
  ⟨readSegment_fst _ _ _, readSegment_next _ _ _⟩

/-- What the loop is to return with the segments `before` behind it and `ids` ahead:
the next pending entries, and a cursor for the others. -/
structure Reads (dir : Dir) (last max : Nat) (before ids : List Nat) (out : List Bytes)
    (cur : WalCursor) (r : List Bytes × WalCursor) : Prop where
  batch : r.1 = out ++ (pending dir ids cur).take (max - out.length)
  rest : pending dir (before ++ ids) r.2 = (pending dir ids cur).drop (max - out.length)
  segment : r.2.segment ≤ last

section Turn

variable {dir : Dir} {last max s : Nat} {before rest : List Nat} {out : List Bytes}
  {cur : WalCursor} {r : List Bytes × WalCursor}

theorem Reads.skip (hskip : s < cur.segment)
    (h : Reads dir last max (before ++ [s]) rest out cur r) :
    Reads dir last max before (s :: rest) out cur r := by
  have hpend : pending dir (s :: rest) cur = pending dir rest cur := by
    simp [pending, hskip]
  have hsplit : before ++ s :: rest = before ++ [s] ++ rest := by simp
  refine ⟨?_, ?_, h.segment⟩
  · rw [hpend]
    exact h.batch
  · rw [hpend, hsplit]
    exact h.rest

theorem reads_filled {batch : List Bytes} {next : Nat} (hskip : ¬ s < cur.segment)
    (hbefore : ∀ t ∈ before, t < s) (hs : s ≤ last)
    (hbatch : batch = (entries ((content dir s).drop cur.offset)).take (max - out.length))
    (hnext : entries ((content dir s).drop next) =
      (entries ((content dir s).drop cur.offset)).drop (max - out.length))
    (hfull : max - out.length ≤ (entries ((content dir s).drop cur.offset)).length) :
    Reads dir last max before (s :: rest) out cur (out ++ batch, ⟨s, next⟩) := by
  have hpend : pending dir (s :: rest) cur =
      entries ((content dir s).drop cur.offset) ++ entriesOf dir rest := by
    simp [pending, hskip]
  have hrest : pending dir (before ++ s :: rest) ⟨s, next⟩ =
      entries ((content dir s).drop next) ++ entriesOf dir rest := by
    rw [pending_append_of_lt hbefore]
    simp [pending]
  refine ⟨?_, ?_, hs⟩
  · rw [hbatch, hpend, List.take_append_of_le_length hfull]
  · rw [hrest, hpend, hnext, List.drop_append_of_le_length hfull]

/-- The segment is exhausted and there is a newer one to go on with. -/
theorem Reads.next {E : List Bytes} (hskip : ¬ s < cur.segment)
    (hE : entries ((content dir s).drop cur.offset) = E) (hrest : ∀ t ∈ rest, s < t)
    (hshort : E.length ≤ max - out.length)
    (h : Reads dir last max (before ++ [s]) rest (out ++ E) ⟨s + 1, 0⟩ r) :
    Reads dir last max before (s :: rest) out cur r := by
  have hpend : pending dir (s :: rest) cur = E ++ entriesOf dir rest := by
    simp [pending, hskip, hE]
  have hstart : pending dir rest ⟨s + 1, 0⟩ = entriesOf dir rest :=
    pending_start fun t ht => hrest t ht
  have hcount : max - (out ++ E).length = max - out.length - E.length := by
    rw [List.length_append]
    omega
  have hbatch := h.batch
  have hleft := h.rest
  rw [hstart, hcount] at hbatch hleft
  have hsplit : before ++ s :: rest = before ++ [s] ++ rest := by simp
  refine ⟨?_, ?_, h.segment⟩
  · rw [hbatch, hpend, List.append_assoc, List.take_append, List.take_of_length_le hshort]
  · rw [hsplit, hleft, hpend, List.drop_append, List.drop_of_length_le hshort, List.nil_append]

/-- The newest segment is exhausted: the cursor waits at its end, or stays where it
was if there was nothing to read. -/
theorem reads_newest {E : List Bytes} {next : Nat} (hskip : ¬ s < cur.segment)
    (hE : entries ((content dir s).drop cur.offset) = E)
    (hbefore : ∀ t ∈ before, t < cur.segment) (hs : s ≤ last) (hcur : cur.segment ≤ last)
    (hshort : E.length ≤ max - out.length)
    (hend : entries ((content dir s).drop next) = []) (hpos : E ≠ [] → 0 < next) :
    Reads dir last max before [s] out cur
      (out ++ E, if 0 < next then ⟨s, next⟩ else cur) := by
  have hpend : pending dir [s] cur = E := by
    simp [pending, hskip, hE]
  refine ⟨?_, ?_, ?_⟩
  · rw [hpend, List.take_of_length_le hshort]
  · rw [hpend, List.drop_of_length_le hshort]
    by_cases hzero : 0 < next
    · have hbefore' : ∀ t ∈ before, t < (⟨s, next⟩ : WalCursor).segment := by
        intro t ht
        have hlt := hbefore t ht
        dsimp only
        omega
      rw [if_pos hzero, pending_append_of_lt hbefore']
      simp [pending, hend]
    · have hempty : E = [] := by
        by_contra hne
        exact hzero (hpos hne)
      rw [if_neg hzero, pending_append_of_lt hbefore, hpend, hempty]
  · dsimp only
    split
    · exact hs
    · exact hcur

end Turn

/-- The loop walks along the pending entries. -/
theorem readFromLoop_spec {dir : Dir} {last max : Nat} {before ids : List Nat}
    {out : List Bytes} {cur : WalCursor}
    (hsorted : (before ++ ids).Pairwise (· < ·)) (hlast : ∀ s ∈ ids, s ≤ last)
    (hend : ids ≠ [] → last ∈ ids) (hbefore : ∀ s ∈ before, s < cur.segment)
    (hcur : cur.segment ≤ last) (hout : out.length < max) :
    Reads dir last max before ids out cur (readFromLoop dir last max ids out cur) := by
  induction ids generalizing before out cur with
  | nil =>
      have hnone : pending dir (before ++ []) cur = [] := pending_append_of_lt hbefore
      refine ⟨by simp [readFromLoop, pending], ?_, hcur⟩
      simpa [readFromLoop, pending] using hnone
  | cons s rest ih =>
      have hsorted' : ((before ++ [s]) ++ rest).Pairwise (· < ·) := by simpa using hsorted
      have hrest : ∀ t ∈ rest, s < t := by
        have htail := (List.pairwise_append.mp hsorted).2.1
        exact (List.pairwise_cons.mp htail).1
      have hlast' : ∀ t ∈ rest, t ≤ last := fun t ht => hlast t (List.mem_cons_of_mem s ht)
      have hs : s ≤ last := hlast s List.mem_cons_self
      have hend' : s < last → rest ≠ [] → last ∈ rest := by
        intro hlt _
        rcases List.mem_cons.mp (hend (List.cons_ne_nil s rest)) with heq | h
        · omega
        · exact h
      by_cases hskip : s < cur.segment
      · have hpassed : ∀ t ∈ before ++ [s], t < cur.segment := by
          simpa [or_imp, forall_and] using ⟨hbefore, hskip⟩
        have hloop : readFromLoop dir last max (s :: rest) out cur =
            readFromLoop dir last max rest out cur := by
          simp [readFromLoop, hskip]
        rw [hloop]
        exact (ih hsorted' hlast' (hend' (by omega)) hpassed hcur hout).skip hskip
      · obtain ⟨hbatch, hnext⟩ := readSegment_content dir s cur.offset (max - out.length)
        have hpos := @readSegment_next_pos (dir.lookup (segName s)) cur.offset (max - out.length)
        simp only [readFromLoop, hskip, false_or, Nat.not_le.mpr hout, if_false]
        generalize readSegment (dir.lookup (segName s)) cur.offset (max - out.length) = batch
          at hbatch hnext hpos ⊢
        by_cases hfull : max - out.length ≤ (entries ((content dir s).drop cur.offset)).length
        · have hlen : max ≤ (out ++ batch.1).length := by
            rw [hbatch, List.length_append, List.length_take]
            omega
          have hne : batch.1 ≠ [] := by
            intro h
            rw [h, List.append_nil] at hlen
            omega
          have hbefore' : ∀ t ∈ before, t < s := by
            intro t ht
            have hlt := hbefore t ht
            omega
          rw [if_pos hlen, if_pos (hpos hne)]
          exact reads_filled hskip hbefore' hs hbatch hnext hfull
        · have htake : batch.1 = entries ((content dir s).drop cur.offset) := by
            rw [hbatch, List.take_of_length_le (by omega)]
          have hlen : ¬ max ≤ (out ++ batch.1).length := by
            rw [htake, List.length_append]
            omega
          rw [if_neg hlen]
          by_cases hnewest : s < last
          · have hpassed : ∀ t ∈ before ++ [s], t < (⟨s + 1, 0⟩ : WalCursor).segment := by
              intro t ht
              rcases List.mem_append.mp ht with h | h
              · have hlt := hbefore t h
                dsimp only
                omega
              · rw [List.mem_singleton] at h
                dsimp only
                omega
            rw [if_pos hnewest]
            refine Reads.next hskip htake.symm hrest (by rw [htake]; omega) ?_
            exact ih hsorted' hlast' (hend' hnewest) hpassed (show s + 1 ≤ last by omega)
              (Nat.lt_of_not_le hlen)
          · have hrest0 : rest = [] := by
              cases rest with
              | nil => rfl
              | cons t rest =>
                  have h1 := hrest t List.mem_cons_self
                  have h2 := hlast' t List.mem_cons_self
                  omega
            subst hrest0
            rw [if_neg hnewest]
            refine reads_newest hskip htake.symm hbefore hs hcur (by rw [htake]; omega) ?_ hpos
            rw [hnext, List.drop_of_length_le (by omega)]

theorem restart_of_le {dir : Dir} {last : Nat} (hlast : (segments dir).getLast? = some last)
    {cur : WalCursor} (h : cur.segment ≤ last) : restart dir cur = cur := by
  rw [restart, hlast]
  exact if_neg (by omega)

theorem restart_segment_le {dir : Dir} {last : Nat}
    (hlast : (segments dir).getLast? = some last) (cur : WalCursor) :
    (restart dir cur).segment ≤ last := by
  simp only [restart, hlast]
  split
  · exact Nat.zero_le last
  · omega

theorem readFrom_loop {dir : Dir} (hdir : Canonical dir) {last : Nat}
    (hlast : (segments dir).getLast? = some last) (cur : WalCursor) {max : Nat} (hmax : 1 ≤ max) :
    (readFrom dir cur max).1 = (remaining dir cur).take max ∧
      pending dir (segments dir) (readFrom dir cur max).2 = (remaining dir cur).drop max ∧
      (readFrom dir cur max).2.segment ≤ last := by
  have hmem : last ∈ segments dir := List.mem_of_getLast? hlast
  have hread : readFrom dir cur max =
      readFromLoop dir last max (segments dir) [] (restart dir cur) := by
    simp [readFrom, restart, hlast]
  have spec := @readFromLoop_spec dir last max [] (segments dir) [] (restart dir cur)
    (segments_pairwise_lt hdir) (segments_le_last hdir hlast) (fun _ => hmem) (by simp)
    (restart_segment_le hlast cur) hmax
  rw [hread]
  exact ⟨by simpa [remaining] using spec.batch, by simpa [remaining] using spec.rest, spec.segment⟩

/-- `ReadFrom` returns the first `max` entries of the stream its cursor stands for, and a cursor
that stands for the others. -/
theorem readFrom_spec {dir : Dir} (hdir : Canonical dir) (cur : WalCursor) {max : Nat}
    (hmax : 1 ≤ max) :
    (readFrom dir cur max).1 = (remaining dir cur).take max ∧
      remaining dir (readFrom dir cur max).2 = (remaining dir cur).drop max := by
  cases hlast : (segments dir).getLast? with
  | none =>
      have hnil : segments dir = [] := List.getLast?_eq_none_iff.mp hlast
      simp [readFrom, remaining, pending, hnil]
  | some last =>
      obtain ⟨hout, hnext, hle⟩ := readFrom_loop hdir hlast cur hmax
      refine ⟨hout, ?_⟩
      rw [← hnext, remaining, restart_of_le hlast hle]

end TomAgent.Wal
