import TomAgent.Wal.History

/-!
# What a failed append leaves behind

`Append` can fail at six places.  It leaves the file as it is at that moment: a
write that stopped half way leaves torn bytes, and an error of `Sync` or of the
quota leaves the whole record.
-/

namespace TomAgent.Wal

open Segmented

/-! ## Where an append stops -/

/-- How much of the record is in the file when one of the two writes stops. -/
def AppendFault.stops : AppendFault → Option Nat
  | .writeHeader written => some (min written walHeaderSize)
  | .writePayload written => some (walHeaderSize + written)
  | .openActive _ | .sync | .readDir | .remove _ => none

theorem AppendFault.stops_pos {f : AppendFault} {m : Nat} (h : f.stops = some m)
    (hne : f ≠ .writeHeader 0) : 0 < m := by
  cases f with
  | writeHeader written =>
      cases h
      have hpos : written ≠ 0 := fun hzero => hne (hzero ▸ rfl)
      simp only [walHeaderSize]
      omega
  | writePayload written =>
      cases h
      simp only [walHeaderSize]
      omega
  | openActive created => cases h
  | sync => cases h
  | readDir => cases h
  | remove removed => cases h

namespace WAL

theorem writeRecord_stops (w : WAL) (p : Bytes) {f : AppendFault} {m : Nat}
    (h : f.stops = some m) :
    w.writeRecord p (some f) = (w.write ((encodeRecord p).take m), some .write) := by
  cases f with
  | writeHeader written =>
      cases h
      have hcut : (encodeRecord p).take (min written walHeaderSize) = (header p).take written := by
        rw [← List.take_take, encodeRecord, List.take_left' (header_length p)]
      rw [hcut]
      rfl
  | writePayload written =>
      cases h
      have hcut : (encodeRecord p).take (walHeaderSize + written) = header p ++ p.take written := by
        rw [encodeRecord, ← header_length p, List.take_length_add_append]
      rw [hcut]
      rfl
  | openActive created => cases h
  | sync => cases h
  | readDir => cases h
  | remove removed => cases h

theorem rotate_error_iff {w : WAL} {fault : Option AppendFault} :
    (w.rotate fault).2 ≠ none ↔
      walSegmentMaxBytes ≤ w.activeLen ∧ ∃ created, fault = some (.openActive created) := by
  by_cases hfull : walSegmentMaxBytes ≤ w.activeLen
  · rw [rotate, if_pos hfull]
    split
    next created => simp [hfull]
    next hother => simpa [hfull] using hother
  · simp [rotate, hfull]

theorem rotate_ok {w : WAL} {fault : Option AppendFault}
    (h : ∀ created, fault ≠ some (.openActive created)) : (w.rotate fault).2 = none := by
  by_contra herr
  obtain ⟨-, created, heq⟩ := rotate_error_iff.mp herr
  exact h created heq

theorem rotate_eq {w : WAL} {fault : Option AppendFault} (h : (w.rotate fault).2 = none) :
    w.rotate fault = w.rotate none := by
  by_cases hfull : walSegmentMaxBytes ≤ w.activeLen
  · rw [rotate, if_pos hfull] at h ⊢
    rw [rotate, if_pos hfull]
    split at h
    next => cases h
    next => rfl
  · rw [rotate, rotate, if_neg hfull, if_neg hfull]

theorem append_eq_writeRecord {w : WAL} {p : Bytes} {fault : Option AppendFault} (hp : Fits p)
    (hrotate : (w.rotate fault).2 = none) :
    w.append p fault = (w.rotate none).1.writeRecord p fault := by
  have hsize : ¬ walMaxEntrySize < p.length := Nat.not_lt.mpr hp
  have hnone := rotate_none w
  rw [append, if_neg hsize, rotate_eq hrotate]
  generalize w.rotate none = rotated at hnone ⊢
  obtain ⟨rotated, err⟩ := rotated
  cases hnone
  rfl

theorem append_stops {w : WAL} {p : Bytes} (hp : Fits p) {f : AppendFault} {m : Nat}
    (h : f.stops = some m) :
    w.append p (some f) =
      ((w.rotate none).1.write ((encodeRecord p).take m), some .write) := by
  have hrotate : (w.rotate (some f)).2 = none := by
    apply rotate_ok
    intro created heq
    cases heq
    cases h
  rw [append_eq_writeRecord hp hrotate, writeRecord_stops _ p h]

def WritesNothing (w : WAL) (p : Bytes) (fault : Option AppendFault) : Prop :=
  ¬ Fits p ∨
    (walSegmentMaxBytes ≤ w.activeLen ∧ ∃ created, fault = some (.openActive created)) ∨
    fault = some (.writeHeader 0)

instance (w : WAL) (p : Bytes) (fault : Option AppendFault) : Decidable (w.WritesNothing p fault) := by
  unfold WritesNothing
  infer_instance

theorem WritesNothing.opened {w : WAL} {p : Bytes} {fault : Option AppendFault}
    (h : w.WritesNothing p fault) (hready : w.Ready) :
    (w.append p fault).1.Ready ∧ Opened (image w.dir) (image (w.append p fault).1.dir) := by
  by_cases hp : Fits p
  · rcases h with hsize | hopen | rfl
    · exact absurd hp hsize
    · have herr := rotate_error_iff.mpr hopen
      obtain ⟨hrotated, hopened, -⟩ := rotate_image hready fault
      have hsize : ¬ walMaxEntrySize < p.length := Nat.not_lt.mpr hp
      rw [append, if_neg hsize]
      generalize w.rotate fault = rotated at herr hrotated hopened ⊢
      obtain ⟨rotated, err⟩ := rotated
      cases err with
      | none => exact absurd rfl herr
      | some err => exact ⟨hrotated, hopened⟩
    · obtain ⟨hrotated, hopened, hactive⟩ := rotate_image hready none
      have hactive := hactive (rotate_none w)
      obtain ⟨init, himg⟩ := image_active hrotated.canonical hrotated.newest hactive
      obtain ⟨-, hwritten⟩ := write_image hrotated.canonical himg []
      rw [append_stops hp rfl, Nat.zero_min, List.take_zero]
      refine ⟨hrotated.write hactive [], ?_⟩
      rw [hwritten, List.append_nil, ← himg]
      exact hopened
  · have hsize : walMaxEntrySize < p.length := Nat.lt_of_not_le hp
    rw [append, if_pos hsize]
    exact ⟨hready, Or.inl rfl⟩

/-- If neither write stops, the whole record is in the file whatever fails after that. -/
theorem append_unstopped {w : WAL} (h : w.Ready) {p : Bytes} (hp : Fits p)
    {fault : Option AppendFault} (hrotate : (w.rotate fault).2 = none)
    (hstops : ∀ f, fault = some f → f.stops = none) :
    (w.append p fault).1.Ready ∧
      (w.append p fault).1.activeSeg = (w.rotate none).1.activeSeg ∧
      Appended (image w.dir) (w.append p fault).1.activeSeg (encodeRecord p)
        (image (w.append p fault).1.dir) := by
  have hheader : ∀ n, fault ≠ some (.writeHeader n) := by
    intro n heq
    cases hstops _ heq
  have hpayload : ∀ n, fault ≠ some (.writePayload n) := by
    intro n heq
    cases hstops _ heq
  have hrecorded : Recorded (w.append p fault).2 := by
    rw [append_eq_writeRecord hp hrotate]
    unfold writeRecord
    split
    next n => exact absurd rfl (hheader n)
    next n => exact absurd rfl (hpayload n)
    next => trivial
    next => exact enforceQuotaLocked_recorded _ _
  obtain ⟨hready, hcase⟩ := append_image h p hheader hpayload
  rcases hcase with ⟨happ, -, hactive, -⟩ | ⟨-, herr⟩
  · rw [rotate_eq hrotate] at hactive
    exact ⟨hready, hactive, happ⟩
  · exact absurd hrecorded herr

/-- What a failed append that wrote something leaves behind. -/
inductive Residue (w : WAL) (p : Bytes) (failed : WAL) : Prop
  | whole (hready : failed.Ready) (hactive : failed.activeSeg = (w.rotate none).1.activeSeg)
      (happ : Appended (image w.dir) failed.activeSeg (encodeRecord p) (image failed.dir))
  | torn (written : Nat) (hpos : 0 < written) (hlt : written < (encodeRecord p).length)
      (heq : failed = (w.rotate none).1.write ((encodeRecord p).take written))

theorem append_residue {w : WAL} (h : w.Ready) {p : Bytes} {fault : Option AppendFault}
    (herr : (w.append p fault).2 ≠ none) (hwrites : ¬ w.WritesNothing p fault) :
    Fits p ∧ w.Residue p (w.append p fault).1 := by
  simp only [WritesNothing, not_or, not_not] at hwrites
  obtain ⟨hp, hopen, hheader⟩ := hwrites
  have hrotate : (w.rotate fault).2 = none := by
    by_contra hrotate
    exact hopen (rotate_error_iff.mp hrotate)
  refine ⟨hp, ?_⟩
  cases fault with
  | none => exact absurd (append_ok.mpr hp) herr
  | some f =>
      cases hstops : f.stops with
      | none =>
          obtain ⟨hready, hactive, happ⟩ := append_unstopped h hp hrotate (by simp [hstops])
          exact .whole hready hactive happ
      | some m =>
          by_cases hlt : m < (encodeRecord p).length
          · have hpos : 0 < m := AppendFault.stops_pos hstops fun heq => hheader (heq ▸ rfl)
            exact .torn m hpos hlt (by rw [append_stops hp hstops])
          · -- the write reports an error after its last byte, as `Sync` would
            have hsync : (w.rotate (some .sync)).2 = none := rotate_ok (by simp)
            have hsame : (w.append p (some f)).1 = (w.append p (some .sync)).1 := by
              rw [append_stops hp hstops, append_eq_writeRecord hp hsync,
                List.take_of_length_le (Nat.not_lt.mp hlt)]
              rfl
            obtain ⟨hready, hactive, happ⟩ :=
              append_unstopped h hp hsync (by simp [AppendFault.stops])
            rw [hsame]
            exact .whole hready hactive happ

/-! ## Faults that do not show -/

theorem dropOldest_eq (sizes : Nat → Nat) (ids : List Nat) (total : Int) (allowed : Option Nat)
    (w : WAL) (h : (w.dropOldest sizes ids total allowed).2 = none) :
    w.dropOldest sizes ids total allowed = w.dropOldest sizes ids total none := by
  induction ids generalizing total allowed w with
  | nil => rfl
  | cons s rest ih =>
      simp only [dropOldest] at h ⊢
      split
      next => rfl
      next hmore =>
        rw [if_neg hmore] at h
        split at h
        next => cases h
        next hallowed =>
          rw [if_neg hallowed, if_neg (by simp), Option.map_none]
          exact ih _ _ _ h

theorem enforceQuotaLocked_eq {w : WAL} {fault : Option AppendFault}
    (h : (w.enforceQuotaLocked fault).2 = none) :
    w.enforceQuotaLocked fault = w.enforceQuotaLocked none := by
  unfold enforceQuotaLocked at h ⊢
  simp only [reduceCtorEq, if_false]
  split
  next => rfl
  next hquota =>
    rw [if_neg hquota] at h
    split at h
    next => cases h
    next hlist =>
      rw [if_neg hlist]
      dsimp only at h ⊢
      split
      next => rfl
      next hmany =>
        rw [if_neg hmany] at h
        exact dropOldest_eq _ _ _ _ w h

/-- An append that returns no error is one during which nothing failed. -/
theorem append_eq_none {w : WAL} {p : Bytes} {fault : Option AppendFault}
    (h : (w.append p fault).2 = none) : Fits p ∧ w.append p fault = w.append p none := by
  have hp : Fits p := by
    by_contra hp
    rw [append, if_pos (Nat.lt_of_not_le hp)] at h
    cases h
  have hrotate : (w.rotate fault).2 = none := by
    have hsize : ¬ walMaxEntrySize < p.length := Nat.not_lt.mpr hp
    rw [append, if_neg hsize] at h
    generalize w.rotate fault = rotated at h ⊢
    obtain ⟨rotated, err⟩ := rotated
    cases err with
    | none => rfl
    | some err => cases h
  refine ⟨hp, ?_⟩
  rw [append_eq_writeRecord hp hrotate] at h ⊢
  rw [append_eq_writeRecord hp (rotate_none w)]
  unfold writeRecord at h ⊢
  split at h
  next => cases h
  next => cases h
  next => cases h
  next => exact enforceQuotaLocked_eq h

/-! ## What every append keeps -/

theorem enforceQuotaLocked_off {w : WAL} (h : w.maxBytes ≤ 0) (fault : Option AppendFault) :
    w.enforceQuotaLocked fault = (w, none) := by
  unfold enforceQuotaLocked
  rw [if_pos h]

theorem writeRecord_keeps {w : WAL} (h : w.Ready) (hactive : w.activeSeg ∈ segments w.dir)
    (p : Bytes) (fault : Option AppendFault) :
    (w.writeRecord p fault).1.Ready ∧ (w.writeRecord p fault).1.maxBytes = w.maxBytes ∧
      (w.maxBytes ≤ 0 → ∀ s ∈ segments w.dir, s ∈ segments (w.writeRecord p fault).1.dir) := by
  have hstop : ∀ data, (w.write data).Ready ∧ (w.write data).maxBytes = w.maxBytes ∧
      (w.maxBytes ≤ 0 → ∀ s ∈ segments w.dir, s ∈ segments (w.write data).dir) := by
    intro data
    refine ⟨h.write hactive data, rfl, fun _ s hs => ?_⟩
    rwa [write_segments h.canonical hactive]
  unfold writeRecord
  split
  next => exact hstop _
  next => exact hstop _
  next => exact hstop _
  next =>
    obtain ⟨init, himg⟩ := image_active h.canonical h.newest hactive
    have hready := (write_quota_image h himg (encodeRecord p)
      (w.activeLen + (walHeaderSize + p.length)) fault).1
    obtain ⟨n, dir, heq, -⟩ := @enforceQuotaLocked_image
      { w.write (encodeRecord p) with activeLen := w.activeLen + (walHeaderSize + p.length) }
      (hstop (encodeRecord p)).1.canonical fault
    refine ⟨hready, by rw [heq]; rfl, fun hmax => ?_⟩
    dsimp only
    rw [enforceQuotaLocked_off]
    · exact (hstop (encodeRecord p)).2.2 hmax
    · exact hmax

/-- Whatever fails, the quota stays the same, and no segment disappears if there is none. -/
theorem append_keeps {w : WAL} (h : w.Ready) (p : Bytes) (fault : Option AppendFault) :
    (w.append p fault).1.Ready ∧ (w.append p fault).1.maxBytes = w.maxBytes ∧
      (w.maxBytes ≤ 0 → ∀ s ∈ segments w.dir, s ∈ segments (w.append p fault).1.dir) := by
  by_cases hp : Fits p
  · by_cases hrotate : (w.rotate fault).2 = none
    · obtain ⟨hrotated, hopened, hactive⟩ := rotate_image h none
      obtain ⟨hready, hsame, hkept⟩ :=
        writeRecord_keeps hrotated (hactive (rotate_none w)) p fault
      rw [append_eq_writeRecord hp hrotate]
      rw [rotate_maxBytes] at hsame hkept
      refine ⟨hready, hsame, fun hmax s hs => hkept hmax s ?_⟩
      rw [← image_map_fst] at hs ⊢
      exact hopened.mem_of_mem hs
    · have hopen := rotate_error_iff.mp hrotate
      obtain ⟨hready, hopened⟩ := WritesNothing.opened (Or.inr (Or.inl hopen) : w.WritesNothing p fault) h
      obtain ⟨hfull, created, rfl⟩ := hopen
      refine ⟨hready, ?_, fun _ s hs => ?_⟩
      · have hsize : ¬ walMaxEntrySize < p.length := Nat.not_lt.mpr hp
        rw [append, if_neg hsize, rotate, if_pos hfull]
        cases created <;> rfl
      · rw [← image_map_fst] at hs ⊢
        exact hopened.mem_of_mem hs
  · rw [append, if_pos (Nat.lt_of_not_le hp)]
    exact ⟨h, rfl, fun _ s hs => hs⟩

theorem appendAll_kept {w : WAL} (h : w.Ready) (hmax : w.maxBytes ≤ 0) (ps : List Bytes) :
    (∀ s ∈ segments w.dir, s ∈ segments (w.appendAll ps).1.dir) ∧
      ∀ e ∈ (w.appendAll ps).2, e.1.segment ∈ segments (w.appendAll ps).1.dir := by
  induction ps generalizing w with
  | nil => exact ⟨fun s hs => hs, by simp [appendAll]⟩
  | cons p rest ih =>
      obtain ⟨hready, hsame, hkept⟩ := append_keeps h p none
      obtain ⟨hlater, hrest⟩ := ih hready (hsame ▸ hmax)
      refine ⟨fun s hs => hlater s (hkept hmax s hs), ?_⟩
      intro e he
      simp only [appendAll] at he ⊢
      split at he
      next hok =>
        rcases List.mem_cons.mp he with rfl | he
        · obtain ⟨-, -, happ⟩ := append_fits_image h (append_ok.mp hok)
          have hmem := happ.mem
          rw [image_map_fst] at hmem
          exact hlater _ hmem
        · exact hrest e he
      next => exact hrest e he

theorem appendAll_ready {w : WAL} (h : w.Ready) (ps : List Bytes) : (w.appendAll ps).1.Ready := by
  induction ps generalizing w with
  | nil => exact h
  | cons p rest ih => exact ih (append_keeps h p none).1

end WAL

end TomAgent.Wal
