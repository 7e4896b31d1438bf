import TomAgent.Reporter.MetricBuffer
import TomAgent.Wal.Log

/-!
# Metrics that cannot be sent

When the sink refuses a batch, `flushMetrics` writes it to the metrics log and takes
its samples out of the buffer.  It takes them out also when the batch could not be
encoded or the log refused the record.  The call is modelled as a whole, without
samples that arrive meanwhile.
-/

namespace TomAgent.Reporter

open Wal

variable {α : Type}

structure Flusher (α : Type) where
  batchSize : Nat
  buf : List α
  seq : UInt64
  metricsWAL : Option WAL

/-- One round of the loop: the identity and the clock for the batch, and whether
`SendMetrics` returns no error. -/
structure Send where
  assetId : String
  sentAt : Int
  ok : Bool

/-- The end of a call: the batches that `SendMetrics` took, the one it refused, and
those whose record `Append` accepted with a nil error. -/
structure Flushed (α : Type) where
  state : Flusher α
  sent : List (Batch α)
  failed : Option (Batch α)
  recorded : List (Batch α)

section Flush

variable (marshal : Batch α → Option Bytes) (fault : Option AppendFault)

def fallback (s : Flusher α) (b : Batch α) (n : Nat) : Flushed α :=
  match s.metricsWAL with
  | none => ⟨s, [], some b, []⟩
  | some w =>
      match marshal b with
      | none => ⟨{ s with buf := s.buf.drop n }, [], some b, []⟩
      | some data =>
          let done := w.append data fault
          ⟨{ s with buf := s.buf.drop n, metricsWAL := some done.1 }, [], some b,
            if done.2 = none then [b] else []⟩

/-- The loop of `flushMetrics`; `none` means that it goes on after the given rounds. -/
def flushMetrics : List Send → Flusher α → Option (Flushed α)
  | [], s => if s.buf = [] then some ⟨s, [], none, []⟩ else none
  | a :: more, s =>
      if s.buf = [] then some ⟨s, [], none, []⟩
      else
        let n := min s.batchSize s.buf.length
        let b : Batch α := ⟨a.assetId, a.sentAt, s.seq + 1, s.buf.take n⟩
        let s := { s with seq := s.seq + 1 }
        if a.ok then
          let s := { s with buf := s.buf.drop n }
          if n < s.batchSize then some ⟨s, [b], none, []⟩
          else (flushMetrics more s).map fun r => { r with sent := b :: r.sent }
        else some (fallback marshal fault s b n)

def Accepted (wal : Option WAL) (b : Batch α) : Prop :=
  ∃ w, wal = some w ∧ ∃ data, marshal b = some data ∧ (w.append data fault).2 = none

inductive Falls (wal : Option WAL) (b : Batch α) (rest : List α) (r : Flushed α) : Prop
  | kept (hwal : wal = none) (hbuf : r.state.buf = b.samples ++ rest) (hrecorded : r.recorded = [])
  | recorded (haccepted : Accepted marshal fault wal b) (hbuf : r.state.buf = rest)
      (hrecorded : r.recorded = [b])
  | lost (hwal : wal ≠ none) (hrefused : ¬ Accepted marshal fault wal b)
      (hbuf : r.state.buf = rest) (hrecorded : r.recorded = [])

theorem fallback_falls (s : Flusher α) (b : Batch α) {n : Nat} (hb : b.samples = s.buf.take n) :
    Falls marshal fault s.metricsWAL b (s.buf.drop n) (fallback marshal fault s b n) := by
  unfold fallback
  cases hwal : s.metricsWAL with
  | none => exact .kept rfl (by rw [hb, List.take_append_drop]) rfl
  | some w =>
      cases hdata : marshal b with
      | none =>
          refine .lost (by simp) ?_ rfl rfl
          rintro ⟨_, _, data, hsome, -⟩
          rw [hdata] at hsome
          cases hsome
      | some data =>
          by_cases hok : (w.append data fault).2 = none
          · exact .recorded ⟨w, rfl, data, hdata, hok⟩ rfl (if_pos hok)
          · refine .lost (by simp) ?_ rfl (if_neg hok)
            rintro ⟨w', hw', data', hdata', hok'⟩
            cases hw'
            rw [hdata] at hdata'
            cases hdata'
            exact hok hok'

theorem fallback_failed (s : Flusher α) (b : Batch α) (n : Nat) :
    (fallback marshal fault s b n).failed = some b ∧ (fallback marshal fault s b n).sent = [] := by
  unfold fallback
  split
  · exact ⟨rfl, rfl⟩
  · split
    · exact ⟨rfl, rfl⟩
    · exact ⟨rfl, rfl⟩

theorem flushMetrics_failed {sends : List Send} {s : Flusher α} {r : Flushed α} {b : Batch α}
    (h : flushMetrics marshal fault sends s = some r) (hb : r.failed = some b) :
    ∃ rest, s.buf = r.sent.flatMap Batch.samples ++ (b.samples ++ rest) ∧
      Falls marshal fault s.metricsWAL b rest r := by
  induction sends generalizing s r with
  | nil =>
      rw [flushMetrics] at h
      split at h
      · cases h
        cases hb
      · cases h
  | cons a more ih =>
      rw [flushMetrics] at h
      split at h
      · cases h
        cases hb
      · dsimp only at h
        split at h
        · split at h
          · cases h
            cases hb
          · obtain ⟨r', hr', rfl⟩ := Option.map_eq_some_iff.mp h
            obtain ⟨rest, hbuf, hfalls⟩ := ih hr' hb
            refine ⟨rest, ?_, ?_⟩
            · rw [List.flatMap_cons, List.append_assoc, ← hbuf, List.take_append_drop]
            · cases hfalls with
              | kept hwal hkept hrecorded => exact .kept hwal hkept hrecorded
              | recorded haccepted hkept hrecorded => exact .recorded haccepted hkept hrecorded
              | lost hwal hrefused hkept hrecorded => exact .lost hwal hrefused hkept hrecorded
        · cases h
          obtain ⟨hfailed, hsent⟩ := fallback_failed marshal fault { s with seq := s.seq + 1 }
            ⟨a.assetId, a.sentAt, s.seq + 1, s.buf.take (min s.batchSize s.buf.length)⟩
            (min s.batchSize s.buf.length)
          rw [hfailed] at hb
          cases hb
          refine ⟨s.buf.drop (min s.batchSize s.buf.length), ?_, ?_⟩
          · rw [hsent, List.flatMap_nil, List.nil_append, List.take_append_drop]
          · exact fallback_falls marshal fault { s with seq := s.seq + 1 } _ rfl

theorem flushMetrics_returns {sends : List Send} {s : Flusher α} (hsize : 1 ≤ s.batchSize)
    (hsends : s.buf.length ≤ sends.length) : (flushMetrics marshal fault sends s).isSome := by
  induction sends generalizing s with
  | nil =>
      have hempty : s.buf = [] := List.eq_nil_of_length_eq_zero (Nat.le_zero.mp hsends)
      simp [flushMetrics, hempty]
  | cons a more ih =>
      rw [flushMetrics]
      split
      · rfl
      · rename_i hbuf
        have hpos : 0 < s.buf.length := List.length_pos_iff.mpr hbuf
        dsimp only
        split
        · split
          · rfl
          · rw [Option.isSome_map]
            apply ih
            · exact hsize
            · rw [List.length_cons] at hsends
              dsimp only
              rw [List.length_drop]
              omega
        · rfl

/-! ## What is lost -/

/-- The samples of a refused batch are still somewhere iff there is no log, the log has
them, or there are none. -/
theorem Falls.subperm {wal : Option WAL} {b : Batch α} {rest : List α} {r : Flushed α}
    (h : Falls marshal fault wal b rest r) (front : List α) :
    (front ++ (b.samples ++ rest)).Subperm
        (front ++ (r.state.buf ++ r.recorded.flatMap Batch.samples)) ↔
      wal = none ∨ Accepted marshal fault wal b ∨ b.samples = [] := by
  cases h with
  | kept hwal hbuf hrecorded =>
      rw [hbuf, hrecorded, List.flatMap_nil, List.append_nil]
      simp [hwal, List.Subperm.refl]
  | recorded haccepted hbuf hrecorded =>
      rw [hbuf, hrecorded, List.flatMap_singleton]
      have hswap : (b.samples ++ rest).Perm (rest ++ b.samples) := List.perm_append_comm
      simp [haccepted, (hswap.append_left front).subperm]
  | lost hwal hrefused hbuf hrecorded =>
      rw [hbuf, hrecorded, List.flatMap_nil, List.append_nil]
      constructor
      · intro hsub
        have hlength := hsub.length_le
        simp only [List.length_append] at hlength
        exact Or.inr (Or.inr (List.eq_nil_of_length_eq_zero (by omega)))
      · rintro (hnone | haccepted | hempty)
        · exact absurd hnone hwal
        · exact absurd haccepted hrefused
        · rw [hempty, List.nil_append]

theorem Falls.length_le {wal : Option WAL} {b : Batch α} {rest : List α} {r : Flushed α}
    (h : Falls marshal fault wal b rest r) :
    (r.state.buf ++ r.recorded.flatMap Batch.samples).length ≤ (b.samples ++ rest).length := by
  cases h with
  | kept hwal hbuf hrecorded => simp [hbuf, hrecorded]
  | recorded haccepted hbuf hrecorded => simp [hbuf, hrecorded, Nat.add_comm]
  | lost hwal hrefused hbuf hrecorded => simp [hbuf, hrecorded]

/-- Whenever `flushMetrics` returns after `SendMetrics` refused the batch `b`: every sample that
was in the buffer has been sent before, is still in the buffer or is in a record that `Append`
accepted, if and only if there is no metrics log, or `b` could be encoded and its record was
accepted, or `b` is empty.  Every sample is still in the buffer or in such a record if and only
if in addition nothing was sent before in the same call. -/
theorem failed_flush_iff {sends : List Send} {s : Flusher α} {r : Flushed α} {b : Batch α}
    (h : flushMetrics marshal fault sends s = some r) (hb : r.failed = some b) :
    (s.buf.Subperm (r.sent.flatMap Batch.samples ++
        (r.state.buf ++ r.recorded.flatMap Batch.samples)) ↔
      s.metricsWAL = none ∨ Accepted marshal fault s.metricsWAL b ∨ b.samples = []) ∧
    (s.buf.Subperm (r.state.buf ++ r.recorded.flatMap Batch.samples) ↔
      r.sent.flatMap Batch.samples = [] ∧
        (s.metricsWAL = none ∨ Accepted marshal fault s.metricsWAL b ∨ b.samples = [])) := by
  obtain ⟨rest, hbuf, hfalls⟩ := flushMetrics_failed marshal fault h hb
  have hplaces := hfalls.subperm marshal fault (r.sent.flatMap Batch.samples)
  have hcount := hfalls.length_le marshal fault
  rw [hbuf]
  refine ⟨hplaces, ?_⟩
  by_cases hsent : r.sent.flatMap Batch.samples = []
  · rw [hsent] at hplaces ⊢
    simpa using hplaces
  · have hpos : 0 < (r.sent.flatMap Batch.samples).length := List.length_pos_iff.mpr hsent
    simp only [hsent, false_and, iff_false]
    intro hsub
    have hlength := hsub.length_le
    simp only [List.length_append] at hlength hcount
    omega

end Flush

def threeSamples : Flusher Nat := ⟨2, [7, 8, 9], 0, some (openWal ∅ 0)⟩

theorem failed_flush_iff_recorded :
    ∃ r b, flushMetrics (fun _ => some [1]) none [⟨"a1", 0, false⟩] threeSamples = some r ∧
      r.failed = some b ∧
      threeSamples.buf.Subperm (r.state.buf ++ r.recorded.flatMap Batch.samples) := by
  refine ⟨_, _, rfl, rfl, ?_⟩
  refine (@failed_flush_iff _ (fun _ => some [1]) none [⟨"a1", 0, false⟩] _ _ _ rfl rfl).2.mpr
    ⟨rfl, Or.inr (Or.inl ?_)⟩
  exact ⟨openWal ∅ 0, rfl, [1], rfl, by decide +kernel⟩

/-- The disk is full: the batch is neither sent nor recorded, and it leaves the buffer. -/
theorem refused_batch_lost :
    ∃ r b, flushMetrics (fun _ => some [1]) (some (.writePayload 0)) [⟨"a1", 0, false⟩]
        threeSamples = some r ∧
      r.failed = some b ∧ b.samples = [7, 8] ∧ r.sent = [] ∧ r.recorded = [] ∧
      r.state.buf = [9] :=
  ⟨_, _, rfl, rfl, rfl, rfl, by decide +kernel, rfl⟩

end TomAgent.Reporter
