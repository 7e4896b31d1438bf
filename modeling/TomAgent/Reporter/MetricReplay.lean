import TomAgent.Core.Resend
import TomAgent.Reporter.AtLeastOnce
import TomAgent.Wal.Tail

/-!
# The metrics log and its replay

Batches that could not be sent are written to a log of their own.
`replayMetricsWALLoop` reads a few records from a cursor and sends them one by one.  A
batch the sink refuses ends the round with the cursor where it was, so the next round
sends the records before it again.  After the last record the cursor moves on and is
saved; a failed save is only logged.

The loop refines sending one by one from a saved position.
-/

namespace TomAgent.Reporter

open Wal Execution Resend

/-- Which call the loop makes next.  The records it has still to send are listed with
their places. -/
inductive ReplayPhase where
  | waiting
  | sending (left : List (WalCursor × Bytes)) (next : WalCursor)
  | saving
deriving Repr, DecidableEq

/-- The metrics log.  The last two fields record what happened: the records that reached
the files, and those the sink has accepted from the loop, in order. -/
structure MetricLog where
  wal : WAL
  cursorFile : Option Bytes
  cursor : WalCursor
  phase : ReplayPhase
  log : List (WalCursor × Bytes)
  replayed : List (WalCursor × Bytes)

inductive ReplayEvent where
  | readFrom (ok : Bool)
  /-- The next record of the batch. -/
  | sendMetrics (ok : Bool)
  /-- The batch has been sent to its end. -/
  | finish
  | saveCursor (ok : Bool)
deriving Repr, DecidableEq

namespace MetricLog

def start (dir : Dir) (maxBytes : Int) : MetricLog :=
  ⟨openWal dir maxBytes, none, 0, .waiting, [], []⟩

def persisted (q : MetricLog) : WalCursor := loadCursor q.cursorFile

def append (q : MetricLog) (data : Bytes) (fault : Option AppendFault) :
    MetricLog × Option AppendError :=
  let done := q.wal.append data fault
  ({ q with
      wal := done.1
      log := q.log ++ if Recorded done.2 then [(done.1.lastPlace data, data)] else [] },
    done.2)

/-- `ReadFrom`; without records the loop waits and tries again. -/
def read (q : MetricLog) (batchSize : Nat) : MetricLog :=
  let (raws, next) := readFrom q.wal.dir q.cursor batchSize
  let places := (q.log.filter fun e => q.cursor.AtOrBefore e.1).map Prod.fst
  if raws = [] then q else { q with phase := .sending (places.zip raws) next }

/-- A new process on the same disk.  A cursor file that cannot be read counts as absent. -/
def restart (q : MetricLog) (maxBytes : Int) (readable : Bool) : MetricLog :=
  { q with
    wal := openWal q.wal.dir maxBytes
    cursor := if readable then q.persisted else 0
    phase := .waiting }

section Step

variable {β : Type} (unmarshal : Bytes → Option β) (batchSize : Nat)

def step (q : MetricLog) : ReplayEvent → Option MetricLog
  | .readFrom ok =>
      match q.phase with
      | .waiting => some (if ok then q.read batchSize else q)
      | _ => none
  | .sendMetrics ok =>
      match q.phase with
      | .sending (e :: left) next =>
          match unmarshal e.2 with
          -- a record that is no batch is passed over
          | none => some { q with phase := .sending left next }
          | some _ =>
              if ok then
                some { q with
                  phase := .sending left next
                  replayed := q.replayed ++ [e] }
              else some { q with phase := .waiting }
      | _ => none
  | .finish =>
      match q.phase with
      | .sending [] next => some { q with cursor := next, phase := .saving }
      | _ => none
  | .saveCursor ok =>
      match q.phase with
      | .saving =>
          some { q with
            phase := .waiting
            cursorFile := if ok then some (marshalCursor q.cursor) else q.cursorFile }
      | _ => none

variable {unmarshal batchSize}

theorem log_step {q q' : MetricLog} {event : ReplayEvent}
    (h : q.step unmarshal batchSize event = some q') : q'.log = q.log := by
  have hread : (q.read batchSize).log = q.log := by
    unfold read
    dsimp only
    split <;> rfl
  cases event with
  | readFrom ok =>
      simp only [step] at h
      split at h
      · cases h
        cases ok
        · rfl
        · exact hread
      · cases h
  | sendMetrics ok =>
      simp only [step] at h
      split at h
      · split at h
        · cases h
          rfl
        · split at h
          · cases h
            rfl
          · cases h
            rfl
      · cases h
  | finish =>
      simp only [step] at h
      split at h
      · cases h
        rfl
      · cases h
  | saveCursor ok =>
      simp only [step] at h
      split at h
      · cases h
        rfl
      · cases h

end Step

/-! ## The refinement -/

section Refinement

variable {β : Type} {unmarshal : Bytes → Option β}

def PhaseRefines (j : Journal) (s : State (WalCursor × Bytes)) : ReplayPhase → Prop
  | .waiting | .saving => s.batch = none
  | .sending left next => ∃ upTo i, s.batch = some (upTo, i) ∧ i ≤ upTo ∧ Stands j next upTo ∧
      left = (s.log.take upTo).drop i

structure Refines (unmarshal : Bytes → Option β) (q : MetricLog) (j : Journal)
    (s : State (WalCursor × Bytes)) : Prop where
  keeps : q.wal.Keeps j q.log
  log : s.log = q.log
  cursor : Stands j q.cursor s.position
  persisted : Stands j q.persisted s.saved
  phase : PhaseRefines j s q.phase
  replayed : s.received = q.replayed
  batches : ∀ e ∈ q.log, (unmarshal e.2).isSome

def Replays (unmarshal : Bytes → Option β) (q : MetricLog) : Prop :=
  ∃ j s, Reaches Step State.start s ∧ Refines unmarshal q j s

theorem start_replays (unmarshal : Bytes → Option β) {dir : Dir} (hdir : segments dir = [])
    (maxBytes : Int) : Replays unmarshal (start dir maxBytes) := by
  obtain ⟨j, hkeeps, hne⟩ := WAL.Keeps.start hdir maxBytes
  exact ⟨j, State.start, .refl, {
    keeps := hkeeps
    log := rfl
    cursor := stands_zero hne
    persisted := stands_zero hne
    phase := rfl
    replayed := rfl
    batches := fun _ he => nomatch he }⟩

theorem PhaseRefines.grow {j k : Journal} {s : State (WalCursor × Bytes)} {phase : ReplayPhase}
    (h : PhaseRefines j s phase) (hlength : ∀ cur n, Stands j cur n → n ≤ s.log.length)
    (hstands : ∀ cur n, Stands j cur n → Stands k cur n) (extra : List (WalCursor × Bytes)) :
    PhaseRefines k { s with log := s.log ++ extra } phase := by
  cases phase with
  | waiting => exact h
  | saving => exact h
  | sending left next =>
      obtain ⟨upTo, i, hbatch, hi, hnext, hleft⟩ := h
      refine ⟨upTo, i, hbatch, hi, hstands _ _ hnext, ?_⟩
      rw [hleft, List.take_append_of_le_length (hlength _ _ hnext)]

namespace Refines

variable {q : MetricLog} {j : Journal} {s : State (WalCursor × Bytes)}

theorem le_length (h : Refines unmarshal q j s) {cur : WalCursor} {n : Nat}
    (hcur : Stands j cur n) : n ≤ s.log.length := by
  have hle := hcur.le
  rwa [h.keeps.length_records, ← h.log] at hle

/-- The log goes on at its end and the cursors keep their positions. -/
theorem grow (h : Refines unmarshal q j s) {w : WAL} {k : Journal}
    {extra : List (WalCursor × Bytes)} (hkeeps : w.Keeps k (q.log ++ extra))
    (hbatches : ∀ e ∈ extra, (unmarshal e.2).isSome)
    (hstands : ∀ cur n, Stands j cur n → Stands k cur n) :
    Refines unmarshal { q with wal := w, log := q.log ++ extra } k
      { s with log := s.log ++ extra } where
  keeps := hkeeps
  log := by simp only [h.log]
  cursor := hstands _ _ h.cursor
  persisted := hstands _ _ h.persisted
  phase := h.phase.grow (fun _ _ => h.le_length) hstands extra
  replayed := h.replayed
  batches := by
    intro e he
    cases List.mem_append.mp he with
    | inl hold => exact h.batches e hold
    | inr hnew => exact hbatches e hnew

theorem append (h : Refines unmarshal q j s) {data : Bytes} (hdata : (unmarshal data).isSome)
    {fault : Option AppendFault} (hheader : ∀ n, fault ≠ some (.writeHeader n))
    (hpayload : ∀ n, fault ≠ some (.writePayload n))
    (hkept : ∀ id ∈ segments q.wal.dir, id ∈ segments (q.append data fault).1.wal.dir) :
    ∃ k t, Reaches Step s t ∧ Refines unmarshal (q.append data fault).1 k t := by
  obtain ⟨k, hkeeps, hstands⟩ := h.keeps.append data hheader hpayload hkept
  have hnodup := hkeeps.nodup
  simp only [MetricLog.append]
  split at hkeeps
  next hrecorded =>
    rw [if_pos hrecorded] at hnodup ⊢
    generalize hentry : ((q.wal.append data fault).1.lastPlace data, data) = entry
      at hkeeps hnodup ⊢
    have hnew : entry ∉ s.log := by
      intro hmem
      rw [h.log] at hmem
      exact (List.nodup_append.mp hnodup).2.2 entry hmem entry (by simp) rfl
    refine ⟨k, _, .single (.append s entry hnew), h.grow hkeeps ?_ hstands⟩
    intro e he
    rw [List.mem_singleton.mp he, ← hentry]
    exact hdata
  next hnot =>
    rw [if_neg hnot]
    have hgrown := h.grow hkeeps (fun _ he => nomatch he) hstands
    refine ⟨k, s, .refl, ?_⟩
    simpa using hgrown

theorem restart (h : Refines unmarshal q j s) (maxBytes : Int) (readable : Bool) :
    ∃ k t, Reaches Step s t ∧ Refines unmarshal (q.restart maxBytes readable) k t := by
  obtain ⟨k, hkeeps, hne, hstands⟩ := h.keeps.reopen maxBytes
  have hgrown : Refines unmarshal { q with wal := openWal q.wal.dir maxBytes } k s := by
    have hsame := @grow _ _ q j s h (openWal q.wal.dir maxBytes) k []
      (by rwa [List.append_nil]) (fun _ he => nomatch he) hstands
    simpa using hsame
  cases readable with
  | true =>
      refine ⟨k, _, .single (.resume s s.saved (Nat.le_refl _)), ?_⟩
      exact { hgrown with cursor := hgrown.persisted, phase := rfl }
  | false =>
      refine ⟨k, _, .single (.resume s 0 (Nat.zero_le _)), ?_⟩
      exact { hgrown with cursor := stands_zero hne, phase := rfl }

theorem read (h : Refines unmarshal q j s) (batchSize : Nat) :
    ∃ t, Reaches Step s t ∧ Refines unmarshal (q.read batchSize) j t := by
  unfold MetricLog.read
  dsimp only
  by_cases hraws : (Wal.readFrom q.wal.dir q.cursor batchSize).1 = []
  · rw [if_pos hraws]
    exact ⟨s, .refl, h⟩
  · have hmax : 1 ≤ batchSize := by
      rcases Nat.eq_zero_or_pos batchSize with hzero | hpos
      · rw [hzero] at hraws
        exact absurd (readFrom_none _ _) hraws
      · exact hpos
    obtain ⟨hout, hnext⟩ := h.keeps.readFrom h.cursor hmax
    rw [if_neg hraws]
    refine ⟨_, .single (.read s _ (Nat.le_add_right _ _) (h.le_length hnext)),
      { h with phase := ⟨_, _, rfl, Nat.le_add_right _ _, hnext, ?_⟩ }⟩
    have hlength : (Wal.readFrom q.wal.dir q.cursor batchSize).1.length =
        ((q.log.drop s.position).take batchSize).length := by
      rw [hout, List.length_map]
    rw [h.keeps.filter_log h.cursor, hlength, hout, List.drop_take, Nat.add_sub_cancel_left,
      h.log]
    -- the places of the records and the records as they were read
    rw [List.map_take, zip_take, List.length_take]
    exact List.take_eq_take_min

theorem sendMetrics (h : Refines unmarshal q j s) {e : WalCursor × Bytes}
    {left : List (WalCursor × Bytes)} {next : WalCursor}
    (hphase : q.phase = .sending (e :: left) next) :
    ∃ t, Reaches Step s t ∧ Refines unmarshal
      { q with phase := .sending left next, replayed := q.replayed ++ [e] } j t := by
  have hrefines := h.phase
  rw [hphase] at hrefines
  obtain ⟨upTo, i, hbatch, -, hnext, hleft⟩ := hrefines
  obtain ⟨hi, hx, hrest⟩ : i < upTo ∧ s.log[i]? = some e ∧
      left = (s.log.take upTo).drop (i + 1) := by
    have hlt : i < (s.log.take upTo).length := by
      by_contra hge
      rw [List.drop_eq_nil_of_le (Nat.le_of_not_lt hge)] at hleft
      cases hleft
    rw [List.drop_eq_getElem_cons hlt] at hleft
    obtain ⟨rfl, rfl⟩ := List.cons.inj hleft
    rw [List.length_take] at hlt
    refine ⟨by omega, ?_, rfl⟩
    rw [List.getElem_take]
    exact List.getElem?_eq_getElem _
  refine ⟨_, .single (.accept s upTo i e hbatch hi hx), { h with phase := ?_, replayed := ?_ }⟩
  · exact ⟨upTo, i + 1, rfl, hi, hnext, hrest⟩
  · simp only [h.replayed]

/-- A record is in the log once it is in a batch. -/
theorem mem_log (h : Refines unmarshal q j s) {left : List (WalCursor × Bytes)}
    {next : WalCursor} (hphase : q.phase = .sending left next) : left ⊆ q.log := by
  have hrefines := h.phase
  rw [hphase] at hrefines
  obtain ⟨upTo, i, -, -, -, hleft⟩ := hrefines
  rw [hleft, ← h.log]
  exact List.Subset.trans (List.drop_subset _ _) (List.take_subset _ _)

theorem step (h : Refines unmarshal q j s) {batchSize : Nat} {event : ReplayEvent}
    {q' : MetricLog} (hstep : q.step unmarshal batchSize event = some q') :
    ∃ t, Reaches Step s t ∧ Refines unmarshal q' j t := by
  have hphase := h.phase
  cases event with
  | readFrom ok =>
      cases hp : q.phase <;>
        simp only [MetricLog.step, hp, Option.some.injEq, reduceCtorEq] at hstep
      cases ok with
      | true => exact hstep ▸ h.read batchSize
      | false => exact ⟨s, .refl, hstep ▸ h⟩
  | sendMetrics ok =>
      simp only [MetricLog.step] at hstep
      split at hstep
      next e left next hp =>
        have hbatch := h.batches e (h.mem_log hp List.mem_cons_self)
        split at hstep
        next hnone =>
          -- every record of the log is a batch
          rw [hnone] at hbatch
          cases hbatch
        next b hb =>
          split at hstep
          next =>
            cases hstep
            exact h.sendMetrics hp
          next =>
            cases hstep
            exact ⟨_, .single (.abandon s), { h with phase := rfl }⟩
      next => cases hstep
  | finish =>
      simp only [MetricLog.step] at hstep
      split at hstep
      next next hp =>
        cases hstep
        rw [hp] at hphase
        obtain ⟨upTo, i, hbatch, hi, hnext, hleft⟩ := hphase
        have hlength := congrArg List.length hleft
        have hupTo := h.le_length hnext
        rw [List.length_nil, List.length_drop, List.length_take, Nat.min_eq_left hupTo] at hlength
        obtain rfl : i = upTo := by omega
        exact ⟨_, .single (.finish s i hbatch), { h with cursor := hnext, phase := rfl }⟩
      next => cases hstep
  | saveCursor ok =>
      cases hp : q.phase <;>
        simp only [MetricLog.step, hp, Option.some.injEq, reduceCtorEq] at hstep
      rw [hp] at hphase
      subst hstep
      cases ok with
      | true =>
          refine ⟨_, .single (.save s), { h with persisted := ?_, phase := hphase }⟩
          simpa [MetricLog.persisted] using h.cursor
      | false => exact ⟨s, .refl, { h with phase := hphase }⟩

end Refines

/-! ## What the loop delivers -/

variable {q : MetricLog}

/-- A record has been accepted from the loop, or it is at or after the cursor on disk and a
restart reads it. -/
theorem Replays.replayed_or_ahead (h : Replays unmarshal q) {e : WalCursor × Bytes}
    (he : e ∈ q.log) : e ∈ q.replayed ∨ q.persisted.AtOrBefore e.1 ∧
      ∀ maxBytes out, Drains (openWal q.wal.dir maxBytes).dir q.persisted out → e.2 ∈ out := by
  obtain ⟨j, s, hrun, href⟩ := h
  rw [← href.log] at he
  rcases received_or_ahead hrun he with hreceived | hahead
  · exact Or.inl (href.replayed ▸ hreceived)
  · rw [href.log] at hahead
    refine Or.inr ⟨?_, fun maxBytes out hout => href.keeps.reread href.persisted hahead hout⟩
    rw [← href.keeps.filter_log href.persisted] at hahead
    exact of_decide_eq_true (List.mem_filter.mp hahead).2

theorem Replays.in_order (h : Replays unmarshal q) : q.replayed.eraseDups <+: q.log := by
  obtain ⟨j, s, hrun, href⟩ := h
  rw [← href.replayed, ← href.log]
  exact (inv_of_run hrun).order

theorem Replays.step (h : Replays unmarshal q) {batchSize : Nat} {event : ReplayEvent}
    {q' : MetricLog} (hstep : q.step unmarshal batchSize event = some q') :
    Replays unmarshal q' := by
  obtain ⟨j, s, hrun, href⟩ := h
  obtain ⟨t, hmore, hafter⟩ := href.step hstep
  exact ⟨j, t, hrun.trans hmore, hafter⟩

theorem Replays.append (h : Replays unmarshal q) {data : Bytes} (hdata : (unmarshal data).isSome)
    {fault : Option AppendFault} (hheader : ∀ n, fault ≠ some (.writeHeader n))
    (hpayload : ∀ n, fault ≠ some (.writePayload n))
    (hkept : ∀ id ∈ segments q.wal.dir, id ∈ segments (q.append data fault).1.wal.dir) :
    Replays unmarshal (q.append data fault).1 := by
  obtain ⟨j, s, hrun, href⟩ := h
  obtain ⟨k, t, hmore, hafter⟩ := href.append hdata hheader hpayload hkept
  exact ⟨k, t, hrun.trans hmore, hafter⟩

theorem Replays.restart (h : Replays unmarshal q) (maxBytes : Int) (readable : Bool) :
    Replays unmarshal (q.restart maxBytes readable) := by
  obtain ⟨j, s, hrun, href⟩ := h
  obtain ⟨k, t, hmore, hafter⟩ := href.restart maxBytes readable
  exact ⟨k, t, hrun.trans hmore, hafter⟩

end Refinement

end MetricLog

end TomAgent.Reporter
