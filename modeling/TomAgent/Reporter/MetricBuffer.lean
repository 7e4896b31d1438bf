import TomAgent.Core.Execution

/-!
# The buffer of metrics

`Submit` appends samples under the mutex and drops the oldest one when the buffer is full.
`flushMetrics` copies the first samples, releases the mutex while it sends them, and
removes as many samples as it has copied.  A step is one critical section or one call of
the sink.
-/

namespace TomAgent.Reporter

open Execution

variable {α : Type*}

structure Batch (α : Type*) where
  assetId : String
  sentAt : Int
  sequence : UInt64
  samples : List α
deriving DecidableEq

/-- Where `flushMetrics` is; a full batch makes it go round again. -/
inductive Flush (α : Type*) where
  | idle
  /-- Copied, and with the sink. -/
  | sending (b : Batch α)
  /-- Out of the sink, and still in the buffer. -/
  | removing (b : Batch α)

structure MetricBuffer (α : Type*) where
  bufferSize : Nat
  batchSize : Nat
  /-- There is a log for the batches that cannot be sent. -/
  fallback : Bool
  buf : List α
  flush : Flush α
  seq : UInt64
  dropped : UInt64
  /-- The samples of all calls of `Submit`, and those it dropped. -/
  submitted : List α
  evicted : List α
  /-- The batches that the sink took, and those that went to the log. -/
  accepted : List (Batch α)
  logged : List (Batch α)

namespace MetricBuffer

def start (bufferSize batchSize : Nat) (fallback : Bool) : MetricBuffer α :=
  ⟨bufferSize, batchSize, fallback, [], .idle, 0, 0, [], [], [], []⟩

def push (s : MetricBuffer α) (m : α) : MetricBuffer α :=
  if s.bufferSize ≤ s.buf.length then
    { s with
      buf := s.buf.tail ++ [m]
      dropped := s.dropped + 1
      submitted := s.submitted ++ [m]
      evicted := s.evicted ++ s.buf.head?.toList }
  else { s with buf := s.buf ++ [m], submitted := s.submitted ++ [m] }

def submit (s : MetricBuffer α) (metrics : List α) : MetricBuffer α := metrics.foldl push s

inductive Event (α : Type*) where
  | submit (metrics : List α)
  /-- The first critical section of `flushMetrics`. -/
  | copy (assetId : String) (sentAt : Int)
  | sent
  /-- The batch goes to the log, if there is one; the append may fail. -/
  | sendFails (appended : Bool)
  /-- The last critical section. -/
  | remove

def step (s : MetricBuffer α) : Event α → Option (MetricBuffer α)
  | .submit metrics => some (s.submit metrics)
  | .copy assetId sentAt =>
      match s.flush, s.buf with
      | .idle, m :: rest =>
          let samples := (m :: rest).take (min s.batchSize (m :: rest).length)
          some { s with
            seq := s.seq + 1
            flush := .sending ⟨assetId, sentAt, s.seq + 1, samples⟩ }
      | _, _ => none
  | .sent =>
      match s.flush with
      | .sending b => some { s with flush := .removing b, accepted := s.accepted ++ [b] }
      | _ => none
  | .sendFails appended =>
      match s.flush with
      | .sending b =>
          if s.fallback then some { s with
            flush := .removing b
            logged := if appended then s.logged ++ [b] else s.logged }
          else some { s with flush := .idle }
      | _ => none
  | .remove =>
      match s.flush with
      | .removing b => some { s with buf := s.buf.drop b.samples.length, flush := .idle }
      | _ => none

def copied (s : MetricBuffer α) : List α :=
  match s.flush with
  | .idle => []
  | .sending b | .removing b => b.samples

def outgoing (s : MetricBuffer α) : List α :=
  match s.flush with
  | .sending b => b.samples
  | .idle | .removing _ => []

/-- The samples of the buffer that are not on their way out. -/
def waiting (s : MetricBuffer α) : List α := s.buf.drop s.copied.length

def delivered (s : MetricBuffer α) : List α := s.accepted.flatMap Batch.samples

/-- Every sample is in one place: dropped, accepted, being sent or waiting.  What has been
copied is the beginning of the buffer, and the counter says how many were dropped. -/
structure Sound (s : MetricBuffer α) : Prop where
  places : s.submitted.Perm (s.evicted ++ s.delivered ++ s.outgoing ++ s.waiting)
  front : s.copied <+: s.buf
  counter : s.dropped = UInt64.ofNat s.evicted.length

/-- Nothing is dropped between the copying of a batch and its removal, and every batch is
sent. -/
def calm (s : MetricBuffer α) : Event α → Bool
  | .submit metrics =>
      match s.flush with
      | .idle => true
      | .sending _ | .removing _ => s.buf.length + metrics.length ≤ s.bufferSize
  | .sendFails _ => false
  | _ => true

abbrev Calm (s : MetricBuffer α) (e : Event α) : Prop := s.calm e = true

variable {s t : MetricBuffer α}

/-! ## Submit -/

theorem push_room {m : α} (hroom : s.buf.length < s.bufferSize) :
    s.push m = { s with buf := s.buf ++ [m], submitted := s.submitted ++ [m] } := by
  rw [push, if_neg (Nat.not_le_of_lt hroom)]

theorem push_full {m x : α} {rest : List α} (hbuf : s.buf = x :: rest)
    (hfull : s.bufferSize ≤ s.buf.length) :
    s.push m = { s with
      buf := rest ++ [m]
      dropped := s.dropped + 1
      submitted := s.submitted ++ [m]
      evicted := s.evicted ++ [x] } := by
  rw [push, if_pos hfull, hbuf]
  rfl

/-- A sample that finds room is the last one waiting. -/
theorem Sound.push_room (h : s.Sound) {m : α} (hroom : s.buf.length < s.bufferSize) :
    (s.push m).Sound := by
  have hlength := h.front.length_le
  rw [MetricBuffer.push_room hroom]
  refine ⟨?_, ?_, h.counter⟩
  · have hwaiting : (s.buf ++ [m]).drop s.copied.length = s.waiting ++ [m] :=
      List.drop_append_of_le_length hlength
    have hplaces := h.places.append_right [m]
    rw [List.append_assoc _ s.waiting [m], ← hwaiting] at hplaces
    exact hplaces
  · exact h.front.trans (List.prefix_append _ _)

/-- While no batch is on its way, the oldest sample makes room. -/
theorem Sound.push_full (h : s.Sound) (hidle : s.flush = .idle) {m x : α} {rest : List α}
    (hbuf : s.buf = x :: rest) (hfull : s.bufferSize ≤ s.buf.length) : (s.push m).Sound := by
  have hplaces := h.places
  have hcounter := h.counter
  rw [MetricBuffer.push_full hbuf hfull]
  simp only [waiting, outgoing, copied, delivered, hidle, hbuf, List.length_nil, List.drop_zero,
    List.append_nil] at hplaces
  refine ⟨?_, ?_, ?_⟩
  · simp only [waiting, outgoing, copied, delivered, hidle, List.length_nil, List.drop_zero,
      List.append_nil]
    have hmoved : (s.evicted ++ s.accepted.flatMap Batch.samples ++ x :: rest ++ [m]).Perm
        (s.evicted ++ [x] ++ s.accepted.flatMap Batch.samples ++ (rest ++ [m])) := by
      simp only [List.append_assoc, List.cons_append, List.nil_append]
      exact List.perm_middle.append_left s.evicted
    exact (hplaces.append_right [m]).trans hmoved
  · simp [copied, hidle]
  · simp [hcounter]

theorem push_keeps (s : MetricBuffer α) (m : α) :
    (s.push m).flush = s.flush ∧ (s.push m).bufferSize = s.bufferSize := by
  unfold push
  split
  next => exact ⟨rfl, rfl⟩
  next => exact ⟨rfl, rfl⟩

theorem Sound.submit (h : s.Sound) (hsize : 0 < s.bufferSize) {metrics : List α}
    (hcalm : s.flush = .idle ∨ s.buf.length + metrics.length ≤ s.bufferSize) :
    (s.submit metrics).Sound := by
  induction metrics generalizing s with
  | nil => exact h
  | cons m rest ih =>
      obtain ⟨hflush, hsame⟩ := s.push_keeps m
      rw [List.length_cons] at hcalm
      have hsize' : 0 < (s.push m).bufferSize := hsame ▸ hsize
      by_cases hroom : s.buf.length < s.bufferSize
      · refine ih (h.push_room hroom) hsize' ?_
        rw [hflush, hsame, MetricBuffer.push_room hroom, List.length_append, List.length_singleton]
        rcases hcalm with hidle | hfits
        · exact Or.inl hidle
        · exact Or.inr (by omega)
      · have hfull := Nat.le_of_not_lt hroom
        -- a full buffer would have been too small
        have hidle : s.flush = .idle := by
          rcases hcalm with hidle | hfits
          · exact hidle
          · omega
        cases hbuf : s.buf with
        | nil =>
            rw [hbuf, List.length_nil] at hfull
            omega
        | cons x tail =>
            exact ih (h.push_full hidle hbuf hfull) hsize' (Or.inl (hflush.trans hidle))

/-! ## Steps -/

inductive Moves (s : MetricBuffer α) : Event α → MetricBuffer α → Prop
  | submit {metrics} : Moves s (.submit metrics) (s.submit metrics)
  | copy {assetId sentAt} (hidle : s.flush = .idle) : Moves s (.copy assetId sentAt) { s with
      seq := s.seq + 1
      flush := .sending ⟨assetId, sentAt, s.seq + 1,
        s.buf.take (min s.batchSize s.buf.length)⟩ }
  | sent {b} (hsending : s.flush = .sending b) : Moves s .sent { s with
      flush := .removing b
      accepted := s.accepted ++ [b] }
  | logs {appended b l} (hsending : s.flush = .sending b) : Moves s (.sendFails appended) { s with
      flush := .removing b
      logged := l }
  | keeps {appended b} (hsending : s.flush = .sending b) :
      Moves s (.sendFails appended) { s with flush := .idle }
  | remove {b} (hremoving : s.flush = .removing b) : Moves s .remove { s with
      buf := s.buf.drop b.samples.length
      flush := .idle }

theorem step_moves {e : Event α} (h : s.step e = some t) : Moves s e t := by
  cases e with
  | submit metrics =>
      cases h
      exact .submit
  | copy assetId sentAt =>
      simp only [step] at h
      split at h
      next m rest hidle hbuf =>
        cases h
        rw [← hbuf]
        exact .copy hidle
      next => cases h
  | sent =>
      simp only [step] at h
      split at h
      next b hsending =>
        cases h
        exact .sent hsending
      next => cases h
  | sendFails appended =>
      simp only [step] at h
      split at h
      next b hsending =>
        split at h
        next =>
          cases h
          exact .logs hsending
        next =>
          cases h
          exact .keeps hsending
      next => cases h
  | remove =>
      simp only [step] at h
      split at h
      next b hremoving =>
        cases h
        exact .remove hremoving
      next => cases h

theorem Calm.submit {metrics : List α} (h : s.Calm (.submit metrics)) :
    s.flush = .idle ∨ s.buf.length + metrics.length ≤ s.bufferSize := by
  simp only [Calm, calm] at h
  cases hflush : s.flush with
  | idle => exact Or.inl rfl
  | sending b =>
      rw [hflush] at h
      exact Or.inr (of_decide_eq_true h)
  | removing b =>
      rw [hflush] at h
      exact Or.inr (of_decide_eq_true h)

theorem Sound.step (h : s.Sound) (hsize : 0 < s.bufferSize) {e : Event α} (hcalm : s.Calm e)
    (hmoves : Moves s e t) : t.Sound := by
  have hplaces := h.places
  have hfront := h.front
  cases hmoves with
  | submit => exact h.submit hsize hcalm.submit
  | copy hidle =>
      have hcopy : s.buf.take (min s.batchSize s.buf.length) <+: s.buf := List.take_prefix _ _
      refine ⟨?_, hcopy, h.counter⟩
      simp only [waiting, outgoing, copied, hidle, List.length_nil, List.drop_zero,
        List.append_nil] at hplaces
      -- what is copied and what stays are the buffer
      simp only [waiting, outgoing, copied, List.append_assoc,
        List.prefix_iff_eq_append.mp hcopy]
      rw [← List.append_assoc]
      exact hplaces
  | sent hsending =>
      simp only [waiting, outgoing, copied, delivered, hsending, List.append_assoc] at hplaces hfront
      refine ⟨?_, hfront, h.counter⟩
      simp only [waiting, outgoing, copied, delivered, List.flatMap_append, List.flatMap_singleton,
        List.nil_append, List.append_assoc]
      exact hplaces
  | logs | keeps => cases hcalm
  | remove hremoving =>
      simp only [waiting, outgoing, copied, hremoving] at hplaces
      exact ⟨hplaces, List.nil_prefix, h.counter⟩

theorem sound_start (bufferSize batchSize : Nat) (fallback : Bool) :
    (start bufferSize batchSize fallback : MetricBuffer α).Sound :=
  ⟨.refl _, List.nil_prefix, rfl⟩

theorem bufferSize_submit (s : MetricBuffer α) (metrics : List α) :
    (s.submit metrics).bufferSize = s.bufferSize := by
  induction metrics generalizing s with
  | nil => rfl
  | cons m rest ih => exact (ih (s.push m)).trans (s.push_keeps m).2

theorem Moves.bufferSize {e : Event α} (h : Moves s e t) : t.bufferSize = s.bufferSize := by
  cases h with
  | submit => exact s.bufferSize_submit _
  | _ => rfl

/-- If nothing is dropped while a batch is on its way, then in every state each submitted
sample is in one place, what has been copied is still the beginning of the buffer, and the
counter is the number of samples dropped. -/
theorem runs_sound {bufferSize : Nat} (hbuffer : 1 ≤ bufferSize) (batchSize : Nat)
    (fallback : Bool)
    (hrun : Reaches (Fires step Calm) (start bufferSize batchSize fallback) s) :
    s.submitted.Perm (s.evicted ++ s.delivered ++ s.outgoing ++ s.waiting) ∧
      s.buf = s.copied ++ s.waiting ∧ s.dropped = UInt64.ofNat s.evicted.length := by
  have hinv : s.Sound ∧ 0 < s.bufferSize := by
    refine invariant (fun s => s.Sound ∧ 0 < s.bufferSize) ?_
      ⟨sound_start bufferSize batchSize fallback, hbuffer⟩ hrun
    rintro s t ⟨hsound, hsize⟩ ⟨e, hcalm, ht⟩
    have hmoves := step_moves ht
    exact ⟨hsound.step hsize hcalm hmoves, hmoves.bufferSize ▸ hsize⟩
  exact ⟨hinv.1.places, (List.prefix_iff_eq_append.mp hinv.1.front).symm, hinv.1.counter⟩

theorem reaches_of_events (may : MetricBuffer α → Event α → Prop) (bufferSize batchSize : Nat)
    (es : List (Event α)) (P : MetricBuffer α → Prop) [DecidablePred P]
    (hmay : Permitted step may (start bufferSize batchSize false) es)
    (h : (play step (start bufferSize batchSize false) es).any P = true) :
    ∃ s, Reaches (Fires step may) (start bufferSize batchSize false) s ∧ P s :=
  reaches_of_any step es P hmay h

/-- A batch is sent while another sample comes in, and then a full buffer drops its oldest
sample. -/
theorem runs_sound_busy :
    ∃ s : MetricBuffer Nat, Reaches (Fires step Calm) (start 2 1 false) s ∧
      s.submitted = [1, 2, 3, 4] ∧ s.delivered = [1] ∧ s.evicted = [2] ∧ s.waiting = [3, 4] ∧
      s.submitted.Perm (s.evicted ++ s.delivered ++ s.outgoing ++ s.waiting) := by
  obtain ⟨s, hrun, hsubmitted, hdelivered, hevicted, hwaiting⟩ := reaches_of_events Calm 2 1
    [.submit [1], .copy "node-1" 0, .submit [2], .sent, .remove, .submit [3, 4]]
    (fun s : MetricBuffer Nat => s.submitted = [1, 2, 3, 4] ∧ s.delivered = [1] ∧
      s.evicted = [2] ∧ s.waiting = [3, 4])
    (permitted_of_decide (by decide +kernel)) (by decide +kernel)
  exact ⟨s, hrun, hsubmitted, hdelivered, hevicted, hwaiting,
    (runs_sound (by decide) 1 false hrun).1⟩

/-- The only place of the buffer is given to a second sample while the first is being sent.
The first counts as dropped although the sink takes it; the second is removed in its place
and is neither sent nor dropped. -/
theorem unsent_sample_removed :
    ∃ s : MetricBuffer Nat, Reaches (Fires step fun _ e => ∀ appended, e ≠ .sendFails appended)
        (start 1 1 false) s ∧
      s.submitted = [1, 2] ∧ s.delivered = [1] ∧ s.evicted = [1] ∧ s.dropped = 1 ∧
      s.buf = [] ∧ s.outgoing = [] ∧
      ¬ s.submitted.Perm (s.evicted ++ s.delivered ++ s.outgoing ++ s.waiting) := by
  obtain ⟨s, hrun, hs⟩ := reaches_of_events (fun _ e => ∀ appended, e ≠ .sendFails appended) 1 1
    [.submit [1], .copy "node-1" 0, .submit [2], .sent, .remove]
    (fun s : MetricBuffer Nat => s.submitted = [1, 2] ∧ s.delivered = [1] ∧ s.evicted = [1] ∧
      s.dropped = 1 ∧ s.buf = [] ∧ s.outgoing = [] ∧
      ¬ s.submitted.Perm (s.evicted ++ s.delivered ++ s.outgoing ++ s.waiting))
    (permitted_of_forall (by simp) _) (by decide +kernel)
  exact ⟨s, hrun, hs⟩

end MetricBuffer

end TomAgent.Reporter
