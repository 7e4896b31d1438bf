import TomAgent.Reporter.MetricBuffer
import TomAgent.Reporter.MetricReplay

/-!
# Where metric samples are

`Submit`, `flushMetrics` with its fallback, the replay of the metrics log and restarts
of the process, together.  The buffer is in memory and ends with the process; the log and
its cursor are on disk.

A sample that was submitted is at all times in one place: dropped and counted, sent, in
a batch on its way to the log or refused by it, or still in the buffer of its process.
What a batch in the log is worth is settled by the replay: it is accepted later, or the
cursor on disk has not passed it.
-/

def TomAgent.Wal.AppendFault.tears : TomAgent.Wal.AppendFault → Bool
  | .writeHeader _ | .writePayload _ => true
  | .openActive _ | .sync | .readDir | .remove _ => false

namespace TomAgent.Reporter

open Wal Execution

variable {α : Type}

/-- One process: its buffer, and the batches that were neither sent nor confirmed by the
log. -/
structure Life (α : Type) where
  buffer : MetricBuffer α
  refused : List (Batch α)

/-- `past` are the processes that have ended, as they were then. -/
structure MetricPath (α : Type) where
  life : Life α
  past : List (Life α)
  store : MetricLog

inductive PathEvent (α : Type) where
  | submit (metrics : List α)
  /-- `flushMetrics` copies a batch and hands it to the sink. -/
  | copy (assetId : String) (sentAt : Int)
  | sent
  /-- The sink refuses, and the batch goes to the log. -/
  | sendFails (fault : Option AppendFault)
  | remove
  | replay (event : ReplayEvent)
  | restart (bufferSize batchSize : Nat) (maxBytes : Int) (readable : Bool)

namespace MetricPath

def start (dir : Dir) (bufferSize batchSize : Nat) (maxBytes : Int) : MetricPath α :=
  ⟨⟨.start bufferSize batchSize true, []⟩, [], .start dir maxBytes⟩

def lives (p : MetricPath α) : List (Life α) := p.past ++ [p.life]

def buffered (p : MetricPath α) (e : MetricBuffer.Event α) : Option (MetricPath α) :=
  (p.life.buffer.step e).map fun b => { p with life := { p.life with buffer := b } }

section Step

variable (marshal : Batch α → Option Bytes) (unmarshal : Bytes → Option (Batch α))

def step (p : MetricPath α) : PathEvent α → Option (MetricPath α)
  | .submit metrics => p.buffered (.submit metrics)
  | .copy assetId sentAt => p.buffered (.copy assetId sentAt)
  | .sent => p.buffered .sent
  | .remove => p.buffered .remove
  | .sendFails fault =>
      match p.life.buffer.flush with
      | .sending b =>
          match marshal b with
          | none =>
              (p.life.buffer.step (.sendFails false)).map fun buffer =>
                { p with life := ⟨buffer, p.life.refused ++ [b]⟩ }
          | some data =>
              let done := p.store.append data fault
              (p.life.buffer.step (.sendFails (done.2 = none))).map fun buffer =>
                { p with
                  life := ⟨buffer,
                    if done.2 = none then p.life.refused else p.life.refused ++ [b]⟩
                  store := done.1 }
      | _ => none
  | .replay event =>
      (p.store.step unmarshal p.life.buffer.batchSize event).map fun store =>
        { p with store := store }
  | .restart bufferSize batchSize maxBytes readable =>
      some ⟨⟨.start bufferSize batchSize true, []⟩, p.lives, p.store.restart maxBytes readable⟩

def pending (p : MetricPath α) : Option Bytes :=
  match p.life.buffer.flush with
  | .sending b => marshal b
  | _ => none

/-- A submission overflows the buffer only while no batch is on its way, no write stops
half way, the quota deletes no segment, and the buffer of a new process has room. -/
def Orderly (p : MetricPath α) : PathEvent α → Prop
  | .submit metrics => p.life.buffer.Calm (.submit metrics)
  | .sendFails fault =>
      (∀ f ∈ fault, f.tears = false) ∧ ∀ data ∈ p.pending marshal,
        ∀ id ∈ segments p.store.wal.dir, id ∈ segments (p.store.append data fault).1.wal.dir
  | .restart bufferSize _ _ _ => 1 ≤ bufferSize
  | _ => True

instance (p : MetricPath α) : ∀ e, Decidable (p.Orderly marshal e)
  | .submit metrics => inferInstanceAs (Decidable (p.life.buffer.Calm (.submit metrics)))
  | .sendFails fault => inferInstanceAs (Decidable ((∀ f ∈ fault, f.tears = false) ∧
      ∀ data ∈ p.pending marshal, ∀ id ∈ segments p.store.wal.dir,
        id ∈ segments (p.store.append data fault).1.wal.dir))
  | .restart bufferSize _ _ _ => inferInstanceAs (Decidable (1 ≤ bufferSize))
  | .copy _ _ | .sent | .remove | .replay _ => isTrue trivial

end Step

end MetricPath

/-! ## The samples of one process -/

namespace MetricBuffer

variable {s t : MetricBuffer α}

/-- The buffer as it would be if the sink had taken what went to the log or was refused. -/
def settled (s : MetricBuffer α) (refused : List (Batch α)) : MetricBuffer α :=
  { s with accepted := s.accepted ++ (s.logged ++ refused) }

theorem Sound.perm (h : s.Sound) {accepted logged : List (Batch α)}
    (hperm : s.accepted.Perm accepted) :
    Sound { s with accepted := accepted, logged := logged } := by
  refine ⟨?_, h.front, h.counter⟩
  refine h.places.trans ?_
  have hdelivered : s.delivered.Perm (accepted.flatMap Batch.samples) := hperm.flatMap_right _
  exact (((hdelivered.append_left _).append_right _).append_right _)

theorem settled_push (s : MetricBuffer α) (refused : List (Batch α)) (m : α) :
    (s.push m).settled refused = (s.settled refused).push m := by
  by_cases hfull : s.bufferSize ≤ s.buf.length
  · simp [settled, push, hfull]
  · simp [settled, push, hfull]

theorem settled_submit (s : MetricBuffer α) (refused : List (Batch α)) (metrics : List α) :
    (s.submit metrics).settled refused = (s.settled refused).submit metrics := by
  induction metrics generalizing s with
  | nil => rfl
  | cons m rest ih =>
      have hrest := ih (s.push m)
      rw [settled_push] at hrest
      exact hrest

theorem submit_keeps (s : MetricBuffer α) (metrics : List α) :
    (s.submit metrics).fallback = s.fallback ∧ (s.submit metrics).logged = s.logged := by
  induction metrics generalizing s with
  | nil => exact ⟨rfl, rfl⟩
  | cons m rest ih =>
      have hpush : (s.push m).fallback = s.fallback ∧ (s.push m).logged = s.logged := by
        unfold push
        split <;> exact ⟨rfl, rfl⟩
      exact ⟨(ih (s.push m)).1.trans hpush.1, (ih (s.push m)).2.trans hpush.2⟩

end MetricBuffer

namespace Life

structure Accounted (life : Life α) : Prop where
  sound : (life.buffer.settled life.refused).Sound
  room : 0 < life.buffer.bufferSize
  fallback : life.buffer.fallback = true

variable {life : Life α}

/-- A batch leaves the sink: it was taken, went to the log or was refused by it. -/
theorem Accounted.leave (h : life.Accounted) {b : Batch α}
    (hsending : life.buffer.flush = .sending b) {accepted logged refused : List (Batch α)}
    (hperm : (life.buffer.accepted ++ (life.buffer.logged ++ life.refused) ++ [b]).Perm
      (accepted ++ (logged ++ refused))) :
    Accounted ⟨{ life.buffer with
      flush := .removing b
      accepted := accepted
      logged := logged }, refused⟩ := by
  have hcalm : (life.buffer.settled life.refused).Calm .sent := rfl
  have hsound := h.sound.step h.room hcalm (.sent hsending)
  exact ⟨hsound.perm hperm, h.room, h.fallback⟩

theorem Accounted.step (h : life.Accounted) {e : MetricBuffer.Event α} {t : MetricBuffer α}
    (hcalm : life.buffer.Calm e) (hevent : ∀ appended, e ≠ .sendFails appended)
    (hstep : life.buffer.step e = some t) :
    Accounted { life with buffer := t } ∧ t.logged = life.buffer.logged := by
  cases MetricBuffer.step_moves hstep with
  | @submit metrics =>
      have hkeeps := life.buffer.submit_keeps metrics
      refine ⟨⟨?_, ?_, hkeeps.1.trans h.fallback⟩, hkeeps.2⟩
      · rw [MetricBuffer.settled_submit]
        exact h.sound.submit h.room hcalm.submit
      · rw [MetricBuffer.bufferSize_submit]
        exact h.room
  | @copy assetId sentAt hidle =>
      have hcalm' : (life.buffer.settled life.refused).Calm (.copy assetId sentAt) := rfl
      exact ⟨⟨h.sound.step h.room hcalm' (.copy hidle), h.room, h.fallback⟩, rfl⟩
  | sent hsending =>
      refine ⟨h.leave hsending ?_, rfl⟩
      simp only [List.append_assoc]
      refine List.Perm.append_left _ ?_
      rw [← List.append_assoc]
      exact List.perm_append_comm
  | remove hremoving =>
      have hcalm' : (life.buffer.settled life.refused).Calm .remove := rfl
      exact ⟨⟨h.sound.step h.room hcalm' (.remove hremoving), h.room, h.fallback⟩, rfl⟩
  | logs hsending => exact absurd rfl (hevent _)
  | keeps hsending => exact absurd rfl (hevent _)

theorem step_sendFails (h : life.Accounted) {b : Batch α}
    (hsending : life.buffer.flush = .sending b) {appended : Bool} {t : MetricBuffer α}
    (hstep : life.buffer.step (.sendFails appended) = some t) :
    t = { life.buffer with
      flush := .removing b
      logged := if appended then life.buffer.logged ++ [b] else life.buffer.logged } := by
  simp only [MetricBuffer.step, hsending] at hstep
  rw [if_pos h.fallback] at hstep
  exact (Option.some.inj hstep).symm

end Life

/-! ## The whole path -/

namespace MetricPath

variable {marshal : Batch α → Option Bytes} {unmarshal : Bytes → Option (Batch α)}
variable {p : MetricPath α}

def Logged (unmarshal : Bytes → Option (Batch α)) (p : MetricPath α) (b : Batch α) : Prop :=
  ∃ e ∈ p.store.log, unmarshal e.2 = some b

structure Inv (unmarshal : Bytes → Option (Batch α)) (p : MetricPath α) : Prop where
  accounted : ∀ life ∈ p.lives, life.Accounted
  replays : p.store.Replays unmarshal
  logged : ∀ life ∈ p.lives, ∀ b ∈ life.buffer.logged, Logged unmarshal p b

theorem mem_lives {life : Life α} : life ∈ p.lives ↔ life ∈ p.past ∨ life = p.life := by
  simp [lives]

theorem Inv.proceed (h : Inv unmarshal p) {life : Life α} (hlife : life.Accounted)
    {store : MetricLog} (hreplays : store.Replays unmarshal) (hlog : p.store.log ⊆ store.log)
    (hlogged : ∀ b ∈ life.buffer.logged, b ∈ p.life.buffer.logged ∨
      ∃ e ∈ store.log, unmarshal e.2 = some b) :
    Inv unmarshal { p with life := life, store := store } := by
  have hkept : ∀ b, Logged unmarshal p b → ∃ e ∈ store.log, unmarshal e.2 = some b := by
    rintro b ⟨e, he, hb⟩
    exact ⟨e, hlog he, hb⟩
  refine ⟨?_, hreplays, ?_⟩
  · intro life' hlife'
    cases mem_lives.mp hlife' with
    | inl hpast => exact h.accounted life' (mem_lives.mpr (Or.inl hpast))
    | inr hrunning => exact hrunning ▸ hlife
  · intro life' hlife' b hb
    cases mem_lives.mp hlife' with
    | inl hpast => exact hkept b (h.logged life' (mem_lives.mpr (Or.inl hpast)) b hb)
    | inr hrunning =>
        subst hrunning
        cases hlogged b hb with
        | inl hold => exact hkept b (h.logged p.life (mem_lives.mpr (Or.inr rfl)) b hold)
        | inr hnew => exact hnew

theorem Inv.running (h : Inv unmarshal p) : p.life.Accounted :=
  h.accounted p.life (mem_lives.mpr (Or.inr rfl))

theorem Inv.buffered (h : Inv unmarshal p) (e : MetricBuffer.Event α) {t : MetricPath α}
    (hcalm : p.life.buffer.Calm e) (hevent : ∀ appended, e ≠ .sendFails appended)
    (hstep : p.buffered e = some t) : Inv unmarshal t := by
  obtain ⟨buffer, hbuffer, rfl⟩ := Option.map_eq_some_iff.mp hstep
  obtain ⟨haccounted, hlogged⟩ := h.running.step hcalm hevent hbuffer
  refine h.proceed haccounted h.replays (List.Subset.refl _) ?_
  intro b hb
  rw [← hlogged]
  exact Or.inl hb

/-- The batch is neither sent nor confirmed by the log. -/
theorem Inv.refuse (h : Inv unmarshal p) {b : Batch α}
    (hsending : p.life.buffer.flush = .sending b) {store : MetricLog}
    (hreplays : store.Replays unmarshal) (hlog : p.store.log ⊆ store.log) :
    Inv unmarshal { p with
      life := ⟨{ p.life.buffer with flush := .removing b }, p.life.refused ++ [b]⟩
      store := store } := by
  refine h.proceed (h.running.leave hsending ?_) hreplays hlog (fun _ hb => Or.inl hb)
  simp only [List.append_assoc]
  exact .refl _

theorem Inv.sendFails (h : Inv unmarshal p)
    (hcodec : ∀ b data, marshal b = some data → unmarshal data = some b)
    {fault : Option AppendFault} (hmay : p.Orderly marshal (.sendFails fault))
    {t : MetricPath α} (hstep : p.step marshal unmarshal (.sendFails fault) = some t) :
    Inv unmarshal t := by
  obtain ⟨htears, hkept⟩ := hmay
  have hheader : ∀ n, fault ≠ some (.writeHeader n) := fun n hfault =>
    Bool.noConfusion (htears _ hfault)
  have hpayload : ∀ n, fault ≠ some (.writePayload n) := fun n hfault =>
    Bool.noConfusion (htears _ hfault)
  simp only [step] at hstep
  split at hstep
  next b hsending =>
    split at hstep
    next hnone =>
      obtain ⟨buffer, hbuffer, rfl⟩ := Option.map_eq_some_iff.mp hstep
      rw [Life.step_sendFails h.running hsending hbuffer]
      exact h.refuse hsending h.replays (List.Subset.refl _)
    next data hdata =>
      obtain ⟨buffer, hbuffer, rfl⟩ := Option.map_eq_some_iff.mp hstep
      rw [Life.step_sendFails h.running hsending hbuffer]
      have hbatch := hcodec b data hdata
      have hpending : data ∈ p.pending marshal := by
        simp only [pending, hsending]
        exact hdata
      have hreplays := h.replays.append (by rw [hbatch]; rfl) hheader hpayload
        (hkept data hpending)
      have hlog : p.store.log ⊆ (p.store.append data fault).1.log :=
        List.subset_append_left _ _
      by_cases hok : (p.store.append data fault).2 = none
      · simp only [hok, decide_true, if_true]
        refine h.proceed (h.running.leave hsending ?_) hreplays hlog ?_
        · simp only [List.append_assoc]
          refine List.Perm.append_left _ (List.Perm.append_left _ ?_)
          exact List.perm_append_comm
        · intro b' hb'
          cases List.mem_append.mp hb' with
          | inl hold => exact Or.inl hold
          | inr hnew =>
              rw [List.mem_singleton.mp hnew]
              have hrecorded : Recorded (p.store.wal.append data fault).2 := by
                rw [show (p.store.wal.append data fault).2 = none from hok]
                trivial
              refine Or.inr ⟨((p.store.wal.append data fault).1.lastPlace data, data), ?_, hbatch⟩
              simp only [MetricLog.append, if_pos hrecorded]
              exact List.mem_append_right _ (List.mem_singleton.mpr rfl)
      · simp only [hok, decide_false, Bool.false_eq_true, if_false]
        exact h.refuse hsending hreplays hlog
  next => cases hstep

theorem Inv.born {past : List (Life α)} {store : MetricLog}
    (haccounted : ∀ life ∈ past, life.Accounted) (hreplays : store.Replays unmarshal)
    (hlogged : ∀ life ∈ past, ∀ b ∈ life.buffer.logged, ∃ e ∈ store.log, unmarshal e.2 = some b)
    {bufferSize : Nat} (hsize : 1 ≤ bufferSize) (batchSize : Nat) :
    Inv unmarshal ⟨⟨.start bufferSize batchSize true, []⟩, past, store⟩ := by
  refine ⟨?_, hreplays, ?_⟩
  · intro life hlife
    cases mem_lives.mp hlife with
    | inl hpast => exact haccounted life hpast
    | inr hrunning =>
        rw [hrunning]
        exact ⟨MetricBuffer.sound_start bufferSize batchSize true, hsize, rfl⟩
  · intro life hlife b hb
    cases mem_lives.mp hlife with
    | inl hpast => exact hlogged life hpast b hb
    | inr hrunning =>
        rw [hrunning] at hb
        cases hb

theorem Inv.step (h : Inv unmarshal p)
    (hcodec : ∀ b data, marshal b = some data → unmarshal data = some b) {e : PathEvent α}
    (hmay : p.Orderly marshal e) {t : MetricPath α}
    (hstep : p.step marshal unmarshal e = some t) : Inv unmarshal t := by
  cases e with
  | submit metrics => exact h.buffered (.submit metrics) hmay nofun hstep
  | copy assetId sentAt => exact h.buffered (.copy assetId sentAt) rfl nofun hstep
  | sent => exact h.buffered .sent rfl nofun hstep
  | remove => exact h.buffered .remove rfl nofun hstep
  | sendFails fault => exact h.sendFails hcodec hmay hstep
  | replay event =>
      obtain ⟨store, hstore, rfl⟩ := Option.map_eq_some_iff.mp hstep
      refine h.proceed h.running (h.replays.step hstore) ?_ (fun _ hb => Or.inl hb)
      rw [MetricLog.log_step hstore]
      exact List.Subset.refl _
  | restart bufferSize batchSize maxBytes readable =>
      cases hstep
      exact .born h.accounted (h.replays.restart maxBytes readable) h.logged hmay batchSize

theorem inv_of_run (hcodec : ∀ b data, marshal b = some data → unmarshal data = some b)
    {dir : Dir} (hdir : segments dir = []) {bufferSize : Nat} (hsize : 1 ≤ bufferSize)
    {batchSize : Nat} {maxBytes : Int}
    (run : Reaches (Fires (step marshal unmarshal) (Orderly marshal))
      (start dir bufferSize batchSize maxBytes) p) : Inv unmarshal p := by
  refine Execution.invariant (Inv unmarshal) ?_ ?_ run
  · rintro s t hs ⟨e, hmay, hstep⟩
    exact hs.step hcodec hmay hstep
  · exact @Inv.born α unmarshal [] _ (by simp) (MetricLog.start_replays unmarshal hdir maxBytes)
      (by simp) bufferSize hsize batchSize

/-- Over every interleaving of submissions, flushes, a sink that takes or refuses, the fallback
to the log, the replay of the log and restarts, where a decoded record is the batch that was
encoded, no write is torn, the quota deletes nothing and the buffer does not overflow while a
batch is on its way: every sample submitted to a process was dropped, sent, written to the log
or refused by it, or is in the batch on its way or in the buffer, each in one of these places
only.  A batch written to the log has been accepted in a replay, or is at or after the cursor on
disk, so that a restart reads it again.  The replayed records, without repetitions, are the
beginning of the log. -/
theorem samples_accounted (hcodec : ∀ b data, marshal b = some data → unmarshal data = some b)
    {dir : Dir} (hdir : segments dir = []) {bufferSize : Nat} (hsize : 1 ≤ bufferSize)
    {batchSize : Nat} {maxBytes : Int}
    (run : Reaches (Fires (step marshal unmarshal) (Orderly marshal))
      (start dir bufferSize batchSize maxBytes) p) :
    (∀ life ∈ p.lives, life.buffer.submitted.Perm (life.buffer.evicted ++
      (life.buffer.accepted ++ (life.buffer.logged ++ life.refused)).flatMap Batch.samples ++
        life.buffer.outgoing ++ life.buffer.waiting)) ∧
    (∀ life ∈ p.lives, ∀ b ∈ life.buffer.logged, ∃ e ∈ p.store.log, unmarshal e.2 = some b ∧
      (e ∈ p.store.replayed ∨ p.store.persisted.AtOrBefore e.1 ∧ ∀ maxBytes out,
        Drains (openWal p.store.wal.dir maxBytes).dir p.store.persisted out → e.2 ∈ out)) ∧
    p.store.replayed.eraseDups <+: p.store.log := by
  have hinv := inv_of_run hcodec hdir hsize run
  refine ⟨fun life hlife => (hinv.accounted life hlife).sound.places, ?_, hinv.replays.in_order⟩
  intro life hlife b hb
  obtain ⟨e, he, hbatch⟩ := hinv.logged life hlife b hb
  exact ⟨e, he, hbatch, hinv.replays.replayed_or_ahead he⟩

def sampleBatch : Batch Nat := ⟨"node-1", 5, 1, [7, 8]⟩

def sampleText : Bytes := JsonText.utf8
  "\x7b\"asset_id\":\"node-1\",\"sent_at\":5,\"sequence\":1,\"samples\":[7,8]\x7d".toList

def sampleMarshal (b : Batch Nat) : Option Bytes :=
  if b = sampleBatch then some sampleText else none

def sampleUnmarshal (data : Bytes) : Option (Batch Nat) :=
  if data = sampleText then some sampleBatch else none

/-- The batch goes to the log, and the process ends.  The next one replays it; the sink
refuses it once. -/
theorem samples_accounted_replayed :
    ∃ p : MetricPath Nat, Reaches (Fires (step sampleMarshal sampleUnmarshal)
        (Orderly sampleMarshal)) (start ∅ 4 2 0) p ∧
      (p.lives.map fun life => life.buffer.submitted) = [sampleBatch.samples, []] ∧
      p.store.replayed.map Prod.snd = [sampleText] ∧
      ∀ life ∈ p.lives, life.buffer.submitted.Perm (life.buffer.evicted ++
        (life.buffer.accepted ++ (life.buffer.logged ++ life.refused)).flatMap Batch.samples ++
          life.buffer.outgoing ++ life.buffer.waiting) := by
  have hcodec : ∀ b data, sampleMarshal b = some data → sampleUnmarshal data = some b := by
    intro b data h
    obtain ⟨rfl, rfl⟩ : b = sampleBatch ∧ sampleText = data := by simpa [sampleMarshal] using h
    exact if_pos rfl
  obtain ⟨p, run, hlives, hreplayed⟩ := @reaches_of_any _ _ (step sampleMarshal sampleUnmarshal)
    (Orderly sampleMarshal) (start ∅ 4 2 0)
    [.submit sampleBatch.samples, .copy "node-1" 5, .sendFails none, .remove,
      .restart 4 2 0 true, .replay (.readFrom true), .replay (.sendMetrics false),
      .replay (.readFrom true), .replay (.sendMetrics true), .replay .finish,
      .replay (.saveCursor true)]
    (fun p => (p.lives.map fun life => life.buffer.submitted) = [sampleBatch.samples, []] ∧
      p.store.replayed.map Prod.snd = [sampleText])
    inferInstance (permitted_of_decide (by decide +kernel)) (by decide +kernel)
  exact ⟨p, run, hlives, hreplayed, (samples_accounted hcodec rfl (by decide) run).1⟩

end MetricPath

end TomAgent.Reporter
