import TomAgent.Uplink.Reports

/-!
# The metrics stream

Batches carry a sequence number.  The send loop enters a batch's channel in
`metricAcks` under its number, and an acknowledgement completes every channel
entered under that number or a lower one.  Two producers feed the stream: the
flush of fresh samples numbers its batches from one in every run of the process,
and the replay of the metrics WAL sends batches under the number they were written
with.

`metricAcks` is a concurrent map.  A pass over it loads an entry, sends on its
channel and deletes the key in three separate steps, and the receive loops and
`failAllWaiters` may all be in such a pass at the same time.
-/

namespace TomAgent.Uplink

open Handoff

structure MetricBatch where
  sequence : Nat
  /-- Asset id, time and samples; no step looks at them. -/
  body : Bytes
deriving Repr, DecidableEq

inductive Sweep where
  | idle
  | between
  /-- An entry is loaded, its channel not yet served. -/
  | loaded (key call : Nat)
  /-- The channel is served, the key not yet deleted. -/
  | delivered (key call : Nat)
deriving Repr, DecidableEq

/-- One run of the agent process, with the gateway. -/
structure Metrics where
  /-- The sequence number of the last fresh batch. -/
  seq : Nat
  /-- The batches in the metrics WAL. -/
  wal : List MetricBatch
  next : Nat
  batch : Nat → MetricBatch
  /-- The call is the flush of fresh samples, not a replay. -/
  live : Nat → Bool
  phase : Nat → Phase
  ch : Slots Nat Completion
  /-- `metricOut`, and the entry the send loop of each session works on. -/
  metricOut : Queue Nat Nat
  /-- The call whose `Send` failed and whose channel gets the error next. -/
  failing : Nat → Option Nat
  stopped : Nat → Bool
  /-- The call whose channel is entered under a sequence number. -/
  metricAcks : Nat → Option Nat
  /-- The pass of `failAllWaiters`, and those of the receive loops. -/
  sweep : Option Nat → Sweep
  /-- The acknowledgement the receive loop works on. -/
  acked : Nat → Nat
  frames : Nat → List MetricBatch
  /-- What is sent on the stream from now on never arrives. -/
  broken : Nat → Bool
  acks : Nat → List Nat
  /-- The batches for which the sink returned nil. -/
  accepted : List MetricBatch

def metricOutCap : Nat := 64

namespace Metrics

/-- A process starts with what the WAL and the gateway hold from earlier runs. -/
def start (wal accepted : List MetricBatch) : Metrics where
  seq := 0
  wal := wal
  next := 0
  batch := fun _ => ⟨0, []⟩
  live := fun _ => false
  phase := fun _ => .idle
  ch := fun _ => none
  metricOut := .empty
  failing := fun _ => none
  stopped := fun _ => false
  metricAcks := fun _ => none
  sweep := fun _ => .idle
  acked := fun _ => 0
  frames := fun _ => []
  broken := fun _ => false
  acks := fun _ => []
  accepted := accepted

inductive Event where
  /-- `flushMetrics` numbers the next batch and calls `SendMetrics`. -/
  | flush (body : Bytes)
  /-- The replay loop calls `SendMetrics` with a batch of the WAL. -/
  | replay (b : MetricBatch)
  | enqueue (call : Nat)
  | queueFull (call : Nat)
  /-- The batch of a failed flush goes to the WAL. -/
  | fallback (call : Nat)
  /-- The send loop takes the next entry and enters its channel. -/
  | take (session : Nat)
  | sent (session : Nat)
  /-- `Send` fails: the sequence number is deleted. -/
  | sendFails (session : Nat)
  /-- The send loop passes the error on and returns. -/
  | passError (session : Nat)
  | serve (session : Nat) (ok : Bool)
  /-- The receive loop reads an acknowledgement and starts its pass. -/
  | recvAck (session : Nat)
  | failAllWaiters
  | load (who : Option Nat) (key : Nat)
  | deliver (who : Option Nat)
  | delete (who : Option Nat)
  | endSweep (who : Option Nat)
  /-- The connection breaks: only so many batches and acknowledgements still arrive. -/
  | lose (session batches acks : Nat)
  /-- The gateway accepts a batch an earlier process had sent. -/
  | lateArrival (b : MetricBatch)
  | receive (call : Nat)
  | giveUp (call : Nat)
deriving Repr, DecidableEq

/-- The channels an event sends to without a way out.  The pass of
`failAllWaiters` does not wait on a full channel. -/
def sends (s : Metrics) : Event → List Nat
  | .passError session => (s.failing session).toList
  | .deliver (some session) =>
      match s.sweep (some session) with
      | .loaded _ c => [c]
      | _ => []
  | _ => []

def call (s : Metrics) (b : MetricBatch) (live : Bool) : Metrics :=
  { s with
    next := s.next + 1
    batch := Function.update s.batch s.next b
    live := Function.update s.live s.next live
    phase := Function.update s.phase s.next .registered }

def verdict : Option Nat → Completion
  | some _ => .ok
  | none => .error

def covers (s : Metrics) (who : Option Nat) (key : Nat) : Prop :=
  ∀ session ∈ who, key ≤ s.acked session

instance (s : Metrics) (who : Option Nat) (key : Nat) : Decidable (s.covers who key) := by
  unfold covers
  cases who <;> infer_instance

def perform (s : Metrics) : Event → Option Metrics
  | .flush body => some { s.call ⟨s.seq + 1, body⟩ true with seq := s.seq + 1 }
  | .replay b => if b ∈ s.wal then some (s.call b false) else none
  | .enqueue c =>
      if s.phase c = .registered ∧ s.metricOut.waiting.length < metricOutCap then
        some { s with
          phase := Function.update s.phase c .waiting
          metricOut := s.metricOut.push c }
      else none
  | .queueFull c =>
      if s.phase c = .registered then
        some { s with phase := Function.update s.phase c (.returned .queueFull) }
      else none
  | .fallback c =>
      match s.live c, s.phase c with
      | true, .returned o =>
          if o = .received .ok then none else some { s with wal := s.wal ++ [s.batch c] }
      | _, _ => none
  | .take session =>
      if s.stopped session then none
      else (s.metricOut.take session).map fun r =>
        { s with
          metricOut := r.2
          metricAcks := Function.update s.metricAcks (s.batch r.1).sequence (some r.1) }
  | .sent session =>
      (s.metricOut.held session).map fun c =>
        { s with
          metricOut := s.metricOut.release session
          frames :=
            if s.broken session then s.frames
            else Function.update s.frames session (s.frames session ++ [s.batch c]) }
  | .sendFails session =>
      (s.metricOut.held session).map fun c =>
        { s with
          metricOut := s.metricOut.release session
          metricAcks := Function.update s.metricAcks (s.batch c).sequence none
          stopped := Function.update s.stopped session true
          failing := Function.update s.failing session (some c) }
  | .passError session =>
      (s.failing session).map fun c =>
        { s with
          failing := Function.update s.failing session none
          ch := s.ch.fill [c] .error }
  | .serve session ok =>
      match s.frames session with
      | [] => none
      | b :: rest =>
          if ok then
            some { s with
              accepted := s.accepted ++ [b]
              frames := Function.update s.frames session rest
              acks := Function.update s.acks session (s.acks session ++ [b.sequence]) }
          else
            -- The handler returns the sink's error, which ends the stream.
            some { s with
              frames := Function.update s.frames session []
              broken := Function.update s.broken session true }
  | .recvAck session =>
      match s.sweep (some session), s.acks session with
      | .idle, a :: rest =>
          some { s with
            acks := Function.update s.acks session rest
            acked := Function.update s.acked session a
            sweep := Function.update s.sweep (some session) .between }
      | _, _ => none
  | .failAllWaiters =>
      match s.sweep none with
      | .idle => some { s with sweep := Function.update s.sweep none .between }
      | _ => none
  | .load who key =>
      match s.sweep who, s.metricAcks key with
      | .between, some c =>
          if s.covers who key then
            some { s with sweep := Function.update s.sweep who (.loaded key c) }
          else none
      | _, _ => none
  | .deliver who =>
      match s.sweep who with
      | .loaded key c =>
          some { s with
            ch := if s.ch c = none then s.ch.fill [c] (verdict who) else s.ch
            sweep := Function.update s.sweep who (.delivered key c) }
      | _ => none
  | .delete who =>
      match s.sweep who with
      | .delivered key _ =>
          some { s with
            metricAcks := Function.update s.metricAcks key none
            sweep := Function.update s.sweep who .between }
      | _ => none
  | .endSweep who =>
      match s.sweep who with
      | .between => some { s with sweep := Function.update s.sweep who .idle }
      | _ => none
  | .lose session batches acks =>
      some { s with
        frames := Function.update s.frames session ((s.frames session).take batches)
        broken := Function.update s.broken session true
        acks := Function.update s.acks session ((s.acks session).take acks) }
  | .lateArrival b => some { s with accepted := s.accepted ++ [b] }
  | .receive c =>
      match s.phase c, s.ch c with
      | .waiting, some v =>
          some { s with
            phase := Function.update s.phase c (.returned (.received v))
            ch := Function.update s.ch c none }
      | _, _ => none
  | .giveUp c =>
      if s.phase c = .waiting then
        some { s with phase := Function.update s.phase c (.returned .gaveUp) }
      else none

/-- A goroutine that sends to a full channel stays where it is. -/
def step (s : Metrics) (e : Event) : Option Metrics :=
  if ∀ c ∈ s.sends e, s.ch c = none then s.perform e else none

/-- The effect of an event with what allows it, case by case. -/
inductive Performs (s : Metrics) : Event → Metrics → Prop
  | flush {body : Bytes} :
      Performs s (.flush body) { s.call ⟨s.seq + 1, body⟩ true with seq := s.seq + 1 }
  | replay {b : MetricBatch} (hb : b ∈ s.wal) : Performs s (.replay b) (s.call b false)
  | enqueue {c : Nat} (hphase : s.phase c = .registered)
      (hroom : s.metricOut.waiting.length < metricOutCap) :
      Performs s (.enqueue c) { s with
        phase := Function.update s.phase c .waiting
        metricOut := s.metricOut.push c }
  | queueFull {c : Nat} (hphase : s.phase c = .registered) :
      Performs s (.queueFull c)
        { s with phase := Function.update s.phase c (.returned .queueFull) }
  | fallback {c : Nat} {o : Outcome} (hlive : s.live c = true) (hphase : s.phase c = .returned o)
      (hfailed : o ≠ .received .ok) :
      Performs s (.fallback c) { s with wal := s.wal ++ [s.batch c] }
  | take {session c : Nat} {q : Queue Nat Nat} (hrunning : ¬ s.stopped session = true)
      (htake : s.metricOut.take session = some (c, q)) :
      Performs s (.take session) { s with
        metricOut := q
        metricAcks := Function.update s.metricAcks (s.batch c).sequence (some c) }
  | sent {session c : Nat} (hheld : s.metricOut.held session = some c) :
      Performs s (.sent session) { s with
        metricOut := s.metricOut.release session
        frames :=
          if s.broken session then s.frames
          else Function.update s.frames session (s.frames session ++ [s.batch c]) }
  | sendFails {session c : Nat} (hheld : s.metricOut.held session = some c) :
      Performs s (.sendFails session) { s with
        metricOut := s.metricOut.release session
        metricAcks := Function.update s.metricAcks (s.batch c).sequence none
        stopped := Function.update s.stopped session true
        failing := Function.update s.failing session (some c) }
  | passError {session c : Nat} (hfail : s.failing session = some c) :
      Performs s (.passError session) { s with
        failing := Function.update s.failing session none
        ch := s.ch.fill [c] .error }
  | accepted {session : Nat} {b : MetricBatch} {rest : List MetricBatch}
      (hframes : s.frames session = b :: rest) :
      Performs s (.serve session true) { s with
        accepted := s.accepted ++ [b]
        frames := Function.update s.frames session rest
        acks := Function.update s.acks session (s.acks session ++ [b.sequence]) }
  | refused {session : Nat} :
      Performs s (.serve session false) { s with
        frames := Function.update s.frames session []
        broken := Function.update s.broken session true }
  | recvAck {session a : Nat} {rest : List Nat} (hsweep : s.sweep (some session) = .idle)
      (hacks : s.acks session = a :: rest) :
      Performs s (.recvAck session) { s with
        acks := Function.update s.acks session rest
        acked := Function.update s.acked session a
        sweep := Function.update s.sweep (some session) .between }
  | failAllWaiters (hsweep : s.sweep none = .idle) :
      Performs s .failAllWaiters { s with sweep := Function.update s.sweep none .between }
  | load {who : Option Nat} {key c : Nat} (hsweep : s.sweep who = .between)
      (hkey : s.metricAcks key = some c) (hcovers : s.covers who key) :
      Performs s (.load who key) { s with sweep := Function.update s.sweep who (.loaded key c) }
  | deliver {who : Option Nat} {key c : Nat} (hsweep : s.sweep who = .loaded key c) :
      Performs s (.deliver who) { s with
        ch := if s.ch c = none then s.ch.fill [c] (verdict who) else s.ch
        sweep := Function.update s.sweep who (.delivered key c) }
  | delete {who : Option Nat} {key c : Nat} (hsweep : s.sweep who = .delivered key c) :
      Performs s (.delete who) { s with
        metricAcks := Function.update s.metricAcks key none
        sweep := Function.update s.sweep who .between }
  | endSweep {who : Option Nat} (hsweep : s.sweep who = .between) :
      Performs s (.endSweep who) { s with sweep := Function.update s.sweep who .idle }
  | lose {session batches acks : Nat} :
      Performs s (.lose session batches acks) { s with
        frames := Function.update s.frames session ((s.frames session).take batches)
        broken := Function.update s.broken session true
        acks := Function.update s.acks session ((s.acks session).take acks) }
  | lateArrival {b : MetricBatch} :
      Performs s (.lateArrival b) { s with accepted := s.accepted ++ [b] }
  | receive {c : Nat} {v : Completion} (hphase : s.phase c = .waiting) (hch : s.ch c = some v) :
      Performs s (.receive c) { s with
        phase := Function.update s.phase c (.returned (.received v))
        ch := Function.update s.ch c none }
  | giveUp {c : Nat} (hphase : s.phase c = .waiting) :
      Performs s (.giveUp c) { s with phase := Function.update s.phase c (.returned .gaveUp) }

theorem performs_of_step {s t : Metrics} {e : Event} (h : s.step e = some t) : s.Performs e t := by
  have hperform : s.perform e = some t := by
    unfold step at h
    split at h
    · exact h
    · cases h
  cases e with
  | flush body =>
      cases hperform
      exact .flush
  | lose session batches acks =>
      cases hperform
      exact .lose
  | lateArrival b =>
      cases hperform
      exact .lateArrival
  | sent session =>
      obtain ⟨c, hheld, rfl⟩ := Option.map_eq_some_iff.mp hperform
      exact .sent hheld
  | sendFails session =>
      obtain ⟨c, hheld, rfl⟩ := Option.map_eq_some_iff.mp hperform
      exact .sendFails hheld
  | passError session =>
      obtain ⟨c, hfail, rfl⟩ := Option.map_eq_some_iff.mp hperform
      exact .passError hfail
  | take session =>
      simp only [perform] at hperform
      split at hperform
      next => cases hperform
      next hrunning =>
        obtain ⟨⟨c, q⟩, htake, rfl⟩ := Option.map_eq_some_iff.mp hperform
        exact .take hrunning htake
  | replay b =>
      obtain ⟨hb, hperform⟩ := Option.ite_none_right_eq_some.mp hperform
      cases hperform
      exact .replay hb
  | enqueue c =>
      obtain ⟨hready, hperform⟩ := Option.ite_none_right_eq_some.mp hperform
      cases hperform
      exact .enqueue hready.1 hready.2
  | queueFull c =>
      obtain ⟨hphase, hperform⟩ := Option.ite_none_right_eq_some.mp hperform
      cases hperform
      exact .queueFull hphase
  | fallback c =>
      simp only [perform] at hperform
      split at hperform
      next o hlive hphase =>
        split at hperform
        next => cases hperform
        next hfailed =>
          cases hperform
          exact .fallback hlive hphase hfailed
      next => cases hperform
  | serve session ok =>
      simp only [perform] at hperform
      split at hperform
      next => cases hperform
      next b rest hframes =>
        cases ok with
        | true =>
            cases hperform
            exact .accepted hframes
        | false =>
            cases hperform
            exact .refused
  | recvAck session =>
      simp only [perform] at hperform
      split at hperform
      next a rest hsweep hacks =>
        cases hperform
        exact .recvAck hsweep hacks
      next => cases hperform
  | failAllWaiters =>
      simp only [perform] at hperform
      split at hperform
      next hsweep =>
        cases hperform
        exact .failAllWaiters hsweep
      next => cases hperform
  | load who key =>
      simp only [perform] at hperform
      split at hperform
      next c hsweep hkey =>
        split at hperform
        next hcovers =>
          cases hperform
          exact .load hsweep hkey hcovers
        next => cases hperform
      next => cases hperform
  | deliver who =>
      simp only [perform] at hperform
      split at hperform
      next key c hsweep =>
        cases hperform
        exact .deliver hsweep
      next => cases hperform
  | delete who =>
      simp only [perform] at hperform
      split at hperform
      next key c hsweep =>
        cases hperform
        exact .delete hsweep
      next => cases hperform
  | endSweep who =>
      simp only [perform] at hperform
      split at hperform
      next hsweep =>
        cases hperform
        exact .endSweep hsweep
      next => cases hperform
  | receive c =>
      simp only [perform] at hperform
      split at hperform
      next v hphase hch =>
        cases hperform
        exact .receive hphase hch
      next => cases hperform
  | giveUp c =>
      obtain ⟨hphase, hperform⟩ := Option.ite_none_right_eq_some.mp hperform
      cases hperform
      exact .giveUp hphase

end Metrics

end TomAgent.Uplink
