import Mathlib.Data.Set.Insert
import TomAgent.Core.BigEndian
import TomAgent.Core.Execution
import TomAgent.Uplink.Call

/-!
# The reliable stream

`SendReliable` registers a waiter, queues the batch for the send loop of whatever
session is up, and waits for an acknowledgement.  Acknowledgements carry a kind
and item ids and are matched against every registered waiter of that kind.  A
waiter leaves the table when its ids are used up, when the session fails, or when
its entry never got into the queue; a call that gives up waiting leaves it there.

The machine below interleaves any number of calls and sessions with the gateway.
A step is one critical section, one channel operation or one operation on a
stream.
-/

namespace TomAgent.Uplink

open Handoff

inductive QueueKind where
  | metrics
  | results
  | audit
  | inventory
deriving Repr, DecidableEq

inductive ReportKind where
  | unspecified
  | results
  | audit
  | inventory
deriving Repr, DecidableEq

def reportKindOf : QueueKind → ReportKind
  | .results => .results
  | .audit => .audit
  | .inventory => .inventory
  | .metrics => .unspecified

def reportKindName : ReportKind → String
  | .results => "results"
  | .audit => "audit"
  | .inventory => "inventory"
  | .unspecified => "unknown"

structure ReliableItem where
  id : Bytes
  payload : Bytes
deriving Repr, DecidableEq

structure ReliableBatch where
  kind : QueueKind
  items : List ReliableItem
deriving Repr, DecidableEq

structure ReliableReport where
  kind : ReportKind
  items : List ReliableItem
deriving Repr, DecidableEq

structure ReportAck where
  kind : ReportKind
  ackedIds : List Bytes
deriving Repr, DecidableEq

namespace ReliableBatch

def ids (b : ReliableBatch) : List Bytes := b.items.map ReliableItem.id

def report (b : ReliableBatch) : ReliableReport := ⟨reportKindOf b.kind, b.items⟩

end ReliableBatch

structure ReportWaiter where
  kind : ReportKind
  ids : List Bytes
  /-- The call whose channel completes it. -/
  call : Nat
deriving Repr, DecidableEq

namespace ReportWaiter

/-- The ids of an acknowledgement of the waiter's kind are deleted. -/
def credit (ack : ReportAck) (w : ReportWaiter) : ReportWaiter :=
  if w.kind = ack.kind then { w with ids := w.ids.filter (· ∉ ack.ackedIds) } else w

def Done (ack : ReportAck) (w : ReportWaiter) : Prop :=
  w.kind = ack.kind ∧ (w.credit ack).ids = []

instance (ack : ReportAck) (w : ReportWaiter) : Decidable (w.Done ack) := by
  unfold Done; infer_instance

theorem mem_credit {ack : ReportAck} {w : ReportWaiter} {id : Bytes}
    (h : id ∈ w.ids) : id ∈ (w.credit ack).ids ∨ w.kind = ack.kind ∧ id ∈ ack.ackedIds := by
  unfold credit
  split
  next hkind =>
    by_cases hid : id ∈ ack.ackedIds
    · exact Or.inr ⟨hkind, hid⟩
    · left
      exact List.mem_filter.mpr ⟨h, by simpa using hid⟩
  next => exact Or.inl h

theorem credit_call (ack : ReportAck) (w : ReportWaiter) :
    (w.credit ack).call = w.call := by
  unfold credit
  split <;> rfl

theorem credit_kind (ack : ReportAck) (w : ReportWaiter) :
    (w.credit ack).kind = w.kind := by
  unfold credit
  split <;> rfl

end ReportWaiter

/-- Calls and sessions are numbered in the order they start. -/
structure Reports where
  next : Nat
  batch : Nat → ReliableBatch
  phase : Nat → Phase
  ch : Slots Nat Completion
  reportWait : List ReportWaiter
  /-- `reportOut`, and the entry the send loop of each session works on. -/
  reportOut : Queue Nat Nat
  /-- The send loop of the session has returned. -/
  stopped : Nat → Bool
  /-- Sent on the stream of the session, not yet read by the gateway. -/
  frames : Nat → List ReliableReport
  /-- Sent by the gateway, not yet read by the receive loop. -/
  acks : Nat → List ReportAck
  /-- The items for which the sink returned nil. -/
  persisted : List (String × ReliableItem)

def reportOutCap : Nat := 64

namespace Reports

def init : Reports where
  next := 0
  batch := fun _ => ⟨.results, []⟩
  phase := fun _ => .idle
  ch := fun _ => none
  reportWait := []
  reportOut := .empty
  stopped := fun _ => false
  frames := fun _ => []
  acks := fun _ => []
  persisted := []

inductive Event where
  /-- A call starts: its waiter is registered. -/
  | register (b : ReliableBatch)
  | enqueue (call : Nat)
  /-- The queue stayed full for two seconds. -/
  | queueFull (call : Nat)
  /-- The send loop of a session takes the next entry. -/
  | take (session : Nat)
  | sent (session : Nat)
  | sendFails (session : Nat)
  /-- The gateway handles one report; its sink accepts that many items. -/
  | serve (session accepted : Nat)
  | recvAck (session : Nat)
  | failAllWaiters
  /-- The connection breaks: only so many reports and acknowledgements still arrive. -/
  | lose (session reports acks : Nat)
  /-- A waiting call reads its channel. -/
  | receive (call : Nat)
  /-- A waiting call runs into the handshake or the acknowledgement timeout. -/
  | giveUp (call : Nat)
deriving Repr, DecidableEq

/-- The channels an event sends to without a way out. -/
def sends (s : Reports) : Event → List Nat
  | .sendFails session => (s.reportOut.held session).toList
  | .recvAck session =>
      match s.acks session with
      | ack :: _ => (s.reportWait.filter (·.Done ack)).map ReportWaiter.call
      | [] => []
  | .failAllWaiters => s.reportWait.map ReportWaiter.call
  | _ => []

def perform (s : Reports) : Event → Option Reports
  | .register b =>
      some { s with
        next := s.next + 1
        batch := Function.update s.batch s.next b
        phase := Function.update s.phase s.next .registered
        reportWait := s.reportWait ++ [⟨reportKindOf b.kind, b.ids, s.next⟩] }
  | .enqueue c =>
      if s.phase c = .registered ∧ s.reportOut.waiting.length < reportOutCap then
        some { s with
          phase := Function.update s.phase c .waiting
          reportOut := s.reportOut.push c }
      else none
  | .queueFull c =>
      if s.phase c = .registered then
        some { s with
          phase := Function.update s.phase c (.returned .queueFull)
          reportWait := s.reportWait.filter (·.call ≠ c) }
      else none
  | .take session =>
      if s.stopped session then none
      else (s.reportOut.take session).map fun r => { s with reportOut := r.2 }
  | .sent session =>
      (s.reportOut.held session).map fun c =>
        { s with
          reportOut := s.reportOut.release session
          frames := Function.update s.frames session
            (s.frames session ++ [(s.batch c).report]) }
  | .sendFails session =>
      (s.reportOut.held session).map fun c =>
        { s with
          reportOut := s.reportOut.release session
          stopped := Function.update s.stopped session true
          ch := s.ch.fill [c] .error }
  | .serve session accepted =>
      match s.frames session with
      | [] => none
      | r :: rest =>
          let persisted :=
            s.persisted ++ (r.items.take accepted).map (reportKindName r.kind, ·)
          -- The first refused item ends the handler and with it the stream.
          if accepted < r.items.length then
            some { s with
              persisted := persisted
              frames := Function.update s.frames session [] }
          else
            some { s with
              persisted := persisted
              frames := Function.update s.frames session rest
              acks := Function.update s.acks session
                (s.acks session ++ [⟨r.kind, r.items.map ReliableItem.id⟩]) }
  | .recvAck session =>
      match s.acks session with
      | [] => none
      | ack :: rest =>
          some { s with
            acks := Function.update s.acks session rest
            ch := s.ch.fill ((s.reportWait.filter (·.Done ack)).map ReportWaiter.call) .ok
            reportWait := (s.reportWait.filter (¬ ·.Done ack)).map (·.credit ack) }
  | .failAllWaiters =>
      some { s with
        ch := s.ch.fill (s.reportWait.map ReportWaiter.call) .error
        reportWait := [] }
  | .lose session reports acks =>
      some { s with
        frames := Function.update s.frames session ((s.frames session).take reports)
        acks := Function.update s.acks session ((s.acks session).take acks) }
  | .receive c =>
      match s.phase c, s.ch c with
      | .waiting, some v =>
          some { s with
            phase := Function.update s.phase c (.returned (.received v))
            ch := Function.update s.ch c none }
      | _, _ => none
  | .giveUp c =>
      if s.phase c = .waiting then
        some { s with phase := Function.update s.phase c (.returned .gaveUp) }
      else none

/-- A goroutine that sends to a full channel stays where it is. -/
def step (s : Reports) (e : Event) : Option Reports :=
  if ∀ c ∈ s.sends e, s.ch c = none then s.perform e else none

/-- The effect of an event with what allows it, case by case. -/
inductive Performs (s : Reports) : Event → Reports → Prop
  | register {b : ReliableBatch} :
      Performs s (.register b) { s with
        next := s.next + 1
        batch := Function.update s.batch s.next b
        phase := Function.update s.phase s.next .registered
        reportWait := s.reportWait ++ [⟨reportKindOf b.kind, b.ids, s.next⟩] }
  | enqueue {c : Nat} (hphase : s.phase c = .registered)
      (hroom : s.reportOut.waiting.length < reportOutCap) :
      Performs s (.enqueue c) { s with
        phase := Function.update s.phase c .waiting
        reportOut := s.reportOut.push c }
  | queueFull {c : Nat} (hphase : s.phase c = .registered) :
      Performs s (.queueFull c) { s with
        phase := Function.update s.phase c (.returned .queueFull)
        reportWait := s.reportWait.filter (·.call ≠ c) }
  | take {session c : Nat} {q : Queue Nat Nat} (hrunning : ¬ s.stopped session = true)
      (htake : s.reportOut.take session = some (c, q)) :
      Performs s (.take session) { s with reportOut := q }
  | sent {session c : Nat} (hheld : s.reportOut.held session = some c) :
      Performs s (.sent session) { s with
        reportOut := s.reportOut.release session
        frames := Function.update s.frames session (s.frames session ++ [(s.batch c).report]) }
  | sendFails {session c : Nat} (hheld : s.reportOut.held session = some c) :
      Performs s (.sendFails session) { s with
        reportOut := s.reportOut.release session
        stopped := Function.update s.stopped session true
        ch := s.ch.fill [c] .error }
  | refused {session accepted : Nat} {r : ReliableReport} {rest : List ReliableReport}
      (hframes : s.frames session = r :: rest) (hrefused : accepted < r.items.length) :
      Performs s (.serve session accepted) { s with
        persisted := s.persisted ++ (r.items.take accepted).map (reportKindName r.kind, ·)
        frames := Function.update s.frames session [] }
  | accepted {session accepted : Nat} {r : ReliableReport} {rest : List ReliableReport}
      (hframes : s.frames session = r :: rest) (haccepted : ¬ accepted < r.items.length) :
      Performs s (.serve session accepted) { s with
        persisted := s.persisted ++ (r.items.take accepted).map (reportKindName r.kind, ·)
        frames := Function.update s.frames session rest
        acks := Function.update s.acks session
          (s.acks session ++ [⟨r.kind, r.items.map ReliableItem.id⟩]) }
  | recvAck {session : Nat} {ack : ReportAck} {rest : List ReportAck}
      (hacks : s.acks session = ack :: rest) :
      Performs s (.recvAck session) { s with
        acks := Function.update s.acks session rest
        ch := s.ch.fill ((s.reportWait.filter (·.Done ack)).map ReportWaiter.call) .ok
        reportWait := (s.reportWait.filter (¬ ·.Done ack)).map (·.credit ack) }
  | failAllWaiters :
      Performs s .failAllWaiters { s with
        ch := s.ch.fill (s.reportWait.map ReportWaiter.call) .error
        reportWait := [] }
  | lose {session reports acks : Nat} :
      Performs s (.lose session reports acks) { s with
        frames := Function.update s.frames session ((s.frames session).take reports)
        acks := Function.update s.acks session ((s.acks session).take acks) }
  | receive {c : Nat} {v : Completion} (hphase : s.phase c = .waiting) (hch : s.ch c = some v) :
      Performs s (.receive c) { s with
        phase := Function.update s.phase c (.returned (.received v))
        ch := Function.update s.ch c none }
  | giveUp {c : Nat} (hphase : s.phase c = .waiting) :
      Performs s (.giveUp c) { s with phase := Function.update s.phase c (.returned .gaveUp) }

theorem performs_of_step {s t : Reports} {e : Event} (h : s.step e = some t) : s.Performs e t := by
  have hperform : s.perform e = some t := by
    unfold step at h
    split at h
    · exact h
    · cases h
  cases e with
  | register b =>
      cases hperform
      exact .register
  | failAllWaiters =>
      cases hperform
      exact .failAllWaiters
  | lose session reports acks =>
      cases hperform
      exact .lose
  | sent session =>
      obtain ⟨c, hheld, rfl⟩ := Option.map_eq_some_iff.mp hperform
      exact .sent hheld
  | sendFails session =>
      obtain ⟨c, hheld, rfl⟩ := Option.map_eq_some_iff.mp hperform
      exact .sendFails hheld
  | take session =>
      simp only [perform] at hperform
      split at hperform
      next => cases hperform
      next hrunning =>
        obtain ⟨⟨c, q⟩, htake, rfl⟩ := Option.map_eq_some_iff.mp hperform
        exact .take hrunning htake
  | enqueue c =>
      simp only [perform] at hperform
      split at hperform
      next hready =>
        cases hperform
        exact .enqueue hready.1 hready.2
      next => cases hperform
  | queueFull c =>
      simp only [perform] at hperform
      split at hperform
      next hphase =>
        cases hperform
        exact .queueFull hphase
      next => cases hperform
  | serve session accepted =>
      simp only [perform] at hperform
      split at hperform
      next => cases hperform
      next r rest hframes =>
        split at hperform
        next hrefused =>
          cases hperform
          exact .refused hframes hrefused
        next haccepted =>
          cases hperform
          exact .accepted hframes haccepted
  | recvAck session =>
      simp only [perform] at hperform
      split at hperform
      next => cases hperform
      next ack rest hacks =>
        cases hperform
        exact .recvAck hacks
  | receive c =>
      simp only [perform] at hperform
      split at hperform
      next v hphase hch =>
        cases hperform
        exact .receive hphase hch
      next => cases hperform
  | giveUp c =>
      simp only [perform] at hperform
      split at hperform
      next hphase =>
        cases hperform
        exact .giveUp hphase
      next => cases hperform

end Reports

end TomAgent.Uplink
