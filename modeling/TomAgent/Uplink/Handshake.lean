import TomAgent.Uplink.Teardown

/-!
# Sessions and the handshake

`supervise` runs one session after the other.  A session opens its three streams and starts
their loops without waiting for the gateway's Welcome; only the callers of `SendMetrics` and
`SendReliable` wait for it, with their batches already in the queues that the send loops drain.
The loops of a session that has returned go on until they notice.
-/

namespace TomAgent.Uplink

open Execution Handoff

/-! ## The queues of the two streams -/

def Metrics.Event.turn : Metrics.Event → Queue.Turn Nat Nat
  | .enqueue c => .enter c
  | .take n => .take n
  | .sent n => .release n
  | .sendFails n => .release n
  | _ => .rest

def Reports.Event.turn : Reports.Event → Queue.Turn Nat Nat
  | .enqueue c => .enter c
  | .take n => .take n
  | .sent n => .release n
  | .sendFails n => .release n
  | _ => .rest

theorem Metrics.metricOut_turn {s t : Metrics} {e : Metrics.Event} (h : s.step e = some t) :
    s.metricOut.turn e.turn = some t.metricOut := by
  cases performs_of_step h with
  | take _ htake =>
      simp only [Metrics.Event.turn, Queue.turn, htake]
      rfl
  | _ => rfl

theorem Reports.reportOut_turn {s t : Reports} {e : Reports.Event} (h : s.step e = some t) :
    s.reportOut.turn e.turn = some t.reportOut := by
  cases performs_of_step h with
  | take _ htake =>
      simp only [Reports.Event.turn, Queue.turn, htake]
      rfl
  | _ => rfl

/-! ## Sessions -/

inductive Waiting where
  | metric (call : Nat)
  | report (call : Nat)
deriving Repr, DecidableEq

/-- Sessions are numbered in the order they start. -/
structure Supervised where
  uplink : GRPCUplink
  /-- How many sessions there have been.  `ready` is the channel that the last of them has made,
  or `NewGRPC` before the first. -/
  count : Nat
  /-- The last session has not returned. -/
  running : Bool
  /-- The sessions whose hello is sent and whose control stream is read. -/
  control : List Nat
  /-- The sessions whose metrics send loop runs. -/
  metrics : List Nat
  /-- The sessions whose reports send loop runs. -/
  reports : List Nat
  /-- The sessions whose Welcome has come in. -/
  welcomed : List Nat
  /-- The Welcomes that `controlRecv` has not looked at yet. -/
  pending : List Nat
  /-- The closed ones of the channels that have been `ready`. -/
  closed : List Nat
  /-- The channel that a call has found in `ready`. -/
  gate : Waiting → Option Nat

namespace Supervised

def start (wal accepted : List MetricBatch) : Supervised where
  uplink := GRPCUplink.start wal accepted
  count := 0
  running := false
  control := []
  metrics := []
  reports := []
  welcomed := []
  pending := []
  closed := []
  gate := fun _ => none

inductive Event where
  /-- `supervise` calls `session`, which makes a new `ready`. -/
  | session
  | openControl
  | openMetrics
  | openReports
  /-- `session` returns, for whatever reason. -/
  | leave
  /-- The send loop of a session that has returned notices it. -/
  | endMetrics (n : Nat)
  | endReports (n : Nat)
  /-- The Welcome of a session is read from its control stream. -/
  | welcome (n : Nat)
  /-- `controlRecv` closes what is `ready` now. -/
  | openGate (n : Nat)
  /-- `waitReady` reads `ready`. -/
  | waitReady (c : Waiting)
  | uplink (e : GRPCUplink.Event)
deriving Repr, DecidableEq

variable (s : Supervised)

/-- The call has got past the first `select` of `waitReady`. -/
def Passed (c : Waiting) : Prop := ∃ g ∈ s.gate c, g ∈ s.closed

instance (c : Waiting) : Decidable (s.Passed c) :=
  match h : s.gate c with
  | none => isFalse (by rintro ⟨g, hg, -⟩; rw [h] at hg; cases hg)
  | some g => decidable_of_iff (g ∈ s.closed) (by simp [Passed, h])

/-- Loops take entries once they are started, and a call reads its channel behind the gate. -/
def Admits : GRPCUplink.Event → Prop
  | .metric (.take n) => n ∈ s.metrics
  | .report (.take n) => n ∈ s.reports
  | .metric (.receive c) => s.Passed (.metric c)
  | .report (.receive c) => s.Passed (.report c)
  | .metric (.giveUp c) => s.gate (.metric c) ≠ none
  | .report (.giveUp c) => s.gate (.report c) ≠ none
  | _ => True

instance (e : GRPCUplink.Event) : Decidable (s.Admits e) := by
  unfold Admits
  split <;> infer_instance

def Queued : Waiting → Prop
  | .metric c => s.uplink.metrics.phase c = .waiting
  | .report c => s.uplink.reports.phase c = .waiting

instance (c : Waiting) : Decidable (s.Queued c) := by
  unfold Queued
  cases c <;> infer_instance

def last : Nat := s.count - 1

/-- The context of the session is cancelled. -/
def Over (n : Nat) : Prop := s.running = false ∨ n ≠ s.last

instance (n : Nat) : Decidable (s.Over n) :=
  inferInstanceAs (Decidable (_ ∨ _))

def step : Event → Option Supervised
  | .session =>
      if s.running then none else some { s with count := s.count + 1, running := true }
  | .openControl =>
      if s.running ∧ s.last ∉ s.control then some { s with control := s.last :: s.control }
      else none
  | .openMetrics =>
      if s.running ∧ s.last ∈ s.control ∧ s.last ∉ s.metrics then
        some { s with metrics := s.last :: s.metrics }
      else none
  | .openReports =>
      if s.running ∧ s.last ∈ s.metrics ∧ s.last ∉ s.reports then
        some { s with reports := s.last :: s.reports }
      else none
  | .leave => if s.running then some { s with running := false } else none
  | .endMetrics n =>
      if s.Over n ∧ s.uplink.metrics.metricOut.held n = none then
        some { s with metrics := s.metrics.erase n }
      else none
  | .endReports n =>
      if s.Over n ∧ s.uplink.reports.reportOut.held n = none then
        some { s with reports := s.reports.erase n }
      else none
  | .welcome n =>
      if n ∈ s.control then
        some { s with welcomed := n :: s.welcomed, pending := n :: s.pending }
      else none
  | .openGate n =>
      -- a channel that is closed twice ends the process
      if n ∈ s.pending ∧ s.count ∉ s.closed then
        some { s with pending := s.pending.erase n, closed := s.count :: s.closed }
      else none
  | .waitReady c =>
      if s.Queued c ∧ s.gate c = none then
        some { s with gate := Function.update s.gate c (some s.count) }
      else none
  | .uplink e =>
      if s.Admits e then (s.uplink.step e).map fun u => { s with uplink := u } else none

def Event.sends : Event → Option Nat
  | .uplink (.metric (.sent n)) => some n
  | .uplink (.report (.sent n)) => some n
  | _ => none

/-- Nothing has been sent on a session before its Welcome came in. -/
def HandshakeFirst (past : List (Supervised × Event)) : Prop :=
  ∀ p ∈ past, ∀ n ∈ p.2.sends, n ∈ p.1.welcomed

/-- Nothing is queued while a loop of a session without a Welcome could take it, and no loop of
such a session is started while something is queued. -/
def Holds : Event → Prop
  | .uplink (.metric (.enqueue _)) => ∀ n ∈ s.metrics, n ∈ s.welcomed
  | .uplink (.report (.enqueue _)) => ∀ n ∈ s.reports, n ∈ s.welcomed
  | .openMetrics => s.uplink.metrics.metricOut.waiting = [] ∨ s.last ∈ s.welcomed
  | .openReports => s.uplink.reports.reportOut.waiting = [] ∨ s.last ∈ s.welcomed
  | _ => True

instance (e : Event) : Decidable (s.Holds e) := by
  unfold Holds
  split <;> infer_instance

/-! ## The queues are kept for sessions with a Welcome -/

variable {s} {s' : Supervised} {e : Event}

structure Keeps (s : Supervised) : Prop where
  metrics : s.uplink.metrics.metricOut.Reserved (· ∈ s.metrics) (· ∈ s.welcomed)
  reports : s.uplink.reports.reportOut.Reserved (· ∈ s.reports) (· ∈ s.welcomed)

theorem Keeps.start (wal accepted : List MetricBatch) : (start wal accepted).Keeps :=
  ⟨Queue.reserved_empty, Queue.reserved_empty⟩

theorem Keeps.uplink (hs : s.Keeps) {e : GRPCUplink.Event} {u : GRPCUplink}
    (hadmits : s.Admits e) (hmay : s.Holds (.uplink e)) (hu : s.uplink.step e = some u) :
    Keeps { s with uplink := u } := by
  cases e with
  | metric e =>
      obtain ⟨m, hm, rfl⟩ := Option.map_eq_some_iff.mp hu
      refine ⟨hs.metrics.turn (Metrics.metricOut_turn hm) ?_ ?_, hs.reports⟩
      · intro c hc
        cases e <;> cases hc
        exact hmay
      · intro n hn
        cases e <;> cases hn
        exact hadmits
  | report e =>
      obtain ⟨r, hr, rfl⟩ := Option.map_eq_some_iff.mp hu
      refine ⟨hs.metrics, hs.reports.turn (Reports.reportOut_turn hr) ?_ ?_⟩
      · intro c hc
        cases e <;> cases hc
        exact hmay
      · intro n hn
        cases e <;> cases hn
        exact hadmits

theorem Keeps.step (hs : s.Keeps) (hmay : s.Holds e) (hstep : s.step e = some s') : s'.Keeps := by
  cases e with
  | uplink e =>
      obtain ⟨hadmits, hmap⟩ := Option.ite_none_right_eq_some.mp hstep
      obtain ⟨u, hu, rfl⟩ := Option.map_eq_some_iff.mp hmap
      exact hs.uplink hadmits hmay hu
  | session =>
      obtain ⟨-, heq⟩ := Option.ite_none_left_eq_some.mp hstep
      cases heq
      exact ⟨hs.metrics, hs.reports⟩
  | openControl =>
      obtain ⟨-, heq⟩ := Option.ite_none_right_eq_some.mp hstep
      cases heq
      exact ⟨hs.metrics, hs.reports⟩
  | openMetrics =>
      obtain ⟨-, heq⟩ := Option.ite_none_right_eq_some.mp hstep
      cases heq
      exact ⟨hs.metrics.start hmay fun _ => List.mem_cons.mp, hs.reports⟩
  | openReports =>
      obtain ⟨-, heq⟩ := Option.ite_none_right_eq_some.mp hstep
      cases heq
      exact ⟨hs.metrics, hs.reports.start hmay fun _ => List.mem_cons.mp⟩
  | leave =>
      obtain ⟨-, heq⟩ := Option.ite_none_right_eq_some.mp hstep
      cases heq
      exact ⟨hs.metrics, hs.reports⟩
  | endMetrics n =>
      obtain ⟨-, heq⟩ := Option.ite_none_right_eq_some.mp hstep
      cases heq
      exact ⟨hs.metrics.anti fun _ => List.mem_of_mem_erase, hs.reports⟩
  | endReports n =>
      obtain ⟨-, heq⟩ := Option.ite_none_right_eq_some.mp hstep
      cases heq
      exact ⟨hs.metrics, hs.reports.anti fun _ => List.mem_of_mem_erase⟩
  | welcome n =>
      obtain ⟨-, heq⟩ := Option.ite_none_right_eq_some.mp hstep
      cases heq
      exact ⟨hs.metrics.mono fun _ => List.mem_cons_of_mem n,
        hs.reports.mono fun _ => List.mem_cons_of_mem n⟩
  | openGate n =>
      obtain ⟨-, heq⟩ := Option.ite_none_right_eq_some.mp hstep
      cases heq
      exact ⟨hs.metrics, hs.reports⟩
  | waitReady c =>
      obtain ⟨-, heq⟩ := Option.ite_none_right_eq_some.mp hstep
      cases heq
      exact ⟨hs.metrics, hs.reports⟩

/-- A batch is sent by a loop that holds it. -/
theorem Keeps.sends (hs : s.Keeps) (hstep : s.step e = some s') {n : Nat} (hn : n ∈ e.sends) :
    n ∈ s.welcomed := by
  cases e with
  | uplink e =>
      obtain ⟨-, hmap⟩ := Option.ite_none_right_eq_some.mp hstep
      obtain ⟨u, hu, rfl⟩ := Option.map_eq_some_iff.mp hmap
      cases e with
      | metric e =>
          obtain ⟨m, hm, rfl⟩ := Option.map_eq_some_iff.mp hu
          cases Metrics.performs_of_step hm <;> cases hn
          next hheld => exact hs.metrics.held n _ hheld
      | report e =>
          obtain ⟨r, hr, rfl⟩ := Option.map_eq_some_iff.mp hu
          cases Reports.performs_of_step hr <;> cases hn
          next hheld => exact hs.reports.held n _ hheld
  | _ => cases hn

/-- As long as batches and loops of sessions without a Welcome are kept apart, nothing is sent
on a session before its handshake. -/
theorem handshake_first (wal accepted : List MetricBatch) {past : List (Supervised × Event)}
    {s : Supervised} (hrun : Course step (fun _ => Holds) (start wal accepted) past s) :
    HandshakeFirst past := by
  have hboth : s.Keeps ∧ HandshakeFirst past := by
    apply Course.invariant (fun past s => s.Keeps ∧ HandshakeFirst past) ?_ ?_ hrun
    · exact ⟨Keeps.start wal accepted, fun p hp => absurd hp List.not_mem_nil⟩
    · intro past s e s' hs hmay hstep
      refine ⟨hs.1.step hmay hstep, List.forall_mem_cons.mpr ⟨?_, hs.2⟩⟩
      exact fun n hn => hs.1.sends hstep hn
  exact hboth.2

/-! ## Two runs -/

def opening : List Event := [.session, .openControl, .openMetrics]

def sending : List Event :=
  [.uplink (.metric (.flush [])), .uplink (.metric (.enqueue 0)), .uplink (.metric (.take 0)),
    .uplink (.metric (.sent 0))]

instance (past : List (Supervised × Event)) : Decidable (HandshakeFirst past) := by
  unfold HandshakeFirst
  infer_instance

theorem handshake_first_welcomed :
    ∃ past s, Course step (fun _ => Holds) (start [] []) past s ∧
      (past.any fun p => p.2.sends = some 0) = true ∧ HandshakeFirst past := by
  obtain ⟨past, s, hrun, hsent⟩ := course_of_any step (fun _ => Holds) (s := start [] [])
    (opening ++ [.welcome 0] ++ sending)
    (fun past _ => (past.any fun p => p.2.sends = some 0) = true) (by decide)
  exact ⟨past, s, hrun, hsent, handshake_first [] [] hrun⟩

/-- The loop does not wait for the Welcome. -/
theorem batch_sent_before_welcome :
    ∃ past s, Course step (fun _ _ _ => True) (start [] []) past s ∧ ¬ HandshakeFirst past :=
  course_of_any step (fun _ _ _ => True) (s := start [] []) (opening ++ sending)
    (fun past _ => ¬ HandshakeFirst past) (by decide)

end Supervised

end TomAgent.Uplink
