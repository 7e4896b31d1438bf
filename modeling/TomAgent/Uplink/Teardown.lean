import TomAgent.Uplink.MetricChannels
import TomAgent.Uplink.ReportChannels

/-!
# The uplink as a whole

Both streams of an uplink run at the same time and share nothing but the sessions
they run in, so a run of the uplink is an interleaving of runs of the two.
`failAllWaiters` first passes over `metricAcks` and then, under `reportMu`, sends
to the channel of every registered reliable call.
-/

namespace TomAgent.Uplink

open Execution

structure GRPCUplink where
  reports : Reports
  metrics : Metrics

namespace GRPCUplink

inductive Event where
  | report (e : Reports.Event)
  | metric (e : Metrics.Event)
deriving Repr, DecidableEq

def start (wal accepted : List MetricBatch) : GRPCUplink :=
  ⟨Reports.init, Metrics.start wal accepted⟩

def step (u : GRPCUplink) : Event → Option GRPCUplink
  | .report e => (u.reports.step e).map fun r => { u with reports := r }
  | .metric e => (u.metrics.step e).map fun m => { u with metrics := m }

def Blocks (u : GRPCUplink) : Event → Prop
  | .report e => ∃ c ∈ u.reports.sends e, u.reports.ch c ≠ none
  | .metric e => ∃ c ∈ u.metrics.sends e, u.metrics.ch c ≠ none

instance (u : GRPCUplink) (e : Event) : Decidable (u.Blocks e) := by
  unfold Blocks
  cases e <;> infer_instance

/-- Calls are completed by one goroutine at a time, and a `Send` fails for a
registered reliable call only once the call has read its channel. -/
def CompletesOnce (u : GRPCUplink) : Event → Prop
  | .report e => u.reports.FailsAfterRead e
  | .metric e => u.metrics.NoOverlap e

structure ClearInv (u : GRPCUplink) : Prop where
  reports : u.reports.ClearInv
  metrics : u.metrics.ClearInv

theorem ClearInv.step {u v : GRPCUplink} (h : u.ClearInv) {e : Event} (hmay : u.CompletesOnce e)
    (he : u.step e = some v) : v.ClearInv := by
  cases e with
  | report e =>
      obtain ⟨r, hr, rfl⟩ := Option.map_eq_some_iff.mp he
      exact ⟨h.reports.step hmay hr, h.metrics⟩
  | metric e =>
      obtain ⟨m, hm, rfl⟩ := Option.map_eq_some_iff.mp he
      exact ⟨h.reports, h.metrics.step hmay hm⟩

theorem ClearInv.not_blocks {u : GRPCUplink} (h : u.ClearInv) {e : Event}
    (hmay : u.CompletesOnce e) : ¬ u.Blocks e := by
  intro hblocks
  cases e with
  | report e =>
      obtain ⟨c, hc, hfull⟩ := hblocks
      exact hfull (h.reports.sends_empty hmay c hc)
  | metric e =>
      obtain ⟨c, hc, hfull⟩ := hblocks
      exact hfull (h.metrics.sends_empty e c hc)

/-- In every run whose events meet the condition, no unconditional send to a
waiter's channel blocks; in particular `failAllWaiters` never does. -/
theorem sends_never_block (wal accepted : List MetricBatch) {u : GRPCUplink}
    (hrun : Reaches (Fires step CompletesOnce) (start wal accepted) u) :
    (∀ e, u.CompletesOnce e → ¬ u.Blocks e) ∧ ¬ u.Blocks (.report .failAllWaiters) := by
  have hinv : u.ClearInv := by
    refine Execution.invariant ClearInv ?_
      ⟨Reports.init_clearInv, Metrics.start_clearInv wal accepted⟩ hrun
    intro u v hu hv
    obtain ⟨e, hmay, he⟩ := hv
    exact hu.step hmay he
  exact ⟨fun e hmay => hinv.not_blocks hmay,
    hinv.not_blocks (e := .report .failAllWaiters) trivial⟩

/-- A session fails while an entry is queued; its call reads the error.  The next
session takes the stale entry, and its `Send` fails too. -/
theorem sends_never_block_stale_entry :
    ∃ u, Reaches (Fires step CompletesOnce) (start [] []) u ∧ u.reports.stopped 1 = true ∧
      ¬ u.Blocks (.report .failAllWaiters) := by
  have hrun : ∃ u, Reaches (Fires step CompletesOnce) (start [] []) u ∧
      u.reports.stopped 1 = true := by
    apply reaches_of_any step
      [.report (.register ⟨.results, [⟨[1], [10]⟩]⟩), .report (.enqueue 0),
        .report .failAllWaiters, .report (.receive 0), .report (.take 1), .report (.sendFails 1)]
    · refine ⟨trivial, fun t ht => ?_⟩
      cases ht
      refine ⟨trivial, fun t ht => ?_⟩
      cases ht
      refine ⟨trivial, fun t ht => ?_⟩
      cases ht
      refine ⟨trivial, fun t ht => ?_⟩
      cases ht
      refine ⟨trivial, fun t ht => ?_⟩
      cases ht
      refine ⟨fun c hc => ?_, fun t _ => trivial⟩
      cases hc
      exact ⟨.error, rfl⟩
    · decide
  obtain ⟨u, hreach, hstopped⟩ := hrun
  exact ⟨u, hreach, hstopped, (sends_never_block [] [] hreach).2⟩

/-- A reliable call gives up while its entry is queued.  The `Send` of the next
session fails and puts the error in the call's channel, which nobody reads, and
`failAllWaiters` blocks on it while it holds `reportMu`. -/
theorem failed_send_blocks_teardown :
    ∃ u, Reaches (Fires step fun _ _ => True) (start [] []) u ∧
      u.Blocks (.report .failAllWaiters) :=
  reaches_of_any step
    [.report (.register ⟨.results, [⟨[1], [10]⟩]⟩), .report (.enqueue 0), .report (.giveUp 0),
      .report (.take 1), .report (.sendFails 1)]
    (fun u => u.Blocks (.report .failAllWaiters))
    (permitted_of_forall (fun _ _ _ => trivial) _) (by decide)

end GRPCUplink

end TomAgent.Uplink
