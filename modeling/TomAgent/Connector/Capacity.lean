import TomAgent.Connector.MailboxHeap

/-!
# Room in the mailbox

`Submit` refuses a command when the asset has as many pending commands as it may
have.  It counts every record that is QUEUED or DISPATCHED; only `NextDispatch`
looks at the time, and it runs only while the asset is connected.  So commands of
an offline asset keep their places after they have expired.
-/

namespace TomAgent.Connector

open Platform

namespace HeapRun

def Live (r : HeapRun) (now : Int) (id : String) : Prop :=
  ∃ a ∈ r.heap.byID.lookup id, ∃ c ∈ r.heap.cells[a]?,
    (c.state = .queued ∨ c.state = .dispatched) ∧ ¬ c.expiresAt < now

instance (r : HeapRun) (now : Int) (id : String) : Decidable (r.Live now id) :=
  Table.decidableFound (r.heap.byID.lookup id) fun a => ∃ c ∈ r.heap.cells[a]?,
    (c.state = .queued ∨ c.state = .dispatched) ∧ ¬ c.expiresAt < now

def pendingOf (r : HeapRun) (assetId : String) : List String :=
  (r.log.idsOf assetId).filter fun id => r.Pending id

def liveOf (r : HeapRun) (assetId : String) (now : Int) : List String :=
  (r.log.idsOf assetId).filter fun id => r.Live now id

theorem Live.pending {r : HeapRun} {now : Int} {id : String} (h : r.Live now id) : r.Pending id := by
  obtain ⟨a, ha, c, hc, hstate, -⟩ := h
  exact ⟨a, ha, c, hc, hstate⟩

theorem liveOf_eq (r : HeapRun) (assetId : String) (now : Int) :
    r.liveOf assetId now = (r.pendingOf assetId).filter fun id => r.Live now id := by
  rw [liveOf, pendingOf, List.filter_filter]
  apply List.filter_congr
  intro id _
  by_cases hlive : r.Live now id
  · simp [hlive, hlive.pending]
  · simp [hlive]

theorem liveOf_length {r : HeapRun} {assetId : String} {now : Int} :
    (r.liveOf assetId now).length ≤ (r.pendingOf assetId).length ∧
      ((r.liveOf assetId now).length = (r.pendingOf assetId).length ↔
        ∀ id ∈ r.pendingOf assetId, r.Live now id) := by
  rw [liveOf_eq]
  refine ⟨List.length_filter_le _ _, ?_⟩
  rw [List.length_filter_eq_length_iff]
  simp

/-- A fresh command is refused iff the pending commands of its asset fill the limit. -/
theorem Simulates.submit_full {r : HeapRun} (hsim : Simulates r) {d : Dispatch}
    (hfresh : r.heap.byID.lookup d.cmdId = none) (now : Int) :
    r.heap.submit d now = .error .full ↔ r.heap.perAsset ≤ (r.pendingOf d.assetId).length := by
  obtain ⟨m, hholds, hdisciplined⟩ := hsim
  have hcount : (r.pendingOf d.assetId).length =
      ((r.heap.queue d.assetId).elems.filter fun a => MailboxHeap.Counts r.heap.cells a).length := by
    rw [← hholds.counts, ← (hdisciplined.pending_perm d.assetId).length_eq, pendingOf]
    simp only [pending_iff hholds]
  rw [hcount, MailboxHeap.submit, hfresh]
  dsimp only
  split
  next hfull => simp [hfull]
  next hroom => simp [hroom]

end HeapRun

/-- After every sequence of calls and at every time, a command with a fresh id is refused
exactly when its asset has as many unexpired pending commands as it may have, if and only if,
with the asset at its limit, none of its pending commands has expired. -/
theorem mailbox_full_iff_live (perAsset : Nat) (ttl : Int) (ops : List MailboxOp) (d : Dispatch)
    (now : Int) :
    let r := (HeapRun.start perAsset ttl).run ops
    r.heap.byID.lookup d.cmdId = none →
      ((r.heap.submit d now = .error .full ↔ perAsset ≤ (r.liveOf d.assetId now).length) ↔
        ((r.pendingOf d.assetId).length = perAsset →
          ∀ id ∈ r.pendingOf d.assetId, r.Live now id)) := by
  intro r hfresh
  have hsim : HeapRun.Simulates r := (HeapRun.Simulates.start perAsset ttl).run ops
  have hperAsset : r.heap.perAsset = perAsset := (HeapRun.start perAsset ttl).run_perAsset ops
  have hlimit : (r.pendingOf d.assetId).length ≤ r.heap.perAsset := hsim.inOrder.limit d.assetId
  obtain ⟨hle, heq⟩ := @HeapRun.liveOf_length r d.assetId now
  rw [hsim.submit_full hfresh, ← heq, hperAsset]
  rw [hperAsset] at hlimit
  omega

theorem mailbox_full_iff_live_at_limit :
    let r := (HeapRun.start 2 10).run [.submit ⟨"c1", "a1", "restart", [], 30⟩ 0,
      .submit ⟨"c2", "a1", "restart", [], 30⟩ 3]
    r.pendingOf "a1" = ["c1", "c2"] ∧
      r.heap.submit ⟨"c3", "a1", "restart", [], 30⟩ 5 = .error .full ∧
      2 ≤ (r.liveOf "a1" 5).length := by
  intro r
  have hfull : r.heap.submit ⟨"c3", "a1", "restart", [], 30⟩ 5 = .error .full := rfl
  have hiff := mailbox_full_iff_live 2 10 [.submit ⟨"c1", "a1", "restart", [], 30⟩ 0,
    .submit ⟨"c2", "a1", "restart", [], 30⟩ 3] ⟨"c3", "a1", "restart", [], 30⟩ 5 rfl
  exact ⟨by decide, hfull, (hiff.mpr fun _ => by decide).mp hfull⟩

/-- The only command of an offline asset has expired, and its successor is refused. -/
theorem expired_command_fills_mailbox :
    let r := (HeapRun.start 1 10).run [.submit ⟨"c1", "a1", "restart", [], 30⟩ 0]
    r.heap.byID.lookup "c2" = none ∧ r.liveOf "a1" 100 = [] ∧
      r.heap.submit ⟨"c2", "a1", "restart", [], 30⟩ 100 = .error .full :=
  ⟨rfl, by decide, rfl⟩

end TomAgent.Connector
