import Mathlib.Algebra.Order.BigOperators.Group.List
import TomAgent.Core.JsonBytes
import TomAgent.Core.ProtoWire
import TomAgent.Reporter.AtLeastOnce
import TomAgent.Wal.Faults

/-!
# The size of a replayed report

`ReadFrom` counts records, and `SendReliable` puts all of them into one message.  The
connector's server takes messages of at most 4 MiB.  A larger one breaks the session,
and `replayLoop` goes on with the same records.
-/

namespace TomAgent.Reporter

open JsonText ProtoWire Wal Execution
open Uplink (QueueKind ReportKind reportKindOf)

/-! ## The message -/

structure WireItem where
  id : Bytes
  kind : ReportKind
  createdAt : Int
  payload : Bytes
deriving Repr, DecidableEq

structure WireReport where
  assetId : Bytes
  kind : ReportKind
  sentAt : Int
  items : List WireItem
deriving Repr, DecidableEq

def kindNumber : ReportKind → Nat
  | .unspecified => 0
  | .results => 1
  | .audit => 2
  | .inventory => 3

def WireItem.encode (item : WireItem) : Bytes :=
  bytesField 1 item.id ++ (numberField 2 (kindNumber item.kind) ++
    (numberField 3 (int64Bits item.createdAt) ++ bytesField 4 item.payload))

def WireReport.encode (report : WireReport) : Bytes :=
  bytesField 1 report.assetId ++ (numberField 2 (kindNumber report.kind) ++
    (numberField 3 (int64Bits report.sentAt) ++
      report.items.flatMap fun item => messageField 4 item.encode))

/-- An item as `SendReliable` puts it into the message. -/
def ReliableItem.wire (item : ReliableItem) (kind : ReportKind) : WireItem :=
  ⟨utf8 item.id.toList, kind, item.createdAt, utf8 item.payload.toList⟩

def ReliableBatch.report (batch : ReliableBatch) : WireReport :=
  let kind := reportKindOf batch.kind
  ⟨utf8 batch.assetId.toList, kind, batch.sentAt, batch.items.map (·.wire kind)⟩

/-- What a server receives unless it is told otherwise. -/
def maxReceiveMessageSize : Nat := 4194304

def Deliverable (batch : ReliableBatch) : Prop :=
  batch.report.encode.length ≤ maxReceiveMessageSize

instance : DecidablePred Deliverable := fun _ => inferInstanceAs (Decidable (_ ≤ _))

/-! ## Its length -/

def itemSize (kind : ReportKind) (item : ReliableItem) : Nat :=
  bytesFieldSize 1 (size item.id.toList) + numberFieldSize 2 (kindNumber kind) +
    numberFieldSize 3 (int64Bits item.createdAt) + bytesFieldSize 4 (size item.payload.toList)

def reportSize (assetId : String) (kind : ReportKind) (sentAt : Int) (items : List ReliableItem) :
    Nat :=
  bytesFieldSize 1 (size assetId.toList) + numberFieldSize 2 (kindNumber kind) +
    numberFieldSize 3 (int64Bits sentAt) +
    (items.map fun item => framedSize 4 (itemSize kind item)).sum

theorem length_encode_wire (kind : ReportKind) (item : ReliableItem) :
    (item.wire kind).encode.length = itemSize kind item := by
  simp only [WireItem.encode, ReliableItem.wire, List.length_append, bytesField_length,
    numberField_length, itemSize, size, Nat.add_assoc]

theorem length_encode_report (batch : ReliableBatch) :
    batch.report.encode.length =
      reportSize batch.assetId (reportKindOf batch.kind) batch.sentAt batch.items := by
  have hitems := flatMap_messageField_length 4
    (fun item : ReliableItem => (item.wire (reportKindOf batch.kind)).encode) batch.items
  simp only [length_encode_wire] at hitems
  simp only [WireReport.encode, ReliableBatch.report, List.length_append, bytesField_length,
    numberField_length, List.flatMap_map, hitems, reportSize, size, Nat.add_assoc]

theorem deliverable_iff (batch : ReliableBatch) : Deliverable batch ↔
    reportSize batch.assetId (reportKindOf batch.kind) batch.sentAt batch.items ≤
      maxReceiveMessageSize := by
  rw [Deliverable, length_encode_report]

/-! ## What the loop sends -/

/-- The next items the log has: those at or after the cursor, in the order in which they
were submitted, as many as a batch takes. -/
def Queue.backlog (q : Queue) (batchSize : Nat) : List ReliableItem :=
  ((q.log.filter fun e => q.cursor.AtOrBefore e.1).take batchSize).map Prod.snd

theorem Queue.Refines.readFrom_backlog {q : Queue} {j : Journal}
    {s : Replay.State (WalCursor × ReliableItem)} (h : q.Refines j s) (batchSize : Nat) :
    (Wal.readFrom q.wal.dir q.cursor batchSize).1 = (q.backlog batchSize).map marshalItem := by
  rcases Nat.eq_zero_or_pos batchSize with rfl | hmax
  · rw [readFrom_none]
    rfl
  · rw [h.readFrom hmax, Queue.backlog, h.filter_log h.cursor, List.map_map]
    rfl

theorem Queue.Replays.read_phase {q : Queue} (h : q.Replays) (hq : q.phase = .reading)
    (kind : QueueKind) (batchSize : Nat) (assetId : String) (now : Int) :
    ∃ next, (q.read kind batchSize assetId now).phase =
      if q.backlog batchSize = [] then .reading
      else .sending ⟨assetId, kind, now, q.backlog batchSize⟩ next := by
  obtain ⟨j, s, -, href⟩ := h
  have hraws := href.readFrom_backlog batchSize
  have hitems : ((q.backlog batchSize).map marshalItem).filterMap unmarshalItem =
      q.backlog batchSize := by
    simp [List.filterMap_map]
  refine ⟨(Wal.readFrom q.wal.dir q.cursor batchSize).2, ?_⟩
  simp only [Queue.read, hraws, hitems, List.map_eq_nil_iff]
  split
  · exact hq
  · rfl

theorem Queue.Replays.read_sending {q : Queue} (h : q.Replays) (hq : q.phase = .reading)
    {kind : QueueKind} {batchSize : Nat} {assetId : String} {now : Int} {batch : ReliableBatch}
    {next : WalCursor}
    (hsending : (q.read kind batchSize assetId now).phase = .sending batch next) :
    batch = ⟨assetId, kind, now, q.backlog batchSize⟩ := by
  obtain ⟨next', hread⟩ := h.read_phase hq kind batchSize assetId now
  rw [hread] at hsending
  split at hsending
  · cases hsending
  · cases hsending
    rfl

/-- What the log has at the cursor leaves room in the message when it is read. -/
def Light (r : Reporter) : Event → Prop
  | .loop kind (.readFrom assetId now _) => ∀ q, r.queues kind = some q →
      reportSize assetId (reportKindOf kind) now (q.backlog r.batchSize) ≤ maxReceiveMessageSize
  | _ => True

def AllDeliverable (r : Reporter) : Prop :=
  ∀ kind q, r.queues kind = some q → ∀ batch next, q.phase = .sending batch next →
    Deliverable batch

theorem Queue.append_cursor (q : Queue) (item : ReliableItem) (fault : Option AppendFault) :
    (q.append item fault).1.cursor = q.cursor := by
  rw [Queue.append]

theorem Queue.append_phase (q : Queue) (item : ReliableItem) (fault : Option AppendFault) :
    (q.append item fault).1.phase = q.phase := by
  rw [Queue.append]

theorem Queue.append_wal (q : Queue) (item : ReliableItem) (fault : Option AppendFault) :
    (q.append item fault).1.wal = (q.wal.append (marshalItem item) fault).1 := by
  rw [Queue.append]

theorem Queue.step_deliverable {q q' : Queue} {kind : QueueKind} {batchSize : Nat} {e : LoopEvent}
    (hreplays : q.Replays) (h : ∀ batch next, q.phase = .sending batch next → Deliverable batch)
    (hlight : ∀ assetId now ok, e = .readFrom assetId now ok →
      reportSize assetId (reportKindOf kind) now (q.backlog batchSize) ≤ maxReceiveMessageSize)
    (hstep : q.step kind batchSize e = some q') :
    ∀ batch next, q'.phase = .sending batch next → Deliverable batch := by
  intro batch next hsending
  cases e with
  | readFrom assetId now ok =>
      cases hp : q.phase <;> simp only [Queue.step, hp, Option.some.injEq, reduceCtorEq] at hstep
      subst hstep
      cases ok with
      | true =>
          rw [if_pos rfl] at hsending
          rw [deliverable_iff, hreplays.read_sending hp hsending]
          exact hlight assetId now true rfl
      | false => exact h batch next hsending
  | sendReliable ok =>
      cases hp : q.phase <;> simp only [Queue.step, hp, reduceCtorEq] at hstep
      cases ok <;> cases hstep <;> cases hsending
  | saveCursor ok =>
      cases hp : q.phase <;> simp only [Queue.step, hp, Option.some.injEq, reduceCtorEq] at hstep
      subst hstep
      cases hsending

theorem AllDeliverable.step {r r' : Reporter} (hreplay : AllReplay r) (h : AllDeliverable r)
    {e : Event} (hmay : Light r e) (hstep : r.step e = some r') : AllDeliverable r' := by
  refine queues_step hstep h ?_ ?_ ?_
  · intro kind id raw now fault _ q hq
    rw [Queue.append_phase]
    exact h kind q hq
  · rintro kind event rfl q hq q' hq'
    refine Queue.step_deliverable (hreplay kind q hq) (h kind q hq) ?_ hq'
    rintro assetId now ok rfl
    exact hmay q hq
  · intro maxBytes batchSize readable _ kind q hq batch next hsending
    cases hsending

def calm (r : Reporter) : Event → Bool
  | .submitReliable kind id payload now fault =>
      fault.isNone && (r.queues kind).all fun q =>
        ((r.submitReliable kind id payload now fault).1.queues kind).all fun q' =>
          (segments q.wal.dir).all (· ∈ segments q'.wal.dir)
  | .loop kind (.readFrom assetId now _) => (r.queues kind).all fun q =>
      reportSize assetId (reportKindOf kind) now (q.backlog r.batchSize) ≤ maxReceiveMessageSize
  | _ => true

/-- A queue that has been given these items and has read nothing; the quota is off. -/
structure Queue.Fresh (q : Queue) (items : List ReliableItem) : Prop where
  replays : q.Replays
  quota : q.wal.maxBytes ≤ 0
  cursor : q.cursor = 0
  phase : q.phase = .reading
  items : q.log.map Prod.snd = items

theorem Queue.Fresh.append_kept {q : Queue} {items : List ReliableItem} (h : q.Fresh items)
    (item : ReliableItem) : (q.append item none).1.wal.maxBytes = q.wal.maxBytes ∧
      ∀ id ∈ segments q.wal.dir, id ∈ segments (q.append item none).1.wal.dir := by
  obtain ⟨j, s, -, href⟩ := h.replays
  obtain ⟨-, hquota, hkept⟩ := WAL.append_keeps href.keeps.stores.ready (marshalItem item) none
  rw [Queue.append_wal]
  exact ⟨hquota, hkept h.quota⟩

theorem Queue.Fresh.append {q : Queue} {items : List ReliableItem} (h : q.Fresh items)
    {item : ReliableItem} (hfits : Fits (marshalItem item)) :
    (q.append item none).1.Fresh (items ++ [item]) := by
  obtain ⟨hquota, hkept⟩ := h.append_kept item
  obtain ⟨j, s, hrun, href⟩ := h.replays
  obtain ⟨k, t, hmore, hafter⟩ := href.append item (by simp) (by simp) hkept
  have hok : (q.wal.append (marshalItem item) none).2 = none := WAL.append_ok.mpr hfits
  refine ⟨⟨k, t, hrun.trans hmore, hafter⟩, ?_, ?_, ?_, ?_⟩
  · rw [hquota]
    exact h.quota
  · rw [Queue.append_cursor, h.cursor]
  · rw [Queue.append_phase, h.phase]
  · simp only [Queue.append, hok, Recorded, if_true, List.map_append, h.items, List.map_cons,
      List.map_nil]

theorem Queue.Fresh.backlog {q : Queue} {items : List ReliableItem} (h : q.Fresh items)
    (batchSize : Nat) : q.backlog batchSize = items.take batchSize := by
  have hall : q.log.filter (fun e => q.cursor.AtOrBefore e.1) = q.log := by
    rw [h.cursor, List.filter_eq_self]
    intro e _
    exact decide_eq_true (zero_atOrBefore e.1)
  rw [Queue.backlog, hall, List.map_take, h.items]

end TomAgent.Reporter
