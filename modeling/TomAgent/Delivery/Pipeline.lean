import TomAgent.Reporter.Queue

/-!
# From the reliable queues to the gateway's sink

The replay loops of the reporter call `SendReliable` of the gRPC uplink and move their
cursor on when it returns nil.  The machine below runs the two together, with the
gateway at the other end of the streams: the call of a loop starts with the batch the
loop has read, goes through the uplink step by step, and its outcome is the answer the
loop gets.

A restart ends all goroutines of the agent.  The disk stays, and so does what the
gateway has or will still read from the old streams.
-/

namespace TomAgent.Uplink.Reports

open Handoff

/-- A new process: no call, no waiter and no entry of the old one, and nobody to read
its acknowledgements.  Sessions of the new process have numbers of their own. -/
def restart (s : Reports) : Reports :=
  { s with
    phase := fun c =>
      match s.phase c with
      | .returned outcome => .returned outcome
      | _ => .idle
    ch := fun _ => none
    reportWait := []
    reportOut := .empty
    acks := fun _ => [] }

def recorded (s : Reports) (kind : QueueKind) : List ReliableItem :=
  s.persisted.filterMap fun r =>
    if r.1 = reportKindName (reportKindOf kind) then some r.2 else none

end TomAgent.Uplink.Reports

namespace TomAgent.Delivery

open JsonText Execution Reporter
open Uplink (QueueKind Reports)

def wireItem (item : ReliableItem) : Uplink.ReliableItem :=
  ⟨utf8 item.id.toList, utf8 item.payload.toList⟩

def wireBatch (batch : ReliableBatch) : Uplink.ReliableBatch :=
  ⟨batch.kind, batch.items.map wireItem⟩

structure Pipeline where
  reporter : Reporter
  uplink : Reports
  /-- The call of `SendReliable` each replay loop is in. -/
  calling : QueueKind → Option Nat

inductive Event where
  | submitReliable (kind : QueueKind) (id : String) (payload : Option String) (now : Int)
      (fault : Option Wal.AppendFault)
  | readFrom (kind : QueueKind) (assetId : String) (now : Int) (ok : Bool)
  /-- The loop calls `SendReliable` with the batch it has read. -/
  | sendReliable (kind : QueueKind)
  /-- A step of the uplink, of a stream or of the gateway. -/
  | uplink (e : Reports.Event)
  /-- The call of the loop has returned and the loop goes on. -/
  | answered (kind : QueueKind)
  | saveCursor (kind : QueueKind) (ok : Bool)
  | restart (maxBytes : Int) (batchSize : Nat) (readable : QueueKind → Bool)

namespace Pipeline

/-- The agent on directories without cursor files. -/
def new (walEnabled : Bool) (maxBytes : Int) (batchSize : Nat) (dirs : QueueKind → Wal.Dir) :
    Pipeline :=
  ⟨Reporter.new walEnabled maxBytes batchSize dirs, Reports.init, fun _ => none⟩

def report (p : Pipeline) (e : Reporter.Event) : Option Pipeline :=
  (p.reporter.step e).map fun r => { p with reporter := r }

def step (p : Pipeline) : Event → Option Pipeline
  | .submitReliable kind id payload now fault =>
      p.report (.submitReliable kind id payload now fault)
  | .readFrom kind assetId now ok => p.report (.loop kind (.readFrom assetId now ok))
  | .saveCursor kind ok => p.report (.loop kind (.saveCursor ok))
  | .sendReliable kind =>
      match p.calling kind, (p.reporter.queues kind).map Queue.phase with
      | none, some (.sending batch _) =>
          (p.uplink.step (.register (wireBatch batch))).map fun u =>
            { p with
              uplink := u
              calling := Function.update p.calling kind (some p.uplink.next) }
      | _, _ => none
  | .uplink e =>
      match e with
      | .register _ => none
      | e => (p.uplink.step e).map fun u => { p with uplink := u }
  | .answered kind =>
      match p.calling kind with
      | none => none
      | some c =>
          match p.uplink.phase c with
          | .returned outcome =>
              (p.reporter.step (.loop kind (.sendReliable (outcome = .received .ok)))).map
                fun r =>
                  { p with
                    reporter := r
                    calling := Function.update p.calling kind none }
          | _ => none
  | .restart maxBytes batchSize readable =>
      (p.reporter.step (.restart maxBytes batchSize readable)).map fun r =>
        ⟨r, p.uplink.restart, fun _ => none⟩

/-- No write stops half way, the quota deletes no segment, and an id is used once in a
queue. -/
def Regular (p : Pipeline) : Event → Prop
  | .submitReliable kind id payload now fault =>
      p.reporter.Undisturbed (.submitReliable kind id payload now fault) ∧
        ∀ q ∈ p.reporter.queues kind, ∀ e ∈ q.log, e.2.id ≠ id
  | _ => True

/-- What an event does, case by case. -/
inductive Does (p : Pipeline) : Event → Pipeline → Prop
  | submitReliable {kind : QueueKind} {id : String} {payload : Option String} {now : Int}
      {fault : Option Wal.AppendFault} {r : Reporter}
      (hstep : p.reporter.step (.submitReliable kind id payload now fault) = some r) :
      Does p (.submitReliable kind id payload now fault) { p with reporter := r }
  | loop {e : Event} {kind : QueueKind} {event : LoopEvent} {r : Reporter}
      (hevent : ∀ ok, event ≠ .sendReliable ok)
      (hstep : p.reporter.step (.loop kind event) = some r) : Does p e { p with reporter := r }
  | sendReliable {kind : QueueKind} {q : Queue} {batch : ReliableBatch} {next : Wal.WalCursor}
      {u : Reports} (hfree : p.calling kind = none) (hq : p.reporter.queues kind = some q)
      (hphase : q.phase = .sending batch next)
      (hstep : p.uplink.step (.register (wireBatch batch)) = some u) :
      Does p (.sendReliable kind) { p with
        uplink := u
        calling := Function.update p.calling kind (some p.uplink.next) }
  | uplink {e : Reports.Event} {u : Reports} (hevent : ∀ b, e ≠ .register b)
      (hstep : p.uplink.step e = some u) : Does p (.uplink e) { p with uplink := u }
  | answered {kind : QueueKind} {c : Nat} {outcome : Uplink.Outcome} {r : Reporter}
      (hcall : p.calling kind = some c) (hphase : p.uplink.phase c = .returned outcome)
      (hstep : p.reporter.step (.loop kind (.sendReliable (outcome = .received .ok))) = some r) :
      Does p (.answered kind) { p with
        reporter := r
        calling := Function.update p.calling kind none }
  | restart {maxBytes : Int} {batchSize : Nat} {readable : QueueKind → Bool} {r : Reporter}
      (hstep : p.reporter.step (.restart maxBytes batchSize readable) = some r) :
      Does p (.restart maxBytes batchSize readable) ⟨r, p.uplink.restart, fun _ => none⟩

theorem report_eq_some {p t : Pipeline} {e : Reporter.Event} (h : p.report e = some t) :
    ∃ r, p.reporter.step e = some r ∧ { p with reporter := r } = t :=
  Option.map_eq_some_iff.mp h

theorem does_of_step {p t : Pipeline} {e : Event} (h : p.step e = some t) : p.Does e t := by
  cases e with
  | submitReliable kind id payload now fault =>
      obtain ⟨r, hstep, rfl⟩ := report_eq_some h
      exact .submitReliable hstep
  | readFrom kind assetId now ok =>
      obtain ⟨r, hstep, rfl⟩ := report_eq_some h
      exact .loop (by simp) hstep
  | saveCursor kind ok =>
      obtain ⟨r, hstep, rfl⟩ := report_eq_some h
      exact .loop (by simp) hstep
  | sendReliable kind =>
      simp only [step] at h
      split at h
      next batch next hfree hphase =>
        obtain ⟨q, hq, hphase⟩ := Option.map_eq_some_iff.mp hphase
        obtain ⟨u, hstep, rfl⟩ := Option.map_eq_some_iff.mp h
        exact .sendReliable hfree hq hphase hstep
      next => cases h
  | uplink e =>
      simp only [step] at h
      split at h
      next => cases h
      next hevent =>
        obtain ⟨u, hstep, rfl⟩ := Option.map_eq_some_iff.mp h
        exact .uplink hevent hstep
  | answered kind =>
      simp only [step] at h
      split at h
      next => cases h
      next c hcall =>
        split at h
        next outcome hphase =>
          obtain ⟨r, hstep, rfl⟩ := Option.map_eq_some_iff.mp h
          exact .answered hcall hphase hstep
        next => cases h
  | restart maxBytes batchSize readable =>
      simp only [step] at h
      obtain ⟨r, hstep, rfl⟩ := Option.map_eq_some_iff.mp h
      exact .restart hstep

end Pipeline

end TomAgent.Delivery
