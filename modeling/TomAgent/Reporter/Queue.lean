import TomAgent.Core.Execution
import TomAgent.Reporter.Items
import TomAgent.Wal.History
import TomAgent.Wal.Journal

/-!
# The reliable queues of the reporter

Every kind but the metrics has a log of its own and one `replayLoop` that reads
the log from a cursor, sends a batch, moves the cursor on and saves it.  A step of
the machine is one call of `SubmitReliable`, one call the loop makes, or a restart
of the process.

`Append` holds the lock of the log and is one step.  `ReadFrom` takes no lock, but
a reader that meets a record whose payload is still to come stops before it, as
if the append had not begun.  `SaveCursor` replaces the file by a rename, so it
has happened or it has not.
-/

namespace TomAgent.Reporter

open Wal Execution
open Uplink (QueueKind)

inductive Phase where
  | reading
  | sending (batch : ReliableBatch) (next : WalCursor)
  | saving
deriving Repr, DecidableEq

/-- A batch for which `SendReliable` returned nil, and the cursor it was read from. -/
structure Delivery where
  start : WalCursor
  batch : ReliableBatch
deriving Repr, DecidableEq

/-- One queue.  The disk holds the directory of `wal` and `cursorFile`, the process
the rest of `wal`, the cursor and the phase.  The last three fields record what
happened: the items that reached the log, with their places and in the order of
the calls, those of them whose call returned nil, and the accepted batches. -/
structure Queue where
  wal : WAL
  cursorFile : Option Bytes
  cursor : WalCursor
  phase : Phase
  log : List (WalCursor × ReliableItem)
  confirmed : List (WalCursor × ReliableItem)
  accepted : List Delivery

namespace Queue

def start (dir : Dir) (maxBytes : Int) : Queue :=
  ⟨openWal dir maxBytes, none, 0, .reading, [], [], []⟩

def persisted (q : Queue) : WalCursor := loadCursor q.cursorFile

/-- The items of a delivery, each with the place of its record: a batch has the
records from its cursor on. -/
def copies (q : Queue) (d : Delivery) : List (WalCursor × ReliableItem) :=
  ((q.log.filter fun e => d.start.AtOrBefore e.1).map Prod.fst).zip d.batch.items

def append (q : Queue) (item : ReliableItem) (fault : Option AppendFault) :
    Queue × Option AppendError :=
  let data := marshalItem item
  let done := q.wal.append data fault
  let entry := (done.1.lastPlace data, item)
  ({ q with
      wal := done.1
      log := if Recorded done.2 then q.log ++ [entry] else q.log
      confirmed := if done.2 = none then q.confirmed ++ [entry] else q.confirmed },
    done.2)

def read (q : Queue) (kind : QueueKind) (batchSize : Nat) (assetId : String) (now : Int) : Queue :=
  let (raws, next) := readFrom q.wal.dir q.cursor batchSize
  if raws = [] then q
  else { q with phase := .sending ⟨assetId, kind, now, raws.filterMap unmarshalItem⟩ next }

/-- A new process on the same disk.  A cursor file that cannot be read counts as
absent. -/
def restart (q : Queue) (maxBytes : Int) (readable : Bool) : Queue :=
  { q with
    wal := openWal q.wal.dir maxBytes
    cursor := if readable then q.persisted else 0
    phase := .reading }

end Queue

/-! ## The machine -/

inductive LoopEvent where
  | readFrom (assetId : String) (now : Int) (ok : Bool)
  | sendReliable (ok : Bool)
  | saveCursor (ok : Bool)
deriving Repr, DecidableEq

def Queue.step (kind : QueueKind) (batchSize : Nat) (q : Queue) : LoopEvent → Option Queue
  | .readFrom assetId now ok =>
      match q.phase with
      | .reading => some (if ok then q.read kind batchSize assetId now else q)
      | _ => none
  | .sendReliable ok =>
      match q.phase with
      | .sending batch next =>
          if ok then
            some { q with
              cursor := next
              phase := .saving
              accepted := q.accepted ++ [⟨q.cursor, batch⟩] }
          else some { q with phase := .reading }
      | _ => none
  | .saveCursor ok =>
      match q.phase with
      | .saving =>
          -- a failed save is only logged
          some { q with
            phase := .reading
            cursorFile := if ok then some (marshalCursor q.cursor) else q.cursorFile }
      | _ => none

inductive SubmitError where
  | marshal
  | unavailable (kind : QueueKind)
  | append (err : AppendError)
deriving Repr, DecidableEq

end TomAgent.Reporter

/-- A batch size below one reads nothing. -/
structure TomAgent.Reporter where
  batchSize : Nat
  queues : TomAgent.Uplink.QueueKind → Option TomAgent.Reporter.Queue

namespace TomAgent.Reporter

open Wal Execution
open Uplink (QueueKind)

def new (walEnabled : Bool) (maxBytes : Int) (batchSize : Nat) (dirs : QueueKind → Dir) :
    Reporter where
  batchSize := batchSize
  queues kind :=
    if walEnabled ∧ kind ≠ .metrics then some (Queue.start (dirs kind) maxBytes) else none

/-- `payload` is the JSON of the producer's value, none if it has none. -/
def submitReliable (r : Reporter) (kind : QueueKind) (id : String) (payload : Option String)
    (now : Int) (fault : Option AppendFault) : Reporter × Option SubmitError :=
  match payload with
  | none => (r, some .marshal)
  | some raw =>
      match r.queues kind with
      | none => (r, some (.unavailable kind))
      | some q =>
          let done := q.append ⟨id, kind, now, raw⟩ fault
          ({ r with queues := Function.update r.queues kind (some done.1) },
            done.2.map .append)

inductive Event where
  | submitReliable (kind : QueueKind) (id : String) (payload : Option String) (now : Int)
      (fault : Option AppendFault)
  | loop (kind : QueueKind) (event : LoopEvent)
  | restart (maxBytes : Int) (batchSize : Nat) (readable : QueueKind → Bool)

def step (r : Reporter) : Event → Option Reporter
  | .submitReliable kind id payload now fault =>
      some (r.submitReliable kind id payload now fault).1
  | .loop kind event =>
      match r.queues kind with
      | none => none
      | some q =>
          (q.step kind r.batchSize event).map fun q' =>
            { r with queues := Function.update r.queues kind (some q') }
  | .restart maxBytes batchSize readable =>
      some ⟨batchSize, fun kind => (r.queues kind).map (·.restart maxBytes (readable kind))⟩

def Undisturbed (r : Reporter) : Event → Prop
  | .submitReliable kind id payload now fault =>
      (∀ n, fault ≠ some (.writeHeader n)) ∧ (∀ n, fault ≠ some (.writePayload n)) ∧
        ∀ q ∈ r.queues kind, ∀ q' ∈ (r.submitReliable kind id payload now fault).1.queues kind,
          ∀ s ∈ segments q.wal.dir, s ∈ segments q'.wal.dir
  | .loop _ _ => True
  | .restart _ _ _ => True

/-! ## What a step does to the queues -/

section Queues

variable {P : QueueKind → Queue → Prop}

theorem queues_update {r : Reporter} (h : ∀ kind q, r.queues kind = some q → P kind q)
    (kind : QueueKind) {q : Queue} (hq : P kind q) :
    ∀ kind' q', Function.update r.queues kind (some q) kind' = some q' → P kind' q' := by
  intro kind' q' hq'
  by_cases heq : kind' = kind
  · subst heq
    have hsame : q = q' := by simpa using hq'
    exact hsame ▸ hq
  · exact h kind' q' (by simpa [heq] using hq')

/-- What holds of every queue, and is kept by an append, by a call of the loop and by a
restart, holds after a step. -/
theorem queues_step {r r' : Reporter} {e : Event} (hstep : r.step e = some r')
    (h : ∀ kind q, r.queues kind = some q → P kind q)
    (happend : ∀ kind id raw now fault, e = .submitReliable kind id (some raw) now fault →
      ∀ q, r.queues kind = some q → P kind (q.append ⟨id, kind, now, raw⟩ fault).1)
    (hloop : ∀ kind event, e = .loop kind event → ∀ q, r.queues kind = some q →
      ∀ q', q.step kind r.batchSize event = some q' → P kind q')
    (hrestart : ∀ maxBytes batchSize readable, e = .restart maxBytes batchSize readable →
      ∀ kind q, r.queues kind = some q → P kind (q.restart maxBytes (readable kind))) :
    ∀ kind q, r'.queues kind = some q → P kind q := by
  cases e with
  | submitReliable kind id payload now fault =>
      cases hstep
      cases payload with
      | none => exact h
      | some raw =>
          cases hq : r.queues kind with
          | none => simpa only [submitReliable, hq] using h
          | some q =>
              simp only [submitReliable, hq]
              exact queues_update h kind (happend kind id raw now fault rfl q hq)
  | loop kind event =>
      cases hq : r.queues kind with
      | none => simp [Reporter.step, hq] at hstep
      | some q =>
          simp only [Reporter.step, hq, Option.map_eq_some_iff] at hstep
          obtain ⟨q', hq', rfl⟩ := hstep
          exact queues_update h kind (hloop kind event rfl q hq q' hq')
  | restart maxBytes batchSize readable =>
      cases hstep
      intro kind q' hq'
      obtain ⟨q, hq, rfl⟩ := Option.map_eq_some_iff.mp hq'
      exact hrestart maxBytes batchSize readable rfl kind q hq

end Queues

end TomAgent.Reporter
