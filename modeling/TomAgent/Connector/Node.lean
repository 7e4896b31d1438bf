import TomAgent.Connector.MailboxRuns
import TomAgent.Connector.Server
import TomAgent.Core.Table
import TomAgent.Platform.Payload

/-!
# A connector and its database

The goroutines that carry a command from the admin interface to the control stream
of its agent: the admin handlers, the outbox dispatcher, one control loop per
session and the receivers of results.  A step is one call of the mailbox or the
store, or one frame.  Between two steps the connector may crash; then the mailbox,
the streams and the dispatcher are gone and the database stays.

Without a database the admin handlers use the mailbox directly.
-/

namespace TomAgent.Connector

open Platform Execution

instance decidableMemPair (p : String × String) (l : List (String × String)) : Decidable (p ∈ l) :=
  inferInstance

inductive Mode where
  | memory
  | stored
deriving Repr, DecidableEq

/-- How a store call ends: it may fail, and it may be committed and still return an
error. -/
inductive Reply where
  | done
  | failed
  | unreported
deriving Repr, DecidableEq

def Reply.settle (reply : Reply) (result : Except StoreError Store) (s : Store) : Bool × Store :=
  match reply, result with
  | .done, .ok t => (true, t)
  | .unreported, .ok t => (false, t)
  | _, _ => (false, s)

/-- A control loop and the batch it took with its last `NextDispatch`. -/
structure ControlStream where
  assetId : String
  cmds : List MailboxCommand
  /-- Sent; the transition to DELIVERED comes next. -/
  delivering : Option String
  cancels : List String

/-- Where the dispatcher is with the entry it has taken up. -/
inductive DispatcherState where
  | idle
  /-- In the mailbox; the transition to DISPATCHING comes next. -/
  | submitted (index : Nat) (cmdId : String)
  /-- `MarkPublished` comes next. -/
  | handled (index : Nat)
  /-- `MarkOutboxError` comes next. -/
  | refused (index : Nat)
deriving Repr, DecidableEq

structure Node where
  store : Store
  /-- The column `locked_until` of the outbox. -/
  locks : Nat → Option Int
  clock : Int
  box : MailboxRun
  /-- Fetched and not yet taken up, by `event_id`. -/
  batch : List Nat
  dispatcher : DispatcherState
  /-- Handlers of `/admin/cancel` between the store and the mailbox. -/
  cancelling : Nat → Option (String × String)
  streams : AList (fun _ : Nat => ControlStream)
  /-- Report streams between `Mailbox.Complete` and `CompleteCommand`. -/
  receiving : Nat → Option (String × Payload)
  /-- Asset and id of every envelope sent. -/
  sent : List (String × String)
  /-- Asset and id of every cancel that `NextDispatch` returned. -/
  takenCancels : List (String × String)
  sentCancels : List (String × String)
  /-- Ids that `Mailbox.Cancel` accepted. -/
  cancelled : List String
  /-- Commands that `/admin/cancel` was accepted for before they were sent. -/
  withdrawn : List Uuid
  /-- Ids of the results received. -/
  results : List String

namespace Node

def start : Node where
  store := Store.empty
  locks := fun _ => none
  clock := 0
  box := .start 64 300000
  batch := []
  dispatcher := .idle
  cancelling := fun _ => none
  streams := ∅
  receiving := fun _ => none
  sent := []
  takenCancels := []
  sentCancels := []
  cancelled := []
  withdrawn := []
  results := []

abbrev mailbox (n : Node) : Mailbox := n.box.mailbox

/-- The process dies; the tables and what has gone over the wire stay. -/
def crash (n : Node) : Node :=
  { n with
    box := .start 64 300000
    batch := []
    dispatcher := .idle
    cancelling := fun _ => none
    streams := ∅
    receiving := fun _ => none
    takenCancels := []
    cancelled := [] }

/-! ## The outbox -/

def due (n : Node) (now : Int) : List Nat :=
  (List.range n.store.outbox.length).filter fun i =>
    (n.store.outbox[i]?).any (fun e => !e.published) ∧ (n.locks i).all (· < now)

/-- The rows that `FetchOutbox` locks, 32 at most. -/
def fetchOutbox (n : Node) (now : Int) : List Nat := (n.due now).take 32

def lockRows (n : Node) (ids : List Nat) (lockedUntil : Int) (i : Nat) : Option Int :=
  if i ∈ ids then some lockedUntil else n.locks i

/-! ## Cancelling -/

def acceptsCancel (n : Node) (cmdId : String) : Bool :=
  (n.mailbox.byID.lookup cmdId).any fun c => c.state = .queued ∨ c.state = .dispatched

def cancelMailbox (n : Node) (assetId cmdId : String) : Node :=
  { n with
    box := n.box.step (.cancel assetId cmdId)
    cancelled := if n.acceptsCancel cmdId then n.cancelled ++ [cmdId] else n.cancelled }

def Sent (n : Node) (u : Uuid) : Prop := ∃ p ∈ n.sent, parseUuid p.2 = some u

instance (n : Node) (u : Uuid) : Decidable (n.Sent u) := by
  unfold Sent; infer_instance

/-- The command that `/admin/cancel` answers 202 for, unless it has been sent. -/
def newlyWithdrawn (n : Node) (cmdId : String) : List Uuid :=
  (parseUuid cmdId).toList.filter fun u => ¬ n.Sent u

def recordWithdrawn (n : Node) (cmdId : String) : Node :=
  { n with withdrawn := n.withdrawn ++ n.newlyWithdrawn cmdId }

def endHandler (n : Node) (handler : Nat) : Node :=
  { n with cancelling := Function.update n.cancelling handler none }

/-! ## Steps -/

inductive Event where
  | tick (now : Int)
  | submit (d : Dispatch)
  | cancel (assetId cmdId : String)
  | submitCommand (d : Dispatch) (ttl : Int) (reply : Reply)
  | cancelCommand (handler : Nat) (assetId cmdId : String) (reply : Reply)
  | cancelNow (handler : Nat)
  /-- RETURNING gives the rows in any order. -/
  | fetch (ids : List Nat) (now : Int) (reply : Reply)
  | dispatch
  | transitionDispatching (reply : Reply)
  | markPublished (reply : Reply)
  | markOutboxError (reply : Reply)
  | connect (session : Nat) (assetId : String)
  | nextDispatch (session : Nat)
  | send (session : Nat) (ok : Bool)
  | transitionDelivered (session : Nat) (reply : Reply)
  | sendCancel (session : Nat) (ok : Bool)
  | disconnect (session : Nat)
  /-- A result has come in on a report stream and the sink has taken it. -/
  | complete (stream : Nat) (cmdId : String) (payload : Payload)
  | completeCommand (stream : Nat) (reply : Reply)
  | commandAck (cmdId rejectReason : String) (reply : Reply)
  | crash

def setDispatcher (n : Node) (d : DispatcherState) : Node := { n with dispatcher := d }

def dispatchOutbox (n : Node) (index : Nat) (e : OutboxEntry) : Node :=
  match unmarshalPayload (marshalPayload e) with
  | none => n.setDispatcher (.refused index)
  | some p =>
      match e.eventType with
      | .dispatchRequested =>
          match n.mailbox.submit p n.clock with
          | .ok _ => { n with
              box := n.box.step (.submit p n.clock)
              dispatcher := .submitted index p.cmdId }
          | .error .dupCmdID => n.setDispatcher (.handled index)
          | .error _ => n.setDispatcher (.refused index)
      | .cancelRequested => (n.cancelMailbox p.assetId p.cmdId).setDispatcher (.handled index)

/-- A status change, if there is a database to write it to. -/
def persist (n : Node) (mode : Mode) (reply : Reply) (result : Except StoreError Store) : Node :=
  match mode with
  | .memory => n
  | .stored => { n with store := (reply.settle result n.store).2 }

def setStream (n : Node) (session : Nat) (st : ControlStream) : Node :=
  { n with streams := n.streams.insert session st }

def endStream (n : Node) (session : Nat) : Node :=
  { n with streams := n.streams.erase session }

def adminStep (n : Node) (mode : Mode) : Event → Option Node
  | .submit d =>
      if mode = .memory then some { n with box := n.box.step (.submit d n.clock) } else none
  | .cancel assetId cmdId =>
      if mode = .memory then some (n.cancelMailbox assetId cmdId) else none
  | .submitCommand d ttl reply =>
      if mode = .stored then
        some { n with store := (reply.settle (n.store.submitCommand d (n.clock + ttl)) n.store).2 }
      else none
  | .cancelCommand handler assetId cmdId reply =>
      if mode = .stored ∧ n.cancelling handler = none then
        let r := reply.settle (n.store.cancelCommand cmdId) n.store
        some { n with
          store := r.2
          cancelling := Function.update n.cancelling handler
            (if r.1 then some (assetId, cmdId) else none) }
      else none
  | .cancelNow handler =>
      -- the error of Mailbox.Cancel is ignored
      (n.cancelling handler).map fun (assetId, cmdId) =>
        ((n.cancelMailbox assetId cmdId).recordWithdrawn cmdId).endHandler handler
  | _ => none

def outboxStep (n : Node) (mode : Mode) : Event → Option Node
  | .fetch ids now reply =>
      if mode = .stored ∧ n.dispatcher = .idle ∧ n.batch = [] ∧ ids.Perm (n.fetchOutbox now) then
        match reply with
        | .done => some { n with locks := n.lockRows ids (now + 30000), batch := ids }
        | .unreported => some { n with locks := n.lockRows ids (now + 30000) }
        | .failed => some n
      else none
  | .dispatch =>
      match n.dispatcher, n.batch with
      | .idle, index :: rest =>
          (n.store.outbox[index]?).map fun e => { n with batch := rest }.dispatchOutbox index e
      | _, _ => none
  | .transitionDispatching reply =>
      match n.dispatcher with
      | .submitted index cmdId =>
          let r := reply.settle
            (n.store.transition cmdId "dispatching" "DISPATCHING" "connector") n.store
          some { n with
            store := r.2
            dispatcher := if r.1 then .handled index else .refused index }
      | _ => none
  | .markPublished reply =>
      match n.dispatcher with
      | .handled index => some { n with
          store := if reply = .failed then n.store else n.store.markPublished index
          dispatcher := .idle }
      | _ => none
  | .markOutboxError reply =>
      match n.dispatcher with
      | .refused index => some { n with
          locks := if reply = .failed then n.locks else Function.update n.locks index none
          dispatcher := .idle }
      | _ => none
  | _ => none

def streamStep (n : Node) (mode : Mode) : Event → Option Node
  | .connect session assetId =>
      match n.streams.lookup session with
      | none => some (n.setStream session ⟨assetId, [], none, []⟩)
      | some _ => none
  | .nextDispatch session =>
      match n.streams.lookup session with
      | some ⟨assetId, [], none, []⟩ =>
          let r := n.mailbox.nextDispatch assetId n.clock
          some { n with
            streams := n.streams.insert session ⟨assetId, r.2.1, none, r.2.2⟩
            box := n.box.step (.nextDispatch assetId n.clock)
            takenCancels := n.takenCancels ++ r.2.2.map fun id => (assetId, id) }
      | _ => none
  | .send session ok =>
      match n.streams.lookup session with
      | some ⟨assetId, c :: rest, none, cancels⟩ =>
          -- a failed send ends the loop with the rest of the batch in its hands
          if ok then some { n with
            streams := n.streams.insert session ⟨assetId, rest, some c.cmdId, cancels⟩
            sent := n.sent ++ [(assetId, c.cmdId)] }
          else some (n.endStream session)
      | _ => none
  | .transitionDelivered session reply =>
      match n.streams.lookup session with
      | some ⟨assetId, cmds, some cmdId, cancels⟩ =>
          some ((n.setStream session ⟨assetId, cmds, none, cancels⟩).persist mode reply
            (n.store.transition cmdId "delivered" "DELIVERED" "connector"))
      | _ => none
  | .sendCancel session ok =>
      match n.streams.lookup session with
      | some ⟨assetId, [], none, cmdId :: rest⟩ =>
          if ok then some { n with
            streams := n.streams.insert session ⟨assetId, [], none, rest⟩
            sentCancels := n.sentCancels ++ [(assetId, cmdId)] }
          else some (n.endStream session)
      | _ => none
  | .disconnect session =>
      -- the loop looks at its stream and its fence before the next batch
      match n.streams.lookup session with
      | some ⟨_, [], none, []⟩ => some (n.endStream session)
      | _ => none
  | _ => none

def reportStep (n : Node) (mode : Mode) : Event → Option Node
  | .complete stream cmdId payload =>
      match n.receiving stream with
      | none => some { n with
          box := n.box.step (.complete cmdId payload)
          receiving := Function.update n.receiving stream (some (cmdId, payload))
          results := n.results ++ [cmdId] }
      | some _ => none
  | .completeCommand stream reply =>
      match n.receiving stream with
      | some (cmdId, payload) =>
          some ({ n with receiving := Function.update n.receiving stream none }.persist mode reply
            (n.store.completeCommand cmdId (resultStatus payload) (some payload)))
      | none => none
  | _ => none

def step (n : Node) (mode : Mode) (e : Event) : Option Node :=
  match e with
  | .tick now => if n.clock ≤ now then some { n with clock := now } else none
  | .commandAck cmdId rejectReason reply =>
      some (n.persist mode reply
        (n.store.completeCommand cmdId (rejectStatus rejectReason) none))
  | .crash => some n.crash
  | .fetch .. | .dispatch | .transitionDispatching .. | .markPublished .. | .markOutboxError .. =>
      n.outboxStep mode e
  | .connect .. | .nextDispatch .. | .send .. | .transitionDelivered .. | .sendCancel ..
    | .disconnect .. => n.streamStep mode e
  | .complete .. | .completeCommand .. => n.reportStep mode e
  | .submit .. | .cancel .. | .submitCommand .. | .cancelCommand .. | .cancelNow .. =>
      n.adminStep mode e

/-! ## What a step can do -/

/-- A dispatch request as the dispatcher reads it. -/
def readBack (d : Dispatch) : Dispatch := { d with params := sortedParams d.params }

/-- The outcome of a step, one case for each kind. -/
inductive Effect (mode : Mode) (n : Node) : Event → Node → Prop
  | tick {now} (hclock : n.clock ≤ now) : Effect mode n (.tick now) { n with clock := now }
  | submit {d} (hmode : mode = .memory) :
      Effect mode n (.submit d) { n with box := n.box.step (.submit d n.clock) }
  | cancel {assetId cmdId} (hmode : mode = .memory) :
      Effect mode n (.cancel assetId cmdId) (n.cancelMailbox assetId cmdId)
  | submitCommand {d ttl reply s}
      (hstore : s = n.store ∨ n.store.submitCommand d (n.clock + ttl) = .ok s) :
      Effect mode n (.submitCommand d ttl reply) { n with store := s }
  | cancelCommand {handler assetId cmdId reply s c} (hfree : n.cancelling handler = none)
      (hstore : s = n.store ∨ n.store.cancelCommand cmdId = .ok s) :
      Effect mode n (.cancelCommand handler assetId cmdId reply)
        { n with store := s, cancelling := c }
  | cancelNow {handler assetId cmdId} (hc : n.cancelling handler = some (assetId, cmdId)) :
      Effect mode n (.cancelNow handler)
        (((n.cancelMailbox assetId cmdId).recordWithdrawn cmdId).endHandler handler)
  | fetch {ids now reply l b} (hidle : n.dispatcher = .idle)
      (hb : b = [] ∨ b.Perm (n.fetchOutbox now)) :
      Effect mode n (.fetch ids now reply) { n with locks := l, batch := b }
  | accepted {index rest d published m} (hidle : n.dispatcher = .idle)
      (hbatch : n.batch = index :: rest)
      (hentry : n.store.outbox[index]? = some ⟨.dispatchRequested, d, published⟩)
      (hsubmit : n.mailbox.submit (readBack d) n.clock = .ok m) :
      Effect mode n .dispatch { n with
        batch := rest
        box := n.box.step (.submit (readBack d) n.clock)
        dispatcher := .submitted index d.cmdId }
  | duplicate {index rest d published} (hidle : n.dispatcher = .idle)
      (hbatch : n.batch = index :: rest)
      (hentry : n.store.outbox[index]? = some ⟨.dispatchRequested, d, published⟩)
      (hsubmit : n.mailbox.submit (readBack d) n.clock = .error .dupCmdID) :
      Effect mode n .dispatch { n with batch := rest, dispatcher := .handled index }
  | rejected {index rest d published err} (hidle : n.dispatcher = .idle)
      (hbatch : n.batch = index :: rest)
      (hentry : n.store.outbox[index]? = some ⟨.dispatchRequested, d, published⟩)
      (hsubmit : n.mailbox.submit (readBack d) n.clock = .error err) (herr : err ≠ .dupCmdID) :
      Effect mode n .dispatch { n with batch := rest, dispatcher := .refused index }
  | cancelled {index rest d published} (hidle : n.dispatcher = .idle)
      (hbatch : n.batch = index :: rest)
      (hentry : n.store.outbox[index]? = some ⟨.cancelRequested, d, published⟩) :
      Effect mode n .dispatch
        (({ n with batch := rest }.cancelMailbox "" d.cmdId).setDispatcher (.handled index))
  | transitionDispatching {reply index cmdId s d} (hd : n.dispatcher = .submitted index cmdId)
      (hstore : s = n.store ∨
        n.store.transition cmdId "dispatching" "DISPATCHING" "connector" = .ok s)
      (hnext : d = .handled index ∨ d = .refused index) :
      Effect mode n (.transitionDispatching reply) { n with store := s, dispatcher := d }
  | markPublished {reply index} (hd : n.dispatcher = .handled index) (hreply : reply ≠ .failed) :
      Effect mode n (.markPublished reply)
        { n with store := n.store.markPublished index, dispatcher := .idle }
  | markFails {index} (hd : n.dispatcher = .handled index) :
      Effect mode n (.markPublished .failed) { n with dispatcher := .idle }
  | markOutboxError {reply index l} (hd : n.dispatcher = .refused index) :
      Effect mode n (.markOutboxError reply) { n with locks := l, dispatcher := .idle }
  | connect {session assetId} (hfree : n.streams.lookup session = none) :
      Effect mode n (.connect session assetId) (n.setStream session ⟨assetId, [], none, []⟩)
  | nextDispatch {session assetId} (hst : n.streams.lookup session = some ⟨assetId, [], none, []⟩) :
      Effect mode n (.nextDispatch session)
        { n with
          streams := n.streams.insert session ⟨assetId,
            (n.mailbox.nextDispatch assetId n.clock).2.1, none,
            (n.mailbox.nextDispatch assetId n.clock).2.2⟩
          box := n.box.step (.nextDispatch assetId n.clock)
          takenCancels := n.takenCancels ++
            (n.mailbox.nextDispatch assetId n.clock).2.2.map fun id => (assetId, id) }
  | send {session assetId c rest cancels}
      (hst : n.streams.lookup session = some ⟨assetId, c :: rest, none, cancels⟩) :
      Effect mode n (.send session true)
        { n with
          streams := n.streams.insert session ⟨assetId, rest, some c.cmdId, cancels⟩
          sent := n.sent ++ [(assetId, c.cmdId)] }
  | sendFails {session assetId c rest cancels}
      (hst : n.streams.lookup session = some ⟨assetId, c :: rest, none, cancels⟩) :
      Effect mode n (.send session false) (n.endStream session)
  | transitionDelivered {session reply assetId cmds cmdId cancels s}
      (hst : n.streams.lookup session = some ⟨assetId, cmds, some cmdId, cancels⟩)
      (hstore : s = n.store ∨
        n.store.transition cmdId "delivered" "DELIVERED" "connector" = .ok s) :
      Effect mode n (.transitionDelivered session reply)
        { n with streams := n.streams.insert session ⟨assetId, cmds, none, cancels⟩, store := s }
  | sendCancel {session assetId cmdId rest}
      (hst : n.streams.lookup session = some ⟨assetId, [], none, cmdId :: rest⟩) :
      Effect mode n (.sendCancel session true)
        { n with
          streams := n.streams.insert session ⟨assetId, [], none, rest⟩
          sentCancels := n.sentCancels ++ [(assetId, cmdId)] }
  | sendCancelFails {session assetId cmdId rest}
      (hst : n.streams.lookup session = some ⟨assetId, [], none, cmdId :: rest⟩) :
      Effect mode n (.sendCancel session false) (n.endStream session)
  | disconnect {session assetId} (hst : n.streams.lookup session = some ⟨assetId, [], none, []⟩) :
      Effect mode n (.disconnect session) (n.endStream session)
  | complete {stream cmdId payload} (hfree : n.receiving stream = none) :
      Effect mode n (.complete stream cmdId payload) { n with
        box := n.box.step (.complete cmdId payload)
        receiving := Function.update n.receiving stream (some (cmdId, payload))
        results := n.results ++ [cmdId] }
  | completeCommand {stream cmdId payload reply s} (hr : n.receiving stream = some (cmdId, payload))
      (hstore : s = n.store ∨
        n.store.completeCommand cmdId (resultStatus payload) (some payload) = .ok s) :
      Effect mode n (.completeCommand stream reply)
        { n with receiving := Function.update n.receiving stream none, store := s }
  | commandAck {cmdId rejectReason reply s}
      (hstore : s = n.store ∨
        n.store.completeCommand cmdId (rejectStatus rejectReason) none = .ok s) :
      Effect mode n (.commandAck cmdId rejectReason reply) { n with store := s }
  | crash : Effect mode n .crash n.crash

theorem settle_ok (reply : Reply) (result : Except StoreError Store) (s : Store) :
    (reply.settle result s).2 = s ∨ result = .ok (reply.settle result s).2 := by
  cases reply <;> cases result <;> simp [Reply.settle]

/-- Whatever the call comes to, a status change keeps the rest of the tables. -/
theorem restamps_of_settled {s t : Store} {cmdId eventType toStatus actor : String}
    {result : Option Payload → Option Payload}
    (h : t = s ∨ s.setStatus cmdId eventType toStatus actor result = .ok t) : s.Restamps t := by
  rcases h with rfl | hok
  · exact .refl t
  · exact Store.setStatus_restamps hok

theorem persist_effect (n : Node) (mode : Mode) (reply : Reply)
    (result : Except StoreError Store) :
    ∃ s, (s = n.store ∨ result = .ok s) ∧ n.persist mode reply result = { n with store := s } := by
  cases mode with
  | memory => exact ⟨n.store, Or.inl rfl, rfl⟩
  | stored => exact ⟨_, settle_ok reply result n.store, rfl⟩

variable {mode : Mode} {n t : Node} {e : Event}

theorem adminStep_effect (h : n.adminStep mode e = some t) : Effect mode n e t := by
  cases e with
  | submit d =>
      simp only [adminStep] at h
      split at h
      next hmode =>
        cases h
        exact .submit hmode
      next => cases h
  | cancel assetId cmdId =>
      simp only [adminStep] at h
      split at h
      next hmode =>
        cases h
        exact .cancel hmode
      next => cases h
  | submitCommand d ttl reply =>
      simp only [adminStep] at h
      split at h
      next =>
        cases h
        exact .submitCommand (settle_ok _ _ _)
      next => cases h
  | cancelCommand handler assetId cmdId reply =>
      simp only [adminStep] at h
      split at h
      next hfree =>
        cases h
        exact .cancelCommand hfree.2 (settle_ok _ _ _)
      next => cases h
  | cancelNow handler =>
      simp only [adminStep] at h
      obtain ⟨⟨assetId, cmdId⟩, hc, rfl⟩ := Option.map_eq_some_iff.mp h
      exact .cancelNow hc
  | _ => cases h

/-- The dispatcher takes up a row: what it reads decides which call it makes. -/
theorem dispatch_effect {index : Nat} {rest : List Nat} {entry : OutboxEntry}
    (hidle : n.dispatcher = .idle) (hbatch : n.batch = index :: rest)
    (hentry : n.store.outbox[index]? = some entry) :
    Effect mode n .dispatch ({ n with batch := rest }.dispatchOutbox index entry) := by
  obtain ⟨eventType, d, published⟩ := entry
  unfold dispatchOutbox
  cases eventType with
  | dispatchRequested =>
      rw [unmarshalPayload_dispatch]
      cases hsubmit : n.mailbox.submit (readBack d) n.clock with
      | ok m =>
          have hsubmit' : n.box.mailbox.submit { d with params := sortedParams d.params } n.clock =
              .ok m := hsubmit
          simp only [mailbox, hsubmit']
          exact .accepted hidle hbatch hentry hsubmit
      | error err =>
          have hsubmit' : n.box.mailbox.submit { d with params := sortedParams d.params } n.clock =
              .error err := hsubmit
          simp only [mailbox, hsubmit']
          cases err with
          | dupCmdID => exact .duplicate hidle hbatch hentry hsubmit
          | full => exact .rejected hidle hbatch hentry hsubmit (by simp)
          | notCancellable => exact .rejected hidle hbatch hentry hsubmit (by simp)
  | cancelRequested =>
      rw [unmarshalPayload_cancel]
      have hcancelled : Effect mode n .dispatch
          (({ n with batch := rest }.cancelMailbox "" d.cmdId).setDispatcher (.handled index)) :=
        .cancelled hidle hbatch hentry
      exact hcancelled

theorem outboxStep_effect (h : n.outboxStep mode e = some t) : Effect mode n e t := by
  cases e with
  | fetch ids now reply =>
      simp only [outboxStep] at h
      split at h
      next hfree =>
        obtain ⟨-, hidle, hbatch, hids⟩ := hfree
        cases reply with
        | done =>
            cases h
            exact .fetch hidle (Or.inr hids)
        | failed =>
            cases h
            have hsame : Effect mode n (.fetch ids now .failed)
                { n with locks := n.locks, batch := n.batch } := .fetch hidle (Or.inl hbatch)
            exact hsame
        | unreported =>
            cases h
            have hlocked : Effect mode n (.fetch ids now .unreported)
                { n with locks := n.lockRows ids (now + 30000), batch := n.batch } :=
              .fetch hidle (Or.inl hbatch)
            exact hlocked
      next => cases h
  | dispatch =>
      simp only [outboxStep] at h
      split at h
      next index rest hidle hbatch =>
        obtain ⟨entry, hentry, rfl⟩ := Option.map_eq_some_iff.mp h
        exact dispatch_effect hidle hbatch hentry
      next => cases h
  | transitionDispatching reply =>
      simp only [outboxStep] at h
      split at h
      next index cmdId hd =>
        cases h
        refine .transitionDispatching hd (settle_ok _ _ _) ?_
        split
        · exact Or.inl rfl
        · exact Or.inr rfl
      next => cases h
  | markPublished reply =>
      simp only [outboxStep] at h
      split at h
      next index hd =>
        cases h
        by_cases hreply : reply = .failed
        · subst hreply
          exact .markFails hd
        · rw [if_neg hreply]
          exact .markPublished hd hreply
      next => cases h
  | markOutboxError reply =>
      simp only [outboxStep] at h
      split at h
      next index hd =>
        cases h
        exact .markOutboxError hd
      next => cases h
  | _ => cases h

theorem streamStep_effect (h : n.streamStep mode e = some t) : Effect mode n e t := by
  cases e with
  | connect session assetId =>
      simp only [streamStep] at h
      split at h
      next hfree =>
        cases h
        exact .connect hfree
      next => cases h
  | nextDispatch session =>
      simp only [streamStep] at h
      split at h
      next assetId hst =>
        cases h
        exact .nextDispatch hst
      next => cases h
  | send session ok =>
      simp only [streamStep] at h
      split at h
      next assetId c rest cancels hst =>
        cases ok with
        | true =>
            cases h
            exact .send hst
        | false =>
            cases h
            exact .sendFails hst
      next => cases h
  | transitionDelivered session reply =>
      simp only [streamStep] at h
      split at h
      next assetId cmds cmdId cancels hst =>
        cases h
        obtain ⟨s, hstore, heq⟩ := persist_effect
          (n.setStream session ⟨assetId, cmds, none, cancels⟩) mode reply
          (n.store.transition cmdId "delivered" "DELIVERED" "connector")
        rw [heq]
        exact .transitionDelivered hst hstore
      next => cases h
  | sendCancel session ok =>
      simp only [streamStep] at h
      split at h
      next assetId cmdId rest hst =>
        cases ok with
        | true =>
            cases h
            exact .sendCancel hst
        | false =>
            cases h
            exact .sendCancelFails hst
      next => cases h
  | disconnect session =>
      simp only [streamStep] at h
      split at h
      next assetId hst =>
        cases h
        exact .disconnect hst
      next => cases h
  | _ => cases h

theorem reportStep_effect (h : n.reportStep mode e = some t) : Effect mode n e t := by
  cases e with
  | complete stream cmdId payload =>
      simp only [reportStep] at h
      split at h
      next hfree =>
        cases h
        exact .complete hfree
      next => cases h
  | completeCommand stream reply =>
      simp only [reportStep] at h
      split at h
      next cmdId payload hr =>
        cases h
        obtain ⟨s, hstore, heq⟩ := persist_effect
          { n with receiving := Function.update n.receiving stream none } mode reply
          (n.store.completeCommand cmdId (resultStatus payload) (some payload))
        rw [heq]
        exact .completeCommand hr hstore
      next => cases h
  | _ => cases h

theorem step_effect (h : n.step mode e = some t) : Effect mode n e t := by
  cases e with
  | tick now =>
      simp only [step] at h
      split at h
      next hclock =>
        cases h
        exact .tick hclock
      next => cases h
  | commandAck cmdId rejectReason reply =>
      cases h
      obtain ⟨s, hstore, heq⟩ := n.persist_effect mode reply
        (n.store.completeCommand cmdId (rejectStatus rejectReason) none)
      rw [heq]
      exact .commandAck hstore
  | crash =>
      cases h
      exact .crash
  | fetch | dispatch | transitionDispatching | markPublished | markOutboxError =>
      exact outboxStep_effect h
  | connect | nextDispatch | send | transitionDelivered | sendCancel | disconnect =>
      exact streamStep_effect h
  | complete | completeCommand => exact reportStep_effect h
  | submit | cancel | submitCommand | cancelCommand | cancelNow => exact adminStep_effect h

/-- A step makes one call of the mailbox at most, or starts the process anew.  Only a
control loop calls `NextDispatch`. -/
theorem Effect.box (h : Effect mode n e t) :
    t.box = n.box ∨
      (∃ op, t.box = n.box.step op ∧
        ((∃ session, e = .nextDispatch session) ∨ ∀ assetId now, op ≠ .nextDispatch assetId now)) ∨
      e = .crash ∧ t.box = .start 64 300000 := by
  cases h with
  | submit => exact Or.inr (Or.inl ⟨.submit _ n.clock, rfl, Or.inr nofun⟩)
  | accepted => exact Or.inr (Or.inl ⟨.submit _ n.clock, rfl, Or.inr nofun⟩)
  | cancel => exact Or.inr (Or.inl ⟨.cancel _ _, rfl, Or.inr nofun⟩)
  | cancelNow => exact Or.inr (Or.inl ⟨.cancel _ _, rfl, Or.inr nofun⟩)
  | cancelled => exact Or.inr (Or.inl ⟨.cancel _ _, rfl, Or.inr nofun⟩)
  | nextDispatch => exact Or.inr (Or.inl ⟨.nextDispatch _ n.clock, rfl, Or.inl ⟨_, rfl⟩⟩)
  | complete => exact Or.inr (Or.inl ⟨.complete _ _, rfl, Or.inr nofun⟩)
  | crash => exact Or.inr (Or.inr ⟨rfl, rfl⟩)
  | _ => exact Or.inl rfl

theorem Effect.disciplined (h : Effect mode n e t) (hn : n.box.Disciplined) :
    t.box.Disciplined := by
  rcases h.box with heq | ⟨op, heq, -⟩ | ⟨-, heq⟩
  · rw [heq]
    exact hn
  · rw [heq]
    exact hn.step op
  · rw [heq]
    exact .start 64 300000

/-! ## What only grows -/

theorem Effect.clock_le (h : Effect mode n e t) : n.clock ≤ t.clock := by
  cases h with
  | tick hclock => exact hclock
  | _ => exact Int.le_refl _

theorem Effect.sent_subset (h : Effect mode n e t) : n.sent ⊆ t.sent := by
  cases h with
  | send => exact List.subset_append_left _ _
  | _ => exact List.Subset.refl _

theorem Effect.sentCancels_subset (h : Effect mode n e t) : n.sentCancels ⊆ t.sentCancels := by
  cases h with
  | sendCancel => exact List.subset_append_left _ _
  | _ => exact List.Subset.refl _

theorem cancelled_subset_cancelMailbox (n : Node) (assetId cmdId : String) :
    n.cancelled ⊆ (n.cancelMailbox assetId cmdId).cancelled := by
  simp only [cancelMailbox]
  split
  next => exact List.subset_append_left _ _
  next => exact List.Subset.refl _

theorem Effect.cancelled_subset (h : Effect mode n e t) (hcrash : e ≠ .crash) :
    n.cancelled ⊆ t.cancelled := by
  cases h with
  | @cancel assetId cmdId => exact n.cancelled_subset_cancelMailbox assetId cmdId
  | @cancelNow _ assetId cmdId => exact n.cancelled_subset_cancelMailbox assetId cmdId
  | cancelled => exact n.cancelled_subset_cancelMailbox "" _
  | crash => exact absurd rfl hcrash
  | _ => exact List.Subset.refl _

/-- While the process lives, records move on and none is lost. -/
theorem Effect.record (h : Effect mode n e t) (hcrash : e ≠ .crash) (hn : n.box.Disciplined)
    {id : String} {c : MailboxCommand} (hc : n.mailbox.byID.lookup id = some c) :
    ∃ c', t.mailbox.byID.lookup id = some c' ∧ c.Ages c' := by
  rcases h.box with heq | ⟨op, heq, -⟩ | ⟨hevent, -⟩
  · exact ⟨c, by rw [mailbox, heq]; exact hc, .refl c⟩
  · rw [mailbox, heq]
    exact hn.forth_step op hc
  · exact absurd hevent hcrash

theorem Effect.knows (h : Effect mode n e t) (hcrash : e ≠ .crash) (hn : n.box.Disciplined)
    {id : String} (hid : n.mailbox.Knows id) : t.mailbox.Knows id := by
  obtain ⟨c, hc⟩ := Option.isSome_iff_exists.mp (AList.lookup_isSome.mpr hid)
  obtain ⟨c', hc', -⟩ := h.record hcrash hn hc
  exact AList.lookup_isSome.mp (by rw [hc']; rfl)

/-- Only `NextDispatch` hands commands out and takes pending cancels. -/
theorem Effect.untaken (h : Effect mode n e t) (hcrash : e ≠ .crash)
    (hnext : ∀ session, e ≠ .nextDispatch session) :
    t.box.log.handouts = n.box.log.handouts ∧
      ∀ assetId, n.mailbox.cancels assetId ⊆ t.mailbox.cancels assetId := by
  rcases h.box with heq | ⟨op, heq, hop⟩ | ⟨hevent, -⟩
  · rw [mailbox, mailbox, heq]
    exact ⟨rfl, fun _ => List.Subset.refl _⟩
  · rcases hop with ⟨session, hevent⟩ | hop
    · exact absurd hevent (hnext session)
    · rw [mailbox, mailbox, heq]
      exact ⟨n.box.handouts_step op hop, n.box.cancels_subset_step op hop⟩
  · exact absurd hevent hcrash

/-- What a step does to the control streams: at most one of them changes.  What a
loop no longer has in its hands it has sent, unless a failed send ended it. -/
inductive StreamChange (n t : Node) (e : Event) : Prop
  | none (h : t.streams = n.streams)
  | opened (session : Nat) (assetId : String) (hfree : n.streams.lookup session = .none)
      (h : t.streams = n.streams.insert session ⟨assetId, [], .none, []⟩)
  | moved (session : Nat) (old new : ControlStream) (hold : n.streams.lookup session = some old)
      (h : t.streams = n.streams.insert session new) (hasset : new.assetId = old.assetId)
      (hcmds : ∀ c ∈ old.cmds, c ∈ new.cmds ∨ (old.assetId, c.cmdId) ∈ t.sent)
      (hcancels : ∀ id ∈ old.cancels, id ∈ new.cancels ∨ (old.assetId, id) ∈ t.sentCancels)
      (hnew : ∀ c ∈ new.cmds, c ∈ old.cmds ∨
        e = .nextDispatch session ∧ t.box = n.box.step (.nextDispatch old.assetId n.clock) ∧
          c ∈ (n.mailbox.nextDispatch old.assetId n.clock).2.1)
      (hdelivering : ∀ id, new.delivering = some id → id ∈ old.cmds.map MailboxCommand.cmdId)
  | ended (session : Nat) (old : ControlStream) (hold : n.streams.lookup session = some old)
      (h : t.streams = n.streams.erase session)
      (hrest : old.cmds = [] ∧ old.cancels = [] ∨
        e = .send session false ∨ e = .sendCancel session false)

theorem Effect.streams (h : Effect mode n e t) (hcrash : e ≠ .crash) : StreamChange n t e := by
  cases h with
  | connect hfree => exact .opened _ _ hfree rfl
  | nextDispatch hst =>
      exact .moved _ _ _ hst rfl rfl nofun nofun (fun c hc => Or.inr ⟨rfl, rfl, hc⟩) nofun
  | send hst =>
      refine .moved _ _ _ hst rfl rfl ?_ (fun id hid => Or.inl hid)
        (fun c hc => Or.inl (List.mem_cons_of_mem _ hc)) ?_
      · intro c hc
        rcases List.mem_cons.mp hc with rfl | hrest
        · exact Or.inr (List.mem_append_right _ (List.mem_singleton_self _))
        · exact Or.inl hrest
      · intro id hid
        cases hid
        exact List.mem_cons_self
  | sendFails hst => exact .ended _ _ hst rfl (Or.inr (Or.inl rfl))
  | transitionDelivered hst =>
      exact .moved _ _ _ hst rfl rfl (fun c hc => Or.inl hc) (fun id hid => Or.inl hid)
        (fun c hc => Or.inl hc) nofun
  | sendCancel hst =>
      refine .moved _ _ _ hst rfl rfl nofun ?_ nofun nofun
      intro id hid
      rcases List.mem_cons.mp hid with rfl | hrest
      · exact Or.inr (List.mem_append_right _ (List.mem_singleton_self _))
      · exact Or.inl hrest
  | sendCancelFails hst => exact .ended _ _ hst rfl (Or.inr (Or.inr rfl))
  | disconnect hst => exact .ended _ _ hst rfl (Or.inl ⟨rfl, rfl⟩)
  | crash => exact absurd rfl hcrash
  | _ => exact .none rfl

/-! ## What the control loops have in their hands -/

def Carried (n : Node) (cmdId : String) : Prop :=
  Table.Holds n.streams fun st => cmdId ∈ st.cmds.map MailboxCommand.cmdId

instance (n : Node) (cmdId : String) : Decidable (n.Carried cmdId) := by
  unfold Carried; infer_instance

theorem Effect.queued_back (he : Effect mode n e t) (hcrash : e ≠ .crash) (hn : n.box.Disciplined)
    {id : String} (hid : n.mailbox.Knows id) (hq : t.mailbox.Queued id) : n.mailbox.Queued id := by
  obtain ⟨c, hc⟩ := Option.isSome_iff_exists.mp (AList.lookup_isSome.mpr hid)
  obtain ⟨c', hc', hages⟩ := he.record hcrash hn hc
  obtain ⟨c'', hc'', hstate⟩ := hq
  cases hc'.symm.trans hc''
  have hstage := hages.stage
  rw [hstate] at hstage
  exact ⟨c, hc, CommandState.stage_eq_zero.mp (Nat.le_zero.mp hstage)⟩

def Takes (n : Node) (e : Event) (cmdId : String) : Prop :=
  ∃ session st, e = .nextDispatch session ∧ n.streams.lookup session = some st ∧
    ∃ c ∈ (n.mailbox.nextDispatch st.assetId n.clock).2.1, c.cmdId = cmdId

theorem Takes.queued {id : String} (h : n.Takes e id) (he : Effect mode n e t)
    (hn : n.box.Disciplined) : n.mailbox.Queued id ∧ ¬ t.mailbox.Queued id := by
  obtain ⟨session, st, rfl, hst, c, hc, rfl⟩ := h
  cases he with
  | nextDispatch hst' =>
      cases hst.symm.trans hst'
      exact (Mailbox.nextDispatch_spec hn.keyed _ n.clock).2 c hc

/-- What a loop has in its hands it had before, or it has just taken it. -/
theorem Effect.carried_back (he : Effect mode n e t) (hcrash : e ≠ .crash) {id : String}
    (h : t.Carried id) : n.Carried id ∨ n.Takes e id := by
  cases he.streams hcrash with
  | none heq =>
      rw [Carried, heq] at h
      exact Or.inl h
  | opened session assetId _ heq =>
      rw [Carried, heq] at h
      rcases h.of_insert with hnew | hold
      · cases hnew
      · exact Or.inl hold
  | moved session old new hold heq _ _ _ hnew =>
      rw [Carried, heq] at h
      rcases h.of_insert with hmem | hother
      · obtain ⟨c, hc, rfl⟩ := List.mem_map.mp hmem
        rcases hnew c hc with hkept | ⟨hevent, -, htaken⟩
        · exact Or.inl (Table.holds_of_lookup hold (List.mem_map_of_mem hkept))
        · exact Or.inr ⟨session, old, hevent, hold, c, htaken, rfl⟩
      · exact Or.inl hother
  | ended session old _ heq _ =>
      rw [Carried, heq] at h
      exact Or.inl h.of_erase

def Delivering (n : Node) (cmdId : String) : Prop :=
  Table.Holds n.streams fun st => st.delivering = some cmdId

theorem Effect.delivering_back (he : Effect mode n e t) (hcrash : e ≠ .crash) {id : String}
    (h : t.Delivering id) : n.Delivering id ∨ n.Carried id := by
  cases he.streams hcrash with
  | none heq =>
      rw [Delivering, heq] at h
      exact Or.inl h
  | opened session assetId _ heq =>
      rw [Delivering, heq] at h
      rcases h.of_insert with hnew | hold
      · cases hnew
      · exact Or.inl hold
  | moved session old new hold heq _ _ _ _ hdelivering =>
      rw [Delivering, heq] at h
      rcases h.of_insert with hnow | hother
      · exact Or.inr (Table.holds_of_lookup hold (hdelivering id hnow))
      · exact Or.inl hother
  | ended session old _ heq _ =>
      rw [Delivering, heq] at h
      exact Or.inl h.of_erase

/-! ## What a step writes -/

/-- What a step does to the tables: one transaction at most. -/
inductive StoreChange (n t : Node) (e : Event) : Prop
  | restamped (h : n.store.Restamps t.store)
  | submitted (d : Dispatch) (expiresAt : Int) (h : n.store.submitCommand d expiresAt = .ok t.store)
  | cancelRequested (cmdId : String) (h : n.store.cancelCommand cmdId = .ok t.store)
  | published (index : Nat) (reply : Reply) (hd : n.dispatcher = .handled index)
      (he : e = .markPublished reply) (hreply : reply ≠ .failed)
      (h : t.store = n.store.markPublished index)

theorem Effect.store (h : Effect mode n e t) : StoreChange n t e := by
  cases h with
  | submitCommand hstore =>
      rcases hstore with rfl | hstore
      · exact .restamped (.refl _)
      · exact .submitted _ _ hstore
  | cancelCommand _ hstore =>
      rcases hstore with rfl | hstore
      · exact .restamped (.refl _)
      · exact .cancelRequested _ hstore
  | transitionDispatching _ hstore => exact .restamped (restamps_of_settled hstore)
  | markPublished hd hreply => exact .published _ _ hd rfl hreply rfl
  | transitionDelivered _ hstore => exact .restamped (restamps_of_settled hstore)
  | completeCommand _ hstore => exact .restamped (restamps_of_settled hstore)
  | commandAck hstore => exact .restamped (restamps_of_settled hstore)
  | _ => exact .restamped (.refl _)

abbrev Runs (mode : Mode) (may : Node → Event → Prop) : Node → Node → Prop :=
  Reaches (Fires (fun n => n.step mode) may)

abbrev Always (_ : Node) (_ : Event) : Prop := True

theorem run_invariant {may : Node → Event → Prop} (Inv : Node → Prop)
    (hstep : ∀ n t e, Inv n → may n e → Effect mode n e t → Inv t) {n t : Node}
    (hn : Inv n) (hrun : Runs mode may n t) : Inv t := by
  refine invariant Inv ?_ hn hrun
  rintro s u hs ⟨e, hmay, he⟩
  exact hstep s u e hs hmay (step_effect he)

theorem run_of_events (mode : Mode) (may : Node → Event → Prop) (es : List Event) (p : Node → Prop)
    [DecidablePred p] (hmay : Permitted (fun n => n.step mode) may start es)
    (h : (play (fun n => n.step mode) start es).any p = true) :
    ∃ n, Runs mode may start n ∧ p n :=
  reaches_of_any _ es p hmay h

end Node

def sampleCommand : Dispatch :=
  ⟨"a0eebc99-9c0b-4ef8-bb6d-6bb9bd380a11", "node-1", "restart", [("unit", "nginx")], 60⟩

def sampleUuid : Uuid := [160, 238, 188, 153, 156, 11, 78, 248, 187, 109, 107, 185, 189, 56, 10, 17]

theorem parseUuid_sample : parseUuid sampleCommand.cmdId = some sampleUuid := by decide +kernel

end TomAgent.Connector
