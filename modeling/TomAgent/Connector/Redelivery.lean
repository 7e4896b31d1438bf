import TomAgent.Connector.Node
import TomAgent.Platform.EventLog

/-!
# Results that arrive again

An agent sends a result until it is acknowledged, so the receiver may see it any number
of times.  Neither the mailbox nor the store looks for a result that is already there:
the last one wins, and each one adds an event.
-/

namespace TomAgent.Connector

open Platform Execution

namespace Node

def mailboxEntry (n : Node) (cmdId : String) : Option (CommandState × Option Payload) :=
  (n.mailbox.byID.lookup cmdId).map fun c => (c.state, c.result)

def storedEntry (n : Node) (u : Uuid) : Option (String × Option Payload) :=
  (n.store.commands.lookup u).map fun row => (row.status, row.resultPayload)

structure SameCommand (n n' : Node) (cmdId : String) : Prop where
  mailbox : n'.mailboxEntry cmdId = n.mailboxEntry cmdId
  row : ∀ u, parseUuid cmdId = some u → n'.storedEntry u = n.storedEntry u
  events : ∀ u, parseUuid cmdId = some u → n'.store.eventsOf u = n.store.eventsOf u

/-- The mailbox does not know the command or already has this very result, and nothing is
written to the database: there is none, the transaction fails, the command is not in it or
the status does not fit its column. -/
def Redundant (n : Node) (mode : Mode) (cmdId : String) (payload : Payload) (reply : Reply) :
    Prop :=
  (∀ c, n.mailbox.byID.lookup cmdId = some c → c.state = .terminal ∧ c.result = some payload) ∧
  (mode = .memory ∨ reply = .failed ∨ (∀ u, parseUuid cmdId = some u → u ∉ n.store.commands) ∨
    varchar 20 (resultStatus payload) = none)

def completed (n : Node) (stream : Nat) (cmdId : String) (payload : Payload) : Node :=
  { n with
    box := n.box.step (.complete cmdId payload)
    receiving := Function.update n.receiving stream (some (cmdId, payload))
    results := n.results ++ [cmdId] }

/-- The receiver is through with a result. -/
def report (n : Node) (mode : Mode) (stream : Nat) (cmdId : String) (payload : Payload)
    (reply : Reply) : Node :=
  { n.completed stream cmdId payload with
    receiving := Function.update (n.completed stream cmdId payload).receiving stream none }.persist
      mode reply (n.store.completeCommand cmdId (resultStatus payload) (some payload))

section Report
variable (n : Node) (mode : Mode) (stream : Nat) (cmdId : String) (payload : Payload) (reply : Reply)

theorem step_complete {n : Node} {stream : Nat} (hfree : n.receiving stream = none) :
    n.step mode (.complete stream cmdId payload) = some (n.completed stream cmdId payload) := by
  simp only [step, reportStep, hfree]
  rfl

theorem step_completeCommand :
    (n.completed stream cmdId payload).step mode (.completeCommand stream reply) =
      some (n.report mode stream cmdId payload reply) := by
  have hr : (n.completed stream cmdId payload).receiving stream = some (cmdId, payload) :=
    Function.update_self ..
  simp only [step, reportStep, hr]
  rfl

theorem mailboxEntry_completed :
    (n.completed stream cmdId payload).mailboxEntry cmdId =
      (n.mailboxEntry cmdId).map fun _ => (.terminal, some payload) := by
  have hbox : (n.completed stream cmdId payload).mailbox = n.mailbox.complete cmdId payload := rfl
  rw [mailboxEntry, hbox, mailboxEntry, Mailbox.complete]
  cases hc : n.mailbox.byID.lookup cmdId with
  | none => simp [hc]
  | some c => simp

theorem mailboxEntry_report :
    (n.report mode stream cmdId payload reply).mailboxEntry cmdId =
      (n.mailboxEntry cmdId).map fun _ => (.terminal, some payload) := by
  rw [← mailboxEntry_completed n stream]
  cases mode with
  | memory => rfl
  | stored => rfl

/-- The mailbox stays as it is if there is nothing to replace or the same comes again. -/
theorem mailboxEntry_report_iff :
    (n.report mode stream cmdId payload reply).mailboxEntry cmdId = n.mailboxEntry cmdId ↔
      ∀ c, n.mailbox.byID.lookup cmdId = some c → c.state = .terminal ∧ c.result = some payload := by
  rw [mailboxEntry_report, mailboxEntry]
  cases hc : n.mailbox.byID.lookup cmdId with
  | none => simp
  | some c => simp [eq_comm]

theorem receiving_report : (n.report mode stream cmdId payload reply).receiving stream = none := by
  cases mode with
  | memory => exact Function.update_self ..
  | stored => exact Function.update_self ..

theorem store_report :
    (n.report .stored stream cmdId payload reply).store = (reply.settle
      (n.store.completeCommand cmdId (resultStatus payload) (some payload)) n.store).2 := rfl

theorem store_report_failed : (n.report .stored stream cmdId payload .failed).store = n.store := by
  rw [store_report]
  cases n.store.completeCommand cmdId (resultStatus payload) (some payload) with
  | error err => rfl
  | ok t => rfl

variable {n mode cmdId payload reply}

theorem store_report_error {err : StoreError}
    (h : n.store.completeCommand cmdId (resultStatus payload) (some payload) = .error err) :
    (n.report .stored stream cmdId payload reply).store = n.store := by
  rw [store_report, h]
  cases reply with
  | done => rfl
  | failed => rfl
  | unreported => rfl

theorem store_report_ok {t : Store}
    (h : n.store.completeCommand cmdId (resultStatus payload) (some payload) = .ok t)
    (hreply : reply ≠ .failed) : (n.report .stored stream cmdId payload reply).store = t := by
  rw [store_report, h]
  cases reply with
  | done => rfl
  | failed => exact absurd rfl hreply
  | unreported => rfl

theorem Redundant.store_eq (h : n.Redundant mode cmdId payload reply) :
    (n.report mode stream cmdId payload reply).store = n.store := by
  cases mode with
  | memory => rfl
  | stored =>
      rcases h.2 with hmode | hreply | hrefused
      · cases hmode
      · rw [hreply, store_report_failed]
      · obtain ⟨err, herr⟩ := Store.completeCommand_error_iff.mpr hrefused
        exact store_report_error stream herr

/-- A result that is written adds an event. -/
theorem events_ne_of_written (hreply : reply ≠ .failed)
    (hwritten : ¬ ((∀ u, parseUuid cmdId = some u → u ∉ n.store.commands) ∨
      varchar 20 (resultStatus payload) = none)) :
    ∃ u, parseUuid cmdId = some u ∧
      (n.report .stored stream cmdId payload reply).store.eventsOf u ≠ n.store.eventsOf u := by
  cases ht : n.store.completeCommand cmdId (resultStatus payload) (some payload) with
  | error err => exact absurd (Store.completeCommand_error_iff.mp ⟨err, ht⟩) hwritten
  | ok t =>
      obtain ⟨u, row, v, hu, -, -, rfl⟩ := Store.setStatus_ok ht
      refine ⟨u, hu, ?_⟩
      rw [store_report_ok stream ht hreply, Store.eventsOf_append rfl, if_pos rfl]
      intro hsame
      simpa using congrArg List.length hsame

theorem sameCommand_report_iff :
    n.SameCommand (n.report mode stream cmdId payload reply) cmdId ↔
      n.Redundant mode cmdId payload reply := by
  constructor
  · intro h
    refine ⟨(mailboxEntry_report_iff ..).mp h.mailbox, ?_⟩
    cases mode with
    | memory => exact Or.inl rfl
    | stored =>
        by_contra hwritten
        rw [not_or, not_or] at hwritten
        obtain ⟨u, hu, hevents⟩ := events_ne_of_written stream hwritten.2.1 hwritten.2.2
        exact hevents (h.events u hu)
  · intro h
    refine ⟨(mailboxEntry_report_iff ..).mpr h.1, fun u _ => ?_, fun u _ => ?_⟩
    · rw [storedEntry, h.store_eq, storedEntry]
    · rw [h.store_eq]

end Report

/-- In every state, a result that comes in on a free stream leaves mailbox, row and events
of its command as they are exactly if it is redundant. -/
theorem reportResult_same_iff (n : Node) (mode : Mode) (stream : Nat) (cmdId : String)
    (payload : Payload) (reply : Reply) (hfree : n.receiving stream = none) :
    ∃ n' n'', n.step mode (.complete stream cmdId payload) = some n' ∧
      n'.step mode (.completeCommand stream reply) = some n'' ∧
      (n.SameCommand n'' cmdId ↔ n.Redundant mode cmdId payload reply) :=
  ⟨_, _, step_complete mode cmdId payload hfree,
    step_completeCommand n mode stream cmdId payload reply, sameCommand_report_iff stream⟩

def resultEvents : List Event :=
  [.submitCommand sampleCommand 300000 .done, .fetch [0] 1 .done, .dispatch,
    .transitionDispatching .done, .markPublished .done, .connect 0 "node-1", .nextDispatch 0,
    .send 0 true, .transitionDelivered 0 .done,
    .complete 0 sampleCommand.cmdId (samplePayload "SUCCEEDED"), .completeCommand 0 .done]

/-- The result has been applied and comes again: nothing changes if the transaction fails, and
the log grows if it is committed. -/
theorem reportResult_same_iff_repeated :
    ∃ n, Runs .stored Always start n ∧ sampleCommand.cmdId ∈ n.results ∧
      (∃ n' n'', n.step .stored (.complete 0 sampleCommand.cmdId (samplePayload "SUCCEEDED")) =
          some n' ∧
        n'.step .stored (.completeCommand 0 .failed) = some n'' ∧
        n.SameCommand n'' sampleCommand.cmdId) ∧
      ∃ n' n'', n.step .stored (.complete 0 sampleCommand.cmdId (samplePayload "SUCCEEDED")) =
          some n' ∧
        n'.step .stored (.completeCommand 0 .done) = some n'' ∧
        ¬ n.SameCommand n'' sampleCommand.cmdId := by
  obtain ⟨n₀, hrun₀, hfree₀, hknown, hrow⟩ := run_of_events .stored Always (resultEvents.take 9)
    (fun n => n.receiving 0 = none ∧ (n.mailboxEntry sampleCommand.cmdId).isSome = true ∧
      sampleUuid ∈ (n.report .stored 0 sampleCommand.cmdId (samplePayload "SUCCEEDED")
        .done).store.commands)
    (permitted_of_forall (fun _ _ _ => trivial) _) (by decide +kernel)
  set n := n₀.report .stored 0 sampleCommand.cmdId (samplePayload "SUCCEEDED") .done with hn
  have hrun : Runs .stored Always start n :=
    (hrun₀.tail ⟨_, trivial, step_complete .stored _ _ hfree₀⟩).tail
      ⟨_, trivial, step_completeCommand n₀ .stored 0 _ _ .done⟩
  have hfree : n.receiving 0 = none := receiving_report ..
  have hentry : n.mailboxEntry sampleCommand.cmdId =
      some (.terminal, some (samplePayload "SUCCEEDED")) := by
    obtain ⟨entry, hentry⟩ := Option.isSome_iff_exists.mp hknown
    rw [hn, mailboxEntry_report, hentry]
    rfl
  have hsame : ∀ c, n.mailbox.byID.lookup sampleCommand.cmdId = some c →
      c.state = .terminal ∧ c.result = some (samplePayload "SUCCEEDED") := by
    intro c hc
    rw [mailboxEntry, hc, Option.map_some] at hentry
    exact Prod.mk.inj (Option.some.inj hentry)
  refine ⟨n, hrun, List.mem_append_right _ (List.mem_singleton_self _), ?_, ?_⟩
  · obtain ⟨n', n'', hcomplete, hcommand, hiff⟩ := reportResult_same_iff n .stored 0
      sampleCommand.cmdId (samplePayload "SUCCEEDED") .failed hfree
    exact ⟨n', n'', hcomplete, hcommand, hiff.mpr ⟨hsame, Or.inr (Or.inl rfl)⟩⟩
  · obtain ⟨n', n'', hcomplete, hcommand, hiff⟩ := reportResult_same_iff n .stored 0
      sampleCommand.cmdId (samplePayload "SUCCEEDED") .done hfree
    refine ⟨n', n'', hcomplete, hcommand, fun h => ?_⟩
    rcases (hiff.mp h).2 with hmode | hreply | hunknown | hlong
    · cases hmode
    · cases hreply
    · exact hunknown sampleUuid parseUuid_sample hrow
    · exact absurd hlong (by decide +kernel)

/-- The agent sends its result again, or another one: the log of the command grows, and the
other result replaces the first. -/
theorem redelivery_changes_command :
    ∃ n m n' m' n'', Runs .stored Always start n ∧ sampleCommand.cmdId ∈ n.results ∧
      n.step .stored (.complete 0 sampleCommand.cmdId (samplePayload "SUCCEEDED")) = some m ∧
      m.step .stored (.completeCommand 0 .done) = some n' ∧
      (n.store.eventsOf sampleUuid).length = 4 ∧ (n'.store.eventsOf sampleUuid).length = 5 ∧
      n.step .stored (.complete 0 sampleCommand.cmdId (samplePayload "FAILED")) = some m' ∧
      m'.step .stored (.completeCommand 0 .done) = some n'' ∧
      n.store.status sampleUuid = some "SUCCEEDED" ∧
      n''.store.status sampleUuid = some "FAILED" := by
  obtain ⟨n, hrun, hfree, hresult, hbefore, hafter, hstatus, hreplaced⟩ := run_of_events .stored
    Always resultEvents
    (fun n => n.receiving 0 = none ∧ sampleCommand.cmdId ∈ n.results ∧
      (n.store.eventsOf sampleUuid).length = 4 ∧
      ((n.report .stored 0 sampleCommand.cmdId (samplePayload "SUCCEEDED") .done).store.eventsOf
        sampleUuid).length = 5 ∧
      n.store.status sampleUuid = some "SUCCEEDED" ∧
      (n.report .stored 0 sampleCommand.cmdId (samplePayload "FAILED") .done).store.status
        sampleUuid = some "FAILED")
    (permitted_of_forall (fun _ _ _ => trivial) _) (by decide +kernel)
  exact ⟨n, _, _, _, _, hrun, hresult, step_complete .stored _ _ hfree,
    step_completeCommand n .stored 0 _ _ .done, hbefore, hafter, step_complete .stored _ _ hfree,
    step_completeCommand n .stored 0 _ _ .done, hstatus, hreplaced⟩

end Node

end TomAgent.Connector
