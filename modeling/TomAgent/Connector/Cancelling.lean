import TomAgent.Connector.OutboxDelivery

/-!
# Cancelling a command

A cancel names its command by the text of the caller and its asset by what the caller
says, or not at all: the outbox keeps the id only.  The mailbox compares neither with
the command.  It cancels what it knows under that text, so a cancel that comes before
the command has reached the mailbox, or while a control loop is about to send it,
does not stop it.
-/

namespace TomAgent.Connector

open Platform Execution

namespace Node

/-! ## Where a cancel goes -/

def cancelRequest (n : Node) : Event → Option (String × String)
  | .cancel assetId cmdId => some (assetId, cmdId)
  | .cancelNow handler => n.cancelling handler
  | .dispatch =>
      match n.batch.head?.bind fun index => n.store.outbox[index]? with
      | some ⟨.cancelRequested, d, published⟩ =>
          (unmarshalPayload (marshalPayload ⟨.cancelRequested, d, published⟩)).map fun p =>
            (p.assetId, p.cmdId)
      | _ => none
  | _ => none

/-- The text names the command; the database compares UUIDs. -/
def Names (mode : Mode) (text cmdId : String) : Prop :=
  match mode with
  | .memory => text = cmdId
  | .stored => ∃ u, parseUuid text = some u ∧ parseUuid cmdId = some u

structure CancelReaches (mode : Mode) (n t : Node) (text : String) : Prop where
  own : ∀ assetId cmdId, (assetId, cmdId) ∈ n.sent → cmdId ∉ n.results → Names mode text cmdId →
    t.mailbox.cancels assetId = n.mailbox.cancels assetId ++ [cmdId]
  others : ∀ assetId, (assetId, text) ∈ n.box.log.submitted → ∀ other, other ≠ assetId →
    t.mailbox.cancels other = n.mailbox.cancels other

/-- The caller gives the id and the asset as they were submitted, and the mailbox
still has the command as dispatched. -/
structure CancelAimed (mode : Mode) (n : Node) (target text : String) : Prop where
  own : ∀ assetId cmdId, (assetId, cmdId) ∈ n.sent → cmdId ∉ n.results → Names mode text cmdId →
    target = assetId ∧ text = cmdId ∧ n.mailbox.Dispatched cmdId
  others : ∀ assetId, (assetId, text) ∈ n.box.log.submitted → n.mailbox.Dispatched text →
    target = assetId

variable {mode : Mode} {n t : Node} {e : Event}

theorem box_of_cancelRequest {target text : String} (hreq : n.cancelRequest e = some (target, text))
    (he : Effect mode n e t) : t.box = n.box.step (.cancel target text) := by
  cases he with
  | cancel =>
      cases hreq
      rfl
  | cancelNow hc =>
      have hargs : n.cancelling _ = some (target, text) := hreq
      cases hc.symm.trans hargs
      rfl
  | cancelled _ hbatch hentry =>
      simp only [cancelRequest, hbatch, List.head?_cons, Option.bind_some, hentry,
        unmarshalPayload_cancel, Option.map_some] at hreq
      cases hreq
      rfl
  | accepted _ hbatch hentry =>
      simp [cancelRequest, hbatch, hentry] at hreq
  | duplicate _ hbatch hentry =>
      simp [cancelRequest, hbatch, hentry] at hreq
  | rejected _ hbatch hentry =>
      simp [cancelRequest, hbatch, hentry] at hreq
  | _ => cases hreq

end Node

/-- A cancel request, whichever way it is made, goes to the agent that has the
command exactly if it gives the command's own asset and id and the command has not
expired in the mailbox. -/
theorem cancel_reaches_iff {mode : Mode} {n t : Node} {e : Node.Event} {target text : String}
    (hreq : n.cancelRequest e = some (target, text)) (hstep : n.step mode e = some t) :
    n.CancelReaches mode t text ↔ n.CancelAimed mode target text := by
  have hcancels : ∀ other, t.mailbox.cancels other =
      if n.mailbox.Dispatched text ∧ other = target then n.mailbox.cancels other ++ [text]
      else n.mailbox.cancels other := by
    intro other
    rw [Node.mailbox, Node.box_of_cancelRequest hreq (Node.step_effect hstep)]
    exact Mailbox.cancels_cancel n.box target text other
  constructor
  · intro h
    constructor
    · intro assetId cmdId hsent hresult hnames
      have hown := h.own assetId cmdId hsent hresult hnames
      rw [hcancels] at hown
      split at hown
      next haimed =>
        obtain ⟨hdispatched, rfl⟩ := haimed
        have htext : text = cmdId := by simpa using hown
        exact ⟨rfl, htext, htext ▸ hdispatched⟩
      next => simp at hown
    · intro assetId hmem hdispatched
      by_contra hne
      have hother := h.others assetId hmem target hne
      rw [hcancels, if_pos ⟨hdispatched, rfl⟩] at hother
      simp at hother
  · intro h
    constructor
    · intro assetId cmdId hsent hresult hnames
      obtain ⟨rfl, rfl, hdispatched⟩ := h.own assetId cmdId hsent hresult hnames
      rw [hcancels, if_pos ⟨hdispatched, rfl⟩]
    · intro assetId hmem other hother
      rw [hcancels, if_neg]
      rintro ⟨hdispatched, rfl⟩
      exact hother (h.others assetId hmem hdispatched)

theorem cancel_reaches_own_asset :
    ∃ n t, Node.Runs .stored Node.Always Node.start n ∧
      n.cancelRequest (.cancelNow 0) = some ("node-1", sampleCommand.cmdId) ∧
      n.step .stored (.cancelNow 0) = some t ∧
      n.sent = [("node-1", sampleCommand.cmdId)] ∧
      n.CancelReaches .stored t sampleCommand.cmdId := by
  obtain ⟨n, hrun, hreq, hsent, hlog, hdispatched, hstep⟩ := Node.run_of_events .stored Node.Always
    [.submitCommand sampleCommand 300000 .done, .fetch [0] 1 .done, .dispatch,
      .transitionDispatching .done, .markPublished .done, .connect 0 "node-1",
      .nextDispatch 0, .send 0 true, .cancelCommand 0 "node-1" sampleCommand.cmdId .done]
    (fun n => n.cancelRequest (.cancelNow 0) = some ("node-1", sampleCommand.cmdId) ∧
      n.sent = [("node-1", sampleCommand.cmdId)] ∧
      n.box.log.submitted = [("node-1", sampleCommand.cmdId)] ∧
      n.mailbox.Dispatched sampleCommand.cmdId ∧ (n.step .stored (.cancelNow 0)).isSome)
    (permitted_of_forall (fun _ _ _ => trivial) _) (by decide +kernel)
  obtain ⟨t, ht⟩ := Option.isSome_iff_exists.mp hstep
  refine ⟨n, t, hrun, hreq, ht, hsent, (cancel_reaches_iff hreq ht).mpr ⟨?_, ?_⟩⟩
  · intro assetId cmdId hmem _ _
    rw [hsent, List.mem_singleton] at hmem
    cases hmem
    exact ⟨rfl, rfl, hdispatched⟩
  · intro assetId hmem _
    rw [hlog, List.mem_singleton] at hmem
    cases hmem
    rfl

/-- The cancel request that `/admin/cancel` has left in the outbox is handled without
an asset: the agent gets nothing from it, and a cancel for no asset stays pending. -/
theorem outbox_cancel_misses_agent :
    ∃ n t, Node.Runs .stored Node.Always Node.start n ∧
      n.cancelRequest .dispatch = some ("", sampleCommand.cmdId) ∧
      n.step .stored .dispatch = some t ∧ ¬ n.CancelReaches .stored t sampleCommand.cmdId := by
  obtain ⟨n, hrun, hreq, hlog, hbefore, hafter⟩ := Node.run_of_events .stored Node.Always
    [.submitCommand sampleCommand 300000 .done, .fetch [0] 1 .done, .dispatch,
      .transitionDispatching .done, .markPublished .done, .connect 0 "node-1",
      .nextDispatch 0, .send 0 true, .cancelCommand 0 "node-1" sampleCommand.cmdId .done,
      .cancelNow 0, .fetch [1] 2 .done]
    (fun n => n.cancelRequest .dispatch = some ("", sampleCommand.cmdId) ∧
      ("node-1", sampleCommand.cmdId) ∈ n.box.log.submitted ∧ n.mailbox.cancels "" = [] ∧
      (n.step .stored .dispatch).any fun t => t.mailbox.cancels "" = [sampleCommand.cmdId])
    (permitted_of_forall (fun _ _ _ => trivial) _) (by decide +kernel)
  obtain ⟨t, ht, hcancels⟩ := (Option.any_eq_true _ _).mp hafter
  refine ⟨n, t, hrun, hreq, ht, fun hreaches => ?_⟩
  have hsame := hreaches.others "node-1" hlog "" (by decide)
  rw [of_decide_eq_true hcancels, hbefore] at hsame
  cases hsame

namespace Node

/-! ## Cancelled before it is sent -/

def InOrder (n : Node) : Event → Prop
  | .crash => False
  | .fetch ids now _ => ids = n.fetchOutbox now
  | _ => True

/-- The mailbox knows the command under this text and no control loop is about to
send it. -/
def Stoppable (n : Node) (text : String) : Prop := n.mailbox.Knows text ∧ ¬ n.Carried text

/-- `/admin/cancel` comes to the mailbox when the command can be stopped, or has been
sent. -/
def CancelsInTime (n : Node) : Event → Prop
  | .crash => False
  | .cancelNow handler => ∀ p ∈ n.cancelling handler,
      (∀ u ∈ parseUuid p.2, n.Sent u) ∨ n.Stoppable p.2
  | _ => True

instance (n : Node) (e : Event) : Decidable (n.InOrder e) := by
  unfold InOrder; split <;> infer_instance

instance (n : Node) (text : String) : Decidable (n.Stoppable text) := by
  unfold Stoppable; infer_instance

instance (n : Node) (e : Event) : Decidable (n.CancelsInTime e) := by
  unfold CancelsInTime; split <;> infer_instance

variable {mode : Mode} {n t : Node} {e : Event}

theorem CancelsInTime.ne_crash (h : n.CancelsInTime e) : e ≠ .crash := by
  rintro rfl
  exact h

/-! ### One step -/

theorem Effect.sent_back (he : Effect mode n e t) {p : String × String} (hp : p ∈ t.sent) :
    p ∈ n.sent ∨ n.Carried p.2 := by
  cases he with
  | send hst =>
      rcases List.mem_append.mp hp with hold | hnew
      · exact Or.inl hold
      · cases List.mem_singleton.mp hnew
        exact Or.inr (Table.holds_of_lookup hst List.mem_cons_self)
  | _ => exact Or.inl hp

theorem not_queued_cancel (r : MailboxRun) (assetId cmdId : String) :
    ¬ (r.step (.cancel assetId cmdId)).mailbox.Queued cmdId := by
  rintro ⟨c', hc', hstate⟩
  simp only [MailboxRun.step, Mailbox.cancel] at hc'
  cases hc : r.mailbox.byID.lookup cmdId with
  | none => simp [hc] at hc'
  | some c =>
      cases hold : c.state with
      | queued =>
          simp only [hc, hold, AList.lookup_insert] at hc'
          cases hc'
          cases hstate
      | dispatched =>
          simp only [hc, hold] at hc'
          cases hc'
          cases hold.symm.trans hstate
      | terminal =>
          simp only [hc, hold] at hc'
          cases hc'
          cases hold.symm.trans hstate
      | expired =>
          simp only [hc, hold] at hc'
          cases hc'
          cases hold.symm.trans hstate

def Stopped (n : Node) (u : Uuid) : Prop :=
  ∃ id, parseUuid id = some u ∧ n.mailbox.Knows id ∧ ¬ n.mailbox.Queued id ∧ ¬ n.Carried id

structure Obeys (n : Node) : Prop where
  traced : n.Traced
  hands : ∀ id, n.Carried id → n.mailbox.Knows id ∧ ¬ n.mailbox.Queued id
  withdrawn : ∀ u ∈ n.withdrawn, n.Stopped u ∧ ¬ n.Sent u

theorem Stopped.step {u : Uuid} (h : n.Stopped u) (he : Effect mode n e t) (hcrash : e ≠ .crash)
    (hn : n.box.Disciplined) : t.Stopped u := by
  obtain ⟨id, hu, hknows, hqueued, hcarried⟩ := h
  refine ⟨id, hu, he.knows hcrash hn hknows, ?_, ?_⟩
  · intro hq
    exact hqueued (he.queued_back hcrash hn hknows hq)
  · intro hc
    rcases he.carried_back hcrash hc with hold | htakes
    · exact hcarried hold
    · exact hqueued (htakes.queued he hn).1

/-- What is about to be sent is not the stopped command: the mailbox knows a command
under one id. -/
theorem Obeys.not_sent (h : n.Obeys) (he : Effect mode n e t) {u : Uuid} (hstopped : n.Stopped u)
    (hsent : ¬ n.Sent u) : ¬ t.Sent u := by
  rintro ⟨p, hp, hu⟩
  rcases he.sent_back hp with hold | hcarried
  · exact hsent ⟨p, hold, hu⟩
  · obtain ⟨id, hid, hknows, -, hfree⟩ := hstopped
    have hsame := h.traced.id_unique (h.hands p.2 hcarried).1 hknows hu hid
    exact hfree (hsame ▸ hcarried)

theorem Obeys.hands_step (h : n.Obeys) (he : Effect mode n e t) (hcrash : e ≠ .crash) {id : String}
    (hid : t.Carried id) : t.mailbox.Knows id ∧ ¬ t.mailbox.Queued id := by
  rcases he.carried_back hcrash hid with hold | htakes
  · obtain ⟨hknows, hqueued⟩ := h.hands id hold
    exact ⟨he.knows hcrash h.traced.box hknows,
      fun hq => hqueued (he.queued_back hcrash h.traced.box hknows hq)⟩
  · obtain ⟨hq, hnot⟩ := htakes.queued he h.traced.box
    exact ⟨he.knows hcrash h.traced.box hq.knows, hnot⟩

theorem Effect.withdrawn (he : Effect mode n e t) {u : Uuid} (hu : u ∈ t.withdrawn) :
    u ∈ n.withdrawn ∨ ∃ handler assetId cmdId, e = .cancelNow handler ∧
      n.cancelling handler = some (assetId, cmdId) ∧ parseUuid cmdId = some u ∧ ¬ n.Sent u ∧
      t.box = n.box.step (.cancel assetId cmdId) ∧ t.streams = n.streams ∧ t.sent = n.sent := by
  cases he with
  | cancelNow hc =>
      rcases List.mem_append.mp hu with hold | hnew
      · exact Or.inl hold
      · obtain ⟨hmem, hsent⟩ := List.mem_filter.mp hnew
        exact Or.inr ⟨_, _, _, rfl, hc, Option.mem_toList.mp hmem, of_decide_eq_true hsent, rfl,
          rfl, rfl⟩
  | _ => exact Or.inl hu

theorem Obeys.step (h : n.Obeys) (he : Effect .stored n e t) (hmay : n.CancelsInTime e) :
    t.Obeys := by
  have hcrash := hmay.ne_crash
  refine ⟨h.traced.step he, fun id => h.hands_step he hcrash, ?_⟩
  intro u hu
  rcases he.withdrawn hu with
    hold | ⟨handler, assetId, cmdId, rfl, hc, hid, hsent, hbox, hstreams, hsame⟩
  · obtain ⟨hstopped, hsent⟩ := h.withdrawn u hold
    exact ⟨hstopped.step he hcrash h.traced.box, h.not_sent he hstopped hsent⟩
  · rcases hmay _ hc with hall | ⟨hknows, hfree⟩
    · exact absurd (hall u hid) hsent
    · constructor
      · refine ⟨cmdId, hid, he.knows hcrash h.traced.box hknows, ?_, ?_⟩
        · rw [mailbox, hbox]
          exact not_queued_cancel n.box assetId cmdId
        · rw [Carried, hstreams]
          exact hfree
      · rw [Sent, hsame]
        exact hsent

theorem Obeys.start : Obeys start :=
  ⟨.start, fun _ h => absurd h Table.not_holds_empty, nofun⟩

end Node

/-- In store mode, as long as `/admin/cancel` comes to the mailbox when the command is
there and in no loop's hands, a command whose cancel was accepted before its envelope
was sent is never sent. -/
theorem withdrawn_never_sent {n : Node} (hrun : Node.Runs .stored Node.CancelsInTime Node.start n) :
    ∀ u ∈ n.withdrawn, ¬ n.Sent u := by
  have hobeys : n.Obeys := by
    refine Node.run_invariant Node.Obeys ?_ .start hrun
    intro s t e hs hmay he
    exact hs.step he hmay
  intro u hu
  exact (hobeys.withdrawn u hu).2

theorem withdrawn_never_sent_queued :
    ∃ n, Node.Runs .stored Node.CancelsInTime Node.start n ∧ n.withdrawn = [sampleUuid] ∧
      ¬ n.Sent sampleUuid := by
  obtain ⟨n, hrun, hwithdrawn⟩ := Node.run_of_events .stored Node.CancelsInTime
    [.submitCommand sampleCommand 300000 .done, .fetch [0] 1 .done, .dispatch,
      .transitionDispatching .done, .markPublished .done,
      .cancelCommand 0 "node-1" sampleCommand.cmdId .done, .cancelNow 0, .connect 0 "node-1",
      .nextDispatch 0]
    (fun n => n.withdrawn = [sampleUuid]) (permitted_of_decide (by decide +kernel))
    (by decide +kernel)
  refine ⟨n, hrun, hwithdrawn, withdrawn_never_sent hrun sampleUuid ?_⟩
  rw [hwithdrawn]
  exact List.mem_singleton_self _

/-- The cancel is accepted before the dispatcher has put the command into the mailbox;
the control loop is faster than the second outbox row. -/
theorem withdrawn_and_sent :
    ∃ n, Node.Runs .stored Node.InOrder Node.start n ∧ ∃ u ∈ n.withdrawn, n.Sent u := by
  obtain ⟨n, hrun, hwithdrawn, hsent⟩ := Node.run_of_events .stored Node.InOrder
    [.submitCommand sampleCommand 300000 .done,
      .cancelCommand 0 "node-1" sampleCommand.cmdId .done, .cancelNow 0, .connect 0 "node-1",
      .fetch [0, 1] 1 .done, .dispatch, .nextDispatch 0, .send 0 true]
    (fun n => n.withdrawn = [sampleUuid] ∧ n.Sent sampleUuid)
    (permitted_of_decide (by decide +kernel)) (by decide +kernel)
  refine ⟨n, hrun, sampleUuid, ?_, hsent⟩
  rw [hwithdrawn]
  exact List.mem_singleton_self _

end TomAgent.Connector
