import TomAgent.Connector.OutboxDelivery

/-!
# When a command's status only moves forward

Three kinds of goroutines write `cmd.command.status`, each after something others can
see: the outbox dispatcher after it has put the command in the mailbox, a control loop
after it has sent the command, and the receivers of acknowledgements and results.
Every writer overwrites the status without looking at it, so the order of the writes
decides.  A DISPATCHING transition is ahead from the outbox entry until the dispatcher
has made it, a DELIVERED transition from the mailbox until a control loop has.  The
status moves forward as long as no command is taken from the mailbox before its
DISPATCHING transition, no outcome is stored while a transition of the command is
ahead, and no crash makes the dispatcher take up a command again.
-/

namespace TomAgent.Connector

open Platform Execution

/-- The final statuses: those the store's state machine lists, and every rejection. -/
def Terminal (status : String) : Prop :=
  status ∈ ["SUCCEEDED", "FAILED", "TIMEOUT_KILLED", "CANCELLED"] ∨
    "REJECTED".toList <+: status.toList

instance (status : String) : Decidable (Terminal status) := by
  unfold Terminal; infer_instance

def rank (status : String) : Option Nat :=
  if status = "QUEUED" then some 0
  else if status = "DISPATCHING" then some 1
  else if status = "DELIVERED" then some 2
  else if Terminal status then some 3
  else none

def Forward (before after : String) : Prop :=
  ∃ i j, rank before = some i ∧ rank after = some j ∧ i ≤ j

theorem rank_le_three {status : String} {i : Nat} (h : rank status = some i) : i ≤ 3 := by
  unfold rank at h
  split_ifs at h <;> cases h <;> decide

theorem rank_terminal {status : String} (h : Terminal status) : rank status = some 3 := by
  unfold rank
  split_ifs with hqueued hdispatching hdelivered
  · subst hqueued
    exact absurd h (by decide)
  · subst hdispatching
    exact absurd h (by decide)
  · subst hdelivered
    exact absurd h (by decide)
  · rfl

theorem Forward.refl {status : String} {i : Nat} (h : rank status = some i) :
    Forward status status := ⟨i, i, h, h, Nat.le_refl i⟩

theorem Forward.trans {a b c : String} (hab : Forward a b) (hbc : Forward b c) : Forward a c := by
  obtain ⟨i, j, hi, hj, hij⟩ := hab
  obtain ⟨j', k, hj', hk, hjk⟩ := hbc
  have heq : j = j' := Option.some.inj (hj.symm.trans hj')
  exact ⟨i, k, hi, hk, by omega⟩

theorem Forward.terminal {a b : String} (h : Forward a b) (ha : Terminal a) : Terminal b := by
  obtain ⟨i, j, hi, hj, hij⟩ := h
  have hthree : i = 3 := Option.some.inj (hi.symm.trans (rank_terminal ha))
  unfold rank at hj
  split_ifs at hj with hq hdp hdl hterm
  · cases hj; omega
  · cases hj; omega
  · cases hj; omega
  · exact hterm

namespace Node

def Handles (n : Node) (cmdId : String) : Prop := n.Carried cmdId ∨ n.Delivering cmdId

/-- An open request for a command that the mailbox does not know. -/
def Untried (n : Node) (i : Nat) (d : Dispatch) : Prop :=
  n.store.Requested i d ∧ n.store.Unpublished i ∧ ¬ n.mailbox.Knows d.cmdId

/-- The command's DISPATCHING transition is still to come. -/
def DispatchAhead (n : Node) (u : Uuid) : Prop :=
  (∃ index cmdId, n.dispatcher = .submitted index cmdId ∧ parseUuid cmdId = some u) ∨
    ∃ i d, n.Untried i d ∧ parseUuid d.cmdId = some u

/-- The command's DELIVERED transition may still come. -/
def DeliveryAhead (n : Node) (u : Uuid) : Prop :=
  ∃ cmdId, parseUuid cmdId = some u ∧ (n.mailbox.Queued cmdId ∨ n.Handles cmdId)

/-- An outcome may be stored when no other transition of the command is ahead and
the status it sets is a terminal one. -/
def OutcomeInOrder (n : Node) (cmdId status : String) : Prop :=
  (∀ u, parseUuid cmdId = some u → ¬ n.DispatchAhead u ∧ ¬ n.DeliveryAhead u) ∧
    ∀ v, varchar 20 status = some v → Terminal v

/-- The order of the writers that keeps the status going forward. -/
def WritesInOrder (n : Node) (e : Event) : Prop :=
  match e with
  | .nextDispatch _ => ∀ index cmdId, n.dispatcher = .submitted index cmdId → ¬ n.Takes e cmdId
  | .commandAck cmdId rejectReason _ => n.OutcomeInOrder cmdId (rejectStatus rejectReason)
  | .completeCommand stream _ => ∀ cmdId payload, n.receiving stream = some (cmdId, payload) →
      n.OutcomeInOrder cmdId (resultStatus payload)
  -- no command is in the mailbox with its row still open
  | .crash => ∀ i d, n.store.Requested i d → n.store.Unpublished i → ¬ n.mailbox.Knows d.cmdId
  | _ => True

variable {mode : Mode} {n t : Node} {e : Event}

/-! ## What a step does to the statuses -/

inductive Writer (n : Node) : Event → String → String → Prop
  | dispatcher {reply index cmdId} (hd : n.dispatcher = .submitted index cmdId) :
      Writer n (.transitionDispatching reply) cmdId "DISPATCHING"
  | control {session reply cmdId} (hd : n.Delivering cmdId) :
      Writer n (.transitionDelivered session reply) cmdId "DELIVERED"
  | ack {cmdId rejectReason reply} :
      Writer n (.commandAck cmdId rejectReason reply) cmdId (rejectStatus rejectReason)
  | result {stream cmdId payload reply} (hr : n.receiving stream = some (cmdId, payload)) :
      Writer n (.completeCommand stream reply) cmdId (resultStatus payload)

inductive StatusChange (n t : Node) (e : Event) : Prop
  | same (h : ∀ u, t.store.status u = n.store.status u)
  | created (u : Uuid) (hfree : n.store.status u = none) (hnew : t.store.status u = some "QUEUED")
      (hother : ∀ u' ≠ u, t.store.status u' = n.store.status u')
  | written (u : Uuid) (cmdId status old v : String) (hwriter : Writer n e cmdId status)
      (hparse : parseUuid cmdId = some u) (hv : varchar 20 status = some v)
      (hold : n.store.status u = some old) (hnew : t.store.status u = some v)
      (hother : ∀ u' ≠ u, t.store.status u' = n.store.status u')

theorem Writer.change {cmdId eventType status actor : String}
    {result : Option Payload → Option Payload} (hwriter : Writer n e cmdId status)
    (h : t.store = n.store ∨
      n.store.setStatus cmdId eventType status actor result = .ok t.store) :
    StatusChange n t e := by
  rcases h with hsame | hok
  · exact .same fun u => by rw [hsame]
  · obtain ⟨u, old, v, hparse, hold, hv, hnew, hother, -⟩ := Store.status_setStatus hok
    exact .written u cmdId status old v hwriter hparse hv hold hnew hother

theorem Effect.status (h : Effect mode n e t) : StatusChange n t e := by
  cases h with
  | submitCommand hstore =>
      rcases hstore with rfl | hok
      · exact .same fun _ => rfl
      · obtain ⟨u, -, hfree, hnew, hother, -⟩ := Store.status_submitCommand hok
        exact .created u hfree hnew hother
  | cancelCommand _ hstore =>
      rcases hstore with rfl | hok
      · exact .same fun _ => rfl
      · refine .same fun u => ?_
        rw [Store.status, (Store.cancelCommand_adds hok).2]
        rfl
  | transitionDispatching hd hstore => exact (Writer.dispatcher hd).change hstore
  | transitionDelivered hst hstore =>
      exact (Writer.control (Table.holds_of_lookup hst rfl)).change hstore
  | completeCommand hr hstore => exact (Writer.result hr).change hstore
  | commandAck hstore => exact Writer.ack.change hstore
  | _ => exact .same fun _ => rfl

/-! ## What is ahead after a step was ahead before -/

/-- What the dispatcher puts in the mailbox it has found in the outbox. -/
theorem Effect.submitted_back (h : Effect .stored n e t) (hn : n.Working) {index : Nat}
    {cmdId : String} (hd : t.dispatcher = .submitted index cmdId) :
    n.dispatcher = .submitted index cmdId ∨
      e = .dispatch ∧ ∃ d, n.Untried index d ∧ d.cmdId = cmdId := by
  cases h with
  | accepted _ hbatch hentry hsubmit =>
      cases hd
      have hopen := hn.batch index (by rw [hbatch]; exact List.mem_cons_self)
      have hnew : ¬ n.mailbox.Knows _ :=
        AList.lookup_eq_none.mp (Mailbox.submit_accepts hsubmit).unknown
      exact Or.inr ⟨rfl, _, ⟨⟨_, hentry⟩, hopen, hnew⟩, rfl⟩
  | duplicate => cases hd
  | rejected => cases hd
  | cancelled => cases hd
  | transitionDispatching _ _ hnext =>
      rcases hnext with rfl | rfl
      · cases hd
      · cases hd
  | markPublished => cases hd
  | markFails => cases hd
  | markOutboxError => cases hd
  | crash => cases hd
  | _ => exact Or.inl hd

theorem Effect.knows_back (h : Effect .stored n e t) (hbox : n.box.Disciplined) (hn : n.Working)
    {id : String} (hid : t.mailbox.Knows id) :
    n.mailbox.Knows id ∨ ∃ i d, n.Untried i d ∧ d.cmdId = id := by
  have hcall : ∀ op, (∀ d now, op ≠ .submit d now) → (n.box.step op).mailbox.Knows id →
      n.mailbox.Knows id := fun op hop => ((hbox.step_ages op hop).1.knows id).mp
  have hback : ∀ index, t.dispatcher = .submitted index id → n.dispatcher = .submitted index id ∨
      e = .dispatch ∧ ∃ d, n.Untried index d ∧ d.cmdId = id := fun _ => h.submitted_back hn
  cases h with
  | submit hmode => cases hmode
  | cancel hmode => cases hmode
  | cancelNow => exact Or.inl (hcall (.cancel _ _) nofun hid)
  | cancelled => exact Or.inl (hcall (.cancel _ _) nofun hid)
  | nextDispatch => exact Or.inl (hcall (.nextDispatch _ _) nofun hid)
  | complete => exact Or.inl (hcall (.complete _ _) nofun hid)
  | accepted hidle _ _ hsubmit =>
      simp only [mailbox, MailboxRun.step, hsubmit] at hid
      rcases ((Mailbox.submit_accepts hsubmit).knows id).mp hid with rfl | hold
      · rcases hback _ rfl with hbusy | ⟨-, huntried⟩
        · cases hidle.symm.trans hbusy
        · exact Or.inr ⟨_, huntried⟩
      · exact Or.inl hold
  | crash => cases hid
  | _ => exact Or.inl hid

theorem StoreChange.open_back (h : StoreChange n t e) {i : Nat} {d : Dispatch}
    (hd : t.store.Requested i d) (hopen : t.store.Unpublished i) :
    n.store.Requested i d ∧ n.store.Unpublished i ∨
      ∃ u, parseUuid d.cmdId = some u ∧ n.store.status u = none := by
  cases h with
  | restamped h => exact Or.inl ⟨h.requested.mp hd, h.unpublished.mp hopen⟩
  | submitted d' expiresAt h =>
      have hadds := (Store.submitCommand_adds h).1
      rcases hadds.requested.mp hd with hold | ⟨-, -, rfl⟩
      · exact Or.inl ⟨hold, hadds.unpublished_back hold hopen⟩
      · obtain ⟨u, hu, hfree, -⟩ := Store.status_submitCommand h
        exact Or.inr ⟨u, hu, hfree⟩
  | cancelRequested cmdId h =>
      have hadds := (Store.cancelCommand_adds h).1
      rcases hadds.requested.mp hd with hold | ⟨-, htype, -⟩
      · exact Or.inl ⟨hold, hadds.unpublished_back hold hopen⟩
      · cases htype
  | published index reply _ _ _ h =>
      rw [h] at hd hopen
      exact Or.inl ⟨Store.requested_markPublished.mp hd, (Store.unpublished_markPublished.mp hopen).1⟩

theorem Effect.dispatchAhead_back (h : Effect .stored n e t) (hbox : n.box.Disciplined)
    (hn : n.Working) (hmay : n.WritesInOrder e) {u : Uuid} (hu : t.DispatchAhead u) :
    n.DispatchAhead u ∨ n.store.status u = none := by
  rcases hu with ⟨index, cmdId, hd, hu⟩ | ⟨i, d, ⟨hd, hopen, hnew⟩, hu⟩
  · rcases h.submitted_back hn hd with hold | ⟨-, d, huntried, rfl⟩
    · exact Or.inl (Or.inl ⟨index, cmdId, hold, hu⟩)
    · exact Or.inl (Or.inr ⟨index, d, huntried, hu⟩)
  · rcases h.store.open_back hd hopen with ⟨hd', hopen'⟩ | ⟨u', hu', hfree⟩
    · have hnew' : ¬ n.mailbox.Knows d.cmdId := by
        by_cases hcrash : e = .crash
        · subst hcrash
          exact hmay i d hd' hopen'
        · exact fun hknows => hnew (h.knows hcrash hbox hknows)
      exact Or.inl (Or.inr ⟨i, d, ⟨hd', hopen', hnew'⟩, hu⟩)
    · cases hu.symm.trans hu'
      exact Or.inr hfree

theorem Effect.handles_back (h : Effect mode n e t) (hcrash : e ≠ .crash) {id : String}
    (hid : t.Handles id) : n.Handles id ∨ n.Takes e id := by
  rcases hid with hcarried | hdelivering
  · exact (h.carried_back hcrash hcarried).imp_left Or.inl
  · exact Or.inl (h.delivering_back hcrash hdelivering).symm

theorem crash_idle {id : String} : ¬ n.crash.Handles id ∧ ¬ n.crash.mailbox.Queued id := by
  constructor
  · rintro (hcarried | hdelivering)
    · exact Table.not_holds_empty hcarried
    · exact Table.not_holds_empty hdelivering
  · rintro ⟨c, hc, -⟩
    cases hc

/-- A command comes into the mailbox from the outbox, and to a control loop from there. -/
theorem Effect.deliveryAhead_back (h : Effect .stored n e t) (hbox : n.box.Disciplined)
    (hn : n.Working) {u : Uuid} (hu : t.DeliveryAhead u) :
    n.DeliveryAhead u ∨ n.DispatchAhead u := by
  obtain ⟨id, hid, hahead⟩ := hu
  by_cases hcrash : e = .crash
  · subst hcrash
    cases h
    rcases hahead with hq | hh
    · exact absurd hq crash_idle.2
    · exact absurd hh crash_idle.1
  · rcases hahead with hq | hh
    · rcases h.knows_back hbox hn hq.knows with hknown | ⟨i, d, huntried, rfl⟩
      · exact Or.inl ⟨id, hid, Or.inl (h.queued_back hcrash hbox hknown hq)⟩
      · exact Or.inr (Or.inr ⟨i, d, huntried, hid⟩)
    · rcases h.handles_back hcrash hh with hold | htakes
      · exact Or.inl ⟨id, hid, Or.inr hold⟩
      · exact Or.inl ⟨id, hid, Or.inl (htakes.queued h hbox).1⟩

/-! ## The invariant -/

structure OrderInv (n : Node) : Prop where
  ranked : ∀ u status, n.store.status u = some status → ∃ i, rank status = some i
  dispatcher : ∀ index cmdId, n.dispatcher = .submitted index cmdId → ¬ n.Handles cmdId
  handles : ∀ cmdId, n.Handles cmdId → n.mailbox.Knows cmdId
  dispatched : ∀ u status i, n.store.status u = some status → rank status = some i → 2 ≤ i →
    ¬ n.DispatchAhead u
  delivered : ∀ u status, n.store.status u = some status → rank status = some 3 →
    ¬ n.DeliveryAhead u

theorem OrderInv.start : OrderInv start where
  ranked := by
    intro u status hu
    cases hu
  dispatcher := by
    intro index cmdId hd
    cases hd
  handles := by
    rintro cmdId (hcarried | hdelivering)
    · exact absurd hcarried Table.not_holds_empty
    · exact absurd hdelivering Table.not_holds_empty
  dispatched := by
    intro u status i hu
    cases hu
  delivered := by
    intro u status hu
    cases hu

/-- A command that a control loop has in hand is past its DISPATCHING transition. -/
theorem OrderInv.not_dispatchAhead (h : n.OrderInv) (htraced : n.Traced) (hworking : n.Working)
    {cmdId : String} {u : Uuid} (hid : n.Handles cmdId) (hu : parseUuid cmdId = some u) :
    ¬ n.DispatchAhead u := by
  have hknown := h.handles cmdId hid
  rintro (⟨index, id, hd, hu'⟩ | ⟨i, d, ⟨hd, -, hnew⟩, hu'⟩)
  · obtain ⟨-, -, -, hknown'⟩ := hworking.submitted index id hd
    exact h.dispatcher index id hd (htraced.id_unique hknown hknown' hu hu' ▸ hid)
  · obtain ⟨j, d', hd', rfl, -⟩ := htraced.requested_of_knows hknown
    have hij := htraced.store.once i j d d' hd hd' (hu'.trans hu.symm)
    subst hij
    exact hnew (hd.unique hd' ▸ hknown)

/-- The status `v` is not before `old`, and not past a transition that is still ahead. -/
def Follows (n : Node) (u : Uuid) (old v : String) : Prop :=
  ∃ i j, rank old = some i ∧ rank v = some j ∧ i ≤ j ∧ (2 ≤ j → ¬ n.DispatchAhead u) ∧
    (j = 3 → ¬ n.DeliveryAhead u)

theorem Writer.follows {cmdId status old v : String} {u : Uuid} (hw : Writer n e cmdId status)
    (h : n.OrderInv) (htraced : n.Traced) (hworking : n.Working) (hmay : n.WritesInOrder e)
    (hu : parseUuid cmdId = some u) (hv : varchar 20 status = some v)
    (hold : n.store.status u = some old) : n.Follows u old v := by
  obtain ⟨i, hi⟩ := h.ranked u old hold
  have houtcome : n.OutcomeInOrder cmdId status → n.Follows u old v := by
    intro hmay
    obtain ⟨hdispatch, hdelivery⟩ := hmay.1 u hu
    exact ⟨i, 3, hi, rank_terminal (hmay.2 v hv), rank_le_three hi, fun _ => hdispatch,
      fun _ => hdelivery⟩
  cases hw with
  | dispatcher hd =>
      have hvalue : v = "DISPATCHING" := Option.some.inj (hv.symm.trans (by decide))
      subst hvalue
      have hearly : i ≤ 1 := by
        by_contra hlate
        exact h.dispatched u old i hold hi (by omega) (Or.inl ⟨_, cmdId, hd, hu⟩)
      exact ⟨i, 1, hi, rfl, hearly, by omega, by omega⟩
  | control hd =>
      have hvalue : v = "DELIVERED" := Option.some.inj (hv.symm.trans (by decide))
      subst hvalue
      have hearly : i ≤ 2 := by
        by_contra hlate
        have hthree : i = 3 := by
          have := rank_le_three hi
          omega
        exact h.delivered u old hold (hthree ▸ hi) ⟨cmdId, hu, Or.inr (Or.inr hd)⟩
      exact ⟨i, 2, hi, rfl, hearly, fun _ => h.not_dispatchAhead htraced hworking (Or.inr hd) hu,
        by omega⟩
  | ack => exact houtcome hmay
  | result hr => exact houtcome (hmay _ _ hr)

/-! ## One step -/

def Advances (n t : Node) : Prop :=
  ∀ u a, n.store.status u = some a → ∃ b, t.store.status u = some b ∧ Forward a b

theorem Advances.trans {t' : Node} (h : n.Advances t) (h' : t.Advances t') : n.Advances t' := by
  intro u a ha
  obtain ⟨b, hb, hab⟩ := h u a ha
  obtain ⟨c, hc, hbc⟩ := h' u b hb
  exact ⟨c, hc, hab.trans hbc⟩

theorem OrderInv.forward_refl (h : n.OrderInv) {u : Uuid} {a : String}
    (ha : n.store.status u = some a) : Forward a a :=
  Forward.refl (h.ranked u a ha).choose_spec

/-- A status after the step, and where it comes from: it is the one before, the first one
of a new command, or one whose place the invariant allows. -/
theorem OrderInv.status_back (h : n.OrderInv) (htraced : n.Traced) (hworking : n.Working)
    (hmay : n.WritesInOrder e) (he : Effect .stored n e t) {u : Uuid} {v : String}
    (hv : t.store.status u = some v) :
    n.store.status u = some v ∨ n.store.status u = none ∧ rank v = some 0 ∨
      ∃ old, n.store.status u = some old ∧ n.Follows u old v := by
  cases he.status with
  | same hsame => exact Or.inl ((hsame u).symm.trans hv)
  | created u' hfree hnew hother =>
      by_cases heq : u = u'
      · subst heq
        cases hnew.symm.trans hv
        exact Or.inr (Or.inl ⟨hfree, rfl⟩)
      · exact Or.inl ((hother u heq).symm.trans hv)
  | written u' cmdId status old v' hwriter hparse hv' hold hnew hother =>
      by_cases heq : u = u'
      · subst heq
        cases hnew.symm.trans hv
        have hfollows := hwriter.follows h htraced hworking hmay hparse hv' hold
        exact Or.inr (Or.inr ⟨old, hold, hfollows⟩)
      · exact Or.inl ((hother u heq).symm.trans hv)

theorem StatusChange.row (h : StatusChange n t e) {u : Uuid} {a : String}
    (ha : n.store.status u = some a) : ∃ b, t.store.status u = some b := by
  cases h with
  | same hsame => exact ⟨a, (hsame u).trans ha⟩
  | created u' hfree _ hother =>
      refine ⟨a, (hother u ?_).trans ha⟩
      rintro rfl
      cases hfree.symm.trans ha
  | written u' _ _ _ v _ _ _ _ hnew hother =>
      by_cases heq : u = u'
      · exact ⟨v, heq ▸ hnew⟩
      · exact ⟨a, (hother u heq).trans ha⟩

theorem OrderInv.advances (h : n.OrderInv) (htraced : n.Traced) (hworking : n.Working)
    (hmay : n.WritesInOrder e) (he : Effect .stored n e t) : n.Advances t := by
  intro u a ha
  obtain ⟨b, hb⟩ := he.status.row ha
  refine ⟨b, hb, ?_⟩
  rcases h.status_back htraced hworking hmay he hb with hsame | ⟨hfree, -⟩ |
    ⟨old, hold, i, j, hi, hj, hle, -⟩
  · cases hsame.symm.trans ha
    exact h.forward_refl ha
  · cases hfree.symm.trans ha
  · cases hold.symm.trans ha
    exact ⟨i, j, hi, hj, hle⟩

theorem OrderInv.step (h : n.OrderInv) (htraced : n.Traced) (hworking : n.Working)
    (hmay : n.WritesInOrder e) (he : Effect .stored n e t) : t.OrderInv where
  ranked u status hu := by
    rcases h.status_back htraced hworking hmay he hu with hsame | ⟨-, hzero⟩ |
      ⟨old, -, i, j, -, hj, -⟩
    · exact h.ranked u status hsame
    · exact ⟨0, hzero⟩
    · exact ⟨j, hj⟩
  dispatcher index cmdId hd hid := by
    have hcrash : e ≠ .crash := by
      rintro rfl
      cases he
      cases hd
    rcases he.submitted_back hworking hd with hold | ⟨rfl, d, huntried, rfl⟩
    · rcases he.handles_back hcrash hid with hid' | htakes
      · exact h.dispatcher index cmdId hold hid'
      · obtain ⟨session, st, rfl, -⟩ := id htakes
        exact hmay index cmdId hold htakes
    · rcases he.handles_back hcrash hid with hid' | ⟨session, st, hevent, -⟩
      · exact huntried.2.2 (h.handles _ hid')
      · cases hevent
  handles cmdId hid := by
    by_cases hcrash : e = .crash
    · subst hcrash
      cases he
      exact absurd hid crash_idle.1
    · rcases he.handles_back hcrash hid with hid' | htakes
      · exact he.knows hcrash htraced.box (h.handles cmdId hid')
      · exact he.knows hcrash htraced.box (htakes.queued he htraced.box).1.knows
  dispatched u status i hu hi hle hahead := by
    rcases h.status_back htraced hworking hmay he hu with hsame | ⟨-, hzero⟩ |
      ⟨old, hold, -, j, -, hj, -, hdispatch, -⟩
    · rcases he.dispatchAhead_back htraced.box hworking hmay hahead with hahead' | hfree
      · exact h.dispatched u status i hsame hi hle hahead'
      · cases hfree.symm.trans hsame
    · cases hzero.symm.trans hi
      omega
    · cases hj.symm.trans hi
      rcases he.dispatchAhead_back htraced.box hworking hmay hahead with hahead' | hfree
      · exact hdispatch hle hahead'
      · cases hfree.symm.trans hold
  delivered u status hu hi hahead := by
    rcases h.status_back htraced hworking hmay he hu with hsame | ⟨-, hzero⟩ |
      ⟨old, -, -, j, -, hj, -, hdispatch, hdelivery⟩
    · rcases he.deliveryAhead_back htraced.box hworking hahead with hahead' | hahead'
      · exact h.delivered u status hsame hi hahead'
      · exact h.dispatched u status 3 hsame hi (by decide) hahead'
    · cases hzero.symm.trans hi
    · cases hj.symm.trans hi
      rcases he.deliveryAhead_back htraced.box hworking hahead with hahead' | hahead'
      · exact hdelivery rfl hahead'
      · exact hdispatch (by decide) hahead'

/-! ## Runs -/

structure Ordered (n : Node) : Prop where
  traced : n.Traced
  working : n.Working
  order : n.OrderInv

theorem Ordered.step (h : n.Ordered) (hmay : n.WritesInOrder e) (he : Effect .stored n e t) :
    t.Ordered :=
  ⟨h.traced.step he, h.working.step h.traced.box he, h.order.step h.traced h.working hmay he⟩

theorem Ordered.run (h : n.Ordered) (hrun : Runs .stored WritesInOrder n t) :
    t.Ordered ∧ n.Advances t := by
  have hself : n.Advances n := fun u a ha => ⟨a, ha, h.order.forward_refl ha⟩
  refine run_invariant (fun t => t.Ordered ∧ n.Advances t) ?_ ⟨h, hself⟩ hrun
  rintro m t e ⟨hm, hadv⟩ hmay he
  exact ⟨hm.step hmay he, hadv.trans (hm.order.advances hm.traced hm.working hmay he)⟩

theorem Ordered.start : Ordered start := ⟨.start, .start, .start⟩

/-- In every run whose writers keep the order, every status only moves forward, and
a terminal one stays terminal. -/
theorem status_moves_forward (hn : Runs .stored WritesInOrder start n)
    (ht : Runs .stored WritesInOrder n t) :
    ∀ u a, n.store.status u = some a →
      ∃ b, t.store.status u = some b ∧ Forward a b ∧ (Terminal a → Terminal b) := by
  intro u a ha
  obtain ⟨b, hb, hab⟩ := ((Ordered.start.run hn).1.run ht).2 u a ha
  exact ⟨b, hb, hab, hab.terminal⟩

def Quiet (n : Node) : Prop :=
  n.dispatcher = .idle ∧ (∀ e ∈ n.store.outbox, e.published = true) ∧
    (∀ entry ∈ n.mailbox.byID.entries, entry.2.state ≠ .queued) ∧
    ∀ entry ∈ n.streams.entries, entry.2.cmds.isEmpty = true ∧ entry.2.delivering = none

instance (n : Node) : Decidable n.Quiet := by
  unfold Quiet; infer_instance

theorem Quiet.published (h : n.Quiet) {i : Nat} : ¬ n.store.Unpublished i := by
  rintro ⟨e, he, hopen⟩
  rw [h.2.1 e (List.mem_of_getElem? he)] at hopen
  cases hopen

theorem Quiet.not_ahead (h : n.Quiet) {u : Uuid} : ¬ n.DispatchAhead u ∧ ¬ n.DeliveryAhead u := by
  constructor
  · rintro (⟨index, cmdId, hd, -⟩ | ⟨i, d, ⟨-, hopen, -⟩, -⟩)
    · cases h.1.symm.trans hd
    · exact h.published hopen
  · rintro ⟨cmdId, -, ⟨c, hc, hqueued⟩ | ⟨session, st, hst, hmem⟩ | ⟨session, st, hst, hid⟩⟩
    · exact h.2.2.1 ⟨cmdId, c⟩ (AList.mem_lookup_iff.mp hc) hqueued
    · obtain ⟨hempty, -⟩ := h.2.2.2 ⟨session, st⟩ (AList.mem_lookup_iff.mp hst)
      rw [List.isEmpty_iff.mp hempty] at hmem
      cases hmem
    · obtain ⟨-, hnone⟩ := h.2.2.2 ⟨session, st⟩ (AList.mem_lookup_iff.mp hst)
      cases hnone.symm.trans hid

def calm (n : Node) : Event → Bool
  | .nextDispatch _ => n.dispatcher = .idle
  | .commandAck .. => false
  | .completeCommand stream _ => n.Quiet ∧
      (n.receiving stream).all fun p => (varchar 20 (resultStatus p.2)).all (Terminal ·)
  | .crash => n.Quiet
  | _ => true

theorem writesInOrder_of_calm (h : n.calm e = true) : n.WritesInOrder e := by
  cases e with
  | nextDispatch session =>
      intro index cmdId hd
      cases (of_decide_eq_true h).symm.trans hd
  | commandAck => cases h
  | completeCommand stream reply =>
      obtain ⟨hquiet, hterminal⟩ := of_decide_eq_true h
      intro cmdId payload hr
      rw [hr, Option.all_some] at hterminal
      refine ⟨fun _ _ => hquiet.not_ahead, fun v hv => ?_⟩
      rw [hv, Option.all_some] at hterminal
      exact of_decide_eq_true hterminal
  | crash =>
      have hquiet : n.Quiet := of_decide_eq_true h
      exact fun i d _ hopen => absurd hopen hquiet.published
  | _ => trivial

/-- The way of a command from the outbox to its result, with a crash while the agent is at
work. -/
def deliveryEvents : List Event :=
  [.fetch [0] 1 .done, .dispatch, .transitionDispatching .done, .markPublished .done,
    .connect 0 "node-1", .nextDispatch 0, .send 0 true, .transitionDelivered 0 .done, .crash,
    .complete 0 sampleCommand.cmdId (samplePayload "SUCCEEDED"), .completeCommand 0 .done]

theorem status_moves_forward_to_result :
    ∃ n t, Runs .stored WritesInOrder start n ∧ Runs .stored WritesInOrder n t ∧
      n.store.status sampleUuid = some "QUEUED" ∧
      t.store.status sampleUuid = some "SUCCEEDED" ∧ Forward "QUEUED" "SUCCEEDED" := by
  obtain ⟨n, hn, hqueued, hpermits, hplay⟩ := run_of_events .stored WritesInOrder
    [.submitCommand sampleCommand 300000 .done]
    (fun n => n.store.status sampleUuid = some "QUEUED" ∧
      permits (fun n => n.step .stored) calm n deliveryEvents = true ∧
      (play (fun n => n.step .stored) n deliveryEvents).any (fun t =>
        decide (t.store.status sampleUuid = some "SUCCEEDED")) = true)
    ⟨trivial, fun _ _ => trivial⟩ (by decide +kernel)
  obtain ⟨t, ht, hstatus⟩ := reaches_of_any (fun n : Node => n.step .stored) deliveryEvents
    (fun t => t.store.status sampleUuid = some "SUCCEEDED")
    (permitted_of_permits (fun _ _ => writesInOrder_of_calm) hpermits) hplay
  obtain ⟨b, hb, hforward, -⟩ := status_moves_forward hn ht sampleUuid "QUEUED" hqueued
  have heq : b = "SUCCEEDED" := Option.some.inj (hb.symm.trans hstatus)
  exact ⟨n, t, hn, ht, hqueued, hstatus, heq ▸ hforward⟩

/-- The dispatcher has put a command in the mailbox; before its transition commits,
the control loop sends the command and the agent reports its result.  Then the
transition replaces SUCCEEDED by DISPATCHING. -/
theorem late_transition_overwrites_terminal :
    ∃ n t, Runs .stored Always start n ∧
      n.step .stored (.transitionDispatching .done) = some t ∧
      n.store.status sampleUuid = some "SUCCEEDED" ∧
      t.store.status sampleUuid = some "DISPATCHING" := by
  obtain ⟨n, hn, hterminal, hnext⟩ := run_of_events .stored Always
    [.submitCommand sampleCommand 300000 .done, .fetch [0] 1 .done, .dispatch,
      .connect 0 "node-1", .nextDispatch 0, .send 0 true, .transitionDelivered 0 .done,
      .complete 0 sampleCommand.cmdId (samplePayload "SUCCEEDED"), .completeCommand 0 .done]
    (fun n => n.store.status sampleUuid = some "SUCCEEDED" ∧
      (n.step .stored (.transitionDispatching .done)).any (fun t =>
        decide (t.store.status sampleUuid = some "DISPATCHING")) = true)
    (permitted_of_forall (fun _ _ _ => trivial) start) (by decide +kernel)
  obtain ⟨t, ht, hstatus⟩ := (Option.any_eq_true _ _).mp hnext
  exact ⟨n, t, hn, ht, hterminal, of_decide_eq_true hstatus⟩

end Node

end TomAgent.Connector
