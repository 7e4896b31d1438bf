import TomAgent.Connector.OutboxDelivery

/-!
# Two expiries of one command

`SubmitCommand` stores when a command expires.  The outbox does not carry it: the mailbox counts
its own lifetime from the moment the dispatcher gets the command in, and that is what
`NextDispatch` looks at and what is signed into the envelope.
-/

namespace TomAgent.Platform.Store

def expiresAt (s : Store) (cmdId : String) : Option Int :=
  (parseUuid cmdId).bind fun u => (s.commands.lookup u).map CommandRow.expiresAt

variable {s t : Store} {cmdId : String} {limit : Int}

theorem expiresAt_eq_some :
    s.expiresAt cmdId = some limit ↔
      ∃ u row, parseUuid cmdId = some u ∧ s.commands.lookup u = some row ∧
        row.expiresAt = limit := by
  simp only [expiresAt, Option.bind_eq_some_iff, Option.map_eq_some_iff]
  constructor
  · rintro ⟨u, hu, row, hrow, hlimit⟩
    exact ⟨u, row, hu, hrow, hlimit⟩
  · rintro ⟨u, row, hu, hrow, hlimit⟩
    exact ⟨u, hu, row, hrow, hlimit⟩

theorem Restamps.expiresAt (h : s.Restamps t) (hs : s.expiresAt cmdId = some limit) :
    t.expiresAt cmdId = some limit := by
  obtain ⟨u, row, hu, hrow, hlimit⟩ := expiresAt_eq_some.mp hs
  have hmem : u ∈ t.commands := (h.keys u).mpr (AList.lookup_isSome.mp (by rw [hrow]; rfl))
  obtain ⟨row', hrow'⟩ := Option.isSome_iff_exists.mp (AList.lookup_isSome.mpr hmem)
  obtain ⟨old, hold, -, hsame⟩ := h.rows u row' hrow'
  cases hrow.symm.trans hold
  exact expiresAt_eq_some.mpr ⟨u, row', hu, hrow', hsame.trans hlimit⟩

theorem expiresAt_submitCommand {d : Dispatch} {expires : Int}
    (h : s.submitCommand d expires = .ok t) (hs : s.expiresAt cmdId = some limit) :
    t.expiresAt cmdId = some limit := by
  obtain ⟨u, row, hu, hrow, hlimit⟩ := expiresAt_eq_some.mp hs
  unfold submitCommand at h
  split at h
  next => cases h
  next new hnew =>
    split at h
    next => cases h
    next hfree =>
      cases h
      have hne : u ≠ new := by
        rintro rfl
        cases hfree.symm.trans hrow
      exact expiresAt_eq_some.mpr ⟨u, row, hu, (AList.lookup_insert_ne hne).trans hrow, hlimit⟩

theorem expiresAt_cancelCommand {id : String} (h : s.cancelCommand id = .ok t) :
    t.expiresAt cmdId = s.expiresAt cmdId := by
  unfold cancelCommand at h
  split at h
  next => cases h
  next =>
    cases h
    rfl

end TomAgent.Platform.Store

namespace TomAgent.Connector

open Platform Execution

structure CommandEnvelope where
  cmdId : String
  action : String
  params : List (String × String)
  timeoutSec : Nat
  issuedAt : Int
  expiresAt : Int
deriving Repr, DecidableEq

/-- The timeout is converted to `uint32`. -/
def MailboxCommand.envelope (c : MailboxCommand) (now : Int) : CommandEnvelope :=
  ⟨c.cmdId, c.action, c.params, (c.timeoutSec % 2 ^ 32).toNat, now, c.expiresAt⟩

namespace Node

def sending (n : Node) : Event → Option MailboxCommand
  | .send session true =>
      match n.streams.lookup session with
      | some ⟨_, c :: _, none, _⟩ => some c
      | _ => none
  | _ => none

/-- The envelope is sent, and says that it expires, no later than the command does. -/
def Honours (n : Node) (c : MailboxCommand) : Prop :=
  ∃ limit ∈ n.store.expiresAt c.cmdId, n.clock ≤ limit ∧ (c.envelope n.clock).expiresAt ≤ limit

def AllHonoured (past : List (Node × Event)) : Prop :=
  ∀ p ∈ past, ∀ c ∈ p.1.sending p.2, p.1.Honours c

/-- The mailbox accepts a command only if its own lifetime ends with the command's, and an
envelope is sent within it. -/
def inTime (n : Node) : Event → Bool
  | .dispatch =>
      match n.batch.head?.bind fun index => n.store.outbox[index]? with
      | some ⟨.dispatchRequested, d, _⟩ =>
          !(n.mailbox.submit (readBack d) n.clock).toBool ||
            (n.store.expiresAt d.cmdId).all fun limit => n.clock + n.mailbox.ttl ≤ limit
      | _ => true
  | .send session ok => (n.sending (.send session ok)).all fun c => n.clock ≤ c.expiresAt
  | _ => true

abbrev InTime (_ : List (Node × Event)) (n : Node) (e : Event) : Prop := n.inTime e = true

/-! ## Commands expire with their rows -/

def Covers (s : Store) (c : MailboxCommand) : Prop :=
  ∃ limit, s.expiresAt c.cmdId = some limit ∧ c.expiresAt ≤ limit

structure Bounded (n : Node) : Prop where
  box : ∀ id c, n.mailbox.byID.lookup id = some c → Covers n.store c
  streams : ∀ session st, n.streams.lookup session = some st → ∀ c ∈ st.cmds, Covers n.store c

variable {n t : Node} {e : Event}

theorem Bounded.start : Bounded start := by
  constructor
  · intro id c hc
    cases hc
  · intro session st hst
    cases hst

/-- Rows stay, with their expiry. -/
theorem StoreChange.covers (h : StoreChange n t e) {c : MailboxCommand} (hc : Covers n.store c) :
    Covers t.store c := by
  obtain ⟨limit, hlimit, hle⟩ := hc
  refine ⟨limit, ?_, hle⟩
  cases h with
  | restamped h => exact h.expiresAt hlimit
  | submitted d expiresAt h => exact Store.expiresAt_submitCommand h hlimit
  | cancelRequested cmdId h => rw [Store.expiresAt_cancelCommand h]; exact hlimit
  | published index reply _ _ _ h => rw [h]; exact hlimit

theorem Covers.ages {s : Store} {c c' : MailboxCommand} (h : Covers s c) (hages : c.Ages c') :
    Covers s c' := by
  obtain ⟨limit, hlimit, hle⟩ := h
  exact ⟨limit, by rw [hages.cmdId]; exact hlimit, by rw [hages.expiresAt]; exact hle⟩

theorem Bounded.call (h : n.Bounded) (hbox : n.box.Disciplined) (op : MailboxOp)
    (hop : ∀ d now, op ≠ .submit d now) {id : String} {c : MailboxCommand}
    (hc : (n.box.step op).mailbox.byID.lookup id = some c) : Covers n.store c := by
  obtain ⟨old, hold, hages⟩ := (hbox.step_ages op hop).1.back id c hc
  exact (h.box id old hold).ages hages

theorem Bounded.accepts (h : n.Bounded) (htraced : n.Traced) {index : Nat} {rest : List Nat}
    {d : Dispatch} {published : Bool} {m : Mailbox} (hbatch : n.batch = index :: rest)
    (hentry : n.store.outbox[index]? = some ⟨.dispatchRequested, d, published⟩)
    (hsubmit : n.mailbox.submit (readBack d) n.clock = .ok m)
    (hmay : n.inTime .dispatch = true) {id : String} {c : MailboxCommand}
    (hc : (n.box.step (.submit (readBack d) n.clock)).mailbox.byID.lookup id = some c) :
    Covers n.store c := by
  have haccepts := Mailbox.submit_accepts hsubmit
  simp only [MailboxRun.step, hsubmit] at hc
  by_cases hid : id = d.cmdId
  · subst hid
    cases hc.symm.trans haccepts.new
    obtain ⟨u, hu, hparse⟩ := htraced.store.command index d ⟨published, hentry⟩
    obtain ⟨row, hrow⟩ := Option.isSome_iff_exists.mp (AList.lookup_isSome.mpr hu)
    have hlimit : n.store.expiresAt d.cmdId = some row.expiresAt :=
      Store.expiresAt_eq_some.mpr ⟨u, row, hparse, hrow, rfl⟩
    refine ⟨row.expiresAt, hlimit, ?_⟩
    show n.clock + n.mailbox.ttl ≤ row.expiresAt
    simpa [inTime, hbatch, hentry, hsubmit, hlimit, Except.toBool] using hmay
  · rw [haccepts.old id hid] at hc
    exact h.box id c hc

theorem Bounded.box_step (h : n.Bounded) (htraced : n.Traced) (hmay : n.inTime e = true)
    (he : Effect .stored n e t) {id : String} {c : MailboxCommand}
    (hc : t.mailbox.byID.lookup id = some c) : Covers n.store c := by
  cases he with
  | submit hmode => cases hmode
  | cancel hmode => cases hmode
  | @cancelNow _ assetId cmdId => exact h.call htraced.box (.cancel assetId cmdId) nofun hc
  | accepted _ hbatch hentry hsubmit => exact h.accepts htraced hbatch hentry hsubmit hmay hc
  | @cancelled _ _ d => exact h.call htraced.box (.cancel "" d.cmdId) nofun hc
  | @nextDispatch _ assetId => exact h.call htraced.box (.nextDispatch assetId n.clock) nofun hc
  | @complete _ cmdId payload => exact h.call htraced.box (.complete cmdId payload) nofun hc
  | crash => cases hc
  | _ => exact h.box id c hc

/-- What a control loop gets from `NextDispatch`. -/
theorem Bounded.handed (h : n.Bounded) (hbox : n.box.Disciplined) {assetId : String}
    {c : MailboxCommand} (hc : c ∈ (n.mailbox.nextDispatch assetId n.clock).2.1) :
    Covers n.store c := by
  obtain ⟨record, hrecord, -, hout⟩ := hbox.handed hc
  obtain ⟨limit, hlimit, hle⟩ := h.box _ record hrecord
  obtain ⟨-, -, hexpires, hname, -⟩ := handedOut_spec hout
  exact ⟨limit, by rw [hname]; exact hlimit, by rw [hexpires]; exact hle⟩

theorem Bounded.streams_step (h : n.Bounded) (hbox : n.box.Disciplined)
    (he : Effect .stored n e t) {session : Nat} {st : ControlStream}
    (hst : t.streams.lookup session = some st) {c : MailboxCommand} (hc : c ∈ st.cmds) :
    Covers n.store c := by
  by_cases hcrash : e = .crash
  · subst hcrash
    cases he
    cases hst
  cases he.streams hcrash with
  | none heq =>
      rw [heq] at hst
      exact h.streams session st hst c hc
  | opened session' assetId _ heq =>
      rw [heq] at hst
      rcases Table.lookup_insert_cases hst with ⟨-, rfl⟩ | ⟨-, hother⟩
      · cases hc
      · exact h.streams session st hother c hc
  | moved session' old new hold heq _ _ _ hnew =>
      rw [heq] at hst
      rcases Table.lookup_insert_cases hst with ⟨-, rfl⟩ | ⟨-, hother⟩
      · rcases hnew c hc with hbefore | ⟨-, -, hhanded⟩
        · exact h.streams session' old hold c hbefore
        · exact h.handed hbox hhanded
      · exact h.streams session st hother c hc
  | ended session' old _ heq _ =>
      rw [heq] at hst
      exact h.streams session st (Table.lookup_erase_cases hst).2 c hc

theorem Bounded.step (h : n.Bounded) (htraced : n.Traced) (hmay : n.inTime e = true)
    (he : Effect .stored n e t) : t.Bounded where
  box _ _ hc := he.store.covers (h.box_step htraced hmay he hc)
  streams _ _ hst _ hc := he.store.covers (h.streams_step htraced.box he hst hc)

theorem sending_mem {c : MailboxCommand} (hc : c ∈ n.sending e) :
    ∃ session assetId rest cancels, e = .send session true ∧
      n.streams.lookup session = some ⟨assetId, c :: rest, none, cancels⟩ := by
  unfold sending at hc
  split at hc
  next session =>
    split at hc
    next assetId c' rest cancels hst =>
      cases hc
      exact ⟨session, assetId, rest, cancels, rfl, hst⟩
    next => cases hc
  next => cases hc

theorem Bounded.honours (h : n.Bounded) (hmay : n.inTime e = true) {c : MailboxCommand}
    (hc : c ∈ n.sending e) : n.Honours c := by
  obtain ⟨session, assetId, rest, cancels, rfl, hst⟩ := sending_mem hc
  obtain ⟨limit, hlimit, hle⟩ := h.streams session _ hst c List.mem_cons_self
  have hearly : n.clock ≤ c.expiresAt := by
    rw [inTime, Option.mem_def.mp hc] at hmay
    simpa using hmay
  exact ⟨limit, hlimit, hearly.trans hle, hle⟩

/-- As long as commands get into the mailbox early enough and their envelopes are not held up,
no envelope outlives its command. -/
theorem stored_expiry_honoured {past : List (Node × Event)} {n : Node}
    (hrun : Course (fun n => n.step .stored) InTime start past n) : AllHonoured past := by
  have hall : (n.Traced ∧ n.Bounded) ∧ AllHonoured past := by
    apply Course.invariant (fun past n => (n.Traced ∧ n.Bounded) ∧ AllHonoured past) ?_ ?_ hrun
    · exact ⟨⟨.start, .start⟩, fun p hp => absurd hp List.not_mem_nil⟩
    · rintro past n e t ⟨⟨htraced, hbounded⟩, hpast⟩ hmay hstep
      have he := step_effect hstep
      refine ⟨⟨htraced.step he, hbounded.step htraced hmay he⟩, ?_⟩
      exact List.forall_mem_cons.mpr ⟨fun c hc => hbounded.honours hmay hc, hpast⟩
  exact hall.2

/-! ## Two runs -/

/-- A command with the lifetime of five minutes is submitted; after `delay` milliseconds the
dispatcher gets it into the mailbox, and the control loop takes it up and sends it after `pause`
more. -/
def delayed (delay pause : Int) : List Event :=
  [.submitCommand sampleCommand 300000 .done, .tick delay, .fetch [0] delay .done, .dispatch,
    .transitionDispatching .done, .markPublished .done, .connect 0 "node-1",
    .tick (delay + pause), .nextDispatch 0, .send 0 true]

instance (n : Node) (c : MailboxCommand) : Decidable (n.Honours c) :=
  Table.decidableFound (n.store.expiresAt c.cmdId) _

instance (past : List (Node × Event)) : Decidable (AllHonoured past) := by
  unfold AllHonoured
  infer_instance

/-- A command with the lifetime of ten minutes.  The process ends with it in the mailbox, the
dispatcher gets it in again four minutes later, and the agent connects after six. -/
def retried : List Event :=
  [.submitCommand sampleCommand 600000 .done, .fetch [0] 1 .done, .dispatch, .crash,
    .tick 240000, .fetch [0] 240000 .done, .dispatch, .transitionDispatching .done,
    .markPublished .done, .tick 360000, .connect 0 "node-1", .nextDispatch 0, .send 0 true]

theorem stored_expiry_honoured_retried :
    ∃ past n, Course (fun n => n.step .stored) InTime start past n ∧
      n.sent = [("node-1", sampleCommand.cmdId)] ∧ n.clock = 360000 ∧ AllHonoured past := by
  obtain ⟨past, n, hrun, hsent, hclock⟩ := course_of_any (fun n => n.step .stored) InTime
    (s := start) retried (fun _ n => n.sent = [("node-1", sampleCommand.cmdId)] ∧
      n.clock = 360000) (by decide +kernel)
  exact ⟨past, n, hrun, hsent, hclock, stored_expiry_honoured hrun⟩

/-- The dispatcher takes four minutes to get the command in, the agent two to connect. -/
theorem envelope_outlives_command :
    ∃ past n, Course (fun n => n.step .stored) (fun _ _ _ => True) start past n ∧
      ¬ AllHonoured past :=
  course_of_any (fun n => n.step .stored) (fun _ _ _ => True) (s := start)
    (delayed 240000 120000) (fun past _ => ¬ AllHonoured past) (by decide +kernel)

end Node

end TomAgent.Connector
