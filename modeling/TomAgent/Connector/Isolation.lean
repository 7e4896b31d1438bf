import TomAgent.Connector.OutboxDelivery
import TomAgent.Connector.Redelivery
import TomAgent.Uplink.Reports

/-!
# What the frames of one asset do to the commands of another

The control stream compares the certificate of the agent with the asset it names.  The
frames that follow, and the items of the report stream, name commands by id, and nobody
asks whose command that is.
-/

namespace TomAgent.Platform.Store

/-- Status and result of a command, if it is one of the asset's. -/
def rowOf (s : Store) (assetId : String) (u : Uuid) : Option (String × Option Payload) :=
  ((s.commands.lookup u).filter fun row => row.assetId = assetId).map fun row =>
    (row.status, row.resultPayload)

structure SameFor (s t : Store) (assetId : String) : Prop where
  rows : ∀ u, t.rowOf assetId u = s.rowOf assetId u
  events : ∀ u, s.rowOf assetId u ≠ none → t.eventsOf u = s.eventsOf u

/-- The text is the id of a command of the asset. -/
def Names (s : Store) (assetId cmdId : String) : Prop :=
  ∃ u row, parseUuid cmdId = some u ∧ s.commands.lookup u = some row ∧ row.assetId = assetId

variable {s t t' : Store} {assetId : String}

theorem names_iff {cmdId : String} :
    ((parseUuid cmdId).bind fun u => s.commands.lookup u).any (fun row => row.assetId = assetId) =
      true ↔ s.Names assetId cmdId := by
  rw [Option.any_eq_true]
  constructor
  · rintro ⟨row, hrow, hasset⟩
    obtain ⟨u, hu, hrow⟩ := Option.bind_eq_some_iff.mp hrow
    exact ⟨u, row, hu, hrow, of_decide_eq_true hasset⟩
  · rintro ⟨u, row, hu, hrow, hasset⟩
    exact ⟨row, Option.bind_eq_some_iff.mpr ⟨u, hu, hrow⟩, decide_eq_true hasset⟩

instance (s : Store) (assetId cmdId : String) : Decidable (s.Names assetId cmdId) :=
  decidable_of_iff _ names_iff

theorem SameFor.refl (s : Store) (assetId : String) : s.SameFor s assetId :=
  ⟨fun _ => rfl, fun _ _ => rfl⟩

theorem SameFor.trans (h : s.SameFor t assetId) (h' : t.SameFor t' assetId) :
    s.SameFor t' assetId where
  rows u := (h'.rows u).trans (h.rows u)
  events u hu := by
    have hu' : t.rowOf assetId u ≠ none := by
      rw [h.rows]
      exact hu
    rw [h'.events u hu', h.events u hu]

theorem rowOf_ne_none {u : Uuid} :
    s.rowOf assetId u ≠ none ↔ ∃ row, s.commands.lookup u = some row ∧ row.assetId = assetId := by
  unfold rowOf
  cases s.commands.lookup u with
  | none => simp
  | some row => simp [Option.filter]

/-- A status change concerns the asset of the command alone. -/
theorem setStatus_same_iff {cmdId eventType toStatus actor : String}
    {result : Option Payload → Option Payload}
    (h : s.setStatus cmdId eventType toStatus actor result = .ok t) :
    s.SameFor t assetId ↔ ¬ s.Names assetId cmdId := by
  obtain ⟨u, row, v, hu, hrow, -, rfl⟩ := setStatus_ok h
  constructor
  · rintro hsame ⟨u', row', hu', hrow', hasset⟩
    cases hu.symm.trans hu'
    -- the change is logged
    have hevents := hsame.events u (rowOf_ne_none.mpr ⟨row', hrow', hasset⟩)
    rw [eventsOf_append rfl, if_pos rfl] at hevents
    simpa using congrArg List.length hevents
  · intro hnames
    have hother : row.assetId ≠ assetId := fun hasset => hnames ⟨u, row, hu, hrow, hasset⟩
    refine ⟨fun u' => ?_, fun u' hu' => ?_⟩
    · by_cases heq : u' = u
      · subst heq
        simp [rowOf, hrow, hother, Option.filter]
      · simp [rowOf, AList.lookup_insert_ne heq]
    · rw [eventsOf_append rfl, if_neg]
      rintro rfl
      obtain ⟨row', hrow', hasset⟩ := rowOf_ne_none.mp hu'
      exact hnames ⟨u, row', hu, hrow', hasset⟩

end TomAgent.Platform.Store

namespace TomAgent.Connector

open Platform Execution Uplink

/-! ## The commands of an asset in the mailbox -/

namespace MailboxRun

def Addressed (r : MailboxRun) (assetId cmdId : String) : Prop := (assetId, cmdId) ∈ r.log.submitted

instance (r : MailboxRun) (assetId cmdId : String) : Decidable (r.Addressed assetId cmdId) :=
  decidableMemPair (assetId, cmdId) r.log.submitted

structure SameFor (r r' : MailboxRun) (assetId : String) : Prop where
  addressed : ∀ id, r'.Addressed assetId id ↔ r.Addressed assetId id
  records : ∀ id, r.Addressed assetId id →
    (r'.mailbox.byID.lookup id).map (fun c => (c.state, c.result)) =
      (r.mailbox.byID.lookup id).map fun c => (c.state, c.result)
  cancels : ∀ id, r.Addressed assetId id → ∀ other,
    (r'.mailbox.cancels other).count id = (r.mailbox.cancels other).count id

variable {r r' r'' : MailboxRun} {assetId other : String}

theorem SameFor.refl (r : MailboxRun) (assetId : String) : r.SameFor r assetId :=
  ⟨fun _ => Iff.rfl, fun _ _ => rfl, fun _ _ _ => rfl⟩

theorem SameFor.trans (h : r.SameFor r' assetId) (h' : r'.SameFor r'' assetId) :
    r.SameFor r'' assetId where
  addressed id := (h'.addressed id).trans (h.addressed id)
  records id hid := (h'.records id ((h.addressed id).mpr hid)).trans (h.records id hid)
  cancels id hid other :=
    (h'.cancels id ((h.addressed id).mpr hid) other).trans (h.cancels id hid other)

/-- A result concerns the command it names. -/
theorem complete_same_iff {id : String} {result : Payload} :
    r.SameFor (r.step (.complete id result)) assetId ↔
      (r.Addressed assetId id → ∀ c, r.mailbox.byID.lookup id = some c →
        c.state = .terminal ∧ c.result = some result) := by
  have hrecord : ((r.mailbox.complete id result).byID.lookup id).map
      (fun c => (c.state, c.result)) =
        (r.mailbox.byID.lookup id).map fun _ => (.terminal, some result) := by
    unfold Mailbox.complete
    cases hc : r.mailbox.byID.lookup id with
    | none => simp [hc]
    | some c => simp
  constructor
  · intro h hid c hc
    have heq := h.records id hid
    simp only [step] at heq
    rw [hrecord, hc] at heq
    simp only [Option.map_some, Option.some.injEq, Prod.mk.injEq] at heq
    exact ⟨heq.1.symm, heq.2.symm⟩
  · intro h
    refine ⟨fun _ => Iff.rfl, fun id' hid' => ?_, fun id' _ other => ?_⟩
    · by_cases heq : id' = id
      · subst heq
        simp only [step]
        rw [hrecord]
        cases hc : r.mailbox.byID.lookup id' with
        | none => rfl
        | some c => simp [h hid' c hc]
      · simp only [step, Mailbox.complete]
        cases r.mailbox.byID.lookup id with
        | none => rfl
        | some c => simp [AList.lookup_insert_ne heq]
    · simp only [step, Mailbox.cancels_complete]

/-- A pass for one asset leaves the records of the other alone; it takes whatever cancels
were filed under its asset. -/
theorem nextDispatch_same_iff (h : r.Disciplined) (hne : other ≠ assetId) {now : Int} :
    r.SameFor (r.step (.nextDispatch other now)) assetId ↔
      ∀ id ∈ r.mailbox.cancels other, ¬ r.Addressed assetId id := by
  have hlookup := (Mailbox.sweep_eq now (h.nodup_queue other) r.mailbox.byID).1
  constructor
  · intro hsame id hid haddressed
    have hcount := hsame.cancels id haddressed other
    rw [step, Mailbox.cancels_nextDispatch, if_pos rfl, List.count_nil] at hcount
    exact (List.count_pos_iff.mpr hid).ne hcount
  · intro hfree
    refine ⟨fun _ => Iff.rfl, fun id hid => ?_, fun id hid asset => ?_⟩
    · have hqueue : id ∉ r.mailbox.queue other := by
        intro hmem
        exact hne (h.asset_unique (h.mem_queue hmem) hid)
      have hsame := (hlookup id).trans (if_neg hqueue)
      simp only [step, Mailbox.nextDispatch]
      rw [hsame]
    · simp only [step, Mailbox.cancels_nextDispatch]
      split
      next heq =>
        subst heq
        have hnone : id ∉ r.mailbox.cancels asset := fun hmem => hfree id hmem hid
        rw [List.count_nil, List.count_eq_zero_of_not_mem hnone]
      next => rfl

end MailboxRun

/-! ## Frames -/

/-- What happens on the connections of an agent: the frames it sends and the turns of the
control loops that its first frames start. -/
inductive Activity where
  /-- The first frame of a control stream, with the asset it names. -/
  | hello (session : Nat) (assetId : String)
  | heartbeat
  | commandAck (cmdId : String) (accepted : Bool) (rejectReason : String) (reply : Reply)
  | metricBatch
  /-- An item of a report; the sink may refuse it. -/
  | reportItem (stream : Nat) (kind : ReportKind) (id : String) (payload : Payload) (taken : Bool)
  /-- The receiver goes on with the result it has put in the mailbox. -/
  | completeCommand (stream : Nat) (reply : Reply)
  | nextDispatch (session : Nat)
  | send (session : Nat) (ok : Bool)
  | transitionDelivered (session : Nat) (reply : Reply)
  | sendCancel (session : Nat) (ok : Bool)
  | disconnect (session : Nat)

namespace Node

def turn (n : Node) (mode : Mode) (cn : String) (session : Nat) (e : Event) : Option Node :=
  match n.streams.lookup session with
  | some st => if st.assetId = cn then n.step mode e else none
  | none => none

/-- What the connector does on connections whose certificate has the common name `cn`. -/
def receive (n : Node) (mode : Mode) (cn : String) : Activity → Option Node
  | .hello session assetId =>
      if cn ≠ assetId then some n else n.step mode (.connect session assetId)
  | .heartbeat => some n
  | .commandAck cmdId accepted rejectReason reply =>
      if accepted then some n else n.step mode (.commandAck cmdId rejectReason reply)
  | .metricBatch => some n
  | .reportItem stream kind id payload taken =>
      if taken ∧ kind = .results then n.step mode (.complete stream id payload) else some n
  | .completeCommand stream reply => n.step mode (.completeCommand stream reply)
  | .nextDispatch session => n.turn mode cn session (.nextDispatch session)
  | .send session ok => n.turn mode cn session (.send session ok)
  | .transitionDelivered session reply =>
      n.turn mode cn session (.transitionDelivered session reply)
  | .sendCancel session ok => n.turn mode cn session (.sendCancel session ok)
  | .disconnect session => n.turn mode cn session (.disconnect session)

structure SameFor (n n' : Node) (assetId : String) : Prop where
  box : n.box.SameFor n'.box assetId
  store : n.store.SameFor n'.store assetId

/-- The status of a command of the asset is overwritten: there is a database, the
transaction is committed and the status fits its column. -/
def Writes (n : Node) (mode : Mode) (assetId cmdId status : String) (reply : Reply) : Prop :=
  mode = .stored ∧ reply ≠ .failed ∧ varchar 20 status ≠ none ∧ n.store.Names assetId cmdId

/-- The activity stays away from the commands of the asset: a rejection or a result
neither overwrites a row of it nor a record, unless with what is there, and no cancel of
one of its commands is pending under the name of another asset. -/
def Harmless (n : Node) (mode : Mode) (cn assetId : String) : Activity → Prop
  | .commandAck cmdId accepted rejectReason reply =>
      accepted = true ∨ ¬ n.Writes mode assetId cmdId (rejectStatus rejectReason) reply
  | .reportItem _ kind id payload taken =>
      taken = false ∨ kind ≠ .results ∨
        (n.box.Addressed assetId id → ∀ c, n.mailbox.byID.lookup id = some c →
          c.state = .terminal ∧ c.result = some payload)
  | .completeCommand stream reply => ∀ id payload, n.receiving stream = some (id, payload) →
      ¬ n.Writes mode assetId id (resultStatus payload) reply
  | .nextDispatch _ => ∀ id ∈ n.mailbox.cancels cn, ¬ n.box.Addressed assetId id
  | _ => True

variable {n n' n'' : Node} {mode : Mode} {cn assetId : String}

theorem SameFor.refl (n : Node) (assetId : String) : n.SameFor n assetId :=
  ⟨.refl _ _, .refl _ _⟩

theorem SameFor.trans (h : n.SameFor n' assetId) (h' : n'.SameFor n'' assetId) :
    n.SameFor n'' assetId :=
  ⟨h.box.trans h'.box, h.store.trans h'.store⟩

theorem SameFor.of_eq (hbox : n'.box = n.box) (hstore : n'.store = n.store) :
    n.SameFor n' assetId := by
  refine ⟨?_, ?_⟩
  · rw [hbox]
    exact .refl _ _
  · rw [hstore]
    exact .refl _ _

/-! ## Status changes -/

theorem store_persist (n : Node) (mode : Mode) (reply : Reply) (result : Except StoreError Store) :
    (n.persist mode reply result).store =
      if mode = .stored then (reply.settle result n.store).2 else n.store := by
  cases mode with
  | memory => rfl
  | stored => rfl

theorem settle_same_iff {s : Store} {cmdId eventType toStatus actor : String}
    {result : Option Payload → Option Payload} {reply : Reply} :
    s.SameFor (reply.settle (s.setStatus cmdId eventType toStatus actor result) s).2 assetId ↔
      ¬ (reply ≠ .failed ∧ varchar 20 toStatus ≠ none ∧ s.Names assetId cmdId) := by
  cases ht : s.setStatus cmdId eventType toStatus actor result with
  | ok t =>
      obtain ⟨u, row, v, -, -, hv, -⟩ := Store.setStatus_ok ht
      have hiff : s.SameFor t assetId ↔ ¬ s.Names assetId cmdId := Store.setStatus_same_iff ht
      cases reply with
      | done => simp [Reply.settle, hiff, hv]
      | unreported => simp [Reply.settle, hiff, hv]
      | failed => simp [Reply.settle, Store.SameFor.refl]
  | error err =>
      have hsame : (reply.settle (.error err) s).2 = s := by
        cases reply with
        | done => rfl
        | failed => rfl
        | unreported => rfl
      rw [hsame]
      refine iff_of_true (.refl _ _) ?_
      rintro ⟨-, hfits, u, row, hu, hrow, -⟩
      obtain ⟨v, hv⟩ := Option.ne_none_iff_exists'.mp hfits
      rw [Store.setStatus_known hu hrow hv] at ht
      cases ht

theorem persist_same_iff {m : Node} {cmdId eventType toStatus actor : String}
    {result : Option Payload → Option Payload} {reply : Reply} (hstore : m.store = n.store) :
    n.store.SameFor (m.persist mode reply
        (n.store.setStatus cmdId eventType toStatus actor result)).store assetId ↔
      ¬ n.Writes mode assetId cmdId toStatus reply := by
  rw [store_persist, hstore]
  cases mode with
  | memory =>
      rw [if_neg (by simp)]
      exact iff_of_true (.refl _ _) (by simp [Writes])
  | stored =>
      rw [if_pos rfl, settle_same_iff]
      simp [Writes]

theorem box_persist (n : Node) (mode : Mode) (reply : Reply) (result : Except StoreError Store) :
    (n.persist mode reply result).box = n.box := by
  cases mode with
  | memory => rfl
  | stored => rfl

theorem commandAck_same_iff {cmdId rejectReason : String} {reply : Reply}
    (h : n.step mode (.commandAck cmdId rejectReason reply) = some n') :
    n.SameFor n' assetId ↔ ¬ n.Writes mode assetId cmdId (rejectStatus rejectReason) reply := by
  cases h
  have hstore : n.store.SameFor (n.persist mode reply
      (n.store.completeCommand cmdId (rejectStatus rejectReason) none)).store assetId ↔
        ¬ n.Writes mode assetId cmdId (rejectStatus rejectReason) reply := persist_same_iff rfl
  have hbox : n.box.SameFor (n.persist mode reply
      (n.store.completeCommand cmdId (rejectStatus rejectReason) none)).box assetId := by
    rw [box_persist]
    exact .refl _ _
  exact ⟨fun hsame => hstore.mp hsame.store, fun hfree => ⟨hbox, hstore.mpr hfree⟩⟩

theorem complete_same_iff {stream : Nat} {id : String} {payload : Payload}
    (h : n.step mode (.complete stream id payload) = some n') :
    n.SameFor n' assetId ↔ (n.box.Addressed assetId id → ∀ c, n.mailbox.byID.lookup id = some c →
      c.state = .terminal ∧ c.result = some payload) := by
  cases step_effect h with
  | complete =>
      rw [← MailboxRun.complete_same_iff]
      exact ⟨fun hsame => hsame.box, fun hsame => ⟨hsame, .refl _ _⟩⟩

theorem completeCommand_same_iff {stream : Nat} {reply : Reply}
    (h : n.step mode (.completeCommand stream reply) = some n') :
    n.SameFor n' assetId ↔ ∀ id payload, n.receiving stream = some (id, payload) →
      ¬ n.Writes mode assetId id (resultStatus payload) reply := by
  simp only [step, reportStep] at h
  split at h
  next id payload hr =>
    cases h
    set m : Node := { n with receiving := Function.update n.receiving stream none }
    have hstore : n.store.SameFor (m.persist mode reply
        (n.store.completeCommand id (resultStatus payload) (some payload))).store assetId ↔
          ¬ n.Writes mode assetId id (resultStatus payload) reply := persist_same_iff rfl
    have hbox : n.box.SameFor (m.persist mode reply
        (n.store.completeCommand id (resultStatus payload) (some payload))).box assetId := by
      rw [box_persist]
      exact .refl _ _
    constructor
    · intro hsame id' payload' hr'
      cases hr.symm.trans hr'
      exact hstore.mp hsame.store
    · intro hfree
      exact ⟨hbox, hstore.mpr (hfree id payload hr)⟩
  next => cases h

/-! ## What the control loops have in their hands -/

/-- The commands that a control loop has taken are its asset's. -/
structure Owns (r : MailboxRun) (st : ControlStream) : Prop where
  cmds : ∀ c ∈ st.cmds, r.Addressed st.assetId c.cmdId
  delivering : ∀ id, st.delivering = some id → r.Addressed st.assetId id

def Handed (n : Node) : Prop :=
  ∀ session st, n.streams.lookup session = some st → Owns n.box st

theorem Owns.mono {r r' : MailboxRun} {st : ControlStream} (h : Owns r st)
    (hlog : r.log.submitted ⊆ r'.log.submitted) : Owns r' st :=
  ⟨fun c hc => hlog (h.cmds c hc), fun id hid => hlog (h.delivering id hid)⟩

theorem submitted_subset_step (r : MailboxRun) (op : MailboxOp) :
    r.log.submitted ⊆ (r.step op).log.submitted := by
  cases op with
  | submit d now =>
      simp only [MailboxRun.step]
      split
      next => exact List.Subset.refl _
      next => exact List.subset_append_left _ _
  | cancel assetId cmdId =>
      simp only [MailboxRun.step, MailboxLog.cancel]
      split
      next => exact List.Subset.refl _
      next => split <;> exact List.Subset.refl _
  | nextDispatch assetId now => exact List.Subset.refl _
  | complete cmdId result => exact List.Subset.refl _

theorem Effect.submitted_subset {e : Event} (h : Effect mode n e n') (hcrash : e ≠ .crash) :
    n.box.log.submitted ⊆ n'.box.log.submitted := by
  rcases h.box with heq | ⟨op, heq, -⟩ | ⟨hevent, -⟩
  · rw [heq]
    exact List.Subset.refl _
  · rw [heq]
    exact submitted_subset_step n.box op
  · exact absurd hevent hcrash

theorem Handed.insert (h : n.Handed) (hlog : n.box.log.submitted ⊆ n'.box.log.submitted)
    {session : Nat} {st : ControlStream} (hstreams : n'.streams = n.streams.insert session st)
    (hst : Owns n'.box st) : n'.Handed := by
  intro session' st' hlookup
  rw [hstreams] at hlookup
  cases Table.lookup_insert_cases hlookup with
  | inl hnew => exact hnew.2 ▸ hst
  | inr hold => exact (h session' st' hold.2).mono hlog

theorem Handed.erase (h : n.Handed) (hlog : n.box.log.submitted ⊆ n'.box.log.submitted)
    {session : Nat} (hstreams : n'.streams = n.streams.erase session) : n'.Handed := by
  intro session' st' hlookup
  rw [hstreams] at hlookup
  exact (h session' st' (Table.lookup_erase_cases hlookup).2).mono hlog

theorem Handed.step (h : n.Handed) (hbox : n.box.Disciplined) {e : Event}
    (he : Effect mode n e n') : n'.Handed := by
  have hlog := he.submitted_subset
  cases he with
  | connect => exact h.insert (hlog nofun) rfl ⟨nofun, nofun⟩
  | nextDispatch hst =>
      refine h.insert (hlog nofun) rfl ⟨fun c hc => ?_, nofun⟩
      obtain ⟨-, -, hqueue, -⟩ := hbox.handed hc
      exact hbox.mem_queue hqueue
  | @send session asset c rest cancels hst =>
      have howns := h session _ hst
      refine h.insert (hlog nofun) rfl ⟨fun c' hc' => ?_, fun id hid => ?_⟩
      · exact howns.cmds c' (List.mem_cons_of_mem _ hc')
      · cases hid
        exact howns.cmds c List.mem_cons_self
  | @transitionDelivered session reply asset cmds cmdId cancels s hst =>
      have howns := h session _ hst
      exact h.insert (hlog nofun) rfl ⟨howns.cmds, nofun⟩
  | sendCancel => exact h.insert (hlog nofun) rfl ⟨nofun, nofun⟩
  | sendFails => exact h.erase (hlog nofun) rfl
  | sendCancelFails => exact h.erase (hlog nofun) rfl
  | disconnect => exact h.erase (hlog nofun) rfl
  | crash =>
      intro session st hlookup
      cases hlookup
  | _ => exact fun session st hlookup => (h session st hlookup).mono (hlog nofun)

structure Apart (n : Node) (mode : Mode) : Prop where
  box : n.box.Disciplined
  handed : n.Handed
  traced : mode = .stored → n.Traced

theorem apart_of_run (h : Runs mode Always start n) : n.Apart mode := by
  have hinv : n.box.Disciplined ∧ n.Handed := by
    refine run_invariant (fun n => n.box.Disciplined ∧ n.Handed) ?_ ⟨.start 64 300000, ?_⟩ h
    · rintro n t e ⟨hbox, hhanded⟩ - he
      exact ⟨he.disciplined hbox, hhanded.step hbox he⟩
    · intro session st hlookup
      cases hlookup
  refine ⟨hinv.1, hinv.2, ?_⟩
  rintro rfl
  exact (traced_of_run h).1

/-- With a database, what was taken for one asset is in no row of another. -/
theorem Traced.not_names (h : n.Traced) {id : String} (hid : n.box.Addressed cn id)
    (hne : cn ≠ assetId) : ¬ n.store.Names assetId id := by
  rintro ⟨u, row, hu, hrow, hasset⟩
  obtain ⟨i, d, hd, hcn, rfl, -⟩ := h.source cn id hid
  obtain ⟨j, d', hd', hu', hasset'⟩ := h.store.request u row hrow
  have hij := h.store.once i j d d' hd hd' (hu.trans hu'.symm)
  subst hij
  cases hd.unique hd'
  exact hne (hcn.symm.trans (hasset'.trans hasset))

theorem step_of_turn {session : Nat} {e : Event} (h : n.turn mode cn session e = some n') :
    ∃ st, n.streams.lookup session = some st ∧ st.assetId = cn ∧ n.step mode e = some n' := by
  unfold turn at h
  split at h
  next st hst =>
    split at h
    next hasset => exact ⟨st, hst, hasset, h⟩
    next => cases h
  next => cases h

theorem transitionDelivered_same (h : n.Apart mode) (hne : cn ≠ assetId) {session : Nat}
    {reply : Reply} (hturn : n.turn mode cn session (.transitionDelivered session reply) = some n') :
    n.SameFor n' assetId := by
  obtain ⟨st, hst, hasset, hstep⟩ := step_of_turn hturn
  obtain ⟨asset, cmds, delivering, cancels⟩ := st
  simp only at hasset
  subst hasset
  simp only [step, streamStep, hst] at hstep
  cases delivering with
  | none => cases hstep
  | some cmdId =>
      cases hstep
      refine ⟨?_, ?_⟩
      · rw [box_persist]
        exact .refl _ _
      · have hstore : n.store.SameFor
            ((n.setStream session ⟨asset, cmds, none, cancels⟩).persist mode reply
              (n.store.transition cmdId "delivered" "DELIVERED" "connector")).store assetId ↔
            ¬ n.Writes mode assetId cmdId "DELIVERED" reply := persist_same_iff rfl
        refine hstore.mpr ?_
        rintro ⟨hmode, -, -, hnames⟩
        have haddressed := (h.handed session _ hst).delivering cmdId rfl
        exact (h.traced hmode).not_names haddressed hne hnames

theorem turn_same {session : Nat} {e : Event} (hturn : n.turn mode cn session e = some n')
    (he : (∃ ok, e = .send session ok) ∨ (∃ ok, e = .sendCancel session ok) ∨
      e = .disconnect session) : n.SameFor n' assetId := by
  obtain ⟨-, -, -, hstep⟩ := step_of_turn hturn
  rcases he with ⟨ok, rfl⟩ | ⟨ok, rfl⟩ | rfl
  · cases step_effect hstep with
    | send => exact .of_eq rfl rfl
    | sendFails => exact .of_eq rfl rfl
  · cases step_effect hstep with
    | sendCancel => exact .of_eq rfl rfl
    | sendCancelFails => exact .of_eq rfl rfl
  · cases step_effect hstep with
    | disconnect => exact .of_eq rfl rfl

theorem nextDispatch_turn_same_iff (h : n.Apart mode) (hne : cn ≠ assetId) {session : Nat}
    (hturn : n.turn mode cn session (.nextDispatch session) = some n') :
    n.SameFor n' assetId ↔ ∀ id ∈ n.mailbox.cancels cn, ¬ n.box.Addressed assetId id := by
  obtain ⟨st, hst, hasset, hstep⟩ := step_of_turn hturn
  cases step_effect hstep with
  | nextDispatch hst' =>
      cases hst.symm.trans hst'
      simp only at hasset
      subst hasset
      rw [← MailboxRun.nextDispatch_same_iff h.box hne]
      exact ⟨fun hsame => hsame.box, fun hsame => ⟨hsame, .refl _ _⟩⟩

theorem receive_same_iff (h : n.Apart mode) (hne : cn ≠ assetId) {a : Activity}
    (ha : n.receive mode cn a = some n') :
    n.SameFor n' assetId ↔ n.Harmless mode cn assetId a := by
  cases a with
  | hello session asset =>
      simp only [receive] at ha
      refine iff_of_true ?_ trivial
      split at ha
      next =>
        cases ha
        exact .refl _ _
      next =>
        cases step_effect ha with
        | connect => exact .of_eq rfl rfl
  | heartbeat =>
      cases ha
      exact iff_of_true (.refl _ _) trivial
  | commandAck cmdId accepted rejectReason reply =>
      simp only [receive] at ha
      split at ha
      next haccepted =>
        cases ha
        exact iff_of_true (.refl _ _) (Or.inl haccepted)
      next hrejected =>
        rw [commandAck_same_iff ha, Harmless, or_iff_right hrejected]
  | metricBatch =>
      cases ha
      exact iff_of_true (.refl _ _) trivial
  | reportItem stream kind id payload taken =>
      simp only [receive] at ha
      split at ha
      next hresult =>
        rw [complete_same_iff ha, Harmless, or_iff_right (by simp [hresult.1]),
          or_iff_right (not_not_intro hresult.2)]
      next hother =>
        cases ha
        refine iff_of_true (.refl _ _) ?_
        cases taken with
        | false => exact Or.inl rfl
        | true => exact Or.inr (Or.inl fun hkind => hother ⟨rfl, hkind⟩)
  | completeCommand stream reply => exact completeCommand_same_iff ha
  | nextDispatch session => exact nextDispatch_turn_same_iff h hne ha
  | send session ok => exact iff_of_true (turn_same ha (Or.inl ⟨ok, rfl⟩)) trivial
  | transitionDelivered session reply =>
      exact iff_of_true (transitionDelivered_same h hne ha) trivial
  | sendCancel session ok => exact iff_of_true (turn_same ha (Or.inr (Or.inl ⟨ok, rfl⟩))) trivial
  | disconnect session => exact iff_of_true (turn_same ha (Or.inr (Or.inr rfl))) trivial

/-- An activity is a step of the connector, or nothing happens. -/
theorem runs_of_receive {a : Activity} (ha : n.receive mode cn a = some n') :
    Runs mode Always n n' := by
  have hsingle : ∀ {e : Event}, n.step mode e = some n' → Runs mode Always n n' :=
    fun he => Relation.ReflTransGen.single ⟨_, trivial, he⟩
  have hturn : ∀ {session : Nat} {e : Event}, n.turn mode cn session e = some n' →
      Runs mode Always n n' := by
    intro session e he
    obtain ⟨-, -, -, hstep⟩ := step_of_turn he
    exact hsingle hstep
  cases a with
  | hello session asset =>
      simp only [receive] at ha
      split at ha
      next => cases ha; exact .refl
      next => exact hsingle ha
  | heartbeat => cases ha; exact .refl
  | commandAck cmdId accepted rejectReason reply =>
      simp only [receive] at ha
      split at ha
      next => cases ha; exact .refl
      next => exact hsingle ha
  | metricBatch => cases ha; exact .refl
  | reportItem stream kind id payload taken =>
      simp only [receive] at ha
      split at ha
      next => exact hsingle ha
      next => cases ha; exact .refl
  | completeCommand stream reply =>
      simp only [receive] at ha
      exact hsingle ha
  | nextDispatch session => exact hturn ha
  | send session ok => exact hturn ha
  | transitionDelivered session reply => exact hturn ha
  | sendCancel session ok => exact hturn ha
  | disconnect session => exact hturn ha

/-- In every state that a run reaches, an activity of the agent `cn` leaves the commands of
another asset as they are exactly if it is harmless, and so does any sequence of harmless
ones. -/
theorem frames_isolated (hrun : Runs mode Always start n) (hne : cn ≠ assetId) :
    (∀ a n', n.receive mode cn a = some n' →
        (n.SameFor n' assetId ↔ n.Harmless mode cn assetId a)) ∧
      ∀ n', Reaches (Fires (fun n a => n.receive mode cn a)
        (fun n a => n.Harmless mode cn assetId a)) n n' → n.SameFor n' assetId := by
  refine ⟨fun a n' ha => receive_same_iff (apart_of_run hrun) hne ha, fun n' hframes => ?_⟩
  have hinv : Runs mode Always start n' ∧ n.SameFor n' assetId := by
    refine invariant (fun t => Runs mode Always start t ∧ n.SameFor t assetId) ?_
      ⟨hrun, .refl _ _⟩ hframes
    rintro t t' ⟨ht, hsame⟩ ⟨a, hharmless, ha⟩
    have hsame' := (receive_same_iff (apart_of_run ht) hne ha).mpr hharmless
    exact ⟨ht.trans (runs_of_receive ha), hsame.trans hsame'⟩
  exact hinv.2

def Unrelated (n : Node) (cn assetId : String) : Activity → Prop
  | .commandAck cmdId _ _ _ => ¬ n.store.Names assetId cmdId
  | .reportItem _ _ id _ _ => ¬ n.box.Addressed assetId id
  | .completeCommand stream _ => ∀ p ∈ n.receiving stream, ¬ n.store.Names assetId p.1
  | .nextDispatch _ => ∀ id ∈ n.mailbox.cancels cn, ¬ n.box.Addressed assetId id
  | _ => True

instance (n : Node) (cn assetId : String) : ∀ a, Decidable (n.Unrelated cn assetId a)
  | .commandAck cmdId _ _ _ => inferInstanceAs (Decidable (¬ n.store.Names assetId cmdId))
  | .reportItem _ _ id _ _ => inferInstanceAs (Decidable (¬ n.box.Addressed assetId id))
  | .completeCommand stream _ =>
      inferInstanceAs (Decidable (∀ p ∈ n.receiving stream, ¬ n.store.Names assetId p.1))
  | .nextDispatch _ =>
      inferInstanceAs (Decidable (∀ id ∈ n.mailbox.cancels cn, ¬ n.box.Addressed assetId id))
  | .hello .. | .heartbeat | .metricBatch | .send .. | .transitionDelivered .. | .sendCancel ..
    | .disconnect .. => isTrue trivial

theorem Unrelated.harmless {a : Activity} (h : n.Unrelated cn assetId a) :
    n.Harmless mode cn assetId a := by
  cases a with
  | commandAck cmdId accepted rejectReason reply => exact Or.inr fun hwrites => h hwrites.2.2.2
  | reportItem stream kind id payload taken => exact Or.inr (Or.inr fun hid => absurd hid h)
  | completeCommand stream reply =>
      exact fun id payload hr hwrites => h (id, payload) hr hwrites.2.2.2
  | nextDispatch session => exact h
  | _ => trivial

def deliveredEvents : List Event :=
  [.submitCommand sampleCommand 300000 .done, .fetch [0] 1 .done, .dispatch,
    .transitionDispatching .done, .markPublished .done, .connect 0 "node-1", .nextDispatch 0,
    .send 0 true, .transitionDelivered 0 .done]

def neighbourFrames : List Activity :=
  [.hello 1 "node-2", .nextDispatch 1,
    .reportItem 0 .results "b0eebc99-9c0b-4ef8-bb6d-6bb9bd380a11" (samplePayload "SUCCEEDED") true,
    .completeCommand 0 .done]

theorem frames_isolated_neighbour :
    ∃ n n', Runs .stored Always start n ∧ n.store.status sampleUuid = some "DELIVERED" ∧
      n.box.Addressed "node-1" sampleCommand.cmdId ∧ (n'.streams.lookup 1).isSome = true ∧
      n.SameFor n' "node-1" := by
  obtain ⟨n, hrun, hstatus, haddressed, hpermits, hplay⟩ := run_of_events .stored Always
    deliveredEvents
    (fun n => n.store.status sampleUuid = some "DELIVERED" ∧
      n.box.Addressed "node-1" sampleCommand.cmdId ∧
      permits (fun n a => n.receive .stored "node-2" a)
        (fun n a => decide (n.Unrelated "node-2" "node-1" a)) n neighbourFrames = true ∧
      (play (fun n a => n.receive .stored "node-2" a) n neighbourFrames).any
        (fun n' => (n'.streams.lookup 1).isSome) = true)
    (permitted_of_forall (fun _ _ _ => trivial) _) (by decide +kernel)
  have hpermitted : Permitted (fun n a => n.receive .stored "node-2" a)
      (fun n a => n.Harmless .stored "node-2" "node-1" a) n neighbourFrames :=
    permitted_of_permits (fun _ _ h => (of_decide_eq_true h).harmless) hpermits
  obtain ⟨n', hframes, hstream⟩ := reaches_of_any _ neighbourFrames
    (fun n' => (n'.streams.lookup 1).isSome = true) hpermitted (by simpa using hplay)
  exact ⟨n, n', hrun, hstatus, haddressed, hstream,
    (frames_isolated hrun (by decide)).2 n' hframes⟩

/-- An agent reports a result for a command of another asset, and it is stored. -/
theorem foreign_result_stored :
    ∃ n m n', Runs .stored Always start n ∧ n.box.Addressed "node-1" sampleCommand.cmdId ∧
      n.receive .stored "node-2"
        (.reportItem 0 .results sampleCommand.cmdId (samplePayload "FAILED") true) = some m ∧
      m.receive .stored "node-2" (.completeCommand 0 .done) = some n' ∧
      n.mailboxEntry sampleCommand.cmdId = some (.dispatched, none) ∧
      n'.mailboxEntry sampleCommand.cmdId = some (.terminal, some (samplePayload "FAILED")) ∧
      n.store.status sampleUuid = some "DELIVERED" ∧ n'.store.status sampleUuid = some "FAILED" ∧
      ¬ n.SameFor n' "node-1" := by
  obtain ⟨n, hrun, hfree, haddressed, hstate, hbefore, hafter⟩ := run_of_events .stored Always
    deliveredEvents
    (fun n => n.receiving 0 = none ∧ n.box.Addressed "node-1" sampleCommand.cmdId ∧
      (n.mailboxEntry sampleCommand.cmdId).any (fun c => c.1 = .dispatched ∧ c.2.isNone) = true ∧
      n.store.status sampleUuid = some "DELIVERED" ∧
      (n.report .stored 0 sampleCommand.cmdId (samplePayload "FAILED") .done).store.status
        sampleUuid = some "FAILED")
    (permitted_of_forall (fun _ _ _ => trivial) _) (by decide +kernel)
  set n' := n.report .stored 0 sampleCommand.cmdId (samplePayload "FAILED") .done
  have hentry : n.mailboxEntry sampleCommand.cmdId = some (.dispatched, none) := by
    obtain ⟨⟨state, result⟩, hc, hfresh⟩ := (Option.any_eq_true _ _).mp hstate
    rw [hc]
    simp only [Option.isNone_iff_eq_none, decide_eq_true_eq] at hfresh
    rw [hfresh.1, hfresh.2]
  have hentry' : n'.mailboxEntry sampleCommand.cmdId =
      some (.terminal, some (samplePayload "FAILED")) := by
    rw [mailboxEntry_report, hentry, Option.map_some]
  refine ⟨n, _, n', hrun, haddressed, step_complete .stored _ _ hfree,
    step_completeCommand n .stored 0 _ _ .done, hentry, hentry', hbefore, hafter, ?_⟩
  intro hsame
  have hmoved : n'.mailboxEntry sampleCommand.cmdId = n.mailboxEntry sampleCommand.cmdId :=
    hsame.box.records sampleCommand.cmdId haddressed
  rw [hentry, hentry'] at hmoved
  cases hmoved

end Node

end TomAgent.Connector
