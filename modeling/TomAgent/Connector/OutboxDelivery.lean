import TomAgent.Connector.Node
import TomAgent.Platform.Outbox

/-!
# From the outbox to the mailbox

The dispatcher may take up a row several times: a transition or `MarkPublished` may
fail, a lock may run out.  The mailbox keeps ids, so a command is accepted once per
process, and what it holds is what the row says.
-/

namespace TomAgent.Connector

open Platform Execution

/-- The command carries the request `d`; its parameters are in the order of their keys. -/
structure MailboxCommand.Carries (c : MailboxCommand) (d : Dispatch) : Prop where
  action : c.action = d.action
  params : c.params = sortedParams d.params
  timeoutSec : c.timeoutSec = d.timeoutSec

theorem MailboxCommand.Ages.carries {c c' : MailboxCommand} {d : Dispatch} (h : c.Ages c')
    (hc : c.Carries d) : c'.Carries d :=
  ⟨h.action.trans hc.action, h.params.trans hc.params, h.timeoutSec.trans hc.timeoutSec⟩

/-! ## Every command in the mailbox has a row -/

/-- What the mailbox holds was requested in the outbox, for the same asset. -/
def Sourced (s : Store) (r : MailboxRun) : Prop :=
  ∀ assetId cmdId, (assetId, cmdId) ∈ r.log.submitted → ∃ i d, s.Requested i d ∧
    d.assetId = assetId ∧ d.cmdId = cmdId ∧
      ∃ c, r.mailbox.byID.lookup cmdId = some c ∧ c.Carries d

variable {s t : Store} {r : MailboxRun}

theorem Sourced.start (s : Store) (perAsset : Nat) (ttl : Int) :
    Sourced s (.start perAsset ttl) := by
  intro assetId cmdId hmem
  cases hmem

theorem Sourced.store (h : Sourced s r) (hrow : ∀ i d, s.Requested i d → t.Requested i d) :
    Sourced t r := by
  intro assetId cmdId hmem
  obtain ⟨i, d, hd, hrest⟩ := h assetId cmdId hmem
  exact ⟨i, d, hrow i d hd, hrest⟩

theorem Sourced.call (h : Sourced s r) (hr : r.Disciplined) {op : MailboxOp}
    (hop : ∀ d now, op ≠ .submit d now) : Sourced s (r.step op) := by
  obtain ⟨hages, hlog⟩ := hr.step_ages op hop
  intro assetId cmdId hmem
  rw [hlog] at hmem
  obtain ⟨i, d, hd, hasset, hid, c, hc, hcarries⟩ := h assetId cmdId hmem
  obtain ⟨c', hc', hages⟩ := hages.forth cmdId c hc
  exact ⟨i, d, hd, hasset, hid, c', hc', hages.carries hcarries⟩

theorem Sourced.accepts (h : Sourced s r) {i : Nat} {d : Dispatch}
    (hd : s.Requested i d) {now : Int} {m : Mailbox}
    (hm : r.mailbox.submit (Node.readBack d) now = .ok m) :
    Sourced s (r.step (.submit (Node.readBack d) now)) := by
  have haccepts := Mailbox.submit_accepts hm
  intro assetId cmdId hmem
  simp only [MailboxRun.step, hm] at hmem ⊢
  rcases List.mem_append.mp hmem with hold | hnew
  · obtain ⟨j, d', hd', hasset, hid, c, hc, hcarries⟩ := h assetId cmdId hold
    refine ⟨j, d', hd', hasset, hid, c, ?_, hcarries⟩
    rw [haccepts.old, hc]
    -- the id is not known yet
    rintro rfl
    rw [haccepts.unknown] at hc
    cases hc
  · cases List.mem_singleton.mp hnew
    exact ⟨i, d, hd, rfl, rfl, _, haccepts.new, rfl, rfl, rfl⟩

namespace Node

variable {n n' : Node} {e : Event}

structure Traced (n : Node) : Prop where
  box : n.box.Disciplined
  store : n.store.Registered
  source : Sourced n.store n.box

theorem Traced.start : Traced start :=
  ⟨.start 64 300000, .empty, .start _ 64 300000⟩

theorem StoreChange.registered (h : StoreChange n n' e) (hn : n.store.Registered) :
    n'.store.Registered := by
  cases h with
  | restamped h => exact hn.restamps h
  | submitted d expiresAt h => exact hn.submitCommand h
  | cancelRequested cmdId h => exact hn.cancelCommand h
  | published index reply _ _ _ h =>
      rw [h]
      exact hn.markPublished index

theorem StoreChange.requested (h : StoreChange n n' e) {i : Nat} {d : Dispatch}
    (hd : n.store.Requested i d) : n'.store.Requested i d := by
  cases h with
  | restamped h => exact h.requested.mpr hd
  | submitted d' expiresAt h => exact (Store.submitCommand_adds h).1.requested.mpr (Or.inl hd)
  | cancelRequested cmdId h => exact (Store.cancelCommand_adds h).1.requested.mpr (Or.inl hd)
  | published index reply _ _ _ h =>
      rw [h]
      exact Store.requested_markPublished.mpr hd

/-- A row is published only by the dispatcher, when it is done with it. -/
theorem StoreChange.unpublished (h : StoreChange n n' e) {i : Nat} (hi : n.store.Unpublished i) :
    n'.store.Unpublished i ∨
      n.dispatcher = .handled i ∧ ∃ reply, e = .markPublished reply ∧ reply ≠ .failed := by
  cases h with
  | restamped h => exact Or.inl (h.unpublished.mpr hi)
  | submitted d expiresAt h => exact Or.inl ((Store.submitCommand_adds h).1.unpublished hi)
  | cancelRequested cmdId h => exact Or.inl ((Store.cancelCommand_adds h).1.unpublished hi)
  | published index reply hd he hreply h =>
      rw [h]
      by_cases heq : i = index
      · exact Or.inr ⟨heq ▸ hd, reply, he, hreply⟩
      · exact Or.inl (Store.unpublished_markPublished.mpr ⟨hi, heq⟩)

theorem StoreChange.requested_back (h : StoreChange n n' e) {i : Nat} {d : Dispatch}
    (hd : n'.store.Requested i d) : n.store.Requested i d ∨ n'.store.Unpublished i := by
  cases h with
  | restamped h => exact Or.inl (h.requested.mp hd)
  | submitted d' expiresAt h => exact (Store.submitCommand_adds h).1.unpublished_of_requested hd
  | cancelRequested cmdId h => exact (Store.cancelCommand_adds h).1.unpublished_of_requested hd
  | published index reply _ _ _ h =>
      rw [h] at hd
      exact Or.inl (Store.requested_markPublished.mp hd)

theorem StoreChange.requested_old (h : StoreChange n n' e) {i : Nat} (hi : n.store.Unpublished i)
    {d : Dispatch} : n'.store.Requested i d ↔ n.store.Requested i d := by
  cases h with
  | restamped h => exact h.requested
  | submitted d expiresAt h => exact (Store.submitCommand_adds h).1.requested_old hi
  | cancelRequested cmdId h => exact (Store.cancelCommand_adds h).1.requested_old hi
  | published index reply _ _ _ h =>
      rw [h]
      exact Store.requested_markPublished

/-- With a database, only the dispatcher puts commands into the mailbox. -/
theorem Traced.source_box (h : n.Traced) (he : Effect .stored n e n') :
    Sourced n.store n'.box := by
  cases he with
  | submit hmode => cases hmode
  | cancel hmode => cases hmode
  | cancelNow => exact h.source.call h.box nofun
  | accepted _ _ hentry hsubmit => exact h.source.accepts ⟨_, hentry⟩ hsubmit
  | cancelled => exact h.source.call h.box nofun
  | nextDispatch => exact h.source.call h.box nofun
  | complete => exact h.source.call h.box nofun
  | crash => exact .start _ 64 300000
  | _ => exact h.source

theorem Traced.step (h : n.Traced) (he : Effect .stored n e n') : n'.Traced where
  box := he.disciplined h.box
  store := he.store.registered h.store
  source := (h.source_box he).store fun _ _ => he.store.requested

/-! ## The rows in the dispatcher's hands -/

end Node

def DispatcherState.index : DispatcherState → Option Nat
  | .idle => none
  | .submitted index _ | .handled index | .refused index => some index

namespace Node

variable {n n' : Node} {e : Event}

def Event.working : Event → Bool
  | .fetch .. | .dispatch | .transitionDispatching .. | .markPublished .. | .markOutboxError ..
    | .crash => true
  | _ => false

/-- What the dispatcher has fetched is not published, and it gets to `MarkPublished`
only with a command that the mailbox knows. -/
structure Working (n : Node) : Prop where
  nodup : n.batch.Nodup
  batch : ∀ i ∈ n.batch, n.store.Unpublished i
  current : ∀ i, n.dispatcher.index = some i → n.store.Unpublished i ∧ i ∉ n.batch
  submitted : ∀ i cmdId, n.dispatcher = .submitted i cmdId →
    ∃ d, n.store.Requested i d ∧ d.cmdId = cmdId ∧ n.mailbox.Knows cmdId
  handled : ∀ i, n.dispatcher = .handled i → ∀ d, n.store.Requested i d →
    n.mailbox.Knows d.cmdId

theorem Working.idle (hidle : n.dispatcher = .idle) (hnodup : n.batch.Nodup)
    (hbatch : ∀ i ∈ n.batch, n.store.Unpublished i) : n.Working := by
  refine ⟨hnodup, hbatch, ?_, ?_, ?_⟩
  · intro i hi
    rw [hidle] at hi
    cases hi
  · intro i cmdId hi
    rw [hidle] at hi
    cases hi
  · intro i hi
    rw [hidle] at hi
    cases hi

theorem Working.other (h : n.Working) (he : Effect .stored n e n') (hbox : n.box.Disciplined)
    (hevent : e.working = false) (hbatch : n'.batch = n.batch)
    (hdispatcher : n'.dispatcher = n.dispatcher) : n'.Working := by
  have hcrash : e ≠ .crash := by
    rintro rfl
    cases hevent
  have hknows : ∀ id, n.mailbox.Knows id → n'.mailbox.Knows id := fun id => he.knows hcrash hbox
  have hopen : ∀ i, n.store.Unpublished i → n'.store.Unpublished i := by
    intro i hi
    rcases he.store.unpublished hi with hi | ⟨-, reply, rfl, -⟩
    · exact hi
    · cases hevent
  refine ⟨?_, ?_, ?_, ?_, ?_⟩
  · rw [hbatch]
    exact h.nodup
  · rw [hbatch]
    exact fun i hi => hopen i (h.batch i hi)
  · intro i hi
    rw [hdispatcher] at hi
    rw [hbatch]
    exact ⟨hopen i (h.current i hi).1, (h.current i hi).2⟩
  · intro i cmdId hi
    rw [hdispatcher] at hi
    obtain ⟨d, hd, hid, hknown⟩ := h.submitted i cmdId hi
    exact ⟨d, he.store.requested hd, hid, hknows cmdId hknown⟩
  · intro i hi d hd
    rw [hdispatcher] at hi
    have hcurrent := (h.current i (by rw [hi]; rfl)).1
    exact hknows d.cmdId (h.handled i hi d ((he.store.requested_old hcurrent).mp hd))

theorem unpublished_of_mem_fetchOutbox {now : Int} {i : Nat} (h : i ∈ n.fetchOutbox now) :
    n.store.Unpublished i := by
  have hdue := (List.mem_filter.mp (List.mem_of_mem_take h)).2
  simp only [decide_eq_true_eq] at hdue
  obtain ⟨entry, hentry, hopen⟩ := (Option.any_eq_true _ _).mp hdue.1
  exact ⟨entry, hentry, by simpa using hopen⟩

theorem nodup_fetchOutbox (n : Node) (now : Int) : (n.fetchOutbox now).Nodup :=
  (List.nodup_range.filter _).sublist (List.take_sublist _ _)

/-- The dispatcher goes on with the first row of its batch. -/
theorem Working.take (h : n.Working) {index : Nat} {rest : List Nat}
    (hbatch : n.batch = index :: rest) (hbatch' : n'.batch = rest) (hstore : n'.store = n.store)
    (hindex : n'.dispatcher.index = some index)
    (hsubmitted : ∀ i cmdId, n'.dispatcher = .submitted i cmdId →
      ∃ d, n.store.Requested i d ∧ d.cmdId = cmdId ∧ n'.mailbox.Knows cmdId)
    (hhandled : ∀ i, n'.dispatcher = .handled i → ∀ d, n.store.Requested i d →
      n'.mailbox.Knows d.cmdId) : n'.Working := by
  have hnodup := h.nodup
  have hopen := h.batch
  rw [hbatch] at hnodup hopen
  obtain ⟨hnew, hrest⟩ := List.nodup_cons.mp hnodup
  refine ⟨?_, ?_, ?_, ?_, ?_⟩
  · rw [hbatch']
    exact hrest
  · rw [hbatch', hstore]
    exact fun i hi => hopen i (List.mem_cons_of_mem _ hi)
  · intro i hi
    cases hindex.symm.trans hi
    rw [hbatch', hstore]
    exact ⟨hopen index List.mem_cons_self, hnew⟩
  · rw [hstore]
    exact hsubmitted
  · rw [hstore]
    exact hhandled

theorem Working.step (h : n.Working) (hbox : n.box.Disciplined) (he : Effect .stored n e n') :
    n'.Working := by
  have hother := h.other he hbox
  cases he with
  | fetch hidle hb =>
      rcases hb with rfl | hb
      · refine .idle hidle List.nodup_nil ?_
        intro i hi
        cases hi
      · refine .idle hidle (hb.nodup_iff.mpr (n.nodup_fetchOutbox _)) fun i hi => ?_
        have hopen : n.store.Unpublished i := unpublished_of_mem_fetchOutbox (hb.mem_iff.mp hi)
        exact hopen
  | accepted _ hbatch hentry hsubmit =>
      refine h.take hbatch rfl rfl rfl ?_ ?_
      · intro i cmdId hi
        cases hi
        refine ⟨_, ⟨_, hentry⟩, rfl, ?_⟩
        simp only [mailbox, MailboxRun.step, hsubmit]
        exact ((Mailbox.submit_accepts hsubmit).knows _).mpr (Or.inl rfl)
      · intro i hi
        cases hi
  | duplicate _ hbatch hentry hsubmit =>
      refine h.take hbatch rfl rfl rfl ?_ ?_
      · intro i cmdId hi
        cases hi
      · intro i hi d hd
        cases hi
        cases Store.Requested.unique hd ⟨_, hentry⟩
        have hknows := Mailbox.submit_dupCmdID hsubmit
        exact hknows
  | rejected _ hbatch =>
      refine h.take hbatch rfl rfl rfl ?_ ?_
      · intro i cmdId hi
        cases hi
      · intro i hi
        cases hi
  | cancelled _ hbatch hentry =>
      refine h.take hbatch rfl rfl rfl ?_ ?_
      · intro i cmdId hi
        cases hi
      · -- the row is no dispatch request
        rintro i hi d ⟨published, hd⟩
        cases hi
        cases hentry.symm.trans hd
  | @transitionDispatching reply index cmdId s d hd hsettled hnext =>
      have hstore := restamps_of_settled hsettled
      have hindex := h.current index (by rw [hd]; rfl)
      obtain ⟨d', hd', hid, hknows⟩ := h.submitted index cmdId hd
      have hopen : ∀ i, n.store.Unpublished i → s.Unpublished i := fun i => hstore.unpublished.mpr
      refine ⟨h.nodup, fun i hi => hopen i (h.batch i hi), ?_, ?_, ?_⟩
      · intro i hi
        rcases hnext with rfl | rfl
        · cases hi
          exact ⟨hopen _ hindex.1, hindex.2⟩
        · cases hi
          exact ⟨hopen _ hindex.1, hindex.2⟩
      · intro i cmdId hi
        rcases hnext with rfl | rfl
        · cases hi
        · cases hi
      · intro i hi d'' hd''
        rcases hnext with rfl | rfl
        · cases hi
          cases Store.Requested.unique (hstore.requested.mp hd'') hd'
          exact hid ▸ hknows
        · cases hi
  | @markPublished reply index hd _ =>
      refine .idle rfl h.nodup fun i hi => Store.unpublished_markPublished.mpr ⟨h.batch i hi, ?_⟩
      rintro rfl
      exact (h.current i (by rw [hd]; rfl)).2 hi
  | markFails => exact .idle rfl h.nodup h.batch
  | markOutboxError => exact .idle rfl h.nodup h.batch
  | crash =>
      refine .idle rfl List.nodup_nil ?_
      intro i hi
      cases hi
  | _ => exact hother rfl rfl rfl

theorem Working.start : Working start := .idle rfl List.nodup_nil nofun

theorem traced_of_run {n : Node} (h : Runs .stored Always start n) : n.Traced ∧ n.Working := by
  refine run_invariant (fun n => n.Traced ∧ n.Working) ?_ ⟨.start, .start⟩ h
  rintro n t e ⟨htraced, hworking⟩ - he
  exact ⟨htraced.step he, hworking.step htraced.box he⟩

/-! ## What a traced node guarantees -/

theorem Traced.requested_of_knows (h : n.Traced) {cmdId : String} (hid : n.mailbox.Knows cmdId) :
    ∃ i d, n.store.Requested i d ∧ d.cmdId = cmdId ∧ (d.assetId, cmdId) ∈ n.box.log.submitted ∧
      ∃ c, n.mailbox.byID.lookup cmdId = some c ∧ c.Carries d := by
  obtain ⟨⟨assetId, id⟩, hmem, rfl⟩ := List.mem_map.mp ((h.box.known cmdId).mp hid)
  obtain ⟨i, d, hd, rfl, hid, hc⟩ := h.source assetId id hmem
  exact ⟨i, d, hd, hid, hmem, hc⟩

theorem Traced.id_unique (h : n.Traced) {id id' : String} {u : Uuid} (hid : n.mailbox.Knows id)
    (hid' : n.mailbox.Knows id') (hu : parseUuid id = some u) (hu' : parseUuid id' = some u) :
    id = id' := by
  obtain ⟨i, d, hd, rfl, -⟩ := h.requested_of_knows hid
  obtain ⟨j, d', hd', rfl, -⟩ := h.requested_of_knows hid'
  have hij := h.store.once i j d d' hd hd' (hu.trans hu'.symm)
  subst hij
  rw [hd.unique hd']

theorem Traced.carries (h : n.Traced) {i : Nat} {d : Dispatch} (hd : n.store.Requested i d)
    {c : MailboxCommand} (hc : n.mailbox.byID.lookup d.cmdId = some c) :
    c.Carries d ∧ (d.assetId, d.cmdId) ∈ n.box.log.submitted := by
  have hknows : n.mailbox.Knows d.cmdId := AList.lookup_isSome.mp (by rw [hc]; rfl)
  obtain ⟨j, d', hd', hid, hmem, c', hc', hcarries⟩ := h.requested_of_knows hknows
  rw [hc] at hc'
  cases hc'
  have hij := h.store.once i j d d' hd hd' (by rw [hid])
  subst hij
  cases hd.unique hd'
  exact ⟨hcarries, hmem⟩

end Node

/-- In one process the outbox feeds the mailbox exactly once and faithfully, whatever
the order of submissions, fetches and failures: ids of one command are one id, a
record carries its request and stands in the queue of its asset only, a request is
published with its command in the mailbox, and a request that the mailbox had no
room for stays unpublished until the dispatcher is done with it. -/
theorem outbox_to_mailbox_faithful {n : Node} (hrun : Node.Runs .stored Node.Always Node.start n) :
    (∀ id id' u, n.mailbox.Knows id → n.mailbox.Knows id' → parseUuid id = some u →
        parseUuid id' = some u → id = id') ∧
      (∀ assetId, (n.mailbox.queue assetId).Nodup) ∧
      (∀ i d c, n.store.Requested i d → n.mailbox.byID.lookup d.cmdId = some c →
        c.action = d.action ∧ c.params.Perm d.params ∧ c.timeoutSec = d.timeoutSec ∧
          ∀ assetId, d.cmdId ∈ n.mailbox.queue assetId → assetId = d.assetId) ∧
      (∀ e t i d, n.step .stored e = some t → n.store.Requested i d → n.store.Unpublished i →
        ¬ t.store.Unpublished i → n.mailbox.Knows d.cmdId) ∧
      (∀ i rest d t, n.batch = i :: rest → n.store.Requested i d →
        n.mailbox.submit (Node.readBack d) n.clock = .error .full →
        n.step .stored .dispatch = some t → t.dispatcher = .refused i) ∧
      ∀ i, n.dispatcher = .refused i → n.store.Unpublished i ∧
        ∀ e t, n.step .stored e = some t → t.store.Unpublished i := by
  obtain ⟨htraced, hworking⟩ := Node.traced_of_run hrun
  refine ⟨?_, htraced.box.nodup_queue, ?_, ?_, ?_, ?_⟩
  · intro id id' u hid hid' hu hu'
    exact htraced.id_unique hid hid' hu hu'
  · intro i d c hd hc
    obtain ⟨hcarries, hmem⟩ := htraced.carries hd hc
    refine ⟨hcarries.action, ?_, hcarries.timeoutSec, ?_⟩
    · rw [hcarries.params]
      exact sortedParams_perm d.params
    · intro assetId hqueue
      exact htraced.box.asset_unique (htraced.box.mem_queue hqueue) hmem
  · intro e t i d hstep hd hopen hclosed
    rcases (Node.step_effect hstep).store.unpublished hopen with hopen' | ⟨hhandled, -⟩
    · exact absurd hopen' hclosed
    · exact hworking.handled i hhandled d hd
  · intro i rest d t hbatch hd hfull hstep
    cases Node.step_effect hstep with
    | accepted _ hbatch' hentry hsubmit =>
        cases hbatch.symm.trans hbatch'
        cases hd.unique ⟨_, hentry⟩
        cases hfull.symm.trans hsubmit
    | duplicate _ hbatch' hentry hsubmit =>
        cases hbatch.symm.trans hbatch'
        cases hd.unique ⟨_, hentry⟩
        cases hfull.symm.trans hsubmit
    | rejected _ hbatch' =>
        cases hbatch.symm.trans hbatch'
        rfl
    | cancelled _ hbatch' hentry =>
        cases hbatch.symm.trans hbatch'
        obtain ⟨published, hrow⟩ := hd
        cases hrow.symm.trans hentry
  · intro i hrefused
    have hopen := (hworking.current i (by rw [hrefused]; rfl)).1
    refine ⟨hopen, fun e t hstep => ?_⟩
    -- only a handled row is published
    rcases (Node.step_effect hstep).store.unpublished hopen with hopen' | ⟨hhandled, -⟩
    · exact hopen'
    · cases hrefused.symm.trans hhandled

/-- The transition fails, the row is fetched again and published at the second
attempt; the mailbox knows the command under one id. -/
theorem outbox_to_mailbox_faithful_retried :
    ∃ n, Node.Runs .stored Node.Always Node.start n ∧ n.dispatcher = .handled 0 ∧
      n.mailbox.Knows sampleCommand.cmdId ∧
      ∀ id, n.mailbox.Knows id → parseUuid id = parseUuid sampleCommand.cmdId →
        sampleCommand.cmdId = id := by
  obtain ⟨n, hrun, hhandled, hknows⟩ := Node.run_of_events .stored Node.Always
    [.submitCommand sampleCommand 300000 .done, .fetch [0] 1 .done, .dispatch,
      .transitionDispatching .failed, .markOutboxError .done, .fetch [0] 2 .done, .dispatch]
    (fun n => n.dispatcher = .handled 0 ∧ n.mailbox.Knows sampleCommand.cmdId)
    (permitted_of_forall (fun _ _ _ => trivial) _) (by decide +kernel)
  refine ⟨n, hrun, hhandled, hknows, ?_⟩
  intro id hid hu
  exact (outbox_to_mailbox_faithful hrun).1 _ id _ hknows hid parseUuid_sample
    (hu.trans parseUuid_sample)

end TomAgent.Connector
