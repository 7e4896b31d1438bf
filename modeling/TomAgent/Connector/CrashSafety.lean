import TomAgent.Connector.OutboxDelivery
import TomAgent.Connector.StatusOrder

/-!
# What a crash loses

Until its row is marked published a command is safe in the database.  From then on
only the mailbox and the control loops know that it has to be sent, and neither
survives the process.
-/

namespace TomAgent.Connector

open Platform Execution

namespace Node

def ExpiredRow (n : Node) (u : Uuid) : Prop :=
  ∃ row ∈ n.store.commands.lookup u, row.expiresAt < n.clock

/-- Every command that still has to reach its agent has been sent to it, or has an
unpublished request. -/
def CrashSafe (n : Node) : Prop :=
  ∀ u row, n.store.commands.lookup u = some row → ¬ Terminal row.status →
    ¬ row.expiresAt < n.clock → ¬ n.store.CancelRequested u →
      (∃ cmdId, parseUuid cmdId = some u ∧ (row.assetId, cmdId) ∈ n.sent) ∨
        ∃ i d, n.store.Requested i d ∧ parseUuid d.cmdId = some u ∧ n.store.Unpublished i

def Cleared (n : Node) (d : Dispatch) : Prop :=
  (d.assetId, d.cmdId) ∈ n.sent ∨
    ∃ u ∈ parseUuid d.cmdId, n.store.CancelRequested u ∨ n.ExpiredRow u

/-- A dispatch request is published only after its envelope was sent, unless its
command is cancelled or expired. -/
def PublishesCleared (n : Node) : Event → Prop
  | .markPublished .failed => True
  | .markPublished _ =>
      match n.dispatcher with
      | .handled index => ∀ e ∈ n.store.outbox[index]?,
          e.eventType = .dispatchRequested → n.Cleared e.payload
      | _ => True
  | _ => True

instance (n : Node) (u : Uuid) : Decidable (n.ExpiredRow u) := by
  unfold ExpiredRow; infer_instance

instance (s : Store) (u : Uuid) : Decidable (s.CancelRequested u) := by
  unfold Store.CancelRequested; infer_instance

instance (n : Node) (d : Dispatch) : Decidable (n.Cleared d) := by
  unfold Cleared; infer_instance

instance (n : Node) (e : Event) : Decidable (n.PublishesCleared e) := by
  unfold PublishesCleared
  repeat' split
  all_goals infer_instance

variable {mode : Mode} {n t : Node} {e : Event}

/-! ## One step -/

theorem StoreChange.keeps_cancel (h : StoreChange n t e) {u : Uuid}
    (hu : n.store.CancelRequested u) : t.store.CancelRequested u := by
  cases h with
  | restamped h => exact h.cancelRequested.mpr hu
  | submitted d expiresAt h => exact (Store.submitCommand_adds h).1.cancelRequested hu
  | cancelRequested cmdId h => exact (Store.cancelCommand_adds h).1.cancelRequested hu
  | published index reply _ _ _ h =>
      rw [h]
      exact Store.cancelRequested_markPublished hu

theorem StoreChange.row (h : StoreChange n t e) {u : Uuid} {row : CommandRow}
    (hrow : n.store.commands.lookup u = some row) :
    ∃ row', t.store.commands.lookup u = some row' ∧ row'.expiresAt = row.expiresAt := by
  cases h with
  | restamped h =>
      have hmem : u ∈ n.store.commands := AList.lookup_isSome.mp (by rw [hrow]; rfl)
      obtain ⟨row', hrow'⟩ := Option.isSome_iff_exists.mp
        (AList.lookup_isSome.mpr ((h.keys u).mpr hmem))
      obtain ⟨row₀, hrow₀, -, hexpires⟩ := h.rows u row' hrow'
      cases hrow.symm.trans hrow₀
      exact ⟨row', hrow', hexpires⟩
  | submitted d expiresAt h =>
      obtain ⟨-, u', -, hnew, hcommands⟩ := Store.submitCommand_adds h
      refine ⟨row, ?_, rfl⟩
      rw [hcommands, AList.lookup_insert_ne, hrow]
      rintro rfl
      exact hnew (AList.lookup_isSome.mp (by rw [hrow]; rfl))
  | cancelRequested cmdId h =>
      rw [(Store.cancelCommand_adds h).2]
      exact ⟨row, hrow, rfl⟩
  | published index reply _ _ _ h =>
      rw [h]
      exact ⟨row, hrow, rfl⟩

theorem Cleared.step {d : Dispatch} (h : n.Cleared d) (he : Effect mode n e t) : t.Cleared d := by
  rcases h with hsent | ⟨u, hu, hcancel | ⟨row, hrow, hlate⟩⟩
  · exact Or.inl (he.sent_subset hsent)
  · exact Or.inr ⟨u, hu, Or.inl (he.store.keeps_cancel hcancel)⟩
  · obtain ⟨row', hrow', hexpires⟩ := he.store.row hrow
    have hclock := he.clock_le
    exact Or.inr ⟨u, hu, Or.inr ⟨row', hrow', by omega⟩⟩

structure Guarded (n : Node) : Prop where
  store : n.store.Registered
  published : ∀ i d, n.store.Requested i d → n.store.Unpublished i ∨ n.Cleared d

theorem Guarded.start : Guarded start :=
  ⟨.empty, fun i d h => by obtain ⟨published, hrow⟩ := h; cases hrow⟩

theorem PublishesCleared.cleared {reply : Reply} (h : n.PublishesCleared (.markPublished reply))
    (hreply : reply ≠ .failed) {i : Nat} {d : Dispatch} (hi : n.dispatcher = .handled i)
    (hd : n.store.Requested i d) : n.Cleared d := by
  obtain ⟨published, hrow⟩ := hd
  cases reply with
  | failed => exact absurd rfl hreply
  | done =>
      simp only [PublishesCleared, hi] at h
      exact h _ hrow rfl
  | unreported =>
      simp only [PublishesCleared, hi] at h
      exact h _ hrow rfl

theorem Guarded.step (h : n.Guarded) (he : Effect mode n e t) (hmay : n.PublishesCleared e) :
    t.Guarded := by
  refine ⟨he.store.registered h.store, ?_⟩
  intro i d hd
  rcases he.store.requested_back hd with hold | hnew
  · rcases h.published i d hold with hopen | hcleared
    · rcases he.store.unpublished hopen with hopen' | ⟨hhandled, reply, rfl, hreply⟩
      · exact Or.inl hopen'
      · exact Or.inr ((hmay.cleared hreply hhandled hold).step he)
    · exact Or.inr (hcleared.step he)
  · exact Or.inl hnew

theorem Guarded.crashSafe (h : n.Guarded) : n.CrashSafe := by
  intro u row hrow _ hlive hcancel
  obtain ⟨i, d, hd, hu, hasset⟩ := h.store.request u row hrow
  rcases h.published i d hd with hopen | hsent | ⟨u', hu', hcancel' | ⟨row', hrow', hlate⟩⟩
  · exact Or.inr ⟨i, d, hd, hu, hopen⟩
  · exact Or.inl ⟨d.cmdId, hu, hasset ▸ hsent⟩
  · cases hu.symm.trans hu'
    exact absurd hcancel' hcancel
  · cases hu.symm.trans hu'
    cases hrow.symm.trans hrow'
    exact absurd hlate hlive

end Node

/-- As long as a dispatch request is published only when its envelope has been sent,
or its command is cancelled or expired, no crash loses a command. -/
theorem crash_safe_of_publishing_sent {mode : Mode} {n : Node}
    (hrun : Node.Runs mode Node.PublishesCleared Node.start n) : n.CrashSafe := by
  have hguarded : n.Guarded := by
    refine Node.run_invariant Node.Guarded ?_ .start hrun
    intro s t e hs hmay he
    exact hs.step he hmay
  exact hguarded.crashSafe

/-- `MarkPublished` fails until the command is sent; after 30 seconds the row is
fetched again and published.  Then the connector crashes. -/
theorem crash_safe_with_late_publishing :
    ∃ n, Node.Runs .stored Node.PublishesCleared Node.start n ∧ n.box.log.submitted = [] ∧
      (n.store.outbox.map OutboxEntry.published) = [true] ∧ n.CrashSafe := by
  obtain ⟨n, hrun, hempty, hpublished⟩ := Node.run_of_events .stored Node.PublishesCleared
    [.submitCommand sampleCommand 300000 .done, .fetch [0] 1 .done, .dispatch,
      .transitionDispatching .done, .markPublished .failed, .connect 0 "node-1",
      .nextDispatch 0, .send 0 true, .fetch [0] 30002 .done, .dispatch, .markPublished .done,
      .crash]
    (fun n => n.box.log.submitted = [] ∧ (n.store.outbox.map OutboxEntry.published) = [true])
    (permitted_of_decide (by decide +kernel)) (by decide +kernel)
  exact ⟨n, hrun, hempty, hpublished, crash_safe_of_publishing_sent hrun⟩

/-- The row is published, then the connector crashes before the agent connects. -/
theorem command_lost_by_crash :
    ∃ n, Node.Runs .stored Node.Always Node.start n ∧ ¬ n.CrashSafe := by
  obtain ⟨n, hrun, hsent, hpublished, ⟨row, hrow, hstatus, hlive⟩, hcancel⟩ :=
    Node.run_of_events .stored Node.Always
      [.submitCommand sampleCommand 300000 .done, .fetch [0] 1 .done, .dispatch,
        .transitionDispatching .done, .markPublished .done, .crash]
      (fun n => n.sent = [] ∧ (n.store.outbox.map OutboxEntry.published) = [true] ∧
        (∃ row ∈ n.store.commands.lookup sampleUuid,
          ¬ Terminal row.status ∧ ¬ row.expiresAt < n.clock) ∧
        ¬ n.store.CancelRequested sampleUuid)
      (permitted_of_forall (fun _ _ _ => trivial) _) (by decide +kernel)
  refine ⟨n, hrun, fun hsafe => ?_⟩
  rcases hsafe _ row hrow hstatus hlive hcancel with ⟨cmdId, -, hmem⟩ | ⟨i, d, -, -, e, he, hopen⟩
  · rw [hsent] at hmem
    cases hmem
  · have hmem : e.published ∈ n.store.outbox.map OutboxEntry.published :=
      List.mem_map_of_mem (List.mem_of_getElem? he)
    rw [hpublished, hopen] at hmem
    simp at hmem

end TomAgent.Connector
