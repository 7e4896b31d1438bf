import TomAgent.Connector.Node
import TomAgent.Core.Table

/-!
# What a broken control stream loses

`NextDispatch` marks a whole batch as dispatched before its first frame is written.
A loop whose send fails returns with the rest of the batch in its hands, and nobody
else has it.
-/

namespace TomAgent.Connector

open Platform Execution

namespace Node

/-! ## Commands and cancels in hand -/

def InHand (n : Node) (assetId cmdId : String) : Prop :=
  Table.Holds n.streams fun st => st.assetId = assetId ∧ cmdId ∈ st.cmds.map MailboxCommand.cmdId

def CancelInHand (n : Node) (assetId cmdId : String) : Prop :=
  Table.Holds n.streams fun st => st.assetId = assetId ∧ cmdId ∈ st.cancels

def Settled (n : Node) (cmdId : String) : Prop :=
  cmdId ∈ n.cancelled ∨ ∃ c ∈ n.mailbox.byID.lookup cmdId,
    c.expiresAt < n.clock ∨ c.state = .terminal ∨ c.state = .expired

instance (n : Node) (assetId cmdId : String) : Decidable (n.InHand assetId cmdId) := by
  unfold InHand; infer_instance

instance (n : Node) (assetId cmdId : String) : Decidable (n.CancelInHand assetId cmdId) := by
  unfold CancelInHand; infer_instance

instance (n : Node) (cmdId : String) : Decidable (n.Settled cmdId) := by
  unfold Settled; infer_instance

/-- The command has been sent, is about to be sent, will be returned again, or needs
no sending. -/
def CommandKept (n : Node) (assetId cmdId : String) : Prop :=
  (assetId, cmdId) ∈ n.sent ∨ n.InHand assetId cmdId ∨ n.mailbox.Queued cmdId ∨ n.Settled cmdId

def CancelKept (n : Node) (assetId cmdId : String) : Prop :=
  (assetId, cmdId) ∈ n.sentCancels ∨ n.CancelInHand assetId cmdId ∨
    cmdId ∈ n.mailbox.cancels assetId

instance (n : Node) (assetId cmdId : String) : Decidable (n.CommandKept assetId cmdId) := by
  unfold CommandKept; infer_instance

structure NothingLost (n : Node) : Prop where
  commands : ∀ h ∈ n.box.log.handouts, n.CommandKept h.assetId h.cmdId
  cancels : ∀ p ∈ n.takenCancels, n.CancelKept p.1 p.2

/-- Nothing in the hands of the loop depends on its stream. -/
def EndsClean (n : Node) (session : Nat) : Prop :=
  ∀ st ∈ n.streams.lookup session,
    (∀ c ∈ st.cmds, (st.assetId, c.cmdId) ∈ n.sent ∨ n.Settled c.cmdId) ∧
      ∀ id ∈ st.cancels, (st.assetId, id) ∈ n.sentCancels ∨ id ∈ n.mailbox.cancels st.assetId

instance (n : Node) (session : Nat) : Decidable (n.EndsClean session) := by
  unfold EndsClean; infer_instance

def BreaksClean (n : Node) : Event → Prop
  | .send session false | .sendCancel session false => n.EndsClean session
  | _ => True

instance (n : Node) (e : Event) : Decidable (n.BreaksClean e) := by
  unfold BreaksClean; split <;> infer_instance

variable {mode : Mode} {n t : Node} {e : Event}

/-! ## One step -/

theorem Settled.step {cmdId : String} (h : n.Settled cmdId) (he : Effect mode n e t)
    (hcrash : e ≠ .crash) (hn : n.box.Disciplined) : t.Settled cmdId := by
  rcases h with h | ⟨c, hc, hstate⟩
  · exact Or.inl (he.cancelled_subset hcrash h)
  · obtain ⟨c', hc', hages⟩ := he.record hcrash hn hc
    refine Or.inr ⟨c', hc', ?_⟩
    rcases hstate with hlate | hdone
    · have hclock := he.clock_le
      have hexpires := hages.expiresAt
      exact Or.inl (by omega)
    · have hstage := hages.stage
      have htwo := c'.state.stage_le_two
      rw [CommandState.stage_eq_two.mpr hdone] at hstage
      exact Or.inr (CommandState.stage_eq_two.mp (by omega))

def Placed (n : Node) (assetId cmdId : String) : Prop :=
  (assetId, cmdId) ∈ n.sent ∨ n.InHand assetId cmdId ∨ n.Settled cmdId

/-- A loop that ends has nothing in its hands, or its send has failed. -/
theorem BreaksClean.ended (hmay : n.BreaksClean e) {session : Nat} {old : ControlStream}
    (hold : n.streams.lookup session = some old)
    (hrest : old.cmds = [] ∧ old.cancels = [] ∨
      e = .send session false ∨ e = .sendCancel session false) :
    (∀ c ∈ old.cmds, (old.assetId, c.cmdId) ∈ n.sent ∨ n.Settled c.cmdId) ∧
      ∀ id ∈ old.cancels, (old.assetId, id) ∈ n.sentCancels ∨
        id ∈ n.mailbox.cancels old.assetId := by
  rcases hrest with ⟨hcmds, hcancels⟩ | hfails
  · rw [hcmds, hcancels]
    exact ⟨nofun, nofun⟩
  · have hclean : n.EndsClean session := by
      rcases hfails with rfl | rfl
      · exact hmay
      · exact hmay
    exact hclean old hold

theorem InHand.step {assetId cmdId : String} (h : n.InHand assetId cmdId)
    (he : Effect mode n e t) (hmay : n.BreaksClean e) (hcrash : e ≠ .crash)
    (hn : n.box.Disciplined) : t.Placed assetId cmdId := by
  cases he.streams hcrash with
  | none heq =>
      rw [Placed, InHand, heq]
      exact Or.inr (Or.inl h)
  | opened session other hfree heq =>
      rcases h.insert session ⟨other, [], none, []⟩ with hhand | ⟨old, hold, -⟩
      · rw [Placed, InHand, heq]
        exact Or.inr (Or.inl hhand)
      · rw [hfree] at hold
        cases hold
  | moved session old new hold heq hasset hcmds _ _ =>
      rcases h.insert session new with hhand | ⟨old', hold', rfl, hmem⟩
      · rw [Placed, InHand, heq]
        exact Or.inr (Or.inl hhand)
      · cases hold.symm.trans hold'
        obtain ⟨c, hc, rfl⟩ := List.mem_map.mp hmem
        rcases hcmds c hc with hkept | hsent
        · rw [Placed, InHand, heq]
          exact Or.inr (Or.inl (Table.holds_insert ⟨hasset, List.mem_map_of_mem hkept⟩))
        · exact Or.inl hsent
  | ended session old hold heq hrest =>
      rcases h.erase session with hhand | ⟨old', hold', rfl, hmem⟩
      · rw [Placed, InHand, heq]
        exact Or.inr (Or.inl hhand)
      · cases hold.symm.trans hold'
        obtain ⟨c, hc, rfl⟩ := List.mem_map.mp hmem
        rcases (hmay.ended hold hrest).1 c hc with hsent | hsettled
        · exact Or.inl (he.sent_subset hsent)
        · exact Or.inr (Or.inr (hsettled.step he hcrash hn))

theorem Placed.step {assetId cmdId : String} (h : n.Placed assetId cmdId)
    (he : Effect mode n e t) (hmay : n.BreaksClean e) (hcrash : e ≠ .crash)
    (hn : n.box.Disciplined) : t.Placed assetId cmdId := by
  rcases h with hsent | hhand | hsettled
  · exact Or.inl (he.sent_subset hsent)
  · exact hhand.step he hmay hcrash hn
  · exact Or.inr (Or.inr (hsettled.step he hcrash hn))

/-- What `NextDispatch` has just returned is in the hands of the loop. -/
theorem Effect.taken (he : Effect mode n e t) (hcrash : e ≠ .crash) :
    (∀ h ∈ t.box.log.handouts, h ∈ n.box.log.handouts ∨ t.InHand h.assetId h.cmdId) ∧
      ∀ p ∈ t.takenCancels, p ∈ n.takenCancels ∨ t.CancelInHand p.1 p.2 := by
  by_cases hnext : ∃ session, e = .nextDispatch session
  · obtain ⟨session, rfl⟩ := hnext
    cases he with
    | @nextDispatch session assetId hst =>
        constructor
        · intro h hout
          rcases List.mem_append.mp hout with hold | hnew
          · exact Or.inl hold
          · obtain ⟨c, hc, rfl⟩ := List.mem_map.mp hnew
            exact Or.inr (Table.holds_insert ⟨rfl, List.mem_map_of_mem hc⟩)
        · intro p hp
          rcases List.mem_append.mp hp with hold | hnew
          · exact Or.inl hold
          · obtain ⟨id, hid, rfl⟩ := List.mem_map.mp hnew
            exact Or.inr (Table.holds_insert ⟨rfl, hid⟩)
  · have hother : ∀ session, e ≠ .nextDispatch session := fun session heq => hnext ⟨session, heq⟩
    constructor
    · intro h hout
      rw [(he.untaken hcrash hother).1] at hout
      exact Or.inl hout
    · intro p hp
      cases he with
      | nextDispatch => exact absurd rfl (hother _)
      | crash => exact absurd rfl hcrash
      | _ => exact Or.inl hp

theorem pending_step {assetId cmdId : String} (h : cmdId ∈ n.mailbox.cancels assetId)
    (he : Effect mode n e t) (hcrash : e ≠ .crash) : t.CancelKept assetId cmdId := by
  by_cases hnext : ∃ session, e = .nextDispatch session
  · obtain ⟨session, rfl⟩ := hnext
    cases he with
    | @nextDispatch session other hst =>
        by_cases heq : other = assetId
        · subst heq
          exact Or.inr (Or.inl (Table.holds_insert ⟨rfl, h⟩))
        · refine Or.inr (Or.inr ?_)
          simp only [mailbox, MailboxRun.step, Mailbox.cancels_nextDispatch]
          rw [if_neg (Ne.symm heq)]
          exact h
  · have hother : ∀ session, e ≠ .nextDispatch session := fun session heq => hnext ⟨session, heq⟩
    exact Or.inr (Or.inr ((he.untaken hcrash hother).2 assetId h))

theorem CancelInHand.step {assetId cmdId : String} (h : n.CancelInHand assetId cmdId)
    (he : Effect mode n e t) (hmay : n.BreaksClean e) (hcrash : e ≠ .crash) :
    t.CancelKept assetId cmdId := by
  cases he.streams hcrash with
  | none heq =>
      rw [CancelKept, CancelInHand, heq]
      exact Or.inr (Or.inl h)
  | opened session other hfree heq =>
      rcases h.insert session ⟨other, [], none, []⟩ with hhand | ⟨old, hold, -⟩
      · rw [CancelKept, CancelInHand, heq]
        exact Or.inr (Or.inl hhand)
      · rw [hfree] at hold
        cases hold
  | moved session old new hold heq hasset _ hcancels _ =>
      rcases h.insert session new with hhand | ⟨old', hold', rfl, hmem⟩
      · rw [CancelKept, CancelInHand, heq]
        exact Or.inr (Or.inl hhand)
      · cases hold.symm.trans hold'
        rcases hcancels cmdId hmem with hkept | hsent
        · rw [CancelKept, CancelInHand, heq]
          exact Or.inr (Or.inl (Table.holds_insert ⟨hasset, hkept⟩))
        · exact Or.inl hsent
  | ended session old hold heq hrest =>
      rcases h.erase session with hhand | ⟨old', hold', rfl, hmem⟩
      · rw [CancelKept, CancelInHand, heq]
        exact Or.inr (Or.inl hhand)
      · cases hold.symm.trans hold'
        rcases (hmay.ended hold hrest).2 cmdId hmem with hsent | hpending
        · exact Or.inl (he.sentCancels_subset hsent)
        · exact pending_step hpending he hcrash

theorem CancelKept.step {assetId cmdId : String} (h : n.CancelKept assetId cmdId)
    (he : Effect mode n e t) (hmay : n.BreaksClean e) (hcrash : e ≠ .crash) :
    t.CancelKept assetId cmdId := by
  rcases h with hsent | hhand | hpending
  · exact Or.inl (he.sentCancels_subset hsent)
  · exact hhand.step he hmay hcrash
  · exact pending_step hpending he hcrash

/-! ## Every run -/

/-- `NothingLost`, without the disjunct that no dispatched command meets. -/
structure Kept (n : Node) : Prop where
  box : n.box.Disciplined
  commands : ∀ h ∈ n.box.log.handouts, n.Placed h.assetId h.cmdId
  cancels : ∀ p ∈ n.takenCancels, n.CancelKept p.1 p.2

theorem Kept.step (h : n.Kept) (he : Effect mode n e t) (hmay : n.BreaksClean e) : t.Kept := by
  have hbox := he.disciplined h.box
  by_cases hcrash : e = .crash
  · subst hcrash
    cases he
    exact ⟨hbox, nofun, nofun⟩
  · obtain ⟨hcmds, hcancels⟩ := he.taken hcrash
    refine ⟨hbox, ?_, ?_⟩
    · intro out hout
      rcases hcmds out hout with hold | hnew
      · exact (h.commands out hold).step he hmay hcrash h.box
      · exact Or.inr (Or.inl hnew)
    · intro p hp
      rcases hcancels p hp with hold | hnew
      · exact (h.cancels p hold).step he hmay hcrash
      · exact Or.inr (Or.inl hnew)

end Node

/-- As long as a send fails only in a loop with nothing in its hands that still
matters, every command and every cancel that `NextDispatch` has returned is sent,
about to be sent, or will be returned again. -/
theorem nothing_lost_of_clean_breaks {mode : Mode} {n : Node}
    (hrun : Node.Runs mode Node.BreaksClean Node.start n) : n.NothingLost := by
  have hkept : n.Kept := by
    refine Node.run_invariant Node.Kept ?_ ?_ hrun
    · intro s t e hs hmay he
      exact hs.step he hmay
    · exact ⟨.start 64 300000, nofun, nofun⟩
  refine ⟨?_, hkept.cancels⟩
  intro out hout
  rcases hkept.commands out hout with hsent | hhand | hsettled
  · exact Or.inl hsent
  · exact Or.inr (Or.inl hhand)
  · exact Or.inr (Or.inr (Or.inr hsettled))

/-- The command is cancelled after it was taken; its send fails, and the cancel waits
for the next stream. -/
theorem nothing_lost_after_cancel :
    ∃ n, Node.Runs .memory Node.BreaksClean Node.start n ∧ n.streams.lookup 0 = none ∧
      n.box.log.handouts.length = 1 ∧ n.NothingLost := by
  obtain ⟨n, hrun, htaken, hended⟩ := Node.run_of_events .memory Node.BreaksClean
    [.submit sampleCommand, .connect 0 "node-1", .nextDispatch 0,
      .cancel "node-1" sampleCommand.cmdId, .send 0 false]
    (fun n => n.box.log.handouts.length = 1 ∧ (n.streams.lookup 0).isNone)
    (permitted_of_decide (by decide +kernel)) (by decide +kernel)
  exact ⟨n, hrun, Option.isNone_iff_eq_none.mp hended, htaken, nothing_lost_of_clean_breaks hrun⟩

/-- Two commands are taken; the stream breaks at the second, which nobody sends or
returns again. -/
theorem command_lost_mid_batch :
    ∃ n, Node.Runs .memory Node.Always Node.start n ∧ ¬ n.NothingLost := by
  obtain ⟨n, hrun, out, hout, hlost⟩ := Node.run_of_events .memory Node.Always
    [.submit sampleCommand, .submit { sampleCommand with cmdId := "second" },
      .connect 0 "node-1", .nextDispatch 0, .send 0 true, .transitionDelivered 0 .done,
      .send 0 false]
    (fun n => ∃ h ∈ n.box.log.handouts, ¬ n.CommandKept h.assetId h.cmdId)
    (permitted_of_forall (fun _ _ _ => trivial) _) (by decide +kernel)
  exact ⟨n, hrun, fun h => hlost (h.commands out hout)⟩

end TomAgent.Connector
