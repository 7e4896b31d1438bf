import TomAgent.Uplink.Reports

/-!
# Sends to the channels of reliable calls

The reports send loop passes the error of a failed `Send` to the call's channel and
leaves the waiter registered, so that the next acknowledgement or `failAllWaiters`
sends to the same channel again, under `reportMu`.  If every failed `Send` is for a
call that has read its channel, a registered waiter's channel is always empty.
-/

namespace TomAgent.Uplink.Reports

open Handoff Execution

/-- `Send` fails only for an entry whose call has read its channel already. -/
def FailsAfterRead (s : Reports) : Event → Prop
  | .sendFails session => ∀ c ∈ s.reportOut.held session, Received s.phase c
  | _ => True

structure ClearInv (s : Reports) : Prop where
  exclusive : s.reportOut.Exclusive
  unborn : ∀ c, s.next ≤ c → s.phase c = .idle ∧ s.ch c = none
  queued : ∀ c, s.reportOut.Pending c → c < s.next ∧ s.phase c ≠ .registered
  known : ∀ w ∈ s.reportWait, w.call < s.next
  single : (s.reportWait.map ReportWaiter.call).Nodup
  waiters : ∀ w ∈ s.reportWait, s.ch w.call = none ∧ ¬ Received s.phase w.call
  read : ∀ c, s.reportOut.Pending c → Received s.phase c → s.ch c = none

theorem init_clearInv : init.ClearInv where
  exclusive := Queue.exclusive_empty
  unborn := fun _ _ => ⟨rfl, rfl⟩
  queued := fun c hc => (Queue.not_pending_empty c hc).elim
  known := fun w hw => by cases hw
  single := List.nodup_nil
  waiters := fun w hw => by cases hw
  read := fun c hc => (Queue.not_pending_empty c hc).elim

theorem ClearInv.sends_empty {s : Reports} (h : s.ClearInv) {e : Event}
    (hmay : s.FailsAfterRead e) : ∀ c ∈ s.sends e, s.ch c = none := by
  intro c hc
  have hwaiter : c ∈ s.reportWait.map ReportWaiter.call → s.ch c = none := by
    intro hmem
    obtain ⟨w, hw, rfl⟩ := List.mem_map.mp hmem
    exact (h.waiters w hw).1
  cases e with
  | sendFails session =>
      have hheld : s.reportOut.held session = some c := Option.mem_toList.mp hc
      exact h.read c (Or.inr ⟨session, hheld⟩) (hmay c hheld)
  | failAllWaiters => exact hwaiter hc
  | recvAck session =>
      simp only [sends] at hc
      split at hc
      next ack rest hacks =>
        obtain ⟨w, hw, rfl⟩ := List.mem_map.mp hc
        exact (h.waiters w (List.mem_of_mem_filter hw)).1
      next => cases hc
  | _ => cases hc

theorem ClearInv.phase {s : Reports} (h : s.ClearInv) {c : Nat} {p : Phase} (hc : c < s.next)
    (hread : ∀ v, p ≠ .returned (.received v)) (hreg : p ≠ .registered) {wait : List ReportWaiter}
    (hwait : wait.Sublist s.reportWait) :
    ClearInv { s with phase := Function.update s.phase c p, reportWait := wait } where
  exclusive := h.exclusive
  unborn := fun c' hc' => by
    have hne : c' ≠ c := fun heq => by
      have hle : s.next ≤ c := heq ▸ hc'
      omega
    exact ⟨by simpa [hne] using (h.unborn c' hc').1, (h.unborn c' hc').2⟩
  queued := fun c' hc' => ⟨(h.queued c' hc').1, fun heq =>
    (h.queued c' hc').2 (registered_of_phase hreg heq)⟩
  known := fun w hw => h.known w (hwait.subset hw)
  single := h.single.sublist (hwait.map _)
  waiters := fun w hw =>
    ⟨(h.waiters w (hwait.subset hw)).1, fun hrec =>
      (h.waiters w (hwait.subset hw)).2 (received_of_phase hread hrec)⟩
  read := fun c' hc' hrec => h.read c' hc' (received_of_phase hread hrec)

theorem ClearInv.lt_next {s : Reports} (h : s.ClearInv) {c : Nat} (hc : s.phase c ≠ .idle) :
    c < s.next := by
  apply Nat.lt_of_not_le
  intro hle
  exact hc (h.unborn c hle).1

theorem ClearInv.register {s t : Reports} (h : s.ClearInv) {b : ReliableBatch}
    (ht : s.Performs (.register b) t) : t.ClearInv := by
  cases ht
  have hread : ∀ c, Received (Function.update s.phase s.next .registered) c →
      Received s.phase c := fun c => received_of_phase (by simp)
  have hnew := h.unborn s.next (Nat.le_refl _)
  constructor
  case exclusive => exact h.exclusive
  case unborn =>
    intro c hc
    have hlt : s.next < c := hc
    simpa [Nat.ne_of_gt hlt] using h.unborn c (Nat.le_of_lt hlt)
  case queued =>
    intro c hc
    have hlt := (h.queued c hc).1
    exact ⟨Nat.lt_succ_of_lt hlt, by simpa [Nat.ne_of_lt hlt] using (h.queued c hc).2⟩
  case known =>
    intro w hw
    cases List.mem_append.mp hw with
    | inl hw => exact Nat.lt_succ_of_lt (h.known w hw)
    | inr hw =>
        rw [List.mem_singleton.mp hw]
        exact Nat.lt_succ_self _
  case single =>
    rw [List.map_append, List.nodup_append]
    refine ⟨h.single, List.nodup_singleton _, ?_⟩
    intro c hc c' hc' heq
    obtain ⟨w, hw, rfl⟩ := List.mem_map.mp hc
    have hlt := h.known w hw
    rw [heq, List.mem_singleton.mp hc'] at hlt
    exact Nat.lt_irrefl _ hlt
  case waiters =>
    intro w hw
    cases List.mem_append.mp hw with
    | inl hw => exact ⟨(h.waiters w hw).1, fun hrec => (h.waiters w hw).2 (hread _ hrec)⟩
    | inr hw =>
        rw [List.mem_singleton.mp hw]
        refine ⟨hnew.2, fun hrec => ?_⟩
        obtain ⟨v, hv⟩ := hread _ hrec
        rw [hnew.1] at hv
        cases hv
  case read => exact fun c hc hrec => h.read c hc (hread c hrec)

theorem ClearInv.enqueue {s t : Reports} (h : s.ClearInv) {c : Nat}
    (ht : s.Performs (.enqueue c) t) : t.ClearInv := by
  cases ht with
  | enqueue hreg hroom =>
      have hmoved := h.phase (c := c) (p := .waiting) (h.lt_next (by simp [hreg])) (by simp) (by simp)
        (List.Sublist.refl _)
      have hfresh : ¬ s.reportOut.Pending c := fun hc => (h.queued c hc).2 hreg
      refine { hmoved with exclusive := h.exclusive.push hfresh, queued := ?_, read := ?_ }
      · intro c' hc'
        cases Queue.pending_push hc' with
        | inl hnew =>
            subst hnew
            exact ⟨h.lt_next (by simp [hreg]), by simp⟩
        | inr hold => exact hmoved.queued c' hold
      · intro c' hc' hrec
        cases Queue.pending_push hc' with
        | inl hnew =>
            obtain ⟨v, hv⟩ := hrec
            simp [hnew] at hv
        | inr hold => exact hmoved.read c' hold hrec

theorem ClearInv.sendFails {s t : Reports} (h : s.ClearInv) {session : Nat}
    (hmay : s.FailsAfterRead (.sendFails session)) (ht : s.Performs (.sendFails session) t) :
    t.ClearInv := by
  cases ht with
  | @sendFails _ c hheld =>
      have hrec : Received s.phase c := hmay c hheld
      have hother : ∀ {c'}, c' ≠ c → s.ch.fill [c] .error c' = s.ch c' := fun hne =>
        Slots.fill_of_not_mem (by simpa using hne)
      refine { h with exclusive := h.exclusive.release session, unborn := ?_, queued := ?_,
                      waiters := ?_, read := ?_ }
      · intro c' hc'
        have hle : s.next ≤ c' := hc'
        have hlt := (h.queued c (Or.inr ⟨session, hheld⟩)).1
        have hne : c' ≠ c := by omega
        exact ⟨(h.unborn c' hc').1, (hother hne).trans (h.unborn c' hc').2⟩
      · exact fun c' hc' => h.queued c' (Queue.pending_release hc')
      · -- The waiter of a call that has read its channel is gone.
        intro w hw
        have hne : w.call ≠ c := fun heq => (h.waiters w hw).2 (heq ▸ hrec)
        exact ⟨(hother hne).trans (h.waiters w hw).1, (h.waiters w hw).2⟩
      · intro c' hc' hrec'
        have hne : c' ≠ c := fun heq => h.exclusive.not_pending_release hheld (heq ▸ hc')
        exact (hother hne).trans (h.read c' (Queue.pending_release hc') hrec')

/-- Completing some waiters and dropping them; the others keep their calls. -/
theorem ClearInv.complete {s : Reports} (h : s.ClearInv) {done rest : List ReportWaiter}
    {acks : Nat → List ReportAck} (v : Completion) (hdone : ∀ w ∈ done, w ∈ s.reportWait)
    (hrest : ∀ w ∈ rest, ∃ w' ∈ s.reportWait, w' ∉ done ∧ w'.call = w.call)
    (hsingle : (rest.map ReportWaiter.call).Nodup) :
    ClearInv { s with
      acks := acks
      ch := s.ch.fill (done.map ReportWaiter.call) v
      reportWait := rest } := by
  have hother : ∀ {c}, (∀ w ∈ done, w.call ≠ c) →
      s.ch.fill (done.map ReportWaiter.call) v c = s.ch c := by
    intro c hc
    apply Slots.fill_of_not_mem
    intro hmem
    obtain ⟨w, hw, hcall⟩ := List.mem_map.mp hmem
    exact hc w hw hcall
  refine { h with unborn := ?_, known := ?_, single := hsingle, waiters := ?_, read := ?_ }
  · intro c hc
    have hle : s.next ≤ c := hc
    refine ⟨(h.unborn c hc).1, (hother fun w hw heq => ?_).trans (h.unborn c hc).2⟩
    have hlt := h.known w (hdone w hw)
    omega
  · intro w hw
    obtain ⟨w', hw', -, hcall⟩ := hrest w hw
    rw [← hcall]
    exact h.known w' hw'
  · intro w hw
    obtain ⟨w', hw', hleft, hcall⟩ := hrest w hw
    rw [← hcall]
    -- Two waiters of one call would be the same waiter.
    have hapart : ∀ w₂ ∈ done, w₂.call ≠ w'.call := by
      intro w₂ hw₂ heq
      have hsame := List.inj_on_of_nodup_map h.single (hdone w₂ hw₂) hw' heq
      exact hleft (hsame ▸ hw₂)
    exact ⟨(hother hapart).trans (h.waiters w' hw').1, (h.waiters w' hw').2⟩
  · intro c hc hrec
    have hapart : ∀ w ∈ done, w.call ≠ c := fun w hw heq =>
      (h.waiters w (hdone w hw)).2 (heq ▸ hrec)
    exact (hother hapart).trans (h.read c hc hrec)

theorem ClearInv.recvAck {s t : Reports} (h : s.ClearInv) {session : Nat}
    (ht : s.Performs (.recvAck session) t) : t.ClearInv := by
  cases ht with
  | @recvAck _ ack rest hacks =>
      have hcalls : (s.reportWait.filter (¬ ·.Done ack)).map (ReportWaiter.call ∘ (·.credit ack)) =
          (s.reportWait.filter (¬ ·.Done ack)).map ReportWaiter.call :=
        List.map_congr_left fun w _ => w.credit_call ack
      apply h.complete .ok
      · exact fun w hw => List.mem_of_mem_filter hw
      · intro w hw
        obtain ⟨w', hw', rfl⟩ := List.mem_map.mp hw
        have hmem := List.mem_filter.mp hw'
        refine ⟨w', hmem.1, fun hdone => ?_, (w'.credit_call ack).symm⟩
        exact of_decide_eq_true hmem.2 (of_decide_eq_true (List.mem_filter.mp hdone).2)
      · rw [List.map_map, hcalls]
        exact h.single.sublist (List.Sublist.map _ List.filter_sublist)

theorem ClearInv.receive {s t : Reports} (h : s.ClearInv) {c : Nat}
    (ht : s.Performs (.receive c) t) : t.ClearInv := by
  cases ht with
  | @receive _ v hphase hch =>
      have hc : c < s.next := h.lt_next (by simp [hphase])
      have hread : ∀ {c'}, c' ≠ c → Received (Function.update s.phase c
          (.returned (.received v))) c' → Received s.phase c' := by
        intro c' hne hrec
        obtain ⟨v', hv'⟩ := hrec
        exact ⟨v', by rwa [Function.update_of_ne hne] at hv'⟩
      refine { h with unborn := ?_, queued := ?_, waiters := ?_, read := ?_ }
      · intro c' hc'
        have hne : c' ≠ c := fun heq => by
          have hle : s.next ≤ c' := hc'
          omega
        simpa [hne] using h.unborn c' hc'
      · exact fun c' hc' => ⟨(h.queued c' hc').1, fun heq =>
          (h.queued c' hc').2 (registered_of_phase (by simp) heq)⟩
      · intro w hw
        have hne : w.call ≠ c := fun heq => by
          have hempty := (h.waiters w hw).1
          rw [heq, hch] at hempty
          cases hempty
        exact ⟨by simpa [hne] using (h.waiters w hw).1, fun hrec =>
          (h.waiters w hw).2 (hread hne hrec)⟩
      · intro c' hc' hrec
        by_cases hne : c' = c
        · simp [hne]
        · simpa [hne] using h.read c' hc' (hread hne hrec)

theorem ClearInv.step {s t : Reports} (h : s.ClearInv) {e : Event} (hmay : s.FailsAfterRead e)
    (he : s.step e = some t) : t.ClearInv := by
  have ht := performs_of_step he
  cases performs_of_step he with
  | register => exact h.register ht
  | enqueue => exact h.enqueue ht
  | sendFails => exact h.sendFails hmay ht
  | recvAck => exact h.recvAck ht
  | receive => exact h.receive ht
  | queueFull hreg =>
      exact h.phase (h.lt_next (by simp [hreg])) (by simp) (by simp) List.filter_sublist
  | giveUp hwait =>
      exact h.phase (h.lt_next (by simp [hwait])) (by simp) (by simp) (List.Sublist.refl _)
  | take hrunning htake =>
      exact { h with
        exclusive := h.exclusive.take htake
        queued := fun c' hc' => h.queued c' (Queue.pending_take htake hc')
        read := fun c' hc' => h.read c' (Queue.pending_take htake hc') }
  | @sent session c hheld =>
      exact { h with
        exclusive := h.exclusive.release session
        queued := fun c' hc' => h.queued c' (Queue.pending_release hc')
        read := fun c' hc' => h.read c' (Queue.pending_release hc') }
  | accepted => exact { h with }
  | refused => exact { h with }
  | failAllWaiters =>
      exact h.complete .error (fun _ => id) (fun w hw => by cases hw) List.nodup_nil
  | lose => exact { h with }

end TomAgent.Uplink.Reports
