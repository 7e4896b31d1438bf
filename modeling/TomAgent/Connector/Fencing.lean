import TomAgent.Connector.Mailbox
import TomAgent.Connector.Session
import TomAgent.Core.Handoff

/-!
# Control loops and their fences

Any number of control loops over one registry and one mailbox.  A loop looks at its
fence, then asks the mailbox for a batch, then sends the batch: three steps, and a new
connection of the same asset may come between any two of them.  The database, which
only records what was delivered, plays no part here.
-/

namespace TomAgent.Connector

open Platform Execution

inductive LoopPhase where
  /-- Registered; the welcome frame comes next. -/
  | welcoming
  /-- At the `select`. -/
  | checking
  /-- Past the `select`; `NextDispatch` comes next. -/
  | taking
  /-- What is left of the batch; the commands go first. -/
  | sending (cmds : List MailboxCommand) (cancels : List String)
  /-- Nothing was due. -/
  | waiting
  /-- The handler has returned; the deferred `Unregister` comes next. -/
  | leaving

/-- Between its look at the fence and the last command of the batch. -/
def LoopPhase.dispatching : LoopPhase → Bool
  | .taking => true
  | .sending (_ :: _) _ => true
  | _ => false

def LoopPhase.next : List MailboxCommand → List String → LoopPhase
  | [], [] => .checking
  | cmds, cancels => .sending cmds cancels

theorem LoopPhase.next_not_dispatching (cancels : List String) :
    ¬ (LoopPhase.next [] cancels).dispatching = true := by
  cases cancels with
  | nil => exact Bool.false_ne_true
  | cons id rest => exact Bool.false_ne_true

/-- After `NextDispatch`: without anything to send the loop waits. -/
def LoopPhase.after : List MailboxCommand → List String → LoopPhase
  | [], [] => .waiting
  | cmds, cancels => .sending cmds cancels

structure SessionLoop where
  assetId : String
  phase : LoopPhase

structure ControlPlane where
  run : RegistryRun
  mailbox : Mailbox
  /-- The handlers that have registered, by session. -/
  loops : Nat → Option SessionLoop
  /-- Session and id of every command that `NextDispatch` returned. -/
  taken : List (Nat × String)
  /-- Session and id of every command envelope sent. -/
  sent : List (Nat × String)

namespace ControlPlane

def start : ControlPlane := ⟨.start, .new 64 300000, fun _ => none, [], []⟩

abbrev registry (n : ControlPlane) : SessionRegistry := n.run.registry

def Current (n : ControlPlane) (p : Nat) : Prop :=
  ∃ s, n.registry.sessions[p]? = some s ∧ n.registry.byAsset.lookup s.assetId = some p

def takenBy (n : ControlPlane) (p : Nat) : List (Nat × String) := n.taken.filter fun t => t.1 = p

def sentBy (n : ControlPlane) (p : Nat) : List (Nat × String) := n.sent.filter fun t => t.1 = p

inductive Event where
  | connect (a : RegisterArgs)
  | welcome (p : Nat) (ok : Bool)
  /-- No case of the `select` is ready. -/
  | pass (p : Nat)
  /-- The case of the closed fence. -/
  | fenced (p : Nat)
  /-- The stream is done or its receiver has failed. -/
  | ended (p : Nat)
  | nextDispatch (p : Nat) (now : Int)
  | send (p : Nat) (ok : Bool)
  | wake (p : Nat)
  | unregister (p : Nat)
  | heartbeat (p : Nat) (now : Int)
  | submit (d : Dispatch) (now : Int)
  | cancel (assetId cmdId : String)
  | complete (cmdId : String) (result : Payload)

def setPhase (n : ControlPlane) (p : Nat) (assetId : String) (phase : LoopPhase) : ControlPlane :=
  { n with loops := Function.update n.loops p (some ⟨assetId, phase⟩) }

def fenceClosed (n : ControlPlane) (p : Nat) : Bool :=
  (n.registry.sessions[p]?).any fun s => s.fenceClosed

def loopStep (n : ControlPlane) : Event → Option ControlPlane
  | .welcome p ok =>
      match n.loops p with
      | some ⟨assetId, .welcoming⟩ =>
          some (n.setPhase p assetId (if ok then .checking else .leaving))
      | _ => none
  | .pass p =>
      match n.loops p with
      | some ⟨assetId, .checking⟩ =>
          if n.fenceClosed p then none else some (n.setPhase p assetId .taking)
      | _ => none
  | .fenced p =>
      match n.loops p with
      | some ⟨assetId, .checking⟩ =>
          if n.fenceClosed p then some (n.setPhase p assetId .leaving) else none
      | _ => none
  | .ended p =>
      match n.loops p with
      | some ⟨assetId, .checking⟩ => some (n.setPhase p assetId .leaving)
      | _ => none
  | .nextDispatch p now =>
      match n.loops p with
      | some ⟨assetId, .taking⟩ =>
          let r := n.mailbox.nextDispatch assetId now
          some ({ n with
            mailbox := r.1
            taken := n.taken ++ r.2.1.map fun c : MailboxCommand => (p, c.cmdId) }.setPhase p assetId
              (.after r.2.1 r.2.2))
      | _ => none
  | .send p ok =>
      match n.loops p with
      | some ⟨assetId, .sending (c :: cmds) cancels⟩ =>
          if ok then some ({ n with sent := n.sent ++ [(p, c.cmdId)] }.setPhase p assetId
            (.next cmds cancels))
          else some (n.setPhase p assetId .leaving)
      | some ⟨assetId, .sending [] (_ :: cancels)⟩ =>
          some (n.setPhase p assetId (if ok then .next [] cancels else .leaving))
      | _ => none
  | .wake p =>
      match n.loops p with
      | some ⟨assetId, .waiting⟩ => some (n.setPhase p assetId .checking)
      | _ => none
  | _ => none

def step (n : ControlPlane) : Event → Option ControlPlane
  | .connect a => (n.run.step (.register a)).map fun run =>
      { n with run := run }.setPhase n.registry.sessions.length a.assetId .welcoming
  | .unregister p =>
      match n.loops p with
      | some ⟨_, .leaving⟩ => (n.run.step (.unregister p)).map fun run =>
          { n with run := run, loops := Function.update n.loops p none }
      | _ => none
  | .heartbeat p now =>
      (n.registry.sessions[p]?).bind fun s =>
        (n.run.step (.touch s.assetId s.epoch now)).map fun run => { n with run := run }
  | .submit d now =>
      match n.mailbox.submit d now with
      | .ok m => some { n with mailbox := m }
      | .error _ => some n
  | .cancel assetId cmdId =>
      match n.mailbox.cancel assetId cmdId with
      | .ok (_, m) => some { n with mailbox := m }
      | .error _ => some n
  | .complete cmdId result => some { n with mailbox := n.mailbox.complete cmdId result }
  | e => n.loopStep e

/-! ## What a step can do -/

/-- The outcomes of a step.  Only `taking` and `sending` loops take and send. -/
inductive Performs (n : ControlPlane) : Event → ControlPlane → Prop
  | connected {a : RegisterArgs} {run : RegistryRun} (hrun : n.run.step (.register a) = some run) :
      Performs n (.connect a) ({ n with run := run }.setPhase n.registry.sessions.length a.assetId .welcoming)
  | moved {e : Event} {p : Nat} {assetId : String} {phase phase' : LoopPhase}
      (hloop : n.loops p = some ⟨assetId, phase⟩)
      (hphase : phase'.dispatching = true → phase.dispatching = true) :
      Performs n e (n.setPhase p assetId phase')
  | passed {e : Event} {p : Nat} {assetId : String} (hloop : n.loops p = some ⟨assetId, .checking⟩)
      (hfence : n.fenceClosed p = false) : Performs n e (n.setPhase p assetId .taking)
  | took {e : Event} {p : Nat} {assetId : String} {m : Mailbox} {cmds : List MailboxCommand}
      {phase : LoopPhase} (hloop : n.loops p = some ⟨assetId, .taking⟩) :
      Performs n e ({ n with
        mailbox := m
        taken := n.taken ++ cmds.map fun c : MailboxCommand => (p, c.cmdId) }.setPhase p assetId phase)
  | sentOne {e : Event} {p : Nat} {assetId : String} {c : MailboxCommand} {cmds : List MailboxCommand}
      {cancels : List String} (hloop : n.loops p = some ⟨assetId, .sending (c :: cmds) cancels⟩)
      {phase : LoopPhase} :
      Performs n e ({ n with sent := n.sent ++ [(p, c.cmdId)] }.setPhase p assetId phase)
  | unregistered {e : Event} {p : Nat} {assetId : String} {run : RegistryRun}
      (hloop : n.loops p = some ⟨assetId, .leaving⟩)
      (hrun : n.run.step (.unregister p) = some run) :
      Performs n e { n with run := run, loops := Function.update n.loops p none }
  | touched {e : Event} {assetId : String} {epoch : UInt64} {now : Int} {run : RegistryRun}
      (hrun : n.run.step (.touch assetId epoch now) = some run) : Performs n e { n with run := run }
  | mailbox {e : Event} (m : Mailbox) : Performs n e { n with mailbox := m }

theorem performs_of_loopStep {n n' : ControlPlane} {e : Event} (he : n.loopStep e = some n') :
    n.Performs e n' := by
  unfold loopStep at he
  split at he
  next p ok =>
    split at he
    next hloop =>
      cases he
      refine .moved hloop fun h => ?_
      cases ok <;> cases h
    next => cases he
  next p =>
    split at he
    next hloop =>
      split at he
      next => cases he
      next hfence =>
        cases he
        exact .passed hloop (by simpa using hfence)
    next => cases he
  next p =>
    split at he
    next hloop =>
      split at he
      next =>
        cases he
        exact .moved hloop fun h => nomatch h
      next => cases he
    next => cases he
  next p =>
    split at he
    next hloop =>
      cases he
      exact .moved hloop fun h => nomatch h
    next => cases he
  next p now =>
    split at he
    next hloop =>
      cases he
      exact .took hloop
    next => cases he
  next p ok =>
    split at he
    next hloop =>
      split at he
      next =>
        cases he
        exact .sentOne hloop
      next =>
        cases he
        exact .moved hloop fun h => nomatch h
    next hloop =>
      cases he
      refine .moved hloop fun h => ?_
      cases ok with
      | false => cases h
      | true => exact absurd h (LoopPhase.next_not_dispatching _)
    next => cases he
  next p =>
    split at he
    next hloop =>
      cases he
      exact .moved hloop fun h => nomatch h
    next => cases he
  next => cases he

theorem performs_of_step {n n' : ControlPlane} {e : Event} (he : n.step e = some n') :
    n.Performs e n' := by
  unfold step at he
  split at he
  next a =>
    obtain ⟨run, hrun, rfl⟩ := Option.map_eq_some_iff.mp he
    exact .connected hrun
  next p =>
    split at he
    next hloop =>
      obtain ⟨run, hrun, rfl⟩ := Option.map_eq_some_iff.mp he
      exact .unregistered hloop hrun
    next => cases he
  next p now =>
    obtain ⟨s, -, hs⟩ := Option.bind_eq_some_iff.mp he
    obtain ⟨run, hrun, rfl⟩ := Option.map_eq_some_iff.mp hs
    exact .touched hrun
  next d now =>
    split at he
    next m _ =>
      cases he
      exact .mailbox m
    next =>
      cases he
      exact .mailbox n.mailbox
  next assetId cmdId =>
    split at he
    next m _ =>
      cases he
      exact .mailbox m
    next =>
      cases he
      exact .mailbox n.mailbox
  next cmdId result =>
    cases he
    exact .mailbox _
  next => exact performs_of_loopStep he

/-! ## Runs without a replacement in the middle of a batch -/

def dispatching (n : ControlPlane) (assetId : String) : Bool :=
  (n.registry.byAsset.lookup assetId).any fun p =>
    (n.loops p).any fun loop => loop.phase.dispatching

def undisturbed (n : ControlPlane) : Event → Bool
  | .connect a => !n.dispatching a.assetId
  | _ => true

/-- A new connection does not replace a session whose loop is dispatching. -/
abbrev Undisturbed (n : ControlPlane) (e : Event) : Prop := n.undisturbed e = true

theorem Undisturbed.not_dispatching {n : ControlPlane} {a : RegisterArgs} {p : Nat}
    {loop : SessionLoop} (h : n.Undisturbed (.connect a))
    (hp : n.registry.current a.assetId = some p) (hloop : n.loops p = some loop) :
    loop.phase.dispatching = false := by
  rw [SessionRegistry.current] at hp
  simpa [Undisturbed, undisturbed, dispatching, hp, hloop] using h

/-- The loops in terms of the registry. -/
structure Guarded (n : ControlPlane) : Prop where
  orderly : n.run.Orderly
  registered : ∀ p loop, n.loops p = some loop →
    p ∉ n.run.unregistered ∧ ∃ s, n.registry.sessions[p]? = some s ∧ s.assetId = loop.assetId
  dispatching : ∀ p loop, n.loops p = some loop → loop.phase.dispatching = true →
    n.registry.current loop.assetId = some p

theorem guarded_start : Guarded start where
  orderly := RegistryRun.orderly_start
  registered := by intro p loop hloop; cases hloop
  dispatching := by intro p loop hloop; cases hloop

theorem Guarded.congr {n m : ControlPlane} (h : n.Guarded) (hrun : m.run = n.run)
    (hloops : m.loops = n.loops) : m.Guarded := by
  refine ⟨hrun ▸ h.orderly, ?_, ?_⟩
  · rw [registry, hrun, hloops]
    exact h.registered
  · rw [registry, hrun, hloops]
    exact h.dispatching

theorem Guarded.setPhase {n : ControlPlane} (h : n.Guarded) {p : Nat} {assetId : String}
    {phase phase' : LoopPhase} (hloop : n.loops p = some ⟨assetId, phase⟩)
    (hphase : phase'.dispatching = true → n.registry.current assetId = some p) :
    Guarded (n.setPhase p assetId phase') where
  orderly := h.orderly
  registered q loop hq := by
    cases Handoff.update_cases hq with
    | inl hq =>
        obtain ⟨rfl, heq⟩ := hq
        cases heq
        exact h.registered q ⟨assetId, phase⟩ hloop
    | inr hq => exact h.registered q loop hq.2
  dispatching q loop hq hd := by
    cases Handoff.update_cases hq with
    | inl hq =>
        obtain ⟨rfl, heq⟩ := hq
        cases heq
        exact hphase hd
    | inr hq => exact h.dispatching q loop hq.2 hd

/-- A loop that finds its fence open is the one of the current session. -/
theorem Guarded.current_of_open {n : ControlPlane} (h : n.Guarded) {p : Nat} {loop : SessionLoop}
    (hloop : n.loops p = some loop) (hfence : n.fenceClosed p = false) :
    n.registry.current loop.assetId = some p := by
  obtain ⟨hunreg, s, hs, hname⟩ := h.registered p loop hloop
  have hopen : s.fenceClosed = false := by simpa [fenceClosed, hs] using hfence
  have hreplaced : p ∉ n.run.replaced := by
    intro hmem
    rw [(h.orderly.fences p s hs).mpr hmem] at hopen
    cases hopen
  rw [← hname]
  exact h.orderly.kept p s hs hreplaced hunreg

theorem Guarded.connect {n : ControlPlane} (h : n.Guarded) {a : RegisterArgs} {run : RegistryRun}
    (hrun : n.run.step (.register a) = some run) (hfree : n.Undisturbed (.connect a)) :
    Guarded ({ n with run := run }.setPhase n.registry.sessions.length a.assetId .welcoming) := by
  have horderly := h.orderly.step hrun
  obtain ⟨⟨r, old⟩, hr, rfl⟩ := Option.map_eq_some_iff.mp hrun
  have hr := SessionRegistry.register_registers hr
  refine ⟨horderly, ?_, ?_⟩
  · intro q loop hq
    cases Handoff.update_cases hq with
    | inl hq =>
        obtain ⟨rfl, heq⟩ := hq
        cases heq
        refine ⟨fun hmem => lt_irrefl _ (h.orderly.ended _ (Or.inr hmem)), ?_⟩
        exact ⟨_, hr.getElem?_new, rfl⟩
    | inr hq =>
        obtain ⟨hunreg, s, hs, hname⟩ := h.registered q loop hq.2
        have hs' := hr.getElem?_lt (List.getElem?_eq_some_iff.mp hs).1
        rw [hs, Option.map_some] at hs'
        exact ⟨hunreg, _, hs', hname⟩
  · intro q loop hq hd
    cases Handoff.update_cases hq with
    | inl hq =>
        obtain ⟨rfl, heq⟩ := hq
        cases heq
        cases hd
    | inr hq =>
        have hcur := h.dispatching q loop hq.2 hd
        rcases hr.current_cases loop.assetId with ⟨hasset, -⟩ | ⟨-, hsame⟩
        · -- the loop that is replaced is not dispatching
          rw [hasset] at hcur
          rw [hfree.not_dispatching hcur hq.2] at hd
          cases hd
        · exact hsame.trans hcur

theorem Guarded.unregister {n : ControlPlane} (h : n.Guarded) {p : Nat} {run : RegistryRun}
    (hrun : n.run.step (.unregister p) = some run) :
    Guarded { n with run := run, loops := Function.update n.loops p none } := by
  have horderly := h.orderly.step hrun
  simp only [RegistryRun.step] at hrun
  split at hrun
  next =>
    cases hrun
    have hothers : ∀ q loop, Function.update n.loops p none q = some loop →
        q ≠ p ∧ n.loops q = some loop := by
      intro q loop hq
      cases Handoff.update_cases hq with
      | inl hq => cases hq.2
      | inr hq => exact hq
    refine ⟨horderly, ?_, ?_⟩
    · intro q loop hq
      obtain ⟨hne, hloop⟩ := hothers q loop hq
      obtain ⟨hunreg, s, hs, hname⟩ := h.registered q loop hloop
      refine ⟨?_, s, ?_, hname⟩
      · rw [List.mem_append, List.mem_singleton]
        exact not_or.mpr ⟨hunreg, hne⟩
      · rw [registry, (n.registry.unregister_sessions p).1]
        exact hs
    · intro q loop hq hd
      obtain ⟨hne, hloop⟩ := hothers q loop hq
      exact SessionRegistry.current_unregister (h.dispatching q loop hloop hd) hne
  next => cases hrun

theorem Guarded.touch {n : ControlPlane} (h : n.Guarded) {assetId : String} {epoch : UInt64}
    {now : Int} {run : RegistryRun} (hrun : n.run.step (.touch assetId epoch now) = some run) :
    Guarded { n with run := run } := by
  have horderly := h.orderly.step hrun
  cases hrun
  refine ⟨horderly, ?_, ?_⟩
  · intro q loop hloop
    obtain ⟨hunreg, s, hs, hname⟩ := h.registered q loop hloop
    obtain ⟨s', hs', hname'⟩ := SessionRegistry.exists_touch_session assetId epoch now hs
    exact ⟨hunreg, s', hs', hname'.trans hname⟩
  · intro q loop hloop hd
    exact (n.registry.touch_current _ assetId epoch now).trans (h.dispatching q loop hloop hd)

theorem Guarded.step {n n' : ControlPlane} {e : Event} (h : n.Guarded) (hmay : n.Undisturbed e)
    (he : n.step e = some n') : n'.Guarded := by
  cases performs_of_step he with
  | connected hrun => exact h.connect hrun hmay
  | moved hloop hphase =>
      exact h.setPhase hloop fun hd => h.dispatching _ _ hloop (hphase hd)
  | passed hloop hfence =>
      exact h.setPhase hloop fun _ => h.current_of_open hloop hfence
  | took hloop =>
      exact (h.setPhase hloop fun _ => h.dispatching _ _ hloop rfl).congr rfl rfl
  | sentOne hloop =>
      exact (h.setPhase hloop fun _ => h.dispatching _ _ hloop rfl).congr rfl rfl
  | unregistered hloop hrun => exact h.unregister hrun
  | touched hrun => exact h.touch hrun
  | mailbox m => exact h.congr rfl rfl

theorem runs_guarded {n : ControlPlane} (hrun : Reaches (Fires step Undisturbed) start n) :
    n.Guarded := by
  refine invariant Guarded ?_ guarded_start hrun
  intro n n' h hstep
  obtain ⟨e, hmay, he⟩ := hstep
  exact h.step hmay he

theorem Guarded.current {n : ControlPlane} (h : n.Guarded) {p : Nat} {loop : SessionLoop}
    (hloop : n.loops p = some loop) (hd : loop.phase.dispatching = true) : n.Current p := by
  have hcur := h.dispatching p loop hloop hd
  obtain ⟨s, hs, hname⟩ := h.orderly.named loop.assetId p hcur
  exact ⟨s, hs, hname ▸ hcur⟩

theorem Guarded.not_replaced {n : ControlPlane} (h : n.Guarded) {p : Nat} (hp : n.Current p) :
    p ∉ n.run.replaced := by
  obtain ⟨s, -, hcur⟩ := hp
  exact (h.orderly.serving s.assetId p hcur).1

theorem filter_append_other {p q : Nat} (hne : q ≠ p) (log new : List (Nat × String))
    (hnew : ∀ t ∈ new, t.1 = p) :
    (log ++ new).filter (fun t => t.1 = q) = log.filter fun t => t.1 = q := by
  have hnone : new.filter (fun t => t.1 = q) = [] := by
    rw [List.filter_eq_nil_iff]
    intro t ht
    rw [hnew t ht, decide_eq_true_iff]
    exact hne.symm
  rw [List.filter_append, hnone, List.append_nil]

/-- Only the loop of a current session takes or sends. -/
theorem Guarded.takes {n n' : ControlPlane} {e : Event} (h : n.Guarded) (he : n.step e = some n')
    {p : Nat} (hp : n'.takenBy p ≠ n.takenBy p ∨ n'.sentBy p ≠ n.sentBy p) : n.Current p := by
  have hsame : ¬ (n'.taken = n.taken ∧ n'.sent = n.sent) := by
    intro hlogs
    rw [takenBy, takenBy, sentBy, sentBy, hlogs.1, hlogs.2] at hp
    cases hp with
    | inl hp => exact hp rfl
    | inr hp => exact hp rfl
  cases performs_of_step he with
  | connected hrun => exact absurd ⟨rfl, rfl⟩ hsame
  | moved hloop hphase => exact absurd ⟨rfl, rfl⟩ hsame
  | passed hloop hfence => exact absurd ⟨rfl, rfl⟩ hsame
  | @took _ q _ _ cmds _ hloop =>
      by_cases hq : p = q
      · subst hq
        exact h.current hloop rfl
      · cases hp with
        | inr hp => exact absurd rfl hp
        | inl hp =>
            refine absurd (filter_append_other hq n.taken _ ?_) hp
            intro t ht
            obtain ⟨c, -, rfl⟩ := List.mem_map.mp ht
            rfl
  | @sentOne _ q _ c _ _ hloop _ =>
      by_cases hq : p = q
      · subst hq
        exact h.current hloop rfl
      · cases hp with
        | inl hp => exact absurd rfl hp
        | inr hp =>
            refine absurd (filter_append_other hq n.sent _ ?_) hp
            intro t ht
            rw [List.mem_singleton.mp ht]
  | unregistered hloop hrun => exact absurd ⟨rfl, rfl⟩ hsame
  | touched hrun => exact absurd ⟨rfl, rfl⟩ hsame
  | mailbox m => exact absurd ⟨rfl, rfl⟩ hsame

theorem replaced_subset {n n' : ControlPlane} {e : Event} (he : n.step e = some n') :
    n.run.replaced ⊆ n'.run.replaced := by
  cases performs_of_step he with
  | connected hrun => exact RegistryRun.replaced_subset hrun
  | unregistered hloop hrun => exact RegistryRun.replaced_subset hrun
  | touched hrun => exact RegistryRun.replaced_subset hrun
  | moved hloop hphase => exact List.Subset.refl _
  | passed hloop hfence => exact List.Subset.refl _
  | took hloop => exact List.Subset.refl _
  | sentOne hloop => exact List.Subset.refl _
  | mailbox m => exact List.Subset.refl _

/-- In a run without a replacement in the middle of a batch, commands are taken and sent
by current sessions only, and a replaced session takes and sends no more. -/
theorem runs_fenced {n : ControlPlane} (hrun : Reaches (Fires step Undisturbed) start n) :
    (∀ e n' p, n.step e = some n' →
      n'.takenBy p ≠ n.takenBy p ∨ n'.sentBy p ≠ n.sentBy p → n.Current p) ∧
    ∀ p ∈ n.run.replaced, ∀ m, Reaches (Fires step Undisturbed) n m →
      m.takenBy p = n.takenBy p ∧ m.sentBy p = n.sentBy p := by
  refine ⟨fun e n' p he hp => (runs_guarded hrun).takes he hp, ?_⟩
  intro p hp m hm
  have hkept : m.Guarded ∧ p ∈ m.run.replaced ∧
      m.takenBy p = n.takenBy p ∧ m.sentBy p = n.sentBy p := by
    refine invariant (fun m : ControlPlane => m.Guarded ∧ p ∈ m.run.replaced ∧
      m.takenBy p = n.takenBy p ∧ m.sentBy p = n.sentBy p) ?_
      ⟨runs_guarded hrun, hp, rfl, rfl⟩ hm
    intro m m' h hstep
    obtain ⟨hguarded, hreplaced, htaken, hsent⟩ := h
    obtain ⟨e, hmay, he⟩ := hstep
    have hquiet : m'.takenBy p = m.takenBy p ∧ m'.sentBy p = m.sentBy p := by
      by_contra hne
      rw [not_and_or] at hne
      exact hguarded.not_replaced (hguarded.takes he hne) hreplaced
    exact ⟨hguarded.step hmay he, replaced_subset he hreplaced, hquiet.1.trans htaken,
      hquiet.2.trans hsent⟩
  exact hkept.2.2

abbrev Runs : ControlPlane → ControlPlane → Prop := Reaches (Fires step fun _ _ => True)

theorem runs_of_events (s : ControlPlane) (es : List Event) (p : ControlPlane → Prop)
    [DecidablePred p] (h : (play step s es).any p = true) : ∃ n, Runs s n ∧ p n :=
  reaches_of_any step es p (permitted_of_forall (fun _ _ _ => trivial) _) h

theorem undisturbed_of_events (es : List Event) (p : ControlPlane → Prop) [DecidablePred p]
    (hmay : permits step undisturbed start es = true) (h : (play step start es).any p = true) :
    ∃ n, Reaches (Fires step Undisturbed) start n ∧ p n :=
  reaches_of_any step es p (permitted_of_permits (fun _ _ h => h) hmay) h

def sampleDispatch : Dispatch := ⟨"c1", "a1", "diagnose.disk_usage", [], 30⟩

/-- The agent has connected, its loop has found the fence open, and the agent connects
again. -/
def lateReplacement : List Event :=
  [.connect (RegistryRun.sampleArgs "a1" "s1"), .welcome 0 true,
    .submit sampleDispatch 0, .pass 0, .connect (RegistryRun.sampleArgs "a1" "s2")]

/-- The replaced session then takes the command and sends it. -/
theorem replaced_session_dispatches :
    ∃ n m, Runs start n ∧ Runs n m ∧ 0 ∈ n.run.replaced ∧
      n.registry.byAsset.lookup "a1" = some 1 ∧ n.takenBy 0 = [] ∧ m.takenBy 0 = [(0, "c1")] ∧ m.sentBy 0 = [(0, "c1")] := by
  obtain ⟨n, hn, hreplaced, hcur, htaken, hlast⟩ := runs_of_events start lateReplacement
    (fun n => 0 ∈ n.run.replaced ∧ n.registry.byAsset.lookup "a1" = some 1 ∧ n.takenBy 0 = [] ∧
      (play step n [.nextDispatch 0 0, .send 0 true]).any
        (fun m => m.takenBy 0 = [(0, "c1")] ∧ m.sentBy 0 = [(0, "c1")]) = true)
    (by decide +kernel)
  obtain ⟨m, hm, htaken', hsent⟩ := runs_of_events n _
    (fun m => m.takenBy 0 = [(0, "c1")] ∧ m.sentBy 0 = [(0, "c1")]) hlast
  exact ⟨n, m, hn, hm, hreplaced, hcur, htaken, htaken', hsent⟩

/-- A reconnect after the batch has been sent: the new session goes on. -/
theorem runs_fenced_reconnect :
    ∃ n, Reaches (Fires step Undisturbed) start n ∧ n.takenBy 0 = [(0, "c1")] ∧
      ∀ m, Reaches (Fires step Undisturbed) n m → m.takenBy 0 = [(0, "c1")] := by
  obtain ⟨n, hrun, hreplaced, htaken⟩ := undisturbed_of_events
    [.connect (RegistryRun.sampleArgs "a1" "s1"), .welcome 0 true,
      .submit sampleDispatch 0, .pass 0, .nextDispatch 0 0, .send 0 true,
      .connect (RegistryRun.sampleArgs "a1" "s2")]
    (fun n => 0 ∈ n.run.replaced ∧ n.takenBy 0 = [(0, "c1")])
    (by decide +kernel) (by decide +kernel)
  refine ⟨n, hrun, htaken, fun m hm => ?_⟩
  rw [((runs_fenced hrun).2 0 hreplaced m hm).1, htaken]

end ControlPlane

end TomAgent.Connector
