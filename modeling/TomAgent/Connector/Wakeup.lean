import Mathlib.Data.Finset.Basic
import TomAgent.Connector.Fencing
import TomAgent.Connector.MailboxRuns

/-!
# Waking the control loops

A control loop that finds nothing to send waits on the channel of its asset.  The channel
has room for one signal; it is made by the first `Wait` for the asset and stays.
`Submit` and `Cancel` signal the channel under the mailbox's mutex, but `NextDispatch`
and `Wait` take the mutex separately, and the `select` of `Wait` runs without it.  All
loops of an asset share its channel, those of replaced sessions included.
-/

namespace TomAgent.Connector

open Platform Execution

structure Waking where
  plane : ControlPlane
  /-- By asset: whether its channel holds the signal. -/
  notify : AList (fun _ : String => Bool)
  /-- The loops in the `select` of `Wait`. -/
  selecting : Finset Nat

namespace Waking

def start : Waking := ⟨.start, ∅, ∅⟩

/-- A send that does not block: a full channel keeps its signal, without a channel there is
nothing to do. -/
def signalLocked (notify : AList (fun _ : String => Bool)) (assetId : String) :
    AList (fun _ : String => Bool) :=
  match notify.lookup assetId with
  | some _ => notify.insert assetId true
  | none => notify

def openChannel (notify : AList (fun _ : String => Bool)) (assetId : String) :
    AList (fun _ : String => Bool) :=
  match notify.lookup assetId with
  | some _ => notify
  | none => notify.insert assetId false

inductive Event where
  /-- Any step of the control plane but the end of a `Wait`. -/
  | plane (e : ControlPlane.Event)
  /-- The locked part of `Wait`. -/
  | wait (p : Nat)
  /-- The `select` receives the signal. -/
  | receive (p : Nat)
  /-- The timer of the `select` has fired. -/
  | timeout (p : Nat)

/-- The asset whose channel an operation of the mailbox signals. -/
def signalled (m : Mailbox) : ControlPlane.Event → Option String
  | .submit d now =>
      match m.submit d now with
      | .ok _ => some d.assetId
      | .error _ => none
  | .cancel assetId cmdId =>
      match m.cancel assetId cmdId with
      | .ok (true, _) => some assetId
      | _ => none
  | _ => none

def step (w : Waking) : Event → Option Waking
  | .plane (.wake _) => none
  | .plane e => (w.plane.step e).map fun n =>
      { w with
        plane := n
        notify := match signalled w.plane.mailbox e with
          | some assetId => signalLocked w.notify assetId
          | none => w.notify }
  | .wait p =>
      match w.plane.loops p with
      | some ⟨assetId, .waiting⟩ =>
          if p ∈ w.selecting then none
          else some { w with
            notify := openChannel w.notify assetId
            selecting := insert p w.selecting }
      | _ => none
  | .receive p =>
      match w.plane.loops p with
      | some ⟨assetId, .waiting⟩ =>
          if p ∈ w.selecting ∧ w.notify.lookup assetId = some true then
            (w.plane.step (.wake p)).map fun n =>
              ⟨n, w.notify.insert assetId false, w.selecting.erase p⟩
          else none
      | _ => none
  | .timeout p =>
      if p ∈ w.selecting then (w.plane.step (.wake p)).map fun n =>
        { w with plane := n, selecting := w.selecting.erase p }
      else none

end Waking

/-! ## What a step does to the loops of an asset -/

theorem RegistryRun.length_le {r r' : RegistryRun} {e : RegistryEvent}
    (he : r.step e = some r') : r.registry.sessions.length ≤ r'.registry.sessions.length := by
  cases RegistryRun.performs_of_step he with
  | registered hr => exact (Nat.le_succ _).trans_eq hr.length.symm
  | refreshed p now => exact (List.length_modify _ _ _).ge
  | unregistered hp => exact (congrArg List.length (r.registry.unregister_sessions _).1).ge
  | unchanged => exact Nat.le_refl _

/-- The loop goes on to look into the mailbox, unless its stream fails or it is fenced. -/
def LoopPhase.wakeful : LoopPhase → Bool
  | .waiting | .leaving => false
  | _ => true

theorem LoopPhase.next_wakeful (cmds : List MailboxCommand) (cancels : List String) :
    (LoopPhase.next cmds cancels).wakeful = true := by
  cases cmds with
  | cons c cmds => rfl
  | nil =>
      cases cancels with
      | nil => rfl
      | cons id cancels => rfl

inductive Mailbox.Handles (m : Mailbox) : ControlPlane.Event → Mailbox → Prop
  | submitted {m' : Mailbox} {d : Dispatch} {now : Int} (hsubmit : m.submit d now = .ok m') :
      Handles m (.submit d now) m'
  | cancelled {m' : Mailbox} {assetId cmdId : String} {push : Bool}
      (hcancel : m.cancel assetId cmdId = .ok (push, m')) : Handles m (.cancel assetId cmdId) m'
  | completed {e : ControlPlane.Event} {cmdId : String} {result : Payload} :
      Handles m e (m.complete cmdId result)
  | idle {e : ControlPlane.Event} : Handles m e m

namespace ControlPlane

inductive Departs (p : Nat) : Event → Prop
  | unwelcome : Departs p (.welcome p false)
  | fenced : Departs p (.fenced p)
  | ended : Departs p (.ended p)
  | unsent : Departs p (.send p false)

/-- What becomes of a loop in a step that leaves the mailbox alone. -/
inductive Shifts (n : ControlPlane) (e : Event) : Nat → Option SessionLoop → Prop
  | connected {assetId : String} :
      Shifts n e n.registry.sessions.length (some ⟨assetId, .welcoming⟩)
  | moved {p : Nat} {assetId : String} {phase phase' : LoopPhase}
      (hloop : n.loops p = some ⟨assetId, phase⟩) (hphase : phase.wakeful = true)
      (hphase' : phase'.wakeful = true) : Shifts n e p (some ⟨assetId, phase'⟩)
  | departed {p : Nat} {assetId : String} {phase : LoopPhase} (he : Departs p e)
      (hloop : n.loops p = some ⟨assetId, phase⟩) (hphase : phase.wakeful = true) :
      Shifts n e p (some ⟨assetId, .leaving⟩)
  | unregistered {p : Nat} {assetId : String} (hloop : n.loops p = some ⟨assetId, .leaving⟩) :
      Shifts n e p none

/-- The outcomes of a step but `wake`. -/
inductive Turns (n : ControlPlane) : Event → ControlPlane → Prop
  | shifted {e : Event} {n' : ControlPlane} {p : Nat} {loop : Option SessionLoop}
      (hshifts : n.Shifts e p loop) (hloops : n'.loops = Function.update n.loops p loop)
      (hmailbox : n'.mailbox = n.mailbox) : Turns n e n'
  | looked {n' : ControlPlane} {p : Nat} {assetId : String} {now : Int}
      (hloop : n.loops p = some ⟨assetId, .taking⟩)
      (hloops : n'.loops = Function.update n.loops p (some ⟨assetId,
        .after (n.mailbox.nextDispatch assetId now).2.1 (n.mailbox.nextDispatch assetId now).2.2⟩))
      (hmailbox : n'.mailbox = (n.mailbox.nextDispatch assetId now).1) :
      Turns n (.nextDispatch p now) n'
  | handled {e : Event} {n' : ControlPlane} (hloops : n'.loops = n.loops)
      (hmailbox : n.mailbox.Handles e n'.mailbox) : Turns n e n'

theorem turns_of_loopStep {n n' : ControlPlane} {e : Event} (hwake : ∀ p, e ≠ .wake p)
    (he : n.loopStep e = some n') : n.Turns e n' := by
  unfold loopStep at he
  split at he
  next p ok =>
    split at he
    next hloop =>
      cases he
      cases ok with
      | false => exact .shifted (.departed .unwelcome hloop rfl) rfl rfl
      | true => exact .shifted (.moved hloop rfl rfl) rfl rfl
    next => cases he
  next p =>
    split at he
    next hloop =>
      split at he
      next => cases he
      next =>
        cases he
        exact .shifted (.moved hloop rfl rfl) rfl rfl
    next => cases he
  next p =>
    split at he
    next hloop =>
      split at he
      next =>
        cases he
        exact .shifted (.departed .fenced hloop rfl) rfl rfl
      next => cases he
    next => cases he
  next p =>
    split at he
    next hloop =>
      cases he
      exact .shifted (.departed .ended hloop rfl) rfl rfl
    next => cases he
  next p now =>
    split at he
    next hloop =>
      cases he
      exact .looked hloop rfl rfl
    next => cases he
  next p ok =>
    split at he
    next hloop =>
      split at he
      next =>
        cases he
        exact .shifted (.moved hloop rfl (LoopPhase.next_wakeful _ _)) rfl rfl
      next hok =>
        cases he
        rw [Bool.not_eq_true] at hok
        subst hok
        exact .shifted (.departed .unsent hloop rfl) rfl rfl
    next hloop =>
      cases he
      cases ok with
      | false => exact .shifted (.departed .unsent hloop rfl) rfl rfl
      | true => exact .shifted (.moved hloop rfl (LoopPhase.next_wakeful _ _)) rfl rfl
    next => cases he
  next p => exact absurd rfl (hwake p)
  next => cases he

theorem turns_of_step {n n' : ControlPlane} {e : Event} (hwake : ∀ p, e ≠ .wake p)
    (he : n.step e = some n') : n.Turns e n' := by
  unfold step at he
  split at he
  next a =>
    obtain ⟨run, hrun, rfl⟩ := Option.map_eq_some_iff.mp he
    exact .shifted .connected rfl rfl
  next p =>
    split at he
    next hloop =>
      obtain ⟨run, hrun, rfl⟩ := Option.map_eq_some_iff.mp he
      exact .shifted (.unregistered hloop) rfl rfl
    next => cases he
  next p now =>
    obtain ⟨s, -, hs⟩ := Option.bind_eq_some_iff.mp he
    obtain ⟨run, hrun, rfl⟩ := Option.map_eq_some_iff.mp hs
    exact .handled rfl .idle
  next d now =>
    split at he
    next m hm =>
      cases he
      exact .handled rfl (.submitted hm)
    next =>
      cases he
      exact .handled rfl .idle
  next assetId cmdId =>
    split at he
    next push m hm =>
      cases he
      exact .handled rfl (.cancelled hm)
    next =>
      cases he
      exact .handled rfl .idle
  next cmdId result =>
    cases he
    exact .handled rfl .completed
  next => exact turns_of_loopStep hwake he

theorem Shifts.not_asleep {n : ControlPlane} {e : Event} {p : Nat} {loop : Option SessionLoop}
    (h : n.Shifts e p loop) {assetId : String} : loop ≠ some ⟨assetId, .waiting⟩ := by
  rintro rfl
  cases h with
  | moved hloop hphase hphase' => cases hphase'

theorem wake_step {n n' : ControlPlane} {p : Nat} (he : n.step (.wake p) = some n') :
    ∃ assetId, n.loops p = some ⟨assetId, .waiting⟩ ∧
      n'.loops = Function.update n.loops p (some ⟨assetId, .checking⟩) ∧
      n'.mailbox = n.mailbox := by
  simp only [step, loopStep] at he
  split at he
  next assetId hloop =>
    cases he
    exact ⟨assetId, hloop, rfl, rfl⟩
  next => cases he

/-! ## Loops belong to sessions -/

def Backed (n : ControlPlane) : Prop :=
  ∀ p loop, n.loops p = some loop → p < n.registry.sessions.length

theorem Backed.setPhase {n : ControlPlane} (h : n.Backed) {p : Nat} {assetId : String}
    (phase : LoopPhase) (hp : p < n.registry.sessions.length) : Backed (n.setPhase p assetId phase) := by
  intro q loop hq
  cases Handoff.update_cases hq with
  | inl hq => exact hq.1 ▸ hp
  | inr hq => exact h q loop hq.2

theorem Backed.step {n n' : ControlPlane} {e : Event} (h : n.Backed) (he : n.step e = some n') :
    n'.Backed := by
  cases performs_of_step he with
  | @connected a run hrun =>
      have hlength : run.registry.sessions.length = n.registry.sessions.length + 1 := by
        obtain ⟨⟨r, old⟩, hr, rfl⟩ := Option.map_eq_some_iff.mp hrun
        exact (SessionRegistry.register_registers hr).length
      have hgrown : Backed { n with run := run } := fun q loop hq =>
        (h q loop hq).trans_le (RegistryRun.length_le hrun)
      exact hgrown.setPhase .welcoming (hlength ▸ Nat.lt_succ_self _)
  | moved hloop hphase => exact h.setPhase _ (h _ _ hloop)
  | passed hloop hfence => exact h.setPhase _ (h _ _ hloop)
  | took hloop => exact h.setPhase _ (h _ _ hloop)
  | sentOne hloop => exact h.setPhase _ (h _ _ hloop)
  | unregistered hloop hrun =>
      intro q loop hq
      cases Handoff.update_cases hq with
      | inl hq => cases hq.2
      | inr hq => exact (h q loop hq.2).trans_le (RegistryRun.length_le hrun)
  | touched hrun => exact fun q loop hq => (h q loop hq).trans_le (RegistryRun.length_le hrun)
  | mailbox m => exact h

end ControlPlane

/-! ## Work for an asset -/

namespace Mailbox

/-- `NextDispatch` for the asset has something to look at. -/
def Due (m : Mailbox) (assetId : String) : Prop :=
  (∃ id ∈ m.queue assetId, m.Queued id) ∨ m.cancels assetId ≠ []

theorem Due.mono {m m' : Mailbox} {assetId : String} (h : m'.Due assetId)
    (hqueue : m'.queue assetId ⊆ m.queue assetId) (hqueued : ∀ id, m'.Queued id → m.Queued id)
    (hcancels : m'.cancels assetId = m.cancels assetId) : m.Due assetId := by
  cases h with
  | inl h =>
      obtain ⟨id, hid, hq⟩ := h
      exact Or.inl ⟨id, hqueue hid, hqueued id hq⟩
  | inr h => exact Or.inr (hcancels ▸ h)

/-- Records are kept under their ids, and the queues hold ids of records, each once. -/
structure Filed (m : Mailbox) : Prop where
  keyed : Keyed m.byID
  nodup : ∀ assetId, (m.queue assetId).Nodup
  known : ∀ assetId, ∀ id ∈ m.queue assetId, m.Knows id

theorem Filed.leaves {m m' : Mailbox} (h : m.Filed) (hleaves : m.Leaves m')
    (hqueue : ∀ assetId, (m'.queue assetId).Sublist (m.queue assetId)) : m'.Filed where
  keyed := hleaves.1
  nodup assetId := (h.nodup assetId).sublist (hqueue assetId)
  known assetId id hid := (hleaves.2.1 id).mpr (h.known assetId id ((hqueue assetId).subset hid))

theorem Filed.queue_nextDispatch {m : Mailbox} (h : m.Filed) (assetId : String) (now : Int)
    (other : String) :
    ((m.nextDispatch assetId now).1.queue other).Sublist (m.queue other) := by
  rw [Mailbox.queue_nextDispatch]
  split
  next heq =>
    rw [heq, (sweep_eq now (h.nodup assetId) m.byID).2.1]
    exact List.filter_sublist
  next => exact List.Sublist.refl _

theorem queue_cancel {m m' : Mailbox} {target cmdId : String} {push : Bool}
    (h : m.cancel target cmdId = .ok (push, m')) (assetId : String) :
    m'.queue assetId = m.queue assetId := by
  cases cancel_cancels h with
  | withdrawn hc hstate => rfl
  | due hc hstate => rfl

theorem queue_complete (m : Mailbox) (cmdId : String) (result : Payload) (assetId : String) :
    (m.complete cmdId result).queue assetId = m.queue assetId := by
  unfold complete
  split <;> rfl

section Filed

variable {m m' : Mailbox}

theorem Filed.nextDispatch (h : m.Filed) (assetId : String) (now : Int) :
    (m.nextDispatch assetId now).1.Filed :=
  h.leaves (nextDispatch_spec h.keyed assetId now).1 (h.queue_nextDispatch assetId now)

theorem Filed.cancel {assetId cmdId : String} {push : Bool} (h : m.Filed)
    (hcancel : m.cancel assetId cmdId = .ok (push, m')) : m'.Filed :=
  h.leaves (cancel_spec h.keyed hcancel) fun other =>
    (queue_cancel hcancel other).symm ▸ List.Sublist.refl _

theorem Filed.complete (h : m.Filed) (cmdId : String) (result : Payload) :
    (m.complete cmdId result).Filed :=
  h.leaves (complete_spec h.keyed cmdId result) fun other =>
    (m.queue_complete cmdId result other).symm ▸ List.Sublist.refl _

theorem Filed.submit {d : Dispatch} {now : Int} (h : m.Filed)
    (hsubmit : m.submit d now = .ok m') : m'.Filed := by
  have haccepts := submit_accepts hsubmit
  obtain ⟨hkeyed, hfresh, -⟩ := submit_spec h.keyed hsubmit
  refine ⟨hkeyed, fun assetId => ?_, fun assetId id hid => ?_⟩
  · rw [haccepts.queue]
    split
    next =>
      refine List.nodup_append.mpr ⟨h.nodup assetId, List.nodup_singleton _, ?_⟩
      intro id hid id' hid' heq
      exact hfresh (List.mem_singleton.mp hid' ▸ heq ▸ h.known assetId id hid)
    next => exact h.nodup assetId
  · rw [haccepts.queue] at hid
    rw [haccepts.knows]
    split at hid
    next =>
      cases List.mem_append.mp hid with
      | inl hid => exact Or.inr (h.known assetId id hid)
      | inr hid => exact Or.inl (List.mem_singleton.mp hid)
    next => exact Or.inr (h.known assetId id hid)

/-! `NextDispatch` takes everything that is due for its asset.  Nothing becomes due for an
asset but by a submission or a pushed cancel for it. -/

theorem Filed.not_due_nextDispatch (h : m.Filed) (assetId : String) (now : Int) :
    ¬ (m.nextDispatch assetId now).1.Due assetId := by
  intro hdue
  cases hdue with
  | inl hdue =>
      obtain ⟨id, hid, c, hc, hqueued⟩ := hdue
      have hold := (h.queue_nextDispatch assetId now assetId).subset hid
      have hlookup := (sweep_eq now (h.nodup assetId) m.byID).1 id
      rw [if_pos hold] at hlookup
      obtain ⟨before, -, rfl⟩ := Option.map_eq_some_iff.mp (hlookup.symm.trans hc)
      exact swept_state now before hqueued
  | inr hdue =>
      rw [cancels_nextDispatch, if_pos rfl] at hdue
      exact hdue rfl

theorem Filed.due_of_nextDispatch {assetId other : String} {now : Int} (h : m.Filed)
    (hdue : (m.nextDispatch assetId now).1.Due other) : m.Due other := by
  have hne : other ≠ assetId := by
    rintro rfl
    exact h.not_due_nextDispatch other now hdue
  refine hdue.mono (h.queue_nextDispatch assetId now other).subset
    (nextDispatch_spec h.keyed assetId now).1.2.2 ?_
  rw [cancels_nextDispatch, if_neg hne]

theorem Filed.due_of_complete {cmdId assetId : String} {result : Payload} (h : m.Filed)
    (hdue : (m.complete cmdId result).Due assetId) : m.Due assetId :=
  hdue.mono (m.queue_complete cmdId result assetId ▸ List.Subset.refl _)
    (complete_spec h.keyed cmdId result).2.2 (cancels_complete m cmdId result assetId)

theorem Filed.due_of_submit {d : Dispatch} {now : Int} {assetId : String} (h : m.Filed)
    (hsubmit : m.submit d now = .ok m') (hne : assetId ≠ d.assetId) (hdue : m'.Due assetId) :
    m.Due assetId := by
  have haccepts := submit_accepts hsubmit
  have hqueue : m'.queue assetId = m.queue assetId := by
    rw [haccepts.queue, if_neg (Ne.symm hne)]
  cases hdue with
  | inr hdue => exact Or.inr (haccepts.cancels assetId ▸ hdue)
  | inl hdue =>
      obtain ⟨id, hid, hqueued⟩ := hdue
      rw [hqueue] at hid
      have hid' : id ≠ d.cmdId := by
        rintro rfl
        exact (submit_spec h.keyed hsubmit).2.1 (h.known assetId _ hid)
      exact Or.inl ⟨id, hid, (haccepts.queued hid').mp hqueued⟩

theorem Filed.due_of_cancel {target cmdId assetId : String} {push : Bool} (h : m.Filed)
    (hcancel : m.cancel target cmdId = .ok (push, m')) (hne : push = true → assetId ≠ target)
    (hdue : m'.Due assetId) : m.Due assetId := by
  have hqueued := (cancel_spec h.keyed hcancel).2.2
  cases cancel_cancels hcancel with
  | withdrawn hc hstate => exact hdue.mono (List.Subset.refl _) hqueued rfl
  | due hc hstate =>
      refine hdue.mono (List.Subset.refl _) hqueued ?_
      simp only [cancels]
      rw [AList.lookup_insert_ne (hne rfl)]

theorem Filed.handles {e : ControlPlane.Event} (h : m.Filed) (hm : m.Handles e m') :
    m'.Filed := by
  cases hm with
  | submitted hsubmit => exact h.submit hsubmit
  | cancelled hcancel => exact h.cancel hcancel
  | completed => exact h.complete _ _
  | idle => exact h

theorem Filed.due_of_handles {e : ControlPlane.Event} {assetId : String} (h : m.Filed)
    (hm : m.Handles e m') (hsilent : Waking.signalled m e ≠ some assetId)
    (hdue : m'.Due assetId) : m.Due assetId := by
  cases hm with
  | completed => exact h.due_of_complete hdue
  | idle => exact hdue
  | submitted hsubmit =>
      refine h.due_of_submit hsubmit ?_ hdue
      rintro rfl
      simp [Waking.signalled, hsubmit] at hsilent
  | cancelled hcancel =>
      refine h.due_of_cancel hcancel ?_ hdue
      rintro rfl rfl
      simp [Waking.signalled, hcancel] at hsilent

end Filed

end Mailbox

/-! ## Loops that sleep on work -/

namespace Waking

variable {w w' : Waking} {e : Event} {assetId : String}

def Awake (w : Waking) (assetId : String) : Prop :=
  ∃ p phase, w.plane.loops p = some ⟨assetId, phase⟩ ∧ phase.wakeful = true

def Asleep (w : Waking) (assetId : String) : Prop :=
  ∃ p, w.plane.loops p = some ⟨assetId, .waiting⟩

/-- Something is due for the asset, its loops wait, and nothing is on the way to wake one. -/
structure Overslept (w : Waking) (assetId : String) : Prop where
  empty : w.notify.lookup assetId = some false
  asleep : w.Asleep assetId
  due : w.plane.mailbox.Due assetId
  noone : ¬ w.Awake assetId

/-- How that can come about: the channel is made when work is there already, or a loop goes
that was on its way to the mailbox, while another one of the asset waits. -/
inductive Cause (w : Waking) (assetId : String) : Event → Prop
  | opened {p : Nat} (hloop : w.plane.loops p = some ⟨assetId, .waiting⟩)
      (hnone : w.notify.lookup assetId = none) (hdue : w.plane.mailbox.Due assetId) :
      Cause w assetId (.wait p)
  | departed {p : Nat} {phase : LoopPhase} {e : ControlPlane.Event}
      (he : ControlPlane.Departs p e) (hloop : w.plane.loops p = some ⟨assetId, phase⟩)
      (hphase : phase.wakeful = true) (hother : w.Asleep assetId) : Cause w assetId (.plane e)

def Looks (w : Waking) (assetId : String) (e : Event) : Prop :=
  ∃ p now, e = .plane (.nextDispatch p now) ∧ w.plane.loops p = some ⟨assetId, .taking⟩

/-- A cause, and no look into the mailbox since. -/
def Explained (past : List (Waking × Event)) (assetId : String) : Prop :=
  ∃ later w e earlier, past = later ++ (w, e) :: earlier ∧ Cause w assetId e ∧
    ∀ s ∈ later, ¬ Looks s.1 assetId s.2

theorem lookup_signalLocked (notify : AList (fun _ : String => Bool)) (target : String) :
    (signalLocked notify target).lookup assetId =
      if assetId = target then (notify.lookup assetId).map fun _ => true
      else notify.lookup assetId := by
  unfold signalLocked
  split
  next held hheld =>
    split
    next heq => rw [heq, AList.lookup_insert, hheld, Option.map_some]
    next hne => rw [AList.lookup_insert_ne hne]
  next hnone =>
    split
    next heq => rw [heq, hnone, Option.map_none]
    next => rfl

theorem lookup_openChannel (notify : AList (fun _ : String => Bool)) (target : String) :
    (openChannel notify target).lookup assetId =
      if assetId = target ∧ notify.lookup assetId = none then some false
      else notify.lookup assetId := by
  unfold openChannel
  split
  next held hheld =>
    rw [if_neg]
    rintro ⟨rfl, hnone⟩
    rw [hheld] at hnone
    cases hnone
  next hnone =>
    by_cases heq : assetId = target
    · subst heq
      rw [AList.lookup_insert, if_pos ⟨rfl, hnone⟩]
    · rw [AList.lookup_insert_ne heq, if_neg fun h => heq h.1]

inductive Moves (w : Waking) : Event → Waking → Prop
  | plane {e : ControlPlane.Event} {n : ControlPlane} (hwake : ∀ p, e ≠ .wake p)
      (hstep : w.plane.step e = some n) :
      Moves w (.plane e) { w with
        plane := n
        notify := match signalled w.plane.mailbox e with
          | some assetId => signalLocked w.notify assetId
          | none => w.notify }
  | waited {p : Nat} {assetId : String} (hloop : w.plane.loops p = some ⟨assetId, .waiting⟩) :
      Moves w (.wait p) { w with
        notify := openChannel w.notify assetId
        selecting := insert p w.selecting }
  | woken {e : Event} {p : Nat} {assetId : String} {n : ControlPlane}
      {notify : AList (fun _ : String => Bool)} (hstep : w.plane.step (.wake p) = some n)
      (hloop : w.plane.loops p = some ⟨assetId, .waiting⟩)
      (hloops : n.loops = Function.update w.plane.loops p (some ⟨assetId, .checking⟩))
      (hmailbox : n.mailbox = w.plane.mailbox)
      (hnotify : notify = w.notify ∨ notify = w.notify.insert assetId false) :
      Moves w e ⟨n, notify, w.selecting.erase p⟩

theorem moves_of_step (he : w.step e = some w') : w.Moves e w' := by
  unfold step at he
  split at he
  next => cases he
  next e hwake =>
    obtain ⟨n, hn, rfl⟩ := Option.map_eq_some_iff.mp he
    exact .plane (fun p heq => hwake p heq) hn
  next p =>
    split at he
    next assetId hloop =>
      split at he
      next => cases he
      next =>
        cases he
        exact .waited hloop
    next => cases he
  next p =>
    split at he
    next assetId hloop =>
      split at he
      next hsignal =>
        obtain ⟨n, hn, rfl⟩ := Option.map_eq_some_iff.mp he
        obtain ⟨other, hloop', hloops, hmailbox⟩ := ControlPlane.wake_step hn
        rw [hloop] at hloop'
        cases hloop'
        exact .woken hn hloop hloops hmailbox (Or.inr rfl)
      next => cases he
    next => cases he
  next p =>
    split at he
    next =>
      obtain ⟨n, hn, rfl⟩ := Option.map_eq_some_iff.mp he
      obtain ⟨assetId, hloop, hloops, hmailbox⟩ := ControlPlane.wake_step hn
      exact .woken hn hloop hloops hmailbox (Or.inl rfl)
    next => cases he

/-! ## From the state after a step to the one before -/

theorem filed_step (hfiled : w.plane.mailbox.Filed) (he : w.step e = some w') :
    w'.plane.mailbox.Filed := by
  cases moves_of_step he with
  | waited hloop => exact hfiled
  | woken hstep hloop hloops hmailbox hnotify => exact hmailbox ▸ hfiled
  | plane hwake hstep =>
      cases ControlPlane.turns_of_step hwake hstep with
      | shifted hshifts hloops hmailbox => exact hmailbox ▸ hfiled
      | looked hloop hloops hmailbox => exact hmailbox ▸ hfiled.nextDispatch _ _
      | handled hloops hmailbox => exact hfiled.handles hmailbox

/-- Work that comes to an asset with a channel is signalled. -/
theorem due_before (hfiled : w.plane.mailbox.Filed) (he : w.step e = some w')
    (hdue : w'.plane.mailbox.Due assetId) (hempty : w'.notify.lookup assetId = some false) :
    w.plane.mailbox.Due assetId := by
  cases moves_of_step he with
  | waited hloop => exact hdue
  | woken hstep hloop hloops hmailbox hnotify => exact hmailbox ▸ hdue
  | plane hwake hstep =>
      cases ControlPlane.turns_of_step hwake hstep with
      | shifted hshifts hloops hmailbox => exact hmailbox ▸ hdue
      | looked hloop hloops hmailbox => exact hfiled.due_of_nextDispatch (hmailbox ▸ hdue)
      | handled hloops hmailbox =>
          refine hfiled.due_of_handles hmailbox (fun hsignalled => ?_) hdue
          simp [hsignalled, lookup_signalLocked] at hempty

/-- A loop that goes to sleep has taken what was due. -/
theorem asleep_before (hfiled : w.plane.mailbox.Filed) (he : w.step e = some w')
    (hdue : w'.plane.mailbox.Due assetId) (hasleep : w'.Asleep assetId) : w.Asleep assetId := by
  obtain ⟨q, hq⟩ := hasleep
  have hupdate : ∀ {p : Nat} {loop : Option SessionLoop},
      w'.plane.loops = Function.update w.plane.loops p loop →
      loop ≠ some ⟨assetId, .waiting⟩ → w.Asleep assetId := by
    intro p loop hloops hne
    rw [hloops] at hq
    cases Handoff.update_cases hq with
    | inl hq => exact absurd hq.2 hne
    | inr hq => exact ⟨q, hq.2⟩
  cases moves_of_step he with
  | waited hloop => exact ⟨q, hq⟩
  | woken hstep hloop hloops hmailbox hnotify => exact hupdate hloops (by simp)
  | plane hwake hstep =>
      cases ControlPlane.turns_of_step hwake hstep with
      | shifted hshifts hloops hmailbox => exact hupdate hloops hshifts.not_asleep
      | looked hloop hloops hmailbox =>
          refine hupdate hloops fun heq => ?_
          obtain ⟨rfl, -⟩ := SessionLoop.mk.inj (Option.some.inj heq)
          exact hfiled.not_due_nextDispatch _ _ (hmailbox ▸ hdue)
      | handled hloops hmailbox => exact ⟨q, hloops ▸ hq⟩

inductive Notifies (w w' : Waking) (assetId : String) (e : Event) : Prop
  | same (hsame : w'.notify.lookup assetId = w.notify.lookup assetId)
  | signalled (hfull : w'.notify.lookup assetId = (w.notify.lookup assetId).map fun _ => true)
  | opened {p : Nat} (he : e = .wait p) (hloop : w.plane.loops p = some ⟨assetId, .waiting⟩)
      (hnone : w.notify.lookup assetId = none) (hempty : w'.notify.lookup assetId = some false)
  | taken (hempty : w'.notify.lookup assetId = some false) (hawake : w'.Awake assetId)

theorem notifies_of_step (he : w.step e = some w') (assetId : String) :
    Notifies w w' assetId e := by
  cases moves_of_step he with
  | @plane e n hwake hstep =>
      cases signalled w.plane.mailbox e with
      | none => exact .same rfl
      | some target =>
          by_cases heq : assetId = target
          · exact .signalled ((lookup_signalLocked w.notify target).trans (if_pos heq))
          · exact .same ((lookup_signalLocked w.notify target).trans (if_neg heq))
  | @waited p target hloop =>
      have hlookup := @lookup_openChannel assetId w.notify target
      split at hlookup
      next hnew =>
        obtain ⟨rfl, hnone⟩ := hnew
        exact .opened rfl hloop hnone hlookup
      next => exact .same hlookup
  | @woken _ p target n notify hstep hloop hloops hmailbox hnotify =>
      rcases hnotify with rfl | rfl
      · exact .same rfl
      · by_cases heq : assetId = target
        · subst heq
          refine .taken (AList.lookup_insert _) ⟨p, .checking, ?_, rfl⟩
          dsimp only
          rw [hloops, Function.update_self]
        · exact .same (AList.lookup_insert_ne heq)

/-- The loop that is on its way to the mailbox gets there, or it goes. -/
theorem awake_after (hbacked : w.plane.Backed) (hfiled : w.plane.mailbox.Filed)
    (he : w.step e = some w')
    (hdue : w'.plane.mailbox.Due assetId) (hawake : w.Awake assetId) :
    w'.Awake assetId ∨ ∃ p phase e', e = .plane e' ∧ ControlPlane.Departs p e' ∧
      w.plane.loops p = some ⟨assetId, phase⟩ ∧ phase.wakeful = true := by
  obtain ⟨q, phase, hq, hphase⟩ := hawake
  -- another loop's step leaves this one where it is
  have hupdate : ∀ {p : Nat} {loop : Option SessionLoop},
      w'.plane.loops = Function.update w.plane.loops p loop →
      (q = p → ∃ phase', loop = some ⟨assetId, phase'⟩ ∧ phase'.wakeful = true) →
      w'.Awake assetId := by
    intro p loop hloops hown
    by_cases heq : q = p
    · obtain ⟨phase', hloop, hphase'⟩ := hown heq
      exact ⟨p, phase', by rw [hloops, Function.update_self, hloop], hphase'⟩
    · exact ⟨q, phase, by rw [hloops, Function.update_of_ne heq, hq], hphase⟩
  have hself : ∀ {other : String} {phase' : LoopPhase},
      w.plane.loops q = some ⟨other, phase'⟩ → assetId = other ∧ phase = phase' := by
    intro other phase' h
    rw [hq] at h
    cases h
    exact ⟨rfl, rfl⟩
  cases moves_of_step he with
  | waited hloop => exact Or.inl ⟨q, phase, hq, hphase⟩
  | woken hstep hloop hloops hmailbox hnotify =>
      refine Or.inl (hupdate hloops ?_)
      rintro rfl
      obtain ⟨rfl, -⟩ := hself hloop
      exact ⟨_, rfl, rfl⟩
  | @plane e n hwake hstep =>
      cases ControlPlane.turns_of_step hwake hstep with
      | handled hloops hmailbox => exact Or.inl ⟨q, phase, hloops ▸ hq, hphase⟩
      | looked hloop hloops hmailbox =>
          refine Or.inl (hupdate hloops ?_)
          rintro rfl
          obtain ⟨rfl, -⟩ := hself hloop
          exact absurd (hmailbox ▸ hdue) (hfiled.not_due_nextDispatch _ _)
      | @shifted _ _ p loop hshifts hloops hmailbox =>
          by_cases heq : q = p
          · subst heq
            cases hshifts with
            | connected => exact absurd (hbacked _ _ hq) (lt_irrefl _)
            | moved hloop hphase₀ hphase' =>
                obtain ⟨rfl, -⟩ := hself hloop
                exact Or.inl (hupdate hloops fun _ => ⟨_, rfl, hphase'⟩)
            | departed hdeparts hloop hphase' =>
                obtain ⟨rfl, rfl⟩ := hself hloop
                exact Or.inr ⟨q, phase, e, rfl, hdeparts, hq, hphase⟩
            | unregistered hloop =>
                obtain ⟨rfl, rfl⟩ := hself hloop
                cases hphase
          · exact Or.inl (hupdate hloops fun h => absurd h heq)

/-! ## Whole runs -/

structure Settled (w : Waking) : Prop where
  backed : w.plane.Backed
  filed : w.plane.mailbox.Filed
  selecting : ∀ p ∈ w.selecting, ∃ assetId, w.plane.loops p = some ⟨assetId, .waiting⟩ ∧
    (w.notify.lookup assetId).isSome = true

theorem settled_start : start.Settled where
  backed := by intro p loop hloop; cases hloop
  filed := ⟨fun id c hc => (nomatch hc), fun _ => List.nodup_nil, fun assetId id hid => (nomatch hid)⟩
  selecting := by intro p hp; cases hp

theorem backed_step (hbacked : w.plane.Backed) (he : w.step e = some w') : w'.plane.Backed := by
  cases moves_of_step he with
  | plane hwake hstep => exact hbacked.step hstep
  | waited hloop => exact hbacked
  | woken hstep hloop hloops hmailbox hnotify => exact hbacked.step hstep

theorem channel_step (he : w.step e = some w') (hopen : (w.notify.lookup assetId).isSome = true) :
    (w'.notify.lookup assetId).isSome = true := by
  cases notifies_of_step he assetId with
  | same hsame => rw [hsame, hopen]
  | signalled hfull => rw [hfull, Option.isSome_map, hopen]
  | opened _ hloop hnone hempty => rw [hempty, Option.isSome_some]
  | taken hempty hawake => rw [hempty, Option.isSome_some]

/-- Only the end of its `Wait` moves a loop that waits. -/
theorem waiting_plane {n n' : ControlPlane} {e : ControlPlane.Event} (hbacked : n.Backed)
    (hturns : n.Turns e n') {p : Nat} (hloop : n.loops p = some ⟨assetId, .waiting⟩) :
    n'.loops p = some ⟨assetId, .waiting⟩ := by
  cases hturns with
  | handled hloops hmailbox => exact hloops ▸ hloop
  | looked hq hloops hmailbox =>
      rw [hloops, Function.update_of_ne, hloop]
      rintro rfl
      cases hloop.symm.trans hq
  | @shifted _ _ q loop hshifts hloops hmailbox =>
      rw [hloops, Function.update_of_ne, hloop]
      rintro rfl
      cases hshifts with
      | connected => exact lt_irrefl _ (hbacked _ _ hloop)
      | moved hq hphase hphase' =>
          cases hloop.symm.trans hq
          cases hphase
      | departed he hq hphase =>
          cases hloop.symm.trans hq
          cases hphase
      | unregistered hq => cases hloop.symm.trans hq

theorem Settled.step (h : w.Settled) (he : w.step e = some w') : w'.Settled where
  backed := backed_step h.backed he
  filed := filed_step h.filed he
  selecting p hp := by
    cases moves_of_step he with
    | plane hwake hstep =>
        obtain ⟨assetId, hloop, hopen⟩ := h.selecting p hp
        exact ⟨assetId, waiting_plane h.backed (ControlPlane.turns_of_step hwake hstep) hloop,
          channel_step he hopen⟩
    | @waited q assetId hloop =>
        cases Finset.mem_insert.mp hp with
        | inl heq =>
            refine ⟨assetId, heq ▸ hloop, ?_⟩
            dsimp only
            rw [lookup_openChannel]
            split
            next => rfl
            next hold => exact Option.isSome_iff_ne_none.mpr fun hnone => hold ⟨rfl, hnone⟩
        | inr hp =>
            obtain ⟨other, hother, hopen⟩ := h.selecting p hp
            exact ⟨other, hother, channel_step he hopen⟩
    | woken hstep hloop hloops hmailbox hnotify =>
        obtain ⟨hne, hp⟩ := Finset.mem_erase.mp hp
        obtain ⟨other, hother, hopen⟩ := h.selecting p hp
        exact ⟨other, by rw [hloops, Function.update_of_ne hne, hother], channel_step he hopen⟩

theorem Explained.cons {past : List (Waking × Event)} (h : Explained past assetId)
    (hlook : ¬ w.Looks assetId e) : Explained ((w, e) :: past) assetId := by
  obtain ⟨later, v, e', earlier, rfl, hcause, hlater⟩ := h
  refine ⟨(w, e) :: later, v, e', earlier, rfl, hcause, fun s hs => ?_⟩
  cases List.mem_cons.mp hs with
  | inl heq => exact heq ▸ hlook
  | inr hs => exact hlater s hs

theorem Cause.explained (h : w.Cause assetId e) (past : List (Waking × Event)) :
    Explained ((w, e) :: past) assetId :=
  ⟨[], w, e, past, rfl, h, fun _ hs => nomatch hs⟩

/-- A step that leaves the loops of an asset asleep on work is a cause, or they were so
before. -/
theorem Overslept.before (hsettled : w.Settled) (he : w.step e = some w')
    (h : w'.Overslept assetId) : w.Cause assetId e ∨ w.Overslept assetId := by
  have hdue := due_before hsettled.filed he h.due h.empty
  have hasleep := asleep_before hsettled.filed he h.due h.asleep
  cases notifies_of_step he assetId with
  | signalled hfull =>
      have hempty := hfull.symm.trans h.empty
      simp at hempty
  | taken hempty hawake => exact absurd hawake h.noone
  | opened hwait hloop hnone hempty =>
      subst hwait
      exact Or.inl (.opened hloop hnone hdue)
  | same hsame =>
      by_cases hawake : w.Awake assetId
      · rcases awake_after hsettled.backed hsettled.filed he h.due hawake with
          hstill | ⟨p, phase, e', rfl, hdeparts, hloop, hphase⟩
        · exact absurd hstill h.noone
        · exact Or.inl (.departed hdeparts hloop hphase hasleep)
      · exact Or.inr ⟨hsame ▸ h.empty, hasleep, hdue, hawake⟩

theorem Overslept.not_looks (h : w.Overslept assetId) (e : Event) : ¬ w.Looks assetId e := by
  rintro ⟨p, now, -, hloop⟩
  exact h.noone ⟨p, .taking, hloop, rfl⟩

theorem runs_settled {past : List (Waking × Event)}
    (hrun : Course step (fun _ _ _ => True) start past w) :
    w.Settled ∧ ∀ assetId, w.Overslept assetId → Explained past assetId := by
  apply Course.invariant
    (fun past w => w.Settled ∧ ∀ assetId, w.Overslept assetId → Explained past assetId) ?_ ?_ hrun
  · refine ⟨settled_start, fun assetId h => ?_⟩
    obtain ⟨p, hp⟩ := h.asleep
    cases hp
  · intro past w e w' h _ he
    refine ⟨h.1.step he, fun assetId hover => ?_⟩
    cases hover.before h.1 he with
    | inl hcause => exact hcause.explained past
    | inr hbefore => exact (h.2 assetId hbefore).cons (hbefore.not_looks e)

/-- No wake-up is lost but in two situations.  While a loop is in its `select` and something
is due for its asset, the channel holds the signal, or a loop of the asset is on its way to
the mailbox, or, with no look into the mailbox since: the work was there when the channel was
made, or a loop of the asset went before it had looked, while another one waited. -/
theorem no_lost_wakeup {past : List (Waking × Event)}
    (hrun : Course step (fun _ _ _ => True) start past w) {p : Nat} (hp : p ∈ w.selecting)
    (hname : (w.plane.loops p).map (fun loop => loop.assetId) = some assetId)
    (hdue : w.plane.mailbox.Due assetId) :
    w.notify.lookup assetId = some true ∨ w.Awake assetId ∨ Explained past assetId := by
  obtain ⟨hsettled, hexplained⟩ := runs_settled hrun
  obtain ⟨other, hloop, hopen⟩ := hsettled.selecting p hp
  rw [hloop] at hname
  obtain rfl : other = assetId := Option.some.inj hname
  obtain ⟨held, hheld⟩ := Option.isSome_iff_exists.mp hopen
  cases held with
  | true => exact Or.inl hheld
  | false =>
      by_cases hawake : w.Awake other
      · exact Or.inr (Or.inl hawake)
      · exact Or.inr (Or.inr (hexplained other ⟨hheld, ⟨p, hloop⟩, hdue, hawake⟩))

/-- A command that comes between the first look into the mailbox and the first `Wait`. -/
theorem no_lost_wakeup_first_wait :
    ∃ past w, Course step (fun _ _ _ => True) start past w ∧
      w.notify.lookup "a1" = some false ∧ w.plane.mailbox.Due "a1" ∧
      (w.notify.lookup "a1" = some true ∨ w.Awake "a1" ∨ Explained past "a1") := by
  obtain ⟨past, w, hrun, hp, hname, hempty, hid, hqueued⟩ := course_of_any step
    (fun _ _ _ => True) (s := start)
    [.plane (.connect (RegistryRun.sampleArgs "a1" "s1")), .plane (.welcome 0 true),
      .plane (.pass 0), .plane (.nextDispatch 0 0),
      .plane (.submit ControlPlane.sampleDispatch 0), .wait 0]
    (fun _ w => 0 ∈ w.selecting ∧
      (w.plane.loops 0).map (fun loop => loop.assetId) = some "a1" ∧
      w.notify.lookup "a1" = some false ∧ "c1" ∈ w.plane.mailbox.queue "a1" ∧
      w.plane.mailbox.Queued "c1")
    (by decide +kernel)
  have hdue : w.plane.mailbox.Due "a1" := Or.inl ⟨"c1", hid, hqueued⟩
  exact ⟨past, w, hrun, hempty, hdue, no_lost_wakeup hrun hp hname hdue⟩

end Waking

end TomAgent.Connector
