import TomAgent.Platform.Store

/-!
# The mailbox

Commands on their way to an agent, by id and in order of arrival by asset.  Every
operation runs under the mailbox's mutex.  The queues hold ids; a command has one
record, under its id.
-/

namespace TomAgent.Connector

open Platform

inductive CommandState where
  | queued
  | dispatched
  | terminal
  | expired
deriving Repr, DecidableEq

structure MailboxCommand where
  cmdId : String
  action : String
  params : List (String × String)
  timeoutSec : Int
  state : CommandState
  queuedAt : Int
  expiresAt : Int
  result : Option Payload

structure Mailbox where
  perAsset : Nat
  ttl : Int
  byAsset : AList (fun _ : String => List String)
  byID : AList (fun _ : String => MailboxCommand)
  pendingCancels : AList (fun _ : String => List String)

inductive MailboxError where
  | full
  | dupCmdID
  | notCancellable
deriving Repr, DecidableEq

namespace Mailbox

def new (perAsset : Nat) (ttl : Int) : Mailbox := ⟨perAsset, ttl, ∅, ∅, ∅⟩

def queue (m : Mailbox) (assetId : String) : List String := (m.byAsset.lookup assetId).getD []

def cancels (m : Mailbox) (assetId : String) : List String :=
  (m.pendingCancels.lookup assetId).getD []

def Pending (m : Mailbox) (cmdId : String) : Prop :=
  ∃ c ∈ m.byID.lookup cmdId, c.state = .queued ∨ c.state = .dispatched

instance (m : Mailbox) (cmdId : String) : Decidable (m.Pending cmdId) := by
  unfold Pending
  cases m.byID.lookup cmdId with
  | none => exact isFalse fun h => by simp at h
  | some c => exact decidable_of_iff (c.state = .queued ∨ c.state = .dispatched) (by simp)

def submit (m : Mailbox) (d : Dispatch) (now : Int) : Except MailboxError Mailbox :=
  match m.byID.lookup d.cmdId with
  | some _ => .error .dupCmdID
  | none =>
      if m.perAsset ≤ ((m.queue d.assetId).filter fun id => m.Pending id).length then .error .full
      else .ok { m with
        byAsset := m.byAsset.insert d.assetId (m.queue d.assetId ++ [d.cmdId])
        byID := m.byID.insert d.cmdId
          ⟨d.cmdId, d.action, d.params, d.timeoutSec, .queued, now, now + m.ttl, none⟩ }

/-- Undispatched commands are dropped; for dispatched ones a cancel frame is due. -/
def cancel (m : Mailbox) (assetId cmdId : String) : Except MailboxError (Bool × Mailbox) :=
  match m.byID.lookup cmdId with
  | none => .error .notCancellable
  | some c =>
      match c.state with
      | .terminal | .expired => .error .notCancellable
      | .queued => .ok (false, { m with byID := m.byID.insert cmdId { c with state := .expired } })
      | .dispatched => .ok (true, { m with
          pendingCancels := m.pendingCancels.insert assetId (m.cancels assetId ++ [cmdId]) })

/-- One pass over a queue: the records after it, the ids kept and the commands to
dispatch. -/
def sweep (now : Int) : List String → AList (fun _ : String => MailboxCommand) →
    AList (fun _ : String => MailboxCommand) × List String × List MailboxCommand
  | [], byID => (byID, [], [])
  | id :: rest, byID =>
      match byID.lookup id with
      | none =>
          let r := sweep now rest byID
          (r.1, id :: r.2.1, r.2.2)
      | some c =>
          match c.state with
          | .queued =>
              if c.expiresAt < now then sweep now rest (byID.insert id { c with state := .expired })
              else
                let c := { c with state := .dispatched }
                let r := sweep now rest (byID.insert id c)
                (r.1, id :: r.2.1, c :: r.2.2)
          | .dispatched =>
              if c.expiresAt < now then sweep now rest (byID.insert id { c with state := .expired })
              else
                let r := sweep now rest byID
                (r.1, id :: r.2.1, r.2.2)
          | _ =>
              let r := sweep now rest byID
              (r.1, id :: r.2.1, r.2.2)

/-- What the control loop of the asset has to send: commands, then cancels. -/
def nextDispatch (m : Mailbox) (assetId : String) (now : Int) :
    Mailbox × List MailboxCommand × List String :=
  let r := sweep now (m.queue assetId) m.byID
  ({ m with
      byID := r.1
      byAsset := m.byAsset.insert assetId r.2.1
      pendingCancels := m.pendingCancels.erase assetId },
    r.2.2, m.cancels assetId)

def complete (m : Mailbox) (cmdId : String) (result : Payload) : Mailbox :=
  match m.byID.lookup cmdId with
  | none => m
  | some c =>
      { m with byID := m.byID.insert cmdId { c with state := .terminal, result := some result } }

/-! ## Known and waiting commands -/

def Knows (m : Mailbox) (cmdId : String) : Prop := cmdId ∈ m.byID

def Queued (m : Mailbox) (cmdId : String) : Prop :=
  ∃ c, m.byID.lookup cmdId = some c ∧ c.state = .queued

def Keyed (byID : AList (fun _ : String => MailboxCommand)) : Prop :=
  ∀ id c, byID.lookup id = some c → c.cmdId = id

theorem Queued.knows {m : Mailbox} {cmdId : String} (h : m.Queued cmdId) : m.Knows cmdId := by
  obtain ⟨c, hc, -⟩ := h
  exact AList.lookup_isSome.mp (by rw [hc]; rfl)

theorem insert_unqueued {byID : AList (fun _ : String => MailboxCommand)} {id : String}
    {c : MailboxCommand} (hid : id ∈ byID) (hc : c.state ≠ .queued) :
    (∀ id', id' ∈ byID.insert id c ↔ id' ∈ byID) ∧
      ∀ id' c', (byID.insert id c).lookup id' = some c' → c'.state = .queued →
        id' ≠ id ∧ byID.lookup id' = some c' := by
  constructor
  · intro id'
    rw [AList.mem_insert]
    constructor
    · rintro (rfl | h)
      · exact hid
      · exact h
    · exact Or.inr
  · intro id' c' hlookup hqueued
    by_cases heq : id' = id
    · subst heq
      rw [AList.lookup_insert] at hlookup
      cases hlookup
      exact absurd hqueued hc
    · rw [AList.lookup_insert_ne heq] at hlookup
      exact ⟨heq, hlookup⟩

theorem Keyed.insert {byID : AList (fun _ : String => MailboxCommand)} (h : Keyed byID)
    {id : String} {c : MailboxCommand} (hc : c.cmdId = id) : Keyed (byID.insert id c) := by
  intro id' c' hlookup
  by_cases heq : id' = id
  · subst heq
    rw [AList.lookup_insert] at hlookup
    cases hlookup
    exact hc
  · rw [AList.lookup_insert_ne heq] at hlookup
    exact h id' c' hlookup

/-- What a pass over a queue leaves: the same ids, fewer queued records, and every
command it returns was queued and no longer is. -/
structure SweepSpec (before after : AList (fun _ : String => MailboxCommand))
    (cmds : List MailboxCommand) : Prop where
  keyed : Keyed after
  ids : ∀ id, id ∈ after ↔ id ∈ before
  queued : ∀ id c, after.lookup id = some c → c.state = .queued →
    before.lookup id = some c ∧ ∀ d ∈ cmds, d.cmdId ≠ id
  taken : ∀ d ∈ cmds, ∃ c, before.lookup d.cmdId = some c ∧ c.state = .queued

theorem SweepSpec.cons {byID after : AList (fun _ : String => MailboxCommand)}
    {cmds : List MailboxCommand} {id : String} {c c' : MailboxCommand}
    (hid : byID.lookup id = some c) (hc' : c'.state ≠ .queued)
    (h : SweepSpec (byID.insert id c') after cmds) : SweepSpec byID after cmds := by
  have hmem : id ∈ byID := AList.lookup_isSome.mp (by rw [hid]; rfl)
  obtain ⟨hids, hlookup⟩ := insert_unqueued hmem hc'
  refine ⟨h.keyed, fun id' => (h.ids id').trans (hids id'), ?_, ?_⟩
  · intro id' d hd hqueued
    obtain ⟨hbefore, hcmds⟩ := h.queued id' d hd hqueued
    exact ⟨(hlookup id' d hbefore hqueued).2, hcmds⟩
  · intro d hd
    obtain ⟨b, hb, hqueued⟩ := h.taken d hd
    exact ⟨b, (hlookup d.cmdId b hb hqueued).2, hqueued⟩

theorem sweep_spec (now : Int) (q : List String) {byID : AList (fun _ : String => MailboxCommand)}
    (hkeyed : Keyed byID) : SweepSpec byID (sweep now q byID).1 (sweep now q byID).2.2 := by
  induction q generalizing byID with
  | nil =>
      exact ⟨hkeyed, fun _ => Iff.rfl, fun id c hc _ => ⟨hc, fun d hd => by cases hd⟩,
        fun d hd => by cases hd⟩
  | cons id rest ih =>
      unfold sweep
      split
      next => exact ih hkeyed
      next c hc =>
        have hname : c.cmdId = id := hkeyed id c hc
        split
        next hstate =>
          split
          next =>
            have hrest := ih (hkeyed.insert (c := { c with state := .expired }) hname)
            exact hrest.cons hc (by simp)
          next =>
            -- This command is dispatched; the pass over the rest leaves its record alone.
            have hrest := ih (hkeyed.insert (c := { c with state := .dispatched }) hname)
            have hall := hrest.cons hc (by simp)
            refine ⟨hrest.keyed, hall.ids, ?_, ?_⟩
            · intro id' d hd hqueued
              refine ⟨(hall.queued id' d hd hqueued).1, fun e he => ?_⟩
              cases List.mem_cons.mp he with
              | inr he => exact (hall.queued id' d hd hqueued).2 e he
              | inl he =>
                  subst he
                  rintro rfl
                  have hafter := (hrest.queued c.cmdId d hd hqueued).1
                  rw [hname, AList.lookup_insert] at hafter
                  cases hafter
                  cases hqueued
            · intro e he
              cases List.mem_cons.mp he with
              | inr he => exact hall.taken e he
              | inl he =>
                  subst he
                  exact ⟨c, by rw [hname]; exact hc, hstate⟩
        next =>
          split
          next =>
            have hrest := ih (hkeyed.insert (c := { c with state := .expired }) hname)
            exact hrest.cons hc (by simp)
          next => exact ih hkeyed
        next => exact ih hkeyed

/-- The commands it knows, minus none; the commands it has queued, minus some. -/
def Leaves (m m' : Mailbox) : Prop :=
  Keyed m'.byID ∧ (∀ id, m'.Knows id ↔ m.Knows id) ∧ ∀ id, m'.Queued id → m.Queued id

theorem nextDispatch_spec {m : Mailbox} (hkeyed : Keyed m.byID) (assetId : String) (now : Int) :
    m.Leaves (m.nextDispatch assetId now).1 ∧
      ∀ c ∈ (m.nextDispatch assetId now).2.1,
        m.Queued c.cmdId ∧ ¬ (m.nextDispatch assetId now).1.Queued c.cmdId := by
  have h := sweep_spec now (m.queue assetId) hkeyed
  refine ⟨⟨h.keyed, h.ids, ?_⟩, ?_⟩
  · rintro id ⟨c, hc, hqueued⟩
    exact ⟨c, (h.queued id c hc hqueued).1, hqueued⟩
  · intro c hc
    refine ⟨h.taken c hc, ?_⟩
    rintro ⟨d, hd, hqueued⟩
    exact (h.queued c.cmdId d hd hqueued).2 c hc rfl

inductive Cancels (m : Mailbox) (assetId cmdId : String) : Bool → Mailbox → Prop
  | withdrawn {c : MailboxCommand} (hc : m.byID.lookup cmdId = some c) (hstate : c.state = .queued) :
      Cancels m assetId cmdId false { m with byID := m.byID.insert cmdId { c with state := .expired } }
  | due {c : MailboxCommand} (hc : m.byID.lookup cmdId = some c) (hstate : c.state = .dispatched) :
      Cancels m assetId cmdId true { m with
        pendingCancels := m.pendingCancels.insert assetId (m.cancels assetId ++ [cmdId]) }

theorem cancel_cancels {m m' : Mailbox} {assetId cmdId : String} {push : Bool}
    (h : m.cancel assetId cmdId = .ok (push, m')) : m.Cancels assetId cmdId push m' := by
  unfold cancel at h
  split at h
  next => cases h
  next c hc =>
    split at h
    next => cases h
    next => cases h
    next hstate =>
      cases h
      exact .withdrawn hc hstate
    next hstate =>
      cases h
      exact .due hc hstate

theorem cancel_spec {m m' : Mailbox} (hkeyed : Keyed m.byID) {assetId cmdId : String} {push : Bool}
    (h : m.cancel assetId cmdId = .ok (push, m')) : m.Leaves m' := by
  cases cancel_cancels h with
  | @withdrawn c hc hstate =>
      have hmem : cmdId ∈ m.byID := AList.lookup_isSome.mp (by rw [hc]; rfl)
      have hins := insert_unqueued (c := { c with state := .expired }) hmem (by simp)
      refine ⟨hkeyed.insert (hkeyed cmdId c hc), hins.1, ?_⟩
      rintro id ⟨d, hd, hqueued⟩
      exact ⟨d, (hins.2 id d hd hqueued).2, hqueued⟩
  | due hc hstate => exact ⟨hkeyed, fun _ => Iff.rfl, fun _ hq => hq⟩

theorem complete_spec {m : Mailbox} (hkeyed : Keyed m.byID) (cmdId : String) (result : Payload) :
    m.Leaves (m.complete cmdId result) := by
  unfold complete
  split
  next => exact ⟨hkeyed, fun _ => Iff.rfl, fun _ hq => hq⟩
  next c hc =>
    have hmem : cmdId ∈ m.byID := AList.lookup_isSome.mp (by rw [hc]; rfl)
    have hins := insert_unqueued
      (c := { c with state := .terminal, result := some result }) hmem (by simp)
    refine ⟨hkeyed.insert (hkeyed cmdId c hc), hins.1, ?_⟩
    rintro id ⟨d, hd, hqueued⟩
    exact ⟨d, (hins.2 id d hd hqueued).2, hqueued⟩

theorem submit_spec {m m' : Mailbox} (hkeyed : Keyed m.byID) {d : Dispatch} {now : Int}
    (h : m.submit d now = .ok m') :
    Keyed m'.byID ∧ ¬ m.Knows d.cmdId ∧ (∀ id, m'.Knows id ↔ id = d.cmdId ∨ m.Knows id) ∧
      ∀ id, m'.Queued id → id = d.cmdId ∨ m.Queued id := by
  unfold submit at h
  split at h
  next => cases h
  next hnone =>
    split at h
    next => cases h
    next =>
      cases h
      refine ⟨hkeyed.insert rfl, ?_, fun id => AList.mem_insert _, ?_⟩
      · exact AList.lookup_eq_none.mp hnone
      · rintro id ⟨c, hc, hqueued⟩
        by_cases heq : id = d.cmdId
        · exact Or.inl heq
        · rw [AList.lookup_insert_ne heq] at hc
          exact Or.inr ⟨c, hc, hqueued⟩

end Mailbox

end TomAgent.Connector
