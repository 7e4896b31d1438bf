import TomAgent.Connector.Mailbox
import TomAgent.Core.Execution
import TomAgent.Core.Table

/-!
# Runs of the mailbox

A log records what was submitted, what was handed out for dispatch and what was
cancelled while it was queued.  The invariant ties the mailbox to its log.
-/

namespace TomAgent.Connector

open Platform Execution

/-! ## A pass over a queue, record by record -/

namespace Mailbox

/-- A command that counts and whose time is over. -/
def Overdue (now : Int) (c : MailboxCommand) : Prop :=
  (c.state = .queued ∨ c.state = .dispatched) ∧ c.expiresAt < now

instance (now : Int) (c : MailboxCommand) : Decidable (Overdue now c) := by
  unfold Overdue; infer_instance

/-- What a pass does to a record. -/
def swept (now : Int) (c : MailboxCommand) : MailboxCommand :=
  if Overdue now c then { c with state := .expired }
  else if c.state = .queued then { c with state := .dispatched }
  else c

def handedOut (now : Int) (c : MailboxCommand) : Option MailboxCommand :=
  if c.state = .queued ∧ ¬ c.expiresAt < now then some { c with state := .dispatched } else none

theorem sweep_cons {now : Int} {id : String} {q : List String}
    {byID : AList (fun _ : String => MailboxCommand)} {c : MailboxCommand}
    (hc : byID.lookup id = some c) :
    ∃ byID' : AList (fun _ : String => MailboxCommand),
      (∀ x, byID'.lookup x = if x = id then some (swept now c) else byID.lookup x) ∧
        sweep now (id :: q) byID =
          ((sweep now q byID').1,
            if Overdue now c then (sweep now q byID').2.1 else id :: (sweep now q byID').2.1,
            (handedOut now c).toList ++ (sweep now q byID').2.2) := by
  have hinsert : ∀ c' x, (byID.insert id c').lookup x = if x = id then some c' else byID.lookup x := by
    intro c' x
    split
    next heq => rw [heq, AList.lookup_insert]
    next hne => exact AList.lookup_insert_ne hne
  have hsame : swept now c = c →
      ∀ x, byID.lookup x = if x = id then some (swept now c) else byID.lookup x := by
    intro hc' x
    split
    next heq => rw [heq, hc, hc']
    next => rfl
  simp only [sweep, hc]
  cases hstate : c.state with
  | queued =>
      by_cases hlate : c.expiresAt < now
      · refine ⟨_, hinsert (swept now c), ?_⟩
        simp [swept, handedOut, Overdue, hstate, hlate]
      · refine ⟨_, hinsert (swept now c), ?_⟩
        simp [swept, handedOut, Overdue, hstate, hlate]
  | dispatched =>
      by_cases hlate : c.expiresAt < now
      · refine ⟨_, hinsert (swept now c), ?_⟩
        simp [swept, handedOut, Overdue, hstate, hlate]
      · refine ⟨byID, hsame (by simp [swept, Overdue, hstate, hlate]), ?_⟩
        simp [handedOut, Overdue, hstate, hlate]
  | terminal =>
      refine ⟨byID, hsame (by simp [swept, Overdue, hstate]), ?_⟩
      simp [handedOut, Overdue, hstate]
  | expired =>
      refine ⟨byID, hsame (by simp [swept, Overdue, hstate]), ?_⟩
      simp [handedOut, Overdue, hstate]

/-- The pass as a map over the records, a filter on the queue and a selection from it. -/
theorem sweep_eq (now : Int) {q : List String} (hq : q.Nodup)
    (byID : AList (fun _ : String => MailboxCommand)) :
    (∀ id, (sweep now q byID).1.lookup id =
        if id ∈ q then (byID.lookup id).map (swept now) else byID.lookup id) ∧
      (sweep now q byID).2.1 = q.filter (fun id => (byID.lookup id).all fun c => ¬ Overdue now c) ∧
      (sweep now q byID).2.2 = q.filterMap fun id => (byID.lookup id).bind (handedOut now) := by
  induction q generalizing byID with
  | nil => simp [sweep]
  | cons id q ih =>
      obtain ⟨hid, hq⟩ := List.nodup_cons.mp hq
      cases hc : byID.lookup id with
      | none =>
          obtain ⟨hlookup, hkept, hout⟩ := ih hq byID
          simp only [sweep, hc]
          refine ⟨fun x => ?_, by simp [hkept, hc], by simp [hout, hc]⟩
          rw [hlookup]
          by_cases hx : x = id
          · subst hx
            simp [hid, hc]
          · simp [hx]
      | some c =>
          obtain ⟨byID', hbyID', hsweep⟩ := sweep_cons (q := q) hc
          obtain ⟨hlookup, hkept, hout⟩ := ih hq byID'
          -- the rest of the queue does not mention this id
          have hrest : ∀ x ∈ q, byID'.lookup x = byID.lookup x := by
            intro x hx
            rw [hbyID', if_neg (fun heq : x = id => hid (heq ▸ hx))]
          rw [hsweep]
          refine ⟨fun x => ?_, ?_, ?_⟩
          · dsimp only
            rw [hlookup, hbyID']
            by_cases hx : x = id
            · subst hx
              simp [hid, hc]
            · simp [hx]
          · have hfilter : q.filter (fun x => (byID'.lookup x).all fun c => ¬ Overdue now c) =
                q.filter (fun x => (byID.lookup x).all fun c => ¬ Overdue now c) := by
              apply List.filter_congr
              intro x hx
              rw [hrest x hx]
            rw [hkept, hfilter, List.filter_cons, hc]
            by_cases hlate : Overdue now c
            · simp [hlate]
            · simp [hlate]
          · have hselect : q.filterMap (fun x => (byID'.lookup x).bind (handedOut now)) =
                q.filterMap fun x => (byID.lookup x).bind (handedOut now) := by
              apply List.filterMap_congr
              intro x hx
              rw [hrest x hx]
            rw [hout, hselect, List.filterMap_cons, hc, Option.bind_some]
            cases handedOut now c with
            | none => rfl
            | some d => rfl

instance (m : Mailbox) (cmdId : String) : Decidable (m.Knows cmdId) :=
  inferInstanceAs (Decidable (cmdId ∈ m.byID))

instance (m : Mailbox) (cmdId : String) : Decidable (m.Queued cmdId) :=
  Table.decidableFound (m.byID.lookup cmdId) fun c => c.state = .queued

end Mailbox

/-! ## Records only move on -/

/-- How far a command has come. -/
def CommandState.stage : CommandState → Nat
  | .queued => 0
  | .dispatched => 1
  | .terminal => 2
  | .expired => 2

theorem CommandState.stage_eq_zero {s : CommandState} : s.stage = 0 ↔ s = .queued := by
  cases s <;> simp [stage]

theorem CommandState.stage_le_one {s : CommandState} :
    s.stage ≤ 1 ↔ s = .queued ∨ s = .dispatched := by
  cases s <;> simp [stage]

theorem CommandState.stage_le_two (s : CommandState) : s.stage ≤ 2 := by
  cases s <;> simp [stage]

theorem CommandState.stage_eq_two {s : CommandState} :
    s.stage = 2 ↔ s = .terminal ∨ s = .expired := by
  cases s <;> simp [stage]

/-- The same command, at least as far. -/
structure MailboxCommand.Ages (c c' : MailboxCommand) : Prop where
  cmdId : c'.cmdId = c.cmdId
  action : c'.action = c.action
  params : c'.params = c.params
  timeoutSec : c'.timeoutSec = c.timeoutSec
  expiresAt : c'.expiresAt = c.expiresAt
  stage : c.state.stage ≤ c'.state.stage

theorem MailboxCommand.Ages.refl (c : MailboxCommand) : c.Ages c := ⟨rfl, rfl, rfl, rfl, rfl, Nat.le_refl _⟩

namespace Mailbox

structure Ages (before after : AList (fun _ : String => MailboxCommand)) : Prop where
  back : ∀ id c', after.lookup id = some c' → ∃ c, before.lookup id = some c ∧ c.Ages c'
  forth : ∀ id c, before.lookup id = some c → ∃ c', after.lookup id = some c' ∧ c.Ages c'

theorem Ages.refl (byID : AList (fun _ : String => MailboxCommand)) : Ages byID byID :=
  ⟨fun _ c hc => ⟨c, hc, .refl c⟩, fun _ c hc => ⟨c, hc, .refl c⟩⟩

theorem Ages.insert {byID : AList (fun _ : String => MailboxCommand)} {id : String}
    {c c' : MailboxCommand} (hc : byID.lookup id = some c) (hages : c.Ages c') :
    Ages byID (byID.insert id c') := by
  constructor
  · intro x d hd
    by_cases hx : x = id
    · subst hx
      rw [AList.lookup_insert] at hd
      cases hd
      exact ⟨c, hc, hages⟩
    · rw [AList.lookup_insert_ne hx] at hd
      exact ⟨d, hd, .refl d⟩
  · intro x d hd
    by_cases hx : x = id
    · subst hx
      rw [hc] at hd
      cases hd
      exact ⟨c', AList.lookup_insert _, hages⟩
    · exact ⟨d, (AList.lookup_insert_ne hx).trans hd, .refl d⟩

theorem swept_ages (now : Int) (c : MailboxCommand) : c.Ages (swept now c) := by
  unfold swept
  split
  next hlate =>
    refine ⟨rfl, rfl, rfl, rfl, rfl, ?_⟩
    have hstage : c.state.stage ≤ 1 := CommandState.stage_le_one.mpr hlate.1
    exact hstage.trans (Nat.le_succ 1)
  next =>
    split
    next hqueued => exact ⟨rfl, rfl, rfl, rfl, rfl, by simp [hqueued, CommandState.stage]⟩
    next => exact .refl c

theorem sweep_ages (now : Int) {q : List String} (hq : q.Nodup)
    (byID : AList (fun _ : String => MailboxCommand)) : Ages byID (sweep now q byID).1 := by
  have hlookup := (sweep_eq now hq byID).1
  constructor
  · intro id c' hc'
    rw [hlookup] at hc'
    split at hc'
    next =>
      obtain ⟨c, hc, rfl⟩ := Option.map_eq_some_iff.mp hc'
      exact ⟨c, hc, swept_ages now c⟩
    next => exact ⟨c', hc', .refl c'⟩
  · intro id c hc
    rw [hlookup]
    split
    next => exact ⟨_, by rw [hc, Option.map_some], swept_ages now c⟩
    next => exact ⟨c, hc, .refl c⟩

variable {m m' : Mailbox}

theorem Ages.knows (h : Ages m.byID m'.byID) (id : String) : m'.Knows id ↔ m.Knows id := by
  unfold Knows
  rw [← AList.lookup_isSome, ← AList.lookup_isSome, Option.isSome_iff_exists, Option.isSome_iff_exists]
  constructor
  · rintro ⟨c', hc'⟩
    obtain ⟨c, hc, -⟩ := h.back id c' hc'
    exact ⟨c, hc⟩
  · rintro ⟨c, hc⟩
    obtain ⟨c', hc', -⟩ := h.forth id c hc
    exact ⟨c', hc'⟩

theorem Ages.queued (h : Ages m.byID m'.byID) {id : String} (hq : m'.Queued id) : m.Queued id := by
  obtain ⟨c', hc', hstate⟩ := hq
  obtain ⟨c, hc, hages⟩ := h.back id c' hc'
  have hstage := hages.stage
  rw [hstate] at hstage
  exact ⟨c, hc, CommandState.stage_eq_zero.mp (Nat.le_zero.mp hstage)⟩

theorem Ages.pending (h : Ages m.byID m'.byID) {id : String} (hp : m'.Pending id) : m.Pending id := by
  obtain ⟨c', hc', hstate⟩ := hp
  obtain ⟨c, hc, hages⟩ := h.back id c' hc'
  exact ⟨c, hc, CommandState.stage_le_one.mp
    (hages.stage.trans (CommandState.stage_le_one.mpr hstate))⟩

theorem queue_nextDispatch (m : Mailbox) (assetId : String) (now : Int) (other : String) :
    (m.nextDispatch assetId now).1.queue other =
      if other = assetId then (sweep now (m.queue assetId) m.byID).2.1 else m.queue other := by
  simp only [nextDispatch, queue]
  split
  next heq => rw [heq, AList.lookup_insert, Option.getD_some]
  next hne => rw [AList.lookup_insert_ne hne]

theorem Ages.keyed (h : Ages m.byID m'.byID) (hkeyed : Keyed m.byID) : Keyed m'.byID := by
  intro id c' hc'
  obtain ⟨c, hc, hages⟩ := h.back id c' hc'
  exact hages.cmdId.trans (hkeyed id c hc)

theorem cancel_ages {assetId cmdId : String} {push : Bool}
    (h : m.cancel assetId cmdId = .ok (push, m')) : Ages m.byID m'.byID := by
  cases cancel_cancels h with
  | @withdrawn c hc hstate => exact .insert hc ⟨rfl, rfl, rfl, rfl, rfl, c.state.stage_le_two⟩
  | due hc hstate => exact .refl _

theorem complete_ages (m : Mailbox) (cmdId : String) (result : Payload) :
    Ages m.byID (m.complete cmdId result).byID := by
  unfold complete
  split
  next => exact .refl _
  next c hc => exact .insert hc ⟨rfl, rfl, rfl, rfl, rfl, c.state.stage_le_two⟩

theorem submit_dupCmdID {d : Dispatch} {now : Int} (h : m.submit d now = .error .dupCmdID) :
    m.Knows d.cmdId := by
  unfold submit at h
  split at h
  next c hc => exact AList.lookup_isSome.mp (by rw [hc]; rfl)
  next =>
    split at h
    next => cases h
    next => cases h

def fresh (m : Mailbox) (d : Dispatch) (now : Int) : MailboxCommand :=
  ⟨d.cmdId, d.action, d.params, d.timeoutSec, .queued, now, now + m.ttl, none⟩

structure Accepts (m : Mailbox) (d : Dispatch) (now : Int) (m' : Mailbox) : Prop where
  unknown : m.byID.lookup d.cmdId = none
  room : ((m.queue d.assetId).filter fun id => m.Pending id).length < m.perAsset
  new : m'.byID.lookup d.cmdId = some (m.fresh d now)
  old : ∀ id, id ≠ d.cmdId → m'.byID.lookup id = m.byID.lookup id
  queue : ∀ assetId, m'.queue assetId =
    if d.assetId = assetId then m.queue assetId ++ [d.cmdId] else m.queue assetId
  perAsset : m'.perAsset = m.perAsset
  cancels : ∀ assetId, m'.cancels assetId = m.cancels assetId

theorem submit_accepts {d : Dispatch} {now : Int} (h : m.submit d now = .ok m') :
    m.Accepts d now m' := by
  unfold submit at h
  split at h
  next => cases h
  next hnone =>
    split at h
    next => cases h
    next hroom =>
      cases h
      refine ⟨hnone, by omega, AList.lookup_insert _, ?_, ?_, rfl, fun _ => rfl⟩
      · intro id hid
        exact AList.lookup_insert_ne hid
      · intro assetId
        unfold queue
        split
        next heq => rw [← heq, AList.lookup_insert, Option.getD_some]
        next hne => rw [AList.lookup_insert_ne (Ne.symm hne)]

theorem Accepts.knows {d : Dispatch} {now : Int} (h : m.Accepts d now m') (id : String) :
    m'.Knows id ↔ id = d.cmdId ∨ m.Knows id := by
  unfold Knows
  rw [← AList.lookup_isSome, ← AList.lookup_isSome]
  by_cases hid : id = d.cmdId
  · subst hid
    simp [h.new]
  · simp [h.old id hid, hid]

theorem Accepts.pending {d : Dispatch} {now : Int} (h : m.Accepts d now m') {id : String}
    (hid : id ≠ d.cmdId) : m'.Pending id ↔ m.Pending id := by
  unfold Pending
  rw [h.old id hid]

theorem Accepts.queued {d : Dispatch} {now : Int} (h : m.Accepts d now m') {id : String}
    (hid : id ≠ d.cmdId) : m'.Queued id ↔ m.Queued id := by
  unfold Queued
  rw [h.old id hid]

end Mailbox

/-! ## The log of a run -/

inductive MailboxOp where
  | submit (d : Dispatch) (now : Int)
  | cancel (assetId cmdId : String)
  | nextDispatch (assetId : String) (now : Int)
  | complete (cmdId : String) (result : Payload)

/-- A command that `NextDispatch` returned, for which asset and when. -/
structure Handout where
  assetId : String
  cmdId : String
  time : Int
  expiresAt : Int

structure MailboxLog where
  /-- Asset and id of every accepted command, in order. -/
  submitted : List (String × String)
  handouts : List Handout
  /-- Ids that were cancelled while they were queued. -/
  cancelled : List String

namespace MailboxLog

def empty : MailboxLog := ⟨[], [], []⟩

def submit (l : MailboxLog) (d : Dispatch) : MailboxLog :=
  { l with submitted := l.submitted ++ [(d.assetId, d.cmdId)] }

def cancel (l : MailboxLog) (cmdId : String) (push : Bool) : MailboxLog :=
  if push then l else { l with cancelled := l.cancelled ++ [cmdId] }

def handOut (l : MailboxLog) (assetId : String) (now : Int) (cmds : List MailboxCommand) : MailboxLog :=
  { l with handouts := l.handouts ++ cmds.map fun c => ⟨assetId, c.cmdId, now, c.expiresAt⟩ }

def idsOf (l : MailboxLog) (assetId : String) : List String :=
  (l.submitted.filter fun p => p.1 = assetId).map Prod.snd

def handedOutTo (l : MailboxLog) (assetId : String) : List String :=
  (l.handouts.filter fun h => h.assetId = assetId).map Handout.cmdId

@[simp] theorem idsOf_submit (l : MailboxLog) (d : Dispatch) (assetId : String) :
    (l.submit d).idsOf assetId = if d.assetId = assetId then l.idsOf assetId ++ [d.cmdId]
      else l.idsOf assetId := by
  unfold idsOf submit
  by_cases h : d.assetId = assetId
  · simp [List.filter_append, h]
  · simp [List.filter_append, h]

@[simp] theorem handedOutTo_handOut (l : MailboxLog) (other : String) (now : Int)
    (cmds : List MailboxCommand) (assetId : String) :
    (l.handOut other now cmds).handedOutTo assetId =
      if other = assetId then l.handedOutTo assetId ++ cmds.map MailboxCommand.cmdId
      else l.handedOutTo assetId := by
  unfold handedOutTo handOut
  by_cases h : other = assetId
  · simp [List.filter_append, List.filter_map, Function.comp_def, h]
  · simp [List.filter_append, List.filter_map, Function.comp_def, h]

theorem mem_idsOf {l : MailboxLog} {assetId cmdId : String} :
    cmdId ∈ l.idsOf assetId ↔ (assetId, cmdId) ∈ l.submitted := by
  simp [idsOf]

end MailboxLog

/-! ## Runs -/

structure MailboxRun where
  mailbox : Mailbox
  log : MailboxLog

namespace MailboxRun

def start (perAsset : Nat) (ttl : Int) : MailboxRun := ⟨.new perAsset ttl, .empty⟩

/-- A call that fails changes nothing. -/
def step (r : MailboxRun) : MailboxOp → MailboxRun
  | .submit d now =>
      match r.mailbox.submit d now with
      | .error _ => r
      | .ok m => ⟨m, r.log.submit d⟩
  | .cancel assetId cmdId =>
      match r.mailbox.cancel assetId cmdId with
      | .error _ => r
      | .ok (push, m) => ⟨m, r.log.cancel cmdId push⟩
  | .nextDispatch assetId now =>
      let taken := r.mailbox.nextDispatch assetId now
      ⟨taken.1, r.log.handOut assetId now taken.2.1⟩
  | .complete cmdId result => { r with mailbox := r.mailbox.complete cmdId result }

/-- What ties a mailbox to its log. -/
structure Disciplined (r : MailboxRun) : Prop where
  keyed : Mailbox.Keyed r.mailbox.byID
  known : ∀ id, r.mailbox.Knows id ↔ id ∈ r.log.submitted.map Prod.snd
  nodup : (r.log.submitted.map Prod.snd).Nodup
  queue : ∀ assetId, (r.mailbox.queue assetId).Sublist (r.log.idsOf assetId)
  waiting : ∀ p ∈ r.log.submitted, r.mailbox.Pending p.2 → p.2 ∈ r.mailbox.queue p.1
  limit : ∀ assetId,
    ((r.mailbox.queue assetId).filter fun id => r.mailbox.Pending id).length ≤ r.mailbox.perAsset
  order : ∀ assetId, (r.log.handedOutTo assetId ++
    (r.mailbox.queue assetId).filter fun id => r.mailbox.Queued id).Sublist (r.log.idsOf assetId)
  cancelled : ∀ id ∈ r.log.cancelled, r.mailbox.Knows id ∧ ¬ r.mailbox.Queued id ∧
    id ∉ r.log.handouts.map Handout.cmdId
  handouts : ∀ h ∈ r.log.handouts, h.time ≤ h.expiresAt ∧
    ∃ c, r.mailbox.byID.lookup h.cmdId = some c ∧ c.expiresAt = h.expiresAt ∧ c.state ≠ .queued

end MailboxRun

theorem map_cmdId_handedOut {byID : AList (fun _ : String => MailboxCommand)}
    (hkeyed : Mailbox.Keyed byID) (now : Int) (q : List String) :
    (q.filterMap fun id => (byID.lookup id).bind (Mailbox.handedOut now)).map MailboxCommand.cmdId =
      q.filter fun id => ((byID.lookup id).bind (Mailbox.handedOut now)).isSome := by
  induction q with
  | nil => rfl
  | cons id q ih =>
      cases hout : (byID.lookup id).bind (Mailbox.handedOut now) with
      | none =>
          rw [List.filterMap_cons, List.filter_cons, hout]
          exact ih
      | some d =>
          obtain ⟨c, hc, hd⟩ := Option.bind_eq_some_iff.mp hout
          have hname : d.cmdId = id := by
            unfold Mailbox.handedOut at hd
            split at hd
            next =>
              cases hd
              exact hkeyed id c hc
            next => cases hd
          rw [List.filterMap_cons, List.filter_cons, hout]
          simp only [Option.isSome_some, if_true, List.map_cons, ih, hname]

theorem handedOut_spec {now : Int} {c d : MailboxCommand} (h : Mailbox.handedOut now c = some d) :
    c.state = .queued ∧ now ≤ c.expiresAt ∧ d.expiresAt = c.expiresAt ∧ d.cmdId = c.cmdId ∧
      Mailbox.swept now c = d := by
  unfold Mailbox.handedOut at h
  split at h
  next hqueued =>
    cases h
    obtain ⟨hstate, hearly⟩ := hqueued
    refine ⟨hstate, by omega, rfl, rfl, ?_⟩
    simp [Mailbox.swept, Mailbox.Overdue, hstate, hearly]
  next => cases h

/-- No record that a pass has seen is queued. -/
theorem swept_state (now : Int) (c : MailboxCommand) : (Mailbox.swept now c).state ≠ .queued := by
  unfold Mailbox.swept
  split
  next => simp
  next =>
    split
    next => simp
    next hstate => exact hstate

namespace MailboxRun

variable {r : MailboxRun} {m' : Mailbox}

theorem Disciplined.start (perAsset : Nat) (ttl : Int) : Disciplined (start perAsset ttl) := by
  refine ⟨?_, ?_, List.nodup_nil, ?_, ?_, ?_, ?_, ?_, ?_⟩
  · intro id c hc
    cases hc
  · intro id
    simp [MailboxRun.start, Mailbox.new, Mailbox.Knows, MailboxLog.empty]
  · intro assetId
    exact List.nil_sublist _
  · intro p hp
    cases hp
  · intro assetId
    exact Nat.zero_le _
  · intro assetId
    exact List.nil_sublist _
  · intro id hid
    cases hid
  · intro h hh
    cases hh

theorem Disciplined.nodup_idsOf (h : Disciplined r) (assetId : String) :
    (r.log.idsOf assetId).Nodup :=
  h.nodup.sublist (List.filter_sublist.map _)

theorem Disciplined.nodup_queue (h : Disciplined r) (assetId : String) :
    (r.mailbox.queue assetId).Nodup :=
  (h.nodup_idsOf assetId).sublist (h.queue assetId)

/-- Records move on, and queues lose only commands that no longer count. -/
theorem Disciplined.ages (h : Disciplined r) (hages : Mailbox.Ages r.mailbox.byID m'.byID)
    (hlimit : m'.perAsset = r.mailbox.perAsset)
    (hqueue : ∀ assetId, (m'.queue assetId).Sublist (r.mailbox.queue assetId))
    (hkept : ∀ assetId id, id ∈ r.mailbox.queue assetId → m'.Pending id → id ∈ m'.queue assetId) :
    Disciplined ⟨m', r.log⟩ := by
  refine ⟨hages.keyed h.keyed, ?_, h.nodup, ?_, ?_, ?_, ?_, ?_, ?_⟩
  · intro id
    exact (hages.knows id).trans (h.known id)
  · intro assetId
    exact (hqueue assetId).trans (h.queue assetId)
  · intro p hp hpending
    exact hkept p.1 p.2 (h.waiting p hp (hages.pending hpending)) hpending
  · intro assetId
    dsimp only
    rw [hlimit]
    refine Nat.le_trans ?_ (h.limit assetId)
    have hfewer : ((m'.queue assetId).filter fun id => m'.Pending id).Sublist
        ((m'.queue assetId).filter fun id => r.mailbox.Pending id) :=
      List.monotone_filter_right _ fun id hid =>
        decide_eq_true (hages.pending (of_decide_eq_true hid))
    exact (hfewer.trans ((hqueue assetId).filter _)).length_le
  · intro assetId
    have hfewer : ((m'.queue assetId).filter fun id => m'.Queued id).Sublist
        ((m'.queue assetId).filter fun id => r.mailbox.Queued id) :=
      List.monotone_filter_right _ fun id hid =>
        decide_eq_true (hages.queued (of_decide_eq_true hid))
    exact ((hfewer.trans ((hqueue assetId).filter _)).append_left _).trans (h.order assetId)
  · intro id hid
    obtain ⟨hknows, hqueued, hout⟩ := h.cancelled id hid
    exact ⟨(hages.knows id).mpr hknows, fun hq => hqueued (hages.queued hq), hout⟩
  · intro out hout
    obtain ⟨htime, c, hc, hexpires, hstate⟩ := h.handouts out hout
    obtain ⟨c', hc', hages'⟩ := hages.forth _ c hc
    refine ⟨htime, c', hc', hages'.expiresAt.trans hexpires, ?_⟩
    intro hqueued
    have hstage := hages'.stage
    rw [hqueued] at hstage
    exact hstate (CommandState.stage_eq_zero.mp (Nat.le_zero.mp hstage))

/-- A call that leaves the queues alone. -/
theorem Disciplined.same_queues (h : Disciplined r) (hages : Mailbox.Ages r.mailbox.byID m'.byID)
    (hlimit : m'.perAsset = r.mailbox.perAsset) (hqueue : m'.byAsset = r.mailbox.byAsset) :
    Disciplined ⟨m', r.log⟩ := by
  have hsame : ∀ assetId, m'.queue assetId = r.mailbox.queue assetId := by
    intro assetId
    rw [Mailbox.queue, Mailbox.queue, hqueue]
  refine h.ages hages hlimit ?_ ?_
  · intro assetId
    rw [hsame]
  · intro assetId id hid _
    rw [hsame]
    exact hid

theorem Disciplined.complete (h : Disciplined r) (cmdId : String) (result : Payload) :
    Disciplined (r.step (.complete cmdId result)) := by
  refine h.same_queues (r.mailbox.complete_ages cmdId result) ?_ ?_
  · unfold Mailbox.complete
    split <;> rfl
  · unfold Mailbox.complete
    split <;> rfl

/-- A queued command has not been handed out. -/
theorem Disciplined.not_handed_out (h : Disciplined r) {id : String} (hqueued : r.mailbox.Queued id) :
    id ∉ r.log.handouts.map Handout.cmdId := by
  intro hout
  obtain ⟨out, hmem, rfl⟩ := List.mem_map.mp hout
  obtain ⟨-, c, hc, -, hnot⟩ := h.handouts out hmem
  obtain ⟨d, hd, hstate⟩ := hqueued
  rw [hc] at hd
  cases hd
  exact hnot hstate

theorem Disciplined.cancel (h : Disciplined r) (assetId cmdId : String) :
    Disciplined (r.step (.cancel assetId cmdId)) := by
  simp only [step]
  split
  next => exact h
  next push m' hm' =>
    have hages := Mailbox.cancel_ages hm'
    cases Mailbox.cancel_cancels hm' with
    | due hc hstate => exact h.same_queues hages rfl rfl
    | withdrawn hc hstate =>
        have hbase := h.same_queues hages rfl rfl
        refine { hbase with cancelled := ?_ }
        intro id hid
        rcases List.mem_append.mp hid with hid | hid
        · exact hbase.cancelled id hid
        · rw [List.mem_singleton] at hid
          subst hid
          refine ⟨?_, ?_, h.not_handed_out ⟨_, hc, hstate⟩⟩
          · exact (hages.knows id).mpr (AList.lookup_isSome.mp (by rw [hc]; rfl))
          · rintro ⟨d, hd, hqueued⟩
            rw [AList.lookup_insert] at hd
            cases hd
            cases hqueued

/-- A pass keeps the queues of the other assets and drops overdue commands from its own. -/
theorem Disciplined.swept (h : Disciplined r) (assetId : String) (now : Int) :
    Disciplined ⟨(r.mailbox.nextDispatch assetId now).1, r.log⟩ := by
  have hnodup := h.nodup_queue assetId
  obtain ⟨hlookup, hkept, -⟩ := Mailbox.sweep_eq now hnodup r.mailbox.byID
  have hqueue := Mailbox.queue_nextDispatch r.mailbox assetId now
  refine h.ages (Mailbox.sweep_ages now hnodup r.mailbox.byID) rfl ?_ ?_
  · intro other
    rw [hqueue]
    split
    next heq =>
      rw [hkept, heq]
      exact List.filter_sublist
    next => exact List.Sublist.refl _
  · intro other id hid hpending
    rw [hqueue]
    split
    next heq =>
      subst heq
      rw [hkept, List.mem_filter]
      refine ⟨hid, ?_⟩
      obtain ⟨c', hc', hstate⟩ := hpending
      have hc' : (Mailbox.sweep now (r.mailbox.queue other) r.mailbox.byID).1.lookup id = some c' := hc'
      rw [hlookup, if_pos hid] at hc'
      obtain ⟨c, hc, rfl⟩ := Option.map_eq_some_iff.mp hc'
      rw [hc, Option.all_some]
      refine decide_eq_true fun hlate => ?_
      simp [Mailbox.swept, hlate] at hstate
    next => exact hid

/-- Handing out commands that were queued, after which none of the asset is. -/
theorem Disciplined.handOut {log : MailboxLog} (h : Disciplined ⟨m', log⟩) {assetId : String}
    {now : Int} {cmds : List MailboxCommand}
    (hnone : ∀ id ∈ m'.queue assetId, ¬ m'.Queued id)
    (horder : (log.handedOutTo assetId ++ cmds.map MailboxCommand.cmdId).Sublist (log.idsOf assetId))
    (hcancelled : ∀ d ∈ cmds, d.cmdId ∉ log.cancelled)
    (hcmds : ∀ d ∈ cmds, now ≤ d.expiresAt ∧
      ∃ c, m'.byID.lookup d.cmdId = some c ∧ c.expiresAt = d.expiresAt ∧ c.state ≠ .queued) :
    Disciplined ⟨m', log.handOut assetId now cmds⟩ := by
  refine { h with order := ?_, cancelled := ?_, handouts := ?_ }
  · intro other
    change ((log.handOut assetId now cmds).handedOutTo other ++
      (m'.queue other).filter fun id => m'.Queued id).Sublist (log.idsOf other)
    rw [MailboxLog.handedOutTo_handOut]
    split
    next heq =>
      subst heq
      have hempty : ((m'.queue assetId).filter fun id => m'.Queued id) = [] :=
        List.filter_eq_nil_iff.mpr fun id hid hqueued => hnone id hid (of_decide_eq_true hqueued)
      rw [hempty, List.append_nil]
      exact horder
    next => exact h.order other
  · intro id hid
    obtain ⟨hknows, hqueued, hfresh⟩ := h.cancelled id hid
    refine ⟨hknows, hqueued, ?_⟩
    intro hmem
    rw [MailboxLog.handOut, List.map_append, List.mem_append, List.map_map] at hmem
    rcases hmem with hmem | hmem
    · exact hfresh hmem
    · obtain ⟨d, hd, heq⟩ := List.mem_map.mp hmem
      have heq : d.cmdId = id := heq
      exact hcancelled d hd (heq ▸ hid)
  · intro out hout
    rcases List.mem_append.mp hout with hold | hnew
    · exact h.handouts out hold
    · obtain ⟨d, hd, rfl⟩ := List.mem_map.mp hnew
      exact hcmds d hd

/-- What `NextDispatch` returns: records of the queue that were waiting, in time. -/
theorem Disciplined.handed (h : Disciplined r) {assetId : String} {now : Int} {d : MailboxCommand}
    (hd : d ∈ (r.mailbox.nextDispatch assetId now).2.1) :
    ∃ c, r.mailbox.byID.lookup d.cmdId = some c ∧ d.cmdId ∈ r.mailbox.queue assetId ∧
      Mailbox.handedOut now c = some d := by
  have hd : d ∈ (Mailbox.sweep now (r.mailbox.queue assetId) r.mailbox.byID).2.2 := hd
  rw [(Mailbox.sweep_eq now (h.nodup_queue assetId) r.mailbox.byID).2.2] at hd
  obtain ⟨id, hid, hd⟩ := List.mem_filterMap.mp hd
  obtain ⟨c, hc, hd⟩ := Option.bind_eq_some_iff.mp hd
  have hname : d.cmdId = id := (handedOut_spec hd).2.2.2.1.trans (h.keyed id c hc)
  exact ⟨c, hname ▸ hc, hname ▸ hid, hd⟩

theorem Disciplined.nextDispatch (h : Disciplined r) (assetId : String) (now : Int) :
    Disciplined (r.step (.nextDispatch assetId now)) := by
  have hnodup := h.nodup_queue assetId
  obtain ⟨hlookup, hkept, hout⟩ := Mailbox.sweep_eq now hnodup r.mailbox.byID
  have hafter : ∀ id ∈ r.mailbox.queue assetId,
      (r.mailbox.nextDispatch assetId now).1.byID.lookup id =
        (r.mailbox.byID.lookup id).map (Mailbox.swept now) := by
    intro id hid
    exact (hlookup id).trans (if_pos hid)
  refine (h.swept assetId now).handOut ?_ ?_ ?_ ?_
  · rintro id hid ⟨c', hc', hstate⟩
    rw [Mailbox.queue_nextDispatch, if_pos rfl, hkept] at hid
    rw [hafter id (List.mem_of_mem_filter hid)] at hc'
    obtain ⟨c, -, rfl⟩ := Option.map_eq_some_iff.mp hc'
    exact swept_state now c hstate
  · have hids : (r.mailbox.nextDispatch assetId now).2.1.map MailboxCommand.cmdId =
        (r.mailbox.queue assetId).filter fun id =>
          ((r.mailbox.byID.lookup id).bind (Mailbox.handedOut now)).isSome := by
      rw [← map_cmdId_handedOut h.keyed, ← hout]
      rfl
    rw [hids]
    refine List.Sublist.trans (List.Sublist.append_left ?_ _) (h.order assetId)
    refine List.monotone_filter_right _ fun id hid => decide_eq_true ?_
    obtain ⟨d, hd⟩ := Option.isSome_iff_exists.mp hid
    obtain ⟨c, hc, hd⟩ := Option.bind_eq_some_iff.mp hd
    exact ⟨c, hc, (handedOut_spec hd).1⟩
  · intro d hd hcancelled
    obtain ⟨c, hc, -, hd⟩ := h.handed hd
    exact (h.cancelled _ hcancelled).2.1 ⟨c, hc, (handedOut_spec hd).1⟩
  · intro d hd
    obtain ⟨c, hc, hid, hd⟩ := h.handed hd
    obtain ⟨-, htime, hexpires, -, hswept⟩ := handedOut_spec hd
    refine ⟨hexpires ▸ htime, Mailbox.swept now c, ?_, ?_, swept_state now c⟩
    · rw [hafter _ hid, hc, Option.map_some]
    · rw [hswept]

theorem Disciplined.mem_queue (h : Disciplined r) {assetId id : String}
    (hid : id ∈ r.mailbox.queue assetId) : (assetId, id) ∈ r.log.submitted :=
  MailboxLog.mem_idsOf.mp ((h.queue assetId).subset hid)

section Accepts

variable {d : Dispatch} {now : Int}

theorem Disciplined.unknown (h : Disciplined r) (haccepts : r.mailbox.Accepts d now m') :
    d.cmdId ∉ r.log.submitted.map Prod.snd := by
  rw [← h.known]
  exact AList.lookup_eq_none.mp haccepts.unknown

theorem Disciplined.submitted_ne (h : Disciplined r) (haccepts : r.mailbox.Accepts d now m')
    {p : String × String} (hp : p ∈ r.log.submitted) : p.2 ≠ d.cmdId := by
  intro heq
  exact h.unknown haccepts (heq ▸ List.mem_map_of_mem hp)

theorem Disciplined.filter_accepts (h : Disciplined r) (haccepts : r.mailbox.Accepts d now m')
    {p q : String → Prop} [DecidablePred p] [DecidablePred q]
    (hpq : ∀ id, id ≠ d.cmdId → (p id ↔ q id)) (assetId : String) :
    (r.mailbox.queue assetId).filter (fun id => p id) =
      (r.mailbox.queue assetId).filter fun id => q id := by
  apply List.filter_congr
  intro id hid
  exact decide_eq_decide.mpr (hpq id (h.submitted_ne haccepts (h.mem_queue hid)))

theorem Disciplined.waiting_accepts (h : Disciplined r) (haccepts : r.mailbox.Accepts d now m')
    {p : String × String} (hp : p ∈ (r.log.submit d).submitted) (hpending : m'.Pending p.2) :
    p.2 ∈ m'.queue p.1 := by
  rw [haccepts.queue]
  rcases List.mem_append.mp hp with hp | hp
  · have hne := h.submitted_ne haccepts hp
    have hmem := h.waiting p hp ((haccepts.pending hne).mp hpending)
    split
    next => exact List.mem_append_left _ hmem
    next => exact hmem
  · rw [List.mem_singleton] at hp
    subst hp
    rw [if_pos rfl]
    exact List.mem_append_right _ (List.mem_singleton_self _)

theorem Disciplined.limit_accepts (h : Disciplined r) (haccepts : r.mailbox.Accepts d now m')
    (assetId : String) :
    ((m'.queue assetId).filter fun id => m'.Pending id).length ≤ m'.perAsset := by
  rw [haccepts.queue, haccepts.perAsset]
  split
  next heq =>
    subst heq
    have hone : ([d.cmdId].filter fun id => m'.Pending id).length ≤ 1 := List.length_filter_le _ _
    have hroom := haccepts.room
    rw [List.filter_append, h.filter_accepts haccepts fun _ => haccepts.pending, List.length_append]
    omega
  next =>
    rw [h.filter_accepts haccepts fun _ => haccepts.pending]
    exact h.limit assetId

theorem Disciplined.order_accepts (h : Disciplined r) (haccepts : r.mailbox.Accepts d now m')
    (assetId : String) :
    (r.log.handedOutTo assetId ++
      (m'.queue assetId).filter fun id => m'.Queued id).Sublist ((r.log.submit d).idsOf assetId) := by
  rw [haccepts.queue, MailboxLog.idsOf_submit]
  split
  next =>
    rw [List.filter_append, h.filter_accepts haccepts fun _ => haccepts.queued, ← List.append_assoc]
    exact (h.order assetId).append List.filter_sublist
  next =>
    rw [h.filter_accepts haccepts fun _ => haccepts.queued]
    exact h.order assetId

/-- A new command goes to the end of everything. -/
theorem Disciplined.accepts (h : Disciplined r) (haccepts : r.mailbox.Accepts d now m') :
    Disciplined ⟨m', r.log.submit d⟩ := by
  have hunknown := h.unknown haccepts
  refine ⟨?_, ?_, ?_, ?_, fun p hp => h.waiting_accepts haccepts hp, h.limit_accepts haccepts,
    h.order_accepts haccepts, ?_, ?_⟩
  · intro id c hc
    dsimp only at hc
    by_cases hid : id = d.cmdId
    · subst hid
      rw [haccepts.new] at hc
      cases hc
      rfl
    · rw [haccepts.old id hid] at hc
      exact h.keyed id c hc
  · intro id
    rw [haccepts.knows, h.known, MailboxLog.submit, List.map_append, List.mem_append, or_comm]
    simp
  · rw [MailboxLog.submit, List.map_append, List.nodup_append_comm]
    exact List.nodup_cons.mpr ⟨hunknown, h.nodup⟩
  · intro assetId
    dsimp only
    rw [haccepts.queue, MailboxLog.idsOf_submit]
    split
    next => exact (h.queue assetId).append_right _
    next => exact h.queue assetId
  · intro id hid
    obtain ⟨hknows, hnot, hout⟩ := h.cancelled id hid
    have hid' : id ≠ d.cmdId := by
      rintro rfl
      exact hunknown ((h.known d.cmdId).mp hknows)
    exact ⟨(haccepts.knows id).mpr (Or.inr hknows), fun hq => hnot ((haccepts.queued hid').mp hq), hout⟩
  · intro out hout
    obtain ⟨htime, c, hlookup, hexpires, hstate⟩ := h.handouts out hout
    refine ⟨htime, c, ?_, hexpires, hstate⟩
    dsimp only
    rw [haccepts.old, hlookup]
    intro heq
    rw [heq, haccepts.unknown] at hlookup
    cases hlookup

end Accepts

theorem Disciplined.submit (h : Disciplined r) (d : Dispatch) (now : Int) :
    Disciplined (r.step (.submit d now)) := by
  simp only [step]
  split
  next => exact h
  next m' hm' => exact h.accepts (Mailbox.submit_accepts hm')

theorem Disciplined.step (h : Disciplined r) (op : MailboxOp) : Disciplined (r.step op) := by
  cases op with
  | submit d now => exact h.submit d now
  | cancel assetId cmdId => exact h.cancel assetId cmdId
  | nextDispatch assetId now => exact h.nextDispatch assetId now
  | complete cmdId result => exact h.complete cmdId result

/-! ## What a mailbox in order guarantees -/

theorem Disciplined.asset_unique (h : Disciplined r) {assetId other id : String}
    (hid : (assetId, id) ∈ r.log.submitted) (hother : (other, id) ∈ r.log.submitted) :
    assetId = other := by
  have heq := List.inj_on_of_nodup_map h.nodup hid hother rfl
  exact congrArg Prod.fst heq

theorem Disciplined.mem_submitted (h : Disciplined r) {out : Handout} (hout : out ∈ r.log.handouts) :
    (out.assetId, out.cmdId) ∈ r.log.submitted := by
  have hmem : out.cmdId ∈ r.log.handedOutTo out.assetId := by
    unfold MailboxLog.handedOutTo
    exact List.mem_map_of_mem (List.mem_filter.mpr ⟨hout, decide_eq_true rfl⟩)
  exact MailboxLog.mem_idsOf.mp ((h.order out.assetId).subset (List.mem_append_left _ hmem))

theorem Disciplined.handedOutTo (h : Disciplined r) (assetId : String) :
    (r.log.handedOutTo assetId).Sublist (r.log.idsOf assetId) :=
  (List.sublist_append_left _ _).trans (h.order assetId)

/-- Per asset nothing is handed out twice, and no id goes to two assets. -/
theorem nodup_map_cmdId {outs : List Handout}
    (hasset : ∀ o ∈ outs, ∀ o' ∈ outs, o.cmdId = o'.cmdId → o.assetId = o'.assetId)
    (hnodup : ∀ assetId, ((outs.filter fun o => o.assetId = assetId).map Handout.cmdId).Nodup) :
    (outs.map Handout.cmdId).Nodup := by
  induction outs with
  | nil => exact List.nodup_nil
  | cons o outs ih =>
      have hrest : (outs.map Handout.cmdId).Nodup := by
        apply ih
        · intro a ha b hb
          exact hasset a (List.mem_cons_of_mem _ ha) b (List.mem_cons_of_mem _ hb)
        · intro assetId
          exact (hnodup assetId).sublist (((List.sublist_cons_self o outs).filter _).map _)
      refine List.nodup_cons.mpr ⟨fun hmem => ?_, hrest⟩
      obtain ⟨o', ho', heq⟩ := List.mem_map.mp hmem
      have hsame := hasset o' (List.mem_cons_of_mem _ ho') o List.mem_cons_self heq
      have hfirst := hnodup o.assetId
      rw [List.filter_cons_of_pos (by simp), List.map_cons, List.nodup_cons] at hfirst
      exact hfirst.1 (heq ▸ List.mem_map_of_mem (List.mem_filter.mpr ⟨ho', by simpa using hsame⟩))

theorem Disciplined.nodup_handouts (h : Disciplined r) :
    (r.log.handouts.map Handout.cmdId).Nodup := by
  refine nodup_map_cmdId ?_ fun assetId => (h.nodup_idsOf assetId).sublist (h.handedOutTo assetId)
  intro o ho o' ho' heq
  exact h.asset_unique (h.mem_submitted ho) (heq ▸ h.mem_submitted ho')

/-- The pending commands of an asset are those that are pending in its queue. -/
theorem Disciplined.pending_perm (h : Disciplined r) (assetId : String) :
    ((r.log.idsOf assetId).filter fun id => r.mailbox.Pending id).Perm
      ((r.mailbox.queue assetId).filter fun id => r.mailbox.Pending id) := by
  rw [List.perm_ext_iff_of_nodup ((h.nodup_idsOf assetId).filter _)
    ((h.nodup_queue assetId).filter _)]
  intro id
  simp only [List.mem_filter, decide_eq_true_eq]
  constructor
  · intro ⟨hid, hpending⟩
    exact ⟨h.waiting (assetId, id) (MailboxLog.mem_idsOf.mp hid) hpending, hpending⟩
  · intro ⟨hid, hpending⟩
    exact ⟨(h.queue assetId).subset hid, hpending⟩

/-- The limit holds over all commands ever submitted to an asset. -/
theorem Disciplined.limit_submitted (h : Disciplined r) (assetId : String) :
    ((r.log.idsOf assetId).filter fun id => r.mailbox.Pending id).length ≤ r.mailbox.perAsset := by
  rw [(h.pending_perm assetId).length_eq]
  exact h.limit assetId

end MailboxRun

/-! ## Pending cancels after a call -/

namespace Mailbox

def Dispatched (m : Mailbox) (cmdId : String) : Prop :=
  ∃ c ∈ m.byID.lookup cmdId, c.state = .dispatched

instance (m : Mailbox) (cmdId : String) : Decidable (m.Dispatched cmdId) :=
  Table.decidableFound (m.byID.lookup cmdId) fun c => c.state = .dispatched

/-- A cancel is due exactly for a dispatched command, on the stream of the asset the
caller names. -/
theorem cancels_cancel (r : MailboxRun) (assetId cmdId other : String) :
    (r.step (.cancel assetId cmdId)).mailbox.cancels other =
      if r.mailbox.Dispatched cmdId ∧ other = assetId then r.mailbox.cancels other ++ [cmdId]
      else r.mailbox.cancels other := by
  simp only [MailboxRun.step, cancel]
  cases hc : r.mailbox.byID.lookup cmdId with
  | none =>
      have hnot : ¬ r.mailbox.Dispatched cmdId := by simp [Dispatched, hc]
      simp [hnot]
  | some c =>
      have hiff : r.mailbox.Dispatched cmdId ↔ c.state = .dispatched := by simp [Dispatched, hc]
      cases hstate : c.state with
      | queued => simp [cancels, hiff, hstate]
      | terminal => simp [hiff, hstate]
      | expired => simp [hiff, hstate]
      | dispatched =>
          by_cases hother : other = assetId
          · subst hother
            simp [cancels, hiff, hstate]
          · simp [cancels, hiff, hstate, hother]

theorem cancels_nextDispatch (m : Mailbox) (assetId : String) (now : Int) (other : String) :
    (m.nextDispatch assetId now).1.cancels other =
      if other = assetId then [] else m.cancels other := by
  simp only [nextDispatch, cancels]
  split
  next heq => rw [heq, AList.lookup_erase, Option.getD_none]
  next hne => rw [AList.lookup_erase_ne hne]

theorem cancels_submit (r : MailboxRun) (d : Dispatch) (now : Int) (other : String) :
    (r.step (.submit d now)).mailbox.cancels other = r.mailbox.cancels other := by
  simp only [MailboxRun.step]
  split
  next => rfl
  next m' hm' => exact (submit_accepts hm').cancels other

theorem cancels_complete (m : Mailbox) (cmdId : String) (result : Payload) (other : String) :
    (m.complete cmdId result).cancels other = m.cancels other := by
  unfold complete
  split <;> rfl

end Mailbox

namespace MailboxRun

variable {r : MailboxRun}

/-- Apart from a submission, a call moves records on and accepts nothing. -/
theorem Disciplined.step_ages (h : Disciplined r) (op : MailboxOp)
    (hop : ∀ d now, op ≠ .submit d now) :
    Mailbox.Ages r.mailbox.byID (r.step op).mailbox.byID ∧
      (r.step op).log.submitted = r.log.submitted := by
  cases op with
  | submit d now => exact absurd rfl (hop d now)
  | cancel assetId cmdId =>
      simp only [MailboxRun.step]
      split
      next => exact ⟨.refl _, rfl⟩
      next push m' hm' =>
        refine ⟨Mailbox.cancel_ages hm', ?_⟩
        cases push <;> rfl
  | nextDispatch assetId now =>
      exact ⟨Mailbox.sweep_ages now (h.nodup_queue assetId) r.mailbox.byID, rfl⟩
  | complete cmdId result => exact ⟨r.mailbox.complete_ages cmdId result, rfl⟩

/-- A record moves on or stays as it is, whatever is called. -/
theorem Disciplined.forth_step (h : Disciplined r) (op : MailboxOp) {id : String}
    {c : MailboxCommand} (hc : r.mailbox.byID.lookup id = some c) :
    ∃ c', (r.step op).mailbox.byID.lookup id = some c' ∧ c.Ages c' := by
  cases op with
  | submit d now =>
      simp only [MailboxRun.step]
      split
      next => exact ⟨c, hc, .refl c⟩
      next m' hm' =>
        have haccepts := Mailbox.submit_accepts hm'
        refine ⟨c, ?_, .refl c⟩
        rw [haccepts.old, hc]
        rintro rfl
        rw [haccepts.unknown] at hc
        cases hc
  | cancel assetId cmdId => exact (h.step_ages (.cancel assetId cmdId) nofun).1.forth id c hc
  | nextDispatch assetId now =>
      exact (h.step_ages (.nextDispatch assetId now) nofun).1.forth id c hc
  | complete cmdId result => exact (h.step_ages (.complete cmdId result) nofun).1.forth id c hc

theorem handouts_step (r : MailboxRun) (op : MailboxOp)
    (hop : ∀ assetId now, op ≠ .nextDispatch assetId now) :
    (r.step op).log.handouts = r.log.handouts := by
  cases op with
  | submit d now =>
      simp only [step]
      split <;> rfl
  | cancel assetId cmdId =>
      simp only [step, MailboxLog.cancel]
      split
      next => rfl
      next => split <;> rfl
  | nextDispatch assetId now => exact absurd rfl (hop assetId now)
  | complete cmdId result => rfl

/-- A call other than `NextDispatch` takes no pending cancel away. -/
theorem cancels_subset_step (r : MailboxRun) (op : MailboxOp)
    (hop : ∀ assetId now, op ≠ .nextDispatch assetId now) (other : String) :
    r.mailbox.cancels other ⊆ (r.step op).mailbox.cancels other := by
  cases op with
  | submit d now =>
      rw [Mailbox.cancels_submit]
      exact List.Subset.refl _
  | cancel assetId cmdId =>
      rw [Mailbox.cancels_cancel]
      split
      next => exact List.subset_append_left _ _
      next => exact List.Subset.refl _
  | nextDispatch assetId now => exact absurd rfl (hop assetId now)
  | complete cmdId result =>
      simp only [step, Mailbox.cancels_complete]
      exact List.Subset.refl _

end MailboxRun

end TomAgent.Connector
