import TomAgent.Core.Execution
import TomAgent.Core.Table
import TomAgent.Platform.EventLog

/-!
# Concurrent transactions

`SubmitCommand`, `Transition` and `CompleteCommand` are transactions of several
statements.  Any number of them run at once, a statement at a time, and each may be
rolled back at any point.  A row that a transaction has inserted or selected for update
is locked until the transaction ends; what it writes is seen by nobody before it commits.
Numbers of the sequence behind `event_id` are not given back.

Each commit does to the tables what the operation of `Store` does in one step.
-/

namespace TomAgent.Platform

open Execution

structure StatusChange where
  cmdId : String
  eventType : String
  toStatus : String
  actor : String
  result : Option Payload → Option Payload

def StatusChange.transition (cmdId eventType toStatus actor : String) : StatusChange :=
  ⟨cmdId, eventType, toStatus, actor, id⟩

def StatusChange.completeCommand (cmdId terminalStatus : String) (result : Option Payload) :
    StatusChange :=
  ⟨cmdId, "result_received", terminalStatus, "agent", fun _ => result⟩

/-- How far a transaction has come, with what its statements have returned. -/
inductive Transaction where
  | submitting (d : Dispatch) (expiresAt : Int)
  /-- The row is inserted. -/
  | inserted (d : Dispatch) (expiresAt : Int) (u : Uuid)
  /-- The event is inserted too. -/
  | created (d : Dispatch) (expiresAt : Int) (u : Uuid) (eventId : Nat)
  /-- The outbox row is inserted too. -/
  | requested (d : Dispatch) (expiresAt : Int) (u : Uuid) (eventId : Nat)
  | changing (c : StatusChange)
  /-- The row is selected for update. -/
  | selected (c : StatusChange) (u : Uuid) (row : CommandRow)
  /-- The row is updated. -/
  | updated (c : StatusChange) (u : Uuid) (row : CommandRow) (v : String)
  /-- The event is inserted too. -/
  | logged (c : StatusChange) (u : Uuid) (row : CommandRow) (v : String) (eventId : Nat)

namespace Transaction

def lock : Transaction → Option Uuid
  | submitting .. | changing .. => none
  | inserted _ _ u | created _ _ u _ | requested _ _ u _ => some u
  | selected _ u _ | updated _ u _ _ | logged _ u _ _ _ => some u

end Transaction

/-- The committed rows, the sequence of `event_id` and the open transactions. -/
structure Database where
  commands : AList (fun _ : Uuid => CommandRow)
  /-- By `event_id`, in the order of their commits. -/
  events : List (Nat × EventRow)
  outbox : List OutboxEntry
  nextEventId : Nat
  running : AList (fun _ : Nat => Transaction)

namespace Database

def empty : Database := ⟨∅, [], [], 0, ∅⟩

def committed (d : Database) : Store := ⟨d.commands, d.events.map Prod.snd, d.outbox⟩

def Locked (d : Database) (u : Uuid) : Prop := Table.Holds d.running fun x => x.lock = some u

instance decidableLocked (d : Database) (u : Uuid) : Decidable (d.Locked u) :=
  inferInstanceAs (Decidable (Table.Holds d.running fun x => x.lock = some u))

def set (d : Database) (t : Nat) (x : Transaction) : Database :=
  { d with running := d.running.insert t x }

def close (d : Database) (t : Nat) : Database := { d with running := d.running.erase t }

/-- The next statement.  It may have to wait for a lock; an error ends the transaction. -/
def execute (d : Database) (t : Nat) : Transaction → Option Database
  | .submitting s expiresAt =>
      match parseUuid s.cmdId with
      | none => some (d.close t)
      | some u =>
          match d.commands.lookup u with
          -- ON CONFLICT DO NOTHING, then ErrDuplicate
          | some _ => some (d.close t)
          | none => if d.Locked u then none else some (d.set t (.inserted s expiresAt u))
  | .inserted s expiresAt u =>
      some (set { d with nextEventId := d.nextEventId + 1 } t (.created s expiresAt u d.nextEventId))
  | .created s expiresAt u i => some (d.set t (.requested s expiresAt u i))
  | .changing c =>
      match parseUuid c.cmdId with
      | none => some (d.close t)
      | some u =>
          match d.commands.lookup u with
          -- ErrNotFound, also while the row is being inserted
          | none => some (d.close t)
          | some row => if d.Locked u then none else some (d.set t (.selected c u row))
  | .selected c u row =>
      match varchar 20 c.toStatus with
      | none => some (d.close t)
      | some v => some (d.set t (.updated c u row v))
  | .updated c u row v =>
      some (set { d with nextEventId := d.nextEventId + 1 } t (.logged c u row v d.nextEventId))
  | .requested .. | .logged .. => none

def commit (d : Database) (t : Nat) : Transaction → Option Database
  | .requested s expiresAt u i => some (close { d with
      commands := d.commands.insert u ⟨s.assetId, "QUEUED", expiresAt, none⟩
      events := d.events ++ [(i, ⟨u, "created", none, "QUEUED", "admin"⟩)]
      outbox := d.outbox ++ [⟨.dispatchRequested, s, false⟩] } t)
  | .logged c u row v i => some (close { d with
      commands := d.commands.insert u
        { row with status := v, resultPayload := c.result row.resultPayload }
      events := d.events ++ [(i, ⟨u, c.eventType, some row.status, v, c.actor⟩)] } t)
  | _ => none

inductive Event where
  | submitCommand (t : Nat) (s : Dispatch) (expiresAt : Int)
  | transition (t : Nat) (cmdId eventType toStatus actor : String)
  | completeCommand (t : Nat) (cmdId terminalStatus : String) (result : Option Payload)
  | execute (t : Nat)
  | commit (t : Nat)
  | rollback (t : Nat)
  | cancelCommand (cmdId : String)
  | markPublished (index : Nat)

def begin (d : Database) (t : Nat) (x : Transaction) : Option Database :=
  match d.running.lookup t with
  | some _ => none
  | none => some (d.set t x)

def step (d : Database) : Event → Option Database
  | .submitCommand t s expiresAt => d.begin t (.submitting s expiresAt)
  | .transition t cmdId eventType toStatus actor =>
      d.begin t (.changing (.transition cmdId eventType toStatus actor))
  | .completeCommand t cmdId terminalStatus result =>
      d.begin t (.changing (.completeCommand cmdId terminalStatus result))
  | .execute t => (d.running.lookup t).bind fun x => d.execute t x
  | .commit t => (d.running.lookup t).bind fun x => d.commit t x
  | .rollback t => some (d.close t)
  | .cancelCommand cmdId =>
      match d.committed.cancelCommand cmdId with
      | .error _ => some d
      | .ok s => some { d with outbox := s.outbox }
  | .markPublished index => some { d with outbox := (d.committed.markPublished index).outbox }

/-! ## What a transaction may rely on -/

def Later (d : Database) (u : Uuid) (i : Nat) : Prop :=
  i < d.nextEventId ∧ ∀ e ∈ d.events, e.2.cmdId = u → e.1 < i

/-- What a transaction has read is still so. -/
def Sound (d : Database) : Transaction → Prop
  | .submitting .. | .changing .. => True
  | .inserted s _ u => parseUuid s.cmdId = some u ∧ d.commands.lookup u = none
  | .created s _ u i | .requested s _ u i =>
      parseUuid s.cmdId = some u ∧ d.commands.lookup u = none ∧ d.Later u i
  | .selected c u row => parseUuid c.cmdId = some u ∧ d.commands.lookup u = some row
  | .updated c u row v =>
      parseUuid c.cmdId = some u ∧ d.commands.lookup u = some row ∧ varchar 20 c.toStatus = some v
  | .logged c u row v i =>
      parseUuid c.cmdId = some u ∧ d.commands.lookup u = some row ∧ varchar 20 c.toStatus = some v ∧
        d.Later u i

structure Consistent (d : Database) : Prop where
  sound : ∀ t x, d.running.lookup t = some x → d.Sound x
  exclusive : ∀ t t' x x' u, d.running.lookup t = some x → d.running.lookup t' = some x' →
    x.lock = some u → x'.lock = some u → t = t'
  numbered : ∀ e ∈ d.events, e.1 < d.nextEventId
  ordered : ∀ u, (d.events.filter fun e => e.2.cmdId = u).Pairwise fun a b => a.1 < b.1

structure Keeps (d d' : Database) (u : Uuid) : Prop where
  row : d'.commands.lookup u = d.commands.lookup u
  events : ∀ e ∈ d'.events, e.2.cmdId = u → e ∈ d.events
  next : d.nextEventId ≤ d'.nextEventId

theorem Later.keeps {d d' : Database} {u : Uuid} {i : Nat} (h : d.Later u i)
    (hk : d.Keeps d' u) : d'.Later u i :=
  ⟨lt_of_lt_of_le h.1 hk.next, fun e he hu => h.2 e (hk.events e he hu) hu⟩

theorem Sound.keeps {d d' : Database} {x : Transaction} (h : d.Sound x)
    (hk : ∀ u, x.lock = some u → d.Keeps d' u) : d'.Sound x := by
  cases x with
  | submitting s expiresAt => trivial
  | changing c => trivial
  | inserted s expiresAt u => exact ⟨h.1, (hk u rfl).row.trans h.2⟩
  | created s expiresAt u i =>
      exact ⟨h.1, (hk u rfl).row.trans h.2.1, h.2.2.keeps (hk u rfl)⟩
  | requested s expiresAt u i =>
      exact ⟨h.1, (hk u rfl).row.trans h.2.1, h.2.2.keeps (hk u rfl)⟩
  | selected c u row => exact ⟨h.1, (hk u rfl).row.trans h.2⟩
  | updated c u row v => exact ⟨h.1, (hk u rfl).row.trans h.2.1, h.2.2⟩
  | logged c u row v i =>
      exact ⟨h.1, (hk u rfl).row.trans h.2.1, h.2.2.1, h.2.2.2.keeps (hk u rfl)⟩

theorem sound_of_unlocked {d : Database} {x : Transaction} (h : x.lock = none) : d.Sound x := by
  cases x with
  | submitting s expiresAt => trivial
  | changing c => trivial
  | inserted | created | requested | selected | updated | logged => cases h

/-! ## What a step can do -/

inductive Performs (d : Database) : Database → Prop
  | begins {t : Nat} {x : Transaction} (hlock : x.lock = none) : Performs d (d.set t x)
  /-- A statement succeeds. -/
  | advances {t n : Nat} {x x' : Transaction} (hx : d.running.lookup t = some x)
      (hn : d.nextEventId ≤ n)
      (hlock : x'.lock = x.lock ∨ ∃ u, x'.lock = some u ∧ ¬ d.Locked u)
      (hsound : d.Consistent → Sound { d with nextEventId := n } x') :
      Performs d (set { d with nextEventId := n } t x')
  | closes (t : Nat) : Performs d (d.close t)
  | submits {t i : Nat} {s : Dispatch} {expiresAt : Int} {u : Uuid}
      (hx : d.running.lookup t = some (.requested s expiresAt u i)) :
      Performs d (close { d with
        commands := d.commands.insert u ⟨s.assetId, "QUEUED", expiresAt, none⟩
        events := d.events ++ [(i, ⟨u, "created", none, "QUEUED", "admin"⟩)]
        outbox := d.outbox ++ [⟨.dispatchRequested, s, false⟩] } t)
  | changes {t i : Nat} {c : StatusChange} {u : Uuid} {row : CommandRow} {v : String}
      (hx : d.running.lookup t = some (.logged c u row v i)) :
      Performs d (close { d with
        commands := d.commands.insert u
          { row with status := v, resultPayload := c.result row.resultPayload }
        events := d.events ++ [(i, ⟨u, c.eventType, some row.status, v, c.actor⟩)] } t)
  | requests {s : Store} (hs : d.committed.Serial s) (hcommands : s.commands = d.commands)
      (hevents : s.events = d.committed.events) : Performs d { d with outbox := s.outbox }

theorem performs_of_execute {d d' : Database} {t : Nat} {x : Transaction}
    (hx : d.running.lookup t = some x) (he : d.execute t x = some d') : d.Performs d' := by
  unfold execute at he
  split at he
  next s expiresAt =>
    split at he
    next =>
      cases he
      exact .closes t
    next u hu =>
      split at he
      next =>
        cases he
        exact .closes t
      next hnone =>
        split at he
        next => cases he
        next hfree =>
          cases he
          exact .advances hx (le_refl _) (Or.inr ⟨u, rfl, hfree⟩) fun _ => ⟨hu, hnone⟩
  next s expiresAt u =>
    cases he
    refine .advances hx (Nat.le_succ _) (Or.inl rfl) fun h => ?_
    obtain ⟨hu, hnone⟩ := h.sound t _ hx
    exact ⟨hu, hnone, Nat.lt_succ_self _, fun e he _ => h.numbered e he⟩
  next s expiresAt u i =>
    cases he
    exact .advances hx (le_refl _) (Or.inl rfl) fun h => h.sound t (.created s expiresAt u i) hx
  next c =>
    split at he
    next =>
      cases he
      exact .closes t
    next u hu =>
      split at he
      next =>
        cases he
        exact .closes t
      next row hrow =>
        split at he
        next => cases he
        next hfree =>
          cases he
          exact .advances hx (le_refl _) (Or.inr ⟨u, rfl, hfree⟩) fun _ => ⟨hu, hrow⟩
  next c u row =>
    split at he
    next =>
      cases he
      exact .closes t
    next v hv =>
      cases he
      refine .advances hx (le_refl _) (Or.inl rfl) fun h => ?_
      obtain ⟨hu, hrow⟩ := h.sound t _ hx
      exact ⟨hu, hrow, hv⟩
  next c u row v =>
    cases he
    refine .advances hx (Nat.le_succ _) (Or.inl rfl) fun h => ?_
    obtain ⟨hu, hrow, hv⟩ := h.sound t _ hx
    exact ⟨hu, hrow, hv, Nat.lt_succ_self _, fun e he _ => h.numbered e he⟩
  next => cases he
  next => cases he

theorem performs_of_commit {d d' : Database} {t : Nat} {x : Transaction}
    (hx : d.running.lookup t = some x) (he : d.commit t x = some d') : d.Performs d' := by
  unfold commit at he
  split at he
  next =>
    cases he
    exact .submits hx
  next =>
    cases he
    exact .changes hx
  next => cases he

theorem performs_of_begin {d d' : Database} {t : Nat} {x : Transaction} (hlock : x.lock = none)
    (he : d.begin t x = some d') : d.Performs d' := by
  unfold begin at he
  split at he
  next => cases he
  next =>
    cases he
    exact .begins hlock

theorem performs_of_step {d d' : Database} {e : Event} (he : d.step e = some d') :
    d.Performs d' := by
  cases e with
  | submitCommand t s expiresAt => exact performs_of_begin rfl he
  | transition t cmdId eventType toStatus actor => exact performs_of_begin rfl he
  | completeCommand t cmdId terminalStatus result => exact performs_of_begin rfl he
  | execute t =>
      obtain ⟨x, hx, he⟩ := Option.bind_eq_some_iff.mp he
      exact performs_of_execute hx he
  | commit t =>
      obtain ⟨x, hx, he⟩ := Option.bind_eq_some_iff.mp he
      exact performs_of_commit hx he
  | rollback t =>
      cases he
      exact .closes t
  | cancelCommand cmdId =>
      simp only [step] at he
      split at he
      next =>
        cases he
        exact .requests (s := d.committed) .same rfl rfl
      next s hs =>
        cases he
        exact .requests (.cancelCommand hs) (Store.cancelCommand_adds hs).2
          (Store.cancelCommand_events hs)
  | markPublished index =>
      cases he
      exact .requests (.markPublished index) rfl rfl

theorem consistent_empty : Consistent empty where
  sound := by intro t x hx; cases hx
  exclusive := by intro t t' x x' u hx; cases hx
  numbered := by intro e he; cases he
  ordered := by intro u; exact List.Pairwise.nil

/-- One transaction moves on; the others keep what they rely on. -/
theorem Consistent.set {d : Database} (h : d.Consistent) {t n : Nat} {x : Transaction}
    (hn : d.nextEventId ≤ n) (hsound : Sound { d with nextEventId := n } x)
    (hlock : ∀ u t' x', x.lock = some u → d.running.lookup t' = some x' → x'.lock = some u →
      t' = t) : Consistent (Database.set { d with nextEventId := n } t x) where
  sound t' x' hx' := by
    cases Table.lookup_insert_cases hx' with
    | inl hnew =>
        obtain ⟨-, rfl⟩ := hnew
        exact hsound.keeps fun u _ => ⟨rfl, fun e he _ => he, le_refl _⟩
    | inr hold => exact (h.sound t' x' hold.2).keeps fun u _ => ⟨rfl, fun e he _ => he, hn⟩
  exclusive t₁ t₂ x₁ x₂ u h₁ h₂ hu₁ hu₂ := by
    rcases Table.lookup_insert_cases h₁ with ⟨rfl, rfl⟩ | ⟨-, hold₁⟩
    · rcases Table.lookup_insert_cases h₂ with ⟨rfl, -⟩ | ⟨-, hold₂⟩
      · rfl
      · exact (hlock u t₂ x₂ hu₁ hold₂ hu₂).symm
    · rcases Table.lookup_insert_cases h₂ with ⟨rfl, rfl⟩ | ⟨-, hold₂⟩
      · exact hlock u t₁ x₁ hu₂ hold₁ hu₁
      · exact h.exclusive t₁ t₂ x₁ x₂ u hold₁ hold₂ hu₁ hu₂
  numbered e he := lt_of_lt_of_le (h.numbered e he) hn
  ordered := h.ordered

theorem Consistent.close {d : Database} (h : d.Consistent) (t : Nat) : (d.close t).Consistent where
  sound t' x' hx' := by
    refine (h.sound t' x' (Table.lookup_erase_cases hx').2).keeps fun u _ => ?_
    exact ⟨rfl, fun e he _ => he, le_refl _⟩
  exclusive t₁ t₂ x₁ x₂ u h₁ h₂ hu₁ hu₂ :=
    h.exclusive t₁ t₂ x₁ x₂ u (Table.lookup_erase_cases h₁).2 (Table.lookup_erase_cases h₂).2 hu₁ hu₂
  numbered := h.numbered
  ordered := h.ordered

/-- A transaction commits a row it has locked, with an event later than those of the row. -/
theorem Consistent.commit {d : Database} (h : d.Consistent) {t i : Nat} {x : Transaction}
    {u : Uuid} {row : CommandRow} {e : EventRow} {outbox : List OutboxEntry}
    (hx : d.running.lookup t = some x) (hlock : x.lock = some u) (hlater : d.Later u i)
    (he : e.cmdId = u) :
    Consistent (Database.close { d with
      commands := d.commands.insert u row
      events := d.events ++ [(i, e)]
      outbox := outbox } t) where
  sound t' x' hx' := by
    obtain ⟨hne, hold⟩ := Table.lookup_erase_cases hx'
    refine (h.sound t' x' hold).keeps fun u' hlock' => ?_
    have hu : u' ≠ u := by
      rintro rfl
      exact hne (h.exclusive t' t x' x u' hold hx hlock' hlock)
    refine ⟨AList.lookup_insert_ne hu, ?_, le_refl _⟩
    intro e' he' hu'
    cases List.mem_append.mp he' with
    | inl hmem => exact hmem
    | inr hmem =>
        rw [List.mem_singleton.mp hmem] at hu'
        exact absurd (hu'.symm.trans he) hu
  exclusive t₁ t₂ x₁ x₂ u' h₁ h₂ hu₁ hu₂ :=
    h.exclusive t₁ t₂ x₁ x₂ u' (Table.lookup_erase_cases h₁).2 (Table.lookup_erase_cases h₂).2 hu₁ hu₂
  numbered e' he' := by
    cases List.mem_append.mp he' with
    | inl hmem => exact h.numbered e' hmem
    | inr hmem =>
        rw [List.mem_singleton.mp hmem]
        exact hlater.1
  ordered u' := by
    rw [Database.close, List.filter_append, List.pairwise_append]
    refine ⟨h.ordered u', ?_, ?_⟩
    · exact (List.pairwise_singleton _ _).filter _
    · intro a ha b hb
      obtain ⟨hmem, hau⟩ := List.mem_filter.mp ha
      obtain ⟨hnew, hbu⟩ := List.mem_filter.mp hb
      rw [List.mem_singleton.mp hnew] at hbu ⊢
      have hau := of_decide_eq_true hau
      have hbu := of_decide_eq_true hbu
      exact hlater.2 a hmem (hau.trans (hbu.symm.trans he))

theorem Consistent.step {d d' : Database} {e : Event} (h : d.Consistent)
    (he : d.step e = some d') : d'.Consistent := by
  cases performs_of_step he with
  | @begins t x hlock =>
      refine h.set (le_refl _) (sound_of_unlocked hlock) ?_
      intro u t' y hu
      rw [hlock] at hu
      cases hu
  | @advances t n x x' hx hn hlock hsound =>
      refine h.set hn (hsound h) ?_
      intro u t' y hu hy hyu
      rcases hlock with hlock | ⟨u', hu', hfree⟩
      · exact h.exclusive t' t y x u hy hx hyu (hlock ▸ hu)
      · cases hu'.symm.trans hu
        exact absurd ⟨t', y, hy, hyu⟩ hfree
  | closes t => exact h.close t
  | submits hx => exact h.commit hx rfl (h.sound _ _ hx).2.2 rfl
  | changes hx => exact h.commit hx rfl (h.sound _ _ hx).2.2.2 rfl
  | requests hs hcommands hevents =>
      refine ⟨fun t x hx => ?_, h.exclusive, h.numbered, h.ordered⟩
      exact (h.sound t x hx).keeps fun u _ => ⟨rfl, fun e he _ => he, le_refl _⟩

/-- Each step does to the committed tables what an operation of the store does. -/
theorem Consistent.serial {d d' : Database} {e : Event} (h : d.Consistent)
    (he : d.step e = some d') : d.committed.Serial d'.committed := by
  cases performs_of_step he with
  | begins hlock => exact .same
  | advances hx hn hlock hsound => exact .same
  | closes t => exact .same
  | @submits t i s expiresAt u hx =>
      obtain ⟨hu, hnone, -⟩ := h.sound t _ hx
      have hop := Store.submitCommand_new (s := d.committed) hu hnone expiresAt
      simpa [committed, Database.close] using Store.Serial.submitCommand hop
  | @changes t i c u row v hx =>
      obtain ⟨hu, hrow, hv, -⟩ := h.sound t _ hx
      have hop := Store.setStatus_known (s := d.committed) hu hrow hv c.eventType c.actor c.result
      simpa [committed, Database.close] using Store.Serial.setStatus hop
  | @requests s hs hcommands hevents =>
      have hcommitted : committed { d with outbox := s.outbox } = s := by
        obtain ⟨commands, events, outbox⟩ := s
        cases hcommands
        cases hevents
        rfl
      rw [hcommitted]
      exact hs

/-! ## Runs -/

abbrev Runs : Database → Prop := Reaches (Fires step fun _ _ => True) empty

theorem runs_of_events (es : List Event) (p : Database → Prop) [DecidablePred p]
    (h : (play step empty es).any p = true) : ∃ d, Runs d ∧ p d :=
  reaches_of_any step es p (permitted_of_forall (fun _ _ _ => trivial) _) h

theorem Runs.consistent {d : Database} (hrun : Runs d) : d.Consistent := by
  refine invariant Consistent ?_ consistent_empty hrun
  intro d d' h hstep
  obtain ⟨e, -, he⟩ := hstep
  exact h.step he

/-- The committed tables of an interleaving come from operations one after the other. -/
theorem Runs.serial {d : Database} (hrun : Runs d) :
    Reaches Store.Serial Store.empty d.committed := by
  induction hrun with
  | refl => exact Relation.ReflTransGen.refl
  | tail hrun hstep ih =>
      obtain ⟨e, -, he⟩ := hstep
      exact ih.tail (Runs.consistent hrun |>.serial he)

theorem Runs.mirrored {d : Database} (hrun : Runs d) : d.committed.Mirrored :=
  invariant Store.Mirrored (fun _ _ h hst => h.serial hst) Store.mirrored_empty hrun.serial

theorem Runs.registered {d : Database} (hrun : Runs d) : d.committed.Registered :=
  invariant Store.Registered (fun _ _ h hst => h.serial hst) Store.Registered.empty hrun.serial

def eventLog (d : Database) (u : Uuid) : List EventRow :=
  ((d.events.filter fun e => e.2.cmdId = u).mergeSort fun a b => a.1 ≤ b.1).map Prod.snd

/-- The order of the numbers is the order of the commits, command by command. -/
theorem Consistent.eventLog_eq {d : Database} (h : d.Consistent) (u : Uuid) :
    d.eventLog u = d.committed.eventsOf u := by
  have hsorted := (h.ordered u).imp fun {a b} hab => decide_eq_true (le_of_lt hab)
  rw [eventLog, List.mergeSort_of_pairwise hsorted, Store.eventsOf, committed, List.filter_map]
  rfl

/-- In any interleaving the log mirrors the status of every command and every command has
exactly one dispatch request; a duplicate and an unknown command end a transaction without
any effect. -/
theorem runs_log {d : Database} (hrun : Runs d) :
    (∀ u row, d.commands.lookup u = some row →
      Mirrors (d.eventLog u) row.status ∧
      ∃! i, ∃ s, d.committed.Requested i s ∧ parseUuid s.cmdId = some u) ∧
    (∀ t s expiresAt u, d.running.lookup t = some (.submitting s expiresAt) →
      parseUuid s.cmdId = some u → u ∈ d.commands → d.step (.execute t) = some (d.close t)) ∧
    (∀ t c, d.running.lookup t = some (.changing c) →
      (∀ u, parseUuid c.cmdId = some u → u ∉ d.commands) →
      d.step (.execute t) = some (d.close t)) := by
  refine ⟨?_, ?_, ?_⟩
  · intro u row hrow
    rw [hrun.consistent.eventLog_eq u]
    exact ⟨hrun.mirrored.known u row hrow, hrun.registered.exists_unique hrow⟩
  · intro t s expiresAt u hx hu hmem
    obtain ⟨row, hrow⟩ := Option.isSome_iff_exists.mp (AList.lookup_isSome.mpr hmem)
    simp [step, hx, execute, hu, hrow]
  · intro t c hx hunknown
    cases hu : parseUuid c.cmdId with
    | none => simp [step, hx, execute, hu]
    | some u =>
        have hnone := AList.lookup_eq_none.mpr (hunknown u hu)
        simp [step, hx, execute, hu, hnone]

def sampleSubmission : Dispatch :=
  ⟨"a0eebc99-9c0b-4ef8-bb6d-6bb9bd380a11", "node-1", "restart", [], 60⟩

def submittedUuid : Uuid :=
  [160, 238, 188, 153, 156, 11, 78, 248, 187, 109, 107, 185, 189, 56, 10, 17]

/-- A result arrives while the delivery is being recorded: the second transaction has to
wait for the first one. -/
theorem runs_log_two_writers :
    ∃ d, Runs d ∧ d.events.length = 3 ∧ Mirrors (d.eventLog submittedUuid) "SUCCEEDED" := by
  obtain ⟨d, hrun, hlength, hstatus⟩ := runs_of_events
    [.submitCommand 0 sampleSubmission 300, .execute 0, .execute 0, .execute 0, .commit 0,
      .transition 1 sampleSubmission.cmdId "delivered" "DELIVERED" "connector", .execute 1,
      .completeCommand 2 sampleSubmission.cmdId "SUCCEEDED" none, .execute 1, .execute 1,
      .commit 1, .execute 2, .execute 2, .execute 2, .commit 2]
    (fun d => d.events.length = 3 ∧ d.committed.status submittedUuid = some "SUCCEEDED")
    (by decide +kernel)
  obtain ⟨row, hrow, hrowStatus⟩ := Option.map_eq_some_iff.mp hstatus
  exact ⟨d, hrun, hlength, hrowStatus ▸ ((runs_log hrun).1 submittedUuid row hrow).1⟩

end Database

end TomAgent.Platform
