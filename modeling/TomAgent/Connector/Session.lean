import Mathlib.Algebra.Order.Ring.Nat
import Mathlib.Data.List.AList
import TomAgent.Core.Execution

/-!
# The session registry

At most one session of an asset is current.  Registering a new one closes the fence
of the old one, whose control loop then has to leave.  Sessions are kept in the order
of their registration; a pointer to a session is its place in that order.  Every
operation runs under the mutex of the registry.
-/

namespace TomAgent.Connector

open Execution

structure Session where
  assetId : String
  sessionId : String
  epoch : UInt64
  agentVer : String
  catalogVer : String
  connectedAt : Int
  lastSeen : Int
  /-- Nothing is sent on the channel `fence`; it can only be closed. -/
  fenceClosed : Bool
deriving Repr, DecidableEq

/-- The arguments of `Register` and the two readings of the clock it makes. -/
structure RegisterArgs where
  assetId : String
  sessionId : String
  agentVer : String
  catalogVer : String
  connectedAt : Int
  lastSeen : Int
deriving Repr, DecidableEq

structure SessionRegistry where
  /-- The sessions allocated so far. -/
  sessions : List Session
  byAsset : AList (fun _ : String => Nat)
  epochSeq : UInt64

namespace SessionRegistry

def new : SessionRegistry := ⟨[], ∅, 0⟩

def newSession (r : SessionRegistry) (a : RegisterArgs) : Session where
  assetId := a.assetId
  sessionId := a.sessionId
  epoch := r.epochSeq + 1
  agentVer := a.agentVer
  catalogVer := a.catalogVer
  connectedAt := a.connectedAt
  lastSeen := a.lastSeen
  fenceClosed := false

/-- `close(old.fence)`; closing a closed channel panics. -/
def closeFence (sessions : List Session) (p : Nat) : Option (List Session) :=
  match sessions[p]? with
  | some s => if s.fenceClosed then none else some (sessions.set p { s with fenceClosed := true })
  | none => none

/-- The registry after the call and the session that was replaced; the new session is
the last one.  `none` is a panic. -/
def register (r : SessionRegistry) (a : RegisterArgs) : Option (SessionRegistry × Option Nat) :=
  let byAsset := r.byAsset.insert a.assetId r.sessions.length
  match r.byAsset.lookup a.assetId with
  | none => some (⟨r.sessions ++ [r.newSession a], byAsset, r.epochSeq + 1⟩, none)
  | some old => (closeFence r.sessions old).map fun sessions =>
      (⟨sessions ++ [r.newSession a], byAsset, r.epochSeq + 1⟩, some old)

def refresh (r : SessionRegistry) (p : Nat) (now : Int) : SessionRegistry :=
  { r with sessions := r.sessions.modify p fun s => { s with lastSeen := now } }

def touch (r : SessionRegistry) (assetId : String) (epoch : UInt64) (now : Int) :
    SessionRegistry × Bool :=
  match r.byAsset.lookup assetId with
  | none => (r, false)
  | some p =>
      if (r.sessions[p]?).any fun s => s.epoch = epoch then (r.refresh p now, true)
      else (r, false)

/-- Only the session that is current is removed. -/
def unregister (r : SessionRegistry) (p : Nat) : SessionRegistry :=
  match r.sessions[p]? with
  | none => r
  | some s =>
      if r.byAsset.lookup s.assetId = some p then { r with byAsset := r.byAsset.erase s.assetId }
      else r

def online (r : SessionRegistry) : List Session :=
  r.byAsset.entries.filterMap fun e => r.sessions[e.2]?

def offlineSweep (r : SessionRegistry) (timeout now : Int) : List Session :=
  r.online.filter fun s => timeout < now - s.lastSeen

def current (r : SessionRegistry) (assetId : String) : Option Nat := r.byAsset.lookup assetId

inductive Registers (r : SessionRegistry) (a : RegisterArgs) :
    SessionRegistry → Option Nat → Prop
  | first (hnone : r.current a.assetId = none) :
      Registers r a ⟨r.sessions ++ [r.newSession a],
        r.byAsset.insert a.assetId r.sessions.length, r.epochSeq + 1⟩ none
  | replacing {old : Nat} {s : Session} (hold : r.current a.assetId = some old)
      (hs : r.sessions[old]? = some s) (hopen : s.fenceClosed = false) :
      Registers r a ⟨r.sessions.set old { s with fenceClosed := true } ++ [r.newSession a],
        r.byAsset.insert a.assetId r.sessions.length, r.epochSeq + 1⟩ (some old)

theorem register_registers {r r' : SessionRegistry} {a : RegisterArgs} {old : Option Nat}
    (h : r.register a = some (r', old)) : r.Registers a r' old := by
  unfold register at h
  split at h
  next hnone =>
    cases h
    exact .first hnone
  next p hp =>
    unfold closeFence at h
    split at h
    next s hs =>
      split at h
      next => cases h
      next hopen =>
        cases h
        exact .replacing hp hs (by simpa using hopen)
    next => cases h

theorem Registers.length {r r' : SessionRegistry} {a : RegisterArgs} {old : Option Nat}
    (h : r.Registers a r' old) : r'.sessions.length = r.sessions.length + 1 := by
  cases h with
  | first hnone => simp
  | replacing hold hs hopen => simp

theorem Registers.getElem?_new {r r' : SessionRegistry} {a : RegisterArgs} {old : Option Nat}
    (h : r.Registers a r' old) : r'.sessions[r.sessions.length]? = some (r.newSession a) := by
  cases h with
  | first hnone => simp
  | replacing hold hs hopen => simp

/-- The earlier sessions stay, but for the fence of the one that is replaced. -/
theorem Registers.getElem?_lt {r r' : SessionRegistry} {a : RegisterArgs} {old : Option Nat}
    {p : Nat} (h : r.Registers a r' old) (hp : p < r.sessions.length) :
    r'.sessions[p]? = (r.sessions[p]?).map fun s =>
      { s with fenceClosed := s.fenceClosed || decide (old = some p) } := by
  cases h with
  | first hnone =>
      rw [List.getElem?_append_left hp]
      simp
  | @replacing old s hold hs hopen =>
      rw [List.getElem?_append_left (by simpa using hp)]
      by_cases heq : old = p
      · subst heq
        simp [List.getElem?_set_self hp, hs]
      · simp [List.getElem?_set_ne heq, heq]

theorem Registers.session {r r' : SessionRegistry} {a : RegisterArgs} {old : Option Nat}
    {p : Nat} {s : Session} (h : r.Registers a r' old) (hs : r'.sessions[p]? = some s) :
    p = r.sessions.length ∧ s = r.newSession a ∨
      ∃ s₀, r.sessions[p]? = some s₀ ∧
        s = { s₀ with fenceClosed := s₀.fenceClosed || decide (old = some p) } := by
  have hle := (List.getElem?_eq_some_iff.mp hs).1
  rw [h.length] at hle
  by_cases hp : p = r.sessions.length
  · subst hp
    rw [h.getElem?_new] at hs
    exact Or.inl ⟨rfl, (Option.some.inj hs).symm⟩
  · rw [h.getElem?_lt (by omega)] at hs
    obtain ⟨s₀, hs₀, rfl⟩ := Option.map_eq_some_iff.mp hs
    exact Or.inr ⟨s₀, hs₀, rfl⟩

theorem Registers.epochSeq {r r' : SessionRegistry} {a : RegisterArgs} {old : Option Nat}
    (h : r.Registers a r' old) : r'.epochSeq = r.epochSeq + 1 := by
  cases h with
  | first hnone => rfl
  | replacing hold hs hopen => rfl

theorem Registers.current_cases {r r' : SessionRegistry} {a : RegisterArgs} {old : Option Nat}
    (h : r.Registers a r' old) (assetId : String) :
    assetId = a.assetId ∧ r'.current assetId = some r.sessions.length ∨
      assetId ≠ a.assetId ∧ r'.current assetId = r.current assetId := by
  have hinsert : r'.byAsset = r.byAsset.insert a.assetId r.sessions.length := by
    cases h with
    | first hnone => rfl
    | replacing hold hs hopen => rfl
  by_cases hasset : assetId = a.assetId
  · subst hasset
    left
    exact ⟨rfl, by rw [current, hinsert, AList.lookup_insert]⟩
  · right
    exact ⟨hasset, by rw [current, hinsert, AList.lookup_insert_ne hasset, current]⟩

theorem Registers.replaced {r r' : SessionRegistry} {a : RegisterArgs} {old : Option Nat}
    (h : r.Registers a r' old) : old = r.current a.assetId := by
  cases h with
  | first hnone => exact hnone.symm
  | replacing hold hs hopen => exact hold.symm

/-- Being touched changes nothing but the time a session was last seen. -/
theorem refresh_session {r : SessionRegistry} {p q : Nat} {now : Int} {s : Session}
    (hs : (r.refresh p now).sessions[q]? = some s) :
    ∃ s₀, r.sessions[q]? = some s₀ ∧ s = { s₀ with lastSeen := s.lastSeen } := by
  rw [refresh, List.getElem?_modify] at hs
  obtain ⟨s₀, hs₀, hs⟩ := Option.map_eq_some_iff.mp hs
  refine ⟨s₀, hs₀, ?_⟩
  split at hs
  next => rw [← hs]
  next => rw [← hs]

theorem exists_refresh_session {r : SessionRegistry} {q : Nat} {s : Session} (p : Nat) (now : Int)
    (hs : r.sessions[q]? = some s) :
    ∃ s', (r.refresh p now).sessions[q]? = some s' ∧ s'.assetId = s.assetId := by
  simp only [refresh, List.getElem?_modify, hs]
  refine ⟨_, rfl, ?_⟩
  split
  next => rfl
  next => rfl

theorem touch_cases (r : SessionRegistry) (assetId : String) (epoch : UInt64) (now : Int) :
    (r.touch assetId epoch now).1 = r ∨ ∃ p, (r.touch assetId epoch now).1 = r.refresh p now := by
  unfold touch
  split
  next => exact Or.inl rfl
  next p hp =>
    split
    next => exact Or.inr ⟨p, rfl⟩
    next => exact Or.inl rfl

theorem touch_current (r : SessionRegistry) (a assetId : String) (epoch : UInt64) (now : Int) :
    (r.touch assetId epoch now).1.current a = r.current a := by
  rcases r.touch_cases assetId epoch now with heq | ⟨p, heq⟩
  · rw [heq]
  · rw [heq]
    rfl

theorem exists_touch_session {r : SessionRegistry} {q : Nat} {s : Session} (assetId : String)
    (epoch : UInt64) (now : Int) (hs : r.sessions[q]? = some s) :
    ∃ s', (r.touch assetId epoch now).1.sessions[q]? = some s' ∧ s'.assetId = s.assetId := by
  rcases r.touch_cases assetId epoch now with heq | ⟨p, heq⟩
  · rw [heq]
    exact ⟨s, hs, rfl⟩
  · rw [heq]
    exact exists_refresh_session p now hs

theorem touch_eq_self {r : SessionRegistry} {assetId : String} {epoch : UInt64}
    (h : ∀ p s, r.current assetId = some p → r.sessions[p]? = some s → s.epoch ≠ epoch)
    (now : Int) : r.touch assetId epoch now = (r, false) := by
  unfold touch
  split
  next => rfl
  next p hp =>
    rw [if_neg]
    intro hany
    obtain ⟨s, hs, hepoch⟩ := (Option.any_eq_true _ _).mp hany
    exact h p s hp hs (of_decide_eq_true hepoch)

theorem unregister_eq_self {r : SessionRegistry} {p : Nat}
    (h : ∀ s, r.sessions[p]? = some s → r.current s.assetId ≠ some p) : r.unregister p = r := by
  unfold unregister
  split
  next => rfl
  next s hs => exact if_neg (h s hs)

theorem unregister_current {r : SessionRegistry} {p : Nat} {s : Session}
    (hs : r.sessions[p]? = some s) (hcur : r.current s.assetId = some p) :
    r.unregister p = { r with byAsset := r.byAsset.erase s.assetId } := by
  unfold unregister
  rw [hs]
  exact if_pos hcur

theorem unregister_sessions (r : SessionRegistry) (p : Nat) :
    (r.unregister p).sessions = r.sessions ∧ (r.unregister p).epochSeq = r.epochSeq := by
  unfold unregister
  split
  next => exact ⟨rfl, rfl⟩
  next =>
    split
    next => exact ⟨rfl, rfl⟩
    next => exact ⟨rfl, rfl⟩

/-- Removing a session does not concern the others. -/
theorem current_unregister {r : SessionRegistry} {p q : Nat} {assetId : String}
    (hq : r.current assetId = some q) (hne : q ≠ p) :
    (r.unregister p).current assetId = some q := by
  unfold unregister
  split
  next => exact hq
  next s hs =>
    split
    next hcur =>
      have hasset : assetId ≠ s.assetId := by
        intro heq
        rw [← heq] at hcur
        exact hne (Option.some.inj (hq.symm.trans hcur))
      exact (AList.lookup_erase_ne hasset).trans hq
    next => exact hq

end SessionRegistry

/-! ## Histories -/

structure RegistryRun where
  registry : SessionRegistry
  /-- Sessions that a later registration has replaced. -/
  replaced : List Nat
  /-- Sessions that `Unregister` has been called with. -/
  unregistered : List Nat

inductive RegistryEvent where
  | register (a : RegisterArgs)
  | touch (assetId : String) (epoch : UInt64) (now : Int)
  | unregister (p : Nat)
  | online
  | offlineSweep (timeout now : Int)

namespace RegistryRun

def start : RegistryRun := ⟨.new, [], []⟩

/-- No step follows a panic.  `Unregister` is called with a session that was returned
before. -/
def step (n : RegistryRun) : RegistryEvent → Option RegistryRun
  | .register a => (n.registry.register a).map fun (r, old) =>
      { n with registry := r, replaced := n.replaced ++ old.toList }
  | .touch assetId epoch now => some { n with registry := (n.registry.touch assetId epoch now).1 }
  | .unregister p =>
      if p < n.registry.sessions.length then some { n with
        registry := n.registry.unregister p
        unregistered := n.unregistered ++ [p] }
      else none
  | .online => some n
  | .offlineSweep _ _ => some n

abbrev Runs : RegistryRun → RegistryRun → Prop := Reaches (Fires step fun _ _ => True)

theorem runs_of_events (es : List RegistryEvent) (p : RegistryRun → Prop) [DecidablePred p]
    (h : (play step start es).any p = true) : ∃ n, Runs start n ∧ p n :=
  reaches_of_any step es p (permitted_of_forall (fun _ _ _ => trivial) _) h

inductive Performs (n : RegistryRun) : RegistryRun → Prop
  | registered {a : RegisterArgs} {r : SessionRegistry} {old : Option Nat}
      (hr : n.registry.Registers a r old) :
      Performs n { n with registry := r, replaced := n.replaced ++ old.toList }
  | refreshed (p : Nat) (now : Int) : Performs n { n with registry := n.registry.refresh p now }
  | unregistered {p : Nat} (hp : p < n.registry.sessions.length) :
      Performs n { n with
        registry := n.registry.unregister p
        unregistered := n.unregistered ++ [p] }
  | unchanged : Performs n n

theorem performs_of_step {n n' : RegistryRun} {e : RegistryEvent} (he : n.step e = some n') :
    n.Performs n' := by
  cases e with
  | register a =>
      obtain ⟨⟨r, old⟩, hr, rfl⟩ := Option.map_eq_some_iff.mp he
      exact .registered (SessionRegistry.register_registers hr)
  | touch assetId epoch now =>
      cases he
      rcases n.registry.touch_cases assetId epoch now with heq | ⟨p, heq⟩
      · rw [heq]
        exact .unchanged
      · rw [heq]
        exact .refreshed p now
  | unregister p =>
      simp only [step] at he
      split at he
      next hp =>
        cases he
        exact .unregistered hp
      next => cases he
  | online =>
      cases he
      exact .unchanged
  | offlineSweep timeout now =>
      cases he
      exact .unchanged

/-- Replaced once, replaced for good. -/
theorem replaced_subset {n n' : RegistryRun} {e : RegistryEvent} (he : n.step e = some n') :
    n.replaced ⊆ n'.replaced := by
  cases performs_of_step he with
  | registered hr => exact List.subset_append_left _ _
  | refreshed p now => exact List.Subset.refl _
  | unregistered hp => exact List.Subset.refl _
  | unchanged => exact List.Subset.refl _

/-- Epochs number the sessions in the order of their registration, modulo `2 ^ 64`. -/
structure Numbered (r : SessionRegistry) : Prop where
  epochs : ∀ p s, r.sessions[p]? = some s → s.epoch = UInt64.ofNat (p + 1)
  seq : r.epochSeq = UInt64.ofNat r.sessions.length

/-- What the registry keeps, in terms of its history. -/
structure Orderly (n : RegistryRun) : Prop where
  fences : ∀ p s, n.registry.sessions[p]? = some s → (s.fenceClosed = true ↔ p ∈ n.replaced)
  once : n.replaced.Nodup
  ended : ∀ p, p ∈ n.replaced ∨ p ∈ n.unregistered → p < n.registry.sessions.length
  named : ∀ a p, n.registry.current a = some p →
    ∃ s, n.registry.sessions[p]? = some s ∧ s.assetId = a
  latest : ∀ a p q s, n.registry.current a = some p → n.registry.sessions[q]? = some s →
    s.assetId = a → q ≤ p
  serving : ∀ a p, n.registry.current a = some p → p ∉ n.replaced ∧ p ∉ n.unregistered
  kept : ∀ p s, n.registry.sessions[p]? = some s → p ∉ n.replaced → p ∉ n.unregistered →
    n.registry.current s.assetId = some p

theorem numbered_new : Numbered .new where
  epochs := by intro p s hs; simp [SessionRegistry.new] at hs
  seq := rfl

theorem orderly_start : Orderly start where
  fences := by intro p s hs; simp [start, SessionRegistry.new] at hs
  once := List.nodup_nil
  ended := by intro p hp; simp [start] at hp
  named := by intro a p hp; cases hp
  latest := by intro a p q s hp; cases hp
  serving := by intro a p hp; cases hp
  kept := by intro p s hs; simp [start, SessionRegistry.new] at hs

theorem Numbered.register {r r' : SessionRegistry} (h : Numbered r) {a : RegisterArgs}
    {old : Option Nat} (hr : r.Registers a r' old) : Numbered r' := by
  have hseq : r.epochSeq + 1 = UInt64.ofNat (r.sessions.length + 1) := by
    rw [h.seq, UInt64.ofNat_add]
    rfl
  refine ⟨?_, by rw [hr.epochSeq, hr.length, hseq]⟩
  intro p s hs
  rcases hr.session hs with ⟨rfl, rfl⟩ | ⟨s₀, hs₀, rfl⟩
  · exact hseq
  · exact h.epochs p s₀ hs₀

theorem Numbered.refresh {r : SessionRegistry} (h : Numbered r) (p : Nat) (now : Int) :
    Numbered (r.refresh p now) := by
  refine ⟨?_, by simpa [SessionRegistry.refresh] using h.seq⟩
  intro q s hs
  obtain ⟨s₀, hs₀, heq⟩ := SessionRegistry.refresh_session hs
  rw [heq]
  exact h.epochs q s₀ hs₀

theorem Numbered.lt {r : SessionRegistry} (h : Numbered r) (hcount : r.sessions.length < 2 ^ 64)
    {p q : Nat} {s s' : Session} (hs : r.sessions[p]? = some s) (hs' : r.sessions[q]? = some s')
    (hpq : p < q) : s.epoch < s'.epoch := by
  have hq := (List.getElem?_eq_some_iff.mp hs').1
  rw [h.epochs p s hs, h.epochs q s' hs']
  rw [UInt64.ofNat_lt_iff_lt (by simp only [UInt64.size]; omega) (by simp only [UInt64.size]; omega)]
  omega

theorem Orderly.current_lt {n : RegistryRun} (h : n.Orderly) {assetId : String} {p : Nat}
    (hp : n.registry.current assetId = some p) : p < n.registry.sessions.length := by
  obtain ⟨s, hs, -⟩ := h.named assetId p hp
  exact (List.getElem?_eq_some_iff.mp hs).1

/-- A session is current for one asset only. -/
theorem Orderly.asset_eq {n : RegistryRun} (h : n.Orderly) {a b : String} {p : Nat}
    (ha : n.registry.current a = some p) (hb : n.registry.current b = some p) : a = b := by
  obtain ⟨s, hs, rfl⟩ := h.named a p ha
  obtain ⟨s', hs', rfl⟩ := h.named b p hb
  rw [hs] at hs'
  cases hs'
  rfl

theorem Orderly.open_current {n : RegistryRun} (h : n.Orderly) {assetId : String} {p : Nat}
    {s : Session} (hp : n.registry.current assetId = some p)
    (hs : n.registry.sessions[p]? = some s) : s.fenceClosed = false := by
  cases hclosed : s.fenceClosed with
  | false => rfl
  | true => exact absurd ((h.fences p s hs).mp hclosed) (h.serving assetId p hp).1

/-- The current session of an asset has an open fence, so it can be replaced. -/
theorem Orderly.register_isSome {n : RegistryRun} (h : n.Orderly) (a : RegisterArgs) :
    (n.registry.register a).isSome = true := by
  unfold SessionRegistry.register
  split
  next => rfl
  next old hold =>
    obtain ⟨s, hs, -⟩ := h.named a.assetId old hold
    simp [SessionRegistry.closeFence, hs, h.open_current hold hs]

section Register

variable {n : RegistryRun} {a : RegisterArgs} {r : SessionRegistry} {old : Option Nat}

theorem mem_replaced (hr : n.registry.Registers a r old) (p : Nat) :
    p ∈ n.replaced ++ old.toList ↔ p ∈ n.replaced ∨ n.registry.current a.assetId = some p := by
  rw [List.mem_append, Option.mem_toList, hr.replaced]

theorem Orderly.ended_register (h : n.Orderly) (hr : n.registry.Registers a r old) (p : Nat)
    (hp : p ∈ n.replaced ++ old.toList ∨ p ∈ n.unregistered) :
    p < n.registry.sessions.length := by
  rw [mem_replaced hr] at hp
  rcases hp with (hp | hp) | hp
  · exact h.ended p (Or.inl hp)
  · exact h.current_lt hp
  · exact h.ended p (Or.inr hp)

theorem Orderly.fences_register (h : n.Orderly) (hr : n.registry.Registers a r old) (p : Nat)
    (s : Session) (hs : r.sessions[p]? = some s) :
    s.fenceClosed = true ↔ p ∈ n.replaced ++ old.toList := by
  rcases hr.session hs with ⟨rfl, rfl⟩ | ⟨s₀, hs₀, rfl⟩
  · constructor
    · intro hclosed
      cases hclosed
    · intro hp
      exact absurd (h.ended_register hr _ (Or.inl hp)) (lt_irrefl _)
  · rw [Bool.or_eq_true, h.fences p s₀ hs₀, List.mem_append, Option.mem_toList,
      decide_eq_true_iff]

theorem Orderly.named_register (h : n.Orderly) (hr : n.registry.Registers a r old) (b : String)
    (p : Nat) (hp : r.current b = some p) : ∃ s, r.sessions[p]? = some s ∧ s.assetId = b := by
  rcases hr.current_cases b with ⟨rfl, hcur⟩ | ⟨-, hcur⟩
  · cases hcur.symm.trans hp
    exact ⟨_, hr.getElem?_new, rfl⟩
  · rw [hcur] at hp
    obtain ⟨s, hs, hname⟩ := h.named b p hp
    have hs' := hr.getElem?_lt (h.current_lt hp)
    rw [hs, Option.map_some] at hs'
    exact ⟨_, hs', hname⟩

theorem Orderly.latest_register (h : n.Orderly) (hr : n.registry.Registers a r old) (b : String)
    (p q : Nat) (s : Session) (hp : r.current b = some p) (hs : r.sessions[q]? = some s)
    (hname : s.assetId = b) : q ≤ p := by
  have hq := (List.getElem?_eq_some_iff.mp hs).1
  rw [hr.length] at hq
  rcases hr.current_cases b with ⟨rfl, hcur⟩ | ⟨hb, hcur⟩
  · cases hcur.symm.trans hp
    omega
  · rcases hr.session hs with ⟨rfl, rfl⟩ | ⟨s₀, hs₀, rfl⟩
    · exact absurd hname.symm hb
    · exact h.latest b p q s₀ (hcur ▸ hp) hs₀ hname

theorem Orderly.serving_register (h : n.Orderly) (hr : n.registry.Registers a r old) (b : String)
    (p : Nat) (hp : r.current b = some p) :
    p ∉ n.replaced ++ old.toList ∧ p ∉ n.unregistered := by
  rcases hr.current_cases b with ⟨rfl, hcur⟩ | ⟨hb, hcur⟩
  · cases hcur.symm.trans hp
    exact ⟨fun hmem => lt_irrefl _ (h.ended_register hr _ (Or.inl hmem)),
      fun hmem => lt_irrefl _ (h.ended_register hr _ (Or.inr hmem))⟩
  · rw [hcur] at hp
    refine ⟨fun hmem => ?_, (h.serving b p hp).2⟩
    cases (mem_replaced hr p).mp hmem with
    | inl hmem => exact (h.serving b p hp).1 hmem
    | inr hmem => exact hb (h.asset_eq hp hmem)

theorem Orderly.kept_register (h : n.Orderly) (hr : n.registry.Registers a r old) (p : Nat)
    (s : Session) (hs : r.sessions[p]? = some s) (hreplaced : p ∉ n.replaced ++ old.toList)
    (hunreg : p ∉ n.unregistered) : r.current s.assetId = some p := by
  rw [mem_replaced hr, not_or] at hreplaced
  rcases hr.session hs with ⟨rfl, rfl⟩ | ⟨s₀, hs₀, rfl⟩
  · rcases hr.current_cases a.assetId with ⟨-, hcur⟩ | ⟨hne, -⟩
    · exact hcur
    · exact absurd rfl hne
  · have hcur := h.kept p s₀ hs₀ hreplaced.1 hunreg
    rcases hr.current_cases s₀.assetId with ⟨hasset, -⟩ | ⟨-, hsame⟩
    · rw [hasset] at hcur
      exact absurd hcur hreplaced.2
    · exact hsame.trans hcur

theorem Orderly.once_register (h : n.Orderly) (hr : n.registry.Registers a r old) :
    (n.replaced ++ old.toList).Nodup := by
  refine List.nodup_append.mpr ⟨h.once, by cases old <;> simp, ?_⟩
  intro p hp q hq
  rw [Option.mem_toList, hr.replaced] at hq
  rintro rfl
  exact (h.serving a.assetId p hq).1 hp

theorem Orderly.register (h : n.Orderly) (hr : n.registry.Registers a r old) :
    Orderly { n with registry := r, replaced := n.replaced ++ old.toList } where
  fences := h.fences_register hr
  once := h.once_register hr
  ended p hp := lt_of_lt_of_eq (Nat.lt_succ_of_lt (h.ended_register hr p hp)) hr.length.symm
  named := h.named_register hr
  latest := h.latest_register hr
  serving := h.serving_register hr
  kept := h.kept_register hr

end Register

/-- No field but the time a session was last seen depends on heartbeats. -/
theorem Orderly.refresh {n : RegistryRun} (h : n.Orderly) (p : Nat) (now : Int) :
    Orderly { n with registry := n.registry.refresh p now } where
  fences q s hs := by
    obtain ⟨s₀, hs₀, heq⟩ := SessionRegistry.refresh_session hs
    rw [heq]
    exact h.fences q s₀ hs₀
  once := h.once
  ended q hq := by simpa [SessionRegistry.refresh] using h.ended q hq
  named a q hq := by
    obtain ⟨s, hs, hname⟩ := h.named a q hq
    obtain ⟨t, hs', hname'⟩ := SessionRegistry.exists_refresh_session p now hs
    exact ⟨t, hs', hname'.trans hname⟩
  latest a q q' s hq hs hname := by
    obtain ⟨s₀, hs₀, heq⟩ := SessionRegistry.refresh_session hs
    rw [heq] at hname
    exact h.latest a q q' s₀ hq hs₀ hname
  serving := h.serving
  kept q s hs hreplaced hunreg := by
    obtain ⟨s₀, hs₀, heq⟩ := SessionRegistry.refresh_session hs
    rw [heq]
    exact h.kept q s₀ hs₀ hreplaced hunreg

theorem Orderly.unregister_other {n : RegistryRun} (h : n.Orderly) {p : Nat}
    (hp : p < n.registry.sessions.length) (hcur : ∀ a, n.registry.current a ≠ some p) :
    Orderly { n with unregistered := n.unregistered ++ [p] } where
  fences := h.fences
  once := h.once
  ended q hq := by
    rw [List.mem_append, List.mem_singleton] at hq
    rcases hq with hq | hq | rfl
    · exact h.ended q (Or.inl hq)
    · exact h.ended q (Or.inr hq)
    · exact hp
  named := h.named
  latest := h.latest
  serving a q hq := by
    refine ⟨(h.serving a q hq).1, fun hmem => ?_⟩
    rw [List.mem_append, List.mem_singleton] at hmem
    rcases hmem with hmem | rfl
    · exact (h.serving a q hq).2 hmem
    · exact hcur a hq
  kept q s hs hreplaced hunreg :=
    h.kept q s hs hreplaced fun hmem => hunreg (List.mem_append_left _ hmem)

/-- The asset of the current session `p` has none afterwards. -/
theorem Orderly.unregister_current {n : RegistryRun} (h : n.Orderly) {p : Nat} {a : String}
    (hcur : n.registry.current a = some p) :
    Orderly { n with
      registry := { n.registry with byAsset := n.registry.byAsset.erase a }
      unregistered := n.unregistered ++ [p] } := by
  have herase : ∀ b q, (n.registry.byAsset.erase a).lookup b = some q →
      b ≠ a ∧ n.registry.current b = some q := by
    intro b q hq
    by_cases hb : b = a
    · subst hb
      rw [AList.lookup_erase] at hq
      cases hq
    · exact ⟨hb, by rw [← hq, AList.lookup_erase_ne hb]; rfl⟩
  refine ⟨h.fences, h.once, ?_, fun b q hq => h.named b q (herase b q hq).2,
    fun b q q' s hq => h.latest b q q' s (herase b q hq).2, ?_, ?_⟩
  · intro q hq
    rw [List.mem_append, List.mem_singleton] at hq
    rcases hq with hq | hq | rfl
    · exact h.ended q (Or.inl hq)
    · exact h.ended q (Or.inr hq)
    · exact h.current_lt hcur
  · intro b q hq
    obtain ⟨hb, hcurb⟩ := herase b q hq
    refine ⟨(h.serving b q hcurb).1, fun hmem => ?_⟩
    rw [List.mem_append, List.mem_singleton] at hmem
    rcases hmem with hmem | rfl
    · exact (h.serving b q hcurb).2 hmem
    · exact hb (h.asset_eq hcurb hcur)
  · intro q s hs hreplaced hunreg
    rw [List.mem_append, List.mem_singleton, not_or] at hunreg
    have hq := h.kept q s hs hreplaced hunreg.1
    have hne : s.assetId ≠ a := by
      intro hasset
      rw [hasset, hcur] at hq
      exact hunreg.2 (Option.some.inj hq).symm
    exact (AList.lookup_erase_ne hne).trans hq

theorem Orderly.unregister {n : RegistryRun} (h : n.Orderly) {p : Nat}
    (hp : p < n.registry.sessions.length) :
    Orderly { n with registry := n.registry.unregister p, unregistered := n.unregistered ++ [p] } := by
  obtain ⟨s, hs⟩ : ∃ s, n.registry.sessions[p]? = some s := ⟨_, List.getElem?_eq_getElem hp⟩
  by_cases hcur : n.registry.current s.assetId = some p
  · rw [SessionRegistry.unregister_current hs hcur]
    exact h.unregister_current hcur
  · have hother : ∀ a, n.registry.current a ≠ some p := by
      intro a ha
      obtain ⟨s', hs', rfl⟩ := h.named a p ha
      rw [hs] at hs'
      cases hs'
      exact hcur ha
    rw [SessionRegistry.unregister_eq_self fun s' _ => hother s'.assetId]
    exact h.unregister_other hp hother

theorem Orderly.step {n n' : RegistryRun} {e : RegistryEvent} (h : n.Orderly)
    (he : n.step e = some n') : n'.Orderly := by
  cases performs_of_step he with
  | registered hr => exact h.register hr
  | refreshed p now => exact h.refresh p now
  | unregistered hp => exact h.unregister hp
  | unchanged => exact h

theorem Numbered.step {n n' : RegistryRun} {e : RegistryEvent} (h : Numbered n.registry)
    (he : n.step e = some n') : Numbered n'.registry := by
  cases performs_of_step he with
  | registered hr => exact h.register hr
  | refreshed p now => exact h.refresh p now
  | @unregistered p hp =>
      obtain ⟨hsessions, hseq⟩ := n.registry.unregister_sessions p
      exact ⟨fun q s hs => h.epochs q s (hsessions ▸ hs), by rw [hsessions, hseq, h.seq]⟩
  | unchanged => exact h

theorem runs_invariant {n : RegistryRun} (hrun : Runs start n) :
    Numbered n.registry ∧ n.Orderly := by
  refine invariant (fun n : RegistryRun => Numbered n.registry ∧ n.Orderly) ?_
    ⟨numbered_new, orderly_start⟩ hrun
  intro n n' h hstep
  obtain ⟨e, -, he⟩ := hstep
  exact ⟨h.1.step he, h.2.step he⟩

/-- In every history the session of an asset is its latest one, is not unregistered and has
an open fence; a replaced session has a closed fence and no registration panics; old
sessions cannot be unregistered.  As long as fewer than `2 ^ 64` sessions have been
registered, epochs increase in the order of registration and old ones have no effect. -/
theorem runs_registry {n : RegistryRun} (hrun : Runs start n) :
    (n.registry.sessions.length < 2 ^ 64 →
      ∀ (p q : Nat) (s s' : Session), n.registry.sessions[p]? = some s →
        n.registry.sessions[q]? = some s' → p < q → s.epoch < s'.epoch) ∧
    (∀ a p, n.registry.byAsset.lookup a = some p →
      p ∉ n.unregistered ∧
      (∃ s, n.registry.sessions[p]? = some s ∧ s.assetId = a ∧ s.fenceClosed = false) ∧
      ∀ q s, n.registry.sessions[q]? = some s → s.assetId = a → q ≤ p) ∧
    (∀ p ∈ n.replaced, ∃ s, n.registry.sessions[p]? = some s ∧ s.fenceClosed = true) ∧
    (n.replaced.Nodup ∧ ∀ a, (n.registry.register a).isSome = true) ∧
    (n.registry.sessions.length < 2 ^ 64 →
      ∀ a p q s now, n.registry.byAsset.lookup a = some p → n.registry.sessions[q]? = some s →
        q < p → n.registry.touch a s.epoch now = (n.registry, false)) ∧
    (∀ q s, n.registry.sessions[q]? = some s → n.registry.byAsset.lookup s.assetId ≠ some q →
      n.registry.unregister q = n.registry) := by
  obtain ⟨hnum, h⟩ := runs_invariant hrun
  refine ⟨fun hcount p q s s' hs hs' => hnum.lt hcount hs hs', ?_, ?_,
    ⟨h.once, h.register_isSome⟩, ?_, ?_⟩
  · intro a p hp
    obtain ⟨s, hs, hname⟩ := h.named a p hp
    exact ⟨(h.serving a p hp).2, ⟨s, hs, hname, h.open_current hp hs⟩,
      fun q s' => h.latest a p q s' hp⟩
  · intro p hp
    obtain ⟨s, hs⟩ : ∃ s, n.registry.sessions[p]? = some s :=
      ⟨_, List.getElem?_eq_getElem (h.ended p (Or.inl hp))⟩
    exact ⟨s, hs, (h.fences p s hs).mpr hp⟩
  · intro hcount a p q s now hp hs hqp
    refine SessionRegistry.touch_eq_self (fun p' s' hp' hs' => ?_) now
    cases hp.symm.trans hp'
    exact (UInt64.ne_of_lt (hnum.lt hcount hs hs' hqp)).symm
  · intro q s hs hcur
    refine SessionRegistry.unregister_eq_self fun s' hs' => ?_
    cases hs.symm.trans hs'
    exact hcur

def sampleArgs (assetId sessionId : String) : RegisterArgs :=
  ⟨assetId, sessionId, "0.1.0", "v1", 0, 0⟩

/-- The agent connects again before its first session has ended. -/
theorem runs_registry_reconnect :
    ∃ n, Runs start n ∧ n.registry.sessions.length < 2 ^ 64 ∧ n.replaced = [0] ∧
      n.registry.byAsset.lookup "a1" = some 1 ∧
      n.registry.touch "a1" 1 7 = (n.registry, false) := by
  obtain ⟨n, hrun, hlen, hreplaced, hcur, hs⟩ := runs_of_events
    [.register (sampleArgs "a1" "s1"), .register (sampleArgs "a1" "s2"),
      .touch "a1" 2 5, .unregister 0]
    (fun n => n.registry.sessions.length < 2 ^ 64 ∧ n.replaced = [0] ∧
      n.registry.byAsset.lookup "a1" = some 1 ∧
      n.registry.sessions[0]? =
        some ⟨"a1", "s1", 1, "0.1.0", "v1", 0, 0, true⟩)
    (by decide +kernel)
  obtain ⟨-, -, -, -, htouch, -⟩ := runs_registry hrun
  exact ⟨n, hrun, hlen, hreplaced, hcur, htouch hlen "a1" 1 0 _ 7 hcur hs Nat.zero_lt_one⟩

theorem exists_runs_length (count : Nat) :
    ∃ n, Runs start n ∧ n.registry.sessions.length = count := by
  induction count with
  | zero => exact ⟨start, Relation.ReflTransGen.refl, rfl⟩
  | succ count ih =>
      obtain ⟨n, hrun, hlen⟩ := ih
      obtain ⟨⟨r, old⟩, hr⟩ := Option.isSome_iff_exists.mp
        ((runs_invariant hrun).2.register_isSome (sampleArgs "a1" "s1"))
      have hstep : n.step (.register (sampleArgs "a1" "s1")) =
          some ⟨r, n.replaced ++ old.toList, n.unregistered⟩ := by
        rw [step, hr, Option.map_some]
      refine ⟨_, hrun.tail ⟨_, trivial, hstep⟩, ?_⟩
      rw [(SessionRegistry.register_registers hr).length, hlen]

/-- The counter of epochs wraps around: session number `2 ^ 64 + 1` has the epoch of the
first one. -/
theorem epochs_not_unique :
    ∃ n, Runs start n ∧ ∃ (p q : Nat) (s s' : Session), p < q ∧
      n.registry.sessions[p]? = some s ∧ n.registry.sessions[q]? = some s' ∧ s.epoch = s'.epoch := by
  obtain ⟨n, hrun, hlen⟩ := exists_runs_length (2 ^ 64 + 1)
  have hnum := (runs_invariant hrun).1
  have hfirst : n.registry.sessions[0]? = some _ := List.getElem?_eq_getElem (by omega)
  have hlast : n.registry.sessions[2 ^ 64]? = some _ := List.getElem?_eq_getElem (by omega)
  refine ⟨n, hrun, 0, 2 ^ 64, _, _, by omega, hfirst, hlast, ?_⟩
  rw [hnum.epochs _ _ hfirst, hnum.epochs _ _ hlast]
  decide

end RegistryRun

end TomAgent.Connector
