import TomAgent.Platform.Outbox
import Mathlib.Data.List.Chain

/-!
# The event log

`cmd.event` is the history of `cmd.command`: the events of a command start with its
creation, each one starts from the status the one before it left, and the last one gives
the status of the row.
-/

namespace TomAgent.Platform

/-- The events of one command, oldest first, tell how it came to its status. -/
structure Mirrors (events : List EventRow) (status : String) : Prop where
  created : ∃ first rest, events = first :: rest ∧ first.eventType = "created" ∧
    first.fromStatus = none ∧ first.toStatus = "QUEUED"
  chain : events.IsChain fun a b => b.fromStatus = some a.toStatus
  last : events.getLast?.map EventRow.toStatus = some status

theorem mirrors_created (u : Uuid) (actor : String) :
    Mirrors [⟨u, "created", none, "QUEUED", actor⟩] "QUEUED" where
  created := ⟨_, [], rfl, rfl, rfl, rfl⟩
  chain := List.IsChain.singleton _
  last := rfl

theorem Mirrors.snoc {events : List EventRow} {status : String} (h : Mirrors events status)
    {e : EventRow} (hfrom : e.fromStatus = some status) : Mirrors (events ++ [e]) e.toStatus where
  created := by
    obtain ⟨first, rest, rfl, hfirst⟩ := h.created
    exact ⟨first, rest ++ [e], rfl, hfirst⟩
  chain := by
    refine h.chain.append (List.IsChain.singleton e) ?_
    intro a ha b hb
    cases hb
    have hlast := h.last
    rw [Option.mem_def.mp ha, Option.map_some] at hlast
    rw [hfrom, Option.some.inj hlast]
  last := by simp

namespace Store

variable {s t : Store}

def eventsOf (s : Store) (u : Uuid) : List EventRow := s.events.filter fun e => e.cmdId = u

structure Mirrored (s : Store) : Prop where
  known : ∀ u row, s.commands.lookup u = some row → Mirrors (s.eventsOf u) row.status
  unknown : ∀ u, s.commands.lookup u = none → s.eventsOf u = []

theorem eventsOf_append {e : EventRow} (h : t.events = s.events ++ [e]) (u : Uuid) :
    t.eventsOf u = if e.cmdId = u then s.eventsOf u ++ [e] else s.eventsOf u := by
  rw [eventsOf, h, List.filter_append]
  split
  next hu => simp [eventsOf, hu]
  next hu => simp [eventsOf, hu]

theorem submitCommand_new {d : Dispatch} {u : Uuid} (hu : parseUuid d.cmdId = some u)
    (hnone : s.commands.lookup u = none) (expiresAt : Int) :
    s.submitCommand d expiresAt =
      .ok ⟨s.commands.insert u ⟨d.assetId, "QUEUED", expiresAt, none⟩,
        s.events ++ [⟨u, "created", none, "QUEUED", "admin"⟩],
        s.outbox ++ [⟨.dispatchRequested, d, false⟩]⟩ := by
  simp [submitCommand, hu, hnone]

theorem setStatus_known {cmdId toStatus v : String} {u : Uuid} {row : CommandRow}
    (hu : parseUuid cmdId = some u) (hrow : s.commands.lookup u = some row)
    (hv : varchar 20 toStatus = some v) (eventType actor : String)
    (result : Option Payload → Option Payload) :
    s.setStatus cmdId eventType toStatus actor result =
      .ok ⟨s.commands.insert u { row with status := v, resultPayload := result row.resultPayload },
        s.events ++ [⟨u, eventType, some row.status, v, actor⟩], s.outbox⟩ := by
  simp [setStatus, hu, hrow, hv]

/-- The commands that a result cannot be stored for. -/
theorem completeCommand_error_iff {cmdId status : String} {result : Option Payload} :
    (∃ err, s.completeCommand cmdId status result = .error err) ↔
      (∀ u, parseUuid cmdId = some u → u ∉ s.commands) ∨ varchar 20 status = none := by
  unfold completeCommand setStatus
  cases hu : parseUuid cmdId with
  | none => simp
  | some u =>
      cases hrow : s.commands.lookup u with
      | none =>
          have hmem : u ∉ s.commands := AList.lookup_eq_none.mp hrow
          simp [hmem, hrow]
      | some row =>
          have hmem : u ∈ s.commands := AList.lookup_isSome.mp (by rw [hrow]; rfl)
          cases hv : varchar 20 status with
          | none => simp [hrow]
          | some v => simp [hmem, hrow]

theorem cancelCommand_events {cmdId : String} (h : s.cancelCommand cmdId = .ok t) :
    t.events = s.events := by
  unfold cancelCommand at h
  split at h
  next => cases h
  next =>
    cases h
    rfl

theorem mirrored_empty : Mirrored empty where
  known := by intro u row hrow; cases hrow
  unknown := by intro u _; rfl

/-- One command gets a new status and the event for it; the others keep theirs. -/
theorem Mirrored.write (h : s.Mirrored) {u : Uuid} {row : CommandRow} {e : EventRow}
    (hcommands : t.commands = s.commands.insert u row) (hevents : t.events = s.events ++ [e])
    (hu : e.cmdId = u) (hrow : Mirrors (s.eventsOf u ++ [e]) row.status) : t.Mirrored := by
  refine ⟨?_, ?_⟩
  · intro u' row' hrow'
    rw [eventsOf_append hevents, hu]
    rw [hcommands] at hrow'
    split
    next heq =>
      subst heq
      rw [AList.lookup_insert] at hrow'
      cases hrow'
      exact hrow
    next hne =>
      rw [AList.lookup_insert_ne (Ne.symm hne)] at hrow'
      exact h.known u' row' hrow'
  · intro u' hnone
    rw [hcommands] at hnone
    have hne : u' ≠ u := by
      rintro rfl
      rw [AList.lookup_insert] at hnone
      cases hnone
    rw [AList.lookup_insert_ne hne] at hnone
    rw [eventsOf_append hevents, hu, if_neg (Ne.symm hne)]
    exact h.unknown u' hnone

theorem Mirrored.submitCommand (h : s.Mirrored) {d : Dispatch} {expiresAt : Int}
    (hsubmit : s.submitCommand d expiresAt = .ok t) : t.Mirrored := by
  obtain ⟨u, -, hnone, rfl⟩ := submitCommand_ok hsubmit
  refine h.write rfl rfl rfl ?_
  rw [h.unknown u hnone]
  exact mirrors_created u "admin"

theorem Mirrored.setStatus (h : s.Mirrored) {cmdId eventType toStatus actor : String}
    {result : Option Payload → Option Payload}
    (hset : s.setStatus cmdId eventType toStatus actor result = .ok t) : t.Mirrored := by
  obtain ⟨u, row, v, -, hrow, -, rfl⟩ := setStatus_ok hset
  exact h.write rfl rfl rfl ((h.known u row hrow).snoc rfl)

theorem Mirrored.of_same (h : s.Mirrored) (hcommands : t.commands = s.commands)
    (hevents : t.events = s.events) : t.Mirrored := by
  refine ⟨?_, ?_⟩
  · rw [hcommands]
    intro u row hrow
    rw [eventsOf, hevents]
    exact h.known u row hrow
  · rw [hcommands]
    intro u hnone
    rw [eventsOf, hevents]
    exact h.unknown u hnone

/-! ## Operations one after the other -/

/-- An operation that takes effect at once, or none. -/
inductive Serial (s : Store) : Store → Prop
  | same : Serial s s
  | submitCommand {t : Store} {d : Dispatch} {expiresAt : Int}
      (h : s.submitCommand d expiresAt = .ok t) : Serial s t
  | setStatus {t : Store} {cmdId eventType toStatus actor : String}
      {result : Option Payload → Option Payload}
      (h : s.setStatus cmdId eventType toStatus actor result = .ok t) : Serial s t
  | cancelCommand {t : Store} {cmdId : String} (h : s.cancelCommand cmdId = .ok t) : Serial s t
  | markPublished (index : Nat) : Serial s (s.markPublished index)

theorem Mirrored.serial (h : s.Mirrored) (hst : s.Serial t) : t.Mirrored := by
  cases hst with
  | same => exact h
  | submitCommand hsubmit => exact h.submitCommand hsubmit
  | setStatus hset => exact h.setStatus hset
  | cancelCommand hcancel =>
      exact h.of_same (cancelCommand_adds hcancel).2 (cancelCommand_events hcancel)
  | markPublished index => exact h.of_same rfl rfl

theorem Registered.serial (h : s.Registered) (hst : s.Serial t) : t.Registered := by
  cases hst with
  | same => exact h
  | submitCommand hsubmit => exact h.submitCommand hsubmit
  | setStatus hset => exact h.restamps (setStatus_restamps hset)
  | cancelCommand hcancel => exact h.cancelCommand hcancel
  | markPublished index => exact h.markPublished index

/-- A command has exactly one dispatch request. -/
theorem Registered.exists_unique (h : s.Registered) {u : Uuid} {row : CommandRow}
    (hrow : s.commands.lookup u = some row) :
    ∃! i, ∃ d, s.Requested i d ∧ parseUuid d.cmdId = some u := by
  obtain ⟨i, d, hd, hu, -⟩ := h.request u row hrow
  refine ⟨i, ⟨d, hd, hu⟩, ?_⟩
  intro j hj
  obtain ⟨d', hd', hu'⟩ := hj
  exact h.once j i d' d hd' hd (hu'.trans hu.symm)

end Store

end TomAgent.Platform
