import Mathlib.Data.List.AList
import TomAgent.Core.JsonText

/-!
# The command tables

`cmd.command` holds one row per command, `cmd.event` the log of its status changes,
`cmd.outbox` the work of the dispatcher.  Every operation is one transaction, so a
store operation either gives the new tables or an error and the old ones.

The text of a command id is converted to a UUID by the database, and a status must
fit the column.
-/

namespace TomAgent.Platform

open JsonText (hexDigit)

/-! ## Column types -/

abbrev Uuid := List Nat

/-- The last `n` bytes of a UUID; a hyphen may follow every second byte but the last. -/
def uuidBytes : Nat → List Char → Option (Uuid × List Char)
  | 0, text => some ([], text)
  | n + 1, a :: b :: text =>
      match hexDigit a, hexDigit b with
      | some hi, some lo =>
          let text := match text with
            | '-' :: tail => if n % 2 = 0 ∧ 0 < n then tail else text
            | _ => text
          (uuidBytes n text).map fun r => ((16 * hi + lo) :: r.1, r.2)
      | _, _ => none
  | _, _ => none

def parseUuid (text : String) : Option Uuid :=
  match text.toList with
  | '{' :: inner =>
      match uuidBytes 16 inner with
      | some (bytes, ['}']) => some bytes
      | _ => none
  | plain =>
      match uuidBytes 16 plain with
      | some (bytes, []) => some bytes
      | _ => none

example : parseUuid "\x7bA0eebc99-9c0b4ef8-bb6d6bb9-bd380a11\x7d" =
    some [160, 238, 188, 153, 156, 11, 78, 248, 187, 109, 107, 185, 189, 56, 10, 17] := by
  decide +kernel

/-- A value of a bounded text column.  Surplus blanks are cut off; other surplus
characters, and the null character, fail the statement. -/
def varchar (n : Nat) (text : String) : Option String :=
  if '\x00' ∈ text.toList then none
  else if text.toList.length ≤ n then some text
  else if (text.toList.drop n).all (· = ' ') then some (String.ofList (text.toList.take n))
  else none

/-! ## Payloads -/

inductive Json where
  | null
  | bool (b : Bool)
  | num (text : String)
  | str (text : String)
  | arr (items : List Json)
  | obj (fields : List (String × Json))

/-- A result payload: its bytes and their JSON value, none where they are no JSON. -/
structure Payload where
  bytes : List UInt8
  value : Option Json

structure Dispatch where
  cmdId : String
  assetId : String
  action : String
  params : List (String × String)
  timeoutSec : Int
deriving Repr, DecidableEq

/-! ## Tables -/

structure CommandRow where
  assetId : String
  status : String
  expiresAt : Int
  resultPayload : Option Payload

structure EventRow where
  cmdId : Uuid
  eventType : String
  fromStatus : Option String
  toStatus : String
  actor : String

inductive OutboxType where
  | dispatchRequested
  | cancelRequested
deriving Repr, DecidableEq

structure OutboxEntry where
  eventType : OutboxType
  payload : Dispatch
  published : Bool
deriving Repr, DecidableEq

structure Store where
  commands : AList (fun _ : Uuid => CommandRow)
  events : List EventRow
  outbox : List OutboxEntry

inductive StoreError where
  | notFound
  | duplicate
  /-- The database refuses a value. -/
  | invalidText
deriving Repr, DecidableEq

namespace Store

def empty : Store := ⟨∅, [], []⟩

def status (s : Store) (u : Uuid) : Option String := (s.commands.lookup u).map CommandRow.status

def submitCommand (s : Store) (d : Dispatch) (expiresAt : Int) : Except StoreError Store :=
  match parseUuid d.cmdId with
  | none => .error .invalidText
  | some u =>
      match s.commands.lookup u with
      | some _ => .error .duplicate
      | none => .ok {
          commands := s.commands.insert u ⟨d.assetId, "QUEUED", expiresAt, none⟩
          events := s.events ++ [⟨u, "created", none, "QUEUED", "admin"⟩]
          outbox := s.outbox ++ [⟨.dispatchRequested, d, false⟩] }

def setStatus (s : Store) (cmdId eventType toStatus actor : String)
    (result : Option Payload → Option Payload) : Except StoreError Store :=
  match parseUuid cmdId with
  | none => .error .invalidText
  | some u =>
      match s.commands.lookup u with
      | none => .error .notFound
      | some row =>
          match varchar 20 toStatus with
          | none => .error .invalidText
          | some v => .ok { s with
              commands := s.commands.insert u
                { row with status := v, resultPayload := result row.resultPayload }
              events := s.events ++ [⟨u, eventType, some row.status, v, actor⟩] }

def transition (s : Store) (cmdId eventType toStatus actor : String) : Except StoreError Store :=
  s.setStatus cmdId eventType toStatus actor id

def completeCommand (s : Store) (cmdId terminalStatus : String) (result : Option Payload) :
    Except StoreError Store :=
  s.setStatus cmdId "result_received" terminalStatus "agent" fun _ => result

/-- The request names the command only; its asset is left out. -/
def cancelCommand (s : Store) (cmdId : String) : Except StoreError Store :=
  match parseUuid cmdId with
  | none => .error .invalidText
  | some _ => .ok { s with outbox := s.outbox ++ [⟨.cancelRequested, ⟨cmdId, "", "", [], 0⟩, false⟩] }

def markPublished (s : Store) (index : Nat) : Store :=
  { s with outbox := s.outbox.modify index fun e => { e with published := true } }

/-! ## What an operation changes -/

theorem submitCommand_ok {s t : Store} {d : Dispatch} {expiresAt : Int}
    (h : s.submitCommand d expiresAt = .ok t) :
    ∃ u, parseUuid d.cmdId = some u ∧ s.commands.lookup u = none ∧
      t = ⟨s.commands.insert u ⟨d.assetId, "QUEUED", expiresAt, none⟩,
        s.events ++ [⟨u, "created", none, "QUEUED", "admin"⟩],
        s.outbox ++ [⟨.dispatchRequested, d, false⟩]⟩ := by
  unfold submitCommand at h
  split at h
  next => cases h
  next u hu =>
    split at h
    next => cases h
    next hnone =>
      cases h
      exact ⟨u, hu, hnone, rfl⟩

theorem setStatus_ok {s t : Store} {cmdId eventType toStatus actor : String}
    {result : Option Payload → Option Payload}
    (h : s.setStatus cmdId eventType toStatus actor result = .ok t) :
    ∃ u row v, parseUuid cmdId = some u ∧ s.commands.lookup u = some row ∧
      varchar 20 toStatus = some v ∧
      t = ⟨s.commands.insert u
          { row with status := v, resultPayload := result row.resultPayload },
        s.events ++ [⟨u, eventType, some row.status, v, actor⟩], s.outbox⟩ := by
  unfold setStatus at h
  split at h
  next => cases h
  next u hu =>
    split at h
    next => cases h
    next row hrow =>
      split at h
      next => cases h
      next v hv =>
        cases h
        exact ⟨u, row, v, hu, hrow, hv, rfl⟩

theorem status_submitCommand {s t : Store} {d : Dispatch} {expiresAt : Int}
    (h : s.submitCommand d expiresAt = .ok t) :
    ∃ u, parseUuid d.cmdId = some u ∧ s.status u = none ∧ t.status u = some "QUEUED" ∧
      (∀ u' ≠ u, t.status u' = s.status u') ∧
      t.outbox = s.outbox ++ [⟨.dispatchRequested, d, false⟩] := by
  obtain ⟨u, hu, hnone, rfl⟩ := submitCommand_ok h
  refine ⟨u, hu, ?_, ?_, ?_, rfl⟩
  · simp [status, hnone]
  · simp [status]
  · intro u' hu'
    simp [status, AList.lookup_insert_ne hu']

theorem status_setStatus {s t : Store} {cmdId eventType toStatus actor : String}
    {result : Option Payload → Option Payload}
    (h : s.setStatus cmdId eventType toStatus actor result = .ok t) :
    ∃ u old v, parseUuid cmdId = some u ∧ s.status u = some old ∧ varchar 20 toStatus = some v ∧
      t.status u = some v ∧ (∀ u' ≠ u, t.status u' = s.status u') ∧ t.outbox = s.outbox := by
  obtain ⟨u, row, v, hu, hrow, hv, rfl⟩ := setStatus_ok h
  refine ⟨u, row.status, v, hu, ?_, hv, ?_, ?_, rfl⟩
  · simp [status, hrow]
  · simp [status]
  · intro u' hu'
    simp [status, AList.lookup_insert_ne hu']

/-- The same rows, apart from their statuses and results, and the same outbox. -/
structure Restamps (s t : Store) : Prop where
  outbox : t.outbox = s.outbox
  keys : ∀ u, u ∈ t.commands ↔ u ∈ s.commands
  rows : ∀ u row', t.commands.lookup u = some row' → ∃ row, s.commands.lookup u = some row ∧
    row'.assetId = row.assetId ∧ row'.expiresAt = row.expiresAt

theorem Restamps.refl (s : Store) : s.Restamps s :=
  ⟨rfl, fun _ => Iff.rfl, fun _ row hrow => ⟨row, hrow, rfl, rfl⟩⟩

theorem setStatus_restamps {s t : Store} {cmdId eventType toStatus actor : String}
    {result : Option Payload → Option Payload}
    (h : s.setStatus cmdId eventType toStatus actor result = .ok t) : s.Restamps t := by
  obtain ⟨u, row, v, hu, hrow, hv, rfl⟩ := setStatus_ok h
  refine ⟨rfl, fun u' => ?_, fun u' row' hrow' => ?_⟩
  · have hmem : u ∈ s.commands := AList.lookup_isSome.mp (by rw [hrow]; rfl)
    rw [AList.mem_insert]
    constructor
    · rintro (rfl | h)
      · exact hmem
      · exact h
    · exact Or.inr
  · by_cases heq : u' = u
    · subst heq
      rw [AList.lookup_insert] at hrow'
      cases hrow'
      exact ⟨row, hrow, rfl, rfl⟩
    · rw [AList.lookup_insert_ne heq] at hrow'
      exact ⟨row', hrow', rfl, rfl⟩

end Store

end TomAgent.Platform
