import TomAgent.Authenv.NonceCache
import TomAgent.Executor.Actions

/-!
# The execution engine

Commands enter through `Submit`, either from a verified gRPC envelope or from an
HTTP poll response, and wait in a bounded channel for a worker.  A worker is
either blocked on the channel or executing, so a command is handed to a blocked
worker directly and otherwise needs room in the channel.
-/

namespace TomAgent.Executor

open Authenv

structure Command where
  cmdId : Bytes
  action : Bytes
  params : Params
  timeoutSec : Int64

def Command.ofEnvelope (env : CommandEnvelope) : Command :=
  ⟨env.cmdId, env.action, env.params, env.timeoutSec.toUInt64.toInt64⟩

inductive SubmitStatus where
  | queued
  | rejectedPolicy
  | rejectedBusy
deriving Repr, DecidableEq

inductive RejectReason where
  | policy (err : PolicyError)
  /-- `executor queue full` -/
  | queueFull
  /-- `signature invalid: ` and the error of `Verify` -/
  | signature (message : String)
  /-- `nonce required` -/
  | nonceRequired
  /-- the error of the nonce cache -/
  | nonce (message : String)
  /-- `envelope expired` -/
  | expired
deriving Repr, DecidableEq

structure SubmitResult where
  cmdId : Bytes
  status : SubmitStatus
  stderr : Option RejectReason
deriving Repr, DecidableEq

structure Engine (S : SignatureScheme) where
  catalog : Catalog
  /-- `none` is the development mode without signatures. -/
  verifyKey : Option S.PublicKey
  nonces : NonceCache
  queueSize : Nat
  queue : List Command
  /-- Workers blocked on the channel. -/
  idle : Nat
  executing : List Command

namespace Engine

variable {S : SignatureScheme}

def validate (e : Engine S) (cmd : Command) : Except PolicyError Unit :=
  match e.catalog.lookup cmd.action with
  | none => .error (.unknownAction cmd.action)
  | some a =>
      match a.validate with
      | none => .ok ()
      | some check => check cmd.params

def submit (e : Engine S) (cmd : Command) : Engine S × SubmitResult :=
  match e.validate cmd with
  | .error err => (e, ⟨cmd.cmdId, .rejectedPolicy, some (.policy err)⟩)
  | .ok () =>
      if e.queue = [] ∧ 0 < e.idle then
        ({ e with idle := e.idle - 1, executing := e.executing ++ [cmd] }, ⟨cmd.cmdId, .queued, none⟩)
      else if e.queue.length < e.queueSize then
        ({ e with queue := e.queue ++ [cmd] }, ⟨cmd.cmdId, .queued, none⟩)
      else (e, ⟨cmd.cmdId, .rejectedBusy, some .queueFull⟩)

/-- The checks of `SubmitEnvelope` in their order; the nonce is recorded even if
the envelope turns out to be expired. -/
def authenticate (e : Engine S) (env : CommandEnvelope) (now : Int64) :
    Engine S × Except RejectReason Unit :=
  match e.verifyKey with
  | none => (e, .ok ())
  | some key =>
      match verify S key env with
      | .error message => (e, .error (.signature message))
      | .ok () =>
          if env.nonce = [] then (e, .error .nonceRequired)
          else
            let checked := e.nonces.check env.nonce env.expiresAt now
            match checked.2 with
            | .error message => ({ e with nonces := checked.1 }, .error (.nonce message))
            | .ok () => ({ e with nonces := checked.1 }, .ok ())

/-- An expiry that is not positive means that the envelope does not expire. -/
def Expired (env : CommandEnvelope) (now : Int64) : Prop := 0 < env.expiresAt ∧ env.expiresAt < now

instance (env : CommandEnvelope) (now : Int64) : Decidable (Expired env now) := by
  unfold Expired; infer_instance

def submitEnvelope (e : Engine S) (env : CommandEnvelope) (now : Int64) :
    Engine S × SubmitResult :=
  let checked := e.authenticate env now
  match checked.2 with
  | .error reason => (checked.1, ⟨env.cmdId, .rejectedPolicy, some reason⟩)
  | .ok () =>
      if Expired env now then (checked.1, ⟨env.cmdId, .rejectedPolicy, some .expired⟩)
      else checked.1.submit (.ofEnvelope env)

/-- A worker ends a command and takes the next one, or blocks on the channel. -/
def finish (e : Engine S) (index : Nat) : Engine S :=
  if index < e.executing.length then
    match e.queue with
    | [] => { e with executing := e.executing.eraseIdx index, idle := e.idle + 1 }
    | next :: rest =>
        { e with executing := e.executing.eraseIdx index ++ [next], queue := rest }
  else e

end Engine

/-! ## Submission -/

theorem Engine.submit_keeps {S : SignatureScheme} (e : Engine S) (cmd : Command) :
    (e.submit cmd).1.verifyKey = e.verifyKey ∧ (e.submit cmd).1.nonces = e.nonces := by
  unfold submit
  split
  · exact ⟨rfl, rfl⟩
  · split
    · exact ⟨rfl, rfl⟩
    · split
      · exact ⟨rfl, rfl⟩
      · exact ⟨rfl, rfl⟩

theorem Engine.authenticate_verifyKey {S : SignatureScheme} (e : Engine S) (env : CommandEnvelope)
    (now : Int64) : (e.authenticate env now).1.verifyKey = e.verifyKey := by
  unfold authenticate
  split
  · rfl
  · split
    · rfl
    · split
      · rfl
      · dsimp only
        split <;> rfl

theorem Engine.authenticate_ok {S : SignatureScheme} {e : Engine S} {key : S.PublicKey}
    (hkey : e.verifyKey = some key) {env : CommandEnvelope} {now : Int64}
    (h : (e.authenticate env now).2 = .ok ()) :
    verify S key env = .ok () ∧ env.nonce ≠ [] ∧
      (e.nonces.check env.nonce env.expiresAt now).2 = .ok () := by
  unfold authenticate at h
  rw [hkey] at h
  dsimp only at h
  cases hv : verify S key env with
  | error message => simp [hv] at h
  | ok u =>
      cases u
      rw [hv] at h
      dsimp only at h
      split at h
      · cases h
      · rename_i hnonce
        refine ⟨rfl, hnonce, ?_⟩
        cases hc : (e.nonces.check env.nonce env.expiresAt now).2 with
        | error message => simp [hc] at h
        | ok u => rfl

end TomAgent.Executor
