import TomAgent.Executor.Engine

/-!
# How commands reach the engine

The uplink mode decides which component feeds the engine.  In gRPC mode every
command arrives in an envelope and goes through `SubmitEnvelope`.  In HTTP mode
the poller hands the commands of a poll response to `Submit` directly, whether or
not a command key is configured.
-/

namespace TomAgent.Executor

open Authenv

inductive UplinkMode where
  | stdout
  | http
  | grpc
deriving Repr, DecidableEq

structure AgentConf where
  mode : UplinkMode
  assetId : Bytes
  executorEnabled : Bool
  workers : Int
  queueSize : Nat
  allowTestActions : Bool
  /-- The actions found in the plugin directory. -/
  plugins : List Action

structure Reception where
  env : CommandEnvelope
  now : Int64
  nonces : NonceCache

structure Agent (S : SignatureScheme) where
  conf : AgentConf
  engine : Engine S
  assetId : Bytes
  /-- Every command that was ever queued for execution. -/
  accepted : List Command
  /-- Every envelope that was ever handed to the engine. -/
  received : List Reception

inductive Input where
  /-- Registration sets the asset id. -/
  | registered (assetId : Bytes)
  /-- The gateway sends a command on the control stream. -/
  | envelope (env : CommandEnvelope) (now : Int64)
  /-- The gateway answers a poll with commands. -/
  | pollResponse (commands : List Command)
  /-- A worker ends the execution at a position. -/
  | finished (index : Nat)

variable {S : SignatureScheme}

def newEngine (conf : AgentConf) (verifyKey : Option S.PublicKey) : Engine S where
  catalog := addActions (catalog conf.allowTestActions) conf.plugins
  verifyKey := verifyKey
  nonces := newNonceCache 10000
  queueSize := conf.queueSize
  queue := []
  idle := if conf.workers ≤ 0 then 4 else conf.workers.toNat
  executing := []

namespace Agent

def start (conf : AgentConf) (verifyKey : Option S.PublicKey) : Agent S :=
  ⟨conf, newEngine conf verifyKey, conf.assetId, [], []⟩

def record (a : Agent S) (cmd : Command) (result : Engine S × SubmitResult) : Agent S :=
  { a with
    engine := result.1
    accepted := if result.2.status = .queued then a.accepted ++ [cmd] else a.accepted }

def onEnvelope (a : Agent S) (env : CommandEnvelope) (now : Int64) : Agent S :=
  let a' := a.record (.ofEnvelope env) (a.engine.submitEnvelope env now)
  { a' with received := a.received ++ [⟨env, now, a.engine.nonces⟩] }

/-- The loop of the poller over the commands of a response. -/
def onPoll (a : Agent S) : List Command → Agent S
  | [] => a
  | cmd :: rest => (a.record cmd (a.engine.submit cmd)).onPoll rest

def step (a : Agent S) : Input → Agent S
  | .registered assetId => { a with assetId := assetId }
  | .envelope env now =>
      if a.conf.executorEnabled ∧ a.conf.mode = .grpc then a.onEnvelope env now else a
  | .pollResponse commands =>
      if a.conf.executorEnabled ∧ a.conf.mode = .http ∧ a.assetId ≠ [] then a.onPoll commands else a
  | .finished index => { a with engine := a.engine.finish index }

def run (a : Agent S) (inputs : List Input) : Agent S := inputs.foldl step a

end Agent

/-- The envelope passed `Verify` under the key, its nonce is not empty and the cache
accepted it, and it had not expired. -/
structure Reception.Authentic (r : Reception) (key : S.PublicKey) : Prop where
  verified : verify S key r.env = .ok ()
  nonce : r.env.nonce ≠ []
  fresh : (r.nonces.check r.env.nonce r.env.expiresAt r.now).2 = .ok ()
  current : ¬ Engine.Expired r.env r.now

def Agent.FailClosed (a : Agent S) (key : S.PublicKey) : Prop :=
  ∀ cmd ∈ a.accepted, ∃ r ∈ a.received, r.Authentic key ∧ cmd = .ofEnvelope r.env

/-! ## Envelopes -/

theorem Engine.submitEnvelope_verifyKey (e : Engine S) (env : CommandEnvelope) (now : Int64) :
    (e.submitEnvelope env now).1.verifyKey = e.verifyKey := by
  have hchecked := e.authenticate_verifyKey env now
  unfold submitEnvelope
  dsimp only
  split
  · exact hchecked
  · split
    · exact hchecked
    · rw [(Engine.submit_keeps _ _).1, hchecked]

theorem Engine.submitEnvelope_queued {e : Engine S} {key : S.PublicKey}
    (hkey : e.verifyKey = some key) {env : CommandEnvelope} {now : Int64}
    (h : (e.submitEnvelope env now).2.status = .queued) :
    Reception.Authentic ⟨env, now, e.nonces⟩ key := by
  unfold submitEnvelope at h
  dsimp only at h
  split at h
  · cases h
  · rename_i hok
    split at h
    · cases h
    · rename_i hcurrent
      have hchecks := authenticate_ok hkey hok
      exact ⟨hchecks.1, hchecks.2.1, hchecks.2.2, hcurrent⟩

theorem Agent.FailClosed.onEnvelope {a : Agent S} {key : S.PublicKey} (h : a.FailClosed key)
    (hkey : a.engine.verifyKey = some key) (env : CommandEnvelope) (now : Int64) :
    (a.onEnvelope env now).FailClosed key := by
  intro cmd hcmd
  have hold : ∀ c ∈ a.accepted, ∃ r ∈ a.received ++ [⟨env, now, a.engine.nonces⟩],
      r.Authentic key ∧ c = .ofEnvelope r.env := by
    intro c hc
    rcases h c hc with ⟨r, hr, hauthentic⟩
    exact ⟨r, List.mem_append_left _ hr, hauthentic⟩
  unfold Agent.onEnvelope Agent.record at hcmd
  dsimp only at hcmd
  split at hcmd
  · rename_i hqueued
    rcases List.mem_append.mp hcmd with hcmd | hcmd
    · exact hold cmd hcmd
    · rw [List.mem_singleton] at hcmd
      exact ⟨_, List.mem_append_right _ (List.mem_singleton_self _),
        Engine.submitEnvelope_queued hkey hqueued, hcmd⟩
  · exact hold cmd hcmd

/-! ## Runs -/

theorem Engine.finish_verifyKey (e : Engine S) (index : Nat) :
    (e.finish index).verifyKey = e.verifyKey := by
  unfold finish
  split
  · split <;> rfl
  · rfl

/-- The state in which the guarantee is kept: the poller is not running. -/
structure Agent.Guarded (a : Agent S) (key : S.PublicKey) : Prop where
  mode : ¬ (a.conf.executorEnabled = true ∧ a.conf.mode = .http)
  verifyKey : a.engine.verifyKey = some key
  closed : a.FailClosed key

theorem Agent.Guarded.step {a : Agent S} {key : S.PublicKey} (h : a.Guarded key) (input : Input) :
    (a.step input).Guarded key := by
  cases input with
  | registered assetId => exact ⟨h.mode, h.verifyKey, h.closed⟩
  | envelope env now =>
      simp only [Agent.step]
      split
      · have hkey := (a.engine.submitEnvelope_verifyKey env now).trans h.verifyKey
        exact ⟨h.mode, hkey, h.closed.onEnvelope h.verifyKey env now⟩
      · exact h
  | pollResponse commands =>
      simp only [Agent.step]
      split
      · rename_i hpoll
        exact absurd ⟨hpoll.1, hpoll.2.1⟩ h.mode
      · exact h
  | finished index =>
      exact ⟨h.mode, (a.engine.finish_verifyKey index).trans h.verifyKey, h.closed⟩

theorem Agent.Guarded.run {a : Agent S} {key : S.PublicKey} (h : a.Guarded key)
    (inputs : List Input) : (a.run inputs).Guarded key := by
  induction inputs generalizing a with
  | nil => exact h
  | cons input rest ih => exact ih (h.step input)

/-! ## The poller -/

def unsignedCommand : Command := ⟨[], ascii "diagnose.disk_usage", ∅, 0⟩

theorem lookup_disk_usage (allowTestActions : Bool) (plugins : List Action) :
    (addActions (catalog allowTestActions) plugins).lookup (ascii "diagnose.disk_usage") =
      some (unchecked "diagnose.disk_usage") := by
  apply lookup_addActions
  cases allowTestActions <;> rfl

theorem newEngine_submit_unsigned (conf : AgentConf) (verifyKey : Option S.PublicKey) :
    ((newEngine conf verifyKey : Engine S).submit unsignedCommand).2.status = .queued := by
  have hvalid : (newEngine conf verifyKey : Engine S).validate unsignedCommand = .ok () := by
    unfold Engine.validate
    rw [show (newEngine conf verifyKey : Engine S).catalog.lookup unsignedCommand.action =
      some (unchecked "diagnose.disk_usage") from lookup_disk_usage _ _]
    rfl
  have hidle : 0 < (newEngine conf verifyKey : Engine S).idle := by
    simp only [newEngine]
    split <;> omega
  unfold Engine.submit
  rw [hvalid]
  dsimp only
  rw [if_pos ⟨rfl, hidle⟩]

theorem run_unsigned {conf : AgentConf} (h : conf.executorEnabled = true ∧ conf.mode = .http)
    (verifyKey : Option S.PublicKey) :
    let a := (Agent.start conf verifyKey : Agent S).run
      [.registered [1], .pollResponse [unsignedCommand]]
    unsignedCommand ∈ a.accepted ∧ a.received = [] := by
  have hqueued := newEngine_submit_unsigned conf verifyKey
  simp only [Agent.run, List.foldl_cons, List.foldl_nil, Agent.step, Agent.start, h.1, h.2,
    true_and, ne_eq, List.cons_ne_nil, not_false_eq_true, if_true, Agent.onPoll, Agent.record,
    hqueued]
  exact ⟨List.mem_singleton_self _, trivial⟩

/-- For an agent with a command key, every command that is ever queued comes from an authentic
envelope, whatever the gateway sends, if and only if the agent does not run the HTTP poller. -/
theorem fail_closed_iff (conf : AgentConf) (key : S.PublicKey) :
    (∀ inputs, ((Agent.start conf (some key) : Agent S).run inputs).FailClosed key) ↔
      ¬ (conf.executorEnabled = true ∧ conf.mode = .http) := by
  constructor
  · intro hclosed hpoller
    have hrun := run_unsigned hpoller (some key)
    rcases hclosed _ _ hrun.1 with ⟨r, hr, -⟩
    rw [hrun.2] at hr
    cases hr
  · intro hmode inputs
    have hstart : (Agent.start conf (some key) : Agent S).Guarded key :=
      ⟨hmode, rfl, fun cmd hcmd => nomatch hcmd⟩
    exact (hstart.run inputs).closed

def httpConf : AgentConf := ⟨.http, [1], true, 4, 64, false, []⟩

/-- An unsigned command in a poll response is queued although a key is configured. -/
theorem poller_skips_verification :
    let a := (Agent.start httpConf (some ()) : Agent tailScheme).run [.pollResponse [unsignedCommand]]
    a.accepted = [unsignedCommand] ∧ a.received = [] := by
  exact ⟨rfl, rfl⟩

end TomAgent.Executor
