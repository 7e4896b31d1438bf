import TomAgent.Executor.Lifetime

/-!
# How often a command is executed

The engine does not look at the command id.  A command is kept from a second
execution only by its nonce, in the process that saw the nonce first.
-/

namespace TomAgent.Executor

open Authenv Execution

variable {S : SignatureScheme}

/-! ## What an envelope does to the channel -/

theorem Engine.authenticate_channel (e : Engine S) (env : CommandEnvelope) (now : Int64) :
    (e.authenticate env now).1.queue = e.queue ∧
      (e.authenticate env now).1.executing = e.executing := by
  unfold authenticate
  split
  · exact ⟨rfl, rfl⟩
  · split
    · exact ⟨rfl, rfl⟩
    · split
      · exact ⟨rfl, rfl⟩
      · dsimp only
        split
        · exact ⟨rfl, rfl⟩
        · exact ⟨rfl, rfl⟩

/-- Where a command stands after it was handed to the engine: the waiting and the
executing commands before and after. -/
inductive Placed (cmd : Command) (queue executing : List Command) :
    List Command → List Command → SubmitStatus → Prop
  | started : Placed cmd queue executing queue (executing ++ [cmd]) .queued
  | waiting : Placed cmd queue executing (queue ++ [cmd]) executing .queued
  | refused {status : SubmitStatus} (hstatus : status ≠ .queued) :
      Placed cmd queue executing queue executing status

theorem Engine.submit_placed (e : Engine S) (cmd : Command) :
    Placed cmd e.queue e.executing (e.submit cmd).1.queue (e.submit cmd).1.executing
      (e.submit cmd).2.status := by
  unfold submit
  split
  · exact .refused nofun
  · split
    · exact .started
    · split
      · exact .waiting
      · exact .refused nofun

theorem Engine.submitEnvelope_placed (e : Engine S) (env : CommandEnvelope) (now : Int64) :
    Placed (.ofEnvelope env) e.queue e.executing (e.submitEnvelope env now).1.queue
      (e.submitEnvelope env now).1.executing (e.submitEnvelope env now).2.status := by
  obtain ⟨hqueue, hexecuting⟩ := e.authenticate_channel env now
  rw [← hqueue, ← hexecuting]
  unfold submitEnvelope
  dsimp only
  split
  · exact .refused nofun
  · split
    · exact .refused nofun
    · exact submit_placed _ _

theorem Engine.admits_of_queued {e : Engine S} {env : CommandEnvelope} {now : Int64}
    (h : (e.submitEnvelope env now).2.status = .queued) : e.admits env now = true := by
  rw [admits_iff]
  unfold submitEnvelope at h
  dsimp only at h
  split at h
  next => cases h
  next hok =>
    split at h
    next => cases h
    next hcurrent => exact ⟨hok, hcurrent⟩

/-! ## Runs -/

namespace Life

/-- An envelope whose command was queued before carries a nonce that the running
process remembers, and a key is configured so that the nonce is looked at. -/
def Remembered (l : Life S) : Event → Prop
  | .envelope env now => (∃ old ∈ l.queued, old.cmdId = env.cmdId) →
      l.engine.verifyKey.isSome ∧ l.engine.nonces.Remembers (hex env.nonce) now
  | .finished _ => True
  | .restarted _ => True

structure OnceInv (l : Life S) : Prop where
  tidy : l.engine.nonces.Tidy
  once : (l.queued.map CommandEnvelope.cmdId).Nodup
  accounted : ∀ id, (l.started.map Command.cmdId).count id +
    (l.engine.queue.map Command.cmdId).count id ≤ (l.queued.map CommandEnvelope.cmdId).count id

theorem OnceInv.nodup_started {l : Life S} (h : OnceInv l) :
    (l.started.map Command.cmdId).Nodup := by
  rw [List.nodup_iff_count_le_one]
  intro id
  have honce := List.nodup_iff_count_le_one.mp h.once id
  have haccounted := h.accounted id
  omega

theorem count_onEnvelope (l : Life S) (env : CommandEnvelope) (now : Int64) (id : Bytes) :
    ((l.onEnvelope env now).started.map Command.cmdId).count id +
        ((l.onEnvelope env now).engine.queue.map Command.cmdId).count id +
        (l.queued.map CommandEnvelope.cmdId).count id =
      (l.started.map Command.cmdId).count id + (l.engine.queue.map Command.cmdId).count id +
        ((l.onEnvelope env now).queued.map CommandEnvelope.cmdId).count id := by
  have hplaced := l.engine.submitEnvelope_placed env now
  unfold onEnvelope Engine.startedBy
  dsimp only
  have hcmdId : (Command.ofEnvelope env).cmdId = env.cmdId := rfl
  generalize (l.engine.submitEnvelope env now).1.queue = queue at hplaced ⊢
  generalize (l.engine.submitEnvelope env now).1.executing = executing at hplaced ⊢
  generalize (l.engine.submitEnvelope env now).2.status = status at hplaced ⊢
  cases hplaced with
  | started =>
      simp only [List.drop_left, if_true, List.map_append, List.count_append, List.map_cons,
        List.map_nil, hcmdId]
      omega
  | waiting =>
      simp only [List.drop_length, List.append_nil, if_true, List.map_append, List.count_append,
        List.map_cons, List.map_nil, hcmdId]
      omega
  | refused hstatus => simp only [List.drop_length, List.append_nil, if_neg hstatus]

theorem OnceInv.onEnvelope {l : Life S} (h : OnceInv l) {env : CommandEnvelope} {now : Int64}
    (hremembered : Remembered l (.envelope env now)) : OnceInv (l.onEnvelope env now) := by
  refine ⟨tidy_onEnvelope h.tidy env now, ?_, ?_⟩
  · unfold Life.onEnvelope
    dsimp only
    split
    next hqueued =>
      have hnew : env.cmdId ∉ l.queued.map CommandEnvelope.cmdId := by
        intro hmem
        obtain ⟨hkeyed, hknown⟩ := hremembered (List.mem_map.mp hmem)
        obtain ⟨key, hkey⟩ := Option.isSome_iff_exists.mp hkeyed
        exact Engine.admits_fresh hkey h.tidy (Engine.admits_of_queued hqueued) hknown
      rw [List.map_append, List.nodup_append_comm, List.map_singleton, List.singleton_append]
      exact List.nodup_cons.mpr ⟨hnew, h.once⟩
    next => exact h.once
  · intro id
    have hcount := count_onEnvelope l env now id
    have haccounted := h.accounted id
    omega

theorem OnceInv.onFinished {l : Life S} (h : OnceInv l) (index : Nat) :
    OnceInv (l.onFinished index) := by
  refine ⟨?_, h.once, ?_⟩
  · exact (l.engine.finish_nonces index).symm ▸ h.tidy
  · intro id
    have haccounted := h.accounted id
    unfold Life.onFinished Engine.finish
    dsimp only
    split
    next =>
      cases hqueue : l.engine.queue with
      | nil => simpa [hqueue] using haccounted
      | cons next rest =>
          simp only [List.take_succ_cons, List.take_zero, List.map_append, List.count_append,
            List.map_cons, List.map_nil]
          rw [hqueue, List.map_cons, ← List.singleton_append, List.count_append] at haccounted
          omega
    next => exact haccounted

theorem OnceInv.step {boot : Engine S} (htidy : boot.nonces.Tidy) (hqueue : boot.queue = [])
    {l t : Life S} (h : OnceInv l) (hstep : Fires (Life.step boot) Remembered l t) :
    OnceInv t := by
  obtain ⟨event, hremembered, ht⟩ := hstep
  cases event with
  | envelope env now =>
      cases ht
      exact h.onEnvelope hremembered
  | finished index =>
      cases ht
      exact h.onFinished index
  | restarted now =>
      cases ht
      refine ⟨htidy, h.once, ?_⟩
      intro id
      have haccounted := h.accounted id
      simp only [hqueue, List.map_nil, List.count_nil]
      omega

end Life

/-- For every agent and every sequence of envelopes, restarts included, the workers start each
command at most once as long as an envelope for a command that was queued before carries a nonce
that the running process remembers. -/
theorem executed_once_of_remembered (conf : AgentConf) (verifyKey : Option S.PublicKey)
    (clock : Int64) {l : Life S}
    (hrun : Reaches (Fires (Life.step (newEngine conf verifyKey)) Life.Remembered)
      (Life.start (newEngine conf verifyKey) clock) l) :
    (l.started.map Command.cmdId).Nodup := by
  have htidy : (newEngine conf verifyKey : Engine S).nonces.Tidy :=
    NonceCache.newNonceCache_tidy 10000
  have hstart : (Life.start (newEngine conf verifyKey : Engine S) clock).OnceInv := by
    refine ⟨htidy, List.nodup_nil, ?_⟩
    intro id
    simp [Life.start, newEngine]
  exact (invariant Life.OnceInv (fun _ _ h hstep => h.step htidy rfl hstep) hstart hrun).nodup_started

def grpcConf : AgentConf := ⟨.grpc, [1], true, 4, 64, false, []⟩

/-- An envelope that is replayed with its nonce is executed once. -/
theorem executed_once_replayed_nonce :
    let boot : Engine tailScheme := newEngine grpcConf (some ())
    let replay := Life.Event.envelope (shortLived [1] [7]) 50
    ∃ l, play (Life.step boot) (Life.start boot 0) [replay, replay] = some l ∧
      (l.started.map Command.cmdId).Nodup := by
  intro boot replay
  have hmay : Permitted (Life.step boot) Life.Remembered (Life.start boot 0) [replay, replay] := by
    refine ⟨?_, fun m hm => ?_⟩
    · rintro ⟨old, hold, -⟩
      cases hold
    · cases hm
      refine ⟨fun _ => ⟨rfl, 100, ?_, ?_⟩, fun _ _ => trivial⟩
      · decide +kernel
      · intro _
        decide
  exact ⟨_, rfl, executed_once_of_remembered grpcConf (some ()) 0 (reaches_of_play hmay rfl)⟩

def Life.Current (key : S.PublicKey) : Life S → Life.Event → Prop
  | _, .envelope env now => verify S key env = .ok () ∧ ¬ Engine.Expired env now
  | _, .finished _ => True
  | _, .restarted _ => True

/-- The gateway signs a command again with a fresh nonce, and it is executed again. -/
theorem executed_twice_when_resigned :
    let boot : Engine tailScheme := newEngine grpcConf (some ())
    ∃ l, Reaches (Fires (Life.step boot) (Life.Current ())) (Life.start boot 0) l ∧
      ¬ (l.started.map Command.cmdId).Nodup := by
  intro boot
  apply reaches_of_any (Life.step boot)
    [.envelope (shortLived [1] [7]) 50, .envelope (shortLived [1] [8]) 60]
    (fun l => ¬ (l.started.map Command.cmdId).Nodup)
  · refine ⟨⟨verify_tail _, by decide +kernel⟩, fun m _ => ?_⟩
    exact ⟨⟨verify_tail _, by decide +kernel⟩, fun _ _ => trivial⟩
  · decide +kernel

end TomAgent.Executor
