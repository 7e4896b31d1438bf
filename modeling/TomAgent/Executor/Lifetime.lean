import TomAgent.Core.Execution
import TomAgent.Executor.Ingress

/-!
# The engine over the life of an agent

Envelopes arrive, workers end commands, and the process may be restarted, which
loses the waiting commands and the nonce cache.  The histories say which envelopes
passed the checks in the running process, which were ever queued, and which
commands a worker ever started.
-/

namespace TomAgent.Executor

open Authenv Execution

variable {S : SignatureScheme}

/-- The envelope passes the nonce check and the expiry check, so `Submit` is called. -/
def Engine.admits (e : Engine S) (env : CommandEnvelope) (now : Int64) : Bool :=
  match (e.authenticate env now).2 with
  | .ok () => !decide (Engine.Expired env now)
  | .error _ => false

def Engine.startedBy (e : Engine S) (env : CommandEnvelope) (now : Int64) : List Command :=
  (e.submitEnvelope env now).1.executing.drop e.executing.length

structure Life (S : SignatureScheme) where
  engine : Engine S
  clock : Int64
  /-- What this process passed on to `Submit`. -/
  admitted : List CommandEnvelope
  /-- What any process queued. -/
  queued : List CommandEnvelope
  /-- What the workers of any process started. -/
  started : List Command

namespace Life

inductive Event where
  | envelope (env : CommandEnvelope) (now : Int64)
  | finished (index : Nat)
  | restarted (now : Int64)

def start (boot : Engine S) (clock : Int64) : Life S := ⟨boot, clock, [], [], []⟩

def onEnvelope (l : Life S) (env : CommandEnvelope) (now : Int64) : Life S :=
  let result := l.engine.submitEnvelope env now
  { engine := result.1
    clock := now
    admitted := if l.engine.admits env now then l.admitted ++ [env] else l.admitted
    queued := if result.2.status = .queued then l.queued ++ [env] else l.queued
    started := l.started ++ l.engine.startedBy env now }

def onFinished (l : Life S) (index : Nat) : Life S :=
  { l with
    engine := l.engine.finish index
    started := if index < l.engine.executing.length then l.started ++ l.engine.queue.take 1
      else l.started }

def step (boot : Engine S) (l : Life S) : Event → Option (Life S)
  | .envelope env now => some (l.onEnvelope env now)
  | .finished index => some (l.onFinished index)
  | .restarted now => some { l with engine := boot, clock := now, admitted := [] }

end Life

/-! ## One envelope -/

theorem Engine.authenticate_nonces {e : Engine S} {key : S.PublicKey}
    (hkey : e.verifyKey = some key) {env : CommandEnvelope} {now : Int64}
    (hv : verify S key env = .ok ()) (hnonce : env.nonce ≠ []) :
    (e.authenticate env now).1.nonces = (e.nonces.check env.nonce env.expiresAt now).1 ∧
      ((e.authenticate env now).2 = .ok () ↔
        (e.nonces.check env.nonce env.expiresAt now).2 = .ok ()) := by
  unfold authenticate
  rw [hkey]
  dsimp only
  rw [hv]
  dsimp only
  rw [if_neg hnonce]
  cases hc : (e.nonces.check env.nonce env.expiresAt now).2 with
  | error message => simp
  | ok u => simp

theorem Engine.submitEnvelope_nonces (e : Engine S) (env : CommandEnvelope) (now : Int64) :
    (e.submitEnvelope env now).1.nonces = (e.authenticate env now).1.nonces := by
  unfold submitEnvelope
  dsimp only
  split
  · rfl
  · split
    · rfl
    · rw [(Engine.submit_keeps _ _).2]

theorem Engine.authenticate_nonces_cases (e : Engine S) (env : CommandEnvelope) (now : Int64) :
    (e.authenticate env now).1.nonces = e.nonces ∨
      (e.authenticate env now).1.nonces = (e.nonces.check env.nonce env.expiresAt now).1 := by
  unfold authenticate
  split
  · exact Or.inl rfl
  · split
    · exact Or.inl rfl
    · split
      · exact Or.inl rfl
      · dsimp only
        split
        · exact Or.inr rfl
        · exact Or.inr rfl

theorem Engine.admits_iff (e : Engine S) (env : CommandEnvelope) (now : Int64) :
    e.admits env now = true ↔ (e.authenticate env now).2 = .ok () ∧ ¬ Expired env now := by
  unfold admits
  cases h : (e.authenticate env now).2 with
  | error reason => simp
  | ok u => simp

/-- With a key, an admitted envelope has a nonce that the cache did not remember. -/
theorem Engine.admits_fresh {e : Engine S} {key : S.PublicKey} (hkey : e.verifyKey = some key)
    (htidy : e.nonces.Tidy) {env : CommandEnvelope} {now : Int64}
    (h : e.admits env now = true) : ¬ e.nonces.Remembers (hex env.nonce) now := by
  have hok := ((e.admits_iff env now).mp h).1
  exact (NonceCache.check_ok_iff htidy _ _ _).mp (authenticate_ok hkey hok).2.2

theorem Engine.finish_nonces (e : Engine S) (index : Nat) :
    (e.finish index).nonces = e.nonces := by
  unfold finish
  split
  · split <;> rfl
  · rfl

/-! ## The nonces of one process -/

namespace Life

def ticket (env : CommandEnvelope) : Bytes × Int64 := (env.nonce, env.expiresAt)

/-- Validly signed envelopes that expire, at clock readings that do not go back. -/
def Legal (key : S.PublicKey) (l : Life S) : Event → Prop
  | .envelope env now => verify S key env = .ok () ∧ 0 < env.expiresAt ∧ l.clock ≤ now
  | .finished _ => True
  | .restarted _ => True

/-- If a ticket comes back in the very millisecond of its expiry, its nonce is still
cached and no clean-up that would drop it is due. -/
def Spared (l : Life S) : Event → Prop
  | .envelope env now => env.expiresAt = now → ticket env ∈ l.admitted.map ticket →
      l.engine.nonces.Remembers (hex env.nonce) now
  | .finished _ => True
  | .restarted _ => True

/-- Every admitted nonce is cached as long as its expiry has not been reached. -/
structure NonceInv (key : S.PublicKey) (l : Life S) : Prop where
  verifyKey : l.engine.verifyKey = some key
  tidy : l.engine.nonces.Tidy
  cached : ∀ env ∈ l.admitted, l.clock < env.expiresAt →
    l.engine.nonces.items.lookup (hex env.nonce) = some env.expiresAt
  nonce : ∀ env ∈ l.admitted, env.nonce ≠ []
  once : (l.admitted.map ticket).Nodup

variable {key : S.PublicKey}

theorem NonceInv.booted {l : Life S} (hkey : l.engine.verifyKey = some key)
    (htidy : l.engine.nonces.Tidy) (hnone : l.admitted = []) : NonceInv key l := by
  refine ⟨hkey, htidy, ?_, ?_, ?_⟩
  · simp [hnone]
  · simp [hnone]
  · simp [hnone]

/-- An entry that outlives the clock survives a call. -/
theorem NonceInv.survives {l : Life S} (h : NonceInv key l) {old : CommandEnvelope}
    (hold : old ∈ l.admitted) {now : Int64} (hclock : l.clock ≤ now) (hlive : now < old.expiresAt) :
    l.engine.nonces.Remembers (hex old.nonce) now :=
  ⟨_, h.cached old hold (Int64.lt_of_le_of_lt hclock hlive), fun _ => hlive⟩

/-- A ticket that was admitted before does not pass again if it is spared. -/
theorem NonceInv.replay {l : Life S} (h : NonceInv key l) {env : CommandEnvelope} {now : Int64}
    (hclock : l.clock ≤ now) (hpos : 0 < env.expiresAt)
    (hspared : Spared l (.envelope env now)) (hold : ticket env ∈ l.admitted.map ticket) :
    l.engine.admits env now = false := by
  rw [Bool.eq_false_iff]
  intro hadmits
  have hfresh := Engine.admits_fresh h.verifyKey h.tidy hadmits
  have hcurrent := ((l.engine.admits_iff env now).mp hadmits).2
  have hle : now ≤ env.expiresAt := by
    rw [← Int64.not_lt]
    exact fun hlt => hcurrent ⟨hpos, hlt⟩
  rcases Int64.le_iff_lt_or_eq.mp hle with hlt | heq
  · obtain ⟨old, holdmem, hticket⟩ := List.mem_map.mp hold
    obtain ⟨hnonce, hexpiry⟩ := Prod.mk.inj hticket
    apply hfresh
    rw [← hnonce]
    exact h.survives holdmem hclock (hexpiry ▸ hlt)
  · exact hfresh (hspared heq.symm hold)

theorem lookup_onEnvelope {l : Life S} (htidy : l.engine.nonces.Tidy) (env : CommandEnvelope)
    {now : Int64} {k : NonceKey} (hk : l.engine.nonces.Remembers k now) :
    (l.onEnvelope env now).engine.nonces.items.lookup k = l.engine.nonces.items.lookup k := by
  unfold onEnvelope
  dsimp only
  rw [Engine.submitEnvelope_nonces]
  rcases l.engine.authenticate_nonces_cases env now with hsame | hchecked
  · rw [hsame]
  · rw [hchecked]
    exact NonceCache.check_lookup_of_remembers htidy hk

theorem tidy_onEnvelope {l : Life S} (htidy : l.engine.nonces.Tidy) (env : CommandEnvelope)
    (now : Int64) : (l.onEnvelope env now).engine.nonces.Tidy := by
  unfold onEnvelope
  dsimp only
  rw [Engine.submitEnvelope_nonces]
  rcases l.engine.authenticate_nonces_cases env now with hsame | hchecked
  · rw [hsame]
    exact htidy
  · rw [hchecked]
    exact htidy.check _ _ _

theorem lookup_onEnvelope_of_admits {l : Life S} (hkey : l.engine.verifyKey = some key)
    {env : CommandEnvelope} {now : Int64} (h : l.engine.admits env now = true) :
    (l.onEnvelope env now).engine.nonces.items.lookup (hex env.nonce) = some env.expiresAt := by
  have hok := ((l.engine.admits_iff env now).mp h).1
  obtain ⟨hv, hnonce, hchecked⟩ := Engine.authenticate_ok hkey hok
  unfold onEnvelope
  dsimp only
  rw [Engine.submitEnvelope_nonces, (Engine.authenticate_nonces hkey hv hnonce).1]
  exact NonceCache.check_lookup_of_ok hchecked

theorem mem_admitted_onEnvelope {l : Life S} {env old : CommandEnvelope} {now : Int64}
    (h : old ∈ (l.onEnvelope env now).admitted) :
    old ∈ l.admitted ∨ (l.engine.admits env now = true ∧ old = env) := by
  unfold onEnvelope at h
  dsimp only at h
  split at h
  next hadmits =>
    rcases List.mem_append.mp h with h | h
    · exact Or.inl h
    · exact Or.inr ⟨hadmits, List.mem_singleton.mp h⟩
  next => exact Or.inl h

theorem nodup_onEnvelope_iff {l : Life S} (honce : (l.admitted.map ticket).Nodup)
    (env : CommandEnvelope) (now : Int64) :
    ((l.onEnvelope env now).admitted.map ticket).Nodup ↔
      ¬ (l.engine.admits env now = true ∧ ticket env ∈ l.admitted.map ticket) := by
  unfold onEnvelope
  dsimp only
  split
  next hadmits =>
    rw [List.map_append, List.nodup_append_comm, List.map_singleton, List.singleton_append,
      List.nodup_cons]
    simp [hadmits, honce]
  next hadmits => simp [hadmits, honce]

theorem NonceInv.onEnvelope {l : Life S} (h : NonceInv key l) {env : CommandEnvelope}
    {now : Int64} (hclock : l.clock ≤ now) (hpos : 0 < env.expiresAt)
    (hspared : Spared l (.envelope env now)) : NonceInv key (l.onEnvelope env now) := by
  refine ⟨(l.engine.submitEnvelope_verifyKey env now).trans h.verifyKey,
    tidy_onEnvelope h.tidy env now, ?_, ?_, ?_⟩
  · intro old hmem hlive
    rcases mem_admitted_onEnvelope hmem with hmem | ⟨hadmits, rfl⟩
    · rw [lookup_onEnvelope h.tidy env (h.survives hmem hclock hlive)]
      exact h.cached old hmem (Int64.lt_of_le_of_lt hclock hlive)
    · exact lookup_onEnvelope_of_admits h.verifyKey hadmits
  · intro old hmem
    rcases mem_admitted_onEnvelope hmem with hmem | ⟨hadmits, rfl⟩
    · exact h.nonce old hmem
    · have hok := ((l.engine.admits_iff old now).mp hadmits).1
      exact (Engine.authenticate_ok h.verifyKey hok).2.1
  · rw [nodup_onEnvelope_iff h.once]
    rintro ⟨hadmits, hold⟩
    rw [h.replay hclock hpos hspared hold] at hadmits
    cases hadmits

/-- A legal envelope keeps the tickets distinct exactly if it is spared. -/
theorem NonceInv.nodup_iff {l : Life S} (h : NonceInv key l) {env : CommandEnvelope}
    {now : Int64} (hlegal : Legal key l (.envelope env now)) :
    ((l.onEnvelope env now).admitted.map ticket).Nodup ↔ Spared l (.envelope env now) := by
  obtain ⟨hv, hpos, hclock⟩ := hlegal
  constructor
  · intro hnodup hexpiry hold
    by_contra hforgotten
    obtain ⟨old, hmem, hticket⟩ := List.mem_map.mp hold
    have hnonce : env.nonce ≠ [] := by
      rw [← (Prod.mk.inj hticket).1]
      exact h.nonce old hmem
    have hadmits : l.engine.admits env now = true := by
      refine (l.engine.admits_iff env now).mpr ⟨?_, ?_⟩
      · rw [(Engine.authenticate_nonces h.verifyKey hv hnonce).2]
        exact (NonceCache.check_ok_iff h.tidy _ _ _).mpr hforgotten
      · rintro ⟨-, hlt⟩
        exact Int64.ne_of_lt hlt hexpiry
    exact (nodup_onEnvelope_iff h.once env now).mp hnodup ⟨hadmits, hold⟩
  · intro hspared
    exact (h.onEnvelope hclock hpos hspared).once

theorem NonceInv.step {boot : Engine S} (hkey : boot.verifyKey = some key)
    (htidy : boot.nonces.Tidy) {l t : Life S} (h : NonceInv key l)
    (hstep : Fires (Life.step boot) (fun l e => Legal key l e ∧ Spared l e) l t) :
    NonceInv key t := by
  obtain ⟨event, ⟨hlegal, hspared⟩, ht⟩ := hstep
  cases event with
  | envelope env now =>
      cases ht
      exact h.onEnvelope hlegal.2.2 hlegal.2.1 hspared
  | finished index =>
      cases ht
      refine ⟨(l.engine.finish_verifyKey index).trans h.verifyKey, ?_, ?_, h.nonce, h.once⟩
      · exact (l.engine.finish_nonces index).symm ▸ h.tidy
      · intro env henv hlive
        exact (l.engine.finish_nonces index).symm ▸ h.cached env henv hlive
  | restarted now =>
      cases ht
      exact .booted hkey htidy rfl

end Life

/-- Let validly signed envelopes with an expiry arrive in any order at clock readings that do
not go back.  As long as no admitted ticket comes back in the millisecond of its expiry with its
cache entry gone or about to be cleaned up, no nonce is admitted twice for one expiry.  The
first envelope that breaks this rule is admitted a second time. -/
theorem nonce_admitted_once_iff {key : S.PublicKey} (capacity : Int) {boot : Engine S}
    (hkey : boot.verifyKey = some key) (hnonces : boot.nonces = newNonceCache capacity)
    (clock : Int64) {l : Life S}
    (hrun : Reaches (Fires (Life.step boot) fun l e => l.Legal key e ∧ l.Spared e)
      (Life.start boot clock) l) :
    (l.admitted.map Life.ticket).Nodup ∧
      ∀ env now, l.Legal key (.envelope env now) →
        (((l.onEnvelope env now).admitted.map Life.ticket).Nodup ↔
          l.Spared (.envelope env now)) := by
  have htidy : boot.nonces.Tidy := hnonces ▸ NonceCache.newNonceCache_tidy capacity
  have hinv : Life.NonceInv key l :=
    invariant (Life.NonceInv key) (fun _ _ h hstep => h.step hkey htidy hstep)
      (.booted hkey htidy rfl) hrun
  exact ⟨hinv.once, fun env now hlegal => hinv.nodup_iff hlegal⟩

def smallEngine : Engine tailScheme where
  catalog := catalog false
  verifyKey := some ()
  nonces := newNonceCache 1
  queueSize := 0
  queue := []
  idle := 1
  executing := []

def shortLived (cmdId nonce : Bytes) : CommandEnvelope :=
  sign tailScheme () ⟨cmdId, ascii "diagnose.disk_usage", ∅, 30, 1, 100, nonce, []⟩

theorem shortLived_legal (cmdId nonce : Bytes) {l : Life tailScheme} {now : Int64}
    (h : l.clock ≤ now) : l.Legal () (.envelope (shortLived cmdId nonce) now) :=
  ⟨verify_tail _, (by decide : (0 : Int64) < 100), h⟩

theorem nonce_admitted_once_small_cache :
    let replay := Life.Event.envelope (shortLived [1] [7]) 50
    ∃ l : Life tailScheme,
      play (Life.step smallEngine) (Life.start smallEngine 0) [replay, replay] = some l ∧
        (l.admitted.map Life.ticket).Nodup ∧
        (((l.onEnvelope (shortLived [1] [7]) 100).admitted.map Life.ticket).Nodup ↔
          l.Spared (.envelope (shortLived [1] [7]) 100)) := by
  intro replay
  have hearly : ∀ l : Life tailScheme, l.Spared replay :=
    fun l hexpiry => absurd hexpiry (by decide : (100 : Int64) ≠ 50)
  have hmay : Permitted (Life.step smallEngine) (fun l e => l.Legal () e ∧ l.Spared e)
      (Life.start smallEngine 0) [replay, replay] := by
    refine ⟨⟨shortLived_legal _ _ (by decide : (0 : Int64) ≤ 50), hearly _⟩, fun m hm => ?_⟩
    cases hm
    exact ⟨⟨shortLived_legal _ _ (Int64.le_refl 50), hearly _⟩, fun _ _ => trivial⟩
  have honce := nonce_admitted_once_iff 1 rfl rfl 0 (reaches_of_play hmay rfl)
  exact ⟨_, rfl, honce.1, honce.2 _ _ (shortLived_legal _ _ (by decide : (50 : Int64) ≤ 100))⟩

/-- The cache is full when the envelope is replayed in the millisecond of its expiry,
so its entry is dropped and the envelope passes again. -/
theorem nonce_admitted_twice :
    ∃ l : Life tailScheme, Reaches (Fires (Life.step smallEngine) (Life.Legal ()))
      (Life.start smallEngine 0) l ∧ ¬ (l.admitted.map Life.ticket).Nodup := by
  apply reaches_of_any (Life.step smallEngine)
    [.envelope (shortLived [1] [7]) 100, .envelope (shortLived [1] [7]) 100]
    (fun l => ¬ (l.admitted.map Life.ticket).Nodup)
  · refine ⟨shortLived_legal _ _ (by decide : (0 : Int64) ≤ 100), fun m hm => ?_⟩
    cases hm
    exact ⟨shortLived_legal _ _ (Int64.le_refl 100), fun _ _ => trivial⟩
  · decide +kernel

end TomAgent.Executor
