import TomAgent.Executor.Pool

/-!
# Cancelling a command

`CancelCommand` looks for the id in the map of running commands.  A command that waits in
the channel is not in it, nor is one that a worker has just taken; of two commands with one
id the map has the one that was registered last, and the first that returns removes the
entry of both.
-/

namespace TomAgent.Executor

open Authenv Execution

namespace Pool

variable {S : SignatureScheme} {p q : Pool S} {e : Event}

/-- The cancel gets to every command it is meant for: each one has been taken, and its
context is the one in the map or is already done. -/
def heard (p : Pool S) (cmdId : Bytes) : Bool :=
  (p.outstanding cmdId).all fun i => i < p.started.length &&
    p.jobs.all fun x => x.serial ≠ i || x.done || p.running.lookup cmdId = some i

def audible (p : Pool S) : Event → Bool
  | .cancelCommand cmdId => p.heard cmdId
  | _ => true

abbrev Audible (p : Pool S) (e : Event) : Prop := p.audible e = true

def Obeyed (p : Pool S) : Prop :=
  ∀ i ∈ p.asked, ∀ x ∈ p.jobs, x.serial = i → x.done = true

/-- What was asked for has been taken, and is not executed any longer or is on its way to
the end. -/
structure Answered (p : Pool S) : Prop where
  taken : ∀ i ∈ p.asked, i < p.started.length
  obeyed : p.Obeyed

theorem Obeyed.set (h : p.Obeyed) {index : Nat} {x y : Job}
    (hx : p.jobs[index]? = some x) {i : Nat} (hi : i ∈ p.asked) {z : Job}
    (hz : z ∈ p.jobs.set index y) (hzi : z.serial = i) (hserial : y.serial = x.serial)
    (hdone : x.done = true → y.done = true) : z.done = true := by
  rcases List.mem_or_eq_of_mem_set hz with hold | rfl
  · exact h i hi z hold hzi
  · exact hdone (h i hi x (List.mem_of_getElem? hx) (hserial.symm.trans hzi))

/-- A command that is taken now was not asked for. -/
theorem Answered.begin (h : p.Answered) {cmd : Command} {i : Nat} (hi : i ∈ p.asked)
    {x : Job} (hx : x ∈ p.jobs ++ [⟨p.started.length, cmd, .taken, false⟩])
    (hxi : x.serial = i) : x.done = true := by
  rcases List.mem_append.mp hx with hold | hnew
  · exact h.obeyed i hi x hold hxi
  · cases List.mem_singleton.mp hnew
    exact absurd (h.taken i hi) (hxi ▸ Nat.lt_irrefl _)

theorem mem_cancel {cmdId : Bytes} {y : Job} (hy : y ∈ p.cancel cmdId) :
    ∃ x ∈ p.jobs, y.serial = x.serial ∧ (x.done = true → y.done = true) ∧
      (p.running.lookup cmdId = some x.serial → y.done = true) := by
  unfold cancel at hy
  split at hy
  next hnone => exact ⟨y, hy, rfl, id, fun hentry => by rw [hnone] at hentry; cases hentry⟩
  next serial hserial =>
    obtain ⟨x, hx, rfl⟩ := List.mem_map.mp hy
    refine ⟨x, hx, ?_, ?_, ?_⟩
    · split
      next => rfl
      next => rfl
    · intro hdone
      split
      next => rfl
      next => exact hdone
    · intro hentry
      rw [hserial] at hentry
      rw [if_pos (Option.some.inj hentry).symm]

theorem Answered.cancelCommand (h : p.Answered) {cmdId : Bytes} (hheard : p.heard cmdId = true) :
    Answered { p with
      jobs := p.cancel cmdId
      asked := p.asked ++ p.outstanding cmdId } := by
  have hmeant : ∀ i ∈ p.outstanding cmdId, i < p.started.length ∧ ∀ x ∈ p.jobs,
      x.serial = i → x.done = true ∨ p.running.lookup cmdId = some i := by
    intro i hi
    have hall := List.all_eq_true.mp hheard i hi
    simp only [Bool.and_eq_true, decide_eq_true_eq, List.all_eq_true, Bool.or_eq_true,
      ne_eq, decide_not, Bool.not_eq_true', decide_eq_false_iff_not] at hall
    refine ⟨hall.1, fun x hx hxi => ?_⟩
    rcases hall.2 x hx with (hne | hdone) | hentry
    · exact absurd hxi hne
    · exact Or.inl hdone
    · exact Or.inr hentry
  refine ⟨fun i hi => ?_, fun i hi y hy hyi => ?_⟩
  · rcases List.mem_append.mp hi with hold | hnew
    · exact h.taken i hold
    · exact (hmeant i hnew).1
  · obtain ⟨x, hx, hserial, hdone, hentry⟩ := mem_cancel hy
    rcases List.mem_append.mp hi with hold | hnew
    · exact hdone (h.obeyed i hold x hx (hserial.symm.trans hyi))
    · rcases (hmeant i hnew).2 x hx (hserial.symm.trans hyi) with hdone' | hentry'
      · exact hdone hdone'
      · exact hentry ((hserial.symm.trans hyi).symm ▸ hentry')

theorem Answered.step (h : p.Answered) (haudible : p.Audible e) (hmoves : Moves p e q) :
    q.Answered := by
  cases hmoves with
  | handed | dequeues =>
      refine ⟨fun i hi => ?_, fun i hi x hx hxi => h.begin hi hx hxi⟩
      rw [List.length_append]
      exact Nat.lt_add_right _ (h.taken i hi)
  | stores hx | ends hx | reports hx =>
      exact ⟨h.taken, fun i hi y hy hyi => h.obeyed.set hx hi hy hyi rfl id⟩
  | closes hx | timeout hx =>
      exact ⟨h.taken, fun i hi y hy hyi => h.obeyed.set hx hi hy hyi rfl fun _ => rfl⟩
  | returns =>
      exact ⟨h.taken, fun i hi y hy hyi => h.obeyed i hi y (List.mem_of_mem_eraseIdx hy) hyi⟩
  | cancelCommand => exact h.cancelCommand haudible
  | _ => exact ⟨h.taken, h.obeyed⟩

theorem answered_start (conf : AgentConf) (verifyKey : Option S.PublicKey) :
    (start conf verifyKey).Answered where
  taken _ hi := absurd hi List.not_mem_nil
  obeyed _ hi := absurd hi List.not_mem_nil

/-- If every `CancelCommand` finds the commands it is meant for, then in every state a
command that somebody asked to cancel before its `execute` returned is executed, if at all,
with a context that is done. -/
theorem runs_obeyed (conf : AgentConf) (verifyKey : Option S.PublicKey)
    (hrun : Reaches (Fires step Audible) (start conf verifyKey) p) : p.Obeyed := by
  have hinv : p.Answered := by
    refine invariant Answered ?_ (answered_start conf verifyKey) hrun
    rintro p q h ⟨e, haudible, hq⟩
    exact h.step haudible (step_moves hq)
  exact hinv.obeyed

theorem runs_obeyed_running :
    ∃ p : Pool tailScheme, Reaches (Fires step Audible) (start smallConf none) p ∧
      p.asked = [0] ∧ p.jobs.map (fun x => (x.serial, x.phase, x.done)) = [(0, .ended, true)] ∧
      p.Obeyed := by
  obtain ⟨p, hrun, hasked, hjobs⟩ := reaches_of_events Audible smallConf none
    [.polled unsignedCommand, .submit 0, .arrive, .execute 0, .cancelCommand [], .execute 0]
    (fun p : Pool tailScheme => p.asked = [0] ∧
      p.jobs.map (fun x => (x.serial, x.phase, x.done)) = [(0, .ended, true)])
    (permitted_of_decide (by decide +kernel)) (by decide +kernel)
  exact ⟨p, hrun, hasked, hjobs, runs_obeyed smallConf none hrun⟩

/-- The only worker is busy when the second command is accepted and cancelled.  Later the
worker takes it, and its action runs to the end in a context that nobody has cancelled. -/
theorem cancel_of_waiting_lost :
    ∃ p : Pool tailScheme, Reaches (Fires step fun _ _ => True) (start smallConf none) p ∧
      p.asked = [1] ∧ p.jobs.map (fun x => (x.serial, x.phase, x.done)) = [(1, .ended, false)] ∧
      ¬ p.Obeyed := by
  obtain ⟨p, hrun, hasked, hjobs⟩ := reaches_of_events (fun _ _ => True) smallConf none
    [.polled unsignedCommand, .submit 0, .arrive, .execute 0,
      .polled { unsignedCommand with cmdId := [3] }, .submit 0, .cancelCommand [3],
      .execute 0, .execute 0, .execute 0, .execute 0, .arrive, .execute 0, .execute 0]
    (fun p : Pool tailScheme => p.asked = [1] ∧
      p.jobs.map (fun x => (x.serial, x.phase, x.done)) = [(1, .ended, false)])
    (permitted_of_forall (fun _ _ _ => trivial) _) (by decide +kernel)
  refine ⟨p, hrun, hasked, hjobs, fun hobeyed => ?_⟩
  obtain ⟨x, hx, hdata⟩ := List.mem_map.mp (hjobs ▸ List.mem_singleton_self _)
  simp only [Prod.mk.injEq] at hdata
  have hdone := hobeyed 1 (hasked ▸ List.mem_singleton_self _) x hx hdata.1
  rw [hdata.2.2] at hdone
  cases hdone

end Pool

end TomAgent.Executor
