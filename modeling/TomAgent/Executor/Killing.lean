import TomAgent.Core.Execution
import TomAgent.Executor.Results

/-!
# How a command that is killed is reported

`runExternal` waits for the process and for the context at the same time, and `execute`
looks at the context again, twice, when it decides on the status.  The process, the
deadline, `Cancel` and the two looks are in no order: the context can be done by the
time it is looked at although the process ended by itself.
-/

namespace TomAgent.Executor

open Execution JsonText

/-! ## The status -/

def outcome (ctxErr : Option ContextError) (parentDone : Bool) (execErr : Option ExecError) :
    ResultStatus × Int :=
  match ctxErr, parentDone, execErr with
  | some .deadlineExceeded, _, _ => (.timeoutKilled, -1)
  | some .canceled, false, _ => (.cancelled, -1)
  | _, _, some (.exit code) => (.failed, code)
  | _, _, some (.other _) => (.failed, -1)
  | _, _, none => (.succeeded, 0)

theorem execute_outcome {outputLimitKB : Int64} {run : ActionRun} {r : Result}
    (h : execute outputLimitKB run = some r) :
    (r.status, r.exitCode) = outcome run.ctxErr run.parentDone run.execErr := by
  unfold execute at h
  obtain ⟨stdout, -, h⟩ := Option.bind_eq_some_iff.mp h
  obtain ⟨stderr, -, h⟩ := Option.bind_eq_some_iff.mp h
  dsimp only at h
  generalize run.ctxErr = ctxErr at h ⊢
  generalize run.parentDone = parentDone at h ⊢
  generalize run.execErr = execErr at h ⊢
  rcases ctxErr with _ | _ | _ <;> rcases parentDone with _ | _ <;>
    rcases execErr with _ | _ | _ <;> cases h <;> rfl

/-! ## One external command -/

inductive RunPhase where
  /-- Before `c.Start`. -/
  | starting
  /-- In the first `select`. -/
  | selecting
  /-- In the `select` behind the SIGTERM. -/
  | terminating
  /-- Behind the SIGKILL. -/
  | killing
  /-- `runExternal` has returned; the first look at the context comes next. -/
  | returned (execErr : Option ExecError)
  /-- The deadline was not seen; the second look comes next. -/
  | checked (execErr : Option ExecError)
  | finished (status : ResultStatus) (exitCode : Int)
deriving Repr, DecidableEq

inductive ProcessState where
  | none
  | running
  /-- With its code, and whether the SIGTERM had been sent before; -1 is the code of a
  process that a signal ended. -/
  | exited (code : Int) (signalled : Bool)
deriving Repr, DecidableEq

structure Run where
  phase : RunPhase
  process : ProcessState
  /-- What `c.Wait` returned is in the channel. -/
  done : Bool
  /-- `ctx.Err()` -/
  ctx : Option ContextError
  /-- The SIGTERM has been sent to the process group. -/
  sigterm : Bool
deriving Repr, DecidableEq

namespace Run

inductive Event where
  | started
  | startFailed (text : Bytes)
  /-- The process ends. -/
  | exit (code : Int)
  /-- `c.Wait` returns, which may be later. -/
  | waited
  | deadline
  | cancel
  /-- The first `select` takes the channel. -/
  | takeDone
  /-- The first `select` takes the context: SIGTERM. -/
  | takeContext
  /-- The second `select` takes the channel. -/
  | graceDone
  /-- The second `select` takes the timer: SIGKILL. -/
  | graceOver
  /-- The channel is read behind the SIGKILL. -/
  | reaped
  /-- `ctx.Err() == context.DeadlineExceeded` -/
  | readDeadline
  /-- `ctx.Err() == context.Canceled`, and what follows. -/
  | readCancel
deriving Repr, DecidableEq

def start : Run := ⟨.starting, .none, false, none, false⟩

/-- The error of `c.Wait` for a process that ended with the code. -/
def waitErr (code : Int) : Option ExecError := if code = 0 then none else some (.exit code)

def ctxText : Option ContextError → Bytes
  | some .deadlineExceeded => utf8 "context deadline exceeded".toList
  | some .canceled => utf8 "context canceled".toList
  | none => []

def receive (s : Run) : Option Run :=
  match s.done, s.process with
  | true, .exited code _ => some { s with phase := .returned (waitErr code) }
  | _, _ => none

/-- The parent context is never done. -/
def next (s : Run) : Event → Option Run
  | .started =>
      if s.phase = .starting then some { s with phase := .selecting, process := .running }
      else none
  | .startFailed text =>
      if s.phase = .starting then some { s with phase := .returned (some (.other text)) } else none
  | .exit code =>
      if s.process = .running then some { s with process := .exited code s.sigterm } else none
  | .waited =>
      match s.process with
      | .exited _ _ => some { s with done := true }
      | _ => none
  | .deadline => if s.ctx = none then some { s with ctx := some .deadlineExceeded } else none
  | .cancel => if s.ctx = none then some { s with ctx := some .canceled } else none
  | .takeDone => if s.phase = .selecting then s.receive else none
  | .takeContext =>
      if s.phase = .selecting ∧ s.ctx ≠ none then
        some { s with phase := .terminating, sigterm := true }
      else none
  | .graceDone => if s.phase = .terminating then s.receive else none
  | .graceOver => if s.phase = .terminating then some { s with phase := .killing } else none
  | .reaped =>
      if s.phase = .killing ∧ s.done then
        some { s with phase := .returned (some (.other (ctxText s.ctx))) }
      else none
  | .readDeadline =>
      match s.phase with
      | .returned execErr =>
          if s.ctx = some .deadlineExceeded then
            let r := outcome s.ctx false execErr
            some { s with phase := .finished r.1 r.2 }
          else some { s with phase := .checked execErr }
      | _ => none
  | .readCancel =>
      match s.phase with
      | .checked execErr =>
          let seen := if s.ctx = some .canceled then s.ctx else none
          let r := outcome seen false execErr
          some { s with phase := .finished r.1 r.2 }
      | _ => none

/-- What the statuses are to say: a command that is reported as killed was sent a SIGTERM,
and a process that ended before any signal is reported with its own code. -/
def Honest (s : Run) : Prop :=
  ∀ status exitCode, s.phase = .finished status exitCode →
    (status = .timeoutKilled ∨ status = .cancelled → s.sigterm = true) ∧
      ∀ code, s.process = .exited code false →
        (status, exitCode) = if code = 0 then (.succeeded, 0) else (.failed, code)

/-- The SIGTERM was sent while the process was running. -/
def Terminated (s : Run) : Prop := ∃ code, s.process = .exited code true

/-- A look at the context does not find what it looks for, or the process was sent a SIGTERM. -/
def Unhurried (s : Run) : Event → Prop
  | .readDeadline => s.ctx = some .deadlineExceeded → s.Terminated
  | .readCancel => s.ctx = some .canceled → s.Terminated
  | _ => True

/-! ## Steps -/

inductive Moves (s : Run) : Event → Run → Prop
  | started (hp : s.phase = .starting) :
      Moves s .started { s with phase := .selecting, process := .running }
  | startFailed (hp : s.phase = .starting) (text : Bytes) :
      Moves s (.startFailed text) { s with phase := .returned (some (.other text)) }
  | exit (hrunning : s.process = .running) (code : Int) :
      Moves s (.exit code) { s with process := .exited code s.sigterm }
  | waited {code : Int} {signalled : Bool} (hprocess : s.process = .exited code signalled) :
      Moves s .waited { s with done := true }
  | deadline (hctx : s.ctx = none) : Moves s .deadline { s with ctx := some .deadlineExceeded }
  | cancel (hctx : s.ctx = none) : Moves s .cancel { s with ctx := some .canceled }
  | takeDone {code : Int} {signalled : Bool} (hp : s.phase = .selecting)
      (hprocess : s.process = .exited code signalled) :
      Moves s .takeDone { s with phase := .returned (waitErr code) }
  | takeContext (hp : s.phase = .selecting) (hctx : s.ctx ≠ none) :
      Moves s .takeContext { s with phase := .terminating, sigterm := true }
  | graceDone {code : Int} {signalled : Bool} (hp : s.phase = .terminating)
      (hprocess : s.process = .exited code signalled) :
      Moves s .graceDone { s with phase := .returned (waitErr code) }
  | graceOver (hp : s.phase = .terminating) : Moves s .graceOver { s with phase := .killing }
  | reaped (hp : s.phase = .killing) (hdone : s.done = true) :
      Moves s .reaped { s with phase := .returned (some (.other (ctxText s.ctx))) }
  | deadlineSeen {execErr : Option ExecError} (hp : s.phase = .returned execErr)
      (hctx : s.ctx = some .deadlineExceeded) :
      Moves s .readDeadline { s with phase := .finished .timeoutKilled (-1) }
  | deadlineNotSeen {execErr : Option ExecError} (hp : s.phase = .returned execErr)
      (hctx : s.ctx ≠ some .deadlineExceeded) :
      Moves s .readDeadline { s with phase := .checked execErr }
  | cancelSeen {execErr : Option ExecError} (hp : s.phase = .checked execErr)
      (hctx : s.ctx = some .canceled) :
      Moves s .readCancel { s with phase := .finished .cancelled (-1) }
  | cancelNotSeen {execErr : Option ExecError} (hp : s.phase = .checked execErr)
      (hctx : s.ctx ≠ some .canceled) :
      Moves s .readCancel { s with
        phase := .finished (outcome none false execErr).1 (outcome none false execErr).2 }

theorem receive_eq_some {s t : Run} (h : s.receive = some t) :
    ∃ code signalled, s.process = .exited code signalled ∧
      t = { s with phase := .returned (waitErr code) } := by
  unfold receive at h
  split at h
  next code signalled _ hprocess => exact ⟨code, signalled, hprocess, (Option.some.inj h).symm⟩
  next => cases h

theorem moves_of_next {s t : Run} {e : Event} (h : s.next e = some t) : Moves s e t := by
  unfold Run.next at h
  cases e with
  | started =>
      obtain ⟨hp, ht⟩ := Option.ite_none_right_eq_some.mp h
      cases ht
      exact .started hp
  | startFailed text =>
      obtain ⟨hp, ht⟩ := Option.ite_none_right_eq_some.mp h
      cases ht
      exact .startFailed hp text
  | exit code =>
      obtain ⟨hrunning, ht⟩ := Option.ite_none_right_eq_some.mp h
      cases ht
      exact .exit hrunning code
  | waited =>
      dsimp only at h
      split at h
      next hprocess =>
        cases h
        exact .waited hprocess
      next => cases h
  | deadline =>
      obtain ⟨hctx, ht⟩ := Option.ite_none_right_eq_some.mp h
      cases ht
      exact .deadline hctx
  | cancel =>
      obtain ⟨hctx, ht⟩ := Option.ite_none_right_eq_some.mp h
      cases ht
      exact .cancel hctx
  | takeDone =>
      obtain ⟨hp, ht⟩ := Option.ite_none_right_eq_some.mp h
      obtain ⟨code, signalled, hprocess, rfl⟩ := receive_eq_some ht
      exact .takeDone hp hprocess
  | takeContext =>
      obtain ⟨⟨hp, hctx⟩, ht⟩ := Option.ite_none_right_eq_some.mp h
      cases ht
      exact .takeContext hp hctx
  | graceDone =>
      obtain ⟨hp, ht⟩ := Option.ite_none_right_eq_some.mp h
      obtain ⟨code, signalled, hprocess, rfl⟩ := receive_eq_some ht
      exact .graceDone hp hprocess
  | graceOver =>
      obtain ⟨hp, ht⟩ := Option.ite_none_right_eq_some.mp h
      cases ht
      exact .graceOver hp
  | reaped =>
      obtain ⟨⟨hp, hdone⟩, ht⟩ := Option.ite_none_right_eq_some.mp h
      cases ht
      exact .reaped hp hdone
  | readDeadline =>
      dsimp only at h
      split at h
      next execErr hp =>
        split at h
        next hctx =>
          cases h
          have hkilled : outcome s.ctx false execErr = (.timeoutKilled, -1) := by
            rw [hctx]
            rfl
          rw [hkilled]
          exact .deadlineSeen hp hctx
        next hctx =>
          cases h
          exact .deadlineNotSeen hp hctx
      next => cases h
  | readCancel =>
      dsimp only at h
      split at h
      next execErr hp =>
        cases h
        by_cases hctx : s.ctx = some .canceled
        · have hkilled : outcome s.ctx false execErr = (.cancelled, -1) := by
            rw [hctx]
            rfl
          rw [if_pos hctx, hkilled]
          exact .cancelSeen hp hctx
        · rw [if_neg hctx]
          exact .cancelNotSeen hp hctx
      next => cases h

/-! ## What holds in every run -/

def Ended (s : Run) : Prop :=
  (s.process = .none ∧ s.sigterm = false) ∨ ∃ code signalled, s.process = .exited code signalled

def Reports (s : Run) (execErr : Option ExecError) : Prop :=
  ∀ code signalled, s.process = .exited code signalled → execErr = waitErr code

def PhaseInv (s : Run) : Prop :=
  match s.phase with
  | .starting => s.process = .none ∧ s.sigterm = false
  | .selecting => s.process ≠ .none ∧ s.sigterm = false
  | .terminating | .killing => s.process ≠ .none ∧ s.sigterm = true ∧ s.ctx ≠ none
  | .returned execErr => s.Ended ∧ (s.Reports execErr ∨ s.ctx ≠ none)
  | .checked execErr => s.Ended ∧ (s.Reports execErr ∨ s.ctx = some .canceled)
  | .finished _ _ => s.Ended

structure Inv (s : Run) : Prop where
  phase : s.PhaseInv
  waited : s.done = true → ∃ code signalled, s.process = .exited code signalled
  signalled : s.Terminated → s.sigterm = true

theorem inv_start : Inv start :=
  ⟨⟨rfl, rfl⟩, by simp [start], by rintro ⟨code, h⟩; cases h⟩

theorem Inv.received {s : Run} (h : Inv s) {code : Int} {signalled : Bool}
    (hprocess : s.process = .exited code signalled) :
    Inv { s with phase := .returned (waitErr code) } := by
  refine ⟨⟨.inr ⟨code, signalled, hprocess⟩, .inl ?_⟩, h.waited, h.signalled⟩
  intro code' signalled' hprocess'
  rw [hprocess] at hprocess'
  cases hprocess'
  rfl

theorem Inv.exit {s : Run} (h : Inv s) (hrunning : s.process = .running) (code : Int) :
    Inv { s with process := .exited code s.sigterm } := by
  have hphase := h.phase
  refine ⟨?_, fun _ => ⟨code, s.sigterm, rfl⟩, ?_⟩
  · unfold PhaseInv Ended at hphase ⊢
    rw [hrunning] at hphase
    cases hp : s.phase <;> simp_all
  · rintro ⟨code', hcode⟩
    exact (ProcessState.exited.inj hcode).2

theorem Inv.context {s : Run} (h : Inv s) (hctx : s.ctx = none) (err : ContextError) :
    Inv { s with ctx := some err } := by
  have hphase := h.phase
  refine ⟨?_, h.waited, h.signalled⟩
  unfold PhaseInv Ended Reports at hphase ⊢
  cases hp : s.phase <;> simp_all

theorem canceled_of_ne {ctx : Option ContextError} (hdone : ctx ≠ none)
    (hne : ctx ≠ some .deadlineExceeded) : ctx = some .canceled := by
  rcases ctx with _ | _ | _
  · exact absurd rfl hdone
  · exact absurd rfl hne
  · rfl

theorem Inv.moves {s t : Run} (h : Inv s) {e : Event} (hmoves : Moves s e t) : Inv t := by
  have hphase := h.phase
  cases hmoves with
  | started hp =>
      simp only [PhaseInv, hp] at hphase
      refine ⟨⟨by simp, hphase.2⟩, ?_, ?_⟩
      · intro hdone
        obtain ⟨code, signalled, hprocess⟩ := h.waited hdone
        rw [hphase.1] at hprocess
        cases hprocess
      · rintro ⟨code, hcode⟩
        cases hcode
  | startFailed hp text =>
      simp only [PhaseInv, hp] at hphase
      refine ⟨⟨.inl hphase, .inl ?_⟩, h.waited, h.signalled⟩
      intro code signalled hprocess
      rw [hphase.1] at hprocess
      cases hprocess
  | exit hrunning code => exact h.exit hrunning code
  | waited hprocess => exact ⟨hphase, fun _ => ⟨_, _, hprocess⟩, h.signalled⟩
  | deadline hctx => exact h.context hctx _
  | cancel hctx => exact h.context hctx _
  | takeDone _ hprocess => exact h.received hprocess
  | takeContext hp hctx =>
      simp only [PhaseInv, hp] at hphase
      exact ⟨⟨hphase.1, rfl, hctx⟩, h.waited, fun _ => rfl⟩
  | graceDone _ hprocess => exact h.received hprocess
  | graceOver hp =>
      simp only [PhaseInv, hp] at hphase
      exact ⟨hphase, h.waited, h.signalled⟩
  | reaped hp hdone =>
      simp only [PhaseInv, hp] at hphase
      exact ⟨⟨.inr (h.waited hdone), .inr hphase.2.2⟩, h.waited, h.signalled⟩
  | deadlineNotSeen hp hctx =>
      simp only [PhaseInv, hp] at hphase
      exact ⟨⟨hphase.1, hphase.2.imp_right fun hdone => canceled_of_ne hdone hctx⟩, h.waited,
        h.signalled⟩
  | deadlineSeen hp =>
      simp only [PhaseInv, hp] at hphase
      exact ⟨hphase.1, h.waited, h.signalled⟩
  | cancelSeen hp =>
      simp only [PhaseInv, hp] at hphase
      exact ⟨hphase.1, h.waited, h.signalled⟩
  | cancelNotSeen hp =>
      simp only [PhaseInv, hp] at hphase
      exact ⟨hphase.1, h.waited, h.signalled⟩

theorem inv_of_reaches {may : Run → Event → Prop} {s : Run}
    (hrun : Reaches (Fires next may) start s) : Inv s := by
  refine invariant Inv ?_ inv_start hrun
  rintro s t h ⟨e, -, hnext⟩
  exact h.moves (moves_of_next hnext)

/-! ## The looks at the context -/

theorem honest_of_not_finished {s : Run}
    (h : ∀ status exitCode, s.phase ≠ .finished status exitCode) :
    Honest s := fun status exitCode hphase => absurd hphase (h status exitCode)

/-- A status that says that the command was killed is right if the SIGTERM found the process
running. -/
theorem honest_killed_iff {s : Run} (h : Inv s) (hended : s.Ended) {status : ResultStatus}
    (hstatus : status = .timeoutKilled ∨ status = .cancelled) :
    Honest { s with phase := .finished status (-1) } ↔ s.Terminated := by
  constructor
  · intro hhonest
    obtain ⟨hsent, hown⟩ := hhonest status (-1) rfl
    rcases hended with ⟨-, hquiet⟩ | ⟨code, signalled, hprocess⟩
    · have hsigterm := hsent hstatus
      rw [hquiet] at hsigterm
      cases hsigterm
    · cases signalled with
      | true => exact ⟨code, hprocess⟩
      | false =>
          exfalso
          have hreported := hown code hprocess
          rcases hstatus with rfl | rfl <;> split at hreported <;> cases hreported
  · rintro ⟨code, hprocess⟩ status' exitCode' hphase
    cases hphase
    refine ⟨fun _ => h.signalled ⟨code, hprocess⟩, ?_⟩
    intro code' hprocess'
    have hsame := hprocess.symm.trans hprocess'
    cases hsame

theorem honest_reported {s : Run} {execErr : Option ExecError} (hreports : s.Reports execErr) :
    Honest { s with
      phase := .finished (outcome none false execErr).1 (outcome none false execErr).2 } := by
  intro status exitCode hphase
  obtain ⟨rfl, rfl⟩ := RunPhase.finished.inj hphase
  constructor
  · intro hkilled
    exfalso
    rcases execErr with _ | _ | _ <;> rcases hkilled with h | h <;> cases h
  · intro code hprocess
    rw [hreports code false hprocess, waitErr]
    by_cases hzero : code = 0
    · rw [if_pos hzero, if_pos hzero]
      rfl
    · rw [if_neg hzero, if_neg hzero]
      rfl

theorem honest_congr {s t : Run} (hs : Honest s) (hphase : t.phase = s.phase)
    (hprocess : t.process = s.process) (hsigterm : t.sigterm = s.sigterm) : Honest t := by
  intro status exitCode hfinished
  rw [hprocess, hsigterm]
  exact hs status exitCode (hphase ▸ hfinished)

/-- One step after which the status is right: only the looks at the context finish, and
nothing changes what a status is measured by. -/
theorem honest_moves_iff {s t : Run} (h : Inv s) (hs : Honest s) {e : Event}
    (hmoves : Moves s e t) : Honest t ↔ s.Unhurried e := by
  have hphase := h.phase
  cases hmoves with
  | deadlineSeen hp hctx =>
      simp only [PhaseInv, hp] at hphase
      have hkilled := honest_killed_iff h hphase.1 (.inl rfl : ResultStatus.timeoutKilled = _ ∨ _)
      exact hkilled.trans ⟨fun hterm _ => hterm, fun hterm => hterm hctx⟩
  | deadlineNotSeen hp hctx =>
      exact ⟨fun _ hseen => absurd hseen hctx, fun _ => honest_of_not_finished nofun⟩
  | cancelSeen hp hctx =>
      simp only [PhaseInv, hp] at hphase
      have hkilled := honest_killed_iff h hphase.1 (.inr rfl : ResultStatus.cancelled = _ ∨ _)
      exact hkilled.trans ⟨fun hterm _ => hterm, fun hterm => hterm hctx⟩
  | cancelNotSeen hp hctx =>
      simp only [PhaseInv, hp] at hphase
      exact ⟨fun _ hseen => absurd hseen hctx,
        fun _ => honest_reported (hphase.2.resolve_right hctx)⟩
  | exit hrunning code =>
      -- a process that runs has not been reported
      refine iff_of_true (honest_of_not_finished fun status exitCode hfinished => ?_) trivial
      simp only [PhaseInv, show s.phase = _ from hfinished, Ended, hrunning] at hphase
      rcases hphase with ⟨hnone, -⟩ | ⟨_, _, hexited⟩
      · cases hnone
      · cases hexited
  | waited => exact iff_of_true (honest_congr hs rfl rfl rfl) trivial
  | deadline => exact iff_of_true (honest_congr hs rfl rfl rfl) trivial
  | cancel => exact iff_of_true (honest_congr hs rfl rfl rfl) trivial
  | _ => exact iff_of_true (honest_of_not_finished nofun) trivial

theorem honest_of_reaches {s : Run} (hrun : Reaches (Fires next Unhurried) start s) :
    Honest s := by
  have hboth : Inv s ∧ Honest s := by
    refine invariant (fun s => Inv s ∧ Honest s) ?_ ⟨inv_start, ?_⟩ hrun
    · rintro s t ⟨hinv, hhonest⟩ ⟨e, hmay, hnext⟩
      have hmoves := moves_of_next hnext
      exact ⟨hinv.moves hmoves, (honest_moves_iff hinv hhonest hmoves).mpr hmay⟩
    · exact honest_of_not_finished nofun
  exact hboth.2

end Run

open Run

/-- In every run of an external command while the agent is not shutting down, whatever the order
of the end of the process, the deadline, `Cancel` and the looks at the context: as long as a
look finds the context done only if the SIGTERM was sent to a running process, the status is
right; and the first step that does not keep to this makes it wrong. -/
theorem kill_status_iff (s t : Run) (e : Run.Event)
    (hrun : Reaches (Fires Run.next Unhurried) Run.start s) (hnext : s.next e = some t) :
    Honest s ∧ (Honest t ↔ s.Unhurried e) :=
  ⟨honest_of_reaches hrun,
    honest_moves_iff (inv_of_reaches hrun) (honest_of_reaches hrun) (moves_of_next hnext)⟩

/-- A process that ends with 0; the deadline passes before `execute` looks at the context. -/
def lateDeadline : List Run.Event :=
  [.started, .exit 0, .waited, .takeDone, .deadline, .readDeadline]

theorem kill_status_without_kill :
    play Run.next Run.start lateDeadline =
        some ⟨.finished .timeoutKilled (-1), .exited 0 false, true, some .deadlineExceeded, false⟩ ∧
      ¬ Honest ⟨.finished .timeoutKilled (-1), .exited 0 false, true, some .deadlineExceeded,
        false⟩ := by
  refine ⟨by decide, fun hhonest => ?_⟩
  have hsent := (hhonest .timeoutKilled (-1) rfl).1 (.inl rfl)
  cases hsent

def killedRun : List Run.Event :=
  [.started, .deadline, .takeContext, .exit (-1), .waited, .graceDone]

def killedState : Run :=
  ⟨.returned (some (.exit (-1))), .exited (-1) true, true, some .deadlineExceeded, true⟩

theorem kill_status_of_kill :
    Reaches (Fires Run.next Unhurried) Run.start killedState ∧
      killedState.next .readDeadline =
        some { killedState with phase := .finished .timeoutKilled (-1) } ∧
      Honest { killedState with phase := .finished .timeoutKilled (-1) } := by
  have hrun : Reaches (Fires Run.next Unhurried) Run.start killedState := by
    refine reaches_of_play (permitted_of_forall ?_ _) (by decide : play _ _ killedRun = _)
    simp [killedRun, Unhurried]
  exact ⟨hrun, rfl, (kill_status_iff killedState _ .readDeadline hrun rfl).2.mpr
    fun _ => ⟨-1, rfl⟩⟩

end TomAgent.Executor
