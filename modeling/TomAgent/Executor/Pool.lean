import TomAgent.Core.Execution
import TomAgent.Core.Ledger
import TomAgent.Executor.Ingress

/-!
# The workers

Any number of callers submit commands while the workers take them from the channel and
execute them.  A step is one operation on the channel, on the map of running commands or
on the nonce cache, or the handing over of a result.  A worker that is blocked on the
channel gets a command directly, and one that comes to a channel with waiting commands
takes the oldest.
-/

namespace TomAgent.Executor

open Authenv Execution

inductive Call where
  /-- `Submit` comes next. -/
  | submitting (cmd : Command)
  /-- `reportImmediate` comes next. -/
  | reporting (cmdId : Bytes)

def Call.cmdId : Call → Bytes
  | .submitting cmd => cmd.cmdId
  | .reporting cmdId => cmdId

@[simp] theorem Call.cmdId_submitting (cmd : Command) : (submitting cmd).cmdId = cmd.cmdId := rfl

@[simp] theorem Call.cmdId_reporting (cmdId : Bytes) : (reporting cmdId).cmdId = cmdId := rfl

inductive Phase where
  /-- The context is not in the map of running commands yet. -/
  | taken
  | acting
  /-- The action has returned; the result comes next. -/
  | ended
  /-- The result is handed over; the deferred `cancel` comes next. -/
  | reported
  /-- The deferred removal from the map comes next. -/
  | closing
deriving Repr, DecidableEq

structure Job where
  /-- The how manieth accepted command it is. -/
  serial : Nat
  cmd : Command
  phase : Phase
  /-- Its context is cancelled or past its deadline. -/
  done : Bool

/-- The command, until its result is handed over. -/
def Job.unreported (x : Job) : List Bytes :=
  match x.phase with
  | .taken | .acting | .ended => [x.cmd.cmdId]
  | .reported | .closing => []

structure Pool (S : SignatureScheme) where
  catalog : Catalog
  verifyKey : Option S.PublicKey
  nonces : NonceCache
  queueSize : Nat
  queue : List Command
  calls : List Call
  /-- Workers on their way to the channel. -/
  free : Nat
  /-- Workers blocked on the channel. -/
  idle : Nat
  jobs : List Job
  /-- The map of running commands: whose context is cancelled for an id. -/
  running : AList (fun _ : Bytes => Nat)
  /-- Every id submitted, every accepted command and every command taken, in order. -/
  submitted : List Bytes
  accepted : List Command
  started : List Command
  /-- The ids of the results handed to `SubmitReliable`. -/
  results : List Bytes
  /-- The accepted commands that a `CancelCommand` was meant for. -/
  asked : List Nat

namespace Pool

variable {S : SignatureScheme}

def start (conf : AgentConf) (verifyKey : Option S.PublicKey) : Pool S where
  catalog := addActions (Executor.catalog conf.allowTestActions) conf.plugins
  verifyKey := verifyKey
  nonces := newNonceCache 10000
  queueSize := conf.queueSize
  queue := []
  calls := []
  free := if conf.workers ≤ 0 then 4 else conf.workers.toNat
  idle := 0
  jobs := []
  running := ∅
  submitted := []
  accepted := []
  started := []
  results := []
  asked := []

def engine (p : Pool S) : Engine S where
  catalog := p.catalog
  verifyKey := p.verifyKey
  nonces := p.nonces
  queueSize := p.queueSize
  queue := p.queue
  idle := p.idle
  executing := p.jobs.map Job.cmd

inductive Event where
  /-- `SubmitEnvelope` is called and does its checks. -/
  | envelope (env : CommandEnvelope) (now : Int64)
  /-- The poller takes up a command of a response. -/
  | polled (cmd : Command)
  | submit (call : Nat)
  | reportImmediate (call : Nat)
  /-- A worker comes to the channel. -/
  | arrive
  /-- An execution goes on. -/
  | execute (index : Nat)
  /-- The deadline of a context passes. -/
  | timeout (index : Nat)
  | cancelCommand (cmdId : Bytes)

def begin (p : Pool S) (cmd : Command) : Pool S :=
  { p with
    jobs := p.jobs ++ [⟨p.started.length, cmd, .taken, false⟩]
    started := p.started ++ [cmd] }

def offer (p : Pool S) (cmd : Command) : Option (Pool S) :=
  if p.queue = [] ∧ 0 < p.idle then some ({ p with idle := p.idle - 1 }.begin cmd)
  else if p.queue.length < p.queueSize then some { p with queue := p.queue ++ [cmd] }
  else none

def submit (p : Pool S) (call : Nat) : Option (Pool S) :=
  match p.calls[call]? with
  | some (.submitting cmd) =>
      match p.engine.validate cmd with
      | .error _ => some { p with calls := p.calls.set call (.reporting cmd.cmdId) }
      | .ok () =>
          match p.offer cmd with
          | none => some { p with calls := p.calls.set call (.reporting cmd.cmdId) }
          | some q => some { q with
              calls := p.calls.eraseIdx call
              accepted := p.accepted ++ [cmd] }
  | _ => none

def execute (p : Pool S) (index : Nat) : Option (Pool S) :=
  match p.jobs[index]? with
  | none => none
  | some x =>
      match x.phase with
      | .taken => some { p with
          jobs := p.jobs.set index { x with phase := .acting }
          running := p.running.insert x.cmd.cmdId x.serial }
      | .acting => some { p with
          jobs := p.jobs.set index { x with phase := .ended } }
      | .ended => some { p with
          jobs := p.jobs.set index { x with phase := .reported }
          results := p.results ++ [x.cmd.cmdId] }
      | .reported => some { p with
          jobs := p.jobs.set index { x with phase := .closing, done := true } }
      | .closing => some { p with
          jobs := p.jobs.eraseIdx index
          running := p.running.erase x.cmd.cmdId
          free := p.free + 1 }

/-- The accepted commands with the id whose `execute` has not returned. -/
def outstanding (p : Pool S) (cmdId : Bytes) : List Nat :=
  (List.range p.accepted.length).filter fun i =>
    (p.accepted[i]?).any (fun cmd => cmd.cmdId = cmdId) ∧
      (p.started.length ≤ i ∨ i ∈ p.jobs.map Job.serial)

def cancel (p : Pool S) (cmdId : Bytes) : List Job :=
  match p.running.lookup cmdId with
  | none => p.jobs
  | some serial =>
      p.jobs.map fun x => if x.serial = serial then { x with done := true } else x

def step (p : Pool S) : Event → Option (Pool S)
  | .envelope env now =>
      let checked := p.engine.authenticate env now
      let call := match checked.2 with
        | .error _ => Call.reporting env.cmdId
        | .ok () => if Engine.Expired env now then .reporting env.cmdId
            else .submitting (.ofEnvelope env)
      some { p with
        nonces := checked.1.nonces
        calls := p.calls ++ [call]
        submitted := p.submitted ++ [env.cmdId] }
  | .polled cmd => some { p with
      calls := p.calls ++ [.submitting cmd]
      submitted := p.submitted ++ [cmd.cmdId] }
  | .submit call => p.submit call
  | .reportImmediate call =>
      match p.calls[call]? with
      | some (.reporting cmdId) => some { p with
          calls := p.calls.eraseIdx call
          results := p.results ++ [cmdId] }
      | _ => none
  | .arrive =>
      if 0 < p.free then
        match p.queue with
        | [] => some { p with free := p.free - 1, idle := p.idle + 1 }
        | cmd :: rest => some ({ p with free := p.free - 1, queue := rest }.begin cmd)
      else none
  | .execute index => p.execute index
  | .timeout index =>
      (p.jobs[index]?).map fun x =>
        { p with jobs := p.jobs.set index { x with done := true } }
  | .cancelCommand cmdId => some { p with
      jobs := p.cancel cmdId
      asked := p.asked ++ p.outstanding cmdId }

/-! ## What a step can do -/

inductive Moves (p : Pool S) : Event → Pool S → Prop
  | envelope {env now nonces call} (hcall : call.cmdId = env.cmdId) :
      Moves p (.envelope env now) { p with
        nonces := nonces
        calls := p.calls ++ [call]
        submitted := p.submitted ++ [env.cmdId] }
  | polled {cmd} : Moves p (.polled cmd) { p with
      calls := p.calls ++ [.submitting cmd]
      submitted := p.submitted ++ [cmd.cmdId] }
  | refused {call cmd} (hcall : p.calls[call]? = some (.submitting cmd)) :
      Moves p (.submit call) { p with calls := p.calls.set call (.reporting cmd.cmdId) }
  | handed {call cmd} (hcall : p.calls[call]? = some (.submitting cmd)) (hqueue : p.queue = [])
      (hidle : 0 < p.idle) :
      Moves p (.submit call) { p with
        calls := p.calls.eraseIdx call
        idle := p.idle - 1
        jobs := p.jobs ++ [⟨p.started.length, cmd, .taken, false⟩]
        accepted := p.accepted ++ [cmd]
        started := p.started ++ [cmd] }
  | queued {call cmd} (hcall : p.calls[call]? = some (.submitting cmd))
      (hbusy : p.queue ≠ [] ∨ p.idle = 0) :
      Moves p (.submit call) { p with
        calls := p.calls.eraseIdx call
        queue := p.queue ++ [cmd]
        accepted := p.accepted ++ [cmd] }
  | reportImmediate {call cmdId} (hcall : p.calls[call]? = some (.reporting cmdId)) :
      Moves p (.reportImmediate call) { p with
        calls := p.calls.eraseIdx call
        results := p.results ++ [cmdId] }
  | blocks (hfree : 0 < p.free) (hqueue : p.queue = []) :
      Moves p .arrive { p with free := p.free - 1, idle := p.idle + 1 }
  | dequeues {cmd rest} (hfree : 0 < p.free) (hqueue : p.queue = cmd :: rest) :
      Moves p .arrive { p with
        free := p.free - 1
        queue := rest
        jobs := p.jobs ++ [⟨p.started.length, cmd, .taken, false⟩]
        started := p.started ++ [cmd] }
  | stores {index x} (hx : p.jobs[index]? = some x) (hphase : x.phase = .taken) :
      Moves p (.execute index) { p with
        jobs := p.jobs.set index { x with phase := .acting }
        running := p.running.insert x.cmd.cmdId x.serial }
  | ends {index x} (hx : p.jobs[index]? = some x) (hphase : x.phase = .acting) :
      Moves p (.execute index) { p with
        jobs := p.jobs.set index { x with phase := .ended } }
  | reports {index x} (hx : p.jobs[index]? = some x) (hphase : x.phase = .ended) :
      Moves p (.execute index) { p with
        jobs := p.jobs.set index { x with phase := .reported }
        results := p.results ++ [x.cmd.cmdId] }
  | closes {index x} (hx : p.jobs[index]? = some x) (hphase : x.phase = .reported) :
      Moves p (.execute index) { p with
        jobs := p.jobs.set index { x with phase := .closing, done := true } }
  | returns {index x} (hx : p.jobs[index]? = some x) (hphase : x.phase = .closing) :
      Moves p (.execute index) { p with
        jobs := p.jobs.eraseIdx index
        running := p.running.erase x.cmd.cmdId
        free := p.free + 1 }
  | timeout {index x} (hx : p.jobs[index]? = some x) :
      Moves p (.timeout index) { p with
        jobs := p.jobs.set index { x with done := true } }
  | cancelCommand {cmdId} : Moves p (.cancelCommand cmdId) { p with
      jobs := p.cancel cmdId
      asked := p.asked ++ p.outstanding cmdId }

variable {p q : Pool S} {e : Event}

theorem submit_moves {call : Nat} (h : p.submit call = some q) : Moves p (.submit call) q := by
  unfold submit at h
  split at h
  next cmd hcall =>
    split at h
    next =>
      cases h
      exact .refused hcall
    next =>
      unfold offer at h
      by_cases hidle : p.queue = [] ∧ 0 < p.idle
      · rw [if_pos hidle] at h
        cases h
        exact .handed hcall hidle.1 hidle.2
      · have hbusy : p.queue ≠ [] ∨ p.idle = 0 := by
          by_cases hqueue : p.queue = []
          · exact Or.inr (Nat.eq_zero_of_not_pos fun hpos => hidle ⟨hqueue, hpos⟩)
          · exact Or.inl hqueue
        rw [if_neg hidle] at h
        by_cases hroom : p.queue.length < p.queueSize
        · rw [if_pos hroom] at h
          cases h
          exact .queued hcall hbusy
        · rw [if_neg hroom] at h
          cases h
          exact .refused hcall
  next => cases h

theorem execute_moves {index : Nat} (h : p.execute index = some q) :
    Moves p (.execute index) q := by
  unfold execute at h
  split at h
  next => cases h
  next x hx =>
    split at h
    next hphase => cases h; exact .stores hx hphase
    next hphase => cases h; exact .ends hx hphase
    next hphase => cases h; exact .reports hx hphase
    next hphase => cases h; exact .closes hx hphase
    next hphase => cases h; exact .returns hx hphase

theorem step_moves (h : p.step e = some q) : Moves p e q := by
  cases e with
  | envelope env now =>
      cases h
      refine .envelope ?_
      split
      next => rfl
      next =>
        split
        next => rfl
        next => rfl
  | polled cmd =>
      cases h
      exact .polled
  | submit call => exact submit_moves h
  | reportImmediate call =>
      simp only [step] at h
      split at h
      next cmdId hcall =>
        cases h
        exact .reportImmediate hcall
      next => cases h
  | arrive =>
      simp only [step] at h
      split at h
      next hfree =>
        split at h
        next hqueue =>
          cases h
          exact .blocks hfree hqueue
        next cmd rest hqueue =>
          cases h
          exact .dequeues hfree hqueue
      next => cases h
  | execute index => exact execute_moves h
  | timeout index =>
      obtain ⟨x, hx, rfl⟩ := Option.map_eq_some_iff.mp h
      exact .timeout hx
  | cancelCommand cmdId =>
      cases h
      exact .cancelCommand

/-! ## The pool as an engine -/

/-- A call of `Submit` does to the engine what `Engine.submit` says. -/
theorem engine_submit {call : Nat} {cmd : Command}
    (hcall : p.calls[call]? = some (.submitting cmd)) (h : p.submit call = some q) :
    q.engine = (p.engine.submit cmd).1 := by
  cases hvalid : p.engine.validate cmd with
  | error err =>
      simp only [submit, hcall, hvalid] at h
      simp only [Engine.submit, hvalid]
      cases h
      rfl
  | ok _ =>
      simp only [submit, hcall, hvalid, offer] at h
      simp only [Engine.submit, hvalid]
      by_cases hidle : p.queue = [] ∧ 0 < p.idle
      · have hidle' : p.engine.queue = [] ∧ 0 < p.engine.idle := hidle
        rw [if_pos hidle] at h
        cases h
        simp only [if_pos hidle']
        simp [engine, begin]
      · have hidle' : ¬ (p.engine.queue = [] ∧ 0 < p.engine.idle) := hidle
        rw [if_neg hidle] at h
        simp only [if_neg hidle']
        by_cases hroom : p.queue.length < p.queueSize
        · have hroom' : p.engine.queue.length < p.engine.queueSize := hroom
          rw [if_pos hroom] at h
          cases h
          simp only [if_pos hroom']
          rfl
        · have hroom' : ¬ p.engine.queue.length < p.engine.queueSize := hroom
          rw [if_neg hroom] at h
          cases h
          simp only [if_neg hroom']
          rfl

/-- A worker that returns and comes to the channel again is one step of the engine. -/
theorem engine_finish {index : Nat} {x : Job} {r : Pool S}
    (hx : p.jobs[index]? = some x) (hphase : x.phase = .closing)
    (h : p.execute index = some q) (hr : q.step .arrive = some r) :
    r.engine = p.engine.finish index := by
  obtain ⟨hi, -⟩ := List.getElem?_eq_some_iff.mp hx
  have hi' : index < p.engine.executing.length := by
    rw [engine, List.length_map]
    exact hi
  unfold execute at h
  rw [hx] at h
  simp only [hphase] at h
  cases h
  unfold Engine.finish
  rw [if_pos hi']
  cases step_moves hr with
  | blocks _ hqueue =>
      have hempty : p.queue = [] := hqueue
      simp [engine, hempty, List.eraseIdx_map]
  | dequeues _ hqueue =>
      have hcons : p.queue = _ :: _ := hqueue
      simp [engine, hcons, List.eraseIdx_map]

/-! ## Accounting -/

def callIds (p : Pool S) : List Bytes := p.calls.flatMap fun call => [call.cmdId]

def queueIds (p : Pool S) : List Bytes := p.queue.flatMap fun cmd => [cmd.cmdId]

/-- The ids of the commands being executed: taken, and no result handed over. -/
def executing (p : Pool S) : List Bytes := p.jobs.flatMap Job.unreported

/-- Every submission is in one place, and the channel keeps the order. -/
structure Accounted (p : Pool S) : Prop where
  balance : ∀ id, p.submitted.count id =
    p.callIds.count id + p.results.count id + p.queueIds.count id + p.executing.count id
  order : p.accepted = p.started ++ p.queue

theorem executing_cancel (p : Pool S) (cmdId : Bytes) :
    (p.cancel cmdId).flatMap Job.unreported = p.executing := by
  unfold cancel
  split
  next => rfl
  next serial hserial =>
    rw [List.flatMap_map, executing]
    refine List.flatMap_congr fun x _ => ?_
    split
    next => rfl
    next => rfl

theorem count_executing_set {index : Nat} {x y : Job} (hx : p.jobs[index]? = some x)
    (hsame : y.unreported = x.unreported) (id : Bytes) :
    ((p.jobs.set index y).flatMap Job.unreported).count id =
      (p.jobs.flatMap Job.unreported).count id := by
  have hjob := Ledger.count_set hx Job.unreported id y
  rw [hsame] at hjob
  exact Nat.add_right_cancel hjob

theorem Accounted.balance_step (h : p.Accounted) (hmoves : Moves p e q) (id : Bytes) :
    q.submitted.count id =
      q.callIds.count id + q.results.count id + q.queueIds.count id + q.executing.count id := by
  have hbalance := h.balance id
  simp only [callIds, queueIds, executing] at hbalance ⊢
  cases hmoves with
  | envelope hcall =>
      simp only [List.flatMap_append, List.flatMap_singleton, List.count_append, hcall]
      omega
  | polled =>
      simp only [List.flatMap_append, List.flatMap_singleton, List.count_append,
        Call.cmdId_submitting]
      omega
  | @refused _ cmd hcall =>
      -- the same id, in another stage
      have hcalls := Ledger.count_set hcall (fun c => [c.cmdId]) id (.reporting cmd.cmdId)
      simp only [Call.cmdId_submitting, Call.cmdId_reporting] at hcalls ⊢
      omega
  | handed hcall =>
      have hcalls := Ledger.count_eraseIdx hcall (fun c => [c.cmdId]) id
      simp only [List.flatMap_append, List.flatMap_singleton, List.count_append,
        Call.cmdId_submitting, Job.unreported] at hcalls ⊢
      omega
  | queued hcall =>
      have hcalls := Ledger.count_eraseIdx hcall (fun c => [c.cmdId]) id
      simp only [List.flatMap_append, List.flatMap_singleton, List.count_append,
        Call.cmdId_submitting] at hcalls ⊢
      omega
  | reportImmediate hcall =>
      have hcalls := Ledger.count_eraseIdx hcall (fun c => [c.cmdId]) id
      simp only [List.count_append, Call.cmdId_reporting] at hcalls ⊢
      omega
  | blocks => exact hbalance
  | dequeues _ hqueue =>
      rw [hqueue] at hbalance
      simp only [List.flatMap_append, List.flatMap_cons, List.flatMap_nil, List.append_nil,
        List.count_append, Job.unreported] at hbalance ⊢
      omega
  | @stores _ x hx hphase =>
      rw [count_executing_set hx (by simp [Job.unreported, hphase])]
      exact hbalance
  | @ends _ x hx hphase =>
      rw [count_executing_set hx (by simp [Job.unreported, hphase])]
      exact hbalance
  | @reports _ x hx hphase =>
      have hjob := Ledger.count_set hx Job.unreported id { x with phase := .reported }
      simp only [Job.unreported, hphase, List.count_nil, List.count_append] at hjob ⊢
      omega
  | @closes _ x hx hphase =>
      rw [count_executing_set hx (by simp [Job.unreported, hphase])]
      exact hbalance
  | @returns _ x hx hphase =>
      have hjob := Ledger.count_eraseIdx hx Job.unreported id
      simp only [Job.unreported, hphase, List.count_nil] at hjob ⊢
      omega
  | @timeout _ x hx =>
      rw [count_executing_set (y := { x with done := true }) hx rfl]
      exact hbalance
  | cancelCommand =>
      simp only [executing_cancel]
      exact hbalance

theorem Accounted.order_step (h : p.Accounted) (hmoves : Moves p e q) :
    q.accepted = q.started ++ q.queue := by
  have horder := h.order
  cases hmoves with
  | handed _ hqueue =>
      simp only [horder, hqueue, List.append_nil]
  | queued => simp only [horder, List.append_assoc]
  | dequeues _ hqueue => simp only [horder, hqueue, List.append_assoc, List.singleton_append]
  | _ => exact horder

theorem Accounted.step (h : p.Accounted) (hmoves : Moves p e q) : q.Accounted :=
  ⟨h.balance_step hmoves, h.order_step hmoves⟩

/-! ## No submission is left behind -/

def Event.internal : Event → Bool
  | .submit _ | .reportImmediate _ | .arrive | .execute _ => true
  | .envelope .. | .polled _ | .timeout _ | .cancelCommand _ => false

/-- The number of workers stays the same, and none of them is blocked while a command
waits. -/
structure Staffed (p : Pool S) (workers : Nat) : Prop where
  total : p.free + p.idle + p.jobs.length = workers
  waiting : p.queue ≠ [] → p.idle = 0

theorem length_cancel (p : Pool S) (cmdId : Bytes) :
    (p.cancel cmdId).length = p.jobs.length := by
  unfold cancel
  split
  next => rfl
  next => exact List.length_map _

theorem length_eraseIdx_add {index : Nat} {x : Job} (hx : p.jobs[index]? = some x) :
    (p.jobs.eraseIdx index).length + 1 = p.jobs.length := by
  obtain ⟨hi, -⟩ := List.getElem?_eq_some_iff.mp hx
  rw [List.length_eraseIdx_of_lt hi]
  omega

theorem Staffed.step {workers : Nat} (h : p.Staffed workers) (hmoves : Moves p e q) :
    q.Staffed workers := by
  have htotal := h.total
  have hwaiting := h.waiting
  cases hmoves with
  | handed _ hqueue hidle =>
      refine ⟨?_, fun hne => absurd hqueue hne⟩
      simp only [List.length_append, List.length_singleton]
      omega
  | queued _ hbusy =>
      refine ⟨htotal, fun _ => ?_⟩
      rcases hbusy with hne | hidle
      · exact hwaiting hne
      · exact hidle
  | blocks hfree hqueue =>
      refine ⟨?_, fun hne => absurd hqueue hne⟩
      dsimp only
      omega
  | dequeues hfree hqueue =>
      have hidle : p.idle = 0 := hwaiting (by rw [hqueue]; exact List.cons_ne_nil _ _)
      refine ⟨?_, fun _ => hidle⟩
      simp only [List.length_append, List.length_singleton]
      omega
  | returns hx =>
      have hlength := length_eraseIdx_add hx
      refine ⟨?_, hwaiting⟩
      dsimp only
      omega
  | stores | ends | reports | closes | timeout =>
      refine ⟨?_, hwaiting⟩
      rw [List.length_set]
      exact htotal
  | cancelCommand =>
      refine ⟨?_, hwaiting⟩
      rw [length_cancel]
      exact htotal
  | _ => exact ⟨htotal, hwaiting⟩

/-- How many steps a call may still take, those of its command included. -/
def callWeight : Call → Nat
  | .submitting _ => 7
  | .reporting _ => 1

def jobWeight (x : Job) : Nat :=
  match x.phase with
  | .taken => 6
  | .acting => 5
  | .ended => 4
  | .reported => 3
  | .closing => 2

/-- A bound on the steps until everything is answered and every worker blocked. -/
def weight (p : Pool S) : Nat :=
  (p.calls.map callWeight).sum + 6 * p.queue.length + p.free +
    (p.jobs.map jobWeight).sum

theorem weight_lt (hmoves : Moves p e q) (hinternal : e.internal = true) : q.weight < p.weight := by
  unfold weight
  cases hmoves with
  | envelope | polled | timeout | cancelCommand => cases hinternal
  | @refused _ cmd hcall =>
      have hcalls := Ledger.sum_set hcall callWeight (.reporting cmd.cmdId)
      simp only [callWeight] at hcalls ⊢
      omega
  | handed hcall =>
      have hcalls := Ledger.sum_eraseIdx hcall callWeight
      simp only [callWeight, List.map_append, List.map_cons, List.map_nil, List.sum_append,
        List.sum_singleton, jobWeight] at hcalls ⊢
      omega
  | queued hcall =>
      have hcalls := Ledger.sum_eraseIdx hcall callWeight
      simp only [callWeight, List.length_append, List.length_singleton] at hcalls ⊢
      omega
  | reportImmediate hcall =>
      have hcalls := Ledger.sum_eraseIdx hcall callWeight
      simp only [callWeight] at hcalls ⊢
      omega
  | blocks hfree =>
      dsimp only
      omega
  | dequeues hfree hqueue =>
      simp only [hqueue, List.length_cons, List.map_append, List.map_cons, List.map_nil,
        List.sum_append, List.sum_singleton, jobWeight]
      omega
  | @stores _ x hx hphase =>
      have hjob := Ledger.sum_set hx jobWeight { x with phase := .acting }
      simp only [jobWeight, hphase] at hjob ⊢
      omega
  | @ends _ x hx hphase =>
      have hjob := Ledger.sum_set hx jobWeight { x with phase := .ended }
      simp only [jobWeight, hphase] at hjob ⊢
      omega
  | @reports _ x hx hphase =>
      have hjob := Ledger.sum_set hx jobWeight { x with phase := .reported }
      simp only [jobWeight, hphase] at hjob ⊢
      omega
  | @closes _ x hx hphase =>
      have hjob := Ledger.sum_set hx jobWeight { x with phase := .closing, done := true }
      simp only [jobWeight, hphase] at hjob ⊢
      omega
  | @returns _ x hx hphase =>
      have hjob := Ledger.sum_eraseIdx hx jobWeight
      simp only [jobWeight, hphase] at hjob ⊢
      omega

structure Drained (p : Pool S) : Prop where
  calls : p.calls = []
  queue : p.queue = []
  jobs : p.jobs = []

theorem submit_isSome {call : Nat} {cmd : Command}
    (hcall : p.calls[call]? = some (.submitting cmd)) : ∃ q, p.submit call = some q := by
  unfold submit
  rw [hcall]
  dsimp only
  split
  next => exact ⟨_, rfl⟩
  next =>
    split
    next => exact ⟨_, rfl⟩
    next => exact ⟨_, rfl⟩

theorem execute_isSome {index : Nat} {x : Job} (hx : p.jobs[index]? = some x) :
    ∃ q, p.execute index = some q := by
  unfold execute
  rw [hx]
  dsimp only
  split
  next => exact ⟨_, rfl⟩
  next => exact ⟨_, rfl⟩
  next => exact ⟨_, rfl⟩
  next => exact ⟨_, rfl⟩
  next => exact ⟨_, rfl⟩

/-- Somebody can go on as long as something is under way. -/
theorem Staffed.progress {workers : Nat} (h : p.Staffed workers) (hworkers : 0 < workers)
    (hopen : ¬ p.Drained) : ∃ e q, e.internal = true ∧ p.step e = some q := by
  cases hcalls : p.calls with
  | cons call rest =>
      have hcall : p.calls[0]? = some call := by rw [hcalls]; rfl
      cases call with
      | submitting cmd =>
          obtain ⟨q, hq⟩ := submit_isSome hcall
          exact ⟨.submit 0, q, rfl, hq⟩
      | reporting cmdId =>
          exact ⟨.reportImmediate 0, { p with
            calls := p.calls.eraseIdx 0
            results := p.results ++ [cmdId] }, rfl, by simp only [Pool.step, hcall]⟩
  | nil =>
      cases hjobs : p.jobs with
      | cons x rest =>
          have hx : p.jobs[0]? = some x := by rw [hjobs]; rfl
          obtain ⟨q, hq⟩ := execute_isSome hx
          exact ⟨.execute 0, q, rfl, hq⟩
      | nil =>
          have hqueue : p.queue ≠ [] := fun hempty => hopen ⟨hcalls, hempty, hjobs⟩
          -- nobody is blocked and nobody is executing
          have htotal := h.total
          rw [h.waiting hqueue, hjobs, List.length_nil] at htotal
          have hfree : 0 < p.free := by omega
          obtain ⟨cmd, rest, hcons⟩ := List.exists_cons_of_ne_nil hqueue
          exact ⟨.arrive, { p with free := p.free - 1, queue := rest }.begin cmd, rfl,
            by simp only [Pool.step, if_pos hfree, hcons]⟩

abbrev Drains (p q : Pool S) : Prop := Reaches (Fires step fun _ e => e.internal = true) p q

theorem Staffed.drains {workers : Nat} (h : p.Staffed workers) (hworkers : 0 < workers) :
    ∃ q, Drains p q ∧ q.Drained := by
  -- every step makes the pool lighter
  induction hw : p.weight using Nat.strong_induction_on generalizing p with
  | _ w ih =>
      by_cases hopen : p.Drained
      · exact ⟨p, .refl, hopen⟩
      · obtain ⟨e, q, hinternal, hq⟩ := h.progress hworkers hopen
        have hmoves := step_moves hq
        have hlight : q.weight < w := hw ▸ weight_lt hmoves hinternal
        obtain ⟨r, hdrains, hdrained⟩ := ih q.weight hlight (h.step hmoves) rfl
        exact ⟨r, .head ⟨e, hinternal, hq⟩ hdrains, hdrained⟩

theorem submitted_of_internal (hmoves : Moves p e q) (hinternal : e.internal = true) :
    q.submitted = p.submitted := by
  cases hmoves with
  | envelope | polled => cases hinternal
  | _ => rfl

theorem Accounted.perm (h : p.Accounted) :
    p.submitted.Perm (p.callIds ++ (p.results ++ p.queueIds ++ p.executing)) := by
  rw [List.perm_iff_count]
  intro id
  have hbalance := h.balance id
  simp only [List.count_append]
  omega

theorem accounted_start (conf : AgentConf) (verifyKey : Option S.PublicKey) :
    (start conf verifyKey).Accounted := ⟨fun _ => rfl, rfl⟩

def workers (conf : AgentConf) : Nat := if conf.workers ≤ 0 then 4 else conf.workers.toNat

theorem workers_pos (conf : AgentConf) : 0 < workers conf := by
  unfold workers
  split
  next => exact Nat.succ_pos 3
  next => omega

theorem staffed_start (conf : AgentConf) (verifyKey : Option S.PublicKey) :
    (start conf verifyKey).Staffed (workers conf) := ⟨rfl, fun hne => absurd rfl hne⟩

/-- In every state that an interleaving of submissions, workers, cancels and timeouts
reaches, a submission is either still being made or has a result, waits in the channel or
is executed, each counted once, so that between calls only the last three are left;
commands are taken in the order in which they were accepted; and if nothing more is
submitted, the workers get to a state in which the results are those of the submissions. -/
theorem runs_accounted (conf : AgentConf) (verifyKey : Option S.PublicKey)
    (hrun : Reaches (Fires step fun _ _ => True) (start conf verifyKey) p) :
    p.submitted.Perm (p.callIds ++ (p.results ++ p.queueIds ++ p.executing)) ∧
      (p.calls = [] → p.submitted.Perm (p.results ++ p.queueIds ++ p.executing)) ∧
      p.accepted = p.started ++ p.queue ∧
      ∃ q, Drains p q ∧ q.Drained ∧ q.results.Perm p.submitted := by
  have hinv : p.Accounted ∧ p.Staffed (workers conf) := by
    refine invariant (fun p => p.Accounted ∧ p.Staffed (workers conf)) ?_
      ⟨accounted_start conf verifyKey, staffed_start conf verifyKey⟩ hrun
    rintro p q ⟨haccounted, hstaffed⟩ ⟨e, -, hq⟩
    exact ⟨haccounted.step (step_moves hq), hstaffed.step (step_moves hq)⟩
  have hperm := hinv.1.perm
  refine ⟨hperm, fun hcalls => ?_, hinv.1.order, ?_⟩
  · rw [callIds, hcalls] at hperm
    exact hperm
  obtain ⟨q, hdrains, hdrained⟩ := hinv.2.drains (workers_pos conf)
  refine ⟨q, hdrains, hdrained, ?_⟩
  have hinv' : q.Accounted ∧ q.submitted = p.submitted := by
    refine invariant (fun q => q.Accounted ∧ q.submitted = p.submitted) ?_ ⟨hinv.1, rfl⟩ hdrains
    rintro q r ⟨haccounted, hsame⟩ ⟨e, hinternal, hr⟩
    exact ⟨haccounted.step (step_moves hr),
      (submitted_of_internal (step_moves hr) hinternal).trans hsame⟩
  have hperm' := hinv'.1.perm
  simp only [callIds, queueIds, executing, hdrained.calls, hdrained.queue, hdrained.jobs,
    List.flatMap_nil, List.nil_append, List.append_nil] at hperm'
  rw [← hinv'.2]
  exact hperm'.symm

def smallConf : AgentConf := ⟨.http, [1], true, 1, 1, false, []⟩

theorem reaches_of_events (may : Pool S → Event → Prop) (conf : AgentConf)
    (verifyKey : Option S.PublicKey) (es : List Event) (P : Pool S → Prop) [DecidablePred P]
    (hmay : Permitted step may (start conf verifyKey) es)
    (h : (play step (start conf verifyKey) es).any P = true) :
    ∃ p, Reaches (Fires step may) (start conf verifyKey) p ∧ P p :=
  reaches_of_any step es P hmay h

/-- One command is executed, an unknown one is rejected meanwhile, and a third one waits. -/
theorem runs_accounted_busy :
    ∃ p : Pool tailScheme, Reaches (Fires step fun _ _ => True) (start smallConf none) p ∧
      p.submitted = [[], [2], [3]] ∧ p.results = [[2]] ∧ p.executing = [[]] ∧
      p.queueIds = [[3]] ∧
      p.submitted.Perm (p.callIds ++ (p.results ++ p.queueIds ++ p.executing)) := by
  obtain ⟨p, hrun, hp⟩ := reaches_of_events (fun _ _ => True) smallConf none
    [.polled unsignedCommand, .submit 0, .arrive, .execute 0, .polled ⟨[2], [], ∅, 0⟩, .submit 0,
      .reportImmediate 0, .polled { unsignedCommand with cmdId := [3] }, .submit 0]
    (fun p : Pool tailScheme => p.submitted = [[], [2], [3]] ∧ p.results = [[2]] ∧
      p.executing = [[]] ∧ p.queueIds = [[3]])
    (permitted_of_forall (fun _ _ _ => trivial) _) (by decide +kernel)
  exact ⟨p, hrun, hp.1, hp.2.1, hp.2.2.1, hp.2.2.2, (runs_accounted smallConf none hrun).1⟩

end Pool

end TomAgent.Executor
