import Mathlib.Data.List.Induction
import TomAgent.Core.Batches
import TomAgent.Platform.Store

/-!
# Ticks of the outbox dispatcher

`FetchOutbox` locks the first rows that are due, by `event_id`.  The dispatcher takes them up one
by one: a row that was dispatched is published, any other is unlocked and due again at the next
tick.  Whether a row can be dispatched is given from outside, for instance by the mailbox of its
asset.
-/

namespace TomAgent.Platform

open Batches

structure OutboxRow where
  published : Bool
  availableAt : Int
  lockedUntil : Option Int
  attempts : Nat
  lastError : Option String
deriving Repr, DecidableEq

def OutboxRow.Due (row : OutboxRow) (now : Int) : Prop :=
  row.published = false ∧ row.availableAt ≤ now ∧ ∀ t ∈ row.lockedUntil, t < now

instance (row : OutboxRow) (now : Int) : Decidable (row.Due now) :=
  inferInstanceAs (Decidable (_ ∧ _ ∧ ∀ t ∈ row.lockedUntil, t < now))

structure DispatchError where
  text : String
  fits : (varchar 256 text).isSome = true

structure OutboxTable where
  /-- The values of `event_id`, in order. -/
  ids : List Nat
  ascending : ids.Pairwise (· < ·)
  row : Nat → OutboxRow

namespace OutboxTable

variable (o : OutboxTable)

def due (now : Int) : List Nat := o.ids.filter fun i => (o.row i).Due now

def batch (now : Int) (limit : Nat) : List Nat := (o.due now).take limit

def fetchOutbox (now : Int) (limit : Nat) : OutboxTable :=
  { o with row := fun i =>
      if i ∈ o.batch now limit then
        { o.row i with lockedUntil := some (now + 30000), attempts := (o.row i).attempts + 1 }
      else o.row i }

def setRow (i : Nat) (row : OutboxRow) : OutboxTable :=
  { o with row := Function.update o.row i row }

def markPublished (i : Nat) : OutboxTable := o.setRow i { o.row i with published := true }

def markOutboxError (i : Nat) (errMsg : String) : Except StoreError OutboxTable :=
  match varchar 256 errMsg with
  | none => .error .invalidText
  | some v => .ok (o.setRow i { o.row i with lockedUntil := none, lastError := some v })

/-- The dispatcher takes up a row; it does not look whether `MarkOutboxError` fails. -/
def settle (dispatch : Nat → Option DispatchError) (o : OutboxTable) (i : Nat) : OutboxTable :=
  match dispatch i with
  | none => o.markPublished i
  | some err =>
      match o.markOutboxError i err.text with
      | .ok o' => o'
      | .error _ => o

def batchLimit : Nat := 32

/-- One turn of the loop in `outboxDispatcher`.  RETURNING gives the rows in any order. -/
def Tick (dispatch : Nat → Option DispatchError) (o : OutboxTable) (now : Int)
    (o' : OutboxTable) : Prop :=
  ∃ order : List Nat, order.Perm (o.batch now batchLimit) ∧
    o' = order.foldl (settle dispatch) (o.fetchOutbox now batchLimit)

inductive Ticks (dispatch : Nat → Option DispatchError) (o : OutboxTable) :
    List Int → OutboxTable → Prop
  | none : Ticks dispatch o [] o
  | next {times : List Int} {now : Int} {o₁ o₂ : OutboxTable} (hbefore : Ticks dispatch o times o₁)
      (htick : Tick dispatch o₁ now o₂) : Ticks dispatch o (times ++ [now]) o₂

def Attempted (o o' : OutboxTable) (i : Nat) : Prop := (o.row i).attempts < (o'.row i).attempts

instance (o o' : OutboxTable) (i : Nat) : Decidable (o.Attempted o' i) :=
  inferInstanceAs (Decidable (_ < _))

/-- The ticks are not before `start`, and no row becomes due after it. -/
def NoArrivals (start : Int) (times : List Int) : Prop :=
  ∀ now ∈ times, start ≤ now ∧ ∀ i ∈ o.ids, (o.row i).Due now → (o.row i).Due start

instance (start : Int) (times : List Int) : Decidable (o.NoArrivals start times) :=
  inferInstanceAs (Decidable (∀ now ∈ times, _))

def failing (dispatch : Nat → Option DispatchError) (i : Nat) : Bool := (dispatch i).isSome

/-- As many ticks as a backlog of this length needs if nothing is fetched twice. -/
def ticksFor (backlog : Nat) : Nat := (backlog + 31) / 32

/-- Rows that failed are due again and take places in the batches that follow; no more than
these batches have to spare. -/
def FailuresFit (dispatch : Nat → Option DispatchError) (backlog : List Nat) : Prop :=
  repeats batchLimit (failing dispatch) backlog (ticksFor backlog.length) ≤
    batchLimit * ticksFor backlog.length - backlog.length

instance (dispatch : Nat → Option DispatchError) (backlog : List Nat) :
    Decidable (FailuresFit dispatch backlog) :=
  inferInstanceAs (Decidable (_ ≤ _))

/-! ## One tick -/

variable {o} {o' o₂ : OutboxTable} {dispatch : Nat → Option DispatchError} {start now : Int}
  {i r : Nat}

theorem nodup_due (o : OutboxTable) (now : Int) : (o.due now).Nodup :=
  (o.ascending.imp Nat.ne_of_lt).filter _

theorem nodup_batch (o : OutboxTable) (now : Int) (limit : Nat) : (o.batch now limit).Nodup :=
  (o.nodup_due now).sublist (List.take_sublist _ _)

def settledRow (outcome : Option DispatchError) (row : OutboxRow) : OutboxRow :=
  match outcome with
  | none => { row with published := true }
  | some err => { row with lockedUntil := none, lastError := varchar 256 err.text }

theorem settle_eq (o : OutboxTable) (i : Nat) :
    settle dispatch o i = o.setRow i (settledRow (dispatch i) (o.row i)) := by
  unfold settle
  cases hi : dispatch i with
  | none => rfl
  | some err =>
      obtain ⟨v, hv⟩ := Option.isSome_iff_exists.mp err.fits
      simp only [markOutboxError, settledRow, hv]

/-- Each row is taken up once, so the order does not matter. -/
theorem foldl_settle {order : List Nat} (hnodup : order.Nodup) (o : OutboxTable) :
    (order.foldl (settle dispatch) o).ids = o.ids ∧
      ∀ j, (order.foldl (settle dispatch) o).row j =
        if j ∈ order then settledRow (dispatch j) (o.row j) else o.row j := by
  induction order generalizing o with
  | nil => exact ⟨rfl, fun _ => rfl⟩
  | cons i rest ih =>
      obtain ⟨hi, hrest⟩ := List.nodup_cons.mp hnodup
      obtain ⟨hids, hrow⟩ := ih hrest (settle dispatch o i)
      rw [settle_eq] at hids hrow
      rw [List.foldl_cons, settle_eq]
      refine ⟨hids, fun j => ?_⟩
      rw [hrow]
      by_cases hj : j = i
      · subst hj
        rw [if_neg hi, if_pos List.mem_cons_self]
        exact Function.update_self _ _ _
      · have hother : (o.setRow i (settledRow (dispatch i) (o.row i))).row j = o.row j :=
          Function.update_of_ne hj _ _
        simp only [List.mem_cons, hj, false_or, hother]

def tickedRow (outcome : Option DispatchError) (now : Int) (row : OutboxRow) : OutboxRow :=
  settledRow outcome { row with lockedUntil := some (now + 30000), attempts := row.attempts + 1 }

theorem tickedRow_availableAt (outcome : Option DispatchError) (now : Int) (row : OutboxRow) :
    (tickedRow outcome now row).availableAt = row.availableAt := by
  cases outcome <;> rfl

theorem tickedRow_attempts (outcome : Option DispatchError) (now : Int) (row : OutboxRow) :
    (tickedRow outcome now row).attempts = row.attempts + 1 := by
  cases outcome <;> rfl

theorem Tick.effect (h : Tick dispatch o now o') :
    o'.ids = o.ids ∧ ∀ j, o'.row j =
      if j ∈ o.batch now batchLimit then tickedRow (dispatch j) now (o.row j) else o.row j := by
  obtain ⟨order, hperm, rfl⟩ := h
  have hnodup : order.Nodup := hperm.nodup_iff.mpr (o.nodup_batch now batchLimit)
  obtain ⟨hids, hrow⟩ := foldl_settle hnodup (o.fetchOutbox now batchLimit)
  refine ⟨hids, fun j => ?_⟩
  rw [hrow]
  simp only [hperm.mem_iff, fetchOutbox]
  by_cases hj : j ∈ o.batch now batchLimit
  · simp only [hj, if_true, tickedRow]
  · simp only [hj, if_false]

/-! ## How far the ticks have come -/

/-- The first `r` rows of the backlog have been tried: those that were dispatched are published,
the others are due again.  No other row has changed. -/
structure Progress (dispatch : Nat → Option DispatchError) (o : OutboxTable) (backlog : List Nat)
    (r : Nat) (o' : OutboxTable) : Prop where
  ids : o'.ids = o.ids
  available : ∀ i, (o'.row i).availableAt = (o.row i).availableAt
  untried : ∀ i, i ∉ backlog.take r → o'.row i = o.row i
  published : ∀ i ∈ backlog.take r, dispatch i = none → (o'.row i).published = true
  failed : ∀ i ∈ backlog.take r, dispatch i ≠ none →
    (o'.row i).published = false ∧ (o'.row i).lockedUntil = none
  attempted : ∀ i ∈ backlog.take r, o.Attempted o' i

theorem Progress.refl (backlog : List Nat) : Progress dispatch o backlog 0 o := by
  constructor <;> simp

theorem Progress.attempts_le {backlog : List Nat} (h : Progress dispatch o backlog r o') (i : Nat) :
    (o.row i).attempts ≤ (o'.row i).attempts := by
  by_cases hi : i ∈ backlog.take r
  · exact Nat.le_of_lt (h.attempted i hi)
  · rw [h.untried i hi]

theorem Progress.due_iff (h : Progress dispatch o (o.due start) r o') (hstart : start ≤ now)
    (hquiet : ∀ i ∈ o.ids, (o.row i).Due now → (o.row i).Due start) (hi : i ∈ o.ids) :
    (o'.row i).Due now ↔
      (o.row i).Due start ∧ (i ∈ (o.due start).take r → dispatch i ≠ none) := by
  by_cases htried : i ∈ (o.due start).take r
  · have hdue : (o.row i).Due start := by
      simpa using (List.mem_filter.mp (List.mem_of_mem_take htried)).2
    by_cases hok : dispatch i = none
    · have hpublished := h.published i htried hok
      simp [OutboxRow.Due, hpublished, htried, hok]
    · obtain ⟨hopen, hunlocked⟩ := h.failed i htried hok
      have hnow : (o'.row i).availableAt ≤ now := by
        rw [h.available i]
        exact hdue.2.1.trans hstart
      have hagain : (o'.row i).Due now := ⟨hopen, hnow, by simp [hunlocked]⟩
      exact ⟨fun _ => ⟨hdue, fun _ => hok⟩, fun _ => hagain⟩
  · rw [h.untried i htried]
    constructor
    · intro hdue
      exact ⟨hquiet i hi hdue, fun hmem => absurd hmem htried⟩
    · intro hdue
      obtain ⟨hopen, havailable, hlock⟩ := hdue.1
      exact ⟨hopen, havailable.trans hstart, fun t ht => (hlock t ht).trans_le hstart⟩

/-- At a later tick the rows that failed are in line before those not tried yet. -/
theorem Progress.due_eq (h : Progress dispatch o (o.due start) r o') (hstart : start ≤ now)
    (hquiet : ∀ i ∈ o.ids, (o.row i).Due now → (o.row i).Due start) :
    o'.due now = line (failing dispatch) (o.due start) r := by
  have hfilter : o'.due now = (o.due start).filter
      fun i => i ∈ (o.due start).take r → dispatch i ≠ none := by
    rw [due, due, h.ids, List.filter_filter]
    apply List.filter_congr
    intro i hi
    rw [← Bool.decide_and, decide_eq_decide, h.due_iff hstart hquiet hi]
    exact and_comm
  rw [hfilter, line]
  conv_lhs => rw [← List.take_append_drop r (o.due start)]
  rw [List.filter_append]
  congr 1
  · apply List.filter_congr
    intro i hi
    rw [List.take_append_drop]
    rw [Bool.eq_iff_iff]
    simp [hi, failing, Option.isSome_iff_ne_none]
  · apply List.filter_eq_self.mpr
    intro i hi
    rw [List.take_append_drop]
    have hnew : i ∉ (o.due start).take r := fun hmem =>
      List.disjoint_take_drop (o.nodup_due start) (Nat.le_refl r) hmem hi
    simp [hnew]

/-- A tick goes on to the rows for which the failed ones leave room. -/
theorem Progress.tick (h : Progress dispatch o (o.due start) r o') (hstart : start ≤ now)
    (hquiet : ∀ i ∈ o.ids, (o.row i).Due now → (o.row i).Due start)
    (htick : Tick dispatch o' now o₂) :
    Progress dispatch o (o.due start)
      (r + (batchLimit - returning (failing dispatch) (o.due start) r)) o₂ := by
  obtain ⟨hids, hrow⟩ := htick.effect
  have hopen : ∀ i ∈ o'.batch now batchLimit, (o'.row i).published = false := by
    intro i hi
    have hdue : (o'.row i).Due now := by
      simpa using (List.mem_filter.mp (List.mem_of_mem_take hi)).2
    exact hdue.1
  have hbatch : o'.batch now batchLimit =
      (line (failing dispatch) (o.due start) r).take batchLimit := by
    rw [batch, h.due_eq hstart hquiet]
  -- a tried row is in this batch, or was tried before and is left alone
  have hcases : ∀ i ∈ (o.due start).take
      (r + (batchLimit - returning (failing dispatch) (o.due start) r)),
      (i ∈ o'.batch now batchLimit ∧ o₂.row i = tickedRow (dispatch i) now (o'.row i)) ∨
        (i ∈ (o.due start).take r ∧ o₂.row i = o'.row i) := by
    intro i hi
    by_cases hmem : i ∈ o'.batch now batchLimit
    · exact .inl ⟨hmem, by rw [hrow, if_pos hmem]⟩
    · refine .inr ⟨?_, by rw [hrow, if_neg hmem]⟩
      by_contra hnew
      rw [hbatch] at hmem
      exact hmem (mem_take_line_of_new hi hnew)
  constructor
  case ids => exact hids.trans h.ids
  case available =>
    intro i
    rw [hrow, ← h.available i]
    split
    next => exact tickedRow_availableAt _ _ _
    next => rfl
  case untried =>
    intro i hi
    have hmem : i ∉ o'.batch now batchLimit := by
      rw [hbatch]
      exact fun hmem => hi (mem_take_line hmem)
    rw [hrow, if_neg hmem]
    apply h.untried
    intro hold
    exact hi ((List.take_sublist_take_left (Nat.le_add_right r _)).subset hold)
  case published =>
    intro i hi hok
    cases hcases i hi with
    | inl hnow => rw [hnow.2, hok]; rfl
    | inr hold => rw [hold.2]; exact h.published i hold.1 hok
  case failed =>
    intro i hi hfail
    cases hcases i hi with
    | inl hnow =>
        obtain ⟨err, herr⟩ := Option.ne_none_iff_exists'.mp hfail
        rw [hnow.2, herr]
        exact ⟨hopen i hnow.1, rfl⟩
    | inr hold => rw [hold.2]; exact h.failed i hold.1 hfail
  case attempted =>
    intro i hi
    unfold Attempted
    cases hcases i hi with
    | inl hnow =>
        have hmore : (o₂.row i).attempts = (o'.row i).attempts + 1 := by
          rw [hnow.2, tickedRow_attempts]
        have hle := h.attempts_le i
        omega
    | inr hold => rw [hold.2]; exact h.attempted i hold.1

theorem Ticks.progress {times : List Int} (h : Ticks dispatch o times o')
    (hquiet : o.NoArrivals start times) :
    Progress dispatch o (o.due start)
      (reach batchLimit (failing dispatch) (o.due start) times.length) o' := by
  induction h with
  | none => exact .refl _
  | next hbefore htick ih =>
      rename_i times now _ _
      have hpast : o.NoArrivals start times := fun t ht => hquiet t (List.mem_append_left _ ht)
      obtain ⟨hstart, hnow⟩ := hquiet now (List.mem_append_right _ List.mem_cons_self)
      rw [List.length_append]
      exact (ih hpast).tick hstart hnow htick

/-- Every row of a backlog is attempted in the ticks its length calls for iff the places taken
by rows that failed before are places to spare. -/
theorem backlog_attempted_iff {times : List Int} (h : Ticks dispatch o times o')
    (hquiet : o.NoArrivals start times) (hticks : times.length = ticksFor (o.due start).length) :
    (∀ i ∈ o.due start, o.Attempted o' i) ↔ FailuresFit dispatch (o.due start) := by
  have hprogress := h.progress hquiet
  have htried : ∀ i, o.Attempted o' i ↔ i ∈ (o.due start).take
      (reach batchLimit (failing dispatch) (o.due start) times.length) := by
    intro i
    refine ⟨fun hi => ?_, hprogress.attempted i⟩
    by_contra hnew
    rw [Attempted, hprogress.untried i hnew] at hi
    exact Nat.lt_irrefl _ hi
  have henough : (o.due start).length ≤ batchLimit * ticksFor (o.due start).length := by
    unfold batchLimit ticksFor
    omega
  calc (∀ i ∈ o.due start, o.Attempted o' i)
      ↔ ∀ i ∈ o.due start, i ∈ (o.due start).take
          (reach batchLimit (failing dispatch) (o.due start) times.length) := by
        simp only [htried]
    _ ↔ (o.due start).length ≤
          reach batchLimit (failing dispatch) (o.due start) times.length :=
        forall_mem_take_iff (o.nodup_due start) _
    _ ↔ FailuresFit dispatch (o.due start) := by
        rw [hticks]
        exact le_reach_iff henough

/-! ## A full mailbox -/

def tick (dispatch : Nat → Option DispatchError) (o : OutboxTable) (now : Int) : OutboxTable :=
  (o.batch now batchLimit).foldl (settle dispatch) (o.fetchOutbox now batchLimit)

theorem ticks_foldl (times : List Int) :
    Ticks dispatch o times (times.foldl (tick dispatch) o) := by
  induction times using List.reverseRecOn with
  | nil => exact .none
  | append_singleton times now ih =>
      rw [List.foldl_append]
      exact ih.next ⟨_, .refl _, rfl⟩

def fresh (count : Nat) : OutboxTable where
  ids := List.range count
  ascending := List.pairwise_lt_range
  row _ := ⟨false, 0, none, 0, none⟩

def mailboxFull (stuck : Nat → Bool) (i : Nat) : Option DispatchError :=
  if stuck i then some ⟨"mailbox full", by decide +kernel⟩ else none

/-- Forty rows are two batches; three rows of the first one fail and are in the second again. -/
theorem backlog_attempted_two_batches :
    ticksFor ((fresh 40).due 0).length = 2 ∧
      FailuresFit (mailboxFull (· ∈ [1, 5, 9])) ((fresh 40).due 0) ∧
      ∀ i ∈ (fresh 40).due 0, (fresh 40).Attempted
        ([0, 300].foldl (tick (mailboxFull (· ∈ [1, 5, 9]))) (fresh 40)) i := by
  have hfit : FailuresFit (mailboxFull (· ∈ [1, 5, 9])) ((fresh 40).due 0) := by decide +kernel
  exact ⟨by decide +kernel, hfit, (backlog_attempted_iff (ticks_foldl [0, 300])
    (by decide +kernel) (by decide +kernel)).mpr hfit⟩

/-- Thirty-two rows that fail at each tick keep the one behind them from being fetched. -/
theorem backlog_starves :
    ∃ o' i, Ticks (mailboxFull (· < 32)) (fresh 33) [0, 300] o' ∧
      (fresh 33).NoArrivals 0 [0, 300] ∧ ticksFor ((fresh 33).due 0).length = 2 ∧
      i ∈ (fresh 33).due 0 ∧ ¬ (fresh 33).Attempted o' i :=
  ⟨_, 32, ticks_foldl [0, 300], by decide +kernel, by decide +kernel, by decide +kernel,
    by decide +kernel⟩

end OutboxTable

end TomAgent.Platform
