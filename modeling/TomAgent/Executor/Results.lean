import TomAgent.Core.JsonBytes
import TomAgent.Executor.Chunking
import TomAgent.Reporter.Items
import TomAgent.Wal.Image

/-!
# Results on their way to the log

`execute` takes what the two buffers kept, decides how the command ended, and hands
the result to the reporter, which writes it as JSON inside the JSON of an item.  The
log takes entries of at most 4 MiB.  The buffers bound the bytes of the output, and
JSON can need six times as many.
-/

namespace TomAgent.Executor

open JsonText Wal
open Reporter (ReliableItem label marshalItem itemText)

inductive ResultStatus where
  | succeeded
  | failed
  | timeoutKilled
  | cancelled
deriving Repr, DecidableEq

def ResultStatus.text : ResultStatus → String
  | .succeeded => "SUCCEEDED"
  | .failed => "FAILED"
  | .timeoutKilled => "TIMEOUT_KILLED"
  | .cancelled => "CANCELLED"

inductive KillReason where
  | timeout
  | cancel
deriving Repr, DecidableEq

def killText : Option KillReason → String
  | some .timeout => "timeout"
  | some .cancel => "cancel"
  | none => ""

/-- A result; the outputs are whatever bytes the command printed. -/
structure Result where
  cmdId : String
  status : ResultStatus
  exitCode : Int
  stdout : Bytes
  stderr : Bytes
  truncated : Bool
  killReason : Option KillReason
  durationMs : Int
  startedAt : Int
  finishedAt : Int
deriving Repr, DecidableEq

/-! ## The end of an execution -/

inductive ContextError where
  | deadlineExceeded
  | canceled
deriving Repr, DecidableEq

inductive ExecError where
  /-- The process ended with this code. -/
  | exit (code : Int)
  /-- Any other error, with its text. -/
  | other (text : Bytes)
deriving Repr, DecidableEq

/-- What one call of `execute` meets.  A built-in action writes its output in one
piece to `stdout`. -/
structure ActionRun where
  cmdId : String
  /-- The writes to the two buffers. -/
  stdout : List Bytes
  stderr : List Bytes
  execErr : Option ExecError
  ctxErr : Option ContextError
  /-- The context of the worker is done. -/
  parentDone : Bool
  startedAt : Int
  durationMs : Int
  finishedAt : Int
deriving Repr, DecidableEq

/-- The result `execute` submits; `none` is a panic while the output is collected. -/
def execute (outputLimitKB : Int64) (run : ActionRun) : Option Result := do
  let stdout ← (CappedBuffer.new outputLimitKB).writeAll run.stdout
  let stderr ← (CappedBuffer.new outputLimitKB).writeAll run.stderr
  let res := fun status killReason exitCode err =>
    { cmdId := run.cmdId, status, exitCode, stdout := stdout.text, stderr := stderr.text ++ err,
      truncated := stdout.truncated || stderr.truncated, killReason,
      durationMs := run.durationMs, startedAt := run.startedAt,
      finishedAt := run.finishedAt : Result }
  match run.ctxErr, run.parentDone, run.execErr with
  | some .deadlineExceeded, _, _ => pure (res .timeoutKilled (some .timeout) (-1) [])
  | some .canceled, false, _ => pure (res .cancelled (some .cancel) (-1) [])
  | _, _, some (.exit code) => pure (res .failed none code [])
  | _, _, some (.other text) => pure (res .failed none (-1) (utf8 ['\n'] ++ text))
  | _, _, none => pure (res .succeeded none 0 [])

/-! ## The text of a result -/

def boolText (b : Bool) : List Char := if b then "true".toList else "false".toList

def omitEmpty (name : String) (bytes : Bytes) : List Char :=
  if bytes = [] then [] else label ',' name ++ quoteBytes bytes

def outcomeText (r : Result) : List Char :=
  label ',' "status" ++ (quote r.status.text.toList ++ (label ',' "exit_code" ++
    intText r.exitCode))

def closingText (r : Result) : List Char :=
  label ',' "truncated" ++ (boolText r.truncated ++
    (omitEmpty "kill_reason" (utf8 (killText r.killReason).toList) ++
    (label ',' "duration_ms" ++ (intText r.durationMs ++ (label ',' "started_at" ++
    (intText r.startedAt ++ (label ',' "finished_at" ++ (intText r.finishedAt ++ ['}']))))))))

def resultText (r : Result) : List Char :=
  label '{' "cmd_id" ++ (quote r.cmdId.toList ++ (outcomeText r ++
    (omitEmpty "stdout" r.stdout ++ (omitEmpty "stderr" r.stderr ++ closingText r))))

def Result.item (r : Result) (now : Int) : ReliableItem :=
  ⟨r.cmdId, .results, now, String.ofList (resultText r)⟩

/-! ## What is kept of an output -/

open CappedBuffer (fitted headAndTail truncationMark)

/-- The bytes at the front of a long output: those before the first write beyond 1 MiB, and
at least half of that. -/
def headLength (writes : List Bytes) : Nat := max 524288 (fitted 1048576 0 writes)

def kept (writes : List Bytes) : CappedBuffer :=
  if writes.flatten.length ≤ 1048576 then ⟨1048576, writes.flatten, [], false⟩
  else headAndTail 524288 (headLength writes) writes.flatten

theorem writeAll_default (writes : List Bytes) :
    (CappedBuffer.new 1024).writeAll writes = some (kept writes) :=
  @CappedBuffer.writeAll_whole 524288 [] (Nat.zero_le _) writes

/-- The escaped bytes of an output: of all of it up to 1 MiB, else of its head and of the
last 512 KiB of the rest, with the 21 of the mark between them. -/
def keptCost (writes : List Bytes) : Nat :=
  if writes.flatten.length ≤ 1048576 then cost writes.flatten
  else cost (writes.flatten.take (headLength writes)) + 21 +
    cost ((writes.flatten.drop (headLength writes)).rtake 524288)

theorem truncationMark_cons : truncationMark = 10 :: truncationMark.tail := by decide +kernel

theorem cost_mark (head tail : Bytes) :
    cost (head ++ truncationMark ++ tail) = cost head + 21 + cost tail := by
  have hmark : truncationMark = utf8 "\n...[TRUNCATED]...\n".toList := by decide +kernel
  have hcost : cost (utf8 "\n...[TRUNCATED]...\n".toList) = 21 := by decide +kernel
  have hhead := cost_append head (by decide : UInt8.IsUTF8FirstByte 10)
    (truncationMark.tail ++ tail)
  rw [← List.cons_append, ← truncationMark_cons] at hhead
  rw [List.append_assoc, hhead, hmark, cost_utf8_append, hcost, Nat.add_assoc]

theorem cost_text_kept (writes : List Bytes) : cost (kept writes).text = keptCost writes := by
  unfold kept keptCost
  split
  · simp [CappedBuffer.text]
  · rw [CappedBuffer.text, headAndTail, if_pos rfl, cost_mark]

theorem text_kept_eq_nil (writes : List Bytes) : (kept writes).text = [] ↔ writes.flatten = [] := by
  unfold kept
  split
  next => simp [CappedBuffer.text]
  next hlong =>
    have hne : writes.flatten ≠ [] := by
      intro hnil
      rw [hnil] at hlong
      exact hlong (Nat.zero_le _)
    rw [CappedBuffer.text, headAndTail, if_pos rfl, truncationMark_cons]
    simp [hne]

theorem truncated_kept (writes : List Bytes) :
    (kept writes).truncated = decide (1048576 < writes.flatten.length) := by
  unfold kept
  split
  next hshort => exact (decide_eq_false (Nat.not_lt.mpr hshort)).symm
  next hlong => exact (decide_eq_true (Nat.lt_of_not_le hlong)).symm

/-! ## The length of the item -/

def outputCost (bytes : Bytes) : Nat := if bytes = [] then 0 else 12 + cost bytes

theorem size_omitEmpty {name : String} (h : size (label ',' name) = 10) (bytes : Bytes) :
    size (omitEmpty name bytes) = outputCost bytes := by
  unfold omitEmpty outputCost
  split
  · rfl
  · rw [size_append, h, size_quoteBytes]
    omega

def outcomeSize (status : ResultStatus) (exitCode : Int) (killReason : Option KillReason) : Nat :=
  size status.text.toList + size (intText exitCode) +
    size (omitEmpty "kill_reason" (utf8 (killText killReason).toList))

def timesSize (now durationMs startedAt finishedAt : Int) : Nat :=
  size (intText now) + size (intText durationMs) + size (intText startedAt) +
    size (intText finishedAt)

theorem Result.length_item (r : Result) (now : Int) :
    (marshalItem (r.item now)).length = 146 + 2 * cost (utf8 r.cmdId.toList) +
      outcomeSize r.status r.exitCode r.killReason +
      timesSize now r.durationMs r.startedAt r.finishedAt + size (boolText r.truncated) +
      outputCost r.stdout + outputCost r.stderr := by
  have hsize : (marshalItem (r.item now)).length = size (itemText (r.item now)) := rfl
  have hstatus : cost (utf8 r.status.text.toList) = size r.status.text.toList := by
    cases r.status <;> decide +kernel
  have hstdout := size_omitEmpty (by decide : size (label ',' "stdout") = 10) r.stdout
  have hstderr := size_omitEmpty (by decide : size (label ',' "stderr") = 10) r.stderr
  have hitem : size (label '{' "id") = 6 ∧ size (label ',' "kind") = 8 ∧
      size (quote (Reporter.queueName .results).toList) = 9 ∧
      size (label ',' "created_at") = 14 ∧ size (label ',' "payload") = 11 := by decide +kernel
  have hresult : size (label '{' "cmd_id") = 10 ∧ size (label ',' "status") = 10 ∧
      size (label ',' "exit_code") = 13 ∧ size (label ',' "truncated") = 13 ∧
      size (label ',' "duration_ms") = 15 ∧ size (label ',' "started_at") = 14 ∧
      size (label ',' "finished_at") = 15 ∧ size ['}'] = 1 := by decide +kernel
  obtain ⟨h1, h2, h3, h4, h5⟩ := hitem
  obtain ⟨g1, g2, g3, g4, g5, g6, g7, g8⟩ := hresult
  rw [hsize]
  simp only [itemText, Result.item, String.toList_ofList, resultText, outcomeText, closingText,
    size_append, size_quote, hstatus, hstdout, hstderr, outcomeSize, timesSize] at *
  omega

def writtenSize (writes : List Bytes) (err : Option Bytes) : Nat :=
  match err with
  | none => if writes.flatten = [] then 0 else 12 + keptCost writes
  | some text => 12 + (keptCost writes + (2 + cost text))

theorem outputCost_kept (writes : List Bytes) :
    outputCost (kept writes).text = writtenSize writes none := by
  rw [outputCost, cost_text_kept, writtenSize]
  exact if_congr (text_kept_eq_nil writes) rfl rfl

theorem outputCost_kept_append (writes : List Bytes) (text : Bytes) :
    outputCost ((kept writes).text ++ (utf8 ['\n'] ++ text)) = writtenSize writes (some text) := by
  have hline : utf8 ['\n'] = [10] := by decide
  have hcost : cost [10] = 2 := by rw [← hline]; decide +kernel
  have hrest : cost (10 :: text) = 2 + cost text := by
    rw [← hcost, ← hline, ← cost_utf8_append]
    rfl
  rw [outputCost, hline, List.singleton_append, if_neg (by simp),
    cost_append _ (by decide), cost_text_kept, hrest, writtenSize]

/-- How `execute` judges the end of a run: status, exit code, reason of a kill, and the text
of an error that is no exit code. -/
def ActionRun.ending (run : ActionRun) :
    ResultStatus × Int × Option KillReason × Option Bytes :=
  match run.ctxErr, run.parentDone, run.execErr with
  | some .deadlineExceeded, _, _ => (.timeoutKilled, -1, some .timeout, none)
  | some .canceled, false, _ => (.cancelled, -1, some .cancel, none)
  | _, _, some (.exit code) => (.failed, code, none, none)
  | _, _, some (.other text) => (.failed, -1, none, some text)
  | _, _, none => (.succeeded, 0, none, none)

/-- The length of the item of a run, by what it wrote: 146 bytes are the same for all. -/
def ActionRun.itemSize (run : ActionRun) (now : Int) : Nat :=
  let (status, exitCode, killReason, err) := run.ending
  let truncated := decide (1048576 < run.stdout.flatten.length) ||
    decide (1048576 < run.stderr.flatten.length)
  146 + 2 * cost (utf8 run.cmdId.toList) + outcomeSize status exitCode killReason +
    timesSize now run.durationMs run.startedAt run.finishedAt + size (boolText truncated) +
    writtenSize run.stdout none + writtenSize run.stderr err

theorem execute_itemSize (run : ActionRun) (now : Int) :
    ∃ res, execute 1024 run = some res ∧ (marshalItem (res.item now)).length = run.itemSize now := by
  have hout := outputCost_kept run.stdout
  have herr := outputCost_kept run.stderr
  have htext := outputCost_kept_append run.stderr
  simp only [execute, writeAll_default, Option.bind_eq_bind, Option.bind_some, ActionRun.itemSize,
    ActionRun.ending, truncated_kept]
  split
  all_goals
    refine ⟨_, rfl, ?_⟩
    simp only [Result.length_item, List.append_nil, hout, herr, htext]

/-- With the default limit every execution ends in a result, and the log takes its item if
and only if the bytes that are kept of the writes, as they are escaped, leave room for the
rest of the item. -/
theorem result_fits_iff (run : ActionRun) (now : Int) :
    ∃ res, execute 1024 run = some res ∧
      (Fits (marshalItem (res.item now)) ↔ run.itemSize now ≤ walMaxEntrySize) ∧
      ∀ w : WAL, (w.append (marshalItem (res.item now)) none).2 = none ↔
        run.itemSize now ≤ walMaxEntrySize := by
  obtain ⟨res, hres, hlength⟩ := execute_itemSize run now
  have hfits : Fits (marshalItem (res.item now)) ↔ run.itemSize now ≤ walMaxEntrySize := by
    rw [← hlength]
    rfl
  refine ⟨res, hres, hfits, ?_⟩
  intro w
  rw [WAL.append_ok, hfits]

def printRun (data : Bytes) : ActionRun := ⟨"c-1", [data], [], none, none, false, 0, 0, 0⟩

theorem execute_printRun {data : Bytes} (h : data.length ≤ 1048576) :
    execute 1024 (printRun data) =
      some ⟨"c-1", .succeeded, 0, data, [], false, none, 0, 0, 0⟩ := by
  simp [execute, printRun, writeAll_default, kept, h, CappedBuffer.text]

/-- 1 MiB of NUL bytes: the result is refused, although none of the output is cut off. -/
theorem nul_output_refused :
    ∃ res, execute 1024 (printRun (List.replicate 1048576 0)) = some res ∧
      res.truncated = false ∧ ¬ Fits (marshalItem (res.item 0)) ∧
      ∀ w : WAL, (w.append (marshalItem (res.item 0)) none).2 ≠ none := by
  have hlength : (List.replicate 1048576 (0 : UInt8)).length = 1048576 := List.length_replicate
  have hcost := cost_replicate_zero 1048576
  -- from here on only the length and the cost of the output matter
  generalize List.replicate 1048576 (0 : UInt8) = data at hlength hcost
  have hne : data ≠ [] := by
    rintro rfl
    cases hlength
  refine ⟨_, execute_printRun (Nat.le_of_eq hlength), rfl, ?_⟩
  have hrefused : ¬ Fits (marshalItem
      (Result.item ⟨"c-1", .succeeded, 0, data, [], false, none, 0, 0, 0⟩ 0)) := by
    rw [Fits, Result.length_item, outputCost, if_neg hne, hcost, walMaxEntrySize]
    omega
  refine ⟨hrefused, ?_⟩
  intro w happend
  exact hrefused (WAL.append_ok.mp happend)

end TomAgent.Executor
