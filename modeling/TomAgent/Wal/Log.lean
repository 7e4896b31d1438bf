import TomAgent.Wal.Directory
import TomAgent.Wal.Record

/-!
# The segmented write-ahead log

Appending, rotation, quota enforcement and reading by cursor.  The directory is
part of the state: what a crash leaves behind is the `dir` field alone.  File
operations succeed unless the caller names a fault; a fault that is not reached
has no effect.
-/

namespace TomAgent.Wal

structure WalCursor where
  segment : Nat
  offset : Nat
deriving Repr, DecidableEq

instance : Zero WalCursor := ⟨⟨0, 0⟩⟩

/-- `activeLen` is the length the writer believes the active file to have. -/
structure WAL where
  dir : Dir
  maxBytes : Int
  activeSeg : Nat
  activeLen : Nat

inductive AppendFault where
  /-- The rotation cannot open the next segment, possibly after creating its file. -/
  | openActive (created : Bool)
  /-- The header write stops after `written` bytes. -/
  | writeHeader (written : Nat)
  | writePayload (written : Nat)
  | sync
  /-- Quota enforcement cannot list the directory. -/
  | readDir
  /-- Quota enforcement fails to remove a file after `removed` removals. -/
  | remove (removed : Nat)
deriving Repr, DecidableEq

inductive AppendError where
  | entryTooLarge (length : Nat)
  | openActive
  | write
  | sync
  | quota
deriving Repr, DecidableEq

/-- The record is in the file: there was no error, or it came after both writes. -/
def Recorded : Option AppendError → Prop
  | none | some .sync | some .quota => True
  | some (.entryTooLarge _) | some .openActive | some .write => False

instance : DecidablePred Recorded
  | none | some .sync | some .quota => isTrue trivial
  | some (.entryTooLarge _) | some .openActive | some .write => isFalse id

namespace WAL

/-! ## Opening -/

def createActive (w : WAL) : Dir :=
  match w.dir.lookup (segName w.activeSeg) with
  | some _ => w.dir
  | none => w.dir.insert (segName w.activeSeg) []

def openActive (w : WAL) : WAL :=
  { w with dir := w.createActive, activeLen := (content w.dir w.activeSeg).length }

end WAL

def openWal (dir : Dir) (maxBytes : Int) : WAL :=
  WAL.openActive ⟨dir, maxBytes, (segments dir).getLast?.getD 0, 0⟩

namespace WAL

/-! ## Quota -/

/-- The removal loop: oldest segments first, until the total fits or the active
segment is reached.  `allowed` bounds the removals that succeed. -/
def dropOldest (sizes : Nat → Nat) : List Nat → Int → Option Nat → WAL → WAL × Option AppendError
  | [], _, _, w => (w, none)
  | s :: rest, total, allowed, w =>
      if total ≤ w.maxBytes ∨ s = w.activeSeg then (w, none)
      else if allowed = some 0 then (w, some .quota)
      else
        dropOldest sizes rest (total - sizes s) (allowed.map (· - 1))
          { w with dir := w.dir.erase (segName s) }

def totalSize (sizes : Nat → Nat) : List Nat → Int
  | [] => 0
  | s :: rest => sizes s + totalSize sizes rest

def enforceQuotaLocked (w : WAL) (fault : Option AppendFault) : WAL × Option AppendError :=
  if w.maxBytes ≤ 0 then (w, none)
  else if fault = some .readDir then (w, some .quota)
  else
    let segs := segments w.dir
    if segs.length ≤ 1 then (w, none)
    else
      let sizes := fun s => (content w.dir s).length
      let allowed := match fault with
        | some (.remove removed) => some removed
        | _ => none
      w.dropOldest sizes segs (totalSize sizes segs) allowed

/-! ## Appending -/

def rotate (w : WAL) (fault : Option AppendFault) : WAL × Option AppendError :=
  if walSegmentMaxBytes ≤ w.activeLen then
    let next := { w with activeSeg := w.activeSeg + 1 }
    match fault with
    | some (.openActive created) =>
        (if created then { next with dir := next.createActive } else next, some .openActive)
    | _ => (next.openActive, none)
  else (w, none)

/-- The file is opened with `O_APPEND`: bytes land at its physical end. -/
def write (w : WAL) (data : Bytes) : WAL :=
  { w with dir := w.dir.insert (segName w.activeSeg) (content w.dir w.activeSeg ++ data) }

def writeRecord (w : WAL) (payload : Bytes) (fault : Option AppendFault) :
    WAL × Option AppendError :=
  match fault with
  | some (.writeHeader written) => (w.write ((header payload).take written), some .write)
  | some (.writePayload written) =>
      (w.write (header payload ++ payload.take written), some .write)
  | some .sync => (w.write (encodeRecord payload), some .sync)
  | _ =>
      let written := w.write (encodeRecord payload)
      enforceQuotaLocked
        { written with activeLen := w.activeLen + (walHeaderSize + payload.length) } fault

def append (w : WAL) (payload : Bytes) (fault : Option AppendFault) :
    WAL × Option AppendError :=
  if walMaxEntrySize < payload.length then (w, some (.entryTooLarge payload.length))
  else
    match w.rotate fault with
    | (rotated, some err) => (rotated, some err)
    | (rotated, none) => rotated.writeRecord payload fault

/-- What the disk holds when the process dies inside `Append`, after the first
`written` bytes of the record reached the active file. -/
def crashDuringAppend (w : WAL) (payload : Bytes) (written : Nat) : Dir :=
  ((w.rotate none).1.write ((encodeRecord payload).take written)).dir

end WAL

/-! ## Reading -/

def readFromLoop (dir : Dir) (last max : Nat) :
    List Nat → List Bytes → WalCursor → List Bytes × WalCursor
  | [], out, cur => (out, cur)
  | seg :: rest, out, cur =>
      if seg < cur.segment ∨ max ≤ out.length then readFromLoop dir last max rest out cur
      else
        let batch := readSegment (dir.lookup (segName seg)) cur.offset (max - out.length)
        let out := out ++ batch.1
        let cur := if 0 < batch.2.1 then ⟨seg, batch.2.1⟩ else cur
        if max ≤ out.length then (out, cur)
        else
          -- a newer segment exists: go to its start, else wait here for appends
          let cur := if seg < last then ⟨seg + 1, 0⟩ else cur
          readFromLoop dir last max rest out cur

def readFrom (dir : Dir) (cur : WalCursor) (max : Nat) : List Bytes × WalCursor :=
  match (segments dir).getLast? with
  | none => ([], cur)
  | some last =>
      let cur := if last < cur.segment then 0 else cur
      readFromLoop dir last max (segments dir) [] cur

end TomAgent.Wal
