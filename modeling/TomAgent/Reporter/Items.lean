import TomAgent.Core.JsonText
import TomAgent.Uplink.Reports
import TomAgent.Wal.Log

/-!
# What the reporter puts on disk

Items of the reliable queues and cursors are stored as JSON.  The readers below
take the form in which `json.Marshal` writes the two types, fields in declaration
order and no blanks; no other writer touches these files.
-/

namespace TomAgent.Reporter

open JsonText Wal
open Uplink (QueueKind)

/-- `payload` is the raw JSON of the producer's value. -/
structure ReliableItem where
  id : String
  kind : QueueKind
  createdAt : Int
  payload : String
deriving Repr, DecidableEq

structure ReliableBatch where
  assetId : String
  kind : QueueKind
  sentAt : Int
  items : List ReliableItem
deriving Repr, DecidableEq

def queueName : QueueKind → String
  | .metrics => "metrics"
  | .results => "results"
  | .audit => "audit"
  | .inventory => "inventory"

def queueOf (name : List Char) : Option QueueKind :=
  [.metrics, .results, .audit, .inventory].find? fun kind => (queueName kind).toList = name

@[simp] theorem queueOf_queueName (kind : QueueKind) :
    queueOf (queueName kind).toList = some kind := by
  cases kind <;> decide

def label (before : Char) (name : String) : List Char := before :: quote name.toList ++ [':']

theorem endsNumber_label (name : String) (rest : List Char) :
    EndsNumber (label ',' name ++ rest) := by
  intro c hc
  have hcomma : c = ',' := by simpa [label, eq_comm] using hc
  subst hcomma
  decide

/-! ## Items -/

def itemText (item : ReliableItem) : List Char :=
  label '{' "id" ++ (quote item.id.toList ++ (label ',' "kind" ++
    (quote (queueName item.kind).toList ++ (label ',' "created_at" ++
      (intText item.createdAt ++ (label ',' "payload" ++ (item.payload.toList ++ ['}'])))))))

def marshalItem (item : ReliableItem) : Bytes := utf8 (itemText item)

def readItem (text : List Char) : Option ReliableItem := do
  let text ← readText (label '{' "id") text
  let (id, text) ← readQuoted text
  let text ← readText (label ',' "kind") text
  let (name, text) ← readQuoted text
  let kind ← queueOf name
  let text ← readText (label ',' "created_at") text
  let (createdAt, text) ← readInt text
  let text ← readText (label ',' "payload") text
  -- the payload is the last field, so it ends before the closing brace
  if text.getLast? = some '}' then
    some ⟨String.ofList id, kind, createdAt, String.ofList text.dropLast⟩
  else none

def unmarshalItem (data : Bytes) : Option ReliableItem := (ofUtf8 data).bind readItem

theorem readItem_itemText (item : ReliableItem) : readItem (itemText item) = some item := by
  have hnumber := readInt_intText item.createdAt
    (endsNumber_label "payload" (item.payload.toList ++ ['}']))
  simp [readItem, itemText, hnumber]

@[simp] theorem unmarshalItem_marshalItem (item : ReliableItem) :
    unmarshalItem (marshalItem item) = some item := by
  rw [unmarshalItem, marshalItem, ofUtf8_utf8, Option.bind_some, readItem_itemText]

/-! ## Cursors -/

def cursorText (cur : WalCursor) : List Char :=
  label '{' "segment" ++ (natText cur.segment ++ (label ',' "offset" ++
    (natText cur.offset ++ ['}'])))

def marshalCursor (cur : WalCursor) : Bytes := utf8 (cursorText cur)

def readCursor (text : List Char) : Option WalCursor := do
  let text ← readText (label '{' "segment") text
  let (segment, text) ← readNat text
  let text ← readText (label ',' "offset") text
  let (offset, text) ← readNat text
  if text = ['}'] then some ⟨segment, offset⟩ else none

def unmarshalCursor (data : Bytes) : Option WalCursor := (ofUtf8 data).bind readCursor

theorem readCursor_cursorText (cur : WalCursor) : readCursor (cursorText cur) = some cur := by
  have hsegment := readNat_natText cur.segment
    (endsNumber_label "offset" (natText cur.offset ++ ['}']))
  have hbrace : EndsNumber ['}'] := by
    intro c hc
    cases hc
    decide
  simp [readCursor, cursorText, hsegment, readNat_natText cur.offset hbrace]

@[simp] theorem unmarshalCursor_marshalCursor (cur : WalCursor) :
    unmarshalCursor (marshalCursor cur) = some cur := by
  rw [unmarshalCursor, marshalCursor, ofUtf8_utf8, Option.bind_some, readCursor_cursorText]

/-- The contents of `cursor.json`, if it can be read; anything else means the start. -/
def loadCursor (file : Option Bytes) : WalCursor := (file.bind unmarshalCursor).getD 0

@[simp] theorem loadCursor_marshalCursor (cur : WalCursor) :
    loadCursor (some (marshalCursor cur)) = cur := by
  simp [loadCursor]

end TomAgent.Reporter
