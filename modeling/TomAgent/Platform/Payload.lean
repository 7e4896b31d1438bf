import Mathlib.Data.List.Sort
import Mathlib.Data.String.Basic
import TomAgent.Core.JsonText
import TomAgent.Platform.Store

/-!
# Payloads of the outbox

A dispatch request is written to `cmd.outbox` as a JSON object with its keys sorted,
and read back by the dispatcher into a structure whose missing members stay empty.
A cancel request holds the command id and nothing else.  The readers below take the
form in which `json.Marshal` writes a map; only the store writes these rows.  Texts
are Unicode: the admin interface decodes them from JSON, and the database takes no
others.
-/

namespace TomAgent.Platform

open JsonText

/-! ## Parameters -/

def pairText (before : Char) (key value : String) : List Char :=
  before :: (quote key.toList ++ ':' :: quote value.toList)

def pairsText : Char → List (String × String) → List Char
  | _, [] => ['}']
  | before, (key, value) :: rest => pairText before key value ++ pairsText ',' rest

/-- A map without entries is nil, as a request without parameters leaves it. -/
def paramsText : List (String × String) → List Char
  | [] => "null".toList
  | params => pairsText '{' params

def readPair (before : Char) (text : List Char) : Option ((String × String) × List Char) := do
  let text ← readText [before] text
  let (key, text) ← readQuoted text
  let text ← readText [':'] text
  let (value, text) ← readQuoted text
  some ((String.ofList key, String.ofList value), text)

/-- Reads at most `fuel` members. -/
def readPairs : Nat → Char → List Char → Option (List (String × String) × List Char)
  | _, _, '}' :: text => some ([], text)
  | 0, _, _ => none
  | fuel + 1, before, text => do
      let (p, text) ← readPair before text
      let (rest, text) ← readPairs fuel ',' text
      some (p :: rest, text)

def readParams (text : List Char) : Option (List (String × String) × List Char) :=
  match readText "null".toList text with
  | some text => some ([], text)
  | none =>
      match readText ['{', '}'] text with
      | some text => some ([], text)
      | none => readPairs text.length '{' text

theorem readPair_pairText (before : Char) (key value : String) (rest : List Char) :
    readPair before (pairText before key value ++ rest) = some ((key, value), rest) := by
  have hopen : pairText before key value ++ rest =
      [before] ++ (quote key.toList ++ ([':'] ++ (quote value.toList ++ rest))) := by
    simp [pairText]
  have hcolon : readText [':'] (':' :: (quote value.toList ++ rest)) =
      some (quote value.toList ++ rest) := readText_append [':'] _
  rw [readPair, hopen, readText_append]
  simp [hcolon]

theorem readPairs_pairsText {fuel : Nat} {before : Char} {params : List (String × String)}
    (hfuel : params.length ≤ fuel) (hbefore : before ≠ '}') (rest : List Char) :
    readPairs fuel before (pairsText before params ++ rest) = some (params, rest) := by
  induction params generalizing fuel before with
  | nil => simp [pairsText, readPairs]
  | cons p params ih =>
      obtain ⟨key, value⟩ := p
      obtain ⟨fuel, rfl⟩ : ∃ k, fuel = k + 1 := ⟨fuel - 1, by simp at hfuel; omega⟩
      have hhead : pairsText before ((key, value) :: params) ++ rest =
          pairText before key value ++ (pairsText ',' params ++ rest) := by
        simp [pairsText]
      rw [hhead, readPairs]
      · rw [readPair_pairText, Option.bind_eq_bind, Option.bind_some]
        dsimp only
        rw [ih (by simpa using hfuel) (by decide)]
        rfl
      · intro text htext
        simp only [pairText, List.cons_append, List.cons.injEq] at htext
        exact hbefore htext.1

theorem length_le_pairsText (before : Char) (params : List (String × String)) :
    params.length ≤ (pairsText before params).length := by
  induction params generalizing before with
  | nil => simp [pairsText]
  | cons p params ih =>
      obtain ⟨key, value⟩ := p
      have hrest := ih ','
      simp only [pairsText, pairText, List.length_append, List.length_cons]
      omega

@[simp] theorem readParams_paramsText (params : List (String × String)) (rest : List Char) :
    readParams (paramsText params ++ rest) = some (params, rest) := by
  cases params with
  | nil => rw [readParams, paramsText, readText_append]
  | cons p params =>
      obtain ⟨key, value⟩ := p
      have hnull : readText "null".toList (paramsText ((key, value) :: params) ++ rest) = none := by
        simp [readText, paramsText, pairsText, pairText]
      have hempty : readText ['{', '}'] (paramsText ((key, value) :: params) ++ rest) = none := by
        simp [readText, paramsText, pairsText, pairText, quote]
      rw [readParams, hnull]
      dsimp only
      rw [hempty]
      refine readPairs_pairsText ?_ (by decide) rest
      have hlength := length_le_pairsText '{' ((key, value) :: params)
      rw [List.length_append]
      exact Nat.le_add_right_of_le hlength

/-! ## Requests -/

def sortedParams (params : List (String × String)) : List (String × String) :=
  params.insertionSort fun p q => p.1 ≤ q.1

def memberText (before : Char) (name : String) : List Char := before :: quote name.toList ++ [':']

def dispatchText (d : Dispatch) : List Char :=
  memberText '{' "action" ++ (quote d.action.toList ++ (memberText ',' "asset_id" ++
    (quote d.assetId.toList ++ (memberText ',' "cmd_id" ++ (quote d.cmdId.toList ++
      (memberText ',' "params" ++ (paramsText (sortedParams d.params) ++
        (memberText ',' "timeout_sec" ++ (intText d.timeoutSec ++ ['}'])))))))))

def cancelText (cmdId : String) : List Char :=
  memberText '{' "cmd_id" ++ (quote cmdId.toList ++ ['}'])

def readDispatch (text : List Char) : Option Dispatch := do
  let text ← readText (memberText '{' "action") text
  let (action, text) ← readQuoted text
  let text ← readText (memberText ',' "asset_id") text
  let (assetId, text) ← readQuoted text
  let text ← readText (memberText ',' "cmd_id") text
  let (cmdId, text) ← readQuoted text
  let text ← readText (memberText ',' "params") text
  let (params, text) ← readParams text
  let text ← readText (memberText ',' "timeout_sec") text
  let (timeoutSec, text) ← readInt text
  if text = ['}'] then
    some ⟨String.ofList cmdId, String.ofList assetId, String.ofList action, params, timeoutSec⟩
  else none

def readCancel (text : List Char) : Option Dispatch := do
  let text ← readText (memberText '{' "cmd_id") text
  let (cmdId, text) ← readQuoted text
  if text = ['}'] then some ⟨String.ofList cmdId, "", "", [], 0⟩ else none

def marshalPayload (e : OutboxEntry) : List Char :=
  match e.eventType with
  | .dispatchRequested => dispatchText e.payload
  | .cancelRequested => cancelText e.payload.cmdId

def unmarshalPayload (text : List Char) : Option Dispatch :=
  match readDispatch text with
  | some d => some d
  | none => readCancel text

theorem readDispatch_dispatchText (d : Dispatch) :
    readDispatch (dispatchText d) = some { d with params := sortedParams d.params } := by
  have hbrace : EndsNumber ['}'] := by
    intro c hc
    cases hc
    decide
  simp [readDispatch, dispatchText, readInt_intText d.timeoutSec hbrace]

theorem readCancel_cancelText (cmdId : String) :
    readCancel (cancelText cmdId) = some ⟨cmdId, "", "", [], 0⟩ := by
  simp [readCancel, cancelText]

/-- What the dispatcher reads from a dispatch request: the same request, its
parameters in the order of their keys. -/
theorem unmarshalPayload_dispatch (d : Dispatch) (published : Bool) :
    unmarshalPayload (marshalPayload ⟨.dispatchRequested, d, published⟩) =
      some { d with params := sortedParams d.params } := by
  simp [unmarshalPayload, marshalPayload, readDispatch_dispatchText]

/-- From a cancel request the dispatcher gets no asset. -/
theorem unmarshalPayload_cancel (d : Dispatch) (published : Bool) :
    unmarshalPayload (marshalPayload ⟨.cancelRequested, d, published⟩) =
      some ⟨d.cmdId, "", "", [], 0⟩ := by
  have hother : readDispatch (cancelText d.cmdId) = none := by
    have hfirst : readText (memberText '{' "action") (cancelText d.cmdId) = none := by
      simp [readText, cancelText, memberText, quote, quoteChar, shortEscape, needsUnit]
    rw [readDispatch, hfirst]
    rfl
  simp [unmarshalPayload, marshalPayload, hother, readCancel_cancelText]

theorem sortedParams_perm (params : List (String × String)) : (sortedParams params).Perm params :=
  List.perm_insertionSort _ params

end TomAgent.Platform
