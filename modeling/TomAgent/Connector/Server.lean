import TomAgent.Platform.Store

/-!
# The status an agent reports

The receivers of acknowledgements and results store a text that the agent has sent.
-/

namespace TomAgent.Connector

open Platform

/-- A key of a JSON object is matched without regard to case; the long s folds too. -/
def foldChar (c : Char) : Char := if c = 'ſ' then 's' else c.toLower

def statusField : Option String → List (String × Json) → Option String
  | status, [] => status
  | status, (key, value) :: rest =>
      if key.toList.map foldChar = "status".toList then
        match value with
        | .str text => statusField (status.map fun _ => text) rest
        | .null => statusField status rest
        | _ => statusField none rest
      else statusField status rest

/-- The status an agent reports; a missing one counts as success. -/
def resultStatus (payload : Payload) : String :=
  match payload.value with
  | some (.obj fields) =>
      match statusField (some "") fields with
      | some text => if text = "" then "SUCCEEDED" else text
      | none => "SUCCEEDED"
  | _ => "SUCCEEDED"

def samplePayload (status : String) : Payload where
  bytes := ("\x7b\"status\":\"" ++ status ++ "\"\x7d").toUTF8.toList
  value := some (.obj [("status", .str status)])

example : resultStatus (samplePayload "FAILED") = "FAILED" := by decide +kernel

def rejectStatus (rejectReason : String) : String :=
  if rejectReason = "" then "REJECTED" else rejectReason

end TomAgent.Connector
