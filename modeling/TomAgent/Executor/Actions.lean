import TomAgent.Authenv.Envelope

/-!
# The action catalog

Which actions the engine knows and what it demands of their parameters.  The
regular expressions of the source are written out as conditions on bytes.  How
an action is run is not part of this model.
-/

namespace TomAgent.Executor

open Authenv

def ascii (text : String) : Bytes := text.toList.map fun c => UInt8.ofNat c.toNat

/-- Why a command is refused; the values are the ones quoted in the messages. -/
inductive PolicyError where
  /-- `unknown action: %q` -/
  | unknownAction (action : Bytes)
  /-- `param validation failed: invalid service name: %q` -/
  | invalidService (service : Bytes)
  /-- `param validation failed: invalid path: %q` -/
  | invalidPath (path : Bytes)
  /-- `param validation failed: path not in whitelist: %q` -/
  | pathNotAllowed (path : Bytes)
  /-- `param validation failed: invalid lines: %q` -/
  | invalidLines (lines : Bytes)
  /-- `param validation failed: invalid seconds: %q` -/
  | invalidSeconds (seconds : Bytes)
  /-- `param validation failed: ` and the message of a plugin's own check. -/
  | plugin (message : Bytes)
deriving Repr, DecidableEq

structure Action where
  id : Bytes
  /-- `none` is the nil function: nothing is checked. -/
  validate : Option (Params → Except PolicyError Unit)

/-! ## Parameter checks -/

def isAlphanumeric (b : UInt8) : Bool :=
  (97 ≤ b && b ≤ 122) || (65 ≤ b && b ≤ 90) || (48 ≤ b && b ≤ 57)

/-- `^[a-zA-Z0-9_.@-]{1,64}$` -/
def matchServiceName (s : Bytes) : Bool :=
  1 ≤ s.length && s.length ≤ 64 && s.all fun b => isAlphanumeric b || (ascii "_.@-").contains b

/-- `^/[a-zA-Z0-9_./@+-]{1,256}$` -/
def matchSafePath : Bytes → Bool
  | 47 :: s =>
      1 ≤ s.length && s.length ≤ 256 &&
        s.all fun b => isAlphanumeric b || (ascii "_./@+-").contains b
  | _ => false

/-- `^[1-9][0-9]{0,3}$` -/
def matchLines : Bytes → Bool
  | d :: s => 49 ≤ d && d ≤ 57 && s.length ≤ 3 && s.all fun b => 48 ≤ b && b ≤ 57
  | [] => false

/-- `^([1-9]|[1-5][0-9]|60)$` -/
def matchSleepSec : Bytes → Bool
  | [d] => 49 ≤ d && d ≤ 57
  | [d, e] => (49 ≤ d && d ≤ 53 && 48 ≤ e && e ≤ 57) || (d == 54 && e == 48)
  | _ => false

def logPathAllowed : List Bytes := [ascii "/var/log/", ascii "/var/lib/tom_ai_agent/"]

def hasDotDot (path : Bytes) : Bool := path.tails.any fun rest => (ascii "..").isPrefixOf rest

def validateService (params : Params) : Except PolicyError Unit :=
  let service := paramValue params (ascii "service")
  if matchServiceName service then .ok () else .error (.invalidService service)

def validateLogTail (params : Params) : Except PolicyError Unit :=
  let path := paramValue params (ascii "path")
  let lines := paramValue params (ascii "lines")
  if matchSafePath path = false ∨ hasDotDot path then .error (.invalidPath path)
  else if logPathAllowed.any (fun allowed => allowed.isPrefixOf path) = false then
    .error (.pathNotAllowed path)
  else if lines ≠ [] ∧ matchLines lines = false then .error (.invalidLines lines)
  else .ok ()

def validateSleep (params : Params) : Except PolicyError Unit :=
  let seconds := paramValue params (ascii "seconds")
  if matchSleepSec seconds then .ok () else .error (.invalidSeconds seconds)

/-! ## The catalog -/

abbrev Catalog := AList (fun _ : Bytes => Action)

def unchecked (id : String) : Action := ⟨ascii id, none⟩

def checked (id : String) (validate : Params → Except PolicyError Unit) : Action :=
  ⟨ascii id, some validate⟩

def builtinActions (allowTestActions : Bool) : List Action :=
  [unchecked "diagnose.disk_usage", unchecked "diagnose.memory_summary",
    unchecked "diagnose.cpu_top", unchecked "diagnose.network_connections",
    unchecked "diagnose.process_list", checked "diagnose.service_status" validateService,
    checked "diagnose.read_log_tail" validateLogTail, unchecked "agent.status",
    unchecked "inventory.refresh"] ++
    if allowTestActions then [checked "diagnose.test_sleep" validateSleep] else []

/-- `AddActions` over whatever is kept of an action; an id that is taken is skipped. -/
def addAll {α : Type} (id : α → Bytes) (c : AList fun _ : Bytes => α) :
    List α → AList fun _ : Bytes => α
  | [] => c
  | a :: rest =>
      match c.lookup (id a) with
      | some _ => addAll id c rest
      | none => addAll id (c.insert (id a) a) rest

theorem lookup_addAll {α : Type} (id : α → Bytes) (c : AList fun _ : Bytes => α)
    (actions : List α) (key : Bytes) :
    (addAll id c actions).lookup key = (c.lookup key).or (actions.find? fun a => id a = key) := by
  induction actions generalizing c with
  | nil => simp [addAll]
  | cons b rest ih =>
      rw [List.find?_cons]
      unfold addAll
      by_cases hid : id b = key
      · subst hid
        cases hb : c.lookup (id b) with
        | some a => simp [ih, hb]
        | none => simp [ih]
      · have hskip : (c.insert (id b) b).lookup key = c.lookup key :=
          AList.lookup_insert_ne (Ne.symm hid)
        cases hb : c.lookup (id b) with
        | some a => simp [ih, hid]
        | none => simp [ih, hid, hskip]

def addActions (c : Catalog) (actions : List Action) : Catalog := addAll Action.id c actions

def catalog (allowTestActions : Bool) : Catalog := addActions ∅ (builtinActions allowTestActions)

theorem lookup_addActions {c : Catalog} {id : Bytes} {a : Action} (h : c.lookup id = some a)
    (actions : List Action) : (addActions c actions).lookup id = some a := by
  rw [addActions, lookup_addAll, h, Option.some_or]

end TomAgent.Executor
