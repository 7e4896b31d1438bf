import TomAgent.Core.Fallible
import TomAgent.Executor.Registration

/-!
# Loading plugins

`LoadDir` takes the actions of every plugin directory whose manifest passes all checks.
The file system, the YAML decoder and `time.ParseDuration` are given; of the first is
assumed what its functions are documented to do.
-/

namespace TomAgent.Plugin

open Executor Fallible LexicalPath

structure ManifestAction where
  id : Bytes
  risk : Bytes
  exec : Bytes
  args : List Bytes
  maxTimeout : Bytes
  output : Bytes
deriving Repr, DecidableEq

structure Manifest where
  name : Bytes
  actions : List ManifestAction
deriving Repr, DecidableEq

structure DirEntry where
  name : Bytes
  isDir : Bool
deriving Repr, DecidableEq

structure FileInfo where
  uid : Nat
  /-- The permission bits. -/
  perm : UInt32
  isDir : Bool
deriving Repr, DecidableEq

structure Host where
  readDir : Bytes → Option (List DirEntry)
  stat : Bytes → Option FileInfo
  readFile : Bytes → Option Bytes
  evalSymlinks : Bytes → Option Bytes
  /-- The path names a symbolic link. -/
  isSymlink : Bytes → Bool
  unmarshal : Bytes → Option Manifest
  parseDuration : Bytes → Option Int64

/-! ## The checks -/

def isLowerOrDigit (b : UInt8) : Bool := (97 ≤ b && b ≤ 122) || (48 ≤ b && b ≤ 57)

/-- `^[a-z0-9][a-z0-9_-]{0,63}$` and, with the dot among `more`, the same for ids. -/
def matchWord (more : Bytes) : Bytes → Bool
  | [] => false
  | b :: s =>
      isLowerOrDigit b && s.length ≤ 63 && s.all fun c => isLowerOrDigit c || more.contains c

def matchName : Bytes → Bool := matchWord (ascii "_-")

def matchActID : Bytes → Bool := matchWord (ascii "_.-")

def matchOutput (output : Bytes) : Bool := output = ascii "result" || output = ascii "metrics"

def parseRisk (risk : Bytes) : Option Risk :=
  if risk = ascii "low" then some .low
  else if risk = ascii "medium" then some .medium
  else if risk = ascii "high" then some .high
  else none

/-- Why a plugin is rejected; the values are those quoted in the messages. -/
inductive LoadError where
  /-- The error of `os.Stat`, `os.ReadFile` or `yaml.Unmarshal`. -/
  | stat | read | parse
  /-- `must be owned by root (uid=%d)` -/
  | notRoot (uid : Nat)
  /-- `must not be group/world writable (mode=%o)` -/
  | writable (perm : UInt32)
  /-- `manifest: %w` -/
  | manifest (err : LoadError)
  /-- `exec: %w` -/
  | exec (err : LoadError)
  /-- `invalid plugin name %q` -/
  | invalidName (name : Bytes)
  /-- `dir %s != manifest name %s` -/
  | nameMismatch (dir name : Bytes)
  /-- `actions count %d out of range 1..16` -/
  | actionCount (count : Nat)
  /-- `invalid action id` -/
  | invalidActionId
  /-- `invalid risk %q` -/
  | invalidRisk (risk : Bytes)
  /-- `invalid output %q` -/
  | invalidOutput (output : Bytes)
  /-- `exec must stay inside plugin dir: %q` -/
  | execOutside (exec : Bytes)
  /-- `exec resolve: %w`, the error of `filepath.EvalSymlinks` -/
  | execResolve
  /-- `exec symlink escapes plugin dir` -/
  | execEscapes
  /-- `exec not executable` -/
  | notExecutable
  /-- `invalid max_timeout %q` -/
  | invalidTimeout (maxTimeout : Bytes)
  /-- `action[%d] %q: %w` -/
  | action (index : Nat) (id : Bytes) (err : LoadError)
deriving Repr, DecidableEq

variable (host : Host)

def rootOwnedStrict (path : Bytes) : Except LoadError Unit := do
  let st ← orError (host.stat path) .stat
  require (st.uid = 0) (.notRoot st.uid)
  require (st.perm &&& 0o022 = 0) (.writable st.perm)

/-- `max_timeout`, which is 0 if there is none. -/
def maxTimeout (text : Bytes) : Except LoadError Int64 :=
  if text = [] then .ok 0
  else do
    let d ← orError (host.parseDuration text) (.invalidTimeout text)
    require (0 < d) (.invalidTimeout text)
    pure d

def actionID (name id : Bytes) : Bytes := ascii "plugin." ++ (name ++ 46 :: id)

def buildAction (dir name : Bytes) (a : ManifestAction) : Except LoadError ExecAction := do
  require (matchActID a.id) .invalidActionId
  let risk ← orError (parseRisk a.risk) (.invalidRisk a.risk)
  let output := if a.output = [] then ascii "result" else a.output
  require (matchOutput output) (.invalidOutput output)
  require (!isAbs a.exec && !hasDotDot a.exec) (.execOutside a.exec)
  let resolved ← orError (host.evalSymlinks (join [dir, a.exec])) .execResolve
  require ((dir ++ [47]).isPrefixOf resolved) .execEscapes
  (rootOwnedStrict host resolved).mapError .exec
  let st ← orError (host.stat resolved) .notExecutable
  require (!st.isDir && st.perm &&& 0o111 ≠ 0) .notExecutable
  let pluginTO ← maxTimeout host a.maxTimeout
  pure { id := actionID name a.id, validate := none, risk, binary := resolved, args := a.args,
         func := false, pluginTO }

/-- The first action that fails rejects the plugin. -/
def buildActions (dir name : Bytes) : Nat → List ManifestAction → Except LoadError (List ExecAction)
  | _, [] => .ok []
  | i, a :: rest =>
      match buildAction host dir name a with
      | .error err => .error (.action i a.id err)
      | .ok act => do
          let acts ← buildActions dir name (i + 1) rest
          pure (act :: acts)

def loadOne (dir : Bytes) : Except LoadError (List ExecAction) := do
  let mfPath := join [dir, ascii "manifest.yaml"]
  (rootOwnedStrict host mfPath).mapError .manifest
  let data ← orError (host.readFile mfPath) .read
  let mf ← orError (host.unmarshal data) .parse
  require (matchName mf.name) (.invalidName mf.name)
  require (base dir = mf.name) (.nameMismatch (base dir) mf.name)
  require (mf.actions.length ≠ 0 && mf.actions.length ≤ 16) (.actionCount mf.actions.length)
  buildActions host dir mf.name 0 mf.actions

def loadEntry (root : Bytes) (e : DirEntry) : List ExecAction :=
  if e.isDir then
    match loadOne host (join [root, e.name]) with
    | .ok acts => acts
    | .error _ => []
  else []

def loadDir (root : Bytes) : List ExecAction :=
  match host.readDir root with
  | none => []
  | some entries => entries.flatMap (loadEntry host root)

end TomAgent.Plugin
