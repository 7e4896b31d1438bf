import TomAgent.Executor.Argv

/-!
# Commands and the private key of the agent

The registration keeps the key in a directory below the data directory, and the data
directory is one of the two that the end of a log may be read from.
-/

namespace TomAgent.Register

open Executor (ascii)

def defaultDataDir : Bytes := ascii "/var/lib/tom_ai_agent"

def pkiDir (dataDir : Bytes) : Bytes := LexicalPath.join [dataDir, ascii "pki"]

def keyPath (dataDir : Bytes) : Bytes := LexicalPath.join [pkiDir dataDir, ascii "agent.key"]

end TomAgent.Register

namespace TomAgent.Executor

open Authenv LexicalPath Register

/-- The arguments that are names of files to the programs of the built-in actions: those
of `tail` behind `--`, and those of `df` that are no options.  The others take none. -/
def fileOperands : List Bytes → List Bytes
  | [] => []
  | binary :: args =>
      if binary = ascii "/usr/bin/tail" then (args.dropWhile fun arg => arg ≠ ascii "--").drop 1
      else if binary = ascii "/usr/bin/df" then args.filter fun arg => arg.head? ≠ some 45
      else []

def InDirectory (dir p : Bytes) : Prop :=
  isAbs p = isAbs dir ∧ ∃ name, names p = names dir ++ [name]

/-! ## The built-in actions -/

theorem readLogTail_mem (allowTestActions : Bool) : readLogTail ∈ builtins allowTestActions := by
  simp [builtins]

theorem eq_readLogTail {allowTestActions : Bool} {a : ExecAction}
    (ha : a ∈ builtins allowTestActions) (hid : a.id = readLogTail.id) : a = readLogTail :=
  List.inj_on_of_nodup_map (builtins_ids_nodup allowTestActions) ha
    (readLogTail_mem allowTestActions) hid

/-- No other action runs `tail`, and `df` is run with an option alone. -/
theorem builtins_programs (allowTestActions : Bool) :
    ∀ a ∈ builtins allowTestActions, a.id ≠ readLogTail.id →
      a.binary ≠ ascii "/usr/bin/tail" ∧
        (a.binary = ascii "/usr/bin/df" → a.args = [ascii "-h"]) := by
  cases allowTestActions <;> decide

/-- Only the end of a log is read from a file that was asked for. -/
theorem fileOperands_builtin {allowTestActions : Bool} {a : ExecAction}
    (ha : a ∈ builtins allowTestActions) (hother : a.id ≠ readLogTail.id) (order : Nat → Params) :
    fileOperands (buildArgv a order) = [] := by
  obtain ⟨htail, hargs⟩ := builtins_programs allowTestActions a ha hother
  rw [buildArgv, fileOperands, if_neg htail]
  by_cases hdf : a.binary = ascii "/usr/bin/df"
  · have hoption := fillArg_of_notMem (order 0) (show 123 ∉ ascii "-h" by decide)
    rw [if_pos hdf, hargs hdf, List.mapIdx_cons, List.mapIdx_nil, hoption]
    rfl
  · rw [if_neg hdf]

theorem fileOperands_readLogTail {params : Params} (haccepted : validateLogTail params = .ok ())
    {order : Nat → Params} (horder : IterationOrders params order) :
    fileOperands (buildArgv readLogTail order) = [paramValue params (ascii "path")] := by
  have hlines : (params.lookup (ascii "lines")).getD (ascii "100") ≠ ascii "--" := by
    intro heq
    cases hlookup : params.lookup (ascii "lines") with
    | none =>
        rw [hlookup] at heq
        revert heq
        decide
    | some v =>
        have hvalue := (logTailParams_of_ok haccepted).lines
        rw [paramValue_of_lookup hlookup] at hvalue
        rw [hlookup, Option.getD_some] at heq
        rw [heq] at hvalue
        revert hvalue
        decide
  rw [buildArgv_readLogTail haccepted horder, fileOperands, if_pos rfl,
    List.dropWhile_cons_of_pos (by decide), List.dropWhile_cons_of_pos (by simpa using hlines),
    List.dropWhile_cons_of_neg (by decide)]
  rfl

/-- For every built-in action, all parameters that pass its check and every iteration order: no
file operand, cleaned, is a name in the directory of the key, if and only if the action is
another one than `diagnose.read_log_tail` or the path, without its empty and `.` components, is
not `/var/lib/tom_ai_agent/pki` and one name. -/
theorem private_key_unread_iff (allowTestActions : Bool) (a : ExecAction)
    (ha : a ∈ builtins allowTestActions) (params : Params) (haccepted : a.Accepts params)
    (order : Nat → Params) (horder : IterationOrders params order) :
    (∀ operand ∈ fileOperands (buildArgv a order),
        ¬ InDirectory (pkiDir defaultDataDir) operand) ↔
      (a.id = ascii "diagnose.read_log_tail" → ∀ name,
        ((paramValue params (ascii "path")).splitOn 47).filter (fun c => IsStep c) ≠
          [ascii "var", ascii "lib", ascii "tom_ai_agent", ascii "pki", name]) := by
  have hdir : names (pkiDir defaultDataDir) =
      [ascii "var", ascii "lib", ascii "tom_ai_agent", ascii "pki"] := by decide
  by_cases hid : a.id = readLogTail.id
  · obtain rfl := eq_readLogTail ha hid
    have hvalid : validateLogTail params = .ok () := haccepted validateLogTail rfl
    have hpath := logTailParams_of_ok hvalid
    have habs : isAbs (paramValue params (ascii "path")) = isAbs (pkiDir defaultDataDir) :=
      isAbs_of_matchSafePath hpath.safe
    rw [fileOperands_readLogTail hvalid horder, List.forall_mem_singleton, InDirectory,
      names_logPath hpath, hdir]
    constructor
    · intro hout _ name heq
      exact hout ⟨habs, name, heq⟩
    · rintro hout ⟨-, name, heq⟩
      exact hout rfl name heq
  · rw [fileOperands_builtin ha hid]
    constructor
    · intro _ heq
      exact absurd heq hid
    · intro _ operand hmem
      cases hmem

/-- The key itself passes. -/
def keyParams : Params :=
  AList.insert (ascii "path") (ascii "/var/lib/tom_ai_agent/pki/agent.key") ∅

theorem private_key_read :
    readLogTail ∈ builtins false ∧ validateLogTail keyParams = .ok () ∧
      fileOperands (buildArgv readLogTail fun _ => keyParams) = [keyPath defaultDataDir] ∧
      InDirectory (pkiDir defaultDataDir) (keyPath defaultDataDir) :=
  ⟨readLogTail_mem false, rfl, by decide, by decide, ascii "agent.key", by decide⟩

def agentLogParams : Params :=
  AList.insert (ascii "path") (ascii "/var/lib/tom_ai_agent/./agent.log") ∅

theorem private_key_unread_agentLog :
    readLogTail ∈ builtins false ∧ validateLogTail agentLogParams = .ok () ∧
      ∀ operand ∈ fileOperands (buildArgv readLogTail fun _ => agentLogParams),
        ¬ InDirectory (pkiDir defaultDataDir) operand := by
  have haccepted : readLogTail.Accepts agentLogParams := by
    intro validate hvalidate
    cases hvalidate
    rfl
  refine ⟨readLogTail_mem false, rfl, (private_key_unread_iff false readLogTail
    (readLogTail_mem false) agentLogParams haccepted (fun _ => agentLogParams)
    fun _ => List.Perm.refl _).mpr ?_⟩
  intro _ name heq
  have hnames : ((paramValue agentLogParams (ascii "path")).splitOn 47).filter
      (fun c => IsStep c) =
        [ascii "var", ascii "lib", ascii "tom_ai_agent", ascii "agent.log"] := by
    decide
  rw [hnames] at heq
  cases heq

end TomAgent.Executor
