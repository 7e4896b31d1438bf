import TomAgent.Core.LexicalPath
import TomAgent.Core.Replace
import TomAgent.Executor.Actions

/-!
# How an action is run

An external action is a fixed binary with templates for its arguments; `buildArgv`
fills in the parameters.  It goes through the map once for every argument, and each
time in an order of its own.
-/

namespace TomAgent.Executor

open Authenv Replace

inductive Risk where
  | low
  | medium
  | high
deriving Repr, DecidableEq

structure ExecAction extends Action where
  risk : Risk
  binary : Bytes
  args : List Bytes
  /-- The action has a function of its own and no process is started. -/
  func : Bool
  /-- The limit of a plugin in nanoseconds; 0 is none. -/
  pluginTO : Int64

def external (a : Action) (binary : String) (args : List String) : ExecAction :=
  { a with risk := .low, binary := ascii binary, args := args.map ascii, func := false,
           pluginTO := 0 }

def internal (a : Action) : ExecAction :=
  { a with risk := .low, binary := [], args := [], func := true, pluginTO := 0 }

def readLogTail : ExecAction :=
  external (checked "diagnose.read_log_tail" validateLogTail) "/usr/bin/tail"
    ["-n", "\x7blines\x7d", "--", "\x7bpath\x7d"]

def builtins (allowTestActions : Bool) : List ExecAction :=
  [external (unchecked "diagnose.disk_usage") "/usr/bin/df" ["-h"],
    external (unchecked "diagnose.memory_summary") "/usr/bin/free" ["-m"],
    external (unchecked "diagnose.cpu_top") "/usr/bin/top" ["-b", "-n", "1"],
    external (unchecked "diagnose.network_connections") "/usr/bin/ss" ["-s"],
    external (unchecked "diagnose.process_list") "/usr/bin/ps"
      ["-eo", "pid,ppid,user,pcpu,pmem,comm", "--sort=-pcpu"],
    external (checked "diagnose.service_status" validateService) "/usr/bin/systemctl"
      ["status", "--no-pager", "--", "\x7bservice\x7d.service"],
    readLogTail,
    internal (unchecked "agent.status"),
    internal (unchecked "inventory.refresh")] ++
    if allowTestActions then
      [{ external (checked "diagnose.test_sleep" validateSleep) "/usr/bin/sleep"
          ["\x7bseconds\x7d"] with risk := .medium }]
    else []

theorem builtins_toAction (allowTestActions : Bool) :
    (builtins allowTestActions).map ExecAction.toAction = builtinActions allowTestActions := by
  cases allowTestActions <;> rfl

theorem builtins_ids_nodup (allowTestActions : Bool) :
    ((builtins allowTestActions).map fun a => a.id).Nodup := by
  cases allowTestActions <;> decide

def Action.Accepts (a : Action) (params : Params) : Prop :=
  ∀ validate, a.validate = some validate → validate params = .ok ()

/-! ## Filling in the parameters -/

/-- The name between braces. -/
def placeholder (name : Bytes) : Bytes := 123 :: (name ++ [125])

def substitute (params : List (Sigma fun _ : Bytes => Bytes)) (arg : Bytes) : Bytes :=
  params.foldl (fun arg e => replaceAll arg (placeholder e.1) e.2) arg

def fillArg (params : Params) (arg : Bytes) : Bytes :=
  replaceAll (substitute params.entries arg) (placeholder (ascii "lines")) (ascii "100")

/-- `order i` is the map as it is gone through for the argument with index `i`. -/
def buildArgv (a : ExecAction) (order : Nat → Params) : List Bytes :=
  a.binary :: a.args.mapIdx fun i arg => fillArg (order i) arg

/-- Every argument may see another order. -/
def IterationOrders (params : Params) (order : Nat → Params) : Prop :=
  ∀ i, (order i).entries.Perm params.entries

/-! ## One placeholder -/

theorem placeholder_ne_nil (name : Bytes) : placeholder name ≠ [] := List.cons_ne_nil _ _

theorem placeholder_injective {k name : Bytes} (h : placeholder k = placeholder name) :
    k = name := by
  unfold placeholder at h
  exact List.append_cancel_right (List.cons.inj h).2

/-- A name without braces: no other placeholder is part of its own. -/
theorem eq_of_placeholder_within {k name : Bytes} (hopen : 123 ∉ name) (hclose : 125 ∉ name)
    (h : placeholder k <:+: placeholder name) : k = name := by
  obtain ⟨before, rest, hsplit⟩ := h
  have hbefore : before = [] := by
    cases before with
    | nil => rfl
    | cons b before =>
        exfalso
        have htail : before ++ placeholder k ++ rest = name ++ [125] := (List.cons.inj hsplit).2
        have hmem : 123 ∈ name ++ [125] := by
          rw [← htail]
          simp [placeholder]
        simp [hopen] at hmem
  subst hbefore
  have hrest : rest = [] := by
    cases hlast : rest.reverse with
    | nil => exact List.reverse_eq_nil_iff.mp hlast
    | cons b reversed =>
        exfalso
        have hrest : rest = reversed.reverse ++ [b] := by
          rw [← List.reverse_reverse rest, hlast, List.reverse_cons]
        have hbody : (k ++ [125]) ++ reversed.reverse ++ [b] = name ++ [125] := by
          rw [hrest] at hsplit
          simpa [placeholder] using hsplit
        have hname := (List.append_inj' hbody rfl).1
        exact hclose (by rw [← hname]; simp)
  subst hrest
  rw [List.nil_append, List.append_nil] at hsplit
  exact placeholder_injective hsplit

theorem substitute_of_notMem {text : Bytes} (h : 123 ∉ text)
    (params : List (Sigma fun _ : Bytes => Bytes)) : substitute params text = text := by
  induction params with
  | nil => rfl
  | cons e params ih =>
      have hstep : replaceAll text (placeholder e.1) e.2 = text :=
        replaceAll_of_notMem List.mem_cons_self h e.2
      rw [substitute, List.foldl_cons, hstep]
      exact ih

/-- The template of one parameter: its value if it is there, whatever else is. -/
theorem substitute_placeholder {name : Bytes} (hopen : 123 ∉ name) (hclose : 125 ∉ name)
    {params : List (Sigma fun _ : Bytes => Bytes)} (hkeys : params.NodupKeys)
    (hvalue : ∀ v, params.dlookup name = some v → 123 ∉ v) :
    substitute params (placeholder name) = (params.dlookup name).getD (placeholder name) := by
  induction params with
  | nil => rfl
  | cons e params ih =>
      obtain ⟨k, v⟩ := e
      rw [substitute, List.foldl_cons]
      by_cases hk : k = name
      · subst hk
        rw [List.dlookup_cons_eq] at hvalue ⊢
        rw [replaceAll_self (placeholder_ne_nil k), Option.getD_some]
        exact substitute_of_notMem (hvalue v rfl) params
      · have hother : ¬ placeholder k <:+: placeholder name :=
          fun hwithin => hk (eq_of_placeholder_within hopen hclose hwithin)
        have hnext : List.dlookup name (⟨k, v⟩ :: params) = List.dlookup name params :=
          List.dlookup_cons_ne params ⟨k, v⟩ (Ne.symm hk)
        rw [hnext] at hvalue ⊢
        rw [replaceAll_of_absent hother]
        exact ih (List.nodupKeys_cons.mp hkeys).2 hvalue

theorem fillArg_placeholder {params order : Params} (horder : order.entries.Perm params.entries)
    {name : Bytes} (hopen : 123 ∉ name) (hclose : 125 ∉ name)
    (hvalue : ∀ v, params.lookup name = some v → 123 ∉ v) :
    fillArg order (placeholder name) =
      replaceAll ((params.lookup name).getD (placeholder name)) (placeholder (ascii "lines"))
        (ascii "100") := by
  have hlookup : List.dlookup name order.entries = params.lookup name := AList.perm_lookup horder
  rw [← hlookup] at hvalue
  rw [fillArg, substitute_placeholder hopen hclose order.nodupKeys hvalue, hlookup]

theorem fillArg_of_notMem (params : Params) {arg : Bytes} (h : 123 ∉ arg) :
    fillArg params arg = arg := by
  rw [fillArg, substitute_of_notMem h]
  exact replaceAll_of_notMem List.mem_cons_self h _

/-! ## Reading the end of a log -/

structure LogTailParams (path lines : Bytes) : Prop where
  safe : matchSafePath path = true
  noParent : ¬ LexicalPath.parent <:+: path
  allowed : ∃ dir ∈ logPathAllowed, dir <+: path
  lines : lines = [] ∨ matchLines lines = true

theorem hasDotDot_eq_false {path : Bytes} (h : hasDotDot path = false) :
    ¬ LexicalPath.parent <:+: path := by
  intro hwithin
  obtain ⟨t, hprefix, hsuffix⟩ := List.infix_iff_prefix_suffix.mp hwithin
  have hany : hasDotDot path = true := by
    rw [hasDotDot, List.any_eq_true]
    exact ⟨t, (List.mem_tails t path).mpr hsuffix, List.isPrefixOf_iff_prefix.mpr hprefix⟩
  rw [h] at hany
  cases hany

theorem logTailParams_of_ok {params : Params} (h : validateLogTail params = .ok ()) :
    LogTailParams (paramValue params (ascii "path")) (paramValue params (ascii "lines")) := by
  unfold validateLogTail at h
  dsimp only at h
  split at h
  next => cases h
  next hpath =>
    split at h
    next => cases h
    next hallowed =>
      split at h
      next => cases h
      next hlines =>
        rw [not_or, Bool.not_eq_false, Bool.not_eq_true] at hpath
        rw [Bool.not_eq_false, List.any_eq_true] at hallowed
        obtain ⟨dir, hdir, hprefix⟩ := hallowed
        refine ⟨hpath.1, hasDotDot_eq_false hpath.2,
          ⟨dir, hdir, List.isPrefixOf_iff_prefix.mp hprefix⟩, ?_⟩
        rw [not_and_or, not_not, Bool.not_eq_false] at hlines
        exact hlines

theorem notMem_of_matchSafePath {path : Bytes} (h : matchSafePath path = true) : 123 ∉ path := by
  intro hmem
  unfold matchSafePath at h
  split at h
  next s =>
    rcases List.mem_cons.mp hmem with heq | hmem
    · cases heq
    · rw [Bool.and_eq_true, List.all_eq_true] at h
      have hbyte := h.2 123 hmem
      revert hbyte
      decide
  next => cases h

theorem notMem_of_matchLines {lines : Bytes} (h : lines = [] ∨ matchLines lines = true) :
    123 ∉ lines := by
  intro hmem
  rcases h with rfl | h
  · cases hmem
  · unfold matchLines at h
    split at h
    next d s =>
      simp only [Bool.and_eq_true, List.all_eq_true, decide_eq_true_eq] at h
      rcases List.mem_cons.mp hmem with heq | hmem
      · have hdigit := h.1.1.2
        rw [← heq] at hdigit
        revert hdigit
        decide
      · have hdigit := (h.2 123 hmem).2
        revert hdigit
        decide
    next => cases h

theorem paramValue_of_lookup {params : Params} {k v : Bytes} (h : params.lookup k = some v) :
    paramValue params k = v := by
  rw [paramValue, h, Option.getD_some]

theorem buildArgv_readLogTail {params : Params} (haccepted : validateLogTail params = .ok ())
    {order : Nat → Params} (horder : IterationOrders params order) :
    buildArgv readLogTail order =
      [ascii "/usr/bin/tail", ascii "-n", (params.lookup (ascii "lines")).getD (ascii "100"),
        ascii "--", paramValue params (ascii "path")] := by
  have hparams := logTailParams_of_ok haccepted
  have hpath : ascii "path" ∈ params := by
    by_contra habsent
    have hsafe := hparams.safe
    rw [paramValue, AList.lookup_eq_none.mpr habsent] at hsafe
    cases hsafe
  have hlinesArg : fillArg (order 1) (placeholder (ascii "lines")) =
      (params.lookup (ascii "lines")).getD (ascii "100") := by
    have hvalue : ∀ v, params.lookup (ascii "lines") = some v → 123 ∉ v := by
      intro v hv
      rw [← paramValue_of_lookup hv]
      exact notMem_of_matchLines hparams.lines
    rw [fillArg_placeholder (horder 1) (by decide) (by decide) hvalue]
    cases hlines : params.lookup (ascii "lines") with
    | none => exact replaceAll_self (placeholder_ne_nil _) _
    | some v => exact replaceAll_of_notMem List.mem_cons_self (hvalue v hlines) _
  have hpathArg : fillArg (order 3) (placeholder (ascii "path")) =
      paramValue params (ascii "path") := by
    have hvalue : ∀ v, params.lookup (ascii "path") = some v → 123 ∉ v := by
      intro v hv
      rw [← paramValue_of_lookup hv]
      exact notMem_of_matchSafePath hparams.safe
    have hpresent := lookup_of_mem hpath
    rw [fillArg_placeholder (horder 3) (by decide) (by decide) hvalue, hpresent, Option.getD_some]
    exact replaceAll_of_notMem List.mem_cons_self (hvalue _ hpresent) _
  have hoption := fillArg_of_notMem (order 0) (show 123 ∉ ascii "-n" by decide)
  have hend := fillArg_of_notMem (order 2) (show 123 ∉ ascii "--" by decide)
  change [ascii "/usr/bin/tail", fillArg (order 0) (ascii "-n"),
    fillArg (order 1) (placeholder (ascii "lines")), fillArg (order 2) (ascii "--"),
    fillArg (order 3) (placeholder (ascii "path"))] = _
  rw [hoption, hlinesArg, hend, hpathArg]

/-- A path that passes, cleaned: what is no step is left out. -/
theorem names_logPath {path lines : Bytes} (h : LogTailParams path lines) :
    LexicalPath.names path = (path.splitOn 47).filter fun c => LexicalPath.IsStep c :=
  LexicalPath.names_of_no_parent h.noParent

theorem isAbs_of_matchSafePath {path : Bytes} (h : matchSafePath path = true) :
    LexicalPath.isAbs path = true := by
  unfold matchSafePath at h
  split at h
  next => rfl
  next => cases h

theorem names_allowed {path lines : Bytes} (h : LogTailParams path lines) :
    LexicalPath.names (ascii "/var/log") <+: LexicalPath.names path ∨
      LexicalPath.names (ascii "/var/lib/tom_ai_agent") <+: LexicalPath.names path := by
  obtain ⟨dir, hdir, rest, rfl⟩ := h.allowed
  have hbelow : ∀ top : Bytes, ¬ LexicalPath.parent <:+: (top ++ 47 :: rest) →
      (top.splitOn 47).filter (fun c => LexicalPath.IsStep c) <+:
        LexicalPath.names (top ++ 47 :: rest) := by
    intro top hno
    rw [LexicalPath.names_append_slash_of_no_parent hno]
    exact List.prefix_append _ _
  have hcases : dir = ascii "/var/log" ++ [47] ∨ dir = ascii "/var/lib/tom_ai_agent" ++ [47] := by
    rcases List.mem_cons.mp hdir with hlog | hdata
    · exact .inl hlog
    · exact .inr (List.mem_singleton.mp hdata)
  rcases hcases with rfl | rfl
  · have hno := h.noParent
    rw [List.append_assoc] at hno ⊢
    exact .inl (hbelow _ hno)
  · have hno := h.noParent
    rw [List.append_assoc] at hno ⊢
    exact .inr (hbelow _ hno)

/-- For all parameters that pass the check, with any others beside them, and in every iteration
order, the command line of `diagnose.read_log_tail` is `tail -n`, the number of lines, `--` and
the path as it was given, and the path cleaned is one of the two directories or lies below
one. -/
theorem read_log_tail_argv (params : Params) (haccepted : validateLogTail params = .ok ())
    (order : Nat → Params) (horder : IterationOrders params order) :
    let path := paramValue params (ascii "path")
    buildArgv readLogTail order =
        [ascii "/usr/bin/tail", ascii "-n", (params.lookup (ascii "lines")).getD (ascii "100"),
          ascii "--", path] ∧
      LexicalPath.isAbs (LexicalPath.clean path) = true ∧
      (LexicalPath.names (ascii "/var/log") <+: LexicalPath.names (LexicalPath.clean path) ∨
        LexicalPath.names (ascii "/var/lib/tom_ai_agent") <+:
          LexicalPath.names (LexicalPath.clean path)) := by
  intro path
  have hparams := logTailParams_of_ok haccepted
  rw [LexicalPath.isAbs_clean, LexicalPath.names_clean]
  exact ⟨buildArgv_readLogTail haccepted horder, isAbs_of_matchSafePath hparams.safe,
    names_allowed hparams⟩

/-- A path in another spelling, and a parameter that wants to be the path. -/
def syslogParams : Params :=
  (AList.insert (ascii "x") (ascii "\x7bpath\x7d") ∅).insert (ascii "path")
    (ascii "/var/log/.//syslog")

theorem read_log_tail_argv_syslog :
    validateLogTail syslogParams = .ok () ∧
      IterationOrders syslogParams (fun _ => syslogParams) ∧
      buildArgv readLogTail (fun _ => syslogParams) =
        [ascii "/usr/bin/tail", ascii "-n", ascii "100", ascii "--", ascii "/var/log/.//syslog"] :=
  ⟨rfl, fun _ => List.Perm.refl _,
    (read_log_tail_argv syslogParams rfl (fun _ => syslogParams) fun _ => List.Perm.refl _).1⟩

end TomAgent.Executor
