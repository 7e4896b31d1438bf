import TomAgent.Executor.Substitution
import TomAgent.Plugin.Checks

/-!
# Registered plugins

A plugin is loaded as a whole or not at all, its binaries lie below its directory, and
its ids contain its name, which no other plugin has.
-/

namespace TomAgent.Plugin

open Executor Fallible LexicalPath

variable {host : Host}

/-! ## Confinement -/

def NoSymlinks (host : Host) (p : Bytes) : Prop :=
  ∀ k, 0 < k → k ≤ (names p).length →
    host.isSymlink (render (isAbs p) ((names p).take k)) = false

/-- What is known of the functions of `os` and `path/filepath`. -/
structure Host.Documented (host : Host) : Prop where
  entry : ∀ root entries, host.readDir root = some entries → ∀ e ∈ entries, IsEntry e.name
  distinct : ∀ root entries, host.readDir root = some entries →
    (entries.map fun e => e.name).Nodup
  cleaned : ∀ p q, host.evalSymlinks p = some q → clean q = q
  resolved : ∀ p q, host.evalSymlinks p = some q → NoSymlinks host q

structure Inside (host : Host) (dir p : Bytes) : Prop where
  rooted : isAbs p = isAbs dir
  below : ∃ rest, rest ≠ [] ∧ names p = names dir ++ rest ∧ parent ∉ rest
  real : NoSymlinks host p

theorem Executable.inside {root exec resolved : Bytes} {e : Name}
    (h : Executable host (join [root, e]) exec resolved) (hdoc : host.Documented)
    (he : IsEntry e) : Inside host (join [root, e]) resolved := by
  obtain ⟨p, front, hjoin, hnames⟩ := join_entry root he
  obtain ⟨s, hs⟩ := h.below
  rw [List.append_assoc, List.singleton_append] at hs
  have hclean := hdoc.cleaned _ _ h.resolves
  have hreal := hdoc.resolved _ _ h.resolves
  have hlast : e ∈ names (join [root, e]) := by
    rw [hjoin, names_clean, hnames]
    simp
  have hne : join [root, e] ≠ [] := by
    rw [hjoin]
    exact clean_ne_nil p
  rw [← hs] at hclean hreal ⊢
  obtain ⟨habs, hbelow⟩ := names_of_clean_append hne hclean
  have hvalid := valid_names (join [root, e] ++ 47 :: s)
  rw [hbelow] at hvalid
  exact ⟨habs, ⟨s.splitOn 47, splitOn_ne_nil s, hbelow,
    hvalid.parent_notMem hlast he.parent⟩, hreal⟩

/-! ## Ids -/

theorem dot_notMem_of_matchName {name : Bytes} (h : matchName name = true) : 46 ∉ name := by
  intro hmem
  cases name with
  | nil => cases hmem
  | cons b s =>
      simp only [matchName, matchWord, Bool.and_eq_true, List.all_eq_true] at h
      rcases List.mem_cons.mp hmem with heq | hmem
      · have hfirst := h.1.1
        rw [← heq] at hfirst
        revert hfirst
        decide
      · have hbyte := h.2 46 hmem
        revert hbyte
        decide

/-- The name ends at the first dot behind `plugin.`, whatever the id is. -/
theorem name_eq_of_actionID {name name' id id' : Bytes} (hname : 46 ∉ name) (hname' : 46 ∉ name')
    (h : actionID name id = actionID name' id') : name = name' := by
  have hcut : ∀ n i : Bytes, 46 ∉ n → (n ++ 46 :: i).takeWhile (fun b => b ≠ 46) = n := by
    intro n i hn
    rw [List.takeWhile_append_of_pos, List.takeWhile_cons_of_neg (by simp), List.append_nil]
    intro b hb
    simpa using fun heq : b = 46 => hn (heq ▸ hb)
  have hrest := List.append_cancel_left h
  rw [← hcut name id hname, hrest, hcut name' id' hname']

/-! ## What is loaded -/

/-- The action is one of those that the plugin in this entry contributes. -/
def LoadedFrom (host : Host) (root : Bytes) (e : DirEntry) (act : ExecAction) : Prop :=
  ∃ entries, host.readDir root = some entries ∧ e ∈ entries ∧ act ∈ loadEntry host root e

theorem mem_loadDir {root : Bytes} {act : ExecAction} :
    act ∈ loadDir host root ↔ ∃ e, LoadedFrom host root e act := by
  unfold loadDir LoadedFrom
  cases host.readDir root with
  | none => simp
  | some entries => simp

variable {root : Bytes} {e e' : DirEntry} {act act' : ExecAction}

theorem LoadedFrom.isEntry (h : LoadedFrom host root e act) (hdoc : host.Documented) :
    IsEntry e.name := by
  obtain ⟨entries, hentries, he, -⟩ := h
  exact hdoc.entry root entries hentries e he

theorem LoadedFrom.plugin (h : LoadedFrom host root e act) :
    ∃ mf, PluginPassed host (join [root, e.name]) mf ∧
      List.Forall₂ (Built host (join [root, e.name]) mf.name) mf.actions
        (loadEntry host root e) := by
  obtain ⟨entries, -, -, hmem⟩ := h
  obtain ⟨acts, hdir, hacts, -⟩ := mem_loadEntry hmem
  have hall : loadEntry host root e = acts := by
    simp only [loadEntry, hdir, hacts, if_true]
  rw [hall]
  exact loadOne_ok hacts

theorem LoadedFrom.inside (h : LoadedFrom host root e act) (hdoc : host.Documented) :
    Inside host (join [root, e.name]) act.binary := by
  have hentry := h.isEntry hdoc
  obtain ⟨mf, -, hbuilt⟩ := h.plugin
  obtain ⟨_, _, _, hmem⟩ := h
  obtain ⟨a, -, hact⟩ := exists_of_forall₂ hbuilt.flip hmem
  exact hact.binary.inside hdoc hentry

theorem LoadedFrom.id (h : LoadedFrom host root e act) (hdoc : host.Documented) :
    46 ∉ e.name ∧ ∃ id, act.id = actionID e.name id := by
  obtain ⟨mf, hpassed, hbuilt⟩ := h.plugin
  obtain ⟨p, front, hjoin, hnames⟩ := join_entry root (h.isEntry hdoc)
  have hname : mf.name = e.name := by
    rw [← hpassed.directory, hjoin, base_clean hnames]
  obtain ⟨_, _, _, hmem⟩ := h
  obtain ⟨a, -, hact⟩ := exists_of_forall₂ hbuilt.flip hmem
  rw [← hname]
  exact ⟨dot_notMem_of_matchName hpassed.name, a.id, hact.id⟩

/-- An id tells the plugin. -/
theorem LoadedFrom.entry_eq (h : LoadedFrom host root e act) (h' : LoadedFrom host root e' act')
    (hdoc : host.Documented) (hid : act.id = act'.id) : e = e' := by
  obtain ⟨hdot, id, hact⟩ := h.id hdoc
  obtain ⟨hdot', id', hact'⟩ := h'.id hdoc
  have hname : e.name = e'.name := by
    rw [hact, hact'] at hid
    exact name_eq_of_actionID hdot hdot' hid
  obtain ⟨entries, hentries, he, -⟩ := h
  obtain ⟨entries', hentries', he', -⟩ := h'
  obtain rfl : entries = entries' := Option.some.inj (hentries.symm.trans hentries')
  exact List.inj_on_of_nodup_map (hdoc.distinct root entries hentries) he he' hname

/-! ## What is registered -/

def registered (host : Host) (root : Bytes) (allowTestActions : Bool) : ExecCatalog :=
  (ExecCatalog.builtin allowTestActions).addActions (loadDir host root)

theorem lookup_builtin_actionID (allowTestActions : Bool) (name id : Bytes) :
    (ExecCatalog.builtin allowTestActions).lookup (actionID name id) = none := by
  rw [ExecCatalog.builtin, ExecCatalog.lookup_addActions, AList.lookup_empty, Option.none_or,
    List.find?_eq_none]
  have hfirst : ∀ a ∈ builtins allowTestActions, a.id.head? ≠ some 112 := by
    cases allowTestActions <;> decide
  intro a ha hid
  have heq : a.id = actionID name id := by simpa using hid
  exact hfirst a ha (heq ▸ rfl)

/-- Only an action of the same plugin can keep an action out of the catalog. -/
theorem LoadedFrom.lookup_registered (h : LoadedFrom host root e act) (hdoc : host.Documented)
    (allowTestActions : Bool) :
    ∃ act', LoadedFrom host root e act' ∧ act'.id = act.id ∧
      (registered host root allowTestActions).lookup act.id = some act' := by
  obtain ⟨-, id, hact⟩ := h.id hdoc
  have hlookup : (registered host root allowTestActions).lookup act.id =
      (loadDir host root).find? fun a => a.id = act.id := by
    rw [registered, ExecCatalog.lookup_addActions, hact, lookup_builtin_actionID, Option.none_or]
  rw [hlookup]
  cases hfind : (loadDir host root).find? fun a => a.id = act.id with
  | none => simpa using List.find?_eq_none.mp hfind act (mem_loadDir.mpr ⟨e, h⟩)
  | some act' =>
      have hid : act'.id = act.id := by simpa using List.find?_some hfind
      obtain ⟨e', h'⟩ := mem_loadDir.mp (List.mem_of_find?_eq_some hfind)
      obtain rfl := h'.entry_eq h hdoc hid
      exact ⟨act', h', hid, rfl⟩

/-- Whatever the plugin directory contains: every action that `LoadDir` returns is one of a
plugin that passed every check with all its actions, all of which are returned, and its binary
lies strictly below the directory of the plugin.  Actions of different plugins have different
ids.  After `AddActions` every built-in action is what it was and every action stands under its
id. -/
theorem plugin_registration (host : Host) (hdoc : host.Documented) (root : Bytes)
    (allowTestActions : Bool) :
    (∀ act ∈ loadDir host root, ∃ e, LoadedFrom host root e act) ∧
      (∀ e act, LoadedFrom host root e act →
        (∃ mf, PluginPassed host (join [root, e.name]) mf ∧
          List.Forall₂ (Built host (join [root, e.name]) mf.name) mf.actions
            (loadEntry host root e)) ∧
        (∀ act' ∈ loadEntry host root e, act' ∈ loadDir host root) ∧
        Inside host (join [root, e.name]) act.binary) ∧
      (∀ e act e' act', LoadedFrom host root e act → LoadedFrom host root e' act' →
        e ≠ e' → act.id ≠ act'.id) ∧
      (∀ a ∈ builtins allowTestActions,
        (registered host root allowTestActions).lookup a.id = some a) ∧
      ∀ k a, (registered host root allowTestActions).lookup k = some a → a.id = k := by
  refine ⟨fun act => mem_loadDir.mp, ?_, ?_, ?_, ?_⟩
  · intro e act h
    refine ⟨h.plugin, ?_, h.inside hdoc⟩
    intro act' hmem
    obtain ⟨entries, hentries, he, -⟩ := h
    exact mem_loadDir.mpr ⟨e, entries, hentries, he, hmem⟩
  · intro e act e' act' h h' hne hid
    exact hne (h.entry_eq h' hdoc hid)
  · intro a ha
    exact ExecCatalog.lookup_addActions_of_some (ExecCatalog.lookup_builtin ha) _
  · exact (ExecCatalog.keyed_builtin allowTestActions).addActions _

/-- `/opt/plugins` with a plain file and three plugins: `audit` and `echo` have the script `say`
each, and the second action of `mixed` is a program outside its directory. -/
def pluginsHost : Host where
  readDir root :=
    if root = ascii "/opt/plugins" then some [⟨ascii "audit", true⟩, ⟨ascii "echo", true⟩,
      ⟨ascii "mixed", true⟩, ⟨ascii "readme", false⟩]
    else none
  stat path :=
    if programs.contains path then some ⟨0, 0o755, false⟩
    else (manifests.lookup path).map fun _ => ⟨0, 0o644, false⟩
  readFile path := (manifests.lookup path).map Prod.fst
  evalSymlinks path := if programs.contains path then some path else none
  isSymlink _ := false
  unmarshal text := (manifests.map Prod.snd).lookup text
  parseDuration _ := none
where
  programs : List Bytes := [ascii "/opt/plugins/audit/say", ascii "/opt/plugins/echo/say",
    ascii "/opt/plugins/mixed/say", ascii "/opt/bin/sh"]
  manifests : List (Bytes × Bytes × Manifest) :=
    [(ascii "/opt/plugins/audit/manifest.yaml",
        ascii "\x7bname: audit, actions: [\x7bid: say, risk: low, exec: say\x7d]\x7d",
        ⟨ascii "audit", [⟨ascii "say", ascii "low", ascii "say", [], [], []⟩]⟩),
      (ascii "/opt/plugins/echo/manifest.yaml",
        ascii ("\x7bname: echo, actions: [\x7bid: say, risk: low, exec: say, " ++
          "args: [\"\x7ba\x7d\"]\x7d]\x7d"),
        ⟨ascii "echo", [⟨ascii "say", ascii "low", ascii "say", [ascii "\x7ba\x7d"], [], []⟩]⟩),
      (ascii "/opt/plugins/mixed/manifest.yaml",
        ascii ("\x7bname: mixed, actions: [\x7bid: say, risk: low, exec: say\x7d, " ++
          "\x7bid: shell, risk: low, exec: ../../bin/sh\x7d]\x7d"),
        ⟨ascii "mixed", [⟨ascii "say", ascii "low", ascii "say", [], [], []⟩,
          ⟨ascii "shell", ascii "low", ascii "../../bin/sh", [], [], []⟩]⟩)]

theorem pluginsHost_documented : pluginsHost.Documented where
  entry := by
    intro root entries h e he
    simp only [pluginsHost, Option.ite_none_right_eq_some, Option.some.injEq] at h
    obtain ⟨-, rfl⟩ := h
    simp only [List.mem_cons, List.not_mem_nil, or_false] at he
    rcases he with rfl | rfl | rfl | rfl
    all_goals exact ⟨by decide, by decide, by decide⟩
  distinct := by
    intro root entries h
    simp only [pluginsHost, Option.ite_none_right_eq_some, Option.some.injEq] at h
    obtain ⟨-, rfl⟩ := h
    decide
  cleaned := by
    intro p q h
    simp only [pluginsHost, Option.ite_none_right_eq_some, Option.some.injEq] at h
    obtain ⟨hp, rfl⟩ := h
    have hclean : ∀ p ∈ pluginsHost.programs, clean p = p := by decide
    exact hclean p (List.contains_iff_mem.mp hp)
  resolved := by
    intro p q _ k _ _
    rfl

def auditAction : ExecAction where
  id := ascii "plugin.audit.say"
  validate := none
  risk := .low
  binary := ascii "/opt/plugins/audit/say"
  args := []
  func := false
  pluginTO := 0

/-- Two plugins are loaded, under two ids; the third is not, with neither of its actions. -/
theorem plugin_registration_two_plugins :
    loadDir pluginsHost (ascii "/opt/plugins") = [auditAction, echoAction] ∧
      loadEntry pluginsHost (ascii "/opt/plugins") ⟨ascii "mixed", true⟩ = [] ∧
      Inside pluginsHost (ascii "/opt/plugins/echo") echoAction.binary ∧
      auditAction.id ≠ echoAction.id ∧
      ∀ a ∈ builtins false,
        (registered pluginsHost (ascii "/opt/plugins") false).lookup a.id = some a := by
  have hload : loadDir pluginsHost (ascii "/opt/plugins") = [auditAction, echoAction] := by rfl
  obtain ⟨-, hplugin, hapart, hbuiltins, -⟩ :=
    plugin_registration pluginsHost pluginsHost_documented (ascii "/opt/plugins") false
  have haudit : LoadedFrom pluginsHost (ascii "/opt/plugins") ⟨ascii "audit", true⟩ auditAction :=
    ⟨_, rfl, by decide, List.mem_singleton_self auditAction⟩
  have hecho : LoadedFrom pluginsHost (ascii "/opt/plugins") ⟨ascii "echo", true⟩ echoAction :=
    ⟨_, rfl, by decide, List.mem_singleton_self echoAction⟩
  exact ⟨hload, rfl, (hplugin _ _ hecho).2.2, hapart _ _ _ _ haudit hecho (by decide), hbuiltins⟩

end TomAgent.Plugin
