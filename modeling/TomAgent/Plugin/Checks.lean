import TomAgent.Plugin.Load

/-!
# What loading checks

What a plugin and its actions are like when every check passed, read off the functions
that check.
-/

namespace TomAgent.Plugin

open Executor Fallible LexicalPath

variable {host : Host}

def RootOwned (host : Host) (path : Bytes) : Prop :=
  ∃ st, host.stat path = some st ∧ st.uid = 0 ∧ st.perm &&& 0o022 = 0

theorem rootOwned_of_ok {path : Bytes} {u : Unit} (h : rootOwnedStrict host path = .ok u) :
    RootOwned host path := by
  obtain ⟨st, hst, h⟩ := bind_eq_ok.mp h
  obtain ⟨huid, h⟩ := require_bind_eq_ok.mp h
  exact ⟨st, orError_eq_ok.mp hst, by simpa using huid,
    by simpa using require_eq_ok.mp h⟩

/-- The executable of an action: where the path leads, inside of the directory as a text. -/
structure Executable (host : Host) (dir exec resolved : Bytes) : Prop where
  resolves : host.evalSymlinks (join [dir, exec]) = some resolved
  below : dir ++ [47] <+: resolved
  owned : RootOwned host resolved
  runs : ∃ st, host.stat resolved = some st ∧ st.isDir = false ∧ st.perm &&& 0o111 ≠ 0

structure ActionPassed (host : Host) (dir : Bytes) (a : ManifestAction) : Prop where
  id : matchActID a.id = true
  risk : ∃ risk, parseRisk a.risk = some risk
  output : a.output = [] ∨ matchOutput a.output = true
  relative : isAbs a.exec = false ∧ hasDotDot a.exec = false
  executable : ∃ resolved, Executable host dir a.exec resolved
  timeout : a.maxTimeout = [] ∨ ∃ d, host.parseDuration a.maxTimeout = some d ∧ 0 < d

structure Built (host : Host) (dir name : Bytes) (a : ManifestAction) (act : ExecAction) :
    Prop where
  passed : ActionPassed host dir a
  id : act.id = actionID name a.id
  validate : act.validate = none
  risk : parseRisk a.risk = some act.risk
  args : act.args = a.args
  timeout : maxTimeout host a.maxTimeout = .ok act.pluginTO
  binary : Executable host dir a.exec act.binary

theorem maxTimeout_ok {text : Bytes} {d : Int64} (h : maxTimeout host text = .ok d) :
    text = [] ∨ ∃ d, host.parseDuration text = some d ∧ 0 < d := by
  unfold maxTimeout at h
  split at h
  next hempty => exact .inl hempty
  next =>
    obtain ⟨d', hparse, h⟩ := bind_eq_ok.mp h
    obtain ⟨hpos, -⟩ := require_bind_eq_ok.mp h
    exact .inr ⟨d', orError_eq_ok.mp hparse, by simpa using hpos⟩

theorem buildAction_ok {dir name : Bytes} {a : ManifestAction} {act : ExecAction}
    (h : buildAction host dir name a = .ok act) : Built host dir name a act := by
  unfold buildAction at h
  obtain ⟨hid, h⟩ := require_bind_eq_ok.mp h
  obtain ⟨risk, hrisk, h⟩ := bind_eq_ok.mp h
  obtain ⟨houtput, h⟩ := require_bind_eq_ok.mp h
  obtain ⟨hexec, h⟩ := require_bind_eq_ok.mp h
  obtain ⟨resolved, hresolved, h⟩ := bind_eq_ok.mp h
  obtain ⟨hbelow, h⟩ := require_bind_eq_ok.mp h
  obtain ⟨_, howned, h⟩ := bind_eq_ok.mp h
  obtain ⟨st, hst, h⟩ := bind_eq_ok.mp h
  obtain ⟨hruns, h⟩ := require_bind_eq_ok.mp h
  obtain ⟨pluginTO, htimeout, h⟩ := bind_eq_ok.mp h
  cases h
  have hexecutable : Executable host dir a.exec resolved :=
    ⟨orError_eq_ok.mp hresolved, List.isPrefixOf_iff_prefix.mp hbelow,
      rootOwned_of_ok (mapError_eq_ok.mp howned), st, orError_eq_ok.mp hst,
      by simpa using hruns⟩
  refine ⟨⟨hid, ⟨risk, orError_eq_ok.mp hrisk⟩, ?_, ?_, ⟨resolved, hexecutable⟩,
    maxTimeout_ok htimeout⟩, rfl, rfl, orError_eq_ok.mp hrisk, rfl, htimeout, hexecutable⟩
  · by_cases hempty : a.output = []
    · exact .inl hempty
    · rw [if_neg hempty] at houtput
      exact .inr houtput
  · simpa using hexec

theorem buildActions_ok {dir name : Bytes} {i : Nat} {actions : List ManifestAction}
    {acts : List ExecAction} (h : buildActions host dir name i actions = .ok acts) :
    List.Forall₂ (Built host dir name) actions acts := by
  induction actions generalizing i acts with
  | nil =>
      cases h
      exact .nil
  | cons a rest ih =>
      unfold buildActions at h
      split at h
      next => cases h
      next act hact =>
        obtain ⟨acts', hrest, h⟩ := bind_eq_ok.mp h
        cases h
        exact .cons (buildAction_ok hact) (ih hrest)

/-- Every check of a plugin. -/
structure PluginPassed (host : Host) (dir : Bytes) (mf : Manifest) : Prop where
  owned : RootOwned host (join [dir, ascii "manifest.yaml"])
  parsed : ∃ data, host.readFile (join [dir, ascii "manifest.yaml"]) = some data ∧
    host.unmarshal data = some mf
  name : matchName mf.name = true
  directory : base dir = mf.name
  count : 1 ≤ mf.actions.length ∧ mf.actions.length ≤ 16
  actions : ∀ a ∈ mf.actions, ActionPassed host dir a

theorem loadOne_ok {dir : Bytes} {acts : List ExecAction} (h : loadOne host dir = .ok acts) :
    ∃ mf, PluginPassed host dir mf ∧ List.Forall₂ (Built host dir mf.name) mf.actions acts := by
  unfold loadOne at h
  obtain ⟨_, howned, h⟩ := bind_eq_ok.mp h
  obtain ⟨data, hdata, h⟩ := bind_eq_ok.mp h
  obtain ⟨mf, hmf, h⟩ := bind_eq_ok.mp h
  obtain ⟨hname, h⟩ := require_bind_eq_ok.mp h
  obtain ⟨hdirectory, h⟩ := require_bind_eq_ok.mp h
  obtain ⟨hcount, h⟩ := require_bind_eq_ok.mp h
  have hbuilt := buildActions_ok h
  rw [Bool.and_eq_true, decide_eq_true_eq, decide_eq_true_eq] at hcount
  refine ⟨mf, ⟨rootOwned_of_ok (mapError_eq_ok.mp howned),
    ⟨data, orError_eq_ok.mp hdata, orError_eq_ok.mp hmf⟩, hname,
    by simpa using hdirectory, ⟨by omega, hcount.2⟩, ?_⟩, hbuilt⟩
  intro a ha
  obtain ⟨act, -, hact⟩ := exists_of_forall₂ hbuilt ha
  exact hact.passed

theorem mem_loadEntry {root : Bytes} {e : DirEntry} {act : ExecAction}
    (h : act ∈ loadEntry host root e) :
    ∃ acts, e.isDir = true ∧ loadOne host (join [root, e.name]) = .ok acts ∧ act ∈ acts := by
  unfold loadEntry at h
  split at h
  next hdir =>
    split at h
    next acts hacts => exact ⟨acts, hdir, hacts, h⟩
    next => cases h
  next => cases h

end TomAgent.Plugin
