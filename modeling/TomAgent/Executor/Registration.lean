import TomAgent.Executor.Argv

/-!
# The catalog with what is run

`AddActions` over actions with their binaries and arguments.  An id that is taken is
skipped, so nothing that is registered ever changes.
-/

namespace TomAgent.Executor

abbrev ExecCatalog := AList (fun _ : Bytes => ExecAction)

namespace ExecCatalog

def addActions (c : ExecCatalog) (actions : List ExecAction) : ExecCatalog :=
  addAll (fun a => a.id) c actions

def builtin (allowTestActions : Bool) : ExecCatalog := addActions ∅ (builtins allowTestActions)

theorem lookup_addActions (c : ExecCatalog) (actions : List ExecAction) (id : Bytes) :
    (c.addActions actions).lookup id =
      (c.lookup id).or (actions.find? fun a => a.id = id) :=
  lookup_addAll _ c actions id

theorem lookup_addActions_of_some {c : ExecCatalog} {id : Bytes} {a : ExecAction}
    (h : c.lookup id = some a) (actions : List ExecAction) :
    (c.addActions actions).lookup id = some a := by
  rw [lookup_addActions, h, Option.some_or]

def Keyed (c : ExecCatalog) : Prop := ∀ k a, c.lookup k = some a → a.id = k

theorem Keyed.addActions {c : ExecCatalog} (h : c.Keyed) (actions : List ExecAction) :
    (c.addActions actions).Keyed := by
  intro k a hk
  rw [lookup_addActions, Option.or_eq_some_iff] at hk
  rcases hk with hk | ⟨-, hk⟩
  · exact h k a hk
  · simpa using List.find?_some hk

theorem keyed_builtin (allowTestActions : Bool) : (builtin allowTestActions).Keyed :=
  Keyed.addActions (fun k a hk => by simp at hk) _

theorem lookup_builtin {allowTestActions : Bool} {a : ExecAction}
    (ha : a ∈ builtins allowTestActions) : (builtin allowTestActions).lookup a.id = some a := by
  rw [builtin, lookup_addActions, AList.lookup_empty, Option.none_or]
  cases hfind : (builtins allowTestActions).find? fun b => b.id = a.id with
  | none => simpa using List.find?_eq_none.mp hfind a ha
  | some b =>
      have hid : b.id = a.id := by simpa using List.find?_some hfind
      rw [List.inj_on_of_nodup_map (builtins_ids_nodup allowTestActions)
        (List.mem_of_find?_eq_some hfind) ha hid]

/-- What the engine validates with is the same catalog without the rest. -/
theorem lookup_addActions_toAction {c : ExecCatalog} {c' : Catalog}
    (h : ∀ id, c'.lookup id = (c.lookup id).map ExecAction.toAction) (actions : List ExecAction)
    (id : Bytes) :
    (Executor.addActions c' (actions.map ExecAction.toAction)).lookup id =
      ((c.addActions actions).lookup id).map ExecAction.toAction := by
  have hfind : (actions.map ExecAction.toAction).find? (fun a => a.id = id) =
      (actions.find? fun a => a.id = id).map ExecAction.toAction := List.find?_map
  rw [Executor.addActions, lookup_addAll, h, hfind, lookup_addActions]
  cases c.lookup id with
  | none => rfl
  | some a => rfl

end ExecCatalog

end TomAgent.Executor
