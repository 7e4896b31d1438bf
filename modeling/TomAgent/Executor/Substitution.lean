import TomAgent.Core.Filling
import TomAgent.Executor.Argv

/-!
# What the order of the parameters changes

`buildArgv` replaces one placeholder after the other, in whatever order the map is gone
through, and looks for the next one also in the values that it has put in.  A value that
contains or completes a placeholder is expanded if that parameter comes later and is left
alone if it came before.
-/

namespace TomAgent.Executor

open Authenv Filling Replace

abbrev Param := Sigma fun _ : Bytes => Bytes

def Param.entry (param : Param) : Entry UInt8 := (placeholder param.1, param.2)

def linesDefault : Entry UInt8 := (placeholder (ascii "lines"), ascii "100")

def replacements (order : Params) : List (Entry UInt8) :=
  order.entries.map Param.entry ++ [linesDefault]

theorem fillArg_eq_replaceEach (order : Params) (arg : Bytes) :
    fillArg order arg = replaceEach (replacements order) arg := by
  rw [replaceEach, replacements, List.foldl_append, List.foldl_map]
  rfl

def OrderIndependent (a : ExecAction) (params : Params) : Prop :=
  ∀ order order', IterationOrders params order → IterationOrders params order' →
    buildArgv a order = buildArgv a order'

/-- No value is expanded: only placeholders of the template are replaced, in every order. -/
def ValuesVerbatim (a : ExecAction) (params : Params) : Prop :=
  ∀ arg ∈ a.args, ∀ order : Params, order.entries.Perm params.entries →
    Verbatim (replacements order) (trace arg)

/-! ## What the template and the values must be like -/

/-- No placeholder of a parameter arises in the template with the values of some others, and
none of `lines` in the template with all values. -/
def NothingNew (params : Params) (arg : Bytes) : Prop :=
  (∀ (filled : List Param) (next : Param), (filled ++ [next]).Subperm params.entries →
      OnlyPieces next.entry (fillAtOnce (filled.map Param.entry) (trace arg))) ∧
    OnlyPieces linesDefault (fillAtOnce (params.entries.map Param.entry) (trace arg))

/-- The placeholders of the parameters do not overlap in the template. -/
def PlaceholdersApart (params : Params) (arg : Bytes) : Prop :=
  Apart (params.entries.map Param.entry) arg

/-! ## Placeholders -/

theorem entry_ne_nil {order : List Param} : ∀ e ∈ order.map Param.entry, e.1 ≠ [] := by
  intro e he
  obtain ⟨param, -, rfl⟩ := List.mem_map.mp he
  exact placeholder_ne_nil _

theorem entries_nodup {order : List Param} (h : order.NodupKeys) :
    ((order.map Param.entry).map Prod.fst).Nodup := by
  have hkeys : (order.map Param.entry).map Prod.fst = order.keys.map placeholder := by
    rw [List.map_map, List.keys, List.map_map]
    rfl
  rw [hkeys]
  exact List.Nodup.map (fun _ _ => placeholder_injective) h

theorem nodupKeys_of_subperm {params : Params} {order : List Param}
    (h : order.Subperm params.entries) : order.NodupKeys := by
  obtain ⟨l, hperm, hsub⟩ := h
  exact (List.perm_nodupKeys hperm).mp (params.nodupKeys.sublist hsub)

/-- In a template whose placeholders are apart the order has no effect on the filling. -/
theorem PlaceholdersApart.fillEach {params : Params} {arg : Bytes}
    (h : PlaceholdersApart params arg) {filled : List Param}
    (hsub : filled.Subperm params.entries) :
    fillEach (filled.map Param.entry) (trace arg) =
      fillAtOnce (filled.map Param.entry) (trace arg) :=
  fillEach_eq_fillAtOnce entry_ne_nil (entries_nodup (nodupKeys_of_subperm hsub))
    (h.mono (List.map_subset _ hsub.subset))

/-- A placeholder without braces in its name ends before the next one begins. -/
theorem placeholder_ends_before {k l text : Bytes} (hk : 123 ∉ k ∧ 125 ∉ k)
    (hl : 123 ∉ l ∧ 125 ∉ l) (hne : k ≠ l) {i j : Nat} (hi : placeholder k <+: text.drop i)
    (hj : placeholder l <+: text.drop j) (hij : i ≤ j) : i + (placeholder k).length ≤ j := by
  by_contra hover
  have hinside := hi.drop (j - i)
  rw [List.drop_drop, Nat.add_sub_cancel' hij] at hinside
  cases hoffset : j - i with
  | zero =>
      rw [hoffset, List.drop_zero] at hinside
      rcases List.prefix_or_prefix_of_prefix hinside hj with hprefix | hprefix
      · exact hne (eq_of_placeholder_within hl.1 hl.2 hprefix.isInfix)
      · exact hne (eq_of_placeholder_within hk.1 hk.2 hprefix.isInfix).symm
  | succ d =>
      -- the brace that opens the second is a letter of the first name, or closes it
      rw [hoffset, placeholder, List.drop_succ_cons] at hinside
      have hrest : (k ++ [125]).drop d ≠ [] := by
        rw [placeholder, List.length_cons] at hover
        rw [Ne, List.drop_eq_nil_iff]
        omega
      obtain ⟨c, rest, hc⟩ := List.exists_cons_of_ne_nil hrest
      have hmem : c ∈ k ++ [125] := List.mem_of_mem_drop (hc ▸ List.mem_cons_self)
      rw [hc] at hinside
      obtain ⟨tail, htail⟩ := hinside
      obtain ⟨tail', htail'⟩ := hj
      rw [← htail'] at htail
      have hbrace : c = 123 := (List.cons.inj htail).1
      rw [hbrace] at hmem
      simp [hk.1] at hmem

/-- Names without braces give placeholders that cannot overlap. -/
theorem placeholdersApart_of_names {params : Params}
    (h : ∀ k ∈ params, 123 ∉ k ∧ 125 ∉ k) (arg : Bytes) : PlaceholdersApart params arg := by
  have hname : ∀ param ∈ params.entries, 123 ∉ param.1 ∧ 125 ∉ param.1 :=
    fun param hmem => h param.1 (List.mem_map_of_mem hmem)
  intro e he e' he' hne i j hi hj
  obtain ⟨param, hparam, rfl⟩ := List.mem_map.mp he
  obtain ⟨param', hparam', rfl⟩ := List.mem_map.mp he'
  have hother : param.1 ≠ param'.1 := fun heq => hne (congrArg placeholder heq)
  rcases Nat.le_total i j with hij | hij
  · exact .inl (placeholder_ends_before (hname param hparam) (hname param' hparam') hother
      hi hj hij)
  · exact .inr (placeholder_ends_before (hname param' hparam') (hname param hparam) hother.symm
      hj hi hij)

/-! ## Orders of the map -/

theorem exists_order {params : Params} {front : List Param} (h : front.Subperm params.entries) :
    ∃ order : Params, order.entries.Perm params.entries ∧ front <+: order.entries := by
  obtain ⟨l, hperm, hsub⟩ := h
  obtain ⟨rest, hrest⟩ := hsub.exists_perm_append
  have hall : (front ++ rest).Perm params.entries := (hperm.symm.append_right rest).trans hrest.symm
  exact ⟨⟨front ++ rest, (List.perm_nodupKeys hall).mpr params.nodupKeys⟩, hall,
    List.prefix_append front rest⟩

theorem replacements_split {order : Params} {before after : List (Entry UInt8)} {e : Entry UInt8}
    (h : replacements order = before ++ e :: after) :
    (before = order.entries.map Param.entry ∧ e = linesDefault) ∨
      ∃ (filled : List Param) (next : Param), filled ++ [next] <+: order.entries ∧
        before = filled.map Param.entry ∧ e = next.entry := by
  unfold replacements at h
  cases hlast : after.reverse with
  | nil =>
      rw [List.reverse_eq_nil_iff] at hlast
      rw [hlast] at h
      obtain ⟨hbefore, he⟩ := List.append_inj' h rfl
      exact .inl ⟨hbefore.symm, (List.cons.inj he).1.symm⟩
  | cons x reversed =>
      right
      have hafter : after = reversed.reverse ++ [x] := by
        rw [← List.reverse_reverse after, hlast, List.reverse_cons]
      rw [hafter, ← List.cons_append, ← List.append_assoc] at h
      have hmap := (List.append_inj' h rfl).1
      obtain ⟨filled, rest, hsplit, hfilled, hrest⟩ := List.map_eq_append_iff.mp hmap
      obtain ⟨next, rest', rfl, hnext, -⟩ := List.map_eq_cons_iff.mp hrest
      refine ⟨filled, next, ⟨rest', ?_⟩, hfilled.symm, hnext.symm⟩
      rw [hsplit, List.append_assoc]
      rfl

theorem replacements_of_front {order : Params} {filled : List Param} {next : Param}
    (h : filled ++ [next] <+: order.entries) :
    ∃ after, replacements order = filled.map Param.entry ++ next.entry :: after := by
  obtain ⟨rest, hrest⟩ := h
  refine ⟨rest.map Param.entry ++ [linesDefault], ?_⟩
  rw [replacements, ← hrest]
  simp

/-! ## One argument -/

theorem fillArg_of_verbatim {order : Params} {arg : Bytes}
    (h : Verbatim (replacements order) (trace arg)) :
    fillArg order arg = letters (fillEach (replacements order) (trace arg)) := by
  rw [fillArg_eq_replaceEach, ← traceEach_eq_fillEach h, letters_traceEach, trace,
    letters_traceFrom]

def ArgOk (params : Params) (arg : Bytes) : Prop :=
  (∀ order order' : Params, order.entries.Perm params.entries →
      order'.entries.Perm params.entries → fillArg order arg = fillArg order' arg) ∧
    ∀ order : Params, order.entries.Perm params.entries → Verbatim (replacements order) (trace arg)

theorem fillEach_replacements {params order : Params} {arg : Bytes}
    (hapart : PlaceholdersApart params arg) (horder : order.entries.Perm params.entries) :
    fillEach (replacements order) (trace arg) =
      rewrite (fillRule linesDefault) 0
        (fillAtOnce (params.entries.map Param.entry) (trace arg)) := by
  have hperm := fillAtOnce_perm (horder.symm.map Param.entry) entry_ne_nil
    (entries_nodup params.nodupKeys) hapart
  have hlast : fillEach (replacements order) (trace arg) = rewrite (fillRule linesDefault) 0
      (fillEach (order.entries.map Param.entry) (trace arg)) := List.foldl_append
  rw [hlast, hapart.fillEach horder.subperm, hperm]

theorem verbatim_iff_of_apart {params : Params} {arg : Bytes}
    (hapart : PlaceholdersApart params arg) :
    (∀ order : Params, order.entries.Perm params.entries →
      Verbatim (replacements order) (trace arg)) ↔ NothingNew params arg := by
  constructor
  · intro h
    constructor
    · intro filled next hsub
      obtain ⟨order, horder, hprefix⟩ := exists_order hsub
      obtain ⟨after, hafter⟩ := replacements_of_front hprefix
      have hpieces := (verbatim_iff_fillEach _ _).mp (h order horder) _ _ _ hafter
      rwa [hapart.fillEach ((List.sublist_append_left filled [next]).subperm.trans hsub)] at hpieces
    · have hpieces := (verbatim_iff_fillEach _ _).mp (h params (List.Perm.refl _)) _ _ _
        (rfl : replacements params = _ ++ linesDefault :: [])
      rwa [hapart.fillEach (List.Subperm.refl _)] at hpieces
  · rintro ⟨hnew, hlines⟩ order horder
    rw [verbatim_iff_fillEach]
    intro before e after heq
    rcases replacements_split heq with ⟨rfl, rfl⟩ | ⟨filled, next, hprefix, rfl, rfl⟩
    · have hperm := fillAtOnce_perm (horder.symm.map Param.entry) entry_ne_nil
        (entries_nodup params.nodupKeys) hapart
      rwa [hapart.fillEach horder.subperm, ← hperm]
    · have hsub : (filled ++ [next]).Subperm params.entries :=
        hprefix.sublist.subperm.trans horder.subperm
      rw [hapart.fillEach ((List.sublist_append_left filled [next]).subperm.trans hsub)]
      exact hnew filled next hsub

theorem argOk_iff_of_apart {params : Params} {arg : Bytes}
    (hapart : PlaceholdersApart params arg) : ArgOk params arg ↔ NothingNew params arg := by
  rw [ArgOk, verbatim_iff_of_apart hapart]
  constructor
  · intro h
    exact h.2
  · intro hnew
    refine ⟨?_, hnew⟩
    intro order order' horder horder'
    have hverbatim := (verbatim_iff_of_apart hapart).mpr hnew
    rw [fillArg_of_verbatim (hverbatim order horder),
      fillArg_of_verbatim (hverbatim order' horder'), fillEach_replacements hapart horder,
      fillEach_replacements hapart horder']

/-! ## The whole command line -/

theorem orderIndependent_iff (a : ExecAction) (params : Params) :
    OrderIndependent a params ↔ ∀ arg ∈ a.args, ∀ order order' : Params,
      order.entries.Perm params.entries → order'.entries.Perm params.entries →
        fillArg order arg = fillArg order' arg := by
  constructor
  · intro h arg harg order order' horder horder'
    have hargv := (List.cons.inj (h (fun _ => order) (fun _ => order') (fun _ => horder)
      fun _ => horder')).2
    obtain ⟨i, hi, rfl⟩ := List.getElem_of_mem harg
    have hat := congrArg (fun l => l[i]?) hargv
    simpa [hi] using hat
  · intro h order order' horder horder'
    refine congrArg (List.cons a.binary) (List.ext_getElem (by simp) ?_)
    intro i hi _
    rw [List.length_mapIdx] at hi
    rw [List.getElem_mapIdx, List.getElem_mapIdx]
    exact h _ (List.getElem_mem hi) _ _ (horder i) (horder' i)

/-- For every action, built-in or of a plugin, and all parameters whose placeholders do not
overlap in the argument templates: the command line is the same in every iteration order
and no value is expanded if and only if no placeholder arises when values are filled in. -/
theorem substitution_order_iff (a : ExecAction) (params : Params)
    (hapart : ∀ arg ∈ a.args, PlaceholdersApart params arg) :
    OrderIndependent a params ∧ ValuesVerbatim a params ↔
      ∀ arg ∈ a.args, NothingNew params arg := by
  rw [orderIndependent_iff]
  constructor
  · rintro ⟨hsame, hverbatim⟩ arg harg
    exact (argOk_iff_of_apart (hapart arg harg)).mp ⟨hsame arg harg, hverbatim arg harg⟩
  · intro h
    have hok : ∀ arg ∈ a.args, ArgOk params arg := fun arg harg =>
      (argOk_iff_of_apart (hapart arg harg)).mpr (h arg harg)
    exact ⟨fun arg harg => (hok arg harg).1, fun arg harg => (hok arg harg).2⟩

def pairAction : ExecAction where
  id := ascii "plugin.echo.pair"
  validate := none
  risk := .low
  binary := ascii "/opt/plugins/echo/pair"
  args := [ascii "\x7ba\x7d:\x7bb\x7d"]
  func := false
  pluginTO := 0

/-- The value of `a` is a placeholder, but of no parameter. -/
def strangeParams : Params :=
  (AList.insert (ascii "b") (ascii "x") ∅).insert (ascii "a") (ascii "\x7bc\x7d")

theorem nothingNew_strangeParams : ∀ arg ∈ pairAction.args, NothingNew strangeParams arg := by
  intro arg harg
  obtain rfl := List.mem_singleton.mp harg
  refine ⟨?_, by decide +kernel⟩
  intro filled next hsub
  have hone : ∀ next ∈ strangeParams.entries,
      OnlyPieces (Param.entry next) (fillAtOnce [] (trace (ascii "\x7ba\x7d:\x7bb\x7d"))) := by
    decide +kernel
  have htwo : ∀ first ∈ strangeParams.entries, ∀ next ∈ strangeParams.entries,
      OnlyPieces (Param.entry next)
        (fillAtOnce [Param.entry first] (trace (ascii "\x7ba\x7d:\x7bb\x7d"))) := by
    decide +kernel
  have hnext : next ∈ strangeParams.entries := hsub.subset (by simp)
  match filled, hsub with
  | [], _ => exact hone next hnext
  | [first], hsub => exact htwo first (hsub.subset (by simp)) next hnext
  | _ :: _ :: _, hsub =>
      have hlength := hsub.length_le
      simp only [List.length_append, List.length_cons, List.length_nil] at hlength
      have htotal : strangeParams.entries.length = 2 := rfl
      omega

theorem substitution_order_iff_pair :
    (∀ arg ∈ pairAction.args, PlaceholdersApart strangeParams arg) ∧
      OrderIndependent pairAction strangeParams ∧ ValuesVerbatim pairAction strangeParams := by
  have hapart : ∀ arg ∈ pairAction.args, PlaceholdersApart strangeParams arg := fun arg _ =>
    placeholdersApart_of_names (by
      intro k hk
      have hnames : ∀ k ∈ strangeParams.keys, 123 ∉ k ∧ 125 ∉ k := by decide
      exact hnames k hk) arg
  exact ⟨hapart, (substitution_order_iff pairAction strangeParams hapart).mpr
    nothingNew_strangeParams⟩

def echoAction : ExecAction where
  id := ascii "plugin.echo.say"
  validate := none
  risk := .low
  binary := ascii "/opt/plugins/echo/say"
  args := [ascii "\x7ba\x7d"]
  func := false
  pluginTO := 0

/-- The value of `a` is the placeholder of `b`. -/
def nestedParams : Params :=
  (AList.insert (ascii "b") (ascii "x") ∅).insert (ascii "a") (ascii "\x7bb\x7d")

def nestedParamsSwapped : Params :=
  (AList.insert (ascii "a") (ascii "\x7bb\x7d") ∅).insert (ascii "b") (ascii "x")

theorem substitution_order_differs :
    echoAction.Accepts nestedParams ∧
      IterationOrders nestedParams (fun _ => nestedParams) ∧
      IterationOrders nestedParams (fun _ => nestedParamsSwapped) ∧
      buildArgv echoAction (fun _ => nestedParams) = [ascii "/opt/plugins/echo/say", ascii "x"] ∧
      buildArgv echoAction (fun _ => nestedParamsSwapped) =
        [ascii "/opt/plugins/echo/say", ascii "\x7bb\x7d"] := by
  refine ⟨?_, fun _ => List.Perm.refl _, fun _ => List.Perm.swap _ _ _, by decide, by decide⟩
  intro validate hvalidate
  cases hvalidate

end TomAgent.Executor
