import Mathlib.Data.List.AList
import TomAgent.Core.BigEndian

/-!
# Interrupted file operations

A procedure that changes a directory by a fixed list of operations.  It may stop
between any two of them, and any of them may fail, which ends the procedure.  A
file that is written under another name and then renamed changes at one point of
the list, from its old contents to the new ones.
-/

namespace TomAgent.FileOps

abbrev Dir := AList (fun _ : String => Bytes)

inductive Op where
  | mkdirAll
  | writeFile (name : String) (data : Bytes)
  | rename (source target : String)
deriving Repr, DecidableEq

def Op.apply (d : Dir) : Op → Dir
  | .mkdirAll => d
  | .writeFile name data => d.insert name data
  | .rename source target =>
      match d.lookup source with
      | none => d
      | some data => (d.erase source).insert target data

/-- The operation fails; a write may have been cut short after `written` bytes. -/
def Op.failed (d : Dir) : Op → Option Nat → Dir
  | .writeFile name data, some written => d.insert name (data.take written)
  | _, _ => d

/-- How a procedure ends before its next operation. -/
inductive Ending where
  /-- It is not run any further. -/
  | stops
  | fails (written : Option Nat)
deriving Repr, DecidableEq

/-- The directory when the procedure ends after `done` operations. -/
def interrupted (d : Dir) : List Op → Nat → Ending → Dir
  | [], _, _ => d
  | _ :: _, 0, .stops => d
  | op :: _, 0, .fails written => op.failed d written
  | op :: rest, done + 1, ending => interrupted (op.apply d) rest done ending

def Op.Touches (name : String) : Op → Prop
  | .mkdirAll => False
  | .writeFile file _ => file = name
  | .rename source target => source = name ∨ target = name

instance (name : String) : DecidablePred (Op.Touches name)
  | .mkdirAll => isFalse id
  | .writeFile file _ => inferInstanceAs (Decidable (file = name))
  | .rename source target => inferInstanceAs (Decidable (source = name ∨ target = name))

/-! ## Files that are not touched -/

variable {d : Dir} {name : String}

theorem lookup_apply {op : Op} (h : ¬ op.Touches name) : (op.apply d).lookup name = d.lookup name := by
  cases op with
  | mkdirAll => rfl
  | writeFile file data => exact AList.lookup_insert_ne (Ne.symm h)
  | rename source target =>
      simp only [Op.Touches, not_or] at h
      rw [Op.apply]
      cases d.lookup source with
      | none => rfl
      | some data =>
          rw [AList.lookup_insert_ne (Ne.symm h.2), AList.lookup_erase_ne (Ne.symm h.1)]

theorem lookup_failed {op : Op} (h : ¬ op.Touches name) (written : Option Nat) :
    (op.failed d written).lookup name = d.lookup name := by
  cases op with
  | writeFile file data =>
      cases written with
      | none => rfl
      | some written => exact AList.lookup_insert_ne (Ne.symm h)
  | mkdirAll => rfl
  | rename source target => rfl

theorem lookup_interrupted {ops : List Op} (h : ∀ op ∈ ops, ¬ op.Touches name) (done : Nat)
    (ending : Ending) : (interrupted d ops done ending).lookup name = d.lookup name := by
  induction ops generalizing d done with
  | nil => rfl
  | cons op rest ih =>
      have hop := h op List.mem_cons_self
      cases done with
      | zero =>
          cases ending with
          | stops => rfl
          | fails written => exact lookup_failed hop written
      | succ done =>
          exact (ih (fun o ho => h o (List.mem_cons_of_mem op ho)) done).trans (lookup_apply hop)

/-! ## Files that are not moved away -/

theorem isSome_apply {op : Op} (h : ∀ target, op ≠ .rename name target)
    (hd : (d.lookup name).isSome = true) : ((op.apply d).lookup name).isSome = true := by
  cases op with
  | mkdirAll => exact hd
  | writeFile file data =>
      by_cases hfile : name = file
      · rw [Op.apply, hfile, AList.lookup_insert, Option.isSome_some]
      · rwa [Op.apply, AList.lookup_insert_ne hfile]
  | rename source target =>
      have hsource : name ≠ source := fun heq => h target (heq ▸ rfl)
      rw [Op.apply]
      cases d.lookup source with
      | none => exact hd
      | some data =>
          by_cases htarget : name = target
          · rw [htarget, AList.lookup_insert, Option.isSome_some]
          · rwa [AList.lookup_insert_ne htarget, AList.lookup_erase_ne hsource]

theorem isSome_failed (op : Op) (hd : (d.lookup name).isSome = true) (written : Option Nat) :
    ((op.failed d written).lookup name).isSome = true := by
  cases op with
  | mkdirAll => exact hd
  | rename source target => exact hd
  | writeFile file data =>
      cases written with
      | none => exact hd
      | some written =>
          by_cases hfile : name = file
          · rw [Op.failed, hfile, AList.lookup_insert, Option.isSome_some]
          · rwa [Op.failed, AList.lookup_insert_ne hfile]

/-- A file that is never moved away stays, wherever the procedure ends. -/
theorem isSome_interrupted {ops : List Op} (h : ∀ op ∈ ops, ∀ target, op ≠ .rename name target)
    (hd : (d.lookup name).isSome = true) (done : Nat) (ending : Ending) :
    ((interrupted d ops done ending).lookup name).isSome = true := by
  induction ops generalizing d done with
  | nil => exact hd
  | cons op rest ih =>
      cases done with
      | zero =>
          cases ending with
          | stops => exact hd
          | fails written => exact isSome_failed op hd written
      | succ done =>
          exact ih (fun o ho => h o (List.mem_cons_of_mem op ho))
            (isSome_apply (h op List.mem_cons_self) hd) done

/-! ## Files that are replaced -/

def replaceFile (name : String) (data : Bytes) : List Op :=
  [.writeFile (name ++ ".tmp") data, .rename (name ++ ".tmp") name]

theorem tmp_ne (name : String) : name ++ ".tmp" ≠ name := by
  intro h
  have hlength := congrArg String.length h
  simp at hlength

/-- Among operations that do not touch it, a replaced file is the old one up to the
renaming and the new one after it. -/
theorem lookup_interrupted_replaceFile {front back : List Op}
    (hfront : ∀ op ∈ front, ¬ op.Touches name) (hback : ∀ op ∈ back, ¬ op.Touches name)
    (data : Bytes) (done : Nat) (ending : Ending) :
    (interrupted d (front ++ (replaceFile name data ++ back)) done ending).lookup name =
      if done < front.length + 2 then d.lookup name else some data := by
  induction front generalizing d done with
  | cons op rest ih =>
      have hop := hfront op List.mem_cons_self
      cases done with
      | zero =>
          rw [if_pos (by omega)]
          cases ending with
          | stops => rfl
          | fails written => exact lookup_failed hop written
      | succ done =>
          have hrest := @ih (op.apply d) (fun o ho => hfront o (List.mem_cons_of_mem op ho)) done
          have hcount : done + 1 < (op :: rest).length + 2 ↔ done < rest.length + 2 := by
            rw [List.length_cons]
            omega
          simp only [hcount, ← @lookup_apply d name op hop]
          exact hrest
  | nil =>
      have hwrite : ¬ (Op.writeFile (name ++ ".tmp") data).Touches name := tmp_ne name
      rcases done with _ | _ | done
      · rw [if_pos (by simp)]
        cases ending with
        | stops => rfl
        | fails written => exact lookup_failed hwrite written
      · -- between the two operations, and when the second one fails
        rw [if_pos (by simp)]
        cases ending with
        | stops => exact lookup_apply hwrite
        | fails written => exact lookup_apply hwrite
      · have hrenamed : ((Op.rename (name ++ ".tmp") name).apply
            ((Op.writeFile (name ++ ".tmp") data).apply d)).lookup name = some data := by
          simp [Op.apply]
        rw [if_neg (by simp)]
        exact (lookup_interrupted hback done ending).trans hrenamed

end TomAgent.FileOps
