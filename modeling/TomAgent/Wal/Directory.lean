import Mathlib.Data.List.AList
import Mathlib.Data.List.Sort
import TomAgent.Core.BigEndian
import TomAgent.Core.Decimal

/-!
# Segment files in a directory

A directory is a finite map from file names to contents.  Segments are found by
parsing every name and sorting the numbers, so the order is numeric also where
an id outgrows the six digits of the name.  Ids are natural numbers of any size: a
name with a negative number is never written by `openActive` and is not a segment here.
-/

namespace TomAgent.Wal

open Decimal (zeroPadded)

abbrev FileName := List Char

abbrev Dir := AList (fun _ : FileName => Bytes)

/-! ## Names -/

def segPrefix : FileName := ['s', 'e', 'g', '-']
def segSuffix : FileName := ['.', 'l', 'o', 'g']

def segName (id : Nat) : FileName := segPrefix ++ zeroPadded 6 id ++ segSuffix

def parseSegName (name : FileName) : Option Nat :=
  if segPrefix.isPrefixOf name ∧ segSuffix.isSuffixOf name then
    (Decimal.parse ((name.drop 4).take (name.length - 8))).bind Int.toNat?
  else none

@[simp] theorem parseSegName_segName (id : Nat) : parseSegName (segName id) = some id := by
  have hprefix : segPrefix.isPrefixOf (segName id) = true := by
    rw [List.isPrefixOf_iff_prefix, segName, List.append_assoc]
    exact List.prefix_append _ _
  have hsuffix : segSuffix.isSuffixOf (segName id) = true := by
    rw [List.isSuffixOf_iff_suffix, segName]
    exact List.suffix_append _ _
  have hnumber : ((segName id).drop 4).take ((segName id).length - 8) = zeroPadded 6 id := by
    have hdrop : (segName id).drop 4 = zeroPadded 6 id ++ segSuffix := by
      simp [segName, segPrefix]
    have hlen : (segName id).length - 8 = (zeroPadded 6 id).length := by
      simp [segName, segPrefix, segSuffix]
    rw [hdrop, hlen, List.take_left]
  simp only [parseSegName, hprefix, hsuffix, hnumber, Decimal.parse_zeroPadded, and_self, if_true,
    Option.bind_some]
  rfl

theorem segName_inj {a b : Nat} (h : segName a = segName b) : a = b := by
  have hp := congrArg parseSegName h
  simpa using hp

@[simp] theorem segName_eq_iff {a b : Nat} : segName a = segName b ↔ a = b :=
  ⟨segName_inj, fun h => h ▸ rfl⟩

/-! ## The segments of a directory -/

def segments (dir : Dir) : List Nat :=
  (dir.keys.filterMap parseSegName).insertionSort (· ≤ ·)

/-- The contents of a segment; an absent file has none. -/
def content (dir : Dir) (id : Nat) : Bytes := (dir.lookup (segName id)).getD []

/-- Every segment file carries the name `segName` gives it. -/
def Canonical (dir : Dir) : Prop :=
  ∀ name ∈ dir, ∀ id, parseSegName name = some id → name = segName id

theorem segments_pairwise_le (dir : Dir) : (segments dir).Pairwise (· ≤ ·) :=
  List.pairwise_insertionSort _ _

theorem mem_segments {dir : Dir} {id : Nat} :
    id ∈ segments dir ↔ ∃ name ∈ dir, parseSegName name = some id := by
  simp [segments, List.mem_filterMap, AList.mem_keys]

theorem mem_segments_of_canonical {dir : Dir} (h : Canonical dir) {id : Nat} :
    id ∈ segments dir ↔ segName id ∈ dir := by
  rw [mem_segments]
  constructor
  · rintro ⟨name, hmem, hparse⟩
    exact h name hmem id hparse ▸ hmem
  · intro hmem
    exact ⟨segName id, hmem, parseSegName_segName id⟩

theorem canonical_of_no_segments {dir : Dir} (h : segments dir = []) : Canonical dir := by
  intro name hname id hparse
  have hmem : id ∈ segments dir := mem_segments.mpr ⟨name, hname, hparse⟩
  simp [h] at hmem

theorem segments_nodup {dir : Dir} (h : Canonical dir) : (segments dir).Nodup := by
  refine (List.perm_insertionSort _ _).nodup_iff.mpr ?_
  rw [List.Nodup, List.pairwise_filterMap]
  refine dir.keys_nodup.imp_of_mem ?_
  intro name name' hmem hmem' hne id hid id' hid' heq
  subst heq
  exact hne ((h name hmem id hid).trans (h name' hmem' id hid').symm)

theorem segments_pairwise_lt {dir : Dir} (h : Canonical dir) : (segments dir).Pairwise (· < ·) :=
  ((segments_pairwise_le dir).and (segments_nodup h)).imp fun hlt =>
    Nat.lt_of_le_of_ne hlt.1 hlt.2

theorem segments_le_last {dir : Dir} (hdir : Canonical dir) {last : Nat}
    (hlast : (segments dir).getLast? = some last) : ∀ s ∈ segments dir, s ≤ last := by
  obtain ⟨init, hinit⟩ := List.getLast?_eq_some_iff.mp hlast
  have hsorted := segments_pairwise_lt hdir
  rw [hinit, List.pairwise_append] at hsorted
  intro s hs
  rw [hinit, List.mem_append, List.mem_singleton] at hs
  rcases hs with hs | rfl
  · exact Nat.le_of_lt (hsorted.2.2 s hs last (List.mem_singleton_self last))
  · exact Nat.le_refl s

/-- A strictly ascending list with the right members is the list of segments. -/
theorem segments_eq {dir : Dir} (h : Canonical dir) {ids : List Nat}
    (hsorted : ids.Pairwise (· < ·)) (hmem : ∀ id, id ∈ ids ↔ segName id ∈ dir) :
    segments dir = ids := by
  refine List.Perm.eq_of_pairwise' (segments_pairwise_lt h) hsorted ?_
  have hnodup : ids.Nodup := hsorted.imp fun hlt => Nat.ne_of_lt hlt
  rw [List.perm_ext_iff_of_nodup (segments_nodup h) hnodup]
  intro id
  rw [mem_segments_of_canonical h, hmem]

/-! ## Creating, writing and removing a segment file -/

theorem canonical_insert {dir : Dir} (h : Canonical dir) (id : Nat) (data : Bytes) :
    Canonical (dir.insert (segName id) data) := by
  intro name hmem other hparse
  rcases (AList.mem_insert dir).mp hmem with rfl | hmem
  · rw [parseSegName_segName, Option.some.injEq] at hparse
    rw [hparse]
  · exact h name hmem other hparse

theorem canonical_erase {dir : Dir} (h : Canonical dir) (id : Nat) :
    Canonical (dir.erase (segName id)) := by
  intro name hmem other hparse
  exact h name (AList.mem_erase.mp hmem).2 other hparse

theorem segments_insert_mem {dir : Dir} (h : Canonical dir) {id : Nat} (hid : id ∈ segments dir)
    (data : Bytes) : segments (dir.insert (segName id) data) = segments dir := by
  refine segments_eq (canonical_insert h id data) (segments_pairwise_lt h) fun other => ?_
  rw [AList.mem_insert, mem_segments_of_canonical h, segName_eq_iff]
  refine ⟨Or.inr, ?_⟩
  rintro (rfl | hmem)
  · exact (mem_segments_of_canonical h).mp hid
  · exact hmem

theorem segments_insert_last {dir : Dir} (h : Canonical dir) {id : Nat}
    (hlast : ∀ s ∈ segments dir, s < id) (data : Bytes) :
    segments (dir.insert (segName id) data) = segments dir ++ [id] := by
  refine segments_eq (canonical_insert h id data) ?_ fun other => ?_
  · rw [List.pairwise_append]
    refine ⟨segments_pairwise_lt h, List.pairwise_singleton _ _, ?_⟩
    intro s hs t ht
    rw [List.mem_singleton] at ht
    exact ht ▸ hlast s hs
  · rw [AList.mem_insert, List.mem_append, List.mem_singleton, mem_segments_of_canonical h,
      segName_eq_iff]
    exact Or.comm

theorem segments_erase {dir : Dir} (h : Canonical dir) (id : Nat) :
    segments (dir.erase (segName id)) = (segments dir).filter (· ≠ id) := by
  refine segments_eq (canonical_erase h id) ((segments_pairwise_lt h).filter _) fun other => ?_
  rw [AList.mem_erase, List.mem_filter, mem_segments_of_canonical h]
  simp [and_comm]

@[simp] theorem content_insert (dir : Dir) (id : Nat) (data : Bytes) :
    content (dir.insert (segName id) data) id = data := by
  simp [content]

theorem content_insert_ne (dir : Dir) {id other : Nat} (h : other ≠ id) (data : Bytes) :
    content (dir.insert (segName id) data) other = content dir other := by
  unfold content
  rw [AList.lookup_insert_ne (fun heq => h (segName_inj heq))]

theorem content_erase_ne (dir : Dir) {id other : Nat} (h : other ≠ id) :
    content (dir.erase (segName id)) other = content dir other := by
  unfold content
  rw [AList.lookup_erase_ne (fun heq => h (segName_inj heq))]

theorem content_of_not_mem {dir : Dir} (h : Canonical dir) {id : Nat} (hid : id ∉ segments dir) :
    content dir id = [] := by
  rw [mem_segments_of_canonical h, ← AList.lookup_eq_none] at hid
  rw [content, hid, Option.getD_none]

theorem lookup_segName {dir : Dir} (h : Canonical dir) {id : Nat} (hid : id ∈ segments dir) :
    dir.lookup (segName id) = some (content dir id) := by
  have hmem := (mem_segments_of_canonical h).mp hid
  obtain ⟨data, hdata⟩ := Option.isSome_iff_exists.mp (AList.lookup_isSome.mpr hmem)
  simp [content, hdata]

end TomAgent.Wal
