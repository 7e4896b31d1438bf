import Mathlib.Algebra.Order.Ring.Nat
import Mathlib.Data.List.AList
import TomAgent.Core.Execution

/-!
# The metrics bridge

The bridge polls records from a topic, imports their samples with one POST and commits the
offsets of the poll.  If the POST fails it goes on to the next poll.  The client hands out
every record once per session, and a session starts where the last commit was.
-/

namespace TomAgent.Metricsbridge

open Execution

/-! ## Import lines -/

structure Sample where
  metric : String
  labels : AList (fun _ : String => String)
  /-- The bits of a float64. -/
  value : UInt64
  timestamp : Int64

structure MetricBatch where
  assetId : String
  samples : List Sample

structure ImportLine where
  metric : AList (fun _ : String => String)
  value : UInt64
  timestamp : Int64

/-- `json.Marshal` has no text for infinities and NaN. -/
def finite (value : UInt64) : Bool := (value >>> 52) &&& 0x7ff ≠ 0x7ff

def metricName (metric : String) : String := metric.map fun c => if c = '.' then '_' else c

/-- A label may replace the name or the asset. -/
def lineLabels (batch : MetricBatch) (s : Sample) : AList (fun _ : String => String) :=
  s.labels.entries.foldl (fun m e => m.insert e.1 e.2)
    ((AList.singleton "__name__" (metricName s.metric)).insert "asset_id" batch.assetId)

def importLine (batch : MetricBatch) (s : Sample) : Option ImportLine :=
  if finite s.value then some ⟨lineLabels batch s, s.value, s.timestamp⟩ else none

/-- The lines of a batch; samples without text are left out. -/
def writeImportLines (batch : MetricBatch) : List ImportLine :=
  batch.samples.filterMap (importLine batch)

/-! ## The loop -/

abbrev Ref := Nat × Nat

inductive Phase where
  | polling
  | posting (records : List Ref)
  | committing (records : List Ref)
deriving Repr, DecidableEq

structure Bridge (ρ : Type*) where
  /-- The partitions of the topic. -/
  log : Nat → List ρ
  /-- The fetch position of the session. -/
  position : Nat → Nat
  committed : Nat → Nat
  phase : Phase
  /-- The records whose lines were part of a successful POST. -/
  imported : List Ref
  /-- The records that this session has polled without such a POST. -/
  passedOver : List Ref

namespace Bridge

variable {ρ : Type*}

def start : Bridge ρ := ⟨fun _ => [], fun _ => 0, fun _ => 0, .polling, [], []⟩

def recordAt (b : Bridge ρ) (r : Ref) : Option ρ := (b.log r.1)[r.2]?

/-- A poll that takes so many records from these partitions: the positions after it and
the records. -/
def fetch (log : Nat → List ρ) (position : Nat → Nat) :
    List (Nat × Nat) → Option ((Nat → Nat) × List Ref)
  | [] => some (position, [])
  | (p, n) :: rest =>
      if position p + n ≤ (log p).length then
        (fetch log (Function.update position p (position p + n)) rest).map fun (next, records) =>
          (next, (List.range' (position p) n).map (fun i => (p, i)) ++ records)
      else none

/-- One past the highest offset among the records, per partition. -/
def commitRecords (committed : Nat → Nat) (records : List Ref) (p : Nat) : Nat :=
  match ((records.filter fun r => r.1 = p).map fun r => r.2 + 1).max? with
  | none => committed p
  | some next => next

inductive Event (ρ : Type*) where
  | produce (p : Nat) (value : ρ)
  | poll (takes : List (Nat × Nat))
  | post (ok : Bool)
  /-- The error of `CommitRecords` is logged; it may have taken effect. -/
  | commit (applied : Bool)
  /-- The client starts anew. -/
  | restart

variable (decode : ρ → Option MetricBatch)

def body (b : Bridge ρ) (records : List Ref) : List ImportLine :=
  records.flatMap fun r =>
    match (b.recordAt r).bind decode with
    | none => []
    | some batch => writeImportLines batch

def carries (b : Bridge ρ) (r : Ref) : Bool :=
  ((b.recordAt r).bind decode).any fun batch => !batch.samples.isEmpty

def step (b : Bridge ρ) : Event ρ → Option (Bridge ρ)
  | .produce p value => some { b with log := Function.update b.log p (b.log p ++ [value]) }
  | .poll takes =>
      if b.phase = .polling ∧ (takes.map Prod.snd).sum ≤ 500 then
        (fetch b.log b.position takes).map fun (next, records) =>
          if records = [] then { b with position := next }
          else if b.body decode records = [] then
            { b with
              position := next
              phase := .committing records
              passedOver := b.passedOver ++ records }
          else { b with position := next, phase := .posting records }
      else none
  | .post ok =>
      match b.phase with
      | .posting records =>
          if ok then some { b with
            phase := .committing records
            imported := b.imported ++ records }
          else some { b with
            phase := .polling
            passedOver := b.passedOver ++ records }
      | _ => none
  | .commit applied =>
      match b.phase with
      | .committing records => some { b with
          phase := .polling
          committed := if applied then commitRecords b.committed records else b.committed }
      | _ => none
  | .restart => some { b with position := b.committed, phase := .polling, passedOver := [] }

/-- No committed offset is past a record with samples that has not been imported. -/
def Safe (b : Bridge ρ) : Prop :=
  ∀ p i, i < b.committed p → b.carries decode (p, i) = true → (p, i) ∈ b.imported

def records (b : Bridge ρ) : List Ref :=
  match b.phase with
  | .polling => []
  | .posting records | .committing records => records

/-- The records in hand go past one with samples that this session has polled and not
imported. -/
def Passes (b : Bridge ρ) : Prop :=
  ∃ r ∈ b.passedOver, b.carries decode r = true ∧ r ∉ b.imported ∧
    ∃ r' ∈ b.records, r'.1 = r.1 ∧ r.2 ≤ r'.2

instance decidablePasses (b : Bridge ρ) : Decidable (b.Passes decode) :=
  inferInstanceAs (Decidable (∃ r ∈ b.passedOver, b.carries decode r = true ∧ r ∉ b.imported ∧
    ∃ r' ∈ b.records, r'.1 = r.1 ∧ r.2 ≤ r'.2))

def Careful (b : Bridge ρ) : Event ρ → Prop
  | .commit true => ¬ b.Passes decode
  | _ => True

instance decidableCareful (b : Bridge ρ) : ∀ e : Event ρ, Decidable (b.Careful decode e)
  | .commit true => inferInstanceAs (Decidable (¬ b.Passes decode))
  | .commit false | .produce .. | .poll _ | .post _ | .restart => isTrue trivial

variable {decode : ρ → Option MetricBatch} {b t : Bridge ρ}

/-! ## Polls and commits -/

structure Fetches (log : Nat → List ρ) (position next : Nat → Nat) (records : List Ref) : Prop where
  forth : ∀ p, position p ≤ next p
  bound : ∀ p, next p ≤ max (position p) (log p).length
  records : ∀ r, r ∈ records ↔ position r.1 ≤ r.2 ∧ r.2 < next r.1

section Fetch

variable {log : Nat → List ρ} {position next : Nat → Nat} {records : List Ref}

theorem Fetches.cons {p n : Nat} (hlength : position p + n ≤ (log p).length)
    (h : Fetches log (Function.update position p (position p + n)) next records) :
    Fetches log position next
      ((List.range' (position p) n).map (fun i => (p, i)) ++ records) := by
  have hforth := h.forth
  have hbound := h.bound
  have hrecords := h.records
  simp only [Function.update_apply] at hforth hbound hrecords
  refine ⟨fun p' => ?_, fun p' => ?_, fun r => ?_⟩
  · have hp' := hforth p'
    split at hp'
    next heq =>
      rw [heq] at hp' ⊢
      omega
    next => exact hp'
  · have hp' := hbound p'
    split at hp'
    next heq =>
      rw [heq] at hp' ⊢
      omega
    next => exact hp'
  · obtain ⟨p', i⟩ := r
    have hp' := hforth p'
    rw [List.mem_append, hrecords, List.mem_map]
    simp only [Prod.mk.injEq, List.mem_range'_1]
    by_cases heq : p' = p
    · subst heq
      rw [if_pos rfl] at hp' ⊢
      constructor
      · rintro (⟨j, hj, -, rfl⟩ | hi)
        · omega
        · omega
      · intro hi
        by_cases hlt : i < position p' + n
        · exact Or.inl ⟨i, ⟨hi.1, hlt⟩, rfl, rfl⟩
        · exact Or.inr ⟨Nat.le_of_not_lt hlt, hi.2⟩
    · rw [if_neg heq]
      constructor
      · rintro (⟨j, -, hp, -⟩ | hi)
        · exact absurd hp.symm heq
        · exact hi
      · exact Or.inr

theorem fetch_fetches {takes : List (Nat × Nat)}
    (h : fetch log position takes = some (next, records)) : Fetches log position next records := by
  induction takes generalizing position records with
  | nil =>
      cases h
      refine ⟨fun _ => Nat.le_refl _, fun _ => Nat.le_max_left _ _, fun r => ?_⟩
      simp
  | cons take rest ih =>
      obtain ⟨p, n⟩ := take
      simp only [fetch] at h
      split at h
      next hlength =>
        obtain ⟨⟨next', records'⟩, hrest, heq⟩ := Option.map_eq_some_iff.mp h
        cases heq
        exact (ih hrest).cons hlength
      next => cases h

end Fetch

theorem lt_commitRecords {committed : Nat → Nat} {records : List Ref} {p i : Nat} :
    i < commitRecords committed records p ↔
      (∃ r ∈ records, r.1 = p ∧ i ≤ r.2) ∨ (∀ r ∈ records, r.1 ≠ p) ∧ i < committed p := by
  unfold commitRecords
  split
  next hnone =>
    rw [List.max?_eq_none_iff, List.map_eq_nil_iff, List.filter_eq_nil_iff] at hnone
    have hother : ∀ r ∈ records, r.1 ≠ p := fun r hr => by simpa using hnone r hr
    constructor
    · exact fun hi => Or.inr ⟨hother, hi⟩
    · rintro (⟨r, hr, hp, -⟩ | ⟨-, hi⟩)
      · exact absurd hp (hother r hr)
      · exact hi
  next next hnext =>
    obtain ⟨hmem, hmax⟩ := List.max?_eq_some_iff.mp hnext
    obtain ⟨r, hr, rfl⟩ := List.mem_map.mp hmem
    obtain ⟨hr, hp⟩ := List.mem_filter.mp hr
    have hp : r.1 = p := of_decide_eq_true hp
    constructor
    · exact fun hi => Or.inl ⟨r, hr, hp, Nat.le_of_lt_succ hi⟩
    · rintro (⟨r', hr', hp', hi⟩ | ⟨hother, -⟩)
      · have hle := hmax (r'.2 + 1)
          (List.mem_map_of_mem (List.mem_filter.mpr ⟨hr', decide_eq_true hp'⟩))
        omega
      · exact absurd hp (hother r hr)

/-! ## What a step can do -/

/-- The outcome of a step, one case for each kind. -/
inductive Moves (b : Bridge ρ) : Event ρ → Bridge ρ → Prop
  | produce {p value} : Moves b (.produce p value)
      { b with log := Function.update b.log p (b.log p ++ [value]) }
  | pollNothing {takes next} (hphase : b.phase = .polling)
      (hfetch : Fetches b.log b.position next []) :
      Moves b (.poll takes) { b with position := next }
  | pollSilent {takes next records} (hphase : b.phase = .polling)
      (hfetch : Fetches b.log b.position next records) :
      Moves b (.poll takes) { b with
        position := next
        phase := .committing records
        passedOver := b.passedOver ++ records }
  | pollSamples {takes next records} (hphase : b.phase = .polling)
      (hfetch : Fetches b.log b.position next records) :
      Moves b (.poll takes) { b with position := next, phase := .posting records }
  | posted {records} (hphase : b.phase = .posting records) : Moves b (.post true)
      { b with phase := .committing records, imported := b.imported ++ records }
  | postFails {records} (hphase : b.phase = .posting records) : Moves b (.post false)
      { b with phase := .polling, passedOver := b.passedOver ++ records }
  | commits {records} (hphase : b.phase = .committing records) : Moves b (.commit true)
      { b with phase := .polling, committed := commitRecords b.committed records }
  | commitFails {records} (hphase : b.phase = .committing records) : Moves b (.commit false)
      { b with phase := .polling }
  | restart : Moves b .restart
      { b with position := b.committed, phase := .polling, passedOver := [] }

theorem step_moves {e : Event ρ} (h : b.step decode e = some t) : Moves b e t := by
  cases e with
  | produce p value =>
      cases h
      exact .produce
  | poll takes =>
      simp only [step] at h
      split at h
      next hpolling =>
        obtain ⟨⟨next, records⟩, hfetch, rfl⟩ := Option.map_eq_some_iff.mp h
        have hfetches := fetch_fetches hfetch
        dsimp only
        split
        next hnone =>
          rw [hnone] at hfetches
          exact .pollNothing hpolling.1 hfetches
        next =>
          split
          next => exact .pollSilent hpolling.1 hfetches
          next => exact .pollSamples hpolling.1 hfetches
      next => cases h
  | post ok =>
      simp only [step] at h
      split at h
      next records hphase =>
        cases ok with
        | true =>
            cases h
            exact .posted hphase
        | false =>
            cases h
            exact .postFails hphase
      next => cases h
  | commit applied =>
      simp only [step] at h
      split at h
      next records hphase =>
        cases applied with
        | true =>
            cases h
            exact .commits hphase
        | false =>
            cases h
            exact .commitFails hphase
      next => cases h
  | restart =>
      cases h
      exact .restart

/-! ## Where the polled records are -/

def outgoing (b : Bridge ρ) : List Ref :=
  match b.phase with
  | .posting records => records
  | .polling | .committing _ => []

/-- What ties the positions to the records: every polled record with samples is imported,
passed over or on its way. -/
structure Tracked (decode : ρ → Option MetricBatch) (b : Bridge ρ) : Prop where
  bound : ∀ p, b.position p ≤ (b.log p).length
  behind : ∀ p, b.committed p ≤ b.position p
  current : ∀ r ∈ b.records, r.2 < b.position r.1
  seen : ∀ p i, i < b.position p → b.carries decode (p, i) = true →
    (p, i) ∈ b.imported ∨ (p, i) ∈ b.passedOver ∨ (p, i) ∈ b.outgoing

theorem carries_produce {p i p' : Nat} {value : ρ} (hi : i < (b.log p).length) :
    { b with log := Function.update b.log p' (b.log p' ++ [value]) }.carries decode (p, i) =
      b.carries decode (p, i) := by
  unfold carries recordAt
  dsimp only
  by_cases heq : p = p'
  · subst heq
    rw [Function.update_self, List.getElem?_append_left hi]
  · rw [Function.update_of_ne heq]

theorem Tracked.produce (h : b.Tracked decode) (p : Nat) (value : ρ) :
    Tracked decode { b with log := Function.update b.log p (b.log p ++ [value]) } := by
  refine ⟨fun p' => ?_, h.behind, h.current, fun p' i hi hcarries => ?_⟩
  · have hbound := h.bound p'
    simp only [Function.update_apply]
    split
    next heq =>
      subst heq
      rw [List.length_append]
      omega
    next => exact hbound
  · rw [carries_produce (Nat.lt_of_lt_of_le hi (h.bound p'))] at hcarries
    exact h.seen p' i hi hcarries

theorem Tracked.fetched (h : b.Tracked decode) {next : Nat → Nat} {records : List Ref}
    (hphase : b.phase = .polling) (hfetch : Fetches b.log b.position next records) :
    (∀ p, next p ≤ (b.log p).length) ∧ (∀ p, b.committed p ≤ next p) ∧
      (∀ r ∈ records, r.2 < next r.1) ∧
      ∀ p i, i < next p → b.carries decode (p, i) = true →
        (p, i) ∈ b.imported ∨ (p, i) ∈ b.passedOver ∨ (p, i) ∈ records := by
  refine ⟨fun p => ?_, fun p => Nat.le_trans (h.behind p) (hfetch.forth p),
    fun r hr => ((hfetch.records r).mp hr).2, fun p i hi hcarries => ?_⟩
  · exact Nat.le_trans (hfetch.bound p) (Nat.max_le.mpr ⟨h.bound p, Nat.le_refl _⟩)
  · by_cases hold : i < b.position p
    · rcases h.seen p i hold hcarries with himported | hpassed | houtgoing
      · exact Or.inl himported
      · exact Or.inr (Or.inl hpassed)
      · rw [outgoing, hphase] at houtgoing
        cases houtgoing
    · exact Or.inr (Or.inr ((hfetch.records (p, i)).mpr ⟨Nat.le_of_not_lt hold, hi⟩))

theorem Tracked.records_committing (h : b.Tracked decode) {records : List Ref}
    (hphase : b.phase = .committing records) {r : Ref} (hr : r ∈ records) :
    r.2 < b.position r.1 := by
  refine h.current r ?_
  rw [Bridge.records, hphase]
  exact hr

/-- A commit stays behind the position. -/
theorem Tracked.commit_behind (h : b.Tracked decode) {records : List Ref}
    (hphase : b.phase = .committing records) (p : Nat) :
    commitRecords b.committed records p ≤ b.position p := by
  refine Nat.le_of_not_lt fun hlt => ?_
  rcases lt_commitRecords.mp hlt with ⟨r, hr, rfl, hle⟩ | ⟨-, hold⟩
  · exact Nat.not_le_of_lt (h.records_committing hphase hr) hle
  · exact Nat.not_lt_of_le (h.behind p) hold

theorem Tracked.step (h : b.Tracked decode) (hsafe : b.Safe decode) {e : Event ρ}
    (hmoves : Moves b e t) : t.Tracked decode := by
  have hseen := h.seen
  cases hmoves with
  | produce => exact h.produce _ _
  | pollNothing hphase hfetch =>
      obtain ⟨hbound, hbehind, -, hseen⟩ := h.fetched hphase hfetch
      refine ⟨hbound, hbehind, ?_, fun p i hi hcarries => ?_⟩
      · rw [Bridge.records, hphase]
        exact fun r hr => absurd hr List.not_mem_nil
      · rcases hseen p i hi hcarries with himported | hpassed | hnone
        · exact Or.inl himported
        · exact Or.inr (Or.inl hpassed)
        · cases hnone
  | pollSilent hphase hfetch =>
      obtain ⟨hbound, hbehind, hcurrent, hseen⟩ := h.fetched hphase hfetch
      refine ⟨hbound, hbehind, hcurrent, fun p i hi hcarries => ?_⟩
      rcases hseen p i hi hcarries with himported | hpassed | hnew
      · exact Or.inl himported
      · exact Or.inr (Or.inl (List.mem_append_left _ hpassed))
      · exact Or.inr (Or.inl (List.mem_append_right _ hnew))
  | pollSamples hphase hfetch =>
      obtain ⟨hbound, hbehind, hcurrent, hseen⟩ := h.fetched hphase hfetch
      exact ⟨hbound, hbehind, hcurrent, hseen⟩
  | posted hphase =>
      have hcurrent := h.current
      simp only [Bridge.records, outgoing, hphase] at hcurrent hseen
      refine ⟨h.bound, h.behind, hcurrent, fun p i hi hcarries => ?_⟩
      rcases hseen p i hi hcarries with himported | hpassed | hsent
      · exact Or.inl (List.mem_append_left _ himported)
      · exact Or.inr (Or.inl hpassed)
      · exact Or.inl (List.mem_append_right _ hsent)
  | postFails hphase =>
      simp only [outgoing, hphase] at hseen
      refine ⟨h.bound, h.behind, fun r hr => absurd hr List.not_mem_nil, fun p i hi hcarries => ?_⟩
      rcases hseen p i hi hcarries with himported | hpassed | hunsent
      · exact Or.inl himported
      · exact Or.inr (Or.inl (List.mem_append_left _ hpassed))
      · exact Or.inr (Or.inl (List.mem_append_right _ hunsent))
  | commits hphase =>
      simp only [outgoing, hphase] at hseen
      exact ⟨h.bound, h.commit_behind hphase, fun r hr => absurd hr List.not_mem_nil, hseen⟩
  | commitFails hphase =>
      simp only [outgoing, hphase] at hseen
      exact ⟨h.bound, h.behind, fun r hr => absurd hr List.not_mem_nil, hseen⟩
  | restart =>
      -- the new session sees what the last commit left
      refine ⟨fun p => Nat.le_trans (h.behind p) (h.bound p), fun _ => Nat.le_refl _,
        fun r hr => absurd hr List.not_mem_nil, fun p i hi hcarries => ?_⟩
      exact Or.inl (hsafe p i hi hcarries)

/-- A commit keeps the guarantee exactly if it is careful. -/
theorem Tracked.commit_safe_iff (h : b.Tracked decode) (hsafe : b.Safe decode)
    {records : List Ref} (hphase : b.phase = .committing records) :
    Safe decode { b with
        phase := .polling
        committed := commitRecords b.committed records } ↔
      b.Careful decode (.commit true) := by
  have hrecords : b.records = records := by
    rw [Bridge.records, hphase]
  constructor
  · rintro hafter ⟨r, -, hcarries, hmissing, r', hr', hp, hle⟩
    rw [hrecords] at hr'
    exact hmissing (hafter r.1 r.2 (lt_commitRecords.mpr (Or.inl ⟨r', hr', hp, hle⟩)) hcarries)
  · intro hcareful p i hi hcarries
    rcases lt_commitRecords.mp hi with ⟨r', hr', rfl, hle⟩ | ⟨-, hold⟩
    · have hpolled := Nat.lt_of_le_of_lt hle (h.records_committing hphase hr')
      rcases h.seen r'.1 i hpolled hcarries with himported | hpassed | hsent
      · exact himported
      · by_contra hmissing
        exact hcareful ⟨(r'.1, i), hpassed, hcarries, hmissing, r', hrecords ▸ hr', rfl, hle⟩
      · rw [outgoing, hphase] at hsent
        cases hsent
    · exact hsafe p i hold hcarries

theorem Safe.step (h : b.Safe decode) (htracked : b.Tracked decode) {e : Event ρ}
    (hcareful : b.Careful decode e) (hmoves : Moves b e t) : t.Safe decode := by
  cases hmoves with
  | produce =>
      intro p i hi hcarries
      have hlength := Nat.lt_of_lt_of_le hi
        (Nat.le_trans (htracked.behind p) (htracked.bound p))
      rw [carries_produce hlength] at hcarries
      exact h p i hi hcarries
  | posted =>
      intro p i hi hcarries
      exact List.mem_append_left _ (h p i hi hcarries)
  | commits hphase => exact (htracked.commit_safe_iff h hphase).mpr hcareful
  | _ => exact h

theorem tracked_start : (start : Bridge ρ).Tracked decode where
  bound _ := Nat.le_refl _
  behind _ := Nat.le_refl _
  current _ hr := absurd hr List.not_mem_nil
  seen _ _ hi := absurd hi (Nat.not_lt_zero _)

theorem safe_start : (start : Bridge ρ).Safe decode :=
  fun _ _ hi => absurd hi (Nat.not_lt_zero _)

/-- If no commit goes past a record with samples that its session has polled and not
imported, the committed offsets never do; and a commit from such a state keeps that
exactly if it meets the condition. -/
theorem runs_safe (hrun : Reaches (Fires (step decode) (Careful decode)) start b) :
    b.Safe decode ∧ ∀ t, b.step decode (.commit true) = some t →
      (t.Safe decode ↔ b.Careful decode (.commit true)) := by
  have hinv : b.Tracked decode ∧ b.Safe decode := by
    refine invariant (fun b => b.Tracked decode ∧ b.Safe decode) ?_ ⟨tracked_start, safe_start⟩
      hrun
    rintro b t ⟨htracked, hsafe⟩ ⟨e, hcareful, ht⟩
    have hmoves := step_moves ht
    exact ⟨htracked.step hsafe hmoves, hsafe.step htracked hcareful hmoves⟩
  refine ⟨hinv.2, fun t ht => ?_⟩
  cases step_moves ht with
  | commits hphase => exact hinv.1.commit_safe_iff hinv.2 hphase

theorem reaches_of_events (decode : ρ → Option MetricBatch) (may : Bridge ρ → Event ρ → Prop)
    (es : List (Event ρ)) (P : Bridge ρ → Prop) [DecidablePred P]
    (hmay : Permitted (step decode) may start es)
    (h : (play (step decode) start es).any P = true) :
    ∃ b, Reaches (Fires (step decode) may) start b ∧ P b :=
  reaches_of_any (step decode) es P hmay h

def sampleBatch : MetricBatch := ⟨"node-1", [⟨"cpu.load", ∅, 0x3ff0000000000000, 1⟩]⟩

/-- After a failed POST the process is started anew and polls both records again. -/
theorem runs_safe_restarted :
    ∃ b : Bridge MetricBatch, Reaches (Fires (step some) (Careful some)) start b ∧
      b.committed 0 = 2 ∧ b.Safe some := by
  obtain ⟨b, hrun, hcommitted⟩ := reaches_of_events some (Careful some)
    [.produce 0 sampleBatch, .produce 0 sampleBatch, .poll [(0, 1)], .post false, .restart,
      .poll [(0, 2)], .post true, .commit true]
    (fun b : Bridge MetricBatch => b.committed 0 = 2)
    (permitted_of_decide (by decide +kernel)) (by decide +kernel)
  exact ⟨b, hrun, hcommitted, (runs_safe hrun).1⟩

/-- The POST of the first record fails, the next poll brings the second one, and its commit
goes past both. -/
theorem failed_post_committed :
    ∃ b : Bridge MetricBatch, Reaches (Fires (step some) fun _ _ => True) start b ∧
      b.committed 0 = 2 ∧ b.carries some (0, 0) = true ∧ b.imported = [(0, 1)] ∧
      ¬ b.Safe some := by
  obtain ⟨b, hrun, hcommitted, hcarries, himported⟩ := reaches_of_events some (fun _ _ => True)
    [.produce 0 sampleBatch, .produce 0 sampleBatch, .poll [(0, 1)], .post false, .poll [(0, 1)],
      .post true, .commit true]
    (fun b : Bridge MetricBatch => b.committed 0 = 2 ∧ b.carries some (0, 0) = true ∧
      b.imported = [(0, 1)])
    (permitted_of_forall (fun _ _ _ => trivial) _) (by decide +kernel)
  refine ⟨b, hrun, hcommitted, hcarries, himported, fun hsafe => ?_⟩
  have hmem := hsafe 0 0 (hcommitted ▸ Nat.zero_lt_two) hcarries
  rw [himported] at hmem
  cases List.mem_singleton.mp hmem

end Bridge

end TomAgent.Metricsbridge
