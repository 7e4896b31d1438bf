import Mathlib.Algebra.Order.Ring.Int
import TomAgent.Platform.Enrollment

/-!
# Active certificates

Two transactions insert an active row into `register.agent_certificate`.  `RotateCertificateTx`
supersedes the active rows of the asset first, `CompleteEnrollment` does not look at them.

That the active rows of an asset are its latest ones, by any measure, is kept by superseding rows
and by adding an active row to an asset that has none.
-/

namespace TomAgent.Platform

def CertificateRow.retire (p : CertificateRow → Prop) [DecidablePred p] (c : CertificateRow) :
    CertificateRow :=
  if p c then { c with status := .superseded } else c

section Retire

variable {p : CertificateRow → Prop} [DecidablePred p] {c : CertificateRow}

theorem certId_retire : (c.retire p).certId = c.certId := by
  unfold CertificateRow.retire
  split <;> rfl

theorem assetId_retire : (c.retire p).assetId = c.assetId := by
  unfold CertificateRow.retire
  split <;> rfl

theorem notBefore_retire : (c.retire p).notBefore = c.notBefore := by
  unfold CertificateRow.retire
  split <;> rfl

theorem of_active_retire (h : (c.retire p).status = .active) : ¬ p c ∧ c.status = .active := by
  unfold CertificateRow.retire at h
  split at h
  next => cases h
  next hp => exact ⟨hp, h⟩

theorem retire_of_not (hp : ¬ p c) : c.retire p = c := if_neg hp

end Retire

/-! ## The latest certificate of an asset -/

/-- No certificate of an asset ranks above an active one. -/
def Latest (rank : CertificateRow → Int) (rows : List CertificateRow) : Prop :=
  ∀ c ∈ rows, c.status = .active → ∀ c' ∈ rows, c'.assetId = c.assetId → rank c' ≤ rank c

def Vacant (rows : List CertificateRow) (assetId : String) : Prop :=
  ∀ c ∈ rows, c.assetId = assetId → c.status ≠ .active

instance (rows : List CertificateRow) (assetId : String) : Decidable (Vacant rows assetId) :=
  inferInstanceAs (Decidable (∀ c ∈ rows, _))

variable {rank : CertificateRow → Int} {rows : List CertificateRow} {next : Nat}
  {new : CertificateRow}

theorem Latest.retire (h : Latest rank rows) (p : CertificateRow → Prop) [DecidablePred p]
    (hrank : ∀ c : CertificateRow, rank (c.retire p) = rank c) :
    Latest rank (rows.map (CertificateRow.retire p)) := by
  intro c hc hactive c' hc' hasset
  obtain ⟨d, hd, rfl⟩ := List.mem_map.mp hc
  obtain ⟨d', hd', rfl⟩ := List.mem_map.mp hc'
  rw [assetId_retire, assetId_retire] at hasset
  rw [hrank, hrank]
  exact h d hd (of_active_retire hactive).2 d' hd' hasset

theorem Latest.append (h : Latest rank rows) (hvacant : Vacant rows new.assetId)
    (hrank : ∀ c ∈ rows, c.assetId = new.assetId → rank c ≤ rank new) :
    Latest rank (rows ++ [new]) := by
  intro c hc hactive c' hc' hasset
  cases List.mem_append.mp hc with
  | inl hold =>
      cases List.mem_append.mp hc' with
      | inl hold' => exact h c hold hactive c' hold' hasset
      | inr hnew' =>
          cases List.mem_singleton.mp hnew'
          exact absurd hactive (hvacant c hold hasset.symm)
  | inr hnew =>
      cases List.mem_singleton.mp hnew
      cases List.mem_append.mp hc' with
      | inl hold' => exact hrank c' hold' hasset
      | inr hnew' =>
          cases List.mem_singleton.mp hnew'
          exact Int.le_refl _

theorem vacant_retire {p : CertificateRow → Prop} [DecidablePred p] {assetId : String}
    (hall : ∀ c ∈ rows, c.assetId = assetId → c.status = .active → p c) :
    Vacant (rows.map (CertificateRow.retire p)) assetId := by
  intro c hc hasset hactive
  obtain ⟨d, hd, rfl⟩ := List.mem_map.mp hc
  obtain ⟨hp, hstatus⟩ := of_active_retire hactive
  rw [assetId_retire] at hasset
  exact hp (hall d hd hasset hstatus)

/-! ## One active certificate -/

def activeRows (rows : List CertificateRow) (assetId : String) : List CertificateRow :=
  rows.filter fun c => c.assetId = assetId ∧ c.status = .active

theorem mem_activeRows {assetId : String} {c : CertificateRow} :
    c ∈ activeRows rows assetId ↔ c ∈ rows ∧ c.assetId = assetId ∧ c.status = .active := by
  simp [activeRows]

/-- Numbers ascend, up to the next one of the sequence, and an active certificate has the last
number of its asset. -/
structure OneActive (rows : List CertificateRow) (next : Nat) : Prop where
  ascending : rows.Pairwise (·.certId < ·.certId)
  below : ∀ c ∈ rows, c.certId < next
  latest : Latest (fun c => Int.ofNat c.certId) rows

theorem OneActive.nil (next : Nat) : OneActive [] next :=
  ⟨.nil, fun _ h => (List.not_mem_nil h).elim, fun _ h => (List.not_mem_nil h).elim⟩

theorem OneActive.certId_le (h : OneActive rows next) {c c' : CertificateRow} (hc : c ∈ rows)
    (hactive : c.status = .active) (hc' : c' ∈ rows) (hasset : c'.assetId = c.assetId) :
    c'.certId ≤ c.certId :=
  Int.ofNat_le.mp (h.latest c hc hactive c' hc' hasset)

theorem OneActive.eq_of_certId (h : OneActive rows next) {c c' : CertificateRow} (hc : c ∈ rows)
    (hc' : c' ∈ rows) (heq : c.certId = c'.certId) : c = c' := by
  have hnodup : (rows.map CertificateRow.certId).Nodup := by
    rw [List.Nodup, List.pairwise_map]
    exact h.ascending.imp Nat.ne_of_lt
  exact List.inj_on_of_nodup_map hnodup hc hc' heq

/-- Two active certificates of an asset are the same. -/
theorem OneActive.eq_of_active (h : OneActive rows next) {c c' : CertificateRow} (hc : c ∈ rows)
    (hactive : c.status = .active) (hc' : c' ∈ rows) (hactive' : c'.status = .active)
    (hasset : c'.assetId = c.assetId) : c = c' := by
  have hle := h.certId_le hc hactive hc' hasset
  have hge := h.certId_le hc' hactive' hc hasset.symm
  exact h.eq_of_certId hc hc' (by omega)

theorem OneActive.activeRows_cases (h : OneActive rows next) (assetId : String) :
    activeRows rows assetId = [] ∨ ∃ c, activeRows rows assetId = [c] ∧
      ∀ c' ∈ rows, c'.assetId = assetId → c'.certId ≤ c.certId := by
  cases hrows : activeRows rows assetId with
  | nil => exact .inl rfl
  | cons c rest =>
      have hmem : ∀ d ∈ c :: rest, d ∈ rows ∧ d.assetId = assetId ∧ d.status = .active :=
        fun d hd => mem_activeRows.mp (hrows ▸ hd)
      obtain ⟨hc, hasset, hactive⟩ := hmem c List.mem_cons_self
      refine .inr ⟨c, ?_, fun c' hc' hasset' =>
        h.certId_le hc hactive hc' (hasset'.trans hasset.symm)⟩
      cases rest with
      | nil => rfl
      | cons d rest =>
          have hsorted : (c :: d :: rest).Pairwise (·.certId < ·.certId) :=
            hrows ▸ h.ascending.filter _
          have hlt : c.certId < d.certId := List.rel_of_pairwise_cons hsorted List.mem_cons_self
          obtain ⟨hd, hasset', -⟩ := hmem d (List.mem_cons_of_mem c List.mem_cons_self)
          have hle := h.certId_le hc hactive hd (hasset'.trans hasset.symm)
          omega

theorem OneActive.retire (h : OneActive rows next) (p : CertificateRow → Prop) [DecidablePred p] :
    OneActive (rows.map (CertificateRow.retire p)) next := by
  constructor
  case ascending =>
    rw [List.pairwise_map]
    simpa only [certId_retire] using h.ascending
  case below =>
    intro c hc
    obtain ⟨d, hd, rfl⟩ := List.mem_map.mp hc
    rw [certId_retire]
    exact h.below d hd
  case latest => exact h.latest.retire p fun c => by rw [certId_retire]

theorem OneActive.append (h : OneActive rows next) (hid : new.certId = next)
    (hvacant : Vacant rows new.assetId) : OneActive (rows ++ [new]) (next + 1) := by
  constructor
  case ascending =>
    refine List.pairwise_append.mpr ⟨h.ascending, List.pairwise_singleton _ _, ?_⟩
    intro c hc d hd
    cases List.mem_singleton.mp hd
    rw [hid]
    exact h.below c hc
  case below =>
    intro c hc
    cases List.mem_append.mp hc with
    | inl hold => exact Nat.lt_succ_of_lt (h.below c hold)
    | inr hnew =>
        cases List.mem_singleton.mp hnew
        omega
  case latest =>
    refine h.latest.append hvacant fun c hc _ => ?_
    have hlt := h.below c hc
    exact Int.ofNat_le.mpr (by omega)

/-! ## Rotation -/

namespace Ledger

variable {l l' : Ledger} {assetId : String} {cert : SignedCertificate}

def activeIds (l : Ledger) (assetId : String) : List Nat :=
  (activeRows l.certificates assetId).map (·.certId)

theorem mem_activeIds {id : Nat} : id ∈ l.activeIds assetId ↔
    ∃ c ∈ l.certificates, c.assetId = assetId ∧ c.status = .active ∧ c.certId = id := by
  simp only [activeIds, List.mem_map, mem_activeRows]
  constructor
  · rintro ⟨c, ⟨hc, hasset, hactive⟩, hid⟩
    exact ⟨c, hc, hasset, hactive, hid⟩
  · rintro ⟨c, hc, hasset, hactive, hid⟩
    exact ⟨c, ⟨hc, hasset, hactive⟩, hid⟩

def Taken (l : Ledger) (cert : SignedCertificate) : Prop :=
  ∃ c ∈ l.certificates, c.serialNo = cert.serial ∨ c.fingerprint = cert.fingerprint

instance (l : Ledger) (cert : SignedCertificate) : Decidable (l.Taken cert) :=
  inferInstanceAs (Decidable (∃ c ∈ l.certificates, _))

/-- The rows with these numbers are superseded by a new one. -/
def supersede (l : Ledger) (ids : List Nat) (assetId : String) (cert : SignedCertificate) :
    Ledger :=
  { l with
    certificates := l.certificates.map (CertificateRow.retire (·.certId ∈ ids)) ++
      [⟨l.nextCertId, assetId, cert.serial, cert.fingerprint, cert.notBefore, cert.notAfter,
        .active, none⟩]
    nextCertId := l.nextCertId + 1 }

theorem activeIds_append (h : l'.certificates = l.certificates ++ [new]) (assetId : String) :
    l.activeIds assetId ⊆ l'.activeIds assetId := by
  intro id hid
  obtain ⟨c, hc, hrest⟩ := mem_activeIds.mp hid
  exact mem_activeIds.mpr ⟨c, h ▸ List.mem_append_left _ hc, hrest⟩

theorem mem_activeIds_supersede {id : Nat} {ids : List Nat} {other : String}
    (hid : id ∈ l.activeIds other) (hkept : id ∉ ids) :
    id ∈ (l.supersede ids assetId cert).activeIds other := by
  obtain ⟨c, hc, hasset, hactive, rfl⟩ := mem_activeIds.mp hid
  have hsame : c.retire (·.certId ∈ ids) = c := retire_of_not hkept
  refine mem_activeIds.mpr ⟨c, List.mem_append_left _ ?_, hasset, hactive, rfl⟩
  exact List.mem_map.mpr ⟨c, hc, hsame⟩

/-- With one active certificate, an update that has found any has found all: it does what the
transaction does at once. -/
theorem rotateCertificateTx_eq_supersede (h : OneActive l.certificates l.nextCertId)
    (hnew : ¬ l.Taken cert) {ids : List Nat} (hne : ids ≠ [])
    (hids : ∀ id ∈ ids, id ∈ l.activeIds assetId) :
    l.rotateCertificateTx assetId cert = .ok (l.supersede ids assetId cert) := by
  have hiff : ∀ c ∈ l.certificates,
      c.certId ∈ ids ↔ c.assetId = assetId ∧ c.status = .active := by
    intro c hc
    constructor
    · intro hmem
      obtain ⟨d, hd, hasset, hactive, hid⟩ := mem_activeIds.mp (hids _ hmem)
      rw [← h.eq_of_certId hd hc hid]
      exact ⟨hasset, hactive⟩
    · intro hc'
      obtain ⟨id, hid⟩ := List.exists_mem_of_ne_nil ids hne
      obtain ⟨d, hd, hasset, hactive, rfl⟩ := mem_activeIds.mp (hids id hid)
      rw [h.eq_of_active hc hc'.2 hd hactive (hasset.trans hc'.1.symm)]
      exact hid
  have hsome : ∃ c ∈ l.certificates, c.assetId = assetId ∧ c.status = .active := by
    obtain ⟨id, hid⟩ := List.exists_mem_of_ne_nil ids hne
    obtain ⟨d, hd, hasset, hactive, -⟩ := mem_activeIds.mp (hids id hid)
    exact ⟨d, hd, hasset, hactive⟩
  have hrows : l.certificates.map (CertificateRow.retire (·.certId ∈ ids)) =
      l.certificates.map (CertificateRow.retire fun c => c.assetId = assetId ∧ c.status = .active) := by
    apply List.map_congr_left
    intro c hc
    simp only [CertificateRow.retire, hiff c hc]
  unfold Taken at hnew
  rw [rotateCertificateTx, if_neg hnew, if_pos hsome, supersede, hrows]
  rfl

/-- A rotation in one step supersedes every active certificate of the asset. -/
theorem rotateCertificateTx_ok (h : l.rotateCertificateTx assetId cert = .ok l') :
    l'.certificates = l.certificates.map
        (CertificateRow.retire fun c => c.assetId = assetId ∧ c.status = .active) ++
      [⟨l.nextCertId, assetId, cert.serial, cert.fingerprint, cert.notBefore, cert.notAfter,
        .active, none⟩] ∧ l'.nextCertId = l.nextCertId + 1 := by
  unfold rotateCertificateTx at h
  split at h
  next => cases h
  next =>
    split at h
    next =>
      cases h
      exact ⟨rfl, rfl⟩
    next => cases h

end Ledger

end TomAgent.Platform
