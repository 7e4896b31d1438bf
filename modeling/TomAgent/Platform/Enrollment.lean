import Mathlib.Data.List.Sort
import TomAgent.Core.Base64
import TomAgent.Platform.Store

/-!
# The registration tables

`register.enrollment` has one row per enrollment, `register.agent_certificate` one
row per certificate.  The certificate of a completed enrollment is kept in the
`materials` column, next to whatever the agent sent as its materials.
-/

namespace TomAgent.Platform

/-! ## The materials column -/

inductive Scalar where
  | text (s : String)
  | number (n : Int64)
deriving Repr, DecidableEq

abbrev Object := List (String × Scalar)

/-- What the column can hold: the JSON of a nil map, an object, or the array that
appending to a value that is no object makes of it. -/
inductive Materials where
  | null
  | object (fields : Object)
  | array (items : List (Option Object))
deriving Repr, DecidableEq

/-- What an agent says about itself.  A map without entries arrives as nil. -/
abbrev MaterialMap := AList (fun _ : String => String)

def Materials.ofMap (m : MaterialMap) : Materials :=
  if m.entries = [] then .null
  else .object (m.entries.map fun entry => (entry.1, .text entry.2))

/-- The operator `||`: fields of the right object replace those of the left one. -/
def Materials.append : Materials → Object → Materials
  | .null, new => .array [none, some new]
  | .object old, new => .object (old.filter (fun field => field.1 ∉ new.map Prod.fst) ++ new)
  | .array items, new => .array (items ++ [some new])

/-- The order in which the database writes the fields of an object: shorter keys
first, keys of one length by their bytes. -/
def keyLE (a b : String × Scalar) : Prop :=
  let x := JsonText.utf8 a.1.toList
  let y := JsonText.utf8 b.1.toList
  x.length < y.length ∨ (x.length = y.length ∧ x ≤ y)

instance : DecidableRel keyLE := by
  intro a b
  unfold keyLE
  infer_instance

/-- `encoding/json` compares field names without regard to case. -/
def names (field key : String) : Prop := key.toList.map Char.toLower = field.toList

instance (field key : String) : Decidable (names field key) := by
  unfold names; infer_instance

/-- The loop of `Unmarshal` over the fields of an object: the last matching field
counts, and a value of the wrong type fails the call. -/
def unmarshalFields : Object → String × Int64 → Option (String × Int64)
  | [], m => some m
  | (key, v) :: rest, m =>
      if names "cert_der_b64" key then
        match v with
        | .text t => unmarshalFields rest (t, m.2)
        | .number _ => none
      else if names "not_after" key then
        match v with
        | .number n => unmarshalFields rest (m.1, n)
        | .text _ => none
      else unmarshalFields rest m

def Materials.unmarshal : Materials → Option (String × Int64)
  | .null => some ("", 0)
  | .object fields => unmarshalFields (fields.insertionSort keyLE) ("", 0)
  | .array _ => none

/-! ## Tables -/

inductive EnrollmentStatus where
  | processing
  | completed
deriving Repr, DecidableEq

structure EnrollmentRow where
  bootstrapTokenHash : String
  csrPubkeySha256 : String
  assetId : Option String
  certId : Option Nat
  materials : Materials
  status : EnrollmentStatus
deriving Repr, DecidableEq

inductive CertificateStatus where
  | active
  | superseded
deriving Repr, DecidableEq

structure CertificateRow where
  certId : Nat
  assetId : String
  serialNo : String
  fingerprint : String
  notBefore : Int
  notAfter : Int
  status : CertificateStatus
  /-- The enrollment whose completion inserted the row; no column. -/
  enrollment : Option Uuid
deriving Repr, DecidableEq

structure Ledger where
  enrollments : Uuid → Option EnrollmentRow
  certificates : List CertificateRow
  /-- The sequence of `cert_id`. -/
  nextCertId : Nat

structure EnrollmentRecord where
  status : EnrollmentStatus
  assetId : String
  certDER : Bytes
  notAfter : Int64
deriving Repr, DecidableEq

structure SignedCertificate where
  der : Bytes
  serial : String
  fingerprint : String
  notBefore : Int
  notAfter : Int
deriving Repr, DecidableEq

def unix (time : Int) : Int64 := Int64.ofInt (time / 1000000000)

namespace Ledger

def empty : Ledger := ⟨fun _ => none, [], 1⟩

/-- The record of a row.  Materials that cannot be read leave the certificate empty. -/
def record (row : EnrollmentRow) : Except String EnrollmentRecord :=
  let r : EnrollmentRecord := ⟨row.status, row.assetId.getD "", [], 0⟩
  match row.status with
  | .processing => .ok r
  | .completed =>
      match row.materials.unmarshal with
      | none => .ok r
      | some (text, notAfter) =>
          if text = "" then .ok r
          else
            match Base64.decodeString text with
            | none => .error "enrollment materials cert corrupt"
            | some der => .ok { r with certDER := der, notAfter := notAfter }

def findEnrollment (l : Ledger) (id : Uuid) : Except String (Option EnrollmentRecord) :=
  match l.enrollments id with
  | none => .ok none
  | some row => (record row).map some

/-- The tables after the statement, and whether a row was inserted. -/
def beginEnrollment (l : Ledger) (id : Uuid) (tokenHash pubkeyHash : String) (materials : MaterialMap) :
    Ledger × Bool :=
  match l.enrollments id with
  | some _ => (l, false)
  | none =>
      let row : EnrollmentRow := ⟨tokenHash, pubkeyHash, none, none, .ofMap materials, .processing⟩
      ({ l with enrollments := Function.update l.enrollments id (some row) }, true)

def failEnrollment (l : Ledger) (id : Uuid) : Ledger :=
  match l.enrollments id with
  | none => l
  | some row =>
      if row.status = .processing then { l with enrollments := Function.update l.enrollments id none }
      else l

def completedMaterials (cert : SignedCertificate) : Object :=
  [("cert_der_b64", .text (Base64.encodeToString cert.der)), ("not_after", .number (unix cert.notAfter))]

def completeEnrollment (l : Ledger) (enrollID : String) (id : Uuid) (assetId : String)
    (cert : SignedCertificate) : Except String Ledger :=
  if ∃ c ∈ l.certificates, c.serialNo = cert.serial ∨ c.fingerprint = cert.fingerprint then
    .error "duplicate key value violates unique constraint"
  else
    match l.enrollments id with
    | none => .error ("enrollment " ++ enrollID ++ " not in processing state")
    | some row =>
        if row.status = .processing then
          .ok {
            enrollments := Function.update l.enrollments id (some { row with
              assetId := some assetId
              certId := some l.nextCertId
              status := .completed
              materials := row.materials.append (completedMaterials cert) })
            certificates := l.certificates ++ [⟨l.nextCertId, assetId, cert.serial, cert.fingerprint,
              cert.notBefore, cert.notAfter, .active, some id⟩]
            nextCertId := l.nextCertId + 1 }
        else .error ("enrollment " ++ enrollID ++ " not in processing state")

def rotateCertificateTx (l : Ledger) (assetId : String) (cert : SignedCertificate) :
    Except String Ledger :=
  if ∃ c ∈ l.certificates, c.serialNo = cert.serial ∨ c.fingerprint = cert.fingerprint then
    .error "duplicate key value violates unique constraint"
  else if ∃ c ∈ l.certificates, c.assetId = assetId ∧ c.status = .active then
    .ok { l with
      certificates := l.certificates.map (fun c =>
        if c.assetId = assetId ∧ c.status = .active then { c with status := .superseded } else c) ++
          [⟨l.nextCertId, assetId, cert.serial, cert.fingerprint, cert.notBefore, cert.notAfter,
            .active, none⟩]
      nextCertId := l.nextCertId + 1 }
  else .error "not found"

end Ledger

/-! ## Reading the certificate back -/

open JsonText (utf8)

theorem toLower_cases (c : Char) :
    c.toLower = c ∨ (c.toLower.toNat = c.toNat + 32 ∧ c.toNat ≤ 90) := by
  unfold Char.toLower
  split
  next h =>
    have hle : c.val.toNat ≤ 90 := UInt32.le_iff_toNat_le.mp h.2
    have hshift : ('a'.val - 'A'.val).toNat = 32 := by decide
    refine Or.inr ⟨?_, hle⟩
    change (c.val + ('a'.val - 'A'.val)).toNat = c.val.toNat + 32
    rw [UInt32.toNat_add, hshift]
    omega
  next => exact Or.inl rfl

theorem utf8_cons_ascii {c : Char} (h : c.toNat ≤ 127) (rest : List Char) :
    utf8 (c :: rest) = UInt8.ofNat c.toNat :: utf8 rest := by
  simp [utf8, String.utf8EncodeChar, h]

theorem eq_of_toLower {key field : List Char} (hascii : ∀ c ∈ field, c.toNat ≤ 127)
    (hnames : key.map Char.toLower = field) :
    (utf8 key).length = (utf8 field).length ∧ (utf8 field ≤ utf8 key → key = field) := by
  induction key generalizing field with
  | nil =>
      subst hnames
      exact ⟨rfl, fun _ => rfl⟩
  | cons c key ih =>
      subst hnames
      simp only [List.map_cons, List.mem_cons, forall_eq_or_imp] at hascii
      obtain ⟨hlength, horder⟩ := ih hascii.2 rfl
      rcases toLower_cases c with hsame | ⟨hcapital, hle⟩
      · rw [hsame] at hascii
        rw [List.map_cons, hsame, utf8_cons_ascii hascii.1, utf8_cons_ascii hascii.1]
        refine ⟨by simp [hlength], fun hfirst => ?_⟩
        rcases List.cons_le_cons_iff.mp hfirst with hlt | ⟨-, hrest⟩
        · exact absurd hlt (UInt8.lt_irrefl _)
        · rw [← horder hrest]
      · rw [List.map_cons, utf8_cons_ascii hascii.1, utf8_cons_ascii (by omega)]
        refine ⟨by simp [hlength], fun hfirst => ?_⟩
        have hbyte : UInt8.ofNat c.toNat < UInt8.ofNat c.toLower.toNat := by
          rw [UInt8.lt_iff_toNat_lt, UInt8.toNat_ofNat', UInt8.toNat_ofNat']
          omega
        rcases List.cons_le_cons_iff.mp hfirst with hlt | ⟨heq, -⟩
        · exact absurd (UInt8.lt_trans hbyte hlt) (UInt8.lt_irrefl _)
        · rw [heq] at hbyte
          exact absurd hbyte (UInt8.lt_irrefl _)

theorem eq_of_names {field key : String} (hascii : ∀ c ∈ field.toList, c.toNat ≤ 127)
    (hnames : names field key) {v w : Scalar} (hle : keyLE (field, v) (key, w)) : key = field := by
  obtain ⟨hlength, horder⟩ := eq_of_toLower hascii hnames
  unfold keyLE at hle
  dsimp only at hle
  rcases hle with hlt | ⟨-, hle⟩
  · omega
  · exact String.toList_inj.mp (horder hle)

instance : Std.Total keyLE := ⟨fun a b => by
  unfold keyLE
  dsimp only
  have h := List.le_total (utf8 a.1.toList) (utf8 b.1.toList)
  rcases Nat.lt_trichotomy (utf8 a.1.toList).length (utf8 b.1.toList).length with hlt | heq | hgt
  · exact Or.inl (Or.inl hlt)
  · rcases h with h | h
    · exact Or.inl (Or.inr ⟨heq, h⟩)
    · exact Or.inr (Or.inr ⟨heq.symm, h⟩)
  · exact Or.inr (Or.inl hgt)⟩

instance : IsTrans (String × Scalar) keyLE := ⟨fun a b c hab hbc => by
  unfold keyLE at *
  dsimp only at *
  rcases hab with hab | ⟨hab, hle⟩
  · rcases hbc with hbc | ⟨hbc, -⟩
    · exact Or.inl (by omega)
    · exact Or.inl (by omega)
  · rcases hbc with hbc | ⟨hbc, hle'⟩
    · exact Or.inl (by omega)
    · exact Or.inr ⟨by omega, List.le_trans hle hle'⟩⟩

/-- The field in small letters is the last one with its name, so it decides. -/
theorem unmarshalFields_cert {l : Object} {t : String} (hsorted : l.Pairwise keyLE)
    (hcert : ∀ v, ("cert_der_b64", v) ∈ l → v = .text t) {m r : String × Int64}
    (h : unmarshalFields l m = some r) :
    ("cert_der_b64" ∈ l.map Prod.fst → r.1 = t) ∧
      ((∀ key ∈ l.map Prod.fst, ¬ names "cert_der_b64" key) → r.1 = m.1) := by
  induction l generalizing m with
  | nil =>
      cases h
      exact ⟨(fun hmem => nomatch hmem), fun _ => rfl⟩
  | cons field l ih =>
      obtain ⟨key, v⟩ := field
      obtain ⟨hfirst, hsorted⟩ := List.pairwise_cons.mp hsorted
      replace ih := fun m => @ih hsorted (fun v hv => hcert v (List.mem_cons_of_mem _ hv)) m
      have hself : names "cert_der_b64" "cert_der_b64" := by decide
      have hascii : ∀ c ∈ "cert_der_b64".toList, c.toNat ≤ 127 := by
        have hall : "cert_der_b64".toList.all (fun c => decide (c.toNat ≤ 127)) = true := by decide
        intro c hc
        exact of_decide_eq_true (List.all_eq_true.mp hall c hc)
      unfold unmarshalFields at h
      split at h
      next hnames =>
        cases v with
        | number n => cases h
        | text value =>
            obtain ⟨hthere, hnot⟩ := ih (value, m.2) h
            refine ⟨fun hmem => ?_, fun hnone => absurd hnames (hnone key List.mem_cons_self)⟩
            by_cases hlater : "cert_der_b64" ∈ l.map Prod.fst
            · exact hthere hlater
            · rcases List.mem_cons.mp hmem with rfl | hmem
              · rw [hnot ?_]
                · exact Scalar.text.inj (hcert _ List.mem_cons_self)
                · intro later hmem hnames
                  obtain ⟨⟨later, w⟩, hw, rfl⟩ := List.mem_map.mp hmem
                  exact hlater (eq_of_names hascii hnames (hfirst _ hw) ▸ hmem)
              · exact absurd hmem hlater
      next hnames =>
        have hrest : ∃ m', m'.1 = m.1 ∧ unmarshalFields l m' = some r := by
          split at h
          next =>
            cases v with
            | number n => exact ⟨(m.1, n), rfl, h⟩
            | text value => cases h
          next => exact ⟨m, rfl, h⟩
        obtain ⟨m', hm', h⟩ := hrest
        obtain ⟨hthere, hnot⟩ := ih m' h
        refine ⟨fun hmem => ?_, fun hnone => ?_⟩
        · rcases List.mem_cons.mp hmem with heq | hmem
          · exact absurd hself (heq ▸ hnames)
          · exact hthere hmem
        · rw [← hm']
          exact hnot fun later hmem => hnone later (List.mem_cons_of_mem _ hmem)

/-- The certificate that was appended is the one that is read back, whatever the
agent wrote into its materials. -/
theorem unmarshal_append_completed {old : Materials} {cert : SignedCertificate}
    {r : String × Int64}
    (h : (old.append (Ledger.completedMaterials cert)).unmarshal = some r) :
    r.1 = Base64.encodeToString cert.der := by
  cases old with
  | null => cases h
  | array items => cases h
  | object fields =>
      simp only [Materials.append, Materials.unmarshal] at h
      refine (unmarshalFields_cert (List.pairwise_insertionSort _ _) ?_ h).1 ?_
      · intro v hv
        rw [List.mem_insertionSort, List.mem_append] at hv
        rcases hv with hv | hv
        · simp [Ledger.completedMaterials] at hv
        · simpa [Ledger.completedMaterials] using hv
      · rw [((List.perm_insertionSort _ _).map Prod.fst).mem_iff]
        simp [Ledger.completedMaterials]

theorem Ledger.record_columns {row : EnrollmentRow} {r : EnrollmentRecord}
    (h : record row = .ok r) : r.status = row.status ∧ r.assetId = row.assetId.getD "" := by
  unfold record at h
  dsimp only at h
  split at h
  next hstatus => exact (Except.ok.inj h) ▸ ⟨rfl, rfl⟩
  next hstatus =>
    split at h
    next => exact (Except.ok.inj h) ▸ ⟨rfl, rfl⟩
    next =>
      split at h
      next => exact (Except.ok.inj h) ▸ ⟨rfl, rfl⟩
      next =>
        split at h
        next => cases h
        next => exact (Except.ok.inj h) ▸ ⟨rfl, rfl⟩

theorem Ledger.record_certDER {row : EnrollmentRow} {old : Materials} {cert : SignedCertificate}
    (hrow : row.materials = old.append (completedMaterials cert)) {r : EnrollmentRecord}
    (h : record row = .ok r) : r.certDER = [] ∨ r.certDER = cert.der := by
  unfold record at h
  dsimp only at h
  cases hstatus : row.status with
  | processing =>
      rw [hstatus] at h
      cases h
      exact Or.inl rfl
  | completed =>
      rw [hstatus, hrow] at h
      dsimp only at h
      cases hread : (old.append (completedMaterials cert)).unmarshal with
      | none =>
          rw [hread] at h
          cases h
          exact Or.inl rfl
      | some fields =>
          obtain ⟨text, notAfter⟩ := fields
          have htext : text = Base64.encodeToString cert.der := unmarshal_append_completed hread
          rw [hread, htext] at h
          dsimp only at h
          split at h
          next =>
            cases h
            exact Or.inl rfl
          next =>
            rw [Base64.decodeString_encodeToString] at h
            cases h
            exact Or.inr rfl

/-! ## What the calls leave alone -/

namespace Ledger

def issued (l : Ledger) (id : Uuid) : List CertificateRow :=
  l.certificates.filter fun c => c.enrollment = some id

def Completed (l : Ledger) (id : Uuid) (row : EnrollmentRow) : Prop :=
  l.enrollments id = some row ∧ row.status = .completed

theorem beginEnrollment_completed {l : Ledger} {id : Uuid} {tokenHash pubkeyHash : String}
    {materials : MaterialMap} {other : Uuid} {row : EnrollmentRow} :
    (l.beginEnrollment id tokenHash pubkeyHash materials).1.Completed other row ↔
      l.Completed other row := by
  unfold beginEnrollment Completed
  cases hrow : l.enrollments id with
  | some old => exact Iff.rfl
  | none =>
      by_cases hid : other = id
      · subst hid
        simp only [Function.update_self, hrow, Option.some.injEq]
        constructor
        · rintro ⟨rfl, hstatus⟩
          cases hstatus
        · rintro ⟨hnone, -⟩
          cases hnone
      · simp only [Function.update_of_ne hid]

theorem beginEnrollment_certificates (l : Ledger) (id : Uuid) (tokenHash pubkeyHash : String)
    (materials : MaterialMap) :
    (l.beginEnrollment id tokenHash pubkeyHash materials).1.certificates = l.certificates := by
  unfold beginEnrollment
  cases l.enrollments id with
  | some old => rfl
  | none => rfl

theorem failEnrollment_completed {l : Ledger} {id other : Uuid} {row : EnrollmentRow} :
    (l.failEnrollment id).Completed other row ↔ l.Completed other row := by
  unfold failEnrollment Completed
  cases hrow : l.enrollments id with
  | none => exact Iff.rfl
  | some old =>
      dsimp only
      split
      next hprocessing =>
        by_cases hid : other = id
        · subst hid
          simp only [Function.update_self, hrow, Option.some.injEq]
          constructor
          · rintro ⟨hnone, -⟩
            cases hnone
          · rintro ⟨rfl, hstatus⟩
            rw [hprocessing] at hstatus
            cases hstatus
        · simp only [Function.update_of_ne hid]
      next => exact Iff.rfl

theorem failEnrollment_certificates (l : Ledger) (id : Uuid) :
    (l.failEnrollment id).certificates = l.certificates := by
  unfold failEnrollment
  cases l.enrollments id with
  | none => rfl
  | some old =>
      dsimp only
      split
      next => rfl
      next => rfl

structure Same (l l' : Ledger) : Prop where
  completed : ∀ id row, l'.Completed id row ↔ l.Completed id row
  issued : ∀ id, (l'.issued id).length = (l.issued id).length

theorem Same.refl (l : Ledger) : l.Same l := ⟨fun _ _ => Iff.rfl, fun _ => rfl⟩

theorem Same.beginEnrollment (l : Ledger) (id : Uuid) (tokenHash pubkeyHash : String)
    (materials : MaterialMap) : l.Same (l.beginEnrollment id tokenHash pubkeyHash materials).1 := by
  refine ⟨fun _ _ => beginEnrollment_completed, fun other => ?_⟩
  rw [Ledger.issued, beginEnrollment_certificates, Ledger.issued]

theorem Same.failEnrollment (l : Ledger) (id : Uuid) : l.Same (l.failEnrollment id) := by
  refine ⟨fun _ _ => failEnrollment_completed, fun other => ?_⟩
  rw [Ledger.issued, failEnrollment_certificates, Ledger.issued]

/-- A completion turns an enrollment that was being processed into a completed one and
adds its certificate. -/
theorem completeEnrollment_ok {l l' : Ledger} {enrollID : String} {id : Uuid} {assetId : String}
    {cert : SignedCertificate} (h : l.completeEnrollment enrollID id assetId cert = .ok l') :
    ∃ (row : EnrollmentRow) (old : Materials), row.status = .completed ∧ row.assetId = some assetId ∧
      row.materials = old.append (completedMaterials cert) ∧
      (∀ r, ¬ l.Completed id r) ∧
      l'.enrollments = Function.update l.enrollments id (some row) ∧
      l'.issued id = l.issued id ++
        [⟨l.nextCertId, assetId, cert.serial, cert.fingerprint, cert.notBefore, cert.notAfter,
          .active, some id⟩] ∧
      ∀ other, other ≠ id → l'.issued other = l.issued other := by
  unfold completeEnrollment at h
  split at h
  next => cases h
  next =>
    cases hrow : l.enrollments id with
    | none =>
        rw [hrow] at h
        cases h
    | some row =>
        rw [hrow] at h
        dsimp only at h
        split at h
        next hprocessing =>
          cases h
          refine ⟨_, row.materials, rfl, rfl, rfl, ?_, rfl, ?_, ?_⟩
          · rintro r ⟨hr, hstatus⟩
            rw [hrow] at hr
            cases hr
            rw [hprocessing] at hstatus
            cases hstatus
          · simp [issued]
          · intro other hother
            simp [issued, Ne.symm hother]
        next => cases h

/-- A rotation concerns no enrollment. -/
theorem Same.rotateCertificateTx {l l' : Ledger} {assetId : String} {cert : SignedCertificate}
    (h : l.rotateCertificateTx assetId cert = .ok l') : l.Same l' := by
  unfold Ledger.rotateCertificateTx at h
  split at h
  next => cases h
  next =>
    split at h
    next =>
      cases h
      refine ⟨fun _ _ => Iff.rfl, fun id => ?_⟩
      have htag : (fun c : CertificateRow => decide (c.enrollment = some id)) ∘
          (fun c => if c.assetId = assetId ∧ c.status = .active then
            { c with status := .superseded } else c) =
          fun c => decide (c.enrollment = some id) := by
        funext c
        simp only [Function.comp_apply]
        split <;> rfl
      simp [Ledger.issued, List.filter_map, htag]
    next => cases h

end Ledger

end TomAgent.Platform
