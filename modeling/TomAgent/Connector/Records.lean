import TomAgent.Connector.Identity

/-!
# What an enrollment row says

`BeginEnrollment` writes the hash of the request's key, `CompleteEnrollment` the asset id and the
certificate.  The second finds the row by its id and status alone, so the two may come from
requests with different keys.  They do not if no row is inserted while a request with another key
is still issuing for the enrollment.
-/

namespace TomAgent.Platform

/-! ## The certificate in the materials -/

def Object.certificate (fields : Object) : Option Bytes :=
  fields.findSome? fun field =>
    match field with
    | ("cert_der_b64", .text t) => Base64.decodeString t
    | _ => none

/-- The certificate that the last completion left in the column. -/
def Materials.certificate : Materials → Option Bytes
  | .null => none
  | .object fields => fields.certificate
  | .array items => items.getLast?.join.bind Object.certificate

theorem Object.certificate_append (old : Object) (cert : SignedCertificate)
    (hold : "cert_der_b64" ∉ old.map Prod.fst) :
    Object.certificate (old ++ Ledger.completedMaterials cert) = some cert.der := by
  induction old with
  | nil =>
      simp [Object.certificate, Ledger.completedMaterials, Base64.decodeString_encodeToString]
  | cons field old ih =>
      obtain ⟨key, v⟩ := field
      simp only [List.map_cons, List.mem_cons, not_or] at hold
      rw [← ih hold.2, List.cons_append, certificate, List.findSome?_cons_of_isNone]
      · rfl
      · split
        next heq =>
          cases heq
          exact absurd rfl hold.1
        next => rfl

theorem Materials.certificate_append (old : Materials) (cert : SignedCertificate) :
    (old.append (Ledger.completedMaterials cert)).certificate = some cert.der := by
  have hplain : Object.certificate (Ledger.completedMaterials cert) = some cert.der :=
    Object.certificate_append [] cert List.not_mem_nil
  cases old with
  | null => exact hplain
  | array items => simpa [Materials.append, Materials.certificate] using hplain
  | object fields =>
      apply Object.certificate_append
      simp [Ledger.completedMaterials]

/-! ## Completing a row -/

def EnrollmentRow.completedWith (row : EnrollmentRow) (assetId : String) (certId : Nat)
    (cert : SignedCertificate) : EnrollmentRow :=
  { row with
    assetId := some assetId
    certId := some certId
    status := .completed
    materials := row.materials.append (Ledger.completedMaterials cert) }

def Ledger.registered (l : Ledger) (id : Uuid) (assetId : String) (cert : SignedCertificate) :
    CertificateRow :=
  ⟨l.nextCertId, assetId, cert.serial, cert.fingerprint, cert.notBefore, cert.notAfter, .active,
    some id⟩

theorem Ledger.completeEnrollment_row {l l' : Ledger} {enrollID : String} {id : Uuid}
    {assetId : String} {cert : SignedCertificate}
    (h : l.completeEnrollment enrollID id assetId cert = .ok l') :
    ∃ row, l.enrollments id = some row ∧ row.status = .processing ∧
      l' = ⟨Function.update l.enrollments id (some (row.completedWith assetId l.nextCertId cert)),
        l.certificates ++ [l.registered id assetId cert], l.nextCertId + 1⟩ := by
  unfold completeEnrollment at h
  split at h
  next => cases h
  next =>
    split at h
    next => cases h
    next row hrow =>
      split at h
      next hprocessing =>
        cases h
        exact ⟨row, hrow, hprocessing, rfl⟩
      next => cases h

end TomAgent.Platform

namespace TomAgent.Connector

open Platform Execution

/-! ## What a store call writes -/

/-- The key for which a request is issuing a certificate: its row is inserted and not completed. -/
def Phase.issuing : Phase → Option Bytes
  | .signing pub => some pub
  | .completing pub _ => some pub
  | _ => none

inductive Writes (b : BootstrapServer) (l : Ledger) (c : Call) : Ledger × Phase → Prop
  | nothing {phase : Phase} (hphase : phase.issuing = none) : Writes b l c (l, phase)
  | inserts {id : Uuid} {pub : Bytes} {row : EnrollmentRow} {phase : Phase}
      (hid : parseUuid c.request.enrollmentRequestId = some id)
      (hbegin : c.phase = .beginning pub) (hfree : l.enrollments id = none)
      (hrow : row.csrPubkeySha256 = hexText (b.sha256 pub)) (hopen : row.status = .processing)
      (hphase : phase.issuing = none ∨ phase = .signing pub) :
      Writes b l c ({ l with enrollments := Function.update l.enrollments id (some row) }, phase)
  | deletes {id : Uuid} {phase : Phase} (hopen : ∀ row, ¬ l.Completed id row)
      (hphase : phase.issuing = none) :
      Writes b l c ({ l with enrollments := Function.update l.enrollments id none }, phase)
  | completes {id : Uuid} {pub : Bytes} {cert : SignedCertificate} {row : EnrollmentRow}
      {phase : Phase} (hid : parseUuid c.request.enrollmentRequestId = some id)
      (hcomplete : c.phase = .completing pub cert) (hrow : l.enrollments id = some row)
      (hopen : row.status = .processing) (hphase : phase.issuing = none) :
      Writes b l c
        (⟨Function.update l.enrollments id
            (some (row.completedWith (b.assetID pub) l.nextCertId cert)),
          l.certificates ++ [l.registered id (b.assetID pub) cert], l.nextCertId + 1⟩, phase)

theorem issuing_checkCSR (b : BootstrapServer) (req : RegisterRequest) :
    (b.checkCSR req).issuing = none := by
  unfold BootstrapServer.checkCSR
  split <;> rfl

theorem issuing_firstPhase (b : BootstrapServer) (req : RegisterRequest) :
    (b.firstPhase req).issuing = none := by
  unfold BootstrapServer.firstPhase
  split
  next => rfl
  next => split <;> rfl

theorem issuing_found (b : BootstrapServer) (req : RegisterRequest)
    (r : Except String (Option EnrollmentRecord)) : (b.found req r).issuing = none := by
  unfold BootstrapServer.found
  split
  next => rfl
  next => exact issuing_checkCSR b req
  next => split <;> rfl

variable {b : BootstrapServer} {l : Ledger} {c : Call} {o : Outcome}

theorem Writes.failEnrollment (id : Uuid) {ok : Phase} {fail : String → Phase}
    (hok : ok.issuing = none) (hfail : ∀ err, (fail err).issuing = none) :
    Writes b l c (o.settle l (l.failEnrollment id) ok fail) := by
  have hdelete : ∀ phase : Phase, phase.issuing = none →
      Writes b l c (l.failEnrollment id, phase) := by
    intro phase hphase
    unfold Ledger.failEnrollment
    split
    next => exact .nothing hphase
    next row hrow =>
      split
      next hopen =>
        refine .deletes (fun row' hdone => ?_) hphase
        cases hrow.symm.trans hdone.1
        cases hopen.symm.trans hdone.2
      next => exact .nothing hphase
  cases o with
  | done => exact hdelete ok hok
  | failed err => exact .nothing (hfail err)
  | unreported err => exact hdelete (fail err) (hfail err)

theorem Writes.beginEnrollment {id : Uuid} {pub : Bytes} {tokenHash : String} {err : Status}
    {fail : String → Phase} (hid : parseUuid c.request.enrollmentRequestId = some id)
    (hbegin : c.phase = .beginning pub) (hfail : ∀ err, (fail err).issuing = none) :
    let inserted := l.beginEnrollment id tokenHash (hexText (b.sha256 pub)) c.request.materials
    Writes b l c (o.settle l inserted.1
      (if inserted.2 then .signing pub else .replied (.error err)) fail) := by
  unfold Ledger.beginEnrollment
  cases hrow : l.enrollments id with
  | some row =>
      cases o with
      | done => exact .nothing rfl
      | failed err => exact .nothing (hfail err)
      | unreported err => exact .nothing (hfail err)
  | none =>
      cases o with
      | done => exact .inserts hid hbegin hrow rfl rfl (.inr rfl)
      | failed err => exact .nothing (hfail err)
      | unreported err => exact .inserts hid hbegin hrow rfl rfl (.inl (hfail err))

theorem storeCall_writes {p : Ledger × Phase} (h : b.storeCall l c o = some p) :
    Writes b l c p := by
  cases BootstrapServer.storeCall_calling h with
  | unfound hphase => exact .nothing rfl
  | find hid hphase => exact .nothing (issuing_found b c.request _)
  | reset => exact .failEnrollment _ (issuing_checkCSR b c.request) fun _ => rfl
  | begin hid hphase hinserted =>
      subst hinserted
      exact .beginEnrollment hid hphase fun _ => rfl
  | incomplete hphase => exact .nothing rfl
  | complete hid hphase hledger =>
      obtain ⟨row, hrow, hopen, rfl⟩ := Ledger.completeEnrollment_row hledger
      cases o with
      | done => exact .completes hid hphase hrow hopen rfl
      | failed err => exact .nothing rfl
      | unreported err => exact .completes hid hphase hrow hopen rfl
  | undo hphase => exact .failEnrollment _ rfl fun _ => rfl

/-! ## Rows and the requests that issue for them -/

/-- The row is about the key in its certificate: its hash, and the asset id derived from it. -/
def Describes (b : BootstrapServer) (row : EnrollmentRow) : Prop :=
  ∃ der pub, row.materials.certificate = some der ∧ b.x509.certificateKey der = some pub ∧
    row.csrPubkeySha256 = hexText (b.sha256 pub) ∧ row.assetId = some (b.assetID pub)

namespace Registration

variable {s t : Registration} {id : Uuid} {pub : Bytes}

def Issues (s : Registration) (id : Uuid) (pub : Bytes) : Prop :=
  ∃ r c, s.calls r = some c ∧ parseUuid c.request.enrollmentRequestId = some id ∧
    c.phase.issuing = some pub

/-- When `BeginEnrollment` inserts a row, every request that is issuing for the enrollment has
the same key. -/
def SameKey (b : BootstrapServer) (s : Registration) : Event → Prop
  | .store r _ => ∀ c id pub, s.calls r = some c →
      parseUuid c.request.enrollmentRequestId = some id → c.phase = .beginning pub →
      s.ledger.enrollments id = none →
        ∀ pub', s.Issues id pub' → b.sha256 pub' = b.sha256 pub
  | _ => True

theorem issues_move {r : Nat} {c : Call} {phase : Phase} {l : Ledger}
    (h : Issues { s.move r c phase with ledger := l } id pub) :
    s.Issues id pub ∨
      (parseUuid c.request.enrollmentRequestId = some id ∧ phase.issuing = some pub) := by
  obtain ⟨q, d, hcall, hid, hissuing⟩ := h
  cases move_calls hcall with
  | inl hold => exact .inl ⟨q, d, hold, hid, hissuing⟩
  | inr hnew =>
      obtain ⟨-, rfl⟩ := hnew
      exact .inr ⟨hid, hissuing⟩

structure RecordInv (b : BootstrapServer) (s : Registration) : Prop where
  completed : ∀ id row, s.ledger.Completed id row → Describes b row
  issuing : ∀ id pub row, s.Issues id pub → s.ledger.enrollments id = some row →
    row.status = .processing → row.csrPubkeySha256 = hexText (b.sha256 pub)

theorem RecordInv.start : RecordInv b start := by
  constructor
  case completed =>
    intro id row hrow
    cases hrow.1
  case issuing =>
    intro id pub row hissues hrow
    cases hrow

theorem RecordInv.quiet (h : RecordInv b s) (hrows : t.ledger.enrollments = s.ledger.enrollments)
    (hissues : ∀ id pub, t.Issues id pub → s.Issues id pub) : RecordInv b t := by
  constructor
  case completed =>
    intro id row hrow
    exact h.completed id row ⟨hrows ▸ hrow.1, hrow.2⟩
  case issuing =>
    intro id pub row hissuing hrow
    exact h.issuing id pub row (hissues id pub hissuing) (hrows ▸ hrow)

theorem RecordInv.move (h : RecordInv b s) {r : Nat} {c : Call} {phase : Phase}
    (hphase : phase.issuing = none) : RecordInv b (s.move r c phase) := by
  refine h.quiet rfl fun id pub hissues => ?_
  cases issues_move (l := s.ledger) hissues with
  | inl hold => exact hold
  | inr hnew => cases hphase.symm.trans hnew.2

/-- What holds of the rows when the row of one enrollment is replaced. -/
theorem RecordInv.write (h : RecordInv b s) {r : Nat} {c : Call} {phase : Phase} {l : Ledger}
    {new : Option EnrollmentRow}
    (hrows : l.enrollments = Function.update s.ledger.enrollments id new)
    (hphase : phase.issuing = none ∨ parseUuid c.request.enrollmentRequestId = some id)
    (hdone : ∀ row, new = some row → row.status = .completed → Describes b row)
    (hopen : ∀ row, new = some row → row.status = .processing →
      ∀ pub, s.Issues id pub ∨ phase.issuing = some pub →
        row.csrPubkeySha256 = hexText (b.sha256 pub)) :
    RecordInv b { s.move r c phase with ledger := l } := by
  constructor
  case completed =>
    intro other row hrow
    obtain ⟨hrow, hstatus⟩ := hrow
    dsimp only at hrow
    rw [hrows] at hrow
    by_cases hother : other = id
    · subst hother
      rw [Function.update_self] at hrow
      exact hdone row hrow hstatus
    · rw [Function.update_of_ne hother] at hrow
      exact h.completed other row ⟨hrow, hstatus⟩
  case issuing =>
    intro other pub row hissues hrow hstatus
    dsimp only at hrow
    rw [hrows] at hrow
    by_cases hother : other = id
    · subst hother
      rw [Function.update_self] at hrow
      exact hopen row hrow hstatus pub ((issues_move hissues).imp_right And.right)
    · rw [Function.update_of_ne hother] at hrow
      refine h.issuing other pub row ?_ hrow hstatus
      cases issues_move hissues with
      | inl hold => exact hold
      | inr hnew =>
          cases hphase with
          | inl hnone => cases hnone.symm.trans hnew.2
          | inr hid => exact absurd (Option.some.inj (hnew.1.symm.trans hid)) hother

theorem RecordInv.store (h : RecordInv b s) (hkeys : IdentityInv b s) {r : Nat} {o : Outcome}
    {c : Call} (hcall : s.calls r = some c) {p : Ledger × Phase} (hwrites : Writes b s.ledger c p)
    (hsame : SameKey b s (.store r o)) : RecordInv b { s.move r c p.2 with ledger := p.1 } := by
  cases hwrites with
  | nothing hphase => exact h.move hphase
  | @inserts id pub row phase hid hbegin hfree hrow hopen hphase =>
      refine h.write rfl (.inr hid) (fun row' heq hdone => ?_) fun row' heq _ pub' hissues => ?_
      · cases heq
        cases hopen.symm.trans hdone
      · cases heq
        rw [hrow]
        cases hissues with
        | inl hold => rw [hsame c id pub hcall hid hbegin hfree pub' hold]
        | inr hnew =>
            cases hphase with
            | inl hnone => cases hnone.symm.trans hnew
            | inr hsigning =>
                subst hsigning
                cases hnew
                rfl
  | deletes hopen hphase => exact h.write rfl (.inl hphase) nofun nofun
  | @completes id pub cert row phase hid hcomplete hrow hopen hphase =>
      have hkey : b.x509.certificateKey cert.der = some pub := by
        obtain ⟨req, phase⟩ := c
        exact hkeys.completing r req pub cert (hcomplete ▸ hcall)
      have hissues : s.Issues id pub := ⟨r, c, hcall, hid, by rw [hcomplete]; rfl⟩
      have hhash := h.issuing id pub row hissues hrow hopen
      refine h.write rfl (.inl hphase) (fun row' heq _ => ?_) fun row' heq hprocessing => ?_
      · cases heq
        exact ⟨cert.der, pub, Materials.certificate_append row.materials cert, hkey, hhash, rfl⟩
      · cases heq
        cases hprocessing

theorem RecordInv.step (h : RecordInv b s) (hkeys : IdentityInv b s) {e : Event}
    (hsame : SameKey b s e) (hstep : Registration.step b s e = some t) : RecordInv b t := by
  cases step_does hstep with
  | arrive hfree => exact h.move (issuing_firstPhase b _)
  | store hcall hp => exact h.store hkeys hcall (storeCall_writes hp) hsame
  | @sign r serialBytes now later req pub hcall =>
      refine h.quiet rfl fun id pub' hissues => ?_
      cases issues_move (l := s.ledger) hissues with
      | inl hold => exact hold
      | inr hnew => exact ⟨r, _, hcall, hnew.1, hnew.2⟩
  | signFails hcall => exact h.move rfl
  | abandon hcall => exact h.move rfl
  | rotate hl =>
      refine h.quiet ?_ fun _ _ hissues => hissues
      unfold Ledger.rotateCertificateTx at hl
      split at hl
      next => cases hl
      next =>
        split at hl
        next => cases hl; rfl
        next => cases hl

end Registration

/-- In every interleaving of store calls in which rows are inserted only while nobody issues for
another key, a completed row has the hash of the key in the certificate it stores, and the asset
id derived from that hash. -/
theorem enrollment_row_describes (b : BootstrapServer) {s : Registration}
    (hrun : Reaches (Fires (Registration.step b) (Registration.SameKey b)) Registration.start s)
    {id : Uuid} {row : EnrollmentRow} (hrow : s.ledger.Completed id row) : Describes b row := by
  have hinv : s.IdentityInv b ∧ s.RecordInv b := by
    refine invariant (fun s : Registration => s.IdentityInv b ∧ s.RecordInv b) ?_
      ⟨.start, .start⟩ hrun
    rintro s t ⟨hkeys, hrecord⟩ ⟨e, hsame, hstep⟩
    exact ⟨hkeys.step (Registration.step_moves hstep), hrecord.step hkeys hsame hstep⟩
  exact hinv.2.completed id row hrow

/-! ## Two keys -/

namespace Registration

def Numbered (n : Nat) (s : Registration) : Prop := ∀ r, n ≤ r → s.calls r = none

theorem Numbered.move {n : Nat} (h : Numbered n s) {r : Nat} (hr : r < n) {c : Call}
    {phase : Phase} : Numbered n (s.move r c phase) := by
  intro q hq
  have hne : q ≠ r := by omega
  exact (Function.update_of_ne hne _ _).trans (h q hq)

theorem Numbered.step {n : Nat} (h : Numbered n s) {e : Event}
    (harrive : ∀ r req, e = .arrive r req → r < n) (hstep : Registration.step b s e = some t) :
    Numbered n t := by
  have hlt : ∀ r c, s.calls r = some c → r < n := by
    intro r c hcall
    by_contra hle
    rw [h r (by omega)] at hcall
    cases hcall
  cases step_does hstep with
  | arrive hfree => exact h.move (harrive _ _ rfl)
  | store hcall hp => exact h.move (hlt _ _ hcall)
  | sign hcall => exact h.move (hlt _ _ hcall)
  | signFails hcall => exact h.move (hlt _ _ hcall)
  | abandon hcall => exact h.move (hlt _ _ hcall)
  | rotate hl => exact h

/-- `SameKey`, tested for the requests below `n`. -/
def sameKeyBelow (b : BootstrapServer) (n : Nat) (s : Registration) : Event → Bool
  | .arrive r _ => r < n
  | .store r _ =>
      match s.calls r with
      | some ⟨_, .beginning pub⟩ => (List.range n).all fun q => (s.calls q).all fun d =>
          d.phase.issuing.all fun pub' => b.sha256 pub' = b.sha256 pub
      | _ => true
  | _ => true

theorem sameKey_of_below {n : Nat} (hn : Numbered n s) {e : Event}
    (h : sameKeyBelow b n s e = true) : SameKey b s e := by
  cases e with
  | store r o =>
      intro c id pub hcall hid hbegin hfree pub' hissues
      obtain ⟨req, phase⟩ := c
      obtain ⟨q, d, hd, -, hissuing⟩ := hissues
      have hq : q < n := by
        by_contra hle
        rw [hn q (by omega)] at hd
        cases hd
      dsimp only at hbegin
      subst hbegin
      simp only [sameKeyBelow, hcall, List.all_eq_true, List.mem_range] at h
      simpa [hd, hissuing] using h q hq
  | _ => trivial

theorem reaches_sameKey {n : Nat}
    (h : Reaches (Fires (Registration.step b) fun s e => sameKeyBelow b n s e = true) start s) :
    Reaches (Fires (Registration.step b) (SameKey b)) start s ∧ Numbered n s := by
  induction h with
  | refl => exact ⟨.refl, fun _ _ => rfl⟩
  | tail _ hlast ih =>
      obtain ⟨e, hbelow, hstep⟩ := hlast
      refine ⟨ih.1.tail ⟨e, sameKey_of_below ih.2 hbelow, hstep⟩, ih.2.step ?_ hstep⟩
      rintro r req rfl
      exact of_decide_eq_true hbelow

end Registration

def sampleId : Uuid := [160, 238, 188, 153, 156, 11, 78, 248, 187, 109, 107, 185, 189, 56, 10, 17]

def sampleRecord (s : Registration) : Option (EnrollmentStatus × String × Option Bytes) :=
  (s.ledger.enrollments sampleId).map fun row =>
    (row.status, row.csrPubkeySha256, row.materials.certificate)

/-- The first request is abandoned after its row is inserted; the second, with another key,
deletes the row and completes its own. -/
theorem enrollment_row_describes_second :
    ∃ s row, Reaches (Fires (Registration.step byteServer) (Registration.SameKey byteServer))
        Registration.start s ∧ s.ledger.Completed sampleId row ∧
      row.csrPubkeySha256 = "02" ∧ Describes byteServer row := by
  obtain ⟨s, hrun, hrecord⟩ := reaches_of_any (Registration.step byteServer)
    (s := Registration.start)
    [.arrive 0 (byteRequest 1), .store 0 .done, .store 0 .done, .abandon 0,
      .arrive 1 (byteRequest 2), .store 1 .done, .store 1 .done, .store 1 .done,
      .sign 1 [2] 0 0, .store 1 .done]
    (fun s => sampleRecord s = some (.completed, "02", some [2]))
    (permitted_of_permits (fun _ _ h => h)
      (by decide +kernel :
        permits _ (Registration.sameKeyBelow byteServer 2) Registration.start _ = true))
    (by decide +kernel)
  obtain ⟨row, hrow, heq⟩ := Option.map_eq_some_iff.mp hrecord
  have hdone : s.ledger.Completed sampleId row := ⟨hrow, congrArg Prod.fst heq⟩
  have hsame := (Registration.reaches_sameKey hrun).1
  exact ⟨s, row, hsame, hdone, congrArg (·.2.1) heq, enrollment_row_describes byteServer hsame hdone⟩

/-- The second request deletes the row of the first while that one is signing, and inserts its
own; the first one completes it. -/
theorem enrollment_row_of_two_keys :
    ∃ s row, Reaches (Registration.Steps byteServer) Registration.start s ∧
      s.ledger.Completed sampleId row ∧ ¬ Describes byteServer row := by
  have hcross : ∃ s, Reaches (Registration.Steps byteServer) Registration.start s ∧
      sampleRecord s = some (.completed, "02", some [1]) := by
    apply reaches_of_any (Registration.step byteServer)
      [.arrive 0 (byteRequest 1), .store 0 .done, .store 0 .done,
        .arrive 1 (byteRequest 2), .store 1 .done, .store 1 .done, .store 1 .done,
        .sign 0 [1] 0 0, .store 0 .done]
    · exact permitted_of_forall (fun _ _ _ => trivial) _
    · decide +kernel
  obtain ⟨s, hrun, hrecord⟩ := hcross
  obtain ⟨row, hrow, heq⟩ := Option.map_eq_some_iff.mp hrecord
  refine ⟨s, row, hrun, ⟨hrow, congrArg Prod.fst heq⟩, ?_⟩
  rintro ⟨der, pub, hder, hkey, hhash, -⟩
  have hstored : row.materials.certificate = some [1] := congrArg (·.2.2) heq
  have hwritten : row.csrPubkeySha256 = "02" := congrArg (·.2.1) heq
  cases hder.symm.trans hstored
  cases hkey
  rw [hwritten] at hhash
  exact absurd hhash (by decide +kernel)

end TomAgent.Connector
