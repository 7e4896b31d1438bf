import TomAgent.Connector.Rotation

/-!
# The name in a certificate

A registration is answered with the asset id that the certificate was signed for, also
when a completed enrollment is replayed from its stored materials.  A rotation is answered
with a certificate for the asset id of its request.
-/

namespace TomAgent.Connector

open Platform Execution

def BootstrapServer.Signs (b : BootstrapServer) (assetId : String) (cert : SignedCertificate) :
    Prop :=
  ∃ pub serialBytes now later, cert = b.sign pub assetId serialBytes now later

def BootstrapServer.IssuesTo (b : BootstrapServer) (assetId : String) (der : Bytes) : Prop :=
  ∃ cert, b.Signs assetId cert ∧ cert.der = der

variable {b : BootstrapServer}

theorem BootstrapServer.signs_sign (pub : Bytes) (assetId : String) (serialBytes : Bytes)
    (now later : Int) : b.Signs assetId (b.sign pub assetId serialBytes now later) :=
  ⟨pub, serialBytes, now, later, rfl⟩

theorem BootstrapServer.Signs.issues {assetId : String} {cert : SignedCertificate}
    (h : b.Signs assetId cert) : b.IssuesTo assetId cert.der :=
  ⟨cert, h, rfl⟩

/-! ## Registrations -/

/-- A phase with no certificate in it. -/
def Phase.Bare : Phase → Prop
  | .completing _ _ => False
  | .replied (.ok _) => False
  | _ => True

theorem checkCSR_bare (b : BootstrapServer) (req : RegisterRequest) : (b.checkCSR req).Bare := by
  unfold BootstrapServer.checkCSR
  cases parseCSR b.x509 req.csrDer with
  | error err => trivial
  | ok pub => trivial

theorem firstPhase_bare (b : BootstrapServer) (req : RegisterRequest) :
    (b.firstPhase req).Bare := by
  unfold BootstrapServer.firstPhase
  split
  next => trivial
  next =>
    split
    next => trivial
    next => trivial

theorem settle_bare (o : Outcome) (l l' : Ledger) {ok : Phase} {fail : String → Phase}
    (hok : ok.Bare) (hfail : ∀ err, (fail err).Bare) : (o.settle l l' ok fail).2.Bare := by
  cases o with
  | done => exact hok
  | failed err => exact hfail err
  | unreported err => exact hfail err

theorem found_not_completing (req : RegisterRequest) (r : Except String (Option EnrollmentRecord))
    (pub : Bytes) (cert : SignedCertificate) : b.found req r ≠ .completing pub cert := by
  intro h
  unfold BootstrapServer.found at h
  split at h
  next => cases h
  next =>
    have hbare := checkCSR_bare b req
    rw [h] at hbare
    exact hbare
  next =>
    split at h
    next => cases h
    next => cases h

/-- Only the signature of a request brings a certificate to it. -/
theorem storeCall_not_completing {l : Ledger} {c : Call} {o : Outcome} {p : Ledger × Phase}
    (h : b.storeCall l c o = some p) (pub : Bytes) (cert : SignedCertificate) :
    p.2 ≠ .completing pub cert := by
  have hbare : ∀ {phase : Phase}, phase.Bare → phase ≠ .completing pub cert := by
    rintro phase hphase rfl
    exact hphase
  cases BootstrapServer.storeCall_calling h with
  | unfound hphase => exact nofun
  | find hid hphase => exact found_not_completing c.request _ pub cert
  | reset => exact hbare (settle_bare o _ _ (checkCSR_bare b c.request) fun _ => trivial)
  | begin hid hphase hinserted =>
      refine hbare (settle_bare o _ _ ?_ fun _ => trivial)
      split
      · trivial
      · trivial
  | incomplete hphase => exact nofun
  | complete hid hphase hledger =>
      cases o with
      | done => exact nofun
      | failed err => exact nofun
      | unreported err => exact nofun
  | undo hphase => exact hbare (settle_bare o _ _ trivial fun _ => trivial)

namespace Registration

variable {s t : Registration} {e : Event}

/-- A completed row names the asset that its certificate was signed for. -/
def RowSigned (b : BootstrapServer) (row : EnrollmentRow) : Prop :=
  ∃ pub cert, row.assetId = some (b.assetID pub) ∧
    (∃ old : Materials, row.materials = old.append (Ledger.completedMaterials cert)) ∧
      b.Signs (b.assetID pub) cert

def PhaseSigned (b : BootstrapServer) : Phase → Prop
  | .completing pub cert => b.Signs (b.assetID pub) cert
  | .replied (.ok resp) =>
      b.IssuesTo resp.assetId resp.certificateDer ∧ resp.caDer = b.caDER
  | _ => True

theorem phaseSigned_bare {phase : Phase} (h : phase.Bare) : PhaseSigned b phase := by
  unfold PhaseSigned
  split
  next => exact h.elim
  next => exact h.elim
  next => trivial

theorem phaseSigned_quiet {phase : Phase} (h : phase.Quiet b)
    (hne : ∀ pub cert, phase ≠ .completing pub cert) : PhaseSigned b phase := by
  cases phase with
  | completing pub cert => exact absurd rfl (hne pub cert)
  | replied reply =>
      cases reply with
      | error err => trivial
      | ok resp => exact h.elim
  | _ => trivial

structure SignedInv (b : BootstrapServer) (s : Registration) : Prop where
  rows : ∀ id row, s.ledger.Completed id row → RowSigned b row
  calls : ∀ r c, s.calls r = some c → PhaseSigned b c.phase

theorem SignedInv.start : SignedInv b start := by
  refine ⟨?_, ?_⟩
  · rintro id row ⟨hrow, -⟩
    cases hrow
  · intro r c hcall
    cases hcall

theorem SignedInv.move (h : SignedInv b s) {l : Ledger}
    (hrows : ∀ id row, l.Completed id row → RowSigned b row) {r : Nat} {c : Call} {phase : Phase}
    (hphase : PhaseSigned b phase) : SignedInv b { s.move r c phase with ledger := l } := by
  refine ⟨hrows, fun q d hd => ?_⟩
  rcases move_calls hd with hold | ⟨-, rfl⟩
  · exact h.calls q d hold
  · exact hphase

/-- A replay reads both from the row. -/
theorem RowSigned.replay {row : EnrollmentRow} {rec : EnrollmentRecord} (h : RowSigned b row)
    (hrecord : Ledger.record row = .ok rec) (hcert : rec.certDER ≠ []) :
    b.IssuesTo rec.assetId rec.certDER := by
  obtain ⟨pub, cert, hasset, ⟨old, hmaterials⟩, hsigns⟩ := h
  have hder : rec.certDER = cert.der :=
    (Ledger.record_certDER hmaterials hrecord).resolve_left hcert
  rw [hder, (Ledger.record_columns hrecord).2, hasset, Option.getD_some]
  exact hsigns.issues

theorem SignedInv.store (h : SignedInv b s) {r : Nat} {o : Outcome} {c : Call} {p : Ledger × Phase}
    (hcall : s.calls r = some c) (hp : b.storeCall s.ledger c o = some p) :
    SignedInv b { s.move r c p.2 with ledger := p.1 } := by
  have hcompleting := storeCall_not_completing hp
  cases storeCall_effect hp with
  | @quiet l' phase hsame hquiet =>
      exact h.move (fun id row hrow => h.rows id row ((hsame.completed id row).mp hrow))
        (phaseSigned_quiet hquiet hcompleting)
  | replay hid hrow hrecord hcert =>
      exact h.move h.rows ⟨(h.rows _ _ hrow).replay hrecord hcert, rfl⟩
  | @complete id pub cert l' phase hid hphase hledger hreply =>
      obtain ⟨row, old, -, hasset, hmaterials, -, hrows, -, -⟩ :=
        Ledger.completeEnrollment_ok hledger
      have hsigns : b.Signs (b.assetID pub) cert := by
        have hsigned := h.calls r c hcall
        rw [hphase] at hsigned
        exact hsigned
      refine h.move ?_ ?_
      · intro other row' hrow'
        obtain ⟨hlookup, hstatus⟩ := hrow'
        rw [hrows] at hlookup
        by_cases hother : other = id
        · subst hother
          rw [Function.update_self] at hlookup
          cases hlookup
          exact ⟨pub, cert, hasset, ⟨old, hmaterials⟩, hsigns⟩
        · rw [Function.update_of_ne hother] at hlookup
          exact h.rows other row' ⟨hlookup, hstatus⟩
      · rcases hreply with hquiet | heq
        · exact phaseSigned_quiet hquiet hcompleting
        · rw [heq]
          exact ⟨hsigns.issues, rfl⟩

theorem SignedInv.step (h : SignedInv b s) (he : Registration.step b s e = some t) :
    SignedInv b t := by
  cases step_does he with
  | arrive hfree => exact h.move h.rows (phaseSigned_bare (firstPhase_bare b _))
  | store hcall hp => exact h.store hcall hp
  | sign hcall =>
      refine h.move h.rows ?_
      exact BootstrapServer.signs_sign _ _ _ _ _
  | signFails hcall =>
      refine h.move h.rows ?_
      trivial
  | abandon hcall =>
      refine h.move h.rows ?_
      trivial
  | rotate hl =>
      refine ⟨fun id row hrow => ?_, h.calls⟩
      exact h.rows id row (((Ledger.Same.rotateCertificateTx hl).completed id row).mp hrow)

end Registration

/-! ## Rotations -/

def RotationPhase.Signed (b : BootstrapServer) (assetId : String) : RotationPhase → Prop
  | .starting cert => b.Signs assetId cert
  | .updating cert _ => b.Signs assetId cert
  | .updated cert _ => b.Signs assetId cert
  | .replied (.ok resp) => b.IssuesTo assetId resp.certificateDer
  | _ => True

theorem signed_rotationPhase (b : BootstrapServer) (req : RotateCertRequest) (peer : Peer) :
    (b.rotationPhase req peer).Signed b req.assetId := by
  unfold BootstrapServer.rotationPhase
  split
  next => trivial
  next =>
    split
    next =>
      split
      next => trivial
      next => split <;> trivial
    next => trivial

theorem signed_rotation {s : Fleet} {req : RotateCertRequest} {phase : RotationPhase}
    {e : RotationEvent} {p : Ledger × RotationPhase} (hphase : phase.Signed b req.assetId)
    (h : s.rotation b req phase e = some p) :
    p.2.Signed b req.assetId ∧ p.1.enrollments = s.ledger.enrollments := by
  unfold Fleet.rotation at h
  split at h
  next pub serialBytes now later =>
    cases h
    exact ⟨BootstrapServer.signs_sign _ _ _ _ _, rfl⟩
  next signErr => cases h; exact ⟨trivial, rfl⟩
  next cert => cases h; exact ⟨hphase, rfl⟩
  next cert seen =>
    split at h
    next => cases h
    next =>
      split at h
      next => cases h; exact ⟨trivial, rfl⟩
      next => cases h; exact ⟨hphase, rfl⟩
  next cert held o =>
    split at h
    next => cases h; exact ⟨trivial, rfl⟩
    next =>
      cases o with
      | done => cases h; exact ⟨hphase.issues, rfl⟩
      | failed err => cases h; exact ⟨trivial, rfl⟩
      | unreported err => cases h; exact ⟨trivial, rfl⟩
  next startingErr => cases h; exact ⟨trivial, rfl⟩
  next updatingErr => cases h; exact ⟨trivial, rfl⟩
  next updatedErr => cases h; exact ⟨trivial, rfl⟩
  next reply => cases h
  next abandoned => cases h; exact ⟨trivial, rfl⟩
  next impossible => cases h

namespace Fleet

variable {s t : Fleet} {e : Event}

structure SignedInv (b : BootstrapServer) (s : Fleet) : Prop where
  registration : s.registration.SignedInv b
  rotations : ∀ r x, s.rotations.lookup r = some x → x.phase.Signed b x.request.assetId

theorem SignedInv.start : SignedInv b start where
  registration := .start
  rotations := by intro r x hx; cases hx

theorem SignedInv.advance (h : SignedInv b s) {r : Nat} {req : RotateCertRequest}
    {p : Ledger × RotationPhase} (hphase : p.2.Signed b req.assetId)
    (hrows : p.1.enrollments = s.ledger.enrollments) : SignedInv b (s.advance r req p) where
  registration := by
    refine ⟨fun id row hrow => h.registration.rows id row ?_, h.registration.calls⟩
    exact ⟨hrows ▸ hrow.1, hrow.2⟩
  rotations q x hx := by
    by_cases hq : q = r
    · subst hq
      rw [Fleet.advance, AList.lookup_insert] at hx
      cases hx
      exact hphase
    · rw [Fleet.advance, AList.lookup_insert_ne hq] at hx
      exact h.rotations q x hx

theorem SignedInv.step (h : SignedInv b s) (he : Fleet.step b s e = some t) : SignedInv b t := by
  unfold Fleet.step at he
  split at he
  next => cases he
  next e _ =>
    obtain ⟨u, hu, rfl⟩ := Option.map_eq_some_iff.mp he
    exact ⟨h.registration.step hu, h.rotations⟩
  next r req peer =>
    split at he
    next => cases he
    next =>
      cases he
      exact h.advance (signed_rotationPhase b req peer) rfl
  next r e =>
    split at he
    next => cases he
    next x hx =>
      obtain ⟨p, hp, rfl⟩ := Option.map_eq_some_iff.mp he
      obtain ⟨hphase, hrows⟩ := signed_rotation (h.rotations r x hx) hp
      exact h.advance hphase hrows

theorem request_step (he : Fleet.step b s e = some t) {r : Nat} {x : Rotation}
    (hx : s.rotations.lookup r = some x) :
    ∃ y, t.rotations.lookup r = some y ∧ y.request = x.request := by
  have hadvance : ∀ {q : Nat} {req : RotateCertRequest} (p : Ledger × RotationPhase),
      (q = r → req = x.request) →
      ∃ y, (s.advance q req p).rotations.lookup r = some y ∧ y.request = x.request := by
    intro q req p hreq
    by_cases hq : q = r
    · refine ⟨⟨req, p.2⟩, ?_, hreq hq⟩
      rw [Fleet.advance, hq, AList.lookup_insert]
    · refine ⟨x, ?_, rfl⟩
      rw [Fleet.advance, AList.lookup_insert_ne (Ne.symm hq), hx]
  cases step_moves he with
  | register hother hu => exact ⟨x, hx, rfl⟩
  | @arrive q req peer =>
      refine hadvance _ fun hq => ?_
      subst hq
      simp only [Fleet.step, hx] at he
      cases he
  | @rotation q e y p hy heffect =>
      refine hadvance p fun hq => ?_
      rw [hq, hx] at hy
      cases hy
      rfl

end Fleet

end TomAgent.Connector
