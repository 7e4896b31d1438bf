import TomAgent.Connector.Bootstrap

/-!
# One identity per enrollment

A request may delete the row of another one and complete a row that another one
inserted.  What every interleaving keeps is that an enrollment is completed at most
once, and that a completed one is never touched again.
-/

namespace TomAgent.Connector

open Platform Execution

/-! ## What a store call does -/

/-- No successful reply, and a certificate only for the key of the request. -/
def Phase.Quiet (b : BootstrapServer) : Phase → Prop
  | .replied (.ok _) => False
  | .completing pub cert => b.x509.certificateKey cert.der = some pub
  | _ => True

/-- The effect of one store call of a request: nothing that matters to an identity, a
completed enrollment replayed, or an enrollment completed. -/
inductive Effect (b : BootstrapServer) (l : Ledger) (c : Call) : Ledger × Phase → Prop
  | quiet {l' : Ledger} {phase : Phase} (hsame : l.Same l') (hphase : phase.Quiet b) :
      Effect b l c (l', phase)
  | replay {id : Uuid} {row : EnrollmentRow} {rec : EnrollmentRecord}
      (hid : parseUuid c.request.enrollmentRequestId = some id) (hrow : l.Completed id row)
      (hrecord : Ledger.record row = .ok rec) (hcert : rec.certDER ≠ []) :
      Effect b l c (l, .replied (.ok ⟨rec.assetId, b.gatewayAddr, rec.certDER, b.caDER, rec.notAfter⟩))
  | complete {id : Uuid} {pub : Bytes} {cert : SignedCertificate} {l' : Ledger} {phase : Phase}
      (hid : parseUuid c.request.enrollmentRequestId = some id)
      (hphase : c.phase = .completing pub cert)
      (hledger : l.completeEnrollment c.request.enrollmentRequestId id (b.assetID pub) cert = .ok l')
      (hreply : phase.Quiet b ∨ phase = .replied (.ok ⟨b.assetID pub, b.gatewayAddr, cert.der, b.caDER,
        unix cert.notAfter⟩)) :
      Effect b l c (l', phase)

theorem checkCSR_quiet (b : BootstrapServer) (req : RegisterRequest) : (b.checkCSR req).Quiet b := by
  unfold BootstrapServer.checkCSR
  cases parseCSR b.x509 req.csrDer with
  | error err => trivial
  | ok pub => trivial

theorem firstPhase_quiet (b : BootstrapServer) (req : RegisterRequest) : (b.firstPhase req).Quiet b := by
  unfold BootstrapServer.firstPhase
  split
  next => trivial
  next =>
    split
    next => trivial
    next => trivial

theorem Effect.settle {b : BootstrapServer} {l l' : Ledger} {c : Call} (o : Outcome)
    (hsame : l.Same l') {ok : Phase} {fail : String → Phase} (hok : ok.Quiet b)
    (hfail : ∀ err, (fail err).Quiet b) : Effect b l c (o.settle l l' ok fail) := by
  cases o with
  | done => exact .quiet hsame hok
  | failed err => exact .quiet (.refl l) (hfail err)
  | unreported err => exact .quiet hsame (hfail err)

theorem Effect.find {b : BootstrapServer} {l : Ledger} {c : Call} {id : Uuid}
    (hid : parseUuid c.request.enrollmentRequestId = some id) :
    Effect b l c (l, b.found c.request (l.findEnrollment id)) := by
  unfold Ledger.findEnrollment
  cases hrow : l.enrollments id with
  | none => exact .quiet (.refl l) (checkCSR_quiet b c.request)
  | some row =>
      dsimp only
      cases hrecord : Ledger.record row with
      | error err => exact .quiet (.refl l) trivial
      | ok rec =>
          simp only [Except.map, BootstrapServer.found]
          split
          next hdone =>
            have hstatus := (Ledger.record_columns hrecord).1
            exact .replay hid ⟨hrow, hstatus.symm.trans hdone.1⟩ hrecord
              (List.ne_nil_of_length_pos hdone.2)
          next => exact .quiet (.refl l) trivial

theorem storeCall_effect {b : BootstrapServer} {l : Ledger} {c : Call} {o : Outcome}
    {p : Ledger × Phase} (h : b.storeCall l c o = some p) : Effect b l c p := by
  cases BootstrapServer.storeCall_calling h with
  | unfound hphase => exact .quiet (.refl l) trivial
  | find hid hphase => exact .find hid
  | reset => exact .settle o (.failEnrollment l _) (checkCSR_quiet b c.request) fun _ => trivial
  | begin hid hphase hinserted =>
      subst hinserted
      refine .settle o (.beginEnrollment l _ _ _ _) ?_ fun _ => trivial
      split
      · trivial
      · trivial
  | incomplete hphase => exact .quiet (.refl l) trivial
  | complete hid hphase hledger =>
      cases o with
      | done => exact .complete hid hphase hledger (Or.inr rfl)
      | failed err => exact .quiet (.refl l) trivial
      | unreported err => exact .complete hid hphase hledger (Or.inl trivial)
  | undo hphase => exact .settle o (.failEnrollment l _) trivial fun _ => trivial

/-! ## Answers -/

def Registration.answer (s : Registration) (r : Nat) : Option RegisterResponse :=
  match s.calls r with
  | some ⟨_, .replied (.ok resp)⟩ => some resp
  | _ => none

theorem Registration.phase_of_answer {s : Registration} {r : Nat} {c : Call} {resp : RegisterResponse}
    (hcall : s.calls r = some c) (h : s.answer r = some resp) : c.phase = .replied (.ok resp) := by
  unfold answer at h
  rw [hcall] at h
  obtain ⟨req, phase⟩ := c
  split at h
  next heq =>
    cases heq
    cases h
    rfl
  next => cases h

/-! ## The invariant -/

def Registration.Answered (s : Registration) (id : Uuid) (resp : RegisterResponse) : Prop :=
  ∃ r req, s.calls r = some ⟨req, .replied (.ok resp)⟩ ∧
    parseUuid req.enrollmentRequestId = some id

/-- A completed row comes from a certificate for the key that its asset id is derived
from, and every answer for the enrollment carries the two. -/
structure Registration.Issued (b : BootstrapServer) (s : Registration) (id : Uuid)
    (row : EnrollmentRow) (pub : Bytes) (cert : SignedCertificate) : Prop where
  assetId : row.assetId = some (b.assetID pub)
  materials : ∃ old : Materials, row.materials = old.append (Ledger.completedMaterials cert)
  key : b.x509.certificateKey cert.der = some pub
  answers : ∀ resp, s.Answered id resp →
    resp.assetId = b.assetID pub ∧ resp.certificateDer = cert.der

structure Registration.IdentityInv (b : BootstrapServer) (s : Registration) : Prop where
  completed : ∀ id row, s.ledger.Completed id row → ∃ pub cert, s.Issued b id row pub cert
  answered : ∀ id resp, s.Answered id resp → ∃ row, s.ledger.Completed id row
  completing : ∀ r req pub cert, s.calls r = some ⟨req, .completing pub cert⟩ →
    b.x509.certificateKey cert.der = some pub
  issued : ∀ id, (s.ledger.issued id).length ≤ 1
  unissued : ∀ id, (∀ row, ¬ s.ledger.Completed id row) → s.ledger.issued id = []

namespace Registration

variable {b : BootstrapServer} {s t : Registration}

theorem IdentityInv.start : IdentityInv b start := by
  refine ⟨?_, ?_, ?_, fun _ => Nat.zero_le 1, fun _ _ => rfl⟩
  · rintro id row ⟨hrow, -⟩
    cases hrow
  · rintro id resp ⟨r, req, hcall, -⟩
    cases hcall
  · intro r req pub cert hcall
    cases hcall

theorem Answered.of_calls {id : Uuid} {resp : RegisterResponse} (h : t.Answered id resp)
    (hcalls : ∀ r c, t.calls r = some c → s.calls r = some c ∨ c.phase.Quiet b) :
    s.Answered id resp := by
  obtain ⟨r, req, hcall, hid⟩ := h
  rcases hcalls r _ hcall with hold | hquiet
  · exact ⟨r, req, hold, hid⟩
  · exact hquiet.elim

theorem IdentityInv.quiet (h : IdentityInv b s) (hsame : s.ledger.Same t.ledger)
    (hcalls : ∀ r c, t.calls r = some c → s.calls r = some c ∨ c.phase.Quiet b) :
    IdentityInv b t := by
  refine ⟨?_, ?_, ?_, ?_, ?_⟩
  · intro id row hrow
    obtain ⟨pub, cert, hissued⟩ := h.completed id row ((hsame.completed id row).mp hrow)
    refine ⟨pub, cert, { hissued with answers := ?_ }⟩
    intro resp hresp
    exact hissued.answers resp (hresp.of_calls hcalls)
  · intro id resp hresp
    obtain ⟨row, hrow⟩ := h.answered id resp (hresp.of_calls hcalls)
    exact ⟨row, (hsame.completed id row).mpr hrow⟩
  · intro r req pub cert hcall
    rcases hcalls r _ hcall with hold | hquiet
    · exact h.completing r req pub cert hold
    · exact hquiet
  · intro id
    rw [hsame.issued]
    exact h.issued id
  · intro id hnone
    rw [← List.length_eq_zero_iff, hsame.issued, List.length_eq_zero_iff]
    exact h.unissued id fun row hrow => hnone row ((hsame.completed id row).mpr hrow)

theorem move_calls {r : Nat} {c : Call} {phase : Phase} {q : Nat} {d : Call}
    (h : (s.move r c phase).calls q = some d) :
    s.calls q = some d ∨ (q = r ∧ d = { c with phase := phase }) := by
  unfold move at h
  dsimp only at h
  by_cases hq : q = r
  · subst hq
    rw [Function.update_self] at h
    exact Or.inr ⟨rfl, (Option.some.inj h).symm⟩
  · rw [Function.update_of_ne hq] at h
    exact Or.inl h

theorem IdentityInv.move (h : IdentityInv b s) {r : Nat} {c : Call} {phase : Phase}
    (hquiet : phase.Quiet b) {l : Ledger} (hsame : s.ledger.Same l) :
    IdentityInv b { s.move r c phase with ledger := l } := by
  refine h.quiet hsame ?_
  intro q d hd
  rcases move_calls hd with hold | ⟨-, rfl⟩
  · exact Or.inl hold
  · exact Or.inr hquiet

theorem answered_move {l : Ledger} {r : Nat} {c : Call} {phase : Phase} {id : Uuid}
    (hid : parseUuid c.request.enrollmentRequestId = some id) {other : Uuid}
    {resp : RegisterResponse} (h : Answered { s.move r c phase with ledger := l } other resp) :
    s.Answered other resp ∨ (other = id ∧ phase = .replied (.ok resp)) := by
  obtain ⟨q, req, hcall, hother⟩ := h
  rcases move_calls hcall with hold | ⟨-, heq⟩
  · exact Or.inl ⟨q, req, hold, hother⟩
  · cases heq
    rw [hid] at hother
    exact Or.inr ⟨(Option.some.inj hother).symm, rfl⟩

/-- A replay gives the answer that the row was completed with. -/
theorem IdentityInv.replay (h : IdentityInv b s) {r : Nat} {c : Call} {id : Uuid}
    {row : EnrollmentRow} {rec : EnrollmentRecord}
    (hid : parseUuid c.request.enrollmentRequestId = some id) (hrow : s.ledger.Completed id row)
    (hrecord : Ledger.record row = .ok rec) (hcert : rec.certDER ≠ []) :
    IdentityInv b { s.move r c (.replied (.ok ⟨rec.assetId, b.gatewayAddr, rec.certDER, b.caDER,
      rec.notAfter⟩)) with ledger := s.ledger } := by
  refine ⟨?_, ?_, ?_, h.issued, h.unissued⟩
  · intro other row' hrow'
    obtain ⟨pub, cert, hissued⟩ := h.completed other row' hrow'
    refine ⟨pub, cert, { hissued with answers := ?_ }⟩
    intro resp hresp
    rcases answered_move hid hresp with hold | ⟨rfl, heq⟩
    · exact hissued.answers resp hold
    · cases heq
      have hsame : row' = row := Option.some.inj (hrow'.1.symm.trans hrow.1)
      subst hsame
      obtain ⟨old, hmaterials⟩ := hissued.materials
      refine ⟨?_, (Ledger.record_certDER hmaterials hrecord).resolve_left hcert⟩
      dsimp only
      rw [(Ledger.record_columns hrecord).2, hissued.assetId, Option.getD_some]
  · intro other resp hresp
    rcases answered_move hid hresp with hold | ⟨rfl, -⟩
    · exact h.answered other resp hold
    · exact ⟨row, hrow⟩
  · intro q req pub cert hcall
    rcases move_calls hcall with hold | ⟨-, heq⟩
    · exact h.completing q req pub cert hold
    · cases heq

/-- A completion is the first for its enrollment, so nobody has an answer yet. -/
theorem IdentityInv.complete (h : IdentityInv b s) {r : Nat} {c : Call} {id : Uuid} {pub : Bytes}
    {cert : SignedCertificate} {l : Ledger} {phase : Phase} (hcall : s.calls r = some c)
    (hid : parseUuid c.request.enrollmentRequestId = some id)
    (hphase : c.phase = .completing pub cert)
    (hledger : s.ledger.completeEnrollment c.request.enrollmentRequestId id (b.assetID pub) cert = .ok l)
    (hreply : phase.Quiet b ∨ phase = .replied (.ok ⟨b.assetID pub, b.gatewayAddr, cert.der, b.caDER,
      unix cert.notAfter⟩)) :
    IdentityInv b { s.move r c phase with ledger := l } := by
  obtain ⟨row, old, hstatus, hasset, hmaterials, hnew, hrows, hissued, hothers⟩ :=
    Ledger.completeEnrollment_ok hledger
  have hkey : b.x509.certificateKey cert.der = some pub := by
    obtain ⟨req, p⟩ := c
    exact h.completing r req pub cert (hphase ▸ hcall)
  have hcompleted : l.Completed id row := ⟨by rw [hrows, Function.update_self], hstatus⟩
  have hold : ∀ other row', other ≠ id → (l.Completed other row' ↔ s.ledger.Completed other row') := by
    intro other row' hother
    unfold Ledger.Completed
    rw [hrows, Function.update_of_ne hother]
  refine ⟨?_, ?_, ?_, ?_, ?_⟩
  · intro other row' hrow'
    by_cases hother : other = id
    · subst hother
      have hsame : row' = row := Option.some.inj (hrow'.1.symm.trans hcompleted.1)
      subst hsame
      refine ⟨pub, cert, hasset, ⟨old, hmaterials⟩, hkey, ?_⟩
      intro resp hresp
      rcases answered_move hid hresp with hbefore | ⟨-, heq⟩
      · obtain ⟨row'', hrow''⟩ := h.answered other resp hbefore
        exact absurd hrow'' (hnew row'')
      · subst heq
        rcases hreply with hquiet | heq
        · exact hquiet.elim
        · cases heq
          exact ⟨rfl, rfl⟩
    · obtain ⟨pub', cert', hissued'⟩ := h.completed other row' ((hold other row' hother).mp hrow')
      refine ⟨pub', cert', { hissued' with answers := ?_ }⟩
      intro resp hresp
      rcases answered_move hid hresp with hbefore | ⟨heq, -⟩
      · exact hissued'.answers resp hbefore
      · exact absurd heq hother
  · intro other resp hresp
    by_cases hother : other = id
    · exact ⟨row, hother ▸ hcompleted⟩
    · rcases answered_move hid hresp with hbefore | ⟨heq, -⟩
      · obtain ⟨row', hrow'⟩ := h.answered other resp hbefore
        exact ⟨row', (hold other row' hother).mpr hrow'⟩
      · exact absurd heq hother
  · intro q req pub' cert' hq
    rcases move_calls hq with hbefore | ⟨-, heq⟩
    · exact h.completing q req pub' cert' hbefore
    · cases heq
      rcases hreply with hquiet | heq
      · exact hquiet
      · cases heq
  · intro other
    by_cases hother : other = id
    · subst hother
      dsimp only
      rw [hissued, h.unissued other hnew]
      exact Nat.le_refl 1
    · dsimp only
      rw [hothers other hother]
      exact h.issued other
  · intro other hnone
    by_cases hother : other = id
    · exact absurd (hother ▸ hcompleted) (hnone row)
    · dsimp only
      rw [hothers other hother]
      exact h.unissued other fun row' hrow' => hnone row' ((hold other row' hother).mpr hrow')

inductive Moves (b : BootstrapServer) (s : Registration) : Registration → Prop
  | ledger {l : Ledger} (hsame : s.ledger.Same l) : Moves b s { s with ledger := l }
  | call {r : Nat} {c : Call} {p : Ledger × Phase}
      (hcall : ∀ pub cert, c.phase = .completing pub cert → s.calls r = some c)
      (heffect : Effect b s.ledger c p) : Moves b s { s.move r c p.2 with ledger := p.1 }

theorem Moves.quiet {r : Nat} {c : Call} {phase : Phase} (hquiet : phase.Quiet b)
    (hcall : ∀ pub cert, c.phase = .completing pub cert → s.calls r = some c) :
    Moves b s (s.move r c phase) :=
  .call hcall (.quiet (.refl s.ledger) hquiet)

theorem step_moves {event : Event} (hstep : Registration.step b s event = some t) :
    Moves b s t := by
  cases step_does hstep with
  | arrive hfree => exact .quiet (firstPhase_quiet b _) nofun
  | store hcall hp => exact .call (fun _ _ _ => hcall) (storeCall_effect hp)
  | sign hcall => exact .quiet (b.x509.certificateKey_createCertificate _) nofun
  | signFails hcall =>
      refine .quiet ?_ nofun
      exact trivial
  | abandon hcall =>
      refine .quiet ?_ fun _ _ _ => hcall
      exact trivial
  | rotate hl => exact .ledger (.rotateCertificateTx hl)

theorem IdentityInv.step (h : IdentityInv b s) (hmoves : Moves b s t) : IdentityInv b t := by
  cases hmoves with
  | ledger hsame => exact h.quiet hsame fun _ _ hd => Or.inl hd
  | call hcall heffect =>
      cases heffect with
      | quiet hsame hquiet => exact h.move hquiet hsame
      | replay hid hrow hrecord hcert => exact h.replay hid hrow hrecord hcert
      | complete hid hphase hledger hreply =>
          exact h.complete (hcall _ _ hphase) hid hphase hledger hreply

/-- A completed enrollment is never deleted or changed. -/
theorem Moves.completed (hmoves : Moves b s t) {id : Uuid} {row : EnrollmentRow}
    (hrow : s.ledger.Completed id row) : t.ledger.Completed id row := by
  cases hmoves with
  | ledger hsame => exact (hsame.completed id row).mpr hrow
  | call _ heffect =>
      cases heffect with
      | quiet hsame _ => exact (hsame.completed id row).mpr hrow
      | replay _ _ _ _ => exact hrow
      | @complete done pub cert l phase _ _ hledger _ =>
          obtain ⟨row', old, -, -, -, hnew, hrows, -, -⟩ := Ledger.completeEnrollment_ok hledger
          have hother : id ≠ done := fun heq => hnew row (heq ▸ hrow)
          unfold Ledger.Completed
          dsimp only
          rw [hrows, Function.update_of_ne hother]
          exact hrow

abbrev Steps (b : BootstrapServer) : Registration → Registration → Prop :=
  Fires (step b) fun _ _ => True

end Registration

/-- In every interleaving of any number of requests, all successful answers for an enrollment
carry the same asset id and the same certificate, the asset id is derived from the key in the
certificate, at most one certificate is committed for the enrollment, and a completed enrollment
stays as it is. -/
theorem enrollment_one_identity (b : BootstrapServer) {s : Registration}
    (hrun : Reaches (Registration.Steps b) Registration.start s) (id : Uuid) :
    (∀ resp resp', s.Answered id resp → s.Answered id resp' →
        resp.assetId = resp'.assetId ∧ resp.certificateDer = resp'.certificateDer) ∧
      (∀ resp, s.Answered id resp → ∃ pub,
        b.x509.certificateKey resp.certificateDer = some pub ∧ resp.assetId = b.assetID pub) ∧
      (s.ledger.issued id).length ≤ 1 ∧
      ∀ row, s.ledger.Completed id row → ∀ t, Reaches (Registration.Steps b) s t →
        t.ledger.Completed id row := by
  have hinv : s.IdentityInv b := invariant (Registration.IdentityInv b)
    (fun _ _ h ⟨_, _, hstep⟩ => h.step (Registration.step_moves hstep)) .start hrun
  refine ⟨?_, ?_, hinv.issued id, ?_⟩
  · intro resp resp' hresp hresp'
    obtain ⟨row, hrow⟩ := hinv.answered id resp hresp
    obtain ⟨pub, cert, hissued⟩ := hinv.completed id row hrow
    obtain ⟨hasset, hcert⟩ := hissued.answers resp hresp
    obtain ⟨hasset', hcert'⟩ := hissued.answers resp' hresp'
    exact ⟨hasset.trans hasset'.symm, hcert.trans hcert'.symm⟩
  · intro resp hresp
    obtain ⟨row, hrow⟩ := hinv.answered id resp hresp
    obtain ⟨pub, cert, hissued⟩ := hinv.completed id row hrow
    obtain ⟨hasset, hcert⟩ := hissued.answers resp hresp
    exact ⟨pub, hcert ▸ hissued.key, hasset⟩
  · intro row hrow t hlater
    exact invariant (fun t : Registration => t.ledger.Completed id row)
      (fun _ _ h ⟨_, _, hstep⟩ => (Registration.step_moves hstep).completed h) hrow hlater

/-- Keys are single bytes, and a certificate is the key it certifies. -/
def byteX509 : X509 where
  PrivateKey := UInt8
  publicKey key := [key]
  createCertificateRequest _ key := [key]
  parseCertificateRequest der := .ok ⟨none, some der⟩
  createCertificate template := template.publicKey
  certificateKey der := some der
  createCertificateRequest_ne_nil _ _ := List.cons_ne_nil _ _
  parse_createCertificateRequest _ _ := rfl
  certificateKey_createCertificate _ := rfl

def byteServer : BootstrapServer := newBootstrapServer id byteX509 [9] "token" "gateway:1" 1000000000

def sampleEnrollment : String := "a0eebc99-9c0b-4ef8-bb6d-6bb9bd380a11"

def byteRequest (key : UInt8) : RegisterRequest :=
  ⟨sampleEnrollment, "token", AList.singleton "hostname" "node-1", [key]⟩

/-- The second request deletes the row of the first one and inserts its own, which the
first one then completes.  A third request gets the same answer as the first. -/
theorem enrollment_one_identity_crossed :
    ∃ s, Reaches (Registration.Steps byteServer) Registration.start s ∧
      s.answer 0 ≠ none ∧ s.answer 1 = none ∧ s.answer 2 ≠ none ∧
      ∀ id, (∀ resp resp', s.Answered id resp → s.Answered id resp' →
          resp.assetId = resp'.assetId ∧ resp.certificateDer = resp'.certificateDer) ∧
        (s.ledger.issued id).length ≤ 1 := by
  have hrun : ∃ s, Reaches (Registration.Steps byteServer) Registration.start s ∧
      (s.answer 0 ≠ none ∧ s.answer 1 = none ∧ s.answer 2 ≠ none) := by
    apply reaches_of_any (Registration.step byteServer)
      [.arrive 0 (byteRequest 1), .store 0 .done, .store 0 .done,
        .arrive 1 (byteRequest 2), .store 1 .done, .store 1 .done, .store 1 .done,
        .sign 0 [1] 0 0, .store 0 .done, .sign 1 [2] 0 0, .store 1 .done, .store 1 .done,
        .arrive 2 (byteRequest 3), .store 2 .done]
      (fun s => s.answer 0 ≠ none ∧ s.answer 1 = none ∧ s.answer 2 ≠ none)
    · exact permitted_of_forall (fun _ _ _ => trivial) _
    · decide +kernel
  obtain ⟨s, hreach, hfirst, hsecond, hthird⟩ := hrun
  refine ⟨s, hreach, hfirst, hsecond, hthird, fun id => ?_⟩
  have hone := enrollment_one_identity byteServer hreach id
  exact ⟨hone.1, hone.2.2.1⟩

end TomAgent.Connector
