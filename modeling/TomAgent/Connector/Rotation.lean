import TomAgent.Connector.Records
import TomAgent.Core.Table
import TomAgent.Platform.Certificates

/-!
# Registrations and rotations

`RotateCertificate` checks the caller's certificate and the CSR, signs, and runs
`RotateCertificateTx`.  Its UPDATE sees the rows that are committed when it starts.  It waits for
rows that another rotation has updated, looks at their status again once it has them, and keeps
them locked until its transaction ends.  `CompleteEnrollment` adds an active row at any time.

If it does so only for assets without an active certificate, every rotation does what it would do
in one step, and an active certificate is the last one of its asset.
-/

namespace TomAgent.Connector

open Platform Execution

/-! ## Requests -/

structure RotateCertRequest where
  assetId : String
  csrDer : Bytes

structure RotateCertResponse where
  certificateDer : Bytes
  notAfter : Int64
deriving Repr, DecidableEq

inductive Peer where
  | unknown
  | plaintext
  /-- The common names of the client's certificates. -/
  | tls (commonNames : List String)

inductive RotationPhase where
  | signing (pub : Bytes)
  /-- Before the transaction. -/
  | starting (cert : SignedCertificate)
  /-- The UPDATE has found these rows and is about to lock them. -/
  | updating (cert : SignedCertificate) (seen : List Nat)
  /-- These rows are updated and locked. -/
  | updated (cert : SignedCertificate) (held : List Nat)
  | replied (reply : Except Status RotateCertResponse)
  | abandoned

/-- The certificate that is to be committed, and the rows that are locked. -/
def RotationPhase.open? : RotationPhase → Option (SignedCertificate × List Nat)
  | .updated cert held => some (cert, held)
  | _ => none

def RotationPhase.held (phase : RotationPhase) : List Nat := (phase.open?.map Prod.snd).getD []

theorem RotationPhase.held_of_not_open {phase : RotationPhase} (h : phase.open? = none) :
    phase.held = [] := by
  rw [held, h]
  rfl

structure Rotation where
  request : RotateCertRequest
  phase : RotationPhase

def BootstrapServer.rotationPhase (b : BootstrapServer) (req : RotateCertRequest) (peer : Peer) :
    RotationPhase :=
  if req.assetId = "" then .replied (.error ⟨.invalidArgument, "asset_id required"⟩)
  else
    match peer with
    | .tls (cn :: _) =>
        if cn ≠ req.assetId then
          .replied (.error ⟨.unauthenticated, "client certificate CN mismatch"⟩)
        else
          match parseCSR b.x509 req.csrDer with
          | .error err => .replied (.error err)
          | .ok pub => .signing pub
    | _ => .replied (.error ⟨.unauthenticated, "client certificate required"⟩)

/-! ## The machine -/

structure Fleet where
  registration : Registration
  rotations : AList (fun _ : Nat => Rotation)

inductive RotationEvent where
  | sign (serialBytes : Bytes) (now later : Int)
  | signFails (err : String)
  /-- The UPDATE starts. -/
  | update
  /-- No row is in another rotation's hands any more. -/
  | proceed
  /-- The new row is inserted and the transaction committed. -/
  | commit (o : Outcome)
  /-- A call of the transaction fails, and it is rolled back. -/
  | fail (err : String)
  | abandon

namespace Fleet

def start : Fleet := ⟨.start, ∅⟩

def ledger (s : Fleet) : Ledger := s.registration.ledger

/-- A rotation has updated the row and not ended. -/
def Locked (s : Fleet) (id : Nat) : Prop := Table.Holds s.rotations fun x => id ∈ x.phase.held

instance (s : Fleet) (id : Nat) : Decidable (s.Locked id) :=
  inferInstanceAs (Decidable (Table.Holds s.rotations _))

def ledgerError (err : String) : RotationPhase :=
  .replied (.error ⟨.internal, "rotate ledger: " ++ err⟩)

def rotation (b : BootstrapServer) (s : Fleet) (req : RotateCertRequest) :
    RotationPhase → RotationEvent → Option (Ledger × RotationPhase)
  | .signing pub, .sign serialBytes now later =>
      some (s.ledger, .starting (b.sign pub req.assetId serialBytes now later))
  | .signing _, .signFails err =>
      some (s.ledger, .replied (.error ⟨.internal, "sign certificate: " ++ err⟩))
  | .starting cert, .update => some (s.ledger, .updating cert (s.ledger.activeIds req.assetId))
  | .updating cert seen, .proceed =>
      if ∃ id ∈ seen, s.Locked id then none
      else
        match seen.filter (· ∈ s.ledger.activeIds req.assetId) with
        | [] => some (s.ledger, .replied (.error ⟨.failedPrecondition, "asset not enrolled"⟩))
        | held => some (s.ledger, .updated cert held)
  | .updated cert held, .commit o =>
      if s.ledger.Taken cert then
        some (s.ledger, ledgerError "duplicate key value violates unique constraint")
      else
        let l := s.ledger.supersede held req.assetId cert
        match o with
        | .done => some (l, .replied (.ok ⟨cert.der, unix cert.notAfter⟩))
        | .failed err => some (s.ledger, ledgerError err)
        | .unreported err => some (l, ledgerError err)
  | .starting _, .fail err => some (s.ledger, ledgerError err)
  | .updating _ _, .fail err => some (s.ledger, ledgerError err)
  | .updated _ _, .fail err => some (s.ledger, ledgerError err)
  | .replied _, .abandon => none
  | _, .abandon => some (s.ledger, .abandoned)
  | _, _ => none

inductive Event where
  | register (e : Registration.Event)
  | rotateCertificate (r : Nat) (req : RotateCertRequest) (peer : Peer)
  | rotation (r : Nat) (e : RotationEvent)

def advance (s : Fleet) (r : Nat) (req : RotateCertRequest) (p : Ledger × RotationPhase) : Fleet :=
  ⟨{ s.registration with ledger := p.1 }, s.rotations.insert r ⟨req, p.2⟩⟩

def step (b : BootstrapServer) (s : Fleet) : Event → Option Fleet
  -- rotations are in the hands of `rotation` here
  | .register (.rotate _ _) => none
  | .register e => (s.registration.step b e).map fun t => { s with registration := t }
  | .rotateCertificate r req peer =>
      match s.rotations.lookup r with
      | some _ => none
      | none => some (s.advance r req (s.ledger, b.rotationPhase req peer))
  | .rotation r e =>
      match s.rotations.lookup r with
      | none => none
      | some x => (s.rotation b x.request x.phase e).map (s.advance r x.request)

end Fleet

/-! ## What the events do -/

/-- What an event of a rotation does: nothing to the rows, or it locks them, or it commits. -/
inductive RotationEffect (s : Fleet) (req : RotateCertRequest) (phase : RotationPhase) :
    RotationEvent → Ledger × RotationPhase → Prop
  | quiet {e : RotationEvent} {next : RotationPhase} (hnext : next.open? = none) :
      RotationEffect s req phase e (s.ledger, next)
  | locks {cert : SignedCertificate} {held : List Nat} (hne : held ≠ [])
      (hactive : ∀ id ∈ held, id ∈ s.ledger.activeIds req.assetId)
      (hfree : ∀ id ∈ held, ¬ s.Locked id) :
      RotationEffect s req phase .proceed (s.ledger, .updated cert held)
  | commits {cert : SignedCertificate} {held : List Nat} {o : Outcome} {next : RotationPhase}
      (hphase : phase = .updated cert held) (hnew : ¬ s.ledger.Taken cert)
      (ho : ∀ err, o ≠ .failed err) (hnext : next.open? = none) :
      RotationEffect s req phase (.commit o) (s.ledger.supersede held req.assetId cert, next)

theorem open_rotationPhase (b : BootstrapServer) (req : RotateCertRequest) (peer : Peer) :
    (b.rotationPhase req peer).open? = none := by
  unfold BootstrapServer.rotationPhase
  split
  next => rfl
  next =>
    split
    next =>
      split
      next => rfl
      next => split <;> rfl
    next => rfl

theorem rotation_effect {b : BootstrapServer} {s : Fleet} {req : RotateCertRequest}
    {phase : RotationPhase} {e : RotationEvent} {p : Ledger × RotationPhase}
    (h : s.rotation b req phase e = some p) : RotationEffect s req phase e p := by
  unfold Fleet.rotation at h
  split at h
  next pub serialBytes now later => cases h; exact .quiet rfl
  next signErr => cases h; exact .quiet rfl
  next cert => cases h; exact .quiet rfl
  next cert seen =>
    -- the UPDATE has the rows it waited for
    split at h
    next => cases h
    next hfree =>
      split at h
      next => cases h; exact .quiet rfl
      next hne =>
        cases h
        refine .locks hne (fun id hid => ?_) fun id hid hlocked => ?_
        · simpa using (List.mem_filter.mp hid).2
        · exact hfree ⟨id, (List.mem_filter.mp hid).1, hlocked⟩
  next cert held o =>
    -- INSERT and COMMIT
    split at h
    next => cases h; exact .quiet rfl
    next hnew =>
      cases o with
      | done => cases h; exact .commits rfl hnew nofun rfl
      | failed err => cases h; exact .quiet rfl
      | unreported err => cases h; exact .commits rfl hnew nofun rfl
  next startingErr => cases h; exact .quiet rfl
  next updatingErr => cases h; exact .quiet rfl
  next updatedErr => cases h; exact .quiet rfl
  next reply => cases h
  next abandoned => cases h; exact .quiet rfl
  next impossible => cases h

inductive Fleet.Moves (b : BootstrapServer) (s : Fleet) : Fleet.Event → Fleet → Prop
  | register {e : Registration.Event} {u : Registration}
      (hother : ∀ assetId cert, e ≠ .rotate assetId cert)
      (hu : s.registration.step b e = some u) :
      Moves b s (.register e) { s with registration := u }
  | arrive {r : Nat} {req : RotateCertRequest} {peer : Peer} :
      Moves b s (.rotateCertificate r req peer) (s.advance r req (s.ledger, b.rotationPhase req peer))
  | rotation {r : Nat} {e : RotationEvent} {x : Rotation} {p : Ledger × RotationPhase}
      (hx : s.rotations.lookup r = some x) (heffect : RotationEffect s x.request x.phase e p) :
      Moves b s (.rotation r e) (s.advance r x.request p)

theorem Fleet.step_moves {b : BootstrapServer} {s t : Fleet} {e : Fleet.Event}
    (hstep : Fleet.step b s e = some t) : Fleet.Moves b s e t := by
  unfold Fleet.step at hstep
  split at hstep
  next => cases hstep
  next e hother =>
    obtain ⟨u, hu, rfl⟩ := Option.map_eq_some_iff.mp hstep
    exact .register (fun assetId cert heq => hother assetId cert heq) hu
  next r req peer =>
    split at hstep
    next => cases hstep
    next =>
      cases hstep
      exact .arrive
  next r e =>
    split at hstep
    next => cases hstep
    next x hx =>
      obtain ⟨p, hp, rfl⟩ := Option.map_eq_some_iff.mp hstep
      exact .rotation hx (rotation_effect hp)

namespace Registration

/-- The certificate that a store call commits, with its asset: a completion moves the sequence of
`cert_id` on. -/
def registers (b : BootstrapServer) (s : Registration) : Event → Option (String × SignedCertificate)
  | .store r o =>
      match s.calls r with
      | some ⟨req, .completing pub cert⟩ =>
          match b.storeCall s.ledger ⟨req, .completing pub cert⟩ o with
          | some p =>
              if p.1.nextCertId = s.ledger.nextCertId then none else some (b.assetID pub, cert)
          | none => none
      | _ => none
  | _ => none

inductive Certifies (b : BootstrapServer) (s : Registration) (e : Event) (l : Ledger) : Prop
  | nothing (hrows : l.certificates = s.ledger.certificates)
      (hnext : l.nextCertId = s.ledger.nextCertId)
  | registers {assetId : String} {cert : SignedCertificate} {id : Uuid}
      (he : s.registers b e = some (assetId, cert))
      (hrows : l.certificates = s.ledger.certificates ++ [s.ledger.registered id assetId cert])
      (hnext : l.nextCertId = s.ledger.nextCertId + 1)
  | rotates {assetId : String} {cert : SignedCertificate} (he : e = .rotate assetId cert)
      (hl : s.ledger.rotateCertificateTx assetId cert = .ok l)

theorem step_certifies {b : BootstrapServer} {s t : Registration} {e : Event}
    (hstep : step b s e = some t) : Certifies b s e t.ledger := by
  cases step_does hstep with
  | arrive hfree => exact .nothing rfl rfl
  | @store r o c p hcall hp =>
      obtain ⟨req, phase⟩ := c
      cases storeCall_writes hp with
      | nothing hphase => exact .nothing rfl rfl
      | inserts hid hbegin hfree hrow hopen hphase => exact .nothing rfl rfl
      | deletes hopen hphase => exact .nothing rfl rfl
      | @completes id pub cert row next hid hcomplete hrow hopen hphase =>
          dsimp only at hcomplete
          subst hcomplete
          have hregisters : s.registers b (.store r o) = some (b.assetID pub, cert) := by
            simp [registers, hcall, hp]
          exact .registers hregisters (rfl : _ = _ ++ [s.ledger.registered id _ cert]) rfl
  | sign hcall => exact .nothing rfl rfl
  | signFails hcall => exact .nothing rfl rfl
  | abandon hcall => exact .nothing rfl rfl
  | rotate hl => exact .rotates rfl hl

end Registration

/-! ## Conditions -/

namespace Fleet

/-- A registration commits a certificate only for an asset without an active one. -/
def ForVacant (b : BootstrapServer) (s : Fleet) : Event → Prop
  | .register e => ∀ x ∈ s.registration.registers b e, Vacant s.ledger.certificates x.1
  | _ => True

def LastIssued (l : Ledger) (assetId : String) (cert : SignedCertificate) : Prop :=
  ∀ c ∈ l.certificates, c.assetId = assetId → c.notBefore ≤ cert.notBefore

def commits (b : BootstrapServer) (s : Fleet) : Event → Option (String × SignedCertificate)
  | .register e => s.registration.registers b e
  | .rotation _ (.commit (.failed _)) => none
  | .rotation r (.commit _) => (s.rotations.lookup r).bind fun x =>
      x.phase.open?.map fun p => (x.request.assetId, p.1)
  | _ => none

/-- Certificates of an asset are committed in the order in which they were issued. -/
def InOrder (b : BootstrapServer) (s : Fleet) (e : Event) : Prop :=
  ∀ x ∈ s.commits b e, LastIssued s.ledger x.1 x.2

instance decidableForVacant (b : BootstrapServer) (s : Fleet) (e : Event) :
    Decidable (ForVacant b s e) :=
  match e with
  | .register e => inferInstanceAs (Decidable (∀ x ∈ s.registration.registers b e, Vacant _ x.1))
  | .rotateCertificate _ _ _ => isTrue trivial
  | .rotation _ _ => isTrue trivial

instance decidableInOrder (b : BootstrapServer) (s : Fleet) (e : Event) :
    Decidable (InOrder b s e) :=
  inferInstanceAs (Decidable (∀ x ∈ s.commits b e, ∀ c ∈ s.ledger.certificates, _))

end Fleet

/-! ## Certificates -/

namespace Registration

variable {b : BootstrapServer} {s : Registration} {e : Event} {l : Ledger}

theorem Certifies.oneActive (h : Certifies b s e l)
    (hone : OneActive s.ledger.certificates s.ledger.nextCertId)
    (hvacant : ∀ x ∈ s.registers b e, Vacant s.ledger.certificates x.1) :
    OneActive l.certificates l.nextCertId := by
  cases h with
  | nothing hrows hnext =>
      rw [hrows, hnext]
      exact hone
  | registers he hrows hnext =>
      rw [hrows, hnext]
      exact hone.append rfl (hvacant _ he)
  | rotates he hl =>
      obtain ⟨hrows, hnext⟩ := Ledger.rotateCertificateTx_ok hl
      rw [hrows, hnext]
      exact (hone.retire _).append rfl (vacant_retire fun c _ hasset hactive => ⟨hasset, hactive⟩)

theorem Certifies.lastIssued (h : Certifies b s e l)
    (hlatest : Latest (·.notBefore) s.ledger.certificates)
    (hvacant : ∀ x ∈ s.registers b e, Vacant s.ledger.certificates x.1)
    (hregister : ∀ x ∈ s.registers b e, Fleet.LastIssued s.ledger x.1 x.2)
    (hrotate : ∀ assetId cert, e = .rotate assetId cert → Fleet.LastIssued s.ledger assetId cert) :
    Latest (·.notBefore) l.certificates := by
  cases h with
  | nothing hrows hnext => exact hrows ▸ hlatest
  | registers he hrows hnext =>
      rw [hrows]
      exact hlatest.append (hvacant _ he) (hregister _ he)
  | rotates he hl =>
      obtain ⟨hrows, -⟩ := Ledger.rotateCertificateTx_ok hl
      rw [hrows]
      apply (hlatest.retire _ fun c => notBefore_retire).append
      · exact vacant_retire fun c _ hasset hactive => ⟨hasset, hactive⟩
      · intro c hc hasset
        obtain ⟨d, hd, rfl⟩ := List.mem_map.mp hc
        rw [assetId_retire] at hasset
        rw [notBefore_retire]
        exact hrotate _ _ he d hd hasset

end Registration

/-! ## Locks -/

namespace Fleet

variable {b : BootstrapServer} {s t : Fleet} {e : Event}

/-- Locked rows are active ones of the asset that is rotated, a rotation that has come so far has
found some, and no two rotations hold the same. -/
structure Consistent (s : Fleet) : Prop where
  one : OneActive s.ledger.certificates s.ledger.nextCertId
  held : ∀ r x, s.rotations.lookup r = some x →
    ∀ id ∈ x.phase.held, id ∈ s.ledger.activeIds x.request.assetId
  found : ∀ r x p, s.rotations.lookup r = some x → x.phase.open? = some p → p.2 ≠ []
  exclusive : ∀ r r' x x' id, s.rotations.lookup r = some x → s.rotations.lookup r' = some x' →
    id ∈ x.phase.held → id ∈ x'.phase.held → r = r'

theorem Consistent.start : Consistent start := by
  constructor
  case one => exact .nil 1
  all_goals
    intro r
    intros
    contradiction

/-- A step of a registration, which leaves the active rows active. -/
theorem Consistent.register (h : s.Consistent) {u : Registration}
    (hone : OneActive u.ledger.certificates u.ledger.nextCertId)
    (hactive : ∀ assetId, s.ledger.activeIds assetId ⊆ u.ledger.activeIds assetId) :
    Consistent { s with registration := u } :=
  ⟨hone, fun r x hx id hid => hactive _ (h.held r x hx id hid), h.found, h.exclusive⟩

theorem Consistent.advance (h : s.Consistent) {r : Nat} {req : RotateCertRequest} {l : Ledger}
    {next : RotationPhase} (hone : OneActive l.certificates l.nextCertId)
    (hothers : ∀ q x, q ≠ r → s.rotations.lookup q = some x →
      ∀ id ∈ x.phase.held, id ∈ l.activeIds x.request.assetId)
    (hheld : ∀ id ∈ next.held, id ∈ l.activeIds req.assetId)
    (hfound : ∀ p, next.open? = some p → p.2 ≠ [])
    (hfree : ∀ id ∈ next.held, ¬ s.Locked id) : (s.advance r req (l, next)).Consistent := by
  constructor
  case one => exact hone
  case held =>
    intro q x hx id hid
    cases Table.lookup_insert_cases hx with
    | inl hself =>
        obtain ⟨-, rfl⟩ := hself
        exact hheld id hid
    | inr hother => exact hothers q x hother.1 hother.2 id hid
  case found =>
    intro q x p hx hp
    cases Table.lookup_insert_cases hx with
    | inl hself =>
        obtain ⟨-, rfl⟩ := hself
        exact hfound p hp
    | inr hother => exact h.found q x p hother.2 hp
  case exclusive =>
    intro q q' x x' id hx hx' hid hid'
    cases Table.lookup_insert_cases hx with
    | inl hself =>
        obtain ⟨rfl, rfl⟩ := hself
        cases Table.lookup_insert_cases hx' with
        | inl hself' => exact hself'.1.symm
        | inr hother' => exact absurd ⟨q', x', hother'.2, hid'⟩ (hfree id hid)
    | inr hother =>
        cases Table.lookup_insert_cases hx' with
        | inl hself' =>
            obtain ⟨rfl, rfl⟩ := hself'
            exact absurd ⟨q, x, hother.2, hid⟩ (hfree id hid')
        | inr hother' => exact h.exclusive q q' x x' id hother.2 hother'.2 hid hid'

theorem Consistent.advance_closed (h : s.Consistent) {r : Nat} {req : RotateCertRequest}
    {l : Ledger} {next : RotationPhase} (hnext : next.open? = none)
    (hone : OneActive l.certificates l.nextCertId)
    (hothers : ∀ q x, q ≠ r → s.rotations.lookup q = some x →
      ∀ id ∈ x.phase.held, id ∈ l.activeIds x.request.assetId) :
    (s.advance r req (l, next)).Consistent := by
  have hheld := RotationPhase.held_of_not_open hnext
  apply h.advance hone hothers
  · rw [hheld]
    nofun
  · rw [hnext]
    nofun
  · rw [hheld]
    nofun

/-- What a rotation commits is what the transaction does in one step. -/
theorem Consistent.rotateCertificateTx (h : s.Consistent) {r : Nat} {x : Rotation}
    {cert : SignedCertificate} {held : List Nat} (hx : s.rotations.lookup r = some x)
    (hphase : x.phase = .updated cert held) (hnew : ¬ s.ledger.Taken cert) :
    s.ledger.rotateCertificateTx x.request.assetId cert =
      .ok (s.ledger.supersede held x.request.assetId cert) := by
  apply Ledger.rotateCertificateTx_eq_supersede h.one hnew
  · exact h.found r x (cert, held) hx (by rw [hphase]; rfl)
  · intro id hid
    exact h.held r x hx id (by rw [hphase]; exact hid)

/-- In the tables, a step is one of a registration, with rotations in one step, or none. -/
inductive Mirrored (b : BootstrapServer) (s : Fleet) (e : Event) (t : Fleet) : Prop
  | nothing (hsame : t.registration = s.registration)
  | registers {e' : Registration.Event} (he : e = .register e')
      (hother : ∀ assetId cert, e' ≠ .rotate assetId cert)
      (hstep : s.registration.step b e' = some t.registration)
  | rotates {r : Nat} {o : Outcome} {x : Rotation} {cert : SignedCertificate} {held : List Nat}
      (he : e = .rotation r (.commit o)) (ho : ∀ err, o ≠ .failed err)
      (hx : s.rotations.lookup r = some x) (hopen : x.phase.open? = some (cert, held))
      (hstep : s.registration.step b (.rotate x.request.assetId cert) = some t.registration)

theorem Consistent.mirrored (h : s.Consistent) (hmoves : Moves b s e t) : Mirrored b s e t := by
  cases hmoves with
  | register hother hu => exact .registers rfl hother hu
  | arrive => exact .nothing rfl
  | rotation hx heffect =>
      cases heffect with
      | quiet hnext => exact .nothing rfl
      | locks hne hactive hfree => exact .nothing rfl
      | commits hphase hnew ho hnext =>
          refine .rotates rfl ho hx (by rw [hphase]; rfl) ?_
          have htx := h.rotateCertificateTx hx hphase hnew
          unfold ledger at htx
          simp only [Registration.step, htx]
          rfl

theorem registers_rotate (u : Registration) (assetId : String) (cert : SignedCertificate) :
    u.registers b (.rotate assetId cert) = none := rfl

theorem Mirrored.oneActive (h : Mirrored b s e t)
    (hone : OneActive s.ledger.certificates s.ledger.nextCertId) (hvacant : ForVacant b s e) :
    OneActive t.ledger.certificates t.ledger.nextCertId := by
  cases h with
  | nothing hsame =>
      unfold ledger
      rw [hsame]
      exact hone
  | registers he hother hstep =>
      subst he
      exact (Registration.step_certifies hstep).oneActive hone hvacant
  | rotates he ho hx hopen hstep =>
      apply (Registration.step_certifies hstep).oneActive hone
      rw [registers_rotate]
      nofun

theorem Mirrored.lastIssued (h : Mirrored b s e t)
    (hlatest : Latest (·.notBefore) s.ledger.certificates) (hvacant : ForVacant b s e)
    (horder : InOrder b s e) : Latest (·.notBefore) t.ledger.certificates := by
  cases h with
  | nothing hsame =>
      unfold ledger
      rw [hsame]
      exact hlatest
  | registers he hother hstep =>
      subst he
      exact (Registration.step_certifies hstep).lastIssued hlatest hvacant horder
        fun assetId cert heq => absurd heq (hother assetId cert)
  | @rotates r o x cert held he ho hx hopen hstep =>
      subst he
      apply (Registration.step_certifies hstep).lastIssued hlatest
      · rw [registers_rotate]
        nofun
      · rw [registers_rotate]
        nofun
      · intro assetId cert' heq
        cases heq
        cases o with
        | failed err => exact absurd rfl (ho err)
        | done => exact horder (x.request.assetId, cert) (by simp [commits, hx, hopen])
        | unreported err => exact horder (x.request.assetId, cert) (by simp [commits, hx, hopen])

theorem Consistent.step (h : s.Consistent) (hvacant : ForVacant b s e) (hmoves : Moves b s e t) :
    t.Consistent := by
  have hone := (h.mirrored hmoves).oneActive h.one hvacant
  cases hmoves with
  | @register e u hother hu =>
      refine h.register hone fun assetId => ?_
      cases Registration.step_certifies hu with
      | nothing hrows hnext =>
          unfold Ledger.activeIds
          rw [hrows]
          exact fun _ hid => hid
      | registers he hrows hnext => exact Ledger.activeIds_append hrows assetId
      | rotates he hl => exact absurd he (hother _ _)
  | @arrive r req peer =>
      exact h.advance_closed (open_rotationPhase b req peer) h.one fun q x _ => h.held q x
  | @rotation r e x p hx heffect =>
      cases heffect with
      | quiet hnext => exact h.advance_closed hnext h.one fun q x _ => h.held q x
      | locks hne hactive hfree =>
          refine h.advance h.one (fun q x _ => h.held q x) hactive (fun p hp => ?_) hfree
          cases hp
          exact hne
      | @commits cert held o next hphase hnew ho hnext =>
          refine h.advance_closed hnext hone fun q y hq hy id hid => ?_
          apply Ledger.mem_activeIds_supersede (h.held q y hy id hid)
          -- nobody else holds these rows
          intro hmine
          exact hq (h.exclusive q r y x id hy hx hid (by rw [hphase]; exact hmine))

/-! ## Runs -/

/-- The rotations of a run may be taken to happen in one step each. -/
theorem registration_of_run
    (hrun : Reaches (Fires (Fleet.step b) (ForVacant b)) Fleet.start s) :
    s.Consistent ∧ Reaches (Registration.Steps b) Registration.start s.registration := by
  induction hrun with
  | refl => exact ⟨.start, .refl⟩
  | tail _ hlast ih =>
      obtain ⟨hconsistent, hbefore⟩ := ih
      obtain ⟨e, hvacant, hstep⟩ := hlast
      have hmoves := step_moves hstep
      refine ⟨hconsistent.step hvacant hmoves, ?_⟩
      cases hconsistent.mirrored hmoves with
      | nothing hsame =>
          rw [hsame]
          exact hbefore
      | registers he hother hstep' => exact hbefore.tail ⟨_, trivial, hstep'⟩
      | rotates he ho hx hopen hstep' => exact hbefore.tail ⟨_, trivial, hstep'⟩

theorem lastIssued_of_run
    (hrun : Reaches (Fires (Fleet.step b) fun s e => ForVacant b s e ∧ InOrder b s e) Fleet.start s) :
    s.Consistent ∧ Latest (·.notBefore) s.ledger.certificates := by
  refine invariant (fun s : Fleet => s.Consistent ∧ Latest (·.notBefore) s.ledger.certificates)
    ?_ ⟨.start, nofun⟩ hrun
  intro s t hs hstep
  obtain ⟨hconsistent, hlatest⟩ := hs
  obtain ⟨e, ⟨hvacant, horder⟩, hstep⟩ := hstep
  have hmoves := step_moves hstep
  exact ⟨hconsistent.step hvacant hmoves,
    (hconsistent.mirrored hmoves).lastIssued hlatest hvacant horder⟩

end Fleet

/-- In every interleaving in which a registration commits only for an asset without an active
certificate, an asset has at most one, and it is the last that was inserted.  If certificates
are also committed in the order in which they are issued, it is the last that was issued. -/
theorem active_certificate_last (b : BootstrapServer) (s : Fleet) :
    (Reaches (Fires (Fleet.step b) (Fleet.ForVacant b)) Fleet.start s → ∀ assetId,
      activeRows s.ledger.certificates assetId = [] ∨
        ∃ c, activeRows s.ledger.certificates assetId = [c] ∧
          ∀ c' ∈ s.ledger.certificates, c'.assetId = assetId → c'.certId ≤ c.certId) ∧
      (Reaches (Fires (Fleet.step b) fun s e => Fleet.ForVacant b s e ∧ Fleet.InOrder b s e)
          Fleet.start s →
        ∀ c ∈ s.ledger.certificates, c.status = .active →
          ∀ c' ∈ s.ledger.certificates, c'.assetId = c.assetId → c'.notBefore ≤ c.notBefore) := by
  constructor
  · intro hrun assetId
    exact (Fleet.registration_of_run hrun).1.one.activeRows_cases assetId
  · intro hrun
    exact (Fleet.lastIssued_of_run hrun).2

/-- A certificate is its serial number and the key it certifies. -/
def serialX509 : X509 :=
  { byteX509 with
    createCertificate := fun template =>
      UInt8.ofNat template.serialNumber :: template.publicKey
    certificateKey := fun der => some der.tail
    certificateKey_createCertificate := fun _ => rfl }

def serialServer : BootstrapServer :=
  newBootstrapServer id serialX509 [9] "token" "gateway:1" 1000000000

def summary (s : Fleet) : List (Nat × String × CertificateStatus) :=
  s.ledger.certificates.map fun c => (c.certId, c.assetId, c.status)

def registering (r : Nat) (req : RegisterRequest) (serial : UInt8) : List Fleet.Event :=
  [.register (.arrive r req), .register (.store r .done), .register (.store r .done),
    .register (.sign r [serial] 0 0), .register (.store r .done)]

/-- An agent registers and rotates its certificate. -/
theorem active_certificate_last_rotated :
    ∃ s, Reaches (Fires (Fleet.step serialServer) fun s e =>
        Fleet.ForVacant serialServer s e ∧ Fleet.InOrder serialServer s e) Fleet.start s ∧
      summary s = [(1, "asset-01", .superseded), (2, "asset-01", .active)] ∧
      ∀ c ∈ s.ledger.certificates, c.status = .active →
        ∀ c' ∈ s.ledger.certificates, c'.assetId = c.assetId → c'.notBefore ≤ c.notBefore := by
  have hrotated : ∃ s, Reaches (Fires (Fleet.step serialServer) fun s e =>
        Fleet.ForVacant serialServer s e ∧ Fleet.InOrder serialServer s e) Fleet.start s ∧
      summary s = [(1, "asset-01", .superseded), (2, "asset-01", .active)] := by
    apply reaches_of_any (Fleet.step serialServer)
      (registering 0 (byteRequest 1) 1 ++
        [.rotateCertificate 0 ⟨"asset-01", [2]⟩ (.tls ["asset-01"]),
          .rotation 0 (.sign [2] 1000 1000), .rotation 0 .update, .rotation 0 .proceed,
          .rotation 0 (.commit .done)])
    · exact permitted_of_decide (by decide +kernel)
    · decide +kernel
  obtain ⟨s, hrun, hrows⟩ := hrotated
  exact ⟨s, hrun, hrows, (active_certificate_last serialServer s).2 hrun⟩

/-- The same key is registered again under a new enrollment id. -/
theorem registered_twice_both_active :
    ∃ s, Reaches (Fires (Fleet.step serialServer) fun _ _ => True) Fleet.start s ∧
      (summary s = [(1, "asset-01", .active), (2, "asset-01", .active)] ∧
        (activeRows s.ledger.certificates "asset-01").length = 2) := by
  apply reaches_of_any (Fleet.step serialServer)
    (registering 0 (byteRequest 1) 1 ++
      registering 1 { byteRequest 1 with
        enrollmentRequestId := "b1ffcd99-9c0b-4ef8-bb6d-6bb9bd380a22" } 2)
  · exact permitted_of_forall (fun _ _ _ => trivial) _
  · decide +kernel

end TomAgent.Connector
