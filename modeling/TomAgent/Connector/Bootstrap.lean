import TomAgent.Authenv.NonceCache
import TomAgent.Core.Execution
import TomAgent.Platform.Enrollment

/-!
# Registration

`Register` checks the token, looks the enrollment up, and either replays a completed
one or issues a certificate.  Any number of requests run at once.  Between two store
calls of a request any other request may move, a store call may fail with or without
its effect, and a request may be abandoned at any point.
-/

namespace TomAgent.Connector

open Authenv (hex)
open JsonText (utf8)
open Platform Execution

/-! ## Certificates -/

structure CertificateRequest where
  /-- The error of `CheckSignature`. -/
  signatureError : Option String
  /-- None for a key that is not an Ed25519 key. -/
  publicKey : Option Bytes

structure CertificateTemplate where
  serialNumber : Nat
  commonName : String
  notBefore : Int
  notAfter : Int
  publicKey : Bytes

/-- The encodings of `crypto/x509` as the registration uses them. -/
structure X509 where
  PrivateKey : Type
  publicKey : PrivateKey → Bytes
  createCertificateRequest : String → PrivateKey → Bytes
  parseCertificateRequest : Bytes → Except String CertificateRequest
  /-- The DER that the authority signs for a template. -/
  createCertificate : CertificateTemplate → Bytes
  /-- The public key that a certificate certifies. -/
  certificateKey : Bytes → Option Bytes
  createCertificateRequest_ne_nil : ∀ name key, createCertificateRequest name key ≠ []
  parse_createCertificateRequest : ∀ name key,
    parseCertificateRequest (createCertificateRequest name key) = .ok ⟨none, some (publicKey key)⟩
  certificateKey_createCertificate : ∀ template,
    certificateKey (createCertificate template) = some template.publicKey

structure BootstrapServer where
  sha256 : Bytes → Bytes
  x509 : X509
  caDER : Bytes
  tokenHash : Bytes
  certTTL : Int
  gatewayAddr : String

def newBootstrapServer (sha256 : Bytes → Bytes) (x509 : X509) (caDER : Bytes)
    (bootstrapToken gatewayAddr : String) (certTTL : Int) : BootstrapServer :=
  ⟨sha256, x509, caDER, sha256 (utf8 bootstrapToken.toList), certTTL, gatewayAddr⟩

inductive Code where
  | invalidArgument
  | permissionDenied
  | internal
  | unavailable
  | unauthenticated
  | failedPrecondition
deriving Repr, DecidableEq

structure Status where
  code : Code
  message : String
deriving Repr, DecidableEq

structure RegisterRequest where
  enrollmentRequestId : String
  bootstrapToken : String
  materials : MaterialMap
  csrDer : Bytes

structure RegisterResponse where
  assetId : String
  gatewayAddr : String
  certificateDer : Bytes
  caDer : Bytes
  notAfter : Int64
deriving Repr, DecidableEq

def parseCSR (x : X509) (der : Bytes) : Except Status Bytes :=
  if der = [] then .error ⟨.invalidArgument, "csr_der required (proto v1.1)"⟩
  else
    match x.parseCertificateRequest der with
    | .error err => .error ⟨.invalidArgument, "parse csr: " ++ err⟩
    | .ok csr =>
        match csr.signatureError with
        | some err => .error ⟨.invalidArgument, "csr signature invalid: " ++ err⟩
        | none =>
            match csr.publicKey with
            | none => .error ⟨.invalidArgument, "only Ed25519 CSR keys accepted"⟩
            | some pub => .ok pub

def hexText (bytes : Bytes) : String := String.ofList (hex bytes)

namespace BootstrapServer

/-- The asset id is bound to the hash of the public key. -/
def assetID (b : BootstrapServer) (pub : Bytes) : String := "asset-" ++ hexText ((b.sha256 pub).take 8)

def sign (b : BootstrapServer) (pub : Bytes) (assetID : String) (serialBytes : Bytes)
    (now later : Int) : SignedCertificate :=
  let serialNum := BigEndian.decode serialBytes
  let notBefore := now - 300000000000
  let notAfter := later + b.certTTL
  let der := b.x509.createCertificate ⟨serialNum, assetID, notBefore, notAfter, pub⟩
  ⟨der, String.ofList (Nat.toDigits 16 serialNum), hexText (b.sha256 der), notBefore, notAfter⟩

end BootstrapServer

/-! ## Requests -/

/-- Where a request stands: before a store call, while it signs, or done. -/
inductive Phase where
  | finding
  | resetting
  | beginning (pub : Bytes)
  | signing (pub : Bytes)
  | completing (pub : Bytes) (cert : SignedCertificate)
  /-- The compensation before the error is returned. -/
  | undoing (err : Status)
  | replied (reply : Except Status RegisterResponse)
  | abandoned

structure Call where
  request : RegisterRequest
  phase : Phase

/-- How a store call ends.  The effect of a call may take place although the caller
sees an error. -/
inductive Outcome where
  | done
  | failed (err : String)
  | unreported (err : String)

/-- The tables and the phase after a call that turns `l` into `l'`. -/
def Outcome.settle (o : Outcome) (l l' : Ledger) (ok : Phase) (fail : String → Phase) : Ledger × Phase :=
  match o with
  | .done => (l', ok)
  | .failed err => (l, fail err)
  | .unreported err => (l', fail err)

namespace BootstrapServer

variable (b : BootstrapServer)

def refuse (code : Code) (message : String) : Phase := .replied (.error ⟨code, message⟩)

/-- The checks before the first store call. -/
def firstPhase (req : RegisterRequest) : Phase :=
  if req.enrollmentRequestId = "" ∨ req.bootstrapToken = "" then
    refuse .invalidArgument "enrollment_request_id and bootstrap_token required"
  else if b.sha256 (utf8 req.bootstrapToken.toList) ≠ b.tokenHash then
    refuse .permissionDenied "invalid bootstrap token"
  else .finding

def checkCSR (req : RegisterRequest) : Phase :=
  match parseCSR b.x509 req.csrDer with
  | .error err => .replied (.error err)
  | .ok pub => .beginning pub

/-- What a request does with the record it found. -/
def found (req : RegisterRequest) : Except String (Option EnrollmentRecord) → Phase
  | .error err => refuse .internal ("find enrollment: " ++ err)
  | .ok none => b.checkCSR req
  | .ok (some rec) =>
      if rec.status = .completed ∧ 0 < rec.certDER.length then
        .replied (.ok ⟨rec.assetId, b.gatewayAddr, rec.certDER, b.caDER, rec.notAfter⟩)
      else .resetting

def storeCall (l : Ledger) (c : Call) (o : Outcome) : Option (Ledger × Phase) :=
  match parseUuid c.request.enrollmentRequestId with
  | none =>
      match c.phase with
      | .finding => some (l, b.found c.request (.error "invalid input syntax for type uuid"))
      | _ => none
  | some id =>
      match c.phase with
      | .finding =>
          match o with
          | .done => some (l, b.found c.request (l.findEnrollment id))
          | .failed err => some (l, b.found c.request (.error err))
          | .unreported err => some (l, b.found c.request (.error err))
      | .resetting =>
          some (o.settle l (l.failEnrollment id) (b.checkCSR c.request)
            fun err => refuse .internal ("reset stale enrollment: " ++ err))
      | .beginning pub =>
          let inserted := l.beginEnrollment id (hexText (b.sha256 (utf8 c.request.bootstrapToken.toList)))
            (hexText (b.sha256 pub)) c.request.materials
          some (o.settle l inserted.1
            (if inserted.2 then .signing pub else refuse .unavailable "enrollment in progress, retry")
            fun err => refuse .internal ("begin enrollment: " ++ err))
      | .completing pub cert =>
          let undo err := Phase.undoing ⟨.internal, "complete enrollment: " ++ err⟩
          match l.completeEnrollment c.request.enrollmentRequestId id (b.assetID pub) cert with
          | .error err => some (l, undo err)
          | .ok l' =>
              some (o.settle l l'
                (.replied (.ok ⟨b.assetID pub, b.gatewayAddr, cert.der, b.caDER, unix cert.notAfter⟩)) undo)
      | .undoing err =>
          -- the outcome of the compensation is ignored
          some (o.settle l (l.failEnrollment id) (.replied (.error err)) fun _ => .replied (.error err))
      | _ => none

/-- The store calls there are: the phase that makes each of them, and what it leaves. -/
inductive Calling (l : Ledger) (c : Call) (o : Outcome) : Ledger × Phase → Prop
  | unfound {err : String} (hphase : c.phase = .finding) :
      Calling l c o (l, refuse .internal ("find enrollment: " ++ err))
  | find {id : Uuid} (hid : parseUuid c.request.enrollmentRequestId = some id)
      (hphase : c.phase = .finding) :
      Calling l c o (l, b.found c.request (l.findEnrollment id))
  | reset {id : Uuid} {refusal : String → Status} :
      Calling l c o (o.settle l (l.failEnrollment id) (b.checkCSR c.request)
        fun err => .replied (.error (refusal err)))
  | begin {id : Uuid} {pub : Bytes} {tokenHash : String} {status : Status}
      {refusal : String → Status} {inserted : Ledger × Bool}
      (hid : parseUuid c.request.enrollmentRequestId = some id)
      (hphase : c.phase = .beginning pub)
      (hinserted : inserted =
        l.beginEnrollment id tokenHash (hexText (b.sha256 pub)) c.request.materials) :
      Calling l c o
        (o.settle l inserted.1 (if inserted.2 then .signing pub else .replied (.error status))
          fun err => .replied (.error (refusal err)))
  | incomplete {status : Status} (hphase : ∃ pub cert, c.phase = .completing pub cert) :
      Calling l c o (l, .undoing status)
  | complete {id : Uuid} {pub : Bytes} {cert : SignedCertificate} {l' : Ledger} {undo : String → Status}
      (hid : parseUuid c.request.enrollmentRequestId = some id)
      (hphase : c.phase = .completing pub cert)
      (hledger : l.completeEnrollment c.request.enrollmentRequestId id (b.assetID pub) cert = .ok l') :
      Calling l c o (o.settle l l'
        (.replied (.ok ⟨b.assetID pub, b.gatewayAddr, cert.der, b.caDER, unix cert.notAfter⟩))
        fun err => .undoing (undo err))
  | undo {id : Uuid} {status : Status} (hphase : c.phase = .undoing status) :
      Calling l c o (o.settle l (l.failEnrollment id) (.replied (.error status))
        fun _ => .replied (.error status))

theorem storeCall_calling {b : BootstrapServer} {l : Ledger} {c : Call} {o : Outcome}
    {p : Ledger × Phase} (h : b.storeCall l c o = some p) : Calling b l c o p := by
  unfold storeCall at h
  cases hid : parseUuid c.request.enrollmentRequestId with
  | none =>
      rw [hid] at h
      dsimp only at h
      split at h
      next hphase =>
        cases h
        exact .unfound hphase
      next => cases h
  | some id =>
      rw [hid] at h
      dsimp only at h
      cases hphase : c.phase with
      | finding =>
          rw [hphase] at h
          cases o with
          | done =>
              cases h
              exact .find hid hphase
          | failed err =>
              cases h
              exact .unfound hphase
          | unreported err =>
              cases h
              exact .unfound hphase
      | resetting =>
          rw [hphase] at h
          cases h
          exact .reset
      | beginning pub =>
          rw [hphase] at h
          cases h
          exact .begin hid hphase rfl
      | completing pub cert =>
          rw [hphase] at h
          dsimp only at h
          cases hledger : l.completeEnrollment c.request.enrollmentRequestId id (b.assetID pub) cert with
          | error err =>
              rw [hledger] at h
              cases h
              exact .incomplete ⟨pub, cert, hphase⟩
          | ok l' =>
              rw [hledger] at h
              cases h
              exact .complete hid hphase hledger
      | undoing err =>
          rw [hphase] at h
          cases h
          exact .undo hphase
      | signing pub =>
          rw [hphase] at h
          cases h
      | replied reply =>
          rw [hphase] at h
          cases h
      | abandoned =>
          rw [hphase] at h
          cases h

end BootstrapServer

/-! ## The machine -/

structure Registration where
  ledger : Ledger
  calls : Nat → Option Call

namespace Registration

def start : Registration := ⟨.empty, fun _ => none⟩

inductive Event where
  | arrive (r : Nat) (req : RegisterRequest)
  | store (r : Nat) (o : Outcome)
  | sign (r : Nat) (serialBytes : Bytes) (now later : Int)
  | signFails (r : Nat) (err : String)
  /-- The client goes away or the connector crashes. -/
  | abandon (r : Nat)
  /-- An agent rotates its certificate. -/
  | rotate (assetId : String) (cert : SignedCertificate)

def move (s : Registration) (r : Nat) (c : Call) (phase : Phase) : Registration :=
  { s with calls := Function.update s.calls r (some { c with phase := phase }) }

def step (b : BootstrapServer) (s : Registration) : Event → Option Registration
  | .arrive r req =>
      match s.calls r with
      | some _ => none
      | none => some { s with calls := Function.update s.calls r (some ⟨req, b.firstPhase req⟩) }
  | .store r o =>
      match s.calls r with
      | none => none
      | some c => (b.storeCall s.ledger c o).map fun p => { s.move r c p.2 with ledger := p.1 }
  | .sign r serialBytes now later =>
      match s.calls r with
      | some ⟨req, .signing pub⟩ =>
          some (s.move r ⟨req, .signing pub⟩
            (.completing pub (b.sign pub (b.assetID pub) serialBytes now later)))
      | _ => none
  | .signFails r err =>
      match s.calls r with
      | some ⟨req, .signing pub⟩ =>
          some (s.move r ⟨req, .signing pub⟩ (.undoing ⟨.internal, "sign certificate: " ++ err⟩))
      | _ => none
  | .abandon r =>
      match s.calls r with
      | none => none
      | some ⟨_, .replied _⟩ => none
      | some c => some (s.move r c .abandoned)
  | .rotate assetId cert =>
      match s.ledger.rotateCertificateTx assetId cert with
      | .error _ => none
      | .ok l => some { s with ledger := l }

inductive Does (b : BootstrapServer) (s : Registration) : Event → Registration → Prop
  | arrive {r : Nat} {req : RegisterRequest} (hfree : s.calls r = none) :
      Does b s (.arrive r req) (s.move r ⟨req, .finding⟩ (b.firstPhase req))
  | store {r : Nat} {o : Outcome} {c : Call} {p : Ledger × Phase} (hcall : s.calls r = some c)
      (hp : b.storeCall s.ledger c o = some p) :
      Does b s (.store r o) { s.move r c p.2 with ledger := p.1 }
  | sign {r : Nat} {serialBytes : Bytes} {now later : Int} {req : RegisterRequest} {pub : Bytes}
      (hcall : s.calls r = some ⟨req, .signing pub⟩) :
      Does b s (.sign r serialBytes now later) (s.move r ⟨req, .signing pub⟩
        (.completing pub (b.sign pub (b.assetID pub) serialBytes now later)))
  | signFails {r : Nat} {err : String} {req : RegisterRequest} {pub : Bytes}
      (hcall : s.calls r = some ⟨req, .signing pub⟩) :
      Does b s (.signFails r err) (s.move r ⟨req, .signing pub⟩
        (.undoing ⟨.internal, "sign certificate: " ++ err⟩))
  | abandon {r : Nat} {c : Call} (hcall : s.calls r = some c) :
      Does b s (.abandon r) (s.move r c .abandoned)
  | rotate {assetId : String} {cert : SignedCertificate} {l : Ledger}
      (hl : s.ledger.rotateCertificateTx assetId cert = .ok l) :
      Does b s (.rotate assetId cert) { s with ledger := l }

theorem step_does {b : BootstrapServer} {s t : Registration} {event : Event}
    (h : step b s event = some t) : Does b s event t := by
  cases event with
  | arrive r req =>
      simp only [step] at h
      split at h
      next => cases h
      next hfree =>
        cases h
        exact .arrive hfree
  | store r o =>
      simp only [step] at h
      split at h
      next => cases h
      next c hcall =>
        obtain ⟨p, hp, rfl⟩ := Option.map_eq_some_iff.mp h
        exact .store hcall hp
  | sign r serialBytes now later =>
      simp only [step] at h
      split at h
      next req pub hcall =>
        cases h
        exact .sign hcall
      next => cases h
  | signFails r err =>
      simp only [step] at h
      split at h
      next req pub hcall =>
        cases h
        exact .signFails hcall
      next => cases h
  | abandon r =>
      simp only [step] at h
      split at h
      next => cases h
      next => cases h
      next c hcall =>
        cases h
        exact .abandon hcall
  | rotate assetId cert =>
      simp only [step] at h
      split at h
      next => cases h
      next l hl =>
        cases h
        exact .rotate hl

end Registration

end TomAgent.Connector
