import TomAgent.Connector.Identity

/-!
# The agent's registration loop

`EnsureIdentity` repeats `doRegisterGRPC` under one enrollment id until it succeeds.
Every attempt makes a new key pair, sends a request with a CSR for it, and writes the
key and the certificate of the answer to disk.  A request or an answer may be lost,
and a file may fail to be written.
-/

namespace TomAgent.Register

open Connector Platform Execution

structure Files (x : X509) where
  agentKey : Option x.PrivateKey
  agentCrt : Option Bytes
  caCrt : Option Bytes

inductive Attempt (x : X509) where
  /-- The loop waits before the next attempt. -/
  | backoff
  | waiting (r : Nat) (priv : x.PrivateKey)
  /-- `persistPKI` has written the first files of three. -/
  | persisting (priv : x.PrivateKey) (resp : RegisterResponse) (written : Nat)
  | succeeded (assetId : String) (notAfter : Int64)

structure Settings where
  bootstrapToken : String
  enrollID : String

structure Enrolling (b : BootstrapServer) where
  server : Registration
  attempt : Attempt b.x509
  files : Files b.x509

namespace Enrolling

variable {b : BootstrapServer}

inductive Event (b : BootstrapServer) where
  /-- A new attempt, whose request reaches the server. -/
  | register (r : Nat) (priv : b.x509.PrivateKey) (materials : MaterialMap)
  /-- The server works on this or on any other request. -/
  | server (event : Registration.Event)
  /-- The answer arrives. -/
  | answer
  | write
  /-- The attempt ends with an error: nothing arrives in time, the answer is an error
  or incomplete, or a file cannot be written. -/
  | fails

def request (conf : Settings) (priv : b.x509.PrivateKey) (materials : MaterialMap) : RegisterRequest :=
  ⟨conf.enrollID, conf.bootstrapToken, materials,
    b.x509.createCertificateRequest ("pending-" ++ (conf.enrollID.take 8).toString) priv⟩

/-- A loop that starts with whatever the server has seen and whatever is on disk. -/
def start (server : Registration) (files : Files b.x509) : Enrolling b := ⟨server, .backoff, files⟩

def step (conf : Settings) (s : Enrolling b) : Event b → Option (Enrolling b)
  | .register r priv materials =>
      match s.attempt with
      | .backoff =>
          (Registration.step b s.server (.arrive r (request conf priv materials))).map fun server =>
            { s with server := server, attempt := .waiting r priv }
      | _ => none
  | .server event =>
      (Registration.step b s.server event).map fun server => { s with server := server }
  | .answer =>
      match s.attempt with
      | .waiting r priv =>
          match s.server.answer r with
          | none => none
          | some resp =>
              if resp.assetId = "" ∨ resp.certificateDer.length = 0 ∨ resp.caDer.length = 0 then none
              else some { s with attempt := .persisting priv resp 0 }
      | _ => none
  | .write =>
      match s.attempt with
      | .persisting priv resp 0 =>
          some { s with
            attempt := .persisting priv resp 1
            files := { s.files with agentKey := some priv } }
      | .persisting priv resp 1 =>
          some { s with
            attempt := .persisting priv resp 2
            files := { s.files with agentCrt := some resp.certificateDer } }
      | .persisting _ resp 2 =>
          some { s with
            attempt := .succeeded resp.assetId resp.notAfter
            files := { s.files with caCrt := some resp.caDer } }
      | _ => none
  | .fails =>
      match s.attempt with
      | .waiting _ _ => some { s with attempt := .backoff }
      | .persisting _ _ _ => some { s with attempt := .backoff }
      | _ => none

end Enrolling

/-- The certificate on disk certifies the key on disk. -/
def Files.Match {x : X509} (f : Files x) : Prop :=
  ∃ priv der, f.agentKey = some priv ∧ f.agentCrt = some der ∧
    x.certificateKey der = some (x.publicKey priv)

/-! ## The request of the running attempt -/

section Request

variable {b : BootstrapServer}

def PhaseFor (b : BootstrapServer) (pub : Bytes) : Phase → Prop
  | .beginning p => p = pub
  | .signing p => p = pub
  | .completing p cert => p = pub ∧ b.x509.certificateKey cert.der = some pub
  | .replied (.ok resp) => b.x509.certificateKey resp.certificateDer = some pub
  | _ => True

structure RequestFor (conf : Settings) (priv : b.x509.PrivateKey) (c : Call) : Prop where
  enrollID : c.request.enrollmentRequestId = conf.enrollID
  csr : parseCSR b.x509 c.request.csrDer = .ok (b.x509.publicKey priv)
  phase : PhaseFor b (b.x509.publicKey priv) c.phase

theorem parseCSR_create (x : X509) (name : String) (priv : x.PrivateKey) :
    parseCSR x (x.createCertificateRequest name priv) = .ok (x.publicKey priv) := by
  unfold parseCSR
  rw [if_neg (x.createCertificateRequest_ne_nil name priv), x.parse_createCertificateRequest]

theorem firstPhase_for (b : BootstrapServer) (pub : Bytes) (req : RegisterRequest) :
    PhaseFor b pub (b.firstPhase req) := by
  unfold BootstrapServer.firstPhase
  split
  next => trivial
  next =>
    split
    next => trivial
    next => trivial

theorem checkCSR_for {pub : Bytes} {req : RegisterRequest}
    (h : parseCSR b.x509 req.csrDer = .ok pub) : PhaseFor b pub (b.checkCSR req) := by
  unfold BootstrapServer.checkCSR
  rw [h]
  rfl

theorem settle_for {pub : Bytes} (o : Outcome) {l l' : Ledger} {ok : Phase} {fail : String → Phase}
    (hok : PhaseFor b pub ok) (hfail : ∀ err, PhaseFor b pub (fail err)) :
    PhaseFor b pub (o.settle l l' ok fail).2 := by
  cases o with
  | done => exact hok
  | failed err => exact hfail err
  | unreported err => exact hfail err

/-- Only a replay answers with a certificate for another key. -/
theorem found_for {pub : Bytes} {req : RegisterRequest} (hcsr : parseCSR b.x509 req.csrDer = .ok pub)
    {l : Ledger} {id : Uuid} (hnew : ∀ row, ¬ l.Completed id row) :
    PhaseFor b pub (b.found req (l.findEnrollment id)) := by
  unfold Ledger.findEnrollment
  cases hrow : l.enrollments id with
  | none => exact checkCSR_for hcsr
  | some row =>
      dsimp only
      cases hrecord : Ledger.record row with
      | error err => trivial
      | ok rec =>
          simp only [Except.map, BootstrapServer.found]
          split
          next hdone =>
            have hstatus := (Ledger.record_columns hrecord).1
            exact absurd ⟨hrow, hstatus.symm.trans hdone.1⟩ (hnew row)
          next => trivial

theorem storeCall_for {pub : Bytes} {l : Ledger} {c : Call} {o : Outcome} {p : Ledger × Phase}
    (hcsr : parseCSR b.x509 c.request.csrDer = .ok pub) (hphase : PhaseFor b pub c.phase)
    (hnew : c.phase = .finding → ∀ id row, parseUuid c.request.enrollmentRequestId = some id →
      ¬ l.Completed id row)
    (h : b.storeCall l c o = some p) : PhaseFor b pub p.2 := by
  cases BootstrapServer.storeCall_calling h with
  | unfound => trivial
  | find hid hat => exact found_for hcsr fun row => hnew hat _ row hid
  | reset => exact settle_for o (checkCSR_for hcsr) fun _ => trivial
  | begin hid hat hinserted =>
      rw [hat] at hphase
      refine settle_for o ?_ fun _ => trivial
      split
      · exact hphase
      · trivial
  | incomplete => trivial
  | complete hid hat =>
      rw [hat] at hphase
      exact settle_for o hphase.2 fun _ => trivial
  | undo => exact settle_for o trivial fun _ => trivial

/-- A server step leaves the request of an attempt a request of that attempt, unless it
finds the enrollment completed. -/
theorem RequestFor.step {conf : Settings} {priv : b.x509.PrivateKey} {s t : Registration}
    {event : Registration.Event} {r : Nat} {c : Call} (h : RequestFor conf priv c)
    (hcall : s.calls r = some c)
    (hnew : ∀ o, event = .store r o → c.phase = .finding → ∀ id row,
      parseUuid c.request.enrollmentRequestId = some id → ¬ s.ledger.Completed id row)
    (hstep : Registration.step b s event = some t) :
    ∃ c', t.calls r = some c' ∧ RequestFor conf priv c' := by
  -- a call that moves to another phase; the other calls stay
  have hmove : ∀ (q : Nat) (d : Call) (phase : Phase) (l : Ledger), s.calls q = some d →
      (q = r → PhaseFor b (b.x509.publicKey priv) phase) →
      ∃ c', (Registration.mk l (s.move q d phase).calls).calls r = some c' ∧ RequestFor conf priv c' := by
    intro q d phase l hd hphase
    by_cases hq : q = r
    · subst hq
      rw [hcall] at hd
      cases hd
      exact ⟨_, Function.update_self .., ⟨h.enrollID, h.csr, hphase rfl⟩⟩
    · exact ⟨c, (Function.update_of_ne (Ne.symm hq) ..).trans hcall, h⟩
  cases Registration.step_does hstep with
  | @arrive q req hfree =>
      have hq : r ≠ q := by
        rintro rfl
        rw [hcall] at hfree
        cases hfree
      exact ⟨c, (Function.update_of_ne hq ..).trans hcall, h⟩
  | @store q o d p hd hp =>
      refine hmove q d p.2 p.1 hd ?_
      rintro rfl
      rw [hcall] at hd
      cases hd
      exact storeCall_for h.csr h.phase (hnew o rfl) hp
  | @sign q serialBytes now later req pub hd =>
      refine hmove q _ _ s.ledger hd ?_
      rintro rfl
      rw [hcall] at hd
      cases hd
      have hpub : pub = b.x509.publicKey priv := h.phase
      exact ⟨hpub, hpub ▸ b.x509.certificateKey_createCertificate _⟩
  | @signFails q err req pub hd => exact hmove q _ _ s.ledger hd fun _ => trivial
  | @abandon q d hd => exact hmove q _ _ s.ledger hd fun _ => trivial
  | rotate hl => exact ⟨c, hcall, h⟩

end Request

/-! ## Runs of the loop -/

namespace Enrolling

variable {b : BootstrapServer} {conf : Settings} {s t : Enrolling b}

/-- When the request of the running attempt looks the enrollment up, it has not been
completed. -/
def NotCompleted (conf : Settings) (s : Enrolling b) : Event b → Prop
  | .server (.store r _) => ∀ priv c, s.attempt = .waiting r priv → s.server.calls r = some c →
      c.phase = .finding → ∀ id row, parseUuid conf.enrollID = some id →
        ¬ s.server.ledger.Completed id row
  | _ => True

def AttemptOk (conf : Settings) (server : Registration) (files : Files b.x509) :
    Attempt b.x509 → Prop
  | .backoff => True
  | .waiting r priv => ∃ c, server.calls r = some c ∧ RequestFor conf priv c
  | .persisting priv resp written =>
      b.x509.certificateKey resp.certificateDer = some (b.x509.publicKey priv) ∧
        (1 ≤ written → files.agentKey = some priv) ∧
        (2 ≤ written → files.agentCrt = some resp.certificateDer)
  | .succeeded _ _ => files.Match

def MatchInv (conf : Settings) (s : Enrolling b) : Prop := AttemptOk conf s.server s.files s.attempt

theorem MatchInv.register (hattempt : s.attempt = .backoff) {r : Nat} {priv : b.x509.PrivateKey}
    {materials : MaterialMap} (hstep : step conf s (.register r priv materials) = some t) :
    MatchInv conf t := by
  simp only [step, hattempt] at hstep
  obtain ⟨server, hserver, rfl⟩ := Option.map_eq_some_iff.mp hstep
  cases Registration.step_does hserver with
  | arrive hfree =>
      exact ⟨_, Function.update_self .., ⟨rfl, parseCSR_create _ _ _, firstPhase_for _ _ _⟩⟩

theorem MatchInv.server (h : MatchInv conf s) {event : Registration.Event}
    (hnew : NotCompleted conf s (.server event))
    (hstep : step conf s (.server event) = some t) : MatchInv conf t := by
  obtain ⟨server, hserver, rfl⟩ := Option.map_eq_some_iff.mp hstep
  unfold MatchInv at h ⊢
  dsimp only
  cases hattempt : s.attempt with
  | backoff => trivial
  | persisting priv resp written =>
      rw [hattempt] at h
      exact h
  | succeeded assetId notAfter =>
      rw [hattempt] at h
      exact h
  | waiting r priv =>
      rw [hattempt] at h
      obtain ⟨c, hcall, hfor⟩ := h
      refine hfor.step hcall ?_ hserver
      rintro o rfl hfinding id row hid
      exact hnew priv c hattempt hcall hfinding id row (hfor.enrollID ▸ hid)

/-- The answer of the running attempt certifies its key. -/
theorem MatchInv.answer (h : MatchInv conf s) (hstep : step conf s .answer = some t) :
    MatchInv conf t := by
  simp only [step] at hstep
  split at hstep
  next r priv hattempt =>
    split at hstep
    next => cases hstep
    next resp hresp =>
      split at hstep
      next => cases hstep
      next =>
        cases hstep
        unfold MatchInv at h
        rw [hattempt] at h
        obtain ⟨c, hcall, hfor⟩ := h
        have hphase : c.phase = .replied (.ok resp) := Registration.phase_of_answer hcall hresp
        have hkey := hfor.phase
        rw [hphase] at hkey
        exact ⟨hkey, by omega, by omega⟩
  next => cases hstep

theorem MatchInv.write (h : MatchInv conf s) (hstep : step conf s .write = some t) :
    MatchInv conf t := by
  unfold MatchInv at h
  simp only [step] at hstep
  split at hstep
  next priv resp hattempt =>
    cases hstep
    rw [hattempt] at h
    exact ⟨h.1, fun _ => rfl, by omega⟩
  next priv resp hattempt =>
    cases hstep
    rw [hattempt] at h
    exact ⟨h.1, fun _ => h.2.1 (by omega), fun _ => rfl⟩
  next priv resp hattempt =>
    cases hstep
    rw [hattempt] at h
    exact ⟨priv, _, h.2.1 (by omega), h.2.2 (by omega), h.1⟩
  next => cases hstep

theorem MatchInv.step (h : MatchInv conf s)
    (hstep : Fires (Enrolling.step conf) (NotCompleted conf) s t) : MatchInv conf t := by
  obtain ⟨event, hnew, hstep⟩ := hstep
  cases event with
  | register r priv materials =>
      have hattempt : s.attempt = .backoff := by
        cases hattempt : s.attempt with
        | backoff => rfl
        | waiting r priv => simp [Enrolling.step, hattempt] at hstep
        | persisting priv resp written => simp [Enrolling.step, hattempt] at hstep
        | succeeded assetId notAfter => simp [Enrolling.step, hattempt] at hstep
      exact .register hattempt hstep
  | server event => exact h.server hnew hstep
  | answer => exact h.answer hstep
  | write => exact h.write hstep
  | fails =>
      simp only [Enrolling.step] at hstep
      split at hstep
      next =>
        cases hstep
        trivial
      next =>
        cases hstep
        trivial
      next => cases hstep

end Enrolling

/-- In every run of the registration loop, with requests and answers lost at any point and any
other requests at the server, a success leaves a certificate that certifies the key, as long as
no request of a running attempt finds its enrollment completed. -/
theorem registered_key_matches {b : BootstrapServer} {conf : Settings} {server : Registration}
    {files : Files b.x509} {s : Enrolling b}
    (hrun : Reaches (Fires (Enrolling.step conf) (Enrolling.NotCompleted conf))
      (Enrolling.start server files) s)
    {assetId : String} {notAfter : Int64} (hdone : s.attempt = .succeeded assetId notAfter) :
    s.files.Match := by
  have hinv : s.MatchInv conf := invariant (Enrolling.MatchInv conf)
    (fun _ _ h hstep => h.step hstep) (by trivial) hrun
  unfold Enrolling.MatchInv at hinv
  rw [hdone] at hinv
  exact hinv

/-! ## Fixed runs -/

namespace Enrolling

variable {b : BootstrapServer} {conf : Settings}

/-- A test for `NotCompleted`: the enrollment is not even being processed. -/
def untouched (conf : Settings) (s : Enrolling b) : Event b → Bool
  | .server (.store r _) =>
      match s.server.calls r, parseUuid conf.enrollID with
      | some ⟨_, .finding⟩, some id => (s.server.ledger.enrollments id).isNone
      | _, _ => true
  | _ => true

theorem notCompleted_of_untouched (s : Enrolling b) (event : Event b)
    (h : untouched conf s event = true) : NotCompleted conf s event := by
  cases event with
  | register r priv materials => trivial
  | answer => trivial
  | write => trivial
  | fails => trivial
  | server event =>
      cases event with
      | arrive r req => trivial
      | sign r serialBytes now later => trivial
      | signFails r err => trivial
      | abandon r => trivial
      | rotate assetId cert => trivial
      | store r o =>
          rintro priv ⟨req, phase⟩ - hcall rfl id row hid ⟨hrow, -⟩
          simp only [untouched, hcall, hid, hrow] at h
          cases h

end Enrolling

def byteSettings : Settings := ⟨"token", sampleEnrollment⟩

def noFiles : Files byteServer.x509 := ⟨none, none, none⟩

def Enrolling.outcome (s : Enrolling byteServer) : Option (Option UInt8 × Option Bytes) :=
  match s.attempt with
  | .succeeded _ _ => some (s.files.agentKey, s.files.agentCrt)
  | _ => none

theorem Enrolling.succeeded_of_outcome {s : Enrolling byteServer} {p : Option UInt8 × Option Bytes}
    (h : s.outcome = some p) :
    (∃ assetId notAfter, s.attempt = .succeeded assetId notAfter) ∧
      s.files.agentKey = p.1 ∧ s.files.agentCrt = p.2 := by
  unfold outcome at h
  split at h
  next assetId notAfter hattempt =>
    cases h
    exact ⟨⟨assetId, notAfter, hattempt⟩, rfl, rfl⟩
  next => cases h

def issue (r : Nat) : List (Enrolling.Event byteServer) :=
  [.server (.store r .done), .server (.store r .done), .server (.sign r [1] 0 0),
    .server (.store r .done)]

def materials : MaterialMap := AList.singleton "hostname" "node-1"

/-- The request of the first attempt is lost.  The second attempt has a new key and gets a
certificate for it. -/
theorem registered_key_matches_second_attempt :
    ∃ s : Enrolling byteServer, s.outcome = some (some 2, some [2]) ∧ s.files.Match := by
  have hrun : ∃ s, Reaches (Fires (Enrolling.step byteSettings) (Enrolling.NotCompleted byteSettings))
      (Enrolling.start .start noFiles) s ∧ s.outcome = some (some 2, some [2]) := by
    apply reaches_of_any (Enrolling.step byteSettings)
      ([.register 0 (1 : UInt8) materials, .fails, .server (.abandon 0),
        .register 1 (2 : UInt8) materials] ++ issue 1 ++ [.answer, .write, .write, .write])
      (fun s => s.outcome = some (some 2, some [2]))
    · exact permitted_of_permits Enrolling.notCompleted_of_untouched (by decide +kernel)
    · decide +kernel
  obtain ⟨s, hreach, houtcome⟩ := hrun
  obtain ⟨⟨assetId, notAfter, hdone⟩, -, -⟩ := Enrolling.succeeded_of_outcome houtcome
  exact ⟨s, houtcome, registered_key_matches hreach hdone⟩

/-- The answer to the first attempt is lost.  The second attempt has a new key and gets
the certificate of the first one. -/
theorem registered_key_mismatch :
    ∃ s : Enrolling byteServer, Reaches (Fires (Enrolling.step byteSettings) fun _ _ => True)
      (Enrolling.start .start noFiles) s ∧
      (∃ assetId notAfter, s.attempt = .succeeded assetId notAfter) ∧ ¬ s.files.Match := by
  have hrun : ∃ s : Enrolling byteServer, Reaches (Fires (Enrolling.step byteSettings) fun _ _ => True)
      (Enrolling.start .start noFiles) s ∧ s.outcome = some (some 2, some [1]) := by
    apply reaches_of_any (Enrolling.step byteSettings)
      ([.register 0 (1 : UInt8) materials] ++ issue 0 ++
        [.fails, .register 1 (2 : UInt8) materials, .server (.store 1 .done), .answer, .write, .write, .write])
      (fun s => s.outcome = some (some 2, some [1]))
    · exact permitted_of_forall (fun _ _ _ => trivial) _
    · decide +kernel
  obtain ⟨s, hreach, houtcome⟩ := hrun
  obtain ⟨hdone, hkey, hcrt⟩ := Enrolling.succeeded_of_outcome houtcome
  refine ⟨s, hreach, hdone, ?_⟩
  rintro ⟨priv, der, hpriv, hder, hmatch⟩
  cases hkey.symm.trans hpriv
  cases hcrt.symm.trans hder
  cases hmatch

end TomAgent.Register
