import TomAgent.Connector.Signing
import TomAgent.Register.Lifecycle

/-!
# The certificate belongs to the identity

An agent that registers over gRPC writes the certificate before the identity, and a
rotation asks for a certificate of the identity it has.  So the name in the certificate on
disk is the asset id that the agent goes by, at any point of its life and wherever a
process stops.
-/

namespace TomAgent.Register

open Connector Execution FileOps

/-! ## The certificate on disk -/

namespace Disk

variable {x : X509} {marshalPKCS8PrivateKey : x.PrivateKey → Option Bytes} {priv : x.PrivateKey}

theorem newPair_of_key (hkey : (marshalPKCS8PrivateKey priv).isSome = true) (certDER : Bytes) :
    ∃ key, newPair marshalPKCS8PrivateKey priv certDER =
      some (some key, some (encodeToMemory "CERTIFICATE" certDER)) := by
  obtain ⟨keyDER, hkey⟩ := Option.isSome_iff_exists.mp hkey
  refine ⟨encodeToMemory "PRIVATE KEY" keyDER, ?_⟩
  rw [newPair, hkey, Option.map_some]

theorem lookup_crt_persist (d : Disk) (hkey : (marshalPKCS8PrivateKey priv).isSome = true)
    (certDER caDER : Bytes) (done : Nat) (ending : Ending) :
    (d.runPki (persistPKI marshalPKCS8PrivateKey priv certDER caDER) done ending).pki.lookup
        "agent.crt" =
      if done < 5 then d.pki.lookup "agent.crt"
      else some (encodeToMemory "CERTIFICATE" certDER) := by
  obtain ⟨key, hnew⟩ := newPair_of_key hkey certDER
  exact congrArg Prod.snd (keyPair_interrupted marshalPKCS8PrivateKey hnew caDER d.pki done ending)

theorem lookup_ca_persist (d : Disk) (hkey : (marshalPKCS8PrivateKey priv).isSome = true)
    (certDER caDER : Bytes) (done : Nat) (ending : Ending) :
    (d.runPki (persistPKI marshalPKCS8PrivateKey priv certDER caDER) done ending).pki.lookup
        "ca.crt" =
      if done < 7 then d.pki.lookup "ca.crt" else some (encodeToMemory "CERTIFICATE" caDER) := by
  obtain ⟨keyDER, hkey⟩ := Option.isSome_iff_exists.mp hkey
  have hops : persistPKI marshalPKCS8PrivateKey priv certDER caDER =
      (.mkdirAll :: (replaceFile "agent.key" (encodeToMemory "PRIVATE KEY" keyDER) ++
        replaceFile "agent.crt" (encodeToMemory "CERTIFICATE" certDER))) ++
          (replaceFile "ca.crt" (encodeToMemory "CERTIFICATE" caDER) ++ []) := by
    simp [persistPKI, hkey, pkiFiles]
  have hlookup := @lookup_interrupted_replaceFile d.pki "ca.crt"
    (.mkdirAll :: (replaceFile "agent.key" (encodeToMemory "PRIVATE KEY" keyDER) ++
      replaceFile "agent.crt" (encodeToMemory "CERTIFICATE" certDER))) []
    (by simp [Op.Touches, replaceFile]) (by simp) (encodeToMemory "CERTIFICATE" caDER) done ending
  rw [← hops] at hlookup
  exact hlookup

theorem lookup_key_persist (d : Disk) {keyDER : Bytes}
    (hkey : marshalPKCS8PrivateKey priv = some keyDER) (certDER caDER : Bytes) (done : Nat)
    (ending : Ending) :
    (d.runPki (persistPKI marshalPKCS8PrivateKey priv certDER caDER) done ending).pki.lookup
        "agent.key" =
      if done < 3 then d.pki.lookup "agent.key"
      else some (encodeToMemory "PRIVATE KEY" keyDER) := by
  have hnew : newPair marshalPKCS8PrivateKey priv certDER =
      some (some (encodeToMemory "PRIVATE KEY" keyDER),
        some (encodeToMemory "CERTIFICATE" certDER)) := by
    rw [newPair, hkey, Option.map_some]
  exact congrArg Prod.fst (keyPair_interrupted marshalPKCS8PrivateKey hnew caDER d.pki done ending)

theorem hasPki_persisted (d : Disk) (hkey : (marshalPKCS8PrivateKey priv).isSome = true)
    (certDER caDER : Bytes) {done : Nat} (hdone : 7 ≤ done) (ending : Ending) :
    (d.runPki (persistPKI marshalPKCS8PrivateKey priv certDER caDER) done ending).hasPki =
      true := by
  obtain ⟨keyDER, hmarshal⟩ := Option.isSome_iff_exists.mp hkey
  rw [hasPki_iff, lookup_crt_persist d hkey, lookup_ca_persist d hkey,
    lookup_key_persist d hmarshal, if_neg (by omega), if_neg (by omega), if_neg (by omega)]
  exact ⟨rfl, rfl, rfl⟩

end Disk

/-! ## The files of the registration loop

`Enrolling` writes three values and `persistPKI` makes seven file operations of them. -/

structure Files.On {x : X509} (marshalPKCS8PrivateKey : x.PrivateKey → Option Bytes)
    (f : Files x) (d : Dir) : Prop where
  key : d.lookup "agent.key" = f.agentKey.bind fun priv =>
    (marshalPKCS8PrivateKey priv).map (encodeToMemory "PRIVATE KEY")
  crt : d.lookup "agent.crt" = f.agentCrt.map (encodeToMemory "CERTIFICATE")
  ca : d.lookup "ca.crt" = f.caCrt.map (encodeToMemory "CERTIFICATE")

variable {b : BootstrapServer}

/-- Wherever `persistPKI` ends, the directory is what some of the three writes of the loop
leave, and all of them if it has ended well. -/
theorem Enrolling.persistPKI_writes {conf : Settings}
    {marshalPKCS8PrivateKey : b.x509.PrivateKey → Option Bytes} {s : Enrolling b}
    {priv : b.x509.PrivateKey} {resp : RegisterResponse}
    (hattempt : s.attempt = .persisting priv resp 0)
    (hkey : (marshalPKCS8PrivateKey priv).isSome = true) {d : Disk}
    (hon : s.files.On marshalPKCS8PrivateKey d.pki) (done : Nat) (ending : Ending) :
    ∃ n t, play (Enrolling.step conf) s (List.replicate n .write) = some t ∧
      t.files.On marshalPKCS8PrivateKey (d.runPki
        (persistPKI marshalPKCS8PrivateKey priv resp.certificateDer resp.caDer) done ending).pki ∧
      (7 ≤ done → t.attempt = .succeeded resp.assetId resp.notAfter) := by
  obtain ⟨keyDER, hmarshal⟩ := Option.isSome_iff_exists.mp hkey
  have hkeyFile := d.lookup_key_persist hmarshal resp.certificateDer resp.caDer done ending
  have hcrtFile := d.lookup_crt_persist hkey resp.certificateDer resp.caDer done ending
  have hcaFile := d.lookup_ca_persist hkey resp.certificateDer resp.caDer done ending
  obtain ⟨server, attempt, files⟩ := s
  obtain rfl : attempt = .persisting priv resp 0 := hattempt
  -- the number of renamings before the end
  by_cases hthree : done < 3
  · rw [if_pos (by omega)] at hkeyFile hcrtFile hcaFile
    exact ⟨0, _, rfl, ⟨hkeyFile.trans hon.key, hcrtFile.trans hon.crt, hcaFile.trans hon.ca⟩,
      by omega⟩
  by_cases hfive : done < 5
  · rw [if_neg hthree] at hkeyFile
    rw [if_pos (by omega)] at hcrtFile hcaFile
    refine ⟨1, _, rfl, ⟨?_, hcrtFile.trans hon.crt, hcaFile.trans hon.ca⟩, by omega⟩
    rw [hkeyFile, Option.bind_some, hmarshal, Option.map_some]
  by_cases hseven : done < 7
  · rw [if_neg hthree] at hkeyFile
    rw [if_neg hfive] at hcrtFile
    rw [if_pos hseven] at hcaFile
    refine ⟨2, _, rfl, ⟨?_, hcrtFile, hcaFile.trans hon.ca⟩, by omega⟩
    rw [hkeyFile, Option.bind_some, hmarshal, Option.map_some]
  · rw [if_neg hthree] at hkeyFile
    rw [if_neg hfive] at hcrtFile
    rw [if_neg hseven] at hcaFile
    refine ⟨3, _, rfl, ⟨?_, hcrtFile, hcaFile⟩, fun _ => rfl⟩
    rw [hkeyFile, Option.bind_some, hmarshal, Option.map_some]

def CrtFor (b : BootstrapServer) (d : Disk) (assetId : String) : Prop :=
  ∃ der, b.IssuesTo assetId der ∧
    d.pki.lookup "agent.crt" = some (encodeToMemory "CERTIFICATE" der)

structure Certified (b : BootstrapServer) (d : Disk) (assetId : String) : Prop where
  complete : d.hasPki = true
  crt : CrtFor b d assetId
  ca : d.pki.lookup "ca.crt" = some (encodeToMemory "CERTIFICATE" b.caDER)

namespace Lifecycle

variable {marshalPKCS8PrivateKey : b.x509.PrivateKey → Option Bytes} {s t : Lifecycle b.x509}
  {e : LifeEvent b.x509}

/-- What is about to be written, for the disk as it is. -/
def PhaseCertified (marshalPKCS8PrivateKey : b.x509.PrivateKey → Option Bytes)
    (s : Lifecycle b.x509) : ModulePhase b.x509 → Prop
  | .down | .ensuring | .starting | .running => True
  | .enrolling _ _ => s.disk.identity = none
  | .asking _ _ _ _ => s.disk.identity = none
  | .posting _ => False
  | .preparing id => s.disk.identity = some id
  | .rotating id r _ caDER => s.disk.identity = some id ∧
      s.disk.pki.lookup "ca.crt" = some (encodeToMemory "CERTIFICATE" caDER) ∧
        ∃ x, s.server.rotations.lookup r = some x ∧ x.request.assetId = id.assetId
  | .persisting (.registered _) id priv certDER caDER => s.disk.identity = none ∧
      (marshalPKCS8PrivateKey priv).isSome = true ∧ b.IssuesTo id.assetId certDER ∧
        caDER = b.caDER ∧ id.assetId ≠ ""
  | .persisting .rotated id priv certDER caDER =>
      (∃ id', s.disk.identity = some id' ∧ id'.assetId = id.assetId) ∧
        (marshalPKCS8PrivateKey priv).isSome = true ∧ b.IssuesTo id.assetId certDER ∧
          s.disk.pki.lookup "ca.crt" = some (encodeToMemory "CERTIFICATE" caDER)
  | .saving (.registered _) id => s.disk.identity = none ∧
      Certified b s.disk id.assetId ∧ id.assetId ≠ ""
  | .saving .rotated id => ∃ id', s.disk.identity = some id' ∧ id'.assetId = id.assetId

/-- What has been reported: nothing before the identity is there. -/
def ReportCertified (s : Lifecycle b.x509) : Prop :=
  match s.phase, s.reported with
  | _, none => True
  | .starting, some assetId => ∃ id, s.disk.identity = some id ∧ id.assetId = assetId
  | .running, some assetId => s.conf.assetId = "" → assetId ≠ "" → CrtFor b s.disk assetId
  | _, some _ => False

/-- The identity on disk and the server. -/
structure Grounded (s : Lifecycle b.x509) : Prop where
  server : s.server.SignedInv b
  identity : ∀ id, s.disk.identity = some id → Certified b s.disk id.assetId

structure CertifiedInv (marshalPKCS8PrivateKey : b.x509.PrivateKey → Option Bytes)
    (s : Lifecycle b.x509) : Prop where
  grounded : s.Grounded
  conf : s.phase = .down ∨ s.conf.bootstrapAddr ≠ ""
  phase : PhaseCertified marshalPKCS8PrivateKey s s.phase
  report : s.ReportCertified

/-- The registrations of the run go over gRPC. -/
def Bootstraps (_ : Lifecycle b.x509) (e : LifeEvent b.x509) : Prop :=
  ∀ conf, e = .boot conf → conf.bootstrapAddr ≠ ""

/-! ## How a step ends -/

theorem Grounded.exit (h : s.Grounded) : CertifiedInv marshalPKCS8PrivateKey s.exit where
  grounded := ⟨h.server, h.identity⟩
  conf := Or.inl rfl
  phase := trivial
  report := trivial

theorem Grounded.silent (h : s.Grounded) (haddr : s.conf.bootstrapAddr ≠ "")
    (hquiet : s.reported = none) {phase : ModulePhase b.x509}
    (hphase : PhaseCertified marshalPKCS8PrivateKey { s with phase := phase } phase) :
    CertifiedInv marshalPKCS8PrivateKey { s with phase := phase } where
  grounded := ⟨h.server, h.identity⟩
  conf := Or.inr haddr
  phase := hphase
  report := by
    unfold ReportCertified
    dsimp only
    rw [hquiet]
    trivial

theorem Grounded.toStarting (h : s.Grounded) (haddr : s.conf.bootstrapAddr ≠ "") {id : Identity}
    {assetId : String} (hload : s.disk.identity = some id) (hasset : id.assetId = assetId) :
    CertifiedInv marshalPKCS8PrivateKey (s.ready .starting assetId) where
  grounded := ⟨h.server, h.identity⟩
  conf := Or.inr haddr
  phase := trivial
  report := ⟨id, hload, hasset⟩

theorem Grounded.toRunning (h : s.Grounded) (haddr : s.conf.bootstrapAddr ≠ "") {assetId : String}
    (hcrt : s.conf.assetId = "" → assetId ≠ "" → CrtFor b s.disk assetId) :
    CertifiedInv marshalPKCS8PrivateKey (s.ready .running assetId) where
  grounded := ⟨h.server, h.identity⟩
  conf := Or.inr haddr
  phase := trivial
  report := hcrt

def Busy : ModulePhase b.x509 → Prop
  | .down | .starting | .running => False
  | _ => True

/-- Before `Start` nothing is reported that is not on disk. -/
theorem CertifiedInv.quiet (h : CertifiedInv marshalPKCS8PrivateKey s)
    {phase : ModulePhase b.x509} (hphase : s.phase = phase) (hbusy : Busy phase) :
    s.reported = none := by
  have hreport := h.report
  unfold ReportCertified at hreport
  rw [hphase] at hreport
  split at hreport
  next hnone => exact hnone
  next => exact hbusy.elim
  next => exact hbusy.elim
  next => exact hreport.elim

theorem CertifiedInv.addr (h : CertifiedInv marshalPKCS8PrivateKey s) {phase : ModulePhase b.x509}
    (hphase : s.phase = phase) (hup : phase ≠ .down) : s.conf.bootstrapAddr ≠ "" :=
  h.conf.resolve_left (hphase ▸ hup)

theorem CertifiedInv.advance (h : CertifiedInv marshalPKCS8PrivateKey s)
    {phase next : ModulePhase b.x509} (hphase : s.phase = phase) (hbusy : Busy phase)
    (hnext : PhaseCertified marshalPKCS8PrivateKey { s with phase := next } next) :
    CertifiedInv marshalPKCS8PrivateKey { s with phase := next } := by
  have hup : phase ≠ .down := by rintro rfl; exact hbusy
  exact h.grounded.silent (h.addr hphase hup) (h.quiet hphase hbusy) hnext

theorem CertifiedInv.at_phase (h : CertifiedInv marshalPKCS8PrivateKey s)
    {phase : ModulePhase b.x509} (hphase : s.phase = phase) :
    PhaseCertified marshalPKCS8PrivateKey s phase :=
  hphase ▸ h.phase

/-! ## One step -/

theorem Grounded.served (h : s.Grounded) {e : Fleet.Event} {server : Fleet}
    (hserver : s.server.step b e = some server) : Grounded { s with server := server } :=
  ⟨h.server.step hserver, h.identity⟩

theorem PhaseCertified.served {e : Fleet.Event} {server : Fleet}
    (hserver : s.server.step b e = some server) {phase : ModulePhase b.x509}
    (h : PhaseCertified marshalPKCS8PrivateKey s phase) :
    PhaseCertified marshalPKCS8PrivateKey { s with server := server } phase := by
  cases phase with
  | rotating id r priv caDER =>
      obtain ⟨hload, hca, x, hx, hasset⟩ := h
      obtain ⟨y, hy, hrequest⟩ := Fleet.request_step hserver hx
      exact ⟨hload, hca, y, hy, hrequest ▸ hasset⟩
  | persisting origin id priv certDER caDER => cases origin <;> exact h
  | saving origin id => cases origin <;> exact h
  | _ => exact h

theorem lookup_rotateCertificate {server server' : Fleet} {r : Nat} {req : RotateCertRequest}
    {peer : Peer} (h : server.step b (.rotateCertificate r req peer) = some server') :
    ∃ x, server'.rotations.lookup r = some x ∧ x.request = req := by
  simp only [Fleet.step] at h
  split at h
  next => cases h
  next =>
    cases h
    exact ⟨_, AList.lookup_insert _, rfl⟩

theorem issues_answer {server : Fleet} (h : server.SignedInv b) {r : Nat} {resp : RegisterResponse}
    (hanswer : server.registration.answer r = some resp) :
    b.IssuesTo resp.assetId resp.certificateDer ∧ resp.caDer = b.caDER := by
  unfold Registration.answer at hanswer
  split at hanswer
  next req resp' hcall =>
    cases hanswer
    exact h.registration.calls r _ hcall
  next => cases hanswer

theorem issues_rotationAnswer {server : Fleet} (h : server.SignedInv b) {r : Nat} {x : Rotation}
    (hx : server.rotations.lookup r = some x) {resp : RotateCertResponse}
    (hanswer : rotationAnswer server r = some resp) :
    b.IssuesTo x.request.assetId resp.certificateDer := by
  have hsigned := h.rotations r x hx
  unfold rotationAnswer at hanswer
  rw [hx] at hanswer
  split at hanswer
  next hreply =>
    cases hreply
    cases hanswer
    exact hsigned
  next => cases hanswer

section Persist

variable {origin : Origin} {id : Identity} {priv : b.x509.PrivateKey} {certDER caDER : Bytes}
  {done : Nat} {ending : Ending}

/-- A registration is without an identity as long as it writes; a rotation replaces the
certificate by one for the same asset. -/
theorem CertifiedInv.grounded_persist (h : CertifiedInv marshalPKCS8PrivateKey s)
    (hphase : s.phase = .persisting origin id priv certDER caDER) (done : Nat) (ending : Ending) :
    (s.wrote marshalPKCS8PrivateKey priv certDER caDER done ending).Grounded := by
  have hcert := h.at_phase hphase
  refine ⟨h.grounded.server, fun id' hload => ?_⟩
  cases origin with
  | registered caller => cases hcert.1.symm.trans hload
  | rotated =>
      obtain ⟨⟨old, hold, hasset⟩, hkey, hissues, hca⟩ := hcert
      obtain rfl : old = id' := Option.some.inj (hold.symm.trans hload)
      obtain ⟨hcomplete, ⟨der, hder, hfile⟩, hcaFile⟩ := h.grounded.identity old hold
      refine ⟨Disk.hasPki_persist hcomplete priv certDER caDER done ending, ?_, ?_⟩
      · have hcrt := s.disk.lookup_crt_persist hkey certDER caDER done ending
        by_cases hdone : done < 5
        · rw [if_pos hdone] at hcrt
          exact ⟨der, hder, hcrt.trans hfile⟩
        · rw [if_neg hdone] at hcrt
          exact ⟨certDER, hasset ▸ hissues, hcrt⟩
      · -- the authority's certificate is written back as it was read
        refine (s.disk.lookup_ca_persist hkey certDER caDER done ending).trans ?_
        rw [← hca, ite_self, hcaFile]

theorem CertifiedInv.persist (h : CertifiedInv marshalPKCS8PrivateKey s)
    (hphase : s.phase = .persisting origin id priv certDER caDER)
    (hend : (persistPKI marshalPKCS8PrivateKey priv certDER caDER).length ≤ done ∧
        t = { s.wrote marshalPKCS8PrivateKey priv certDER caDER done ending with
          phase := .saving origin id } ∨
      t = (s.wrote marshalPKCS8PrivateKey priv certDER caDER done ending).exit ∨
      t = (s.wrote marshalPKCS8PrivateKey priv certDER caDER done ending).unpersisted id origin) :
    CertifiedInv marshalPKCS8PrivateKey t := by
  have hgrounded := h.grounded_persist hphase done ending
  have hcert := h.at_phase hphase
  have haddr : s.conf.bootstrapAddr ≠ "" := h.addr hphase nofun
  have hquiet : s.reported = none := h.quiet hphase trivial
  rcases hend with ⟨hlength, rfl⟩ | rfl | rfl
  · refine hgrounded.silent haddr hquiet ?_
    cases origin with
    | rotated => exact hcert.1
    | registered caller =>
        obtain ⟨hnone, hkey, hissues, hca, hasset⟩ := hcert
        rw [Disk.length_persistPKI hkey] at hlength
        refine ⟨hnone, ⟨?_, ⟨certDER, hissues, ?_⟩, ?_⟩, hasset⟩
        · exact s.disk.hasPki_persisted hkey certDER caDER hlength ending
        · refine (s.disk.lookup_crt_persist hkey certDER caDER done ending).trans ?_
          rw [if_neg (by omega)]
        · refine (s.disk.lookup_ca_persist hkey certDER caDER done ending).trans ?_
          rw [if_neg (by omega), hca]
  · exact hgrounded.exit
  · cases origin with
    | registered caller => exact hgrounded.silent haddr hquiet hcert.1
    | rotated =>
        obtain ⟨⟨old, hold, hasset⟩, -⟩ := hcert
        exact hgrounded.toStarting haddr hold hasset

theorem CertifiedInv.save (h : CertifiedInv marshalPKCS8PrivateKey s)
    (hphase : s.phase = .saving origin id)
    (hend : (saveIdentity id).length ≤ done ∧ t = (s.stored id done ending).proceed id origin ∨
      t = (s.stored id done ending).exit ∨ t = (s.stored id done ending).unsaved id origin) :
    CertifiedInv marshalPKCS8PrivateKey t := by
  have hcert := h.at_phase hphase
  have haddr : s.conf.bootstrapAddr ≠ "" := h.addr hphase nofun
  have hstored : ∀ {assetId}, Certified b s.disk assetId →
      Certified b (s.stored id done ending).disk assetId := fun hc => ⟨hc.complete, hc.crt, hc.ca⟩
  -- either way the certificate on disk is one for the asset that is saved
  have hcertified : Certified b s.disk id.assetId ∧ id.assetId ≠ "" := by
    cases origin with
    | registered caller => exact hcert.2
    | rotated =>
        obtain ⟨old, hold, hasset⟩ := hcert
        exact ⟨hasset ▸ h.grounded.identity old hold, hasset ▸ Disk.identity_assetId hold⟩
  have hload : (s.stored id done ending).disk.identity =
      if done < 3 then s.disk.identity else some id :=
    s.disk.identity_save hcertified.2 done ending
  have hgrounded : (s.stored id done ending).Grounded := by
    refine ⟨h.grounded.server, fun id' hid' => ?_⟩
    rw [hload] at hid'
    split at hid'
    next => exact hstored (h.grounded.identity id' hid')
    next =>
      cases hid'
      exact hstored hcertified.1
  have hrunning : CertifiedInv marshalPKCS8PrivateKey
      ((s.stored id done ending).ready .running id.assetId) :=
    hgrounded.toRunning haddr fun _ _ => hcertified.1.crt
  -- a rotation has an identity of the asset before and after
  have hrotated : origin = .rotated →
      CertifiedInv marshalPKCS8PrivateKey
        ((s.stored id done ending).ready .starting id.assetId) := by
    rintro rfl
    obtain ⟨old, hold, hasset⟩ := hcert
    by_cases hdone : done < 3
    · rw [if_pos hdone] at hload
      exact hgrounded.toStarting haddr (hload.trans hold) hasset
    · rw [if_neg hdone] at hload
      exact hgrounded.toStarting haddr hload rfl
  rcases hend with ⟨hlength, rfl⟩ | rfl | rfl
  · cases origin with
    | rotated => exact hrotated rfl
    | registered caller =>
        cases caller with
        | registerLoop => exact hrunning
        | ensureIdentity =>
            have hdone : ¬ done < 3 := Nat.not_lt.mpr hlength
            rw [if_neg hdone] at hload
            exact hgrounded.toStarting haddr hload rfl
  · exact hgrounded.exit
  · cases origin with
    | rotated => exact hrotated rfl
    | registered caller =>
        cases caller with
        | registerLoop => exact hrunning
        | ensureIdentity => exact hgrounded.exit

end Persist

theorem CertifiedInv.served (h : CertifiedInv marshalPKCS8PrivateKey s) {e : Fleet.Event}
    {server : Fleet} (hserver : s.server.step b e = some server) :
    CertifiedInv marshalPKCS8PrivateKey { s with server := server } :=
  ⟨h.grounded.served hserver, h.conf, h.phase.served hserver, h.report⟩

theorem CertifiedInv.step (h : CertifiedInv marshalPKCS8PrivateKey s) (hmay : s.Bootstraps e)
    (hreads : e.Legible) (he : step marshalPKCS8PrivateKey s e = some t) : CertifiedInv marshalPKCS8PrivateKey t := by
  cases step_does he with
  | served hserver => exact h.served hserver
  | booted hboot hphase hfirst =>
      refine ⟨⟨h.grounded.server, h.grounded.identity⟩, Or.inr (hmay _ hboot), ?_, trivial⟩
      rcases hfirst with ⟨rfl, -⟩ | rfl
      · trivial
      · trivial
  | crashed => exact h.grounded.exit
  | restored hphase hload hpki => exact h.grounded.toStarting (h.addr hphase nofun) hload rfl
  | due hphase hload hpki => exact h.advance hphase trivial hload
  | skipped hphase => exact h.advance hphase trivial trivial
  | ensures hphase hnone =>
      refine h.advance hphase trivial ?_
      cases hload : s.disk.identity with
      | none => exact hload
      | some id =>
          have hcomplete := (h.grounded.identity id hload).complete
          rw [hnone hreads id hload] at hcomplete
          cases hcomplete
  | configured hphase hconf =>
      exact h.grounded.toRunning (h.addr hphase nofun) fun hempty => absurd hempty hconf
  | found hphase hload =>
      exact h.grounded.toRunning (h.addr hphase nofun) fun _ _ =>
        (h.grounded.identity _ hload).crt
  | anonymous hphase hload =>
      exact h.grounded.toRunning (h.addr hphase nofun) fun _ hne => absurd rfl hne
  | enrolls hphase hload =>
      refine h.grounded.silent (h.addr hphase nofun) ?_ (hload hreads)
      have hreport := h.report
      unfold ReportCertified at hreport
      rw [hphase] at hreport
      cases hreported : s.reported with
      | none => rfl
      | some assetId =>
          rw [hreported] at hreport
          obtain ⟨id, hid, -⟩ := hreport
          cases (hload hreads).symm.trans hid
  | asks hphase hserver => exact (h.served hserver).advance hphase trivial (h.at_phase hphase)
  | posts hphase haddr => exact absurd haddr (h.addr hphase nofun)
  | rotates hphase hca hserver =>
      obtain ⟨x, hx, hrequest⟩ := lookup_rotateCertificate hserver
      exact (h.served hserver).advance hphase trivial
        ⟨h.at_phase hphase, hca, x, hx, hrequest ▸ rfl⟩
  | answered hphase hanswer hasset hkey =>
      obtain ⟨hissues, hca⟩ := issues_answer h.grounded.server hanswer
      exact h.advance hphase trivial ⟨h.at_phase hphase, hkey, hissues, hca, hasset⟩
  | @renewed id r priv caDER resp hphase hanswer hkey =>
      obtain ⟨hload, hca, x, hx, hasset⟩ := h.at_phase hphase
      have hissues := issues_rotationAnswer h.grounded.server hx hanswer
      exact h.advance hphase trivial ⟨⟨id, hload, rfl⟩, hkey, hasset ▸ hissues, hca⟩
  | posted hphase hasset => exact (h.at_phase hphase).elim
  | retries hphase =>
      rcases hphase with ⟨r, priv, hphase⟩ | ⟨-, hphase⟩
      · exact h.advance hphase trivial (h.at_phase hphase)
      · exact (h.at_phase hphase).elim
  | givesUp hphase =>
      rcases hphase with hphase | ⟨r, priv, caDER, hphase⟩
      · exact h.grounded.toStarting (h.addr hphase nofun) (h.at_phase hphase) rfl
      · exact h.grounded.toStarting (h.addr hphase nofun) (h.at_phase hphase).1 rfl
  | persists hphase hend => exact h.persist hphase hend
  | saves hphase hend => exact h.save hphase hend

theorem CertifiedInv.start (conf : Conf) :
    CertifiedInv marshalPKCS8PrivateKey ⟨.start, .empty, conf, .down, none⟩ where
  grounded := by
    refine ⟨.start, fun id hload => ?_⟩
    cases hload
  conf := Or.inl rfl
  phase := trivial
  report := trivial

/-- The agent starts with an empty disk, and whenever it registers, it does so over gRPC.
Wherever its processes stop, whichever writes fail and whatever else the server does, as long
as the reads at the start of a process do not fail: with an identity on disk there are the
three files, `agent.crt` is a certificate that was signed for the asset id of the identity,
and `ca.crt` is the server's.  And while a process without a configured asset id runs,
`agent.crt` is one for the asset id that it has reported. -/
theorem certificate_belongs_to_identity {conf : Conf}
    (hrun : Reaches (Fires (step marshalPKCS8PrivateKey) fun s e => s.Bootstraps e ∧ e.Legible)
      ⟨.start, .empty, conf, .down, none⟩ t) :
    (∀ id, t.disk.identity = some id → Certified b t.disk id.assetId) ∧
      (t.conf.assetId = "" → ∀ assetId, t.reported = some assetId → assetId ≠ "" →
        CrtFor b t.disk assetId) := by
  have hinv : CertifiedInv marshalPKCS8PrivateKey t := by
    refine invariant (CertifiedInv marshalPKCS8PrivateKey) (fun u v hu hstep => ?_) (.start conf) hrun
    obtain ⟨e, ⟨hmay, hreads⟩, he⟩ := hstep
    exact hu.step hmay hreads he
  refine ⟨hinv.grounded.identity, fun hconf assetId hreported hne => ?_⟩
  have hreport := hinv.report
  unfold ReportCertified at hreport
  rw [hreported] at hreport
  split at hreport
  next hnone => cases hnone
  next hsome =>
    obtain ⟨id, hload, hasset⟩ := hreport
    cases hsome
    exact hasset ▸ (hinv.grounded.identity id hload).crt
  next hsome =>
    cases hsome
    exact hreport hconf hne
  next => exact hreport.elim

def firstStart : List (LifeEvent byteServer.x509) :=
  [.boot grpcConf, .ensure 0 sampleEnrollment [] [],
    .register 0 (1 : UInt8) (AList.singleton "hostname" "node-1"),
    .server (.register (.store 0 .done)), .server (.register (.store 0 .done)),
    .server (.register (.sign 0 [1] 0 0)), .server (.register (.store 0 .done)),
    .answer 1, .persist 7 .stops, .save 3 .stops]

theorem certificate_belongs_to_identity_first_start :
    ∃ t : Lifecycle byteServer.x509,
      Reaches (Fires (step marshalByte) fun s e => s.Bootstraps e ∧ e.Legible)
          ⟨.start, .empty, grpcConf, .down, none⟩ t ∧
        t.reported = some "asset-01" ∧ CrtFor byteServer t.disk "asset-01" := by
  have hreads : ∀ e ∈ firstStart, e.Legible := by decide
  have hmay : Permitted (step (b := byteServer) marshalByte)
      (fun s e => s.Bootstraps e ∧ e.Legible)
      ⟨.start, .empty, grpcConf, .down, none⟩ firstStart := by
    refine permitted_of_forall (fun e he s => ⟨fun conf heq => ?_, hreads e he⟩) _
    subst heq
    have hconf : conf = grpcConf := by simpa [firstStart] using he
    rw [hconf]
    decide
  obtain ⟨t, hrun, hreported, hconf⟩ := reaches_of_any (step (b := byteServer) marshalByte)
    firstStart (fun t => t.reported = some "asset-01" ∧ t.conf.assetId = "") hmay
    (by decide +kernel)
  have hcert := certificate_belongs_to_identity hrun
  exact ⟨t, hrun, hreported, hcert.2 hconf "asset-01" hreported (by decide)⟩

end Lifecycle

end TomAgent.Register
