import TomAgent.Connector.Rotation
import TomAgent.Executor.Ingress
import TomAgent.Register.Enroll
import TomAgent.Register.Persist
import TomAgent.Reporter.Items

/-!
# The agent's identity over its whole life

The agent is started any number of times, each time with some configuration.  It takes
its asset id from the configuration or from `identity.json`, or it registers and then
writes `identity.json`.  With gRPC it looks at the certificate first and may rotate it.
Every file is written under a temporary name and renamed.  The process may stop between
any two file operations, and any of them may fail.
-/

namespace TomAgent.Register

open Connector Execution FileOps JsonText
open Executor (UplinkMode)

/-! ## The identity file -/

structure Identity where
  assetId : String
  enrollmentRequestId : String
  registeredAt : Int64
  certNotAfter : Int64
deriving Repr, DecidableEq

def fieldLine (before : Char) (name : String) : List Char :=
  before :: '\n' :: ' ' :: ' ' :: quote name.toList ++ [':', ' ']

/-- `json.MarshalIndent`; `cert_not_after` is left out when it is zero. -/
def identityText (id : Identity) : List Char :=
  fieldLine '{' "asset_id" ++ (quote id.assetId.toList ++
    (fieldLine ',' "enrollment_request_id" ++ (quote id.enrollmentRequestId.toList ++
      (fieldLine ',' "registered_at" ++ (intText id.registeredAt.toInt ++
        (if id.certNotAfter = 0 then ['\n', '}']
        else fieldLine ',' "cert_not_after" ++ (intText id.certNotAfter.toInt ++ ['\n', '}'])))))))

def marshalIdentity (id : Identity) : Bytes := utf8 (identityText id)

def readInt64 (text : List Char) : Option (Int64 × List Char) :=
  (readInt text).bind fun r =>
    if -2 ^ 63 ≤ r.1 ∧ r.1 < 2 ^ 63 then some (Int64.ofInt r.1, r.2) else none

/-- The form in which `saveIdentity` writes the file; nothing else writes it. -/
def readIdentity (text : List Char) : Option Identity := do
  let text ← readText (fieldLine '{' "asset_id") text
  let (assetId, text) ← readQuoted text
  let text ← readText (fieldLine ',' "enrollment_request_id") text
  let (enrollmentRequestId, text) ← readQuoted text
  let text ← readText (fieldLine ',' "registered_at") text
  let (registeredAt, text) ← readInt64 text
  if text = ['\n', '}'] then
    some ⟨String.ofList assetId, String.ofList enrollmentRequestId, registeredAt, 0⟩
  else do
    let text ← readText (fieldLine ',' "cert_not_after") text
    let (certNotAfter, text) ← readInt64 text
    if text = ['\n', '}'] then
      some ⟨String.ofList assetId, String.ofList enrollmentRequestId, registeredAt, certNotAfter⟩
    else none

def unmarshalIdentity (data : Bytes) : Option Identity := (ofUtf8 data).bind readIdentity

theorem readInt64_intText (i : Int64) {rest : List Char} (h : EndsNumber rest) :
    readInt64 (intText i.toInt ++ rest) = some (i, rest) := by
  have hrange : -2 ^ 63 ≤ i.toInt ∧ i.toInt < 2 ^ 63 := ⟨i.le_toInt, i.toInt_lt⟩
  rw [readInt64, readInt_intText i.toInt h, Option.bind_some, if_pos hrange, Int64.ofInt_toInt]

theorem endsNumber_fieldLine (name : String) (rest : List Char) :
    EndsNumber (fieldLine ',' name ++ rest) := by
  intro c hc
  have hcomma : c = ',' := by simpa [fieldLine, eq_comm] using hc
  subst hcomma
  decide

theorem endsNumber_close : EndsNumber ['\n', '}'] := by
  intro c hc
  cases hc
  decide

theorem fieldLine_ne_close (name : String) (rest : List Char) :
    fieldLine ',' name ++ rest ≠ ['\n', '}'] := by
  intro h
  simp [fieldLine] at h

@[simp] theorem unmarshalIdentity_marshalIdentity (id : Identity) :
    unmarshalIdentity (marshalIdentity id) = some id := by
  rw [unmarshalIdentity, marshalIdentity, ofUtf8_utf8, Option.bind_some]
  by_cases hzero : id.certNotAfter = 0
  · have hnumber := readInt64_intText id.registeredAt endsNumber_close
    have hid : (⟨id.assetId, id.enrollmentRequestId, id.registeredAt, 0⟩ : Identity) = id := by
      rw [← hzero]
    simp [readIdentity, identityText, hzero, hnumber, hid]
  · have hfirst := readInt64_intText id.registeredAt (endsNumber_fieldLine "cert_not_after"
      (intText id.certNotAfter.toInt ++ ['\n', '}']))
    have hsecond := readInt64_intText id.certNotAfter endsNumber_close
    simp [readIdentity, identityText, hzero, hfirst, hsecond, fieldLine_ne_close]

/-! ## The disk -/

structure Disk where
  data : Dir
  pki : Dir

namespace Disk

def empty : Disk := ⟨∅, ∅⟩

def identity (d : Disk) : Option Identity :=
  ((d.data.lookup "identity.json").bind unmarshalIdentity).filter fun id => id.assetId ≠ ""

def hasPki (d : Disk) : Bool :=
  ["ca.crt", "agent.crt", "agent.key"].all fun name => (d.pki.lookup name).isSome

/-- `LoadIdentity`, where `failing` are the files that cannot be read: any error of
`os.ReadFile` counts as no identity. -/
def loadIdentity (d : Disk) (failing : List String) : Option Identity :=
  if "identity.json" ∈ failing then none else d.identity

/-- `PKIPaths` returns the paths; any error of `os.Stat` counts as no file. -/
def pkiComplete (d : Disk) (failing : List String) : Bool :=
  ["ca.crt", "agent.crt", "agent.key"].all fun name =>
    name ∉ failing && (d.pki.lookup name).isSome

theorem identity_of_loadIdentity {d : Disk} {failing : List String} {id : Identity}
    (h : d.loadIdentity failing = some id) : d.identity = some id := by
  unfold loadIdentity at h
  split at h
  · cases h
  · exact h

theorem hasPki_of_pkiComplete {d : Disk} {failing : List String}
    (h : d.pkiComplete failing = true) : d.hasPki = true := by
  simp only [pkiComplete, List.all_eq_true, Bool.and_eq_true] at h
  simp only [hasPki, List.all_eq_true]
  intro name hname
  exact (h name hname).2

@[simp] theorem loadIdentity_nil (d : Disk) : d.loadIdentity [] = d.identity := by
  simp [loadIdentity]

@[simp] theorem pkiComplete_nil (d : Disk) : d.pkiComplete [] = d.hasPki := by
  simp [pkiComplete, hasPki]

def runPki (d : Disk) (ops : List Op) (done : Nat) (ending : Ending) : Disk :=
  { d with pki := interrupted d.pki ops done ending }

def runData (d : Disk) (ops : List Op) (done : Nat) (ending : Ending) : Disk :=
  { d with data := interrupted d.data ops done ending }

end Disk

def saveIdentity (id : Identity) : List Op :=
  .mkdirAll :: replaceFile "identity.json" (marshalIdentity id)

/-! ## The window for a rotation -/

def duration (n : Int) : Int := n.bmod (2 ^ 64)

/-- `time.Until` saturates. -/
def untilTime (now : Int) (seconds : Int64) : Int :=
  max (-2 ^ 63) (min (2 ^ 63 - 1) (seconds.toInt * 1000000000 - now))

/-- The checks of `MaybeRotate`, for a configured number of days. -/
def rotationDue (rotateBeforeDays : Int) (now : Int) (id : Identity) : Bool :=
  let beforeDays := if rotateBeforeDays ≤ 0 then 30 else rotateBeforeDays
  0 < id.certNotAfter.toInt ∧
    untilTime now id.certNotAfter ≤ duration (duration (beforeDays * 24) * 3600000000000)

/-! ## The process -/

structure Conf where
  /-- `agent.asset_id`. -/
  assetId : String
  bootstrapToken : String
  bootstrapAddr : String
  rotateBeforeDays : Int
  mode : UplinkMode
  addr : String
  httpAddr : String
  certFile : String
deriving Repr, DecidableEq

def Conf.registerBaseURL (conf : Conf) : String :=
  match conf.mode with
  | .http => conf.addr
  | .grpc => conf.httpAddr
  | .stdout => ""

/-- Who runs a registration: `EnsureIdentity` before the modules are started, or the
loop that `Start` leaves behind. -/
inductive Caller where
  | ensureIdentity
  | registerLoop
deriving Repr, DecidableEq

inductive Origin where
  | registered (caller : Caller)
  | rotated
deriving Repr, DecidableEq

inductive ModulePhase (x : X509) where
  | down
  /-- `main` is about to call `EnsureIdentity`, -/
  | ensuring
  /-- or `Start`. -/
  | starting
  /-- Between two attempts of a registration. -/
  | enrolling (caller : Caller) (enrollID : String)
  /-- A gRPC request is out. -/
  | asking (caller : Caller) (enrollID : String) (r : Nat) (priv : x.PrivateKey)
  /-- A request to `/v1/register` is out. -/
  | posting (enrollID : String)
  /-- `MaybeRotate` has decided to rotate. -/
  | preparing (id : Identity)
  | rotating (id : Identity) (r : Nat) (priv : x.PrivateKey) (caDER : Bytes)
  /-- `persistPKI` comes next, and then `saveIdentity`. -/
  | persisting (origin : Origin) (id : Identity) (priv : x.PrivateKey) (certDER caDER : Bytes)
  | saving (origin : Origin) (id : Identity)
  | running

structure Lifecycle (x : X509) where
  server : Fleet
  disk : Disk
  conf : Conf
  phase : ModulePhase x
  /-- What `onReady` was last called with, in this process. -/
  reported : Option String

inductive LifeEvent (x : X509) where
  | server (e : Fleet.Event)
  | boot (conf : Conf)
  | crash
  /-- The first lines of `EnsureIdentity`, and those of `MaybeRotate`, which looks at the
  files `again`; the lists are the files whose reads fail. -/
  | ensure (now : Int) (enrollID : String) (failing again : List String)
  | start (enrollID : String) (failing : List String)
  /-- An attempt over gRPC, whose request reaches the server. -/
  | register (r : Nat) (priv : x.PrivateKey) (materials : Platform.MaterialMap)
  /-- An attempt over HTTP. -/
  | post
  | rotate (r : Nat) (priv : x.PrivateKey) (peer : Peer) (caDER : Bytes)
  /-- The answer to a gRPC request arrives; `now` is the time of the new identity. -/
  | answer (now : Int64)
  /-- The answer to an HTTP request arrives. -/
  | posted (assetId : String) (now : Int64)
  /-- An attempt ends with an error before anything is written. -/
  | fails
  /-- `persistPKI` ends after so many operations. -/
  | persist (done : Nat) (ending : Ending)
  /-- `saveIdentity` ends after so many operations. -/
  | save (done : Nat) (ending : Ending)

/-- The reads that decide about a registration do not fail. -/
def LifeEvent.Legible {x : X509} : LifeEvent x → Prop
  | .ensure _ _ failing _ => failing = []
  | .start _ failing => failing = []
  | _ => True

instance {x : X509} (e : LifeEvent x) : Decidable e.Legible := by
  cases e <;> unfold LifeEvent.Legible <;> infer_instance

def rotationAnswer (s : Fleet) (r : Nat) : Option RotateCertResponse :=
  match s.rotations.lookup r with
  | some ⟨_, .replied (.ok resp)⟩ => some resp
  | _ => none

/-- The identity of a registration.  `doRegister` does not pass the end of the certificate
on to its loop. -/
def newIdentity (caller : Caller) (enrollID : String) (resp : RegisterResponse) (now : Int64) :
    Identity where
  assetId := resp.assetId
  enrollmentRequestId := enrollID
  registeredAt := now
  certNotAfter := match caller with
    | .ensureIdentity => resp.notAfter
    | .registerLoop => 0

namespace Lifecycle

/-- `onReady` is called with the asset id, and `main` goes on. -/
def ready {x : X509} (s : Lifecycle x) (phase : ModulePhase x) (assetId : String) : Lifecycle x :=
  { s with phase := phase, reported := some assetId }

def exit {x : X509} (s : Lifecycle x) : Lifecycle x := { s with phase := .down, reported := none }

def proceed {x : X509} (s : Lifecycle x) (id : Identity) : Origin → Lifecycle x
  | .registered .registerLoop => s.ready .running id.assetId
  | _ => s.ready .starting id.assetId

def unpersisted {x : X509} (s : Lifecycle x) (id : Identity) : Origin → Lifecycle x
  | .registered caller => { s with phase := .enrolling caller id.enrollmentRequestId }
  | .rotated => s.ready .starting id.assetId

/-- `saveIdentity` has returned an error: only `EnsureIdentity` gives up. -/
def unsaved {x : X509} (s : Lifecycle x) (id : Identity) : Origin → Lifecycle x
  | .registered .ensureIdentity => s.exit
  | .registered .registerLoop => s.ready .running id.assetId
  | .rotated => s.ready .starting id.assetId

variable {b : BootstrapServer}

section Step

variable (marshalPKCS8PrivateKey : b.x509.PrivateKey → Option Bytes)

def step (s : Lifecycle b.x509) : LifeEvent b.x509 → Option (Lifecycle b.x509)
  | .server e => (s.server.step b e).map fun server => { s with server := server }
  | .boot conf =>
      match s.phase with
      | .down =>
          let first := if conf.mode = .grpc ∧ conf.certFile = "" ∧ conf.assetId = ""
            then .ensuring else .starting
          some { s with conf := conf, phase := first, reported := none }
      | _ => none
  | .crash =>
      match s.phase with
      | .down => none
      | _ => some s.exit
  | .ensure now enrollID failing again =>
      match s.phase with
      | .ensuring =>
          match s.disk.loadIdentity failing, s.disk.pkiComplete failing with
          | some id, true =>
              match s.disk.loadIdentity again, s.disk.pkiComplete again with
              | some id', true =>
                  if rotationDue s.conf.rotateBeforeDays now id' then
                    some { s with phase := .preparing id' }
                  else some (s.ready .starting id.assetId)
              | _, _ => some (s.ready .starting id.assetId)
          | _, _ =>
              if s.conf.bootstrapToken = "" ∨ s.conf.bootstrapAddr = "" then
                some { s with phase := .starting }
              else some { s with phase := .enrolling .ensureIdentity enrollID }
      | _ => none
  | .start enrollID failing =>
      match s.phase with
      | .starting =>
          if s.conf.assetId ≠ "" then some (s.ready .running s.conf.assetId)
          else
            match s.disk.loadIdentity failing with
            | some id => some (s.ready .running id.assetId)
            | none =>
                if s.conf.bootstrapToken = "" ∨
                    s.conf.registerBaseURL = "" ∧ s.conf.bootstrapAddr = "" then
                  some (s.ready .running "")
                else some { s with phase := .enrolling .registerLoop enrollID }
      | _ => none
  | .register r priv materials =>
      match s.phase with
      | .enrolling caller enrollID =>
          if s.conf.bootstrapAddr = "" then none
          else
            let req := Enrolling.request ⟨s.conf.bootstrapToken, enrollID⟩ priv materials
            (s.server.step b (.register (.arrive r req))).map fun server =>
              { s with server := server, phase := .asking caller enrollID r priv }
      | _ => none
  | .post =>
      match s.phase with
      | .enrolling .registerLoop enrollID =>
          if s.conf.bootstrapAddr = "" then some { s with phase := .posting enrollID } else none
      | _ => none
  | .rotate r priv peer caDER =>
      match s.phase with
      | .preparing id =>
          if s.disk.pki.lookup "ca.crt" = some (encodeToMemory "CERTIFICATE" caDER) then
            let csr := b.x509.createCertificateRequest ("rotate-" ++ id.assetId) priv
            (s.server.step b (.rotateCertificate r ⟨id.assetId, csr⟩ peer)).map fun server =>
              { s with server := server, phase := .rotating id r priv caDER }
          else none
      | _ => none
  | .answer now =>
      match s.phase with
      | .asking caller enrollID r priv =>
          match s.server.registration.answer r with
          | none => none
          | some resp =>
              if resp.assetId = "" ∨ resp.certificateDer.length = 0 ∨ resp.caDer.length = 0 ∨
                  marshalPKCS8PrivateKey priv = none then none
              else
                let id := newIdentity caller enrollID resp now
                some { s with
                  phase := .persisting (.registered caller) id priv resp.certificateDer resp.caDer }
      | .rotating id r priv caDER =>
          match rotationAnswer s.server r with
          | none => none
          | some resp =>
              if resp.certificateDer.length = 0 ∨ resp.notAfter ≤ 0 ∨
                  marshalPKCS8PrivateKey priv = none then none
              else
                let id := { id with certNotAfter := resp.notAfter }
                some { s with phase := .persisting .rotated id priv resp.certificateDer caDER }
      | _ => none
  | .posted assetId now =>
      match s.phase with
      | .posting enrollID =>
          if assetId = "" then none
          else
            let id := ⟨assetId, enrollID, now, 0⟩
            some { s with phase := .saving (.registered .registerLoop) id }
      | _ => none
  | .fails =>
      match s.phase with
      | .asking caller enrollID _ _ => some { s with phase := .enrolling caller enrollID }
      | .posting enrollID => some { s with phase := .enrolling .registerLoop enrollID }
      | .preparing id => some (s.ready .starting id.assetId)
      | .rotating id _ _ _ => some (s.ready .starting id.assetId)
      | _ => none
  | .persist done ending =>
      match s.phase with
      | .persisting origin id priv certDER caDER =>
          let ops := persistPKI marshalPKCS8PrivateKey priv certDER caDER
          let s := { s with disk := s.disk.runPki ops done ending }
          if ops.length ≤ done then some { s with phase := .saving origin id }
          else
            match ending with
            | .stops => some s.exit
            | .fails _ => some (s.unpersisted id origin)
      | _ => none
  | .save done ending =>
      match s.phase with
      | .saving origin id =>
          let ops := saveIdentity id
          let s := { s with disk := s.disk.runData ops done ending }
          if ops.length ≤ done then some (s.proceed id origin)
          else
            match ending with
            | .stops => some s.exit
            | .fails _ => some (s.unsaved id origin)
      | _ => none

end Step

/-! ## What a step can do -/

section Does

variable (marshalPKCS8PrivateKey : b.x509.PrivateKey → Option Bytes) (s : Lifecycle b.x509)
  (e : LifeEvent b.x509)

def wrote (priv : b.x509.PrivateKey) (certDER caDER : Bytes) (done : Nat) (ending : Ending) :
    Lifecycle b.x509 :=
  { s with
    disk := s.disk.runPki (persistPKI marshalPKCS8PrivateKey priv certDER caDER) done ending }

def stored (id : Identity) (done : Nat) (ending : Ending) : Lifecycle b.x509 :=
  { s with disk := s.disk.runData (saveIdentity id) done ending }

/-- The steps there are, each with what allows it. -/
inductive Does : Lifecycle b.x509 → Prop
  | served {e : Fleet.Event} {server : Fleet} (hserver : s.server.step b e = some server) :
      Does { s with server := server }
  | booted {conf : Conf} {first : ModulePhase b.x509} (he : e = .boot conf)
      (hphase : s.phase = .down)
      (hfirst : first = .ensuring ∧ conf.assetId = "" ∨ first = .starting) :
      Does { s with conf := conf, phase := first, reported := none }
  | crashed : Does s.exit
  | restored {id : Identity} (hphase : s.phase = .ensuring)
      (hload : s.disk.identity = some id) (hpki : s.disk.hasPki = true) :
      Does (s.ready .starting id.assetId)
  | due {id : Identity} (hphase : s.phase = .ensuring)
      (hload : s.disk.identity = some id) (hpki : s.disk.hasPki = true) :
      Does { s with phase := .preparing id }
  | skipped (hphase : s.phase = .ensuring) : Does { s with phase := .starting }
  | ensures {enrollID : String} (hphase : s.phase = .ensuring)
      (hnone : e.Legible → ∀ id, s.disk.identity = some id → s.disk.hasPki = false) :
      Does { s with phase := .enrolling .ensureIdentity enrollID }
  | configured (hphase : s.phase = .starting) (hconf : s.conf.assetId ≠ "") :
      Does (s.ready .running s.conf.assetId)
  | found {id : Identity} (hphase : s.phase = .starting)
      (hload : s.disk.identity = some id) : Does (s.ready .running id.assetId)
  | anonymous (hphase : s.phase = .starting) (hload : e.Legible → s.disk.identity = none) :
      Does (s.ready .running "")
  | enrolls {enrollID : String} (hphase : s.phase = .starting)
      (hload : e.Legible → s.disk.identity = none) :
      Does { s with phase := .enrolling .registerLoop enrollID }
  | asks {caller : Caller} {enrollID : String} {r : Nat} {priv : b.x509.PrivateKey}
      {server : Fleet} {server' : Fleet.Event} (hphase : s.phase = .enrolling caller enrollID)
      (hserver : s.server.step b server' = some server) :
      Does { s with server := server, phase := .asking caller enrollID r priv }
  | posts {enrollID : String} (hphase : s.phase = .enrolling .registerLoop enrollID)
      (haddr : s.conf.bootstrapAddr = "") : Does { s with phase := .posting enrollID }
  | rotates {id : Identity} {r : Nat} {priv : b.x509.PrivateKey} {peer : Peer}
      {csr caDER : Bytes} {server : Fleet} (hphase : s.phase = .preparing id)
      (hca : s.disk.pki.lookup "ca.crt" = some (encodeToMemory "CERTIFICATE" caDER))
      (hserver : s.server.step b (.rotateCertificate r ⟨id.assetId, csr⟩ peer) = some server) :
      Does { s with server := server, phase := .rotating id r priv caDER }
  | answered {now : Int64} {caller : Caller} {enrollID : String} {r : Nat}
      {priv : b.x509.PrivateKey} {resp : RegisterResponse}
      (hphase : s.phase = .asking caller enrollID r priv)
      (hanswer : s.server.registration.answer r = some resp) (hasset : resp.assetId ≠ "")
      (hkey : (marshalPKCS8PrivateKey priv).isSome = true) :
      Does { s with
        phase := .persisting (.registered caller) (newIdentity caller enrollID resp now) priv
          resp.certificateDer resp.caDer }
  | renewed {id : Identity} {r : Nat} {priv : b.x509.PrivateKey} {caDER : Bytes}
      {resp : RotateCertResponse} (hphase : s.phase = .rotating id r priv caDER)
      (hanswer : rotationAnswer s.server r = some resp)
      (hkey : (marshalPKCS8PrivateKey priv).isSome = true) :
      Does { s with
        phase := .persisting .rotated { id with certNotAfter := resp.notAfter } priv
          resp.certificateDer caDER }
  | posted {assetId : String} {now : Int64} {enrollID : String}
      (hphase : s.phase = .posting enrollID) (hasset : assetId ≠ "") :
      Does { s with phase := .saving (.registered .registerLoop) ⟨assetId, enrollID, now, 0⟩ }
  | retries {caller : Caller} {enrollID : String}
      (hphase : (∃ r priv, s.phase = .asking caller enrollID r priv) ∨
        caller = .registerLoop ∧ s.phase = .posting enrollID) :
      Does { s with phase := .enrolling caller enrollID }
  | givesUp {id : Identity}
      (hphase : s.phase = .preparing id ∨ ∃ r priv caDER, s.phase = .rotating id r priv caDER) :
      Does (s.ready .starting id.assetId)
  | persists {done : Nat} {ending : Ending} {origin : Origin} {id : Identity}
      {priv : b.x509.PrivateKey} {certDER caDER : Bytes} {t : Lifecycle b.x509}
      (hphase : s.phase = .persisting origin id priv certDER caDER)
      (hend : (persistPKI marshalPKCS8PrivateKey priv certDER caDER).length ≤ done ∧
          t = { s.wrote marshalPKCS8PrivateKey priv certDER caDER done ending with
            phase := .saving origin id } ∨
        t = (s.wrote marshalPKCS8PrivateKey priv certDER caDER done ending).exit ∨
        t = (s.wrote marshalPKCS8PrivateKey priv certDER caDER done ending).unpersisted id origin) :
      Does t
  | saves {done : Nat} {ending : Ending} {origin : Origin} {id : Identity}
      {t : Lifecycle b.x509} (hphase : s.phase = .saving origin id)
      (hend : (saveIdentity id).length ≤ done ∧ t = (s.stored id done ending).proceed id origin ∨
        t = (s.stored id done ending).exit ∨ t = (s.stored id done ending).unsaved id origin) :
      Does t

variable {marshalPKCS8PrivateKey}

theorem step_does {s t : Lifecycle b.x509} {e : LifeEvent b.x509}
    (h : step marshalPKCS8PrivateKey s e = some t) : Does marshalPKCS8PrivateKey s e t := by
  cases e with
  | server e =>
      obtain ⟨server, hserver, rfl⟩ := Option.map_eq_some_iff.mp h
      exact .served hserver
  | boot conf =>
      simp only [step] at h
      split at h
      next hphase =>
        cases h
        refine .booted rfl hphase ?_
        split
        next hmode => exact Or.inl ⟨rfl, hmode.2.2⟩
        next => exact Or.inr rfl
      next => cases h
  | crash =>
      simp only [step] at h
      split at h
      next => cases h
      next =>
        cases h
        exact .crashed
  | ensure now enrollID failing again =>
      simp only [step] at h
      split at h
      next hphase =>
        split at h
        next id hload hpki =>
          have hfirst : Does marshalPKCS8PrivateKey s (.ensure now enrollID failing again)
              (s.ready .starting id.assetId) :=
            .restored hphase (Disk.identity_of_loadIdentity hload)
              (Disk.hasPki_of_pkiComplete hpki)
          split at h
          next id' hload' hpki' =>
            split at h
            next =>
              cases h
              exact .due hphase (Disk.identity_of_loadIdentity hload')
                (Disk.hasPki_of_pkiComplete hpki')
            next =>
              cases h
              exact hfirst
          next =>
            cases h
            exact hfirst
        next hnone =>
          split at h
          next =>
            cases h
            exact .skipped hphase
          next =>
            cases h
            refine .ensures hphase ?_
            rintro rfl id hid
            rw [Disk.loadIdentity_nil, Disk.pkiComplete_nil] at hnone
            exact Bool.eq_false_iff.mpr fun hpki => hnone id hid hpki
      next => cases h
  | start enrollID failing =>
      simp only [step] at h
      split at h
      next hphase =>
        split at h
        next hconf =>
          cases h
          exact .configured hphase hconf
        next =>
          split at h
          next id hload =>
            cases h
            exact .found hphase (Disk.identity_of_loadIdentity hload)
          next hload =>
            have hnone : (LifeEvent.start enrollID failing : LifeEvent b.x509).Legible →
                s.disk.identity = none := by
              rintro rfl
              rwa [Disk.loadIdentity_nil] at hload
            split at h
            next =>
              cases h
              exact .anonymous hphase hnone
            next =>
              cases h
              exact .enrolls hphase hnone
      next => cases h
  | register r priv materials =>
      simp only [step] at h
      split at h
      next caller enrollID hphase =>
        split at h
        next => cases h
        next =>
          obtain ⟨server, hserver, rfl⟩ := Option.map_eq_some_iff.mp h
          exact .asks hphase hserver
      next => cases h
  | post =>
      simp only [step] at h
      split at h
      next enrollID hphase =>
        split at h
        next haddr =>
          cases h
          exact .posts hphase haddr
        next => cases h
      next => cases h
  | rotate r priv peer caDER =>
      simp only [step] at h
      split at h
      next id hphase =>
        split at h
        next hca =>
          obtain ⟨server, hserver, rfl⟩ := Option.map_eq_some_iff.mp h
          exact .rotates hphase hca hserver
        next => cases h
      next => cases h
  | answer now =>
      simp only [step] at h
      split at h
      next caller enrollID r priv hphase =>
        split at h
        next => cases h
        next resp hanswer =>
          split at h
          next => cases h
          next hgood =>
            cases h
            simp only [not_or] at hgood
            exact .answered hphase hanswer hgood.1 (Option.isSome_iff_ne_none.mpr hgood.2.2.2)
      next id r priv caDER hphase =>
        split at h
        next => cases h
        next resp hanswer =>
          split at h
          next => cases h
          next hgood =>
            cases h
            simp only [not_or] at hgood
            exact .renewed hphase hanswer (Option.isSome_iff_ne_none.mpr hgood.2.2)
      next => cases h
  | posted assetId now =>
      simp only [step] at h
      split at h
      next enrollID hphase =>
        split at h
        next => cases h
        next hasset =>
          cases h
          exact .posted hphase hasset
      next => cases h
  | fails =>
      simp only [step] at h
      split at h
      next caller enrollID r priv hphase =>
        cases h
        exact .retries (Or.inl ⟨r, priv, hphase⟩)
      next enrollID hphase =>
        cases h
        exact .retries (Or.inr ⟨rfl, hphase⟩)
      next id hphase =>
        cases h
        exact .givesUp (Or.inl hphase)
      next id r priv caDER hphase =>
        cases h
        exact .givesUp (Or.inr ⟨r, priv, caDER, hphase⟩)
      next => cases h
  | persist done ending =>
      simp only [step] at h
      split at h
      next origin id priv certDER caDER hphase =>
        split at h
        next hdone =>
          cases h
          exact .persists hphase (Or.inl ⟨hdone, rfl⟩)
        next =>
          split at h
          next =>
            cases h
            exact .persists hphase (Or.inr (Or.inl rfl))
          next =>
            cases h
            exact .persists hphase (Or.inr (Or.inr rfl))
      next => cases h
  | save done ending =>
      simp only [step] at h
      split at h
      next origin id hphase =>
        split at h
        next hdone =>
          cases h
          exact .saves hphase (Or.inl ⟨hdone, rfl⟩)
        next =>
          split at h
          next =>
            cases h
            exact .saves hphase (Or.inr (Or.inl rfl))
          next =>
            cases h
            exact .saves hphase (Or.inr (Or.inr rfl))
      next => cases h

end Does

end Lifecycle

/-! ## Interrupted writes -/

namespace Disk

variable {x : X509} {marshalPKCS8PrivateKey : x.PrivateKey → Option Bytes}

/-- `identity.json` changes with the renaming, from one whole identity to another. -/
theorem identity_save (d : Disk) {id : Identity} (hid : id.assetId ≠ "") (done : Nat)
    (ending : Ending) :
    (d.runData (saveIdentity id) done ending).identity =
      if done < 3 then d.identity else some id := by
  have hlookup := @lookup_interrupted_replaceFile d.data "identity.json" [.mkdirAll] []
    (by simp [Op.Touches]) (by simp) (marshalIdentity id) done ending
  rw [List.append_nil] at hlookup
  have hfile : (interrupted d.data (saveIdentity id) done ending).lookup "identity.json" = _ :=
    hlookup
  unfold identity runData
  dsimp only
  rw [hfile]
  simp only [List.length_cons, List.length_nil]
  split
  next => rfl
  next =>
    rw [Option.bind_some, unmarshalIdentity_marshalIdentity]
    exact Option.filter_some_pos (decide_eq_true hid)

theorem identity_assetId {d : Disk} {id : Identity} (h : d.identity = some id) :
    id.assetId ≠ "" := by
  simpa using (Option.filter_eq_some_iff.mp h).2

theorem length_persistPKI {priv : x.PrivateKey}
    (hkey : (marshalPKCS8PrivateKey priv).isSome = true) (certDER caDER : Bytes) :
    (persistPKI marshalPKCS8PrivateKey priv certDER caDER).length = 7 := by
  obtain ⟨keyDER, hkey⟩ := Option.isSome_iff_exists.mp hkey
  simp [persistPKI, hkey, pkiFiles, replaceFile]

theorem hasPki_iff (d : Disk) :
    d.hasPki = true ↔ (d.pki.lookup "ca.crt").isSome = true ∧
      (d.pki.lookup "agent.crt").isSome = true ∧ (d.pki.lookup "agent.key").isSome = true := by
  simp [hasPki]

/-- No file of the three is moved away. -/
theorem persistPKI_keeps (priv : x.PrivateKey) (certDER caDER : Bytes) {name : String}
    (hname : name = "ca.crt" ∨ name = "agent.crt" ∨ name = "agent.key") :
    ∀ op ∈ persistPKI marshalPKCS8PrivateKey priv certDER caDER,
      ∀ target, op ≠ .rename name target := by
  intro op hop target heq
  subst heq
  cases hkey : marshalPKCS8PrivateKey priv with
  | none => simp [persistPKI, hkey] at hop
  | some keyDER =>
      rcases hname with rfl | rfl | rfl <;> simp [persistPKI, hkey, pkiFiles, replaceFile] at hop

theorem hasPki_persist {d : Disk} (h : d.hasPki = true) (priv : x.PrivateKey)
    (certDER caDER : Bytes) (done : Nat) (ending : Ending) :
    (d.runPki (persistPKI marshalPKCS8PrivateKey priv certDER caDER) done ending).hasPki =
      true := by
  rw [hasPki_iff] at h ⊢
  exact ⟨isSome_interrupted (persistPKI_keeps priv certDER caDER (.inl rfl)) h.1 done ending,
    isSome_interrupted (persistPKI_keeps priv certDER caDER (.inr (.inl rfl))) h.2.1 done ending,
    isSome_interrupted (persistPKI_keeps priv certDER caDER (.inr (.inr rfl))) h.2.2 done ending⟩

end Disk

/-! ## An identity stays -/

/-- All but the end of the certificate. -/
structure Identity.Same (id id' : Identity) : Prop where
  assetId : id'.assetId = id.assetId
  enrollmentRequestId : id'.enrollmentRequestId = id.enrollmentRequestId
  registeredAt : id'.registeredAt = id.registeredAt

def ModulePhase.Renews {x : X509} (id : Identity) : ModulePhase x → Prop
  | .down | .ensuring | .starting | .running => True
  | .preparing id' => id.Same id'
  | .rotating id' _ _ _ => id.Same id'
  | .persisting origin id' _ _ _ => origin = .rotated ∧ id.Same id'
  | .saving origin id' => origin = .rotated ∧ id.Same id'
  | .enrolling _ _ | .asking _ _ _ _ | .posting _ => False

namespace Lifecycle

variable {b : BootstrapServer} {marshalPKCS8PrivateKey : b.x509.PrivateKey → Option Bytes}

structure Stable (id : Identity) (s : Lifecycle b.x509) : Prop where
  identity : ∃ id', s.disk.identity = some id' ∧ id.Same id'
  pki : s.disk.hasPki = true
  phase : s.phase.Renews id
  reported : s.conf.assetId = "" → ∀ assetId, s.reported = some assetId → assetId = id.assetId

variable {id : Identity} {s t : Lifecycle b.x509} {e : LifeEvent b.x509}

theorem Stable.ready {id' : Identity} {phase : ModulePhase b.x509} (h : Stable id s)
    (hsame : id.Same id') (hphase : phase.Renews id) : Stable id (s.ready phase id'.assetId) where
  identity := h.identity
  pki := h.pki
  phase := hphase
  reported := by
    rintro - assetId ⟨⟩
    exact hsame.assetId

theorem Stable.exit (h : Stable id s) : Stable id s.exit where
  identity := h.identity
  pki := h.pki
  phase := trivial
  reported := by rintro - assetId ⟨⟩

theorem Stable.moved {phase : ModulePhase b.x509} (h : Stable id s) (hphase : phase.Renews id) :
    Stable id { s with phase := phase } :=
  ⟨h.identity, h.pki, hphase, h.reported⟩

theorem Stable.loaded {id' : Identity} (h : Stable id s) (hload : s.disk.identity = some id') :
    id.Same id' := by
  obtain ⟨id'', hload', hsame⟩ := h.identity
  rw [hload] at hload'
  cases hload'
  exact hsame

theorem Stable.renews {phase : ModulePhase b.x509} (h : Stable id s) (hphase : s.phase = phase) :
    phase.Renews id :=
  hphase ▸ h.phase

/-- Writing the certificate again leaves all of its files. -/
theorem Stable.persist (h : Stable id s) (priv : b.x509.PrivateKey) (certDER caDER : Bytes)
    (done : Nat) (ending : Ending) :
    Stable id (s.wrote marshalPKCS8PrivateKey priv certDER caDER done ending) :=
  ⟨h.identity, Disk.hasPki_persist h.pki priv certDER caDER done ending, h.phase, h.reported⟩

theorem Stable.save {id' : Identity} (h : Stable id s) (hsame : id.Same id') (done : Nat)
    (ending : Ending) :
    Stable id (s.stored id' done ending) := by
  obtain ⟨old, hload, hold⟩ := h.identity
  have hasset : id'.assetId ≠ "" := by
    rw [hsame.assetId, ← hold.assetId]
    exact Disk.identity_assetId hload
  refine ⟨?_, h.pki, h.phase, h.reported⟩
  rw [stored, s.disk.identity_save hasset done ending]
  split
  next => exact h.identity
  next => exact ⟨id', rfl, hsame⟩

theorem Stable.step (h : Stable id s) (hreads : e.Legible)
    (he : step marshalPKCS8PrivateKey s e = some t) : Stable id t := by
  obtain ⟨kept, hkept, hkeptSame⟩ := h.identity
  cases step_does he with
  | served hserver => exact ⟨h.identity, h.pki, h.phase, h.reported⟩
  | booted hboot hphase hfirst =>
      refine ⟨h.identity, h.pki, ?_, by rintro - assetId ⟨⟩⟩
      rcases hfirst with ⟨rfl, -⟩ | rfl
      · trivial
      · trivial
  | crashed => exact h.exit
  | restored hphase hload hpki => exact h.ready (h.loaded hload) trivial
  | due hphase hload hpki => exact h.moved (h.loaded hload)
  | skipped hphase => exact h.moved trivial
  | ensures hphase hnone => exact absurd h.pki (Bool.eq_false_iff.mp (hnone hreads kept hkept))
  | configured hphase hconf =>
      exact ⟨h.identity, h.pki, trivial, fun hempty => absurd hempty hconf⟩
  | found hphase hload => exact h.ready (h.loaded hload) trivial
  | anonymous hphase hload => cases (hload hreads).symm.trans hkept
  | enrolls hphase hload => cases (hload hreads).symm.trans hkept
  | rotates hphase hca hserver =>
      have hsame : id.Same _ := h.renews hphase
      exact ⟨h.identity, h.pki, hsame, h.reported⟩
  | renewed hphase hanswer hkey =>
      have hsame : id.Same _ := h.renews hphase
      exact h.moved ⟨rfl, hsame.assetId, hsame.enrollmentRequestId, hsame.registeredAt⟩
  | givesUp hphase =>
      rcases hphase with hphase | ⟨r, priv, caDER, hphase⟩
      · exact h.ready (h.renews hphase) trivial
      · exact h.ready (h.renews hphase) trivial
  | @persists done ending origin id' priv certDER caDER t hphase hend =>
      obtain ⟨rfl, hsame⟩ := h.renews hphase
      have hstored : Stable id (s.wrote marshalPKCS8PrivateKey priv certDER caDER done ending) :=
        h.persist priv certDER caDER done ending
      rcases hend with ⟨-, rfl⟩ | rfl | rfl
      · exact hstored.moved ⟨rfl, hsame⟩
      · exact hstored.exit
      · exact hstored.ready hsame trivial
  | @saves done ending origin id' t hphase hend =>
      obtain ⟨rfl, hsame⟩ := h.renews hphase
      have hstored := h.save hsame done ending
      rcases hend with ⟨-, rfl⟩ | rfl | rfl
      · exact hstored.ready hsame trivial
      · exact hstored.exit
      · exact hstored.ready hsame trivial
  | asks hphase hserver => exact (h.renews hphase).elim
  | posts hphase haddr => exact (h.renews hphase).elim
  | answered hphase hanswer hasset hkey => exact (h.renews hphase).elim
  | posted hphase hasset => exact (h.renews hphase).elim
  | retries hphase =>
      rcases hphase with ⟨r, priv, hphase⟩ | ⟨-, hphase⟩
      · exact (h.renews hphase).elim
      · exact (h.renews hphase).elim

/-- Between two processes there is an identity on disk and all three files of the
certificate.  Then, whatever configurations the agent is started with, wherever its processes
stop, whichever writes fail and whatever the server answers, as long as the reads at the start
of a process do not fail, there is always an identity on disk that differs in the end of the
certificate at most, and the three files, and every process without a configured asset id
reports this one. -/
theorem identity_stays (hdown : s.phase = .down) (hquiet : s.reported = none)
    (hload : s.disk.identity = some id) (hpki : s.disk.hasPki = true)
    (hrun : Reaches (Fires (step marshalPKCS8PrivateKey) fun _ e => e.Legible) s t) :
    (∃ id', t.disk.identity = some id' ∧ id.Same id') ∧ t.disk.hasPki = true ∧
      (t.conf.assetId = "" → ∀ assetId, t.reported = some assetId → assetId = id.assetId) := by
  have hstart : Stable id s := by
    refine ⟨⟨id, hload, rfl, rfl, rfl⟩, hpki, by rw [hdown]; trivial, ?_⟩
    intro _ assetId hreported
    cases hquiet.symm.trans hreported
  have hend : Stable id t := by
    refine invariant (Stable id) (fun u v hu hstep => ?_) hstart hrun
    obtain ⟨e, hreads, he⟩ := hstep
    exact hu.step hreads he
  exact ⟨hend.identity, hend.pki, hend.reported⟩

/-! ## A process that finds its identity -/

def sampleIdentity : Identity := ⟨"asset-01", "e1", 1, 4000000000⟩

def sampleDisk : Disk where
  data := (∅ : Dir).insert "identity.json" (marshalIdentity sampleIdentity)
  pki := (((∅ : Dir).insert "agent.key" [1]).insert "agent.crt" [1]).insert "ca.crt" [9]

def grpcConf : Conf := ⟨"", "token", "bootstrap:1", 0, .grpc, "gateway:1", "", ""⟩

theorem identity_sampleDisk : sampleDisk.identity = some sampleIdentity := by
  decide +kernel

def atRest : Lifecycle byteServer.x509 := ⟨.start, sampleDisk, grpcConf, .down, none⟩

/-- A rotation that is due and fails, a process that is killed, and one in which
`MaybeRotate` cannot read the certificate. -/
def restarts : List (LifeEvent byteServer.x509) :=
  [.boot grpcConf, .ensure 4000000000000000000 "e2" [] [], .fails, .start "e3" [], .crash,
    .boot grpcConf, .ensure 4000000000000000000 "e4" [] ["agent.crt"], .start "e5" []]

theorem identity_stays_restart :
    ∃ t : Lifecycle byteServer.x509,
      Reaches (Fires (step marshalByte) fun _ e => e.Legible) atRest t ∧
      t.reported = some "asset-01" ∧
      (∃ id', t.disk.identity = some id' ∧ sampleIdentity.Same id') ∧
      t.disk.hasPki = true := by
  have hreads : ∀ e ∈ restarts, e.Legible := by decide
  obtain ⟨t, hrun, hreported⟩ := reaches_of_any (step (b := byteServer) marshalByte) restarts
    (fun t => t.reported = some "asset-01")
    (permitted_of_forall (fun e he _ => hreads e he) atRest) (by decide +kernel)
  have hpki : sampleDisk.hasPki = true := by decide +kernel
  have hdown : atRest.phase = .down := rfl
  have hstays := identity_stays hdown rfl identity_sampleDisk hpki hrun
  exact ⟨t, hrun, hreported, hstays.1, hstays.2.1⟩

-- one failing read is enough for a new registration
example : (play (step (b := byteServer) marshalByte) atRest
    [.boot grpcConf, .ensure 0 "e2" ["identity.json"] []]).any (fun s =>
      match s.phase with
      | .enrolling .ensureIdentity enrollID => enrollID = "e2"
      | _ => false) = true := by
  decide +kernel

end Lifecycle

end TomAgent.Register
