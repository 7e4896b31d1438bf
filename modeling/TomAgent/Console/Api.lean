import TomAgent.Core.Execution
import TomAgent.Iam.Store

/-!
# The console

A handler reads its request, makes its store calls one after the other and answers.  The
handlers of different requests interleave at these calls.  A handler that runs is described by
the call it makes next; `Stage.resume` is the text of the handler between that call and the
one after it.
-/

namespace TomAgent.Console

open Execution Iam

/-! ## Requests -/

structure UserBody where
  username : String
  password : Text
  role : String
deriving Repr, DecidableEq

structure LoginBody where
  username : String
  password : Text
  totpCode : Text
deriving Repr, DecidableEq

inductive Proxy where
  | submit
  | cancel
  | result
  | assets
deriving Repr, DecidableEq

structure Query where
  rawQuery : String
  assetId : String
  cmdId : String
  contentType : String
  body : Bytes
  /-- Whether `http.NewRequest` takes the address. -/
  valid : Bool
deriving Repr, DecidableEq

/-- The endpoints behind `auth`.  A body or a parameter is what decoding made of it. -/
inductive Guarded where
  | logout
  | totpEnroll
  | totpConfirm (code : Option Text)
  | whoami
  | proxy (endpoint : Proxy) (query : Query)
  | listSessions
  | revokeSession (id : Text)
  | listAudit (limit : Text)
deriving Repr, DecidableEq

inductive Route where
  | createUser (body : Option UserBody)
  | login (body : Option LoginBody)
  | guarded (endpoint : Guarded)
deriving Repr, DecidableEq

structure Caller where
  method : String
  path : String
  authorization : Text
  remoteAddr : String
deriving Repr, DecidableEq

structure Request where
  caller : Caller
  route : Route
deriving Repr, DecidableEq

namespace Proxy

def path : Proxy → String
  | submit => "/admin/command"
  | cancel => "/admin/cancel"
  | result => "/admin/result"
  | assets => "/admin/sessions"

/-- Reading endpoints have no name in the audit. -/
def action : Proxy → String
  | submit => "command.submit"
  | cancel => "command.cancel"
  | result => ""
  | assets => ""

def perm : Proxy → Perm
  | submit => .commandSubmit
  | cancel => .commandCancel
  | result => .commandResult
  | assets => .assetView

end Proxy

namespace Guarded

def action : Guarded → String
  | logout => "auth.logout"
  | totpEnroll => "auth.totp_enroll"
  | totpConfirm _ => "auth.totp_confirm"
  | whoami => ""
  | proxy endpoint _ => endpoint.action
  | listSessions => "session.list"
  | revokeSession _ => "session.revoke"
  | listAudit _ => "audit.list"

/-- The first argument of `auth`; `none` asks for a login only. -/
def perm : Guarded → Option Perm
  | logout => none
  | totpEnroll => none
  | totpConfirm _ => none
  | whoami => none
  | proxy endpoint _ => some endpoint.perm
  | listSessions => some .admin
  | revokeSession _ => some .admin
  | listAudit _ => some .admin

end Guarded

/-! ## Answers -/

inductive Body where
  | error (text : String)
  | forbidden (need : Perm)
  | user (username : String) (role : Role)
  | login (token : Text) (expires : Time) (role : Role)
  | enrolled (secret otpauthUrl : Text)
  | confirmed
  | identity (username : String) (role : Role) (permissions : List Perm)
  | sessions (rows : List SessionRow)
  | entries (rows : List AuditEntry)
  | upstream (contentType : String) (bytes : Bytes)
  | empty
deriving Repr, DecidableEq

structure Response where
  status : Nat
  body : Body
deriving Repr, DecidableEq

/-- How a handler ends: what it reports to the audit and what it answers. -/
structure Exit where
  audit : List AuditEntry
  response : Response
deriving Repr, DecidableEq

structure SessionCtx where
  username : String
  role : Role
deriving Repr, DecidableEq

inductive Purpose where
  | createUser (body : UserBody)
  | guarded (endpoint : Guarded)
deriving Repr, DecidableEq

/-- The call a handler makes next, with the variables it still needs. -/
inductive Stage where
  | userCount (body : UserBody)
  | findSession (purpose : Purpose) (tokenHash : Text)
  | findSessionUser (purpose : Purpose) (username : String)
  | createUser (body : UserBody) (role : Role) (actor : String) (hash : Text)
  | findLogin (body : LoginBody)
  | createSession (body : LoginBody) (u : UserInfo) (token : Text)
  | setTotpSecret (sess : SessionCtx) (secret : Text)
  | findTotp (sess : SessionCtx) (code : Text)
  | confirmTotp (sess : SessionCtx)
  | deleteSession (sess : SessionCtx) (tokenHash : Text)
  | listSessions
  | revokeSession (sess : SessionCtx) (idText : Text) (id : Int)
  | listAudit (limit : Nat)
  | forward (sess : SessionCtx) (endpoint : Proxy) (query : Query)
deriving Repr, DecidableEq

inductive Next where
  | exit (e : Exit)
  | call (stage : Stage)
deriving Repr, DecidableEq

def writeErr (status : Nat) (text : String) : Response := ⟨status, .error text⟩

def internal : Response := writeErr 500 "internal"

def Next.silent (response : Response) : Next := .exit ⟨[], response⟩

def Next.audited (who : Caller) (actor action target : String) (result : AuditResult)
    (detail : Option Detail) (response : Response) : Next :=
  .exit ⟨[⟨actor, action, target, result, who.remoteAddr, detail⟩], response⟩

/-! ## Handlers -/

/-- The clock and the random source, as a handler finds them. -/
structure Env where
  now : Time
  random : Random

/-- The default of `-session-ttl`, eight hours. -/
def sessionTtl : Time := 8 * 3600 * 1000000000

inductive Upstream where
  | unreachable
  /-- The answer breaks off after these bytes of its body. -/
  | broken (status : Nat) (contentType : String) (body : Bytes)
  /-- The answer with its whole body. -/
  | answered (status : Nat) (contentType : String) (body : Bytes)
deriving Repr, DecidableEq

/-- The bytes that `proxy` reads of an answer; it does not look for more. -/
def proxyLimit : Nat := 16 * 2 ^ 20

section
variable (c : Primitives) (who : Caller) (env : Env)

/-- The token behind `Bearer `, if there is one. -/
def bearer (authorization : Text) : Option Text :=
  match authorization.dropPrefix? "Bearer ".toList with
  | none => none
  | some [] => none
  | some token => some token

def Purpose.action : Purpose → String
  | createUser _ => "user.create"
  | guarded endpoint => endpoint.action

/-- `authenticate` answers every failure with 401. -/
def denyToken (purpose : Purpose) (text : String) : Next :=
  let action := if purpose.action = "" then "auth.token" else purpose.action
  .audited who "anonymous" action (who.method ++ " " ++ who.path) .denied (some (.reason text))
    (writeErr 401 text)

/-- `authenticate`, up to its first store call. -/
def authenticate (purpose : Purpose) : Next :=
  match bearer who.authorization with
  | none => denyToken who purpose "missing_token"
  | some token => .call (.findSession purpose (c.tokenHash token))

def createUserAs (body : UserBody) (actor : String) : Next :=
  if body.username = "" then .silent (writeErr 400 "username_required")
  else if (JsonText.utf8 body.password).length < 8 then .silent (writeErr 400 "password_too_short")
  else
    match Role.ofName body.role with
    | none => .silent (writeErr 400 "invalid_role")
    | some role =>
        match c.hashPassword body.password env.random with
        | none => .audited who actor "user.create" body.username .error none internal
        | some hash => .call (.createUser body role actor hash)

/-- `?limit=N`, fifty by default and five hundred at most. -/
def auditLimit (limit : Text) : Nat :=
  let n := match Decimal.atoi limit with
    | some n => if 0 < n then n.toNat else 50
    | none => 50
  min n 500

def otpIssuer : String := "aiops"

def Guarded.enter (sess : SessionCtx) : Guarded → Next
  | logout =>
      -- the token is there: `authenticate` has read it
      .call (.deleteSession sess (c.tokenHash ((bearer who.authorization).getD [])))
  | totpEnroll =>
      match generateSecret env.random with
      | none => .audited who sess.username "auth.totp_enroll" "" .error none internal
      | some secret => .call (.setTotpSecret sess secret)
  | totpConfirm none => .silent (writeErr 400 "bad_json")
  | totpConfirm (some code) => .call (.findTotp sess code)
  | whoami => .silent ⟨200, .identity sess.username sess.role (permissionsOf sess.role)⟩
  | proxy endpoint query =>
      if query.valid then .call (.forward sess endpoint query) else .silent internal
  | listSessions => .call .listSessions
  | revokeSession idText =>
      match Decimal.atoi idText with
      | none => .silent (writeErr 400 "bad_id")
      | some id =>
          if id ≤ 0 then .silent (writeErr 400 "bad_id")
          else .call (.revokeSession sess idText id)
  | listAudit limit => .call (.listAudit (auditLimit limit))

def Guarded.admitted (sess : SessionCtx) (endpoint : Guarded) : Next :=
  match endpoint.perm with
  | none => endpoint.enter c who env sess
  | some perm =>
      if hasPermission sess.role perm then endpoint.enter c who env sess
      else
        let action := if endpoint.action = "" then "authz" else endpoint.action
        .audited who sess.username action (who.method ++ " " ++ who.path) .denied
          (some (.need perm)) ⟨403, .forbidden perm⟩

def Purpose.admitted (sess : SessionCtx) : Purpose → Next
  | createUser body =>
      if hasPermission sess.role .userManage then createUserAs c who env body sess.username
      else
        .audited who sess.username "user.create" body.username .denied (some (.need .userManage))
          ⟨403, .forbidden .userManage⟩
  | guarded endpoint => endpoint.admitted c who env sess

def denyLogin (body : LoginBody) (text : String) : Next :=
  let actor := if body.username = "" then "anonymous" else body.username
  .audited who actor "auth.login" "" .denied (some (.reason text)) (writeErr 401 text)

def failLogin (body : LoginBody) (detail : Option Detail) : Next :=
  let actor := if body.username = "" then "anonymous" else body.username
  .audited who actor "auth.login" "" .error detail internal

/-- The second factor, asked for once it is confirmed. -/
def secondFactor (body : LoginBody) (u : UserInfo) : Except String Unit :=
  if u.totpConfirmed then
    if body.totpCode = [] then .error "totp_required"
    else if c.verify u.totpSecret body.totpCode env.now then .ok ()
    else .error "totp_invalid"
  else .ok ()

def checkLogin (body : LoginBody) : Except StoreError UserInfo → Next
  | .error .notFound => denyLogin who body "invalid_credentials"
  | .error _ => failLogin who body (some (.reason "store"))
  | .ok u =>
      if ¬ c.verifyPassword body.password u.passwordHash then
        denyLogin who body "invalid_credentials"
      else if u.status ≠ .active then denyLogin who body "user_disabled"
      else
        match secondFactor c env body u with
        | .error text => denyLogin who body text
        | .ok () =>
            match newToken env.random with
            | none => failLogin who body none
            | some token => .call (.createSession body u token)

/-- Only the endpoints with a name report what came of a forwarded request. -/
def reportProxy (sess : SessionCtx) (endpoint : Proxy) (query : Query) (result : AuditResult)
    (detail : Detail) (response : Response) : Next :=
  let target := if query.assetId = "" then query.cmdId else query.assetId
  if endpoint.action = "" then .silent response
  else .audited who sess.username endpoint.action target result (some detail) response

def passOn (sess : SessionCtx) (endpoint : Proxy) (query : Query) (status : Nat)
    (contentType : String) (body : Bytes) : Next :=
  reportProxy who sess endpoint query (if 400 ≤ status then .error else .ok)
    (.upstreamStatus status) ⟨status, .upstream contentType (body.take proxyLimit)⟩

def proxied (sess : SessionCtx) (endpoint : Proxy) (query : Query) : Upstream → Next
  | .unreachable =>
      reportProxy who sess endpoint query .error (.reason "connector_unreachable")
        (writeErr 502 "connector_unreachable")
  | .broken status contentType body =>
      -- at the limit the reader stops and does not come to the break
      if body.length < proxyLimit then
        reportProxy who sess endpoint query .error (.reason "connector_read_failed")
          (writeErr 502 "connector_read_failed")
      else passOn who sess endpoint query status contentType body
  | .answered status contentType body => passOn who sess endpoint query status contentType body

def Route.enter : Route → Next
  | createUser none => .silent (writeErr 400 "bad_json")
  | createUser (some body) => .call (.userCount body)
  | login none => .silent (writeErr 400 "bad_json")
  | login (some body) => .call (.findLogin body)
  | guarded endpoint => authenticate c who (.guarded endpoint)

end

/-! ## Store calls -/

/-- A statement may run, run without its caller learning of it, or not run. -/
inductive Fate where
  | done
  | lost
  | refused
deriving Repr, DecidableEq

section
variable (c : Primitives) (ttl : Time) (who : Caller) (env : Env) (fate : Fate) (t : Tables)

def Stage.statement : Stage → Except StoreError Tables
  | createUser body role _ hash => t.createUser body.username hash role
  | createSession body _ token =>
      t.createSession body.username (c.tokenHash token) env.now (env.now + ttl)
  | setTotpSecret sess secret => .ok (t.setTotpSecret sess.username secret)
  | confirmTotp sess => .ok (t.confirmTotp sess.username)
  | deleteSession _ tokenHash => .ok (t.deleteSession tokenHash)
  | revokeSession _ _ id => t.revokeSession id
  | _ => .ok t

def Stage.leaves (stage : Stage) : Tables :=
  match fate, stage.statement c ttl env t with
  | .refused, _ => t
  | _, .error _ => t
  | _, .ok t' => t'

def Fate.told {α : Type} (fate : Fate) (result : Except StoreError α) : Except StoreError α :=
  match fate with
  | .done => result
  | _ => .error .failed

def createdUser (body : UserBody) (role : Role) (actor : String) :
    Except StoreError Unit → Next
  | .ok () =>
      .audited who actor "user.create" body.username .ok (some (.role role))
        ⟨201, .user body.username role⟩
  | .error .duplicate =>
      .audited who actor "user.create" body.username .error (some (.reason "user_exists"))
        (writeErr 409 "user_exists")
  | .error _ => .audited who actor "user.create" body.username .error none internal

def revokedSession (sess : SessionCtx) (idText : Text) : Except StoreError Unit → Next
  | .ok () => .audited who sess.username "session.revoke" (String.ofList idText) .ok none ⟨204, .empty⟩
  | .error .notFound =>
      .audited who sess.username "session.revoke" (String.ofList idText) .error (some (.reason "not_found"))
        (writeErr 404 "session_not_found")
  | .error _ => .audited who sess.username "session.revoke" (String.ofList idText) .error none internal

def Stage.resume (stage : Stage) : Next :=
  let written := fate.told ((stage.statement c ttl env t).map fun _ => ())
  match stage with
  | .userCount body =>
      match fate.told (.ok t.userCount) with
      | .error _ => .audited who "anonymous" "user.create" body.username .error none internal
      | .ok 0 =>
          -- nobody could ever create a user if the first one were not an administrator
          if body.role ≠ Role.admin.name then
            .audited who "anonymous" "user.create" body.username .denied
              (some (.reason "first_user_must_be_admin")) (writeErr 400 "first_user_must_be_admin")
          else createUserAs c who env body "anonymous"
      | .ok (_ + 1) => authenticate c who (.createUser body)
  | .findSession purpose tokenHash =>
      match fate.told (t.findSession tokenHash) with
      | .error _ => denyToken who purpose "invalid_token"
      | .ok (username, expires) =>
          if expires < env.now then denyToken who purpose "session_expired"
          else .call (.findSessionUser purpose username)
  | .findSessionUser purpose username =>
      match fate.told (t.findUser username) with
      | .error _ => denyToken who purpose "invalid_token"
      | .ok u =>
          if u.status ≠ .active then denyToken who purpose "invalid_token"
          else purpose.admitted c who env ⟨username, u.role⟩
  | .createUser body role actor _ => createdUser who body role actor written
  | .findLogin body => checkLogin c who env body (fate.told (t.findUser body.username))
  | .createSession body u token =>
      match written with
      | .error _ => failLogin who body none
      | .ok () =>
          let actor := if body.username = "" then "anonymous" else body.username
          .audited who actor "auth.login" "" .ok none ⟨200, .login token (env.now + ttl) u.role⟩
  | .setTotpSecret sess secret =>
      match written with
      | .error _ => .audited who sess.username "auth.totp_enroll" "" .error none internal
      | .ok () =>
          .audited who sess.username "auth.totp_enroll" "" .ok none
            ⟨200, .enrolled secret (otpauthUrl otpIssuer sess.username secret)⟩
  | .findTotp sess code =>
      match fate.told (t.findUser sess.username) with
      | .error _ => .silent (writeErr 400 "totp_not_enrolled")
      | .ok u =>
          if u.totpSecret = [] then .silent (writeErr 400 "totp_not_enrolled")
          else if c.verify u.totpSecret code env.now then .call (.confirmTotp sess)
          else
            .audited who sess.username "auth.totp_confirm" "" .denied
              (some (.reason "totp_invalid")) (writeErr 400 "totp_invalid")
  | .confirmTotp sess =>
      match written with
      | .error _ => .audited who sess.username "auth.totp_confirm" "" .error none internal
      | .ok () =>
          .audited who sess.username "auth.totp_confirm" "" .ok none ⟨200, .confirmed⟩
  | .deleteSession sess _ =>
      match written with
      | .error _ => .audited who sess.username "auth.logout" "" .error none internal
      | .ok () => .audited who sess.username "auth.logout" "" .ok none ⟨204, .empty⟩
  | .listSessions =>
      match fate.told (.ok (t.listSessions env.now)) with
      | .error _ => .silent internal
      | .ok rows => .silent ⟨200, .sessions rows⟩
  | .revokeSession sess idText _ => revokedSession who sess idText written
  | .listAudit limit =>
      match fate.told (.ok (t.listAudit limit)) with
      | .error _ => .silent internal
      | .ok rows => .silent ⟨200, .entries rows⟩
  -- the connector is no store; `proxied` goes on from here
  | .forward sess endpoint query => .call (.forward sess endpoint query)

end

/-! ## The server -/

structure Handler where
  who : Caller
  stage : Stage
deriving Repr, DecidableEq

structure Server where
  tables : Tables
  handlers : AList (fun _ : Nat => Handler)
  /-- Entries whose writers have not run yet. -/
  auditing : List AuditEntry
  responses : List (Nat × Response)
deriving DecidableEq

namespace Server

def start (tables : Tables) : Server := ⟨tables, ∅, [], []⟩

def advance (s : Server) (h : Nat) (who : Caller) : Next → Server
  | .call stage => { s with handlers := s.handlers.insert h ⟨who, stage⟩ }
  | .exit e =>
      { s with
        handlers := s.handlers.erase h
        auditing := s.auditing ++ e.audit
        responses := s.responses ++ [(h, e.response)] }

inductive Event where
  /-- A request arrives and is handled under a number not in use. -/
  | receive (h : Nat) (request : Request)
  /-- A handler makes its next store call. -/
  | perform (h : Nat) (env : Env) (fate : Fate)
  /-- A forwarded request comes back. -/
  | reply (h : Nat) (upstream : Upstream)
  /-- The writer of an audit entry runs. -/
  | record (i : Nat) (stored : Bool)

variable (c : Primitives) (ttl : Time)

def step (s : Server) : Event → Option Server
  | .receive h request =>
      match s.handlers.lookup h with
      | some _ => none
      | none => some (s.advance h request.caller (request.route.enter c request.caller))
  | .perform h env fate =>
      match s.handlers.lookup h with
      | none => none
      | some ⟨_, .forward _ _ _⟩ => none
      | some ⟨who, stage⟩ =>
          let s' := { s with tables := stage.leaves c ttl env fate s.tables }
          some (s'.advance h who (stage.resume c ttl who env fate s.tables))
  | .reply h upstream =>
      match s.handlers.lookup h with
      | some ⟨who, .forward sess endpoint query⟩ =>
          some (s.advance h who (proxied who sess endpoint query upstream))
      | _ => none
  | .record i stored =>
      match s.auditing[i]? with
      | none => none
      | some entry =>
          some { s with
            auditing := s.auditing.eraseIdx i
            tables := if stored then s.tables.recordAudit entry else s.tables }

/-! ## What a step does -/

inductive Moves (s : Server) : Event → Server → Prop
  | receive {h : Nat} {request : Request} (hfree : s.handlers.lookup h = none) :
      Moves s (.receive h request)
        (s.advance h request.caller (request.route.enter c request.caller))
  | perform {h : Nat} {env : Env} {fate : Fate} {who : Caller} {stage : Stage}
      (hrun : s.handlers.lookup h = some ⟨who, stage⟩) :
      Moves s (.perform h env fate)
        ({ s with tables := stage.leaves c ttl env fate s.tables }.advance h who
          (stage.resume c ttl who env fate s.tables))
  | reply {h : Nat} {upstream : Upstream} {who : Caller} {sess : SessionCtx} {endpoint : Proxy}
      {query : Query} (hrun : s.handlers.lookup h = some ⟨who, .forward sess endpoint query⟩) :
      Moves s (.reply h upstream) (s.advance h who (proxied who sess endpoint query upstream))
  | record {i : Nat} {stored : Bool} {entry : AuditEntry} (hwait : s.auditing[i]? = some entry) :
      Moves s (.record i stored)
        { s with
          auditing := s.auditing.eraseIdx i
          tables := if stored then s.tables.recordAudit entry else s.tables }

theorem step_moves {s s' : Server} {e : Event} (h : step c ttl s e = some s') :
    Moves c ttl s e s' := by
  cases e with
  | receive h request =>
      simp only [step] at h
      split at h
      · cases h
      · next hfree =>
          cases h
          exact Moves.receive hfree
  | perform h env fate =>
      simp only [step] at h
      split at h
      · cases h
      · cases h
      · next hrun =>
          cases h
          exact Moves.perform hrun
  | reply h upstream =>
      simp only [step] at h
      split at h
      · next hrun =>
          cases h
          exact Moves.reply hrun
      · cases h
  | record i stored =>
      simp only [step] at h
      split at h
      · cases h
      · next hwait =>
          cases h
          exact Moves.record hwait

theorem lookup_advance {s : Server} {h k : Nat} {who : Caller} {next : Next} {handler : Handler}
    (hk : (s.advance h who next).handlers.lookup k = some handler) :
    k = h ∧ handler.who = who ∧ next = .call handler.stage ∨
      k ≠ h ∧ s.handlers.lookup k = some handler := by
  cases next with
  | exit e => exact Or.inr (Table.lookup_erase_cases hk)
  | call stage =>
      rcases Table.lookup_insert_cases hk with ⟨heq, rfl⟩ | hother
      · exact Or.inl ⟨heq, rfl, rfl⟩
      · exact Or.inr hother

@[simp]
theorem advance_tables (s : Server) (h : Nat) (who : Caller) (next : Next) :
    (s.advance h who next).tables = s.tables := by
  cases next <;> rfl

end Server

end TomAgent.Console
