import TomAgent.Core.Table
import TomAgent.Iam.Credentials

/-!
# Operators, sessions and the audit table

Every function of the store is one statement.  Here a statement is a function on the tables;
whether it runs, and whether its caller learns of it, is decided by the machine that issues it.
-/

namespace TomAgent.Iam

/-! ## Roles -/

inductive Role where
  | admin
  | operator
  | auditor
deriving Repr, DecidableEq

def Role.name : Role → String
  | .admin => "admin"
  | .operator => "operator"
  | .auditor => "auditor"

def Role.all : List Role := [.admin, .operator, .auditor]

/-- `ValidRole`, with the role it found. -/
def Role.ofName (name : String) : Option Role := Role.all.find? fun role => role.name = name

inductive Perm where
  | userManage
  | commandSubmit
  | commandCancel
  | commandResult
  | assetView
  /-- The wildcard, held by administrators only. -/
  | admin
deriving Repr, DecidableEq

def Perm.name : Perm → String
  | .userManage => "user.manage"
  | .commandSubmit => "command.submit"
  | .commandCancel => "command.cancel"
  | .commandResult => "command.result"
  | .assetView => "asset.view"
  | .admin => "*"

/-- `rolePerms`; the order is that of a map, so it means nothing. -/
def permissionsOf : Role → List Perm
  | .admin => [.admin]
  | .operator => [.commandSubmit, .commandCancel, .commandResult, .assetView]
  | .auditor => [.commandResult, .assetView]

def hasPermission (role : Role) (perm : Perm) : Bool :=
  decide (Perm.admin ∈ permissionsOf role) || decide (perm ∈ permissionsOf role)

/-! ## Tables -/

inductive Status where
  | active
  | disabled
deriving Repr, DecidableEq

structure UserRow where
  passwordHash : Text
  role : Role
  totpSecret : Option Text := none
  totpConfirmed : Bool := false
  status : Status := .active
deriving Repr, DecidableEq

/-- What `FindUser` returns: a missing secret reads as the empty text. -/
structure UserInfo where
  passwordHash : Text
  role : Role
  totpSecret : Text
  totpConfirmed : Bool
  status : Status
deriving Repr, DecidableEq

def UserRow.info (row : UserRow) : UserInfo :=
  ⟨row.passwordHash, row.role, row.totpSecret.getD [], row.totpConfirmed, row.status⟩

/-- A row of `iam.session`, which is keyed by the hash of the token. -/
structure SessionRow where
  sessionId : Nat
  username : String
  createdAt : Time
  expiresAt : Time
deriving Repr, DecidableEq

inductive AuditResult where
  | ok
  | denied
  | error
deriving Repr, DecidableEq

/-- The one entry of the map that `audit` is given. -/
inductive Detail where
  | reason (text : String)
  | need (perm : Perm)
  | role (role : Role)
  | upstreamStatus (code : Nat)
deriving Repr, DecidableEq

structure AuditEntry where
  actor : String
  action : String
  target : String
  result : AuditResult
  clientIP : String
  detail : Option Detail
deriving Repr, DecidableEq

structure Tables where
  users : AList (fun _ : String => UserRow)
  sessions : AList (fun _ : Text => SessionRow)
  /-- The value the sequence of `session_id` gives next. -/
  nextSession : Nat
  /-- Oldest first. -/
  audit : List AuditEntry
deriving DecidableEq

def Tables.empty : Tables := ⟨∅, ∅, 1, []⟩

inductive StoreError where
  | notFound
  | duplicate
  | failed
deriving Repr, DecidableEq

namespace Tables

variable (t : Tables)

/-! ## Operators -/

def createUser (username : String) (passwordHash : Text) (role : Role) : Except StoreError Tables :=
  match t.users.lookup username with
  | some _ => .error .duplicate
  | none =>
      .ok { t with
        users := t.users.insert username { passwordHash := passwordHash, role := role } }

def findUser (username : String) : Except StoreError UserInfo :=
  match t.users.lookup username with
  | none => .error .notFound
  | some row => .ok row.info

def updateUser (username : String) (change : UserRow → UserRow) : Tables :=
  match t.users.lookup username with
  | none => t
  | some row => { t with users := t.users.insert username (change row) }

def setTotpSecret (username : String) (secret : Text) : Tables :=
  t.updateUser username fun row => { row with totpSecret := some secret, totpConfirmed := false }

/-- A row without a secret does not match the statement. -/
def confirmTotp (username : String) : Tables :=
  t.updateUser username fun row =>
    { row with totpConfirmed := row.totpConfirmed || row.totpSecret.isSome }

def userCount : Nat := t.users.entries.length

/-! ## Sessions -/

def createSession (username : String) (tokenHash : Text) (now expires : Time) :
    Except StoreError Tables :=
  match t.sessions.lookup tokenHash with
  | some _ => .error .failed
  | none =>
      .ok { t with
        sessions := t.sessions.insert tokenHash ⟨t.nextSession, username, now, expires⟩
        nextSession := t.nextSession + 1 }

def findSession (tokenHash : Text) : Except StoreError (String × Time) :=
  match t.sessions.lookup tokenHash with
  | none => .error .notFound
  | some row => .ok (row.username, row.expiresAt)

def deleteSession (tokenHash : Text) : Tables :=
  { t with sessions := t.sessions.erase tokenHash }

def listSessions (now : Time) : List SessionRow :=
  ((t.sessions.entries.map (·.2)).filter fun row => now < row.expiresAt).mergeSort
    fun a b => b.createdAt ≤ a.createdAt

def revokeSession (sessionId : Int) : Except StoreError Tables :=
  match t.sessions.entries.find? fun e => (e.2.sessionId : Int) = sessionId with
  | none => .error .notFound
  | some e => .ok (t.deleteSession e.1)

/-! ## Audit -/

def recordAudit (entry : AuditEntry) : Tables := { t with audit := t.audit ++ [entry] }

def listAudit (limit : Nat) : List AuditEntry := t.audit.reverse.take limit

/-! ## What a query has found -/

variable {t}

theorem lookup_of_findUser {username : String} {u : UserInfo} (h : t.findUser username = .ok u) :
    ∃ row, t.users.lookup username = some row ∧ row.info = u := by
  unfold findUser at h
  split at h
  next => cases h
  next row hrow => exact ⟨row, hrow, Except.ok.inj h⟩

theorem lookup_of_findSession {tokenHash : Text} {username : String} {expires : Time}
    (h : t.findSession tokenHash = .ok (username, expires)) :
    ∃ row, t.sessions.lookup tokenHash = some row ∧ row.username = username ∧
      row.expiresAt = expires := by
  unfold findSession at h
  split at h
  next => cases h
  next row hrow =>
    cases h
    exact ⟨row, hrow, rfl, rfl⟩

/-! ## What a statement has done -/

variable {t' : Tables}

theorem createUser_ok {username : String} {hash : Text} {role : Role}
    (h : t.createUser username hash role = .ok t') :
    t.users.lookup username = none ∧
      t' = { t with users := t.users.insert username { passwordHash := hash, role := role } } := by
  unfold createUser at h
  split at h
  next => cases h
  next hfree =>
    cases h
    exact ⟨hfree, rfl⟩

theorem createSession_ok {username : String} {tokenHash : Text} {now expires : Time}
    (h : t.createSession username tokenHash now expires = .ok t') :
    t.sessions.lookup tokenHash = none ∧
      t' = { t with
        sessions := t.sessions.insert tokenHash ⟨t.nextSession, username, now, expires⟩
        nextSession := t.nextSession + 1 } := by
  unfold createSession at h
  split at h
  next => cases h
  next hfree =>
    cases h
    exact ⟨hfree, rfl⟩

theorem revokeSession_ok {sessionId : Int} (h : t.revokeSession sessionId = .ok t') :
    ∃ e ∈ t.sessions.entries, (e.2.sessionId : Int) = sessionId ∧ t' = t.deleteSession e.1 := by
  unfold revokeSession at h
  split at h
  next => cases h
  next e hfind =>
    cases h
    exact ⟨e, List.mem_of_find?_eq_some hfind, by simpa using List.find?_some hfind, rfl⟩

end Tables

end TomAgent.Iam
