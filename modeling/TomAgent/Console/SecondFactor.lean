import TomAgent.Console.Calls
import TomAgent.Core.Handoff

/-!
# The second factor

A history is kept beside the server: which secrets have ever been confirmed, and for every
session that a login has created, the code it came with and the secrets of its user that were
confirmed when the login looked the user up.
-/

/-! ## Confirmed secrets -/

namespace TomAgent.Iam.Tables

variable {t t' : Tables} {username : String} {secret : Text}

def Confirmed (t : Tables) (username : String) (secret : Text) : Prop :=
  ∃ row, t.users.lookup username = some row ∧ row.totpConfirmed = true ∧
    row.totpSecret = some secret

def confirmedSecrets (t : Tables) : List (String × Text) :=
  t.users.entries.filterMap fun e =>
    if e.2.totpConfirmed then e.2.totpSecret.map (e.1, ·) else none

theorem mem_confirmedSecrets (h : (username, secret) ∈ t.confirmedSecrets) :
    t.Confirmed username secret := by
  obtain ⟨⟨name, row⟩, hentry, hpair⟩ := List.mem_filterMap.mp h
  have hlookup : t.users.lookup name = some row := AList.mem_lookup_iff.mpr hentry
  by_cases hflag : row.totpConfirmed = true
  · rw [if_pos hflag] at hpair
    obtain ⟨s, hs, heq⟩ := Option.map_eq_some_iff.mp hpair
    cases heq
    exact ⟨row, hlookup, hflag, hs⟩
  · rw [if_neg hflag] at hpair
    cases hpair

def Keeps (t t' : Tables) : Prop :=
  ∀ username secret, t.Confirmed username secret → t'.Confirmed username secret

theorem Keeps.refl (t : Tables) : t.Keeps t := fun _ _ h => h

theorem keeps_of_users (h : t'.users = t.users) : t.Keeps t' := by
  intro username secret hconfirmed
  unfold Confirmed
  rw [h]
  exact hconfirmed

theorem keeps_createUser {hash : Text} {role : Role}
    (h : t.createUser username hash role = .ok t') : t.Keeps t' := by
  obtain ⟨hfree, rfl⟩ := createUser_ok h
  intro name secret hconfirmed
  obtain ⟨row, hrow, hrest⟩ := hconfirmed
  have hname : name ≠ username := by
    rintro rfl
    rw [hfree] at hrow
    cases hrow
  exact ⟨row, (AList.lookup_insert_ne hname).trans hrow, hrest⟩

theorem keeps_updateUser {change : UserRow → UserRow}
    (h : ∀ row, t.users.lookup username = some row → row.totpConfirmed = true →
      (change row).totpConfirmed = true ∧ (change row).totpSecret = row.totpSecret) :
    t.Keeps (t.updateUser username change) := by
  intro name secret hconfirmed
  obtain ⟨row, hrow, hflag, hsecret⟩ := hconfirmed
  unfold updateUser
  split
  next => exact ⟨row, hrow, hflag, hsecret⟩
  next found hfound =>
    by_cases hname : name = username
    · subst hname
      cases hrow.symm.trans hfound
      obtain ⟨hflag', hsecret'⟩ := h row hrow hflag
      exact ⟨change row, AList.lookup_insert _, hflag', hsecret'.trans hsecret⟩
    · exact ⟨row, (AList.lookup_insert_ne hname).trans hrow, hflag, hsecret⟩

theorem keeps_confirmTotp (t : Tables) (username : String) : t.Keeps (t.confirmTotp username) := by
  apply keeps_updateUser
  intro row _ hflag
  exact ⟨by rw [hflag, Bool.true_or], rfl⟩

theorem sessions_updateUser (t : Tables) (username : String) (change : UserRow → UserRow) :
    (t.updateUser username change).sessions = t.sessions := by
  unfold updateUser
  split <;> rfl

/-- Only a user whose second factor is not confirmed may get a new secret. -/
theorem keeps_setTotpSecret
    (h : ∀ row, t.users.lookup username = some row → row.totpConfirmed = false) :
    t.Keeps (t.setTotpSecret username secret) := by
  apply keeps_updateUser
  intro row hrow hflag
  rw [h row hrow] at hflag
  cases hflag

theorem keeps_revokeSession {id : Int} (h : t.revokeSession id = .ok t') : t.Keeps t' := by
  obtain ⟨e, -, -, rfl⟩ := revokeSession_ok h
  exact keeps_of_users rfl

theorem keeps_createSession {tokenHash : Text} {now expires : Time}
    (h : t.createSession username tokenHash now expires = .ok t') : t.Keeps t' := by
  obtain ⟨-, rfl⟩ := createSession_ok h
  exact keeps_of_users rfl

end TomAgent.Iam.Tables

namespace TomAgent.Console

open Execution Handoff Iam Server

/-! ## Logins and what they saw -/

/-- What a login knew when it compared the code. -/
structure Sight where
  checkedAt : Time
  /-- The secrets of the user that had been confirmed by then. -/
  confirmed : List Text
deriving DecidableEq

structure Login where
  username : String
  code : Text
  tokenHash : Text
  sight : Sight
deriving DecidableEq

/-- If a secret of the user had been confirmed, the code was one of a confirmed secret. -/
def Login.Vouched (c : Primitives) (l : Login) : Prop :=
  l.sight.confirmed ≠ [] →
    ∃ secret ∈ l.sight.confirmed, c.verify secret l.code l.sight.checkedAt = true

instance Login.decidableVouched (c : Primitives) (l : Login) : Decidable (l.Vouched c) :=
  inferInstanceAs (Decidable (_ → _))

structure History where
  /-- User and secret, for every secret that has been confirmed at some time. -/
  confirmed : List (String × Text)
  /-- By handler. -/
  sights : Nat → Sight
  logins : List Login

def History.secretsOf (x : History) (username : String) : List Text :=
  (x.confirmed.filter fun p => p.1 = username).map (·.2)

structure Watched where
  server : Server
  history : History

namespace Watched

variable (c : Primitives) (ttl : Time)

def start (tables : Tables) : Watched :=
  ⟨Server.start tables, ⟨tables.confirmedSecrets, fun _ => ⟨0, []⟩, []⟩⟩

/-- What a store call adds to the history. -/
def note (w : Watched) (h : Nat) (env : Env) (fate : Fate) (x : History) : Stage → History
  | .findLogin body =>
      { x with sights := Function.update x.sights h ⟨env.now, w.history.secretsOf body.username⟩ }
  | .createSession body u token =>
      if (Stage.createSession body u token).ran c ttl env fate w.server.tables then
        { x with logins := x.logins ++
            [⟨body.username, body.totpCode, c.tokenHash token, w.history.sights h⟩] }
      else x
  | _ => x

def observe (w : Watched) (s : Server) (e : Event) : History :=
  let x := { w.history with confirmed := w.history.confirmed ++ s.tables.confirmedSecrets }
  match e with
  | .perform h env fate =>
      match w.server.handlers.lookup h with
      | some handler => w.note c ttl h env fate x handler.stage
      | none => x
  | _ => x

def step (w : Watched) (e : Event) : Option Watched :=
  (w.server.step c ttl e).map fun s => ⟨s, w.observe c ttl s e⟩

/-- No new secret is stored for a user whose second factor is confirmed. -/
def enrollsOnce (w : Watched) : Event → Bool
  | .perform h _ fate =>
      match w.server.handlers.lookup h with
      | some ⟨_, .setTotpSecret sess _⟩ =>
          fate = .refused ||
            (w.server.tables.users.lookup sess.username).all fun row => !row.totpConfirmed
      | _ => true
  | _ => true

abbrev EnrollsOnce (w : Watched) (e : Event) : Prop := w.enrollsOnce e = true

end Watched

/-! ## One call -/

section
variable {c : Primitives} {ttl : Time} {who : Caller} {env : Env} {fate : Fate} {t : Tables}
variable {stage : Stage} {body : LoginBody} {u : UserInfo} {token : Text}

theorem Stage.leaves_cases (stage : Stage) :
    stage.leaves c ttl env fate t = t ∨
      fate ≠ .refused ∧ stage.statement c ttl env t = .ok (stage.leaves c ttl env fate t) := by
  unfold Stage.leaves
  cases hstatement : stage.statement c ttl env t with
  | error e => cases fate <;> exact Or.inl rfl
  | ok t' =>
      cases fate with
      | done => exact Or.inr ⟨nofun, rfl⟩
      | lost => exact Or.inr ⟨nofun, rfl⟩
      | refused => exact Or.inl rfl

/-- The statements of the console keep confirmed secrets, but for a new secret. -/
theorem Stage.keeps_statement {t' : Tables} (h : stage.statement c ttl env t = .ok t')
    (henroll : ∀ sess secret, stage = .setTotpSecret sess secret →
      ∀ row, t.users.lookup sess.username = some row → row.totpConfirmed = false) :
    t.Keeps t' := by
  cases stage with
  | createUser body role actor hash => exact Tables.keeps_createUser h
  | createSession body u token => exact Tables.keeps_createSession h
  | setTotpSecret sess secret =>
      cases h
      exact Tables.keeps_setTotpSecret (henroll sess secret rfl)
  | confirmTotp sess =>
      cases h
      exact Tables.keeps_confirmTotp t sess.username
  | deleteSession sess tokenHash =>
      cases h
      exact Tables.keeps_of_users rfl
  | revokeSession sess idText id => exact Tables.keeps_revokeSession h
  | _ =>
      cases h
      exact Tables.Keeps.refl t

/-- Only a login that has just looked its user up creates a session next. -/
theorem Stage.resume_opens
    (h : stage.resume c ttl who env fate t = .call (.createSession body u token)) :
    stage = .findLogin body ∧ t.findUser body.username = .ok u ∧
      secondFactor c env body u = .ok () := by
  have hlocal : ∀ sess endpoint query, stage ≠ .forward sess endpoint query := by
    rintro sess endpoint query rfl
    cases h
  cases Stage.leads_of_call hlocal h with
  | login hfound _ _ hfactor => exact ⟨rfl, hfound, hfactor⟩
  | admits _ _ _ henters => cases henters

/-- A session is there after a statement only if it was there before or was created by it. -/
theorem Stage.session_statement {t' : Tables} {hash : Text} {row : SessionRow}
    (h : stage.statement c ttl env t = .ok t') (hrow : t'.sessions.lookup hash = some row) :
    t.sessions.lookup hash = some row ∨ ∃ body u token, stage = .createSession body u token ∧
      c.tokenHash token = hash ∧ body.username = row.username ∧
      row.expiresAt = env.now + ttl := by
  cases stage with
  | createSession body u token =>
      obtain ⟨-, rfl⟩ := Tables.createSession_ok h
      rcases Table.lookup_insert_cases hrow with ⟨rfl, rfl⟩ | hother
      · exact Or.inr ⟨body, u, token, rfl, rfl, rfl, rfl⟩
      · exact Or.inl hother.2
  | deleteSession sess tokenHash =>
      cases h
      exact Or.inl (Table.lookup_erase_cases hrow).2
  | revokeSession sess idText id =>
      obtain ⟨e, -, -, rfl⟩ := Tables.revokeSession_ok h
      exact Or.inl (Table.lookup_erase_cases hrow).2
  | createUser body role actor hash' =>
      obtain ⟨-, rfl⟩ := Tables.createUser_ok h
      exact Or.inl hrow
  | setTotpSecret sess secret =>
      cases h
      rw [Tables.setTotpSecret, Tables.sessions_updateUser] at hrow
      exact Or.inl hrow
  | confirmTotp sess =>
      cases h
      rw [Tables.confirmTotp, Tables.sessions_updateUser] at hrow
      exact Or.inl hrow
  | _ =>
      cases h
      exact Or.inl hrow

/-- Who passed the second factor while a secret was confirmed had a code of that secret. -/
theorem secondFactor_ok {secret : Text} (hfactor : secondFactor c env body u = .ok ())
    (hfound : t.findUser body.username = .ok u) (hconfirmed : t.Confirmed body.username secret) :
    c.verify secret body.totpCode env.now = true := by
  obtain ⟨row, hrow, hflag, hsecret⟩ := hconfirmed
  obtain ⟨found, hlookup, hinfo⟩ := Tables.lookup_of_findUser hfound
  cases hrow.symm.trans hlookup
  have hasked : u.totpConfirmed = true := by rw [← hinfo]; exact hflag
  have hstored : u.totpSecret = secret := by rw [← hinfo, UserRow.info, hsecret]; rfl
  rw [secondFactor, if_pos hasked] at hfactor
  split at hfactor
  · cases hfactor
  · split at hfactor
    · next hverified => rw [← hstored]; exact hverified
    · cases hfactor

end

/-! ## Whole runs -/

namespace Watched

variable {c : Primitives} {ttl : Time} {tables : Tables} {w w' : Watched} {e : Event}

def Explained (tables : Tables) (logins : List Login) (hash : Text) (row : SessionRow) : Prop :=
  tables.sessions.lookup hash = some row ∨
    ∃ l ∈ logins, l.tokenHash = hash ∧ l.username = row.username

theorem Explained.mono {logins logins' : List Login} {hash : Text} {row : SessionRow}
    (h : Explained tables logins hash row) (hsub : logins ⊆ logins') :
    Explained tables logins' hash row := by
  cases h with
  | inl hinitial => exact Or.inl hinitial
  | inr hlogin =>
      obtain ⟨l, hl, hrest⟩ := hlogin
      exact Or.inr ⟨l, hsub hl, hrest⟩

/-- Every login that has created a session has been asked for the confirmed second factor,
and every session comes from such a login or was there at the start. -/
structure Guards (c : Primitives) (tables : Tables) (w : Watched) : Prop where
  vouched : ∀ l ∈ w.history.logins, l.Vouched c
  known : ∀ hash row, w.server.tables.sessions.lookup hash = some row →
    Explained tables w.history.logins hash row

/-- With it, what was confirmed still is, and a login about to create its session is one that
may. -/
structure Sound (c : Primitives) (tables : Tables) (w : Watched) : Prop where
  guards : w.Guards c tables
  kept : ∀ p ∈ w.history.confirmed, w.server.tables.Confirmed p.1 p.2
  pending : ∀ h who body u token,
    w.server.handlers.lookup h = some ⟨who, .createSession body u token⟩ →
      Login.Vouched c ⟨body.username, body.totpCode, c.tokenHash token, w.history.sights h⟩

theorem Sound.start (c : Primitives) (tables : Tables) : (Watched.start tables).Sound c tables where
  guards := ⟨fun _ hl => absurd hl List.not_mem_nil, fun _ _ hrow => Or.inl hrow⟩
  kept p hp := Tables.mem_confirmedSecrets hp
  pending h who body u token hrun := by cases hrun

theorem mem_secretsOf {x : History} {username : String} {secret : Text}
    (h : secret ∈ x.secretsOf username) : (username, secret) ∈ x.confirmed := by
  obtain ⟨⟨name, s⟩, hp, rfl⟩ := List.mem_map.mp h
  obtain ⟨hmem, hname⟩ := List.mem_filter.mp hp
  cases of_decide_eq_true hname
  exact hmem

/-- A login that passes its checks now may create a session. -/
theorem Sound.vouch (hw : w.Sound c tables) {env : Env} {body : LoginBody} {u : UserInfo}
    (hfound : w.server.tables.findUser body.username = .ok u)
    (hfactor : secondFactor c env body u = .ok ()) (tokenHash : Text) :
    Login.Vouched c ⟨body.username, body.totpCode, tokenHash,
      ⟨env.now, w.history.secretsOf body.username⟩⟩ := by
  intro hsome
  obtain ⟨secret, hsecret⟩ := List.exists_mem_of_ne_nil _ hsome
  have hconfirmed := hw.kept _ (mem_secretsOf hsecret)
  exact ⟨secret, hsecret, secondFactor_ok hfactor hfound hconfirmed⟩

/-- What was confirmed stays so, and what is confirmed now is noted. -/
theorem Sound.kept_append (hw : w.Sound c tables) {t : Tables} (hkeeps : w.server.tables.Keeps t) :
    ∀ p ∈ w.history.confirmed ++ t.confirmedSecrets, t.Confirmed p.1 p.2 := by
  intro p hp
  cases List.mem_append.mp hp with
  | inl hold => exact hkeeps p.1 p.2 (hw.kept p hold)
  | inr hnew => exact Tables.mem_confirmedSecrets hnew

theorem Sound.quiet (hw : w.Sound c tables) {s : Server}
    (husers : s.tables.users = w.server.tables.users)
    (hsessions : s.tables.sessions = w.server.tables.sessions)
    (hpending : ∀ k who body u token,
      s.handlers.lookup k = some ⟨who, .createSession body u token⟩ →
        w.server.handlers.lookup k = some ⟨who, .createSession body u token⟩) :
    Sound c tables
      ⟨s, { w.history with confirmed := w.history.confirmed ++ s.tables.confirmedSecrets }⟩ where
  guards := ⟨hw.guards.vouched, fun hash row hrow => hw.guards.known hash row (hsessions ▸ hrow)⟩
  kept := hw.kept_append (Tables.keeps_of_users husers)
  pending k who body u token hk := hw.pending k who body u token (hpending k who body u token hk)

theorem pending_advance {s : Server} {h : Nat} {who : Caller} {next : Next}
    (hnext : ∀ body u token, next ≠ .call (.createSession body u token)) (k : Nat) (who' : Caller)
    (body : LoginBody) (u : UserInfo) (token : Text)
    (hk : (s.advance h who next).handlers.lookup k = some ⟨who', .createSession body u token⟩) :
    s.handlers.lookup k = some ⟨who', .createSession body u token⟩ := by
  rcases lookup_advance hk with ⟨-, -, hopens⟩ | ⟨-, hother⟩
  · exact absurd hopens (hnext body u token)
  · exact hother

section
variable {h : Nat} {env : Env} {fate : Fate} {x : History} {stage : Stage}

theorem note_confirmed : (w.note c ttl h env fate x stage).confirmed = x.confirmed := by
  fun_cases note c ttl w h env fate x stage <;> rfl

theorem note_sights_ne {k : Nat} (hk : k ≠ h) :
    (w.note c ttl h env fate x stage).sights k = x.sights k := by
  fun_cases note c ttl w h env fate x stage
  · exact Function.update_of_ne hk _ _
  · rfl
  · rfl
  · rfl

theorem note_logins {l : Login} (hl : l ∈ (w.note c ttl h env fate x stage).logins) :
    l ∈ x.logins ∨ ∃ body u token, stage = .createSession body u token ∧
      l = ⟨body.username, body.totpCode, c.tokenHash token, w.history.sights h⟩ := by
  cases stage with
  | createSession body u token =>
      simp only [note] at hl
      split at hl
      next =>
        cases List.mem_append.mp hl with
        | inl hold => exact Or.inl hold
        | inr hnew => exact Or.inr ⟨body, u, token, rfl, List.mem_singleton.mp hnew⟩
      next => exact Or.inl hl
  | _ => exact Or.inl hl

theorem logins_subset_note : x.logins ⊆ (w.note c ttl h env fate x stage).logins := by
  fun_cases note c ttl w h env fate x stage
  · exact List.Subset.refl _
  · exact List.subset_append_left _ _
  · exact List.Subset.refl _
  · exact List.Subset.refl _

theorem note_created {body : LoginBody} {u : UserInfo} {token : Text} {t : Tables}
    (hfate : fate ≠ .refused)
    (hstatement : (Stage.createSession body u token).statement c ttl env w.server.tables = .ok t) :
    ⟨body.username, body.totpCode, c.tokenHash token, w.history.sights h⟩ ∈
      (w.note c ttl h env fate x (.createSession body u token)).logins := by
  have hran : (Stage.createSession body u token).ran c ttl env fate w.server.tables = true := by
    rw [Stage.ran, hstatement, decide_eq_true hfate]
    rfl
  rw [note, if_pos hran]
  exact List.mem_append_right _ (List.mem_singleton_self _)

theorem Sound.known_perform (hw : w.Sound c tables) {hash : Text} {row : SessionRow}
    (hrow : (stage.leaves c ttl env fate w.server.tables).sessions.lookup hash = some row)
    (hx : w.history.logins ⊆ x.logins) :
    Explained tables (w.note c ttl h env fate x stage).logins hash row := by
  have hsub : w.history.logins ⊆ (w.note c ttl h env fate x stage).logins :=
    List.Subset.trans hx logins_subset_note
  rcases Stage.leaves_cases stage with hsame | ⟨hfate, hstatement⟩
  · rw [hsame] at hrow
    exact (hw.guards.known hash row hrow).mono hsub
  · rcases Stage.session_statement hstatement hrow with
      hbefore | ⟨body, u, token, rfl, hhash, hname, -⟩
    · exact (hw.guards.known hash row hbefore).mono hsub
    · exact Or.inr ⟨_, note_created hfate hstatement, hhash, hname⟩

theorem Sound.perform (hw : w.Sound c tables) {who : Caller}
    (hrun : w.server.handlers.lookup h = some ⟨who, stage⟩)
    (hmay : w.EnrollsOnce (.perform h env fate))
    (hx : x = { w.history with confirmed :=
      w.history.confirmed ++ (stage.leaves c ttl env fate w.server.tables).confirmedSecrets }) :
    Sound c tables
      ⟨{ w.server with tables := stage.leaves c ttl env fate w.server.tables }.advance h who
        (stage.resume c ttl who env fate w.server.tables), w.note c ttl h env fate x stage⟩ where
  guards := by
    subst hx
    constructor
    · intro l hl
      rcases note_logins hl with hold | ⟨body, u, token, rfl, rfl⟩
      · exact hw.guards.vouched l hold
      · exact hw.pending h who body u token hrun
    · intro hash row hrow
      rw [advance_tables] at hrow
      exact hw.known_perform hrow (List.Subset.refl _)
  kept := by
    subst hx
    have hkeeps : w.server.tables.Keeps (stage.leaves c ttl env fate w.server.tables) := by
      rcases Stage.leaves_cases stage with hsame | ⟨hfate, hstatement⟩
      · rw [hsame]
        exact Tables.Keeps.refl _
      · apply Stage.keeps_statement hstatement
        rintro sess secret rfl row hrow
        simpa [EnrollsOnce, enrollsOnce, hrun, hfate, hrow] using hmay
    rw [note_confirmed, advance_tables]
    exact hw.kept_append hkeeps
  pending k who' body u token hk := by
    subst hx
    rcases lookup_advance hk with ⟨rfl, -, hnext⟩ | ⟨hne, hother⟩
    · obtain ⟨rfl, hfound, hfactor⟩ := Stage.resume_opens hnext
      simp only [note, Function.update_self]
      exact hw.vouch hfound hfactor _
    · rw [note_sights_ne hne]
      exact hw.pending k who' body u token hother

end

theorem Sound.step (hw : w.Sound c tables) (hmay : w.EnrollsOnce e)
    (hstep : w.step c ttl e = some w') : w'.Sound c tables := by
  obtain ⟨s, hs, rfl⟩ := Option.map_eq_some_iff.mp hstep
  cases step_moves c ttl hs with
  | @receive h request hfree =>
      refine hw.quiet (by rw [advance_tables]) (by rw [advance_tables]) (pending_advance ?_)
      intro body u token hopens
      obtain ⟨caller, route⟩ := request
      cases Route.enters_of_call hopens
  | @perform h env fate who stage hrun =>
      simp only [observe, hrun, advance_tables]
      exact hw.perform hrun hmay rfl
  | @reply h upstream who sess endpoint query hrun =>
      refine hw.quiet (by rw [advance_tables]) (by rw [advance_tables]) (pending_advance ?_)
      intro body u token hopens
      obtain ⟨e, he⟩ := proxied_exit who sess endpoint query upstream
      rw [he] at hopens
      cases hopens
  | @record i stored entry hwait =>
      refine hw.quiet ?_ ?_ fun _ _ _ _ _ hk => hk
      · cases stored <;> rfl
      · cases stored <;> rfl

/-- As long as nobody with a confirmed second factor gets a new secret, every login that
creates a session has come with a code of a confirmed secret, once there is one. -/
theorem second_factor_kept (hrun : Reaches (Fires (step c ttl) EnrollsOnce) (start tables) w) :
    w.Guards c tables := by
  have hsound : w.Sound c tables := by
    apply invariant (fun w => w.Sound c tables) ?_ (Sound.start c tables) hrun
    rintro w w' hw ⟨e, hmay, hstep⟩
    exact hw.step hmay hstep
  exact hsound.guards

/-! ## Two runs -/

/-- Functions that are good for nothing but a run: the code shows the step it is for. -/
def plainPrimitives : Primitives where
  hmacSha1 key message := Vector.ofFn fun i => (message.reverse ++ key).getD i 0
  sha256 bytes := Vector.replicate 32 (bytes.headD 0)
  pbkdf2Sha256 password _ _ _ := some password

def envOf (b : UInt8) : Env := ⟨30000000000, some (Vector.replicate 32 b)⟩

def password : Text := "correct horse".toList

def code : Text := "777216".toList

def serve (h : Nat) (path : String) (route : Route) (b : UInt8) (calls : Nat) : List Event :=
  .receive h ⟨⟨"POST", path, "Bearer ".toList ++ hexText (List.replicate 32 0), "10.0.0.9:4711"⟩, route⟩ ::
    List.replicate calls (.perform h (envOf b) .done)

def serveLogin (h : Nat) (totpCode : Text) (b : UInt8) : List Event :=
  serve h "/api/v1/login" (.login (some ⟨"root", password, totpCode⟩)) b 2

def serveEnroll (h : Nat) (b : UInt8) : List Event :=
  serve h "/api/v1/totp/enroll" (.guarded .totpEnroll) b 3

def enrollment : List Event :=
  serve 0 "/api/v1/users" (.createUser (some ⟨"root", password, "admin"⟩)) 0 2 ++
    serveLogin 1 [] 0 ++ serveEnroll 2 0 ++
    serve 3 "/api/v1/totp/confirm" (.guarded (.totpConfirm (some code))) 0 4

theorem reaches_of_events (may : Watched → Event → Prop) (es : List Event) (P : Watched → Prop)
    [DecidablePred P]
    (hmay : Permitted (step plainPrimitives sessionTtl) may (start Tables.empty) es)
    (h : (play (step plainPrimitives sessionTtl) (start Tables.empty) es).any P = true) :
    ∃ w, Reaches (Fires (step plainPrimitives sessionTtl) may) (start Tables.empty) w ∧ P w :=
  reaches_of_any (step plainPrimitives sessionTtl) es P hmay h

theorem second_factor_kept_enrolled :
    ∃ w, Reaches (Fires (step plainPrimitives sessionTtl) EnrollsOnce) (start Tables.empty) w ∧
      w.history.logins.map (fun l => (l.username, l.code, l.sight.confirmed.isEmpty)) =
        [("root", [], true), ("root", code, false)] ∧ w.Guards plainPrimitives Tables.empty := by
  obtain ⟨w, hrun, hlogins⟩ := reaches_of_events EnrollsOnce (enrollment ++ serveLogin 4 code 16)
    (fun w => w.history.logins.map (fun l => (l.username, l.code, l.sight.confirmed.isEmpty)) =
      [("root", [], true), ("root", code, false)])
    (permitted_of_decide (by decide +kernel)) (by decide +kernel)
  exact ⟨w, hrun, hlogins, second_factor_kept hrun⟩

/-- The user enrolls once more and leaves it at that; the password is then enough. -/
theorem enrolling_again_drops_second_factor :
    ∃ w, Reaches (Fires (step plainPrimitives sessionTtl) fun _ _ => True) (start Tables.empty) w ∧
      ∃ l ∈ w.history.logins, l.code = [] ∧ ¬ l.Vouched plainPrimitives := by
  exact reaches_of_events (fun _ _ => True) (enrollment ++ serveEnroll 4 16 ++ serveLogin 5 [] 16) _
    (permitted_of_forall (fun _ _ _ => trivial) _) (by decide +kernel)

end Watched

end TomAgent.Console
