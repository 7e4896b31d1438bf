import TomAgent.Console.SecondFactor

/-!
# What a confirmation confirms

`totpConfirm` reads the secret, compares the code with it and then confirms whatever secret the
row has by that time.  `totpEnroll` may have stored another one in between.
-/

namespace TomAgent.Iam.Tables

variable {t t' : Tables} {username name : String} {row : UserRow}

theorem lookup_updateUser {change : UserRow → UserRow}
    (h : (t.updateUser username change).users.lookup name = some row) :
    t.users.lookup name = some row ∨
      ∃ old, name = username ∧ t.users.lookup name = some old ∧ row = change old := by
  unfold updateUser at h
  split at h
  next => exact Or.inl h
  next old hold =>
    rcases Table.lookup_insert_cases h with ⟨rfl, rfl⟩ | ⟨-, hother⟩
    · exact Or.inr ⟨old, rfl, hold, rfl⟩
    · exact Or.inl hother

theorem lookup_createUser {hash : Text} {role : Role}
    (hcreate : t.createUser username hash role = .ok t') (h : t'.users.lookup name = some row) :
    t.users.lookup name = some row ∨
      name = username ∧ row = { passwordHash := hash, role := role } := by
  obtain ⟨-, rfl⟩ := createUser_ok hcreate
  rcases Table.lookup_insert_cases h with ⟨rfl, rfl⟩ | ⟨-, hother⟩
  · exact Or.inr ⟨rfl, rfl⟩
  · exact Or.inl hother

def secretOf (t : Tables) (username : String) : Option (Option Text) :=
  (t.users.lookup username).map (·.totpSecret)

end TomAgent.Iam.Tables

namespace TomAgent.Console

open Execution Iam Server

section
variable (c : Primitives)

/-- A confirming request has found this secret of the user, and its code is one of it. -/
def Call.verifies (username : String) (secret : Text) (k : Call) : Bool :=
  match k.stage with
  | .findTotp sess code =>
      sess.username = username && k.fate = .done &&
        k.tables.secretOf username = some (some secret) && c.verify secret code k.env.now
  | _ => false

/-- A confirmed second factor was there at the start, or some request has proved it. -/
def Proved (tables : Tables) (past : Past) (username : String) (row : UserRow) : Prop :=
  (∃ row₀, tables.users.lookup username = some row₀ ∧ row₀.totpConfirmed = true ∧
    row₀.totpSecret = row.totpSecret) ∨
  ∃ secret, row.totpSecret = some secret ∧ ∃ k ∈ calls past, k.verifies c username secret = true

/-- `ConfirmTOTP` finds the secret that its request has read. -/
def confirmsRead (past : Past) (s : Server) : Event → Bool
  | .perform h _ fate =>
      match s.handlers.lookup h, story past h with
      | some ⟨_, .confirmTotp sess⟩, k :: _ =>
          fate = .refused || s.tables.secretOf sess.username = k.tables.secretOf sess.username
      | _, _ => true
  | _ => true

abbrev ConfirmsRead (past : Past) (s : Server) (e : Event) : Prop := confirmsRead past s e = true

end

/-! ## One call -/

section
variable {c : Primitives} {ttl : Time} {env : Env} {t t' : Tables} {stage : Stage}
variable {tables : Tables} {past : Past} {s s' : Server} {e : Event}

/-- A row that a statement leaves confirmed was so before, or has just been confirmed. -/
theorem Stage.confirmed_statement {username : String} {row : UserRow}
    (h : stage.statement c ttl env t = .ok t') (hrow : t'.users.lookup username = some row)
    (hconfirmed : row.totpConfirmed = true) :
    t.users.lookup username = some row ∨ ∃ sess old, stage = .confirmTotp sess ∧
      username = sess.username ∧ t.users.lookup username = some old ∧
      row.totpSecret = old.totpSecret := by
  cases stage with
  | createUser body role actor hash =>
      rcases Tables.lookup_createUser h hrow with hold | ⟨-, rfl⟩
      · exact Or.inl hold
      · cases hconfirmed
  | setTotpSecret sess secret =>
      cases h
      rcases Tables.lookup_updateUser hrow with hold | ⟨old, -, -, rfl⟩
      · exact Or.inl hold
      · cases hconfirmed
  | confirmTotp sess =>
      cases h
      rcases Tables.lookup_updateUser hrow with hold | ⟨old, hname, hold, rfl⟩
      · exact Or.inl hold
      · exact Or.inr ⟨sess, old, rfl, hname, hold, rfl⟩
  | createSession body u token =>
      obtain ⟨-, rfl⟩ := Tables.createSession_ok h
      exact Or.inl hrow
  | revokeSession sess idText id =>
      obtain ⟨e, -, -, rfl⟩ := Tables.revokeSession_ok h
      exact Or.inl hrow
  | _ =>
      cases h
      exact Or.inl hrow

theorem secretOf_of_findUser {username : String} {u : UserInfo}
    (hfound : t.findUser username = .ok u) (hsecret : u.totpSecret ≠ []) :
    t.secretOf username = some (some u.totpSecret) := by
  obtain ⟨row, hrow, rfl⟩ := Tables.lookup_of_findUser hfound
  rw [Tables.secretOf, hrow, Option.map_some]
  cases hstored : row.totpSecret with
  | none =>
      rw [UserRow.info, hstored] at hsecret
      exact absurd rfl hsecret
  | some secret =>
      rw [UserRow.info, hstored]
      rfl

/-- A request about to confirm has just seen a right code for the secret it has read. -/
theorem Path.verifies {request : Request} {ks : List Call} {sess : SessionCtx}
    (hpath : Path c request ks (.confirmTotp sess)) :
    ∃ k rest secret, ks = k :: rest ∧ k.tables.secretOf sess.username = some (some secret) ∧
      k.verifies c sess.username secret = true := by
  rcases hpath.last with ⟨route, -, henters⟩ | ⟨h, before, env, t, rest, rfl, -, hleads⟩
  · cases henters
  · cases hleads with
    | admits _ _ _ henters => cases henters
    | @confirms _ code u hfound hsecret hverified =>
        have hread := secretOf_of_findUser hfound hsecret
        refine ⟨_, rest, u.totpSecret, rfl, hread, ?_⟩
        simp [Call.verifies, hread, hverified]

/-! ## Whole runs -/

theorem Proved.mono {past past' : Past} (hsub : calls past ⊆ calls past') {username : String}
    {row : UserRow} (h : Proved c tables past username row) :
    Proved c tables past' username row := by
  cases h with
  | inl hstart => exact Or.inl hstart
  | inr hproved =>
      obtain ⟨secret, hsecret, k, hk, hverifies⟩ := hproved
      exact Or.inr ⟨secret, hsecret, k, hsub hk, hverifies⟩

def AllProved (c : Primitives) (tables : Tables) (past : Past) (s : Server) : Prop :=
  ∀ username row, s.tables.users.lookup username = some row → row.totpConfirmed = true →
    Proved c tables past username row

theorem AllProved.keep (hs : AllProved c tables past s)
    (husers : s'.tables.users = s.tables.users) : AllProved c tables ((s, e) :: past) s' := by
  intro username row hrow hconfirmed
  rw [husers] at hrow
  exact (hs username row hrow hconfirmed).mono (calls_subset_cons (s, e) past)

theorem Follows.proved (hs : Follows c past s) {h : Nat} {env : Env} {fate : Fate} {who : Caller}
    {sess : SessionCtx} {row old : UserRow}
    (hrun : s.handlers.lookup h = some ⟨who, .confirmTotp sess⟩) (hfate : fate ≠ .refused)
    (hmay : ConfirmsRead past s (.perform h env fate))
    (hold : s.tables.users.lookup sess.username = some old)
    (hsame : row.totpSecret = old.totpSecret) : Proved c tables past sess.username row := by
  obtain ⟨s₀, request, -, -, hpath⟩ := hs h _ hrun
  obtain ⟨k, rest, secret, hstory, hread, hverifies⟩ := hpath.verifies
  have hstill : s.tables.secretOf sess.username = k.tables.secretOf sess.username := by
    simpa [ConfirmsRead, confirmsRead, hrun, hstory, hfate] using hmay
  rw [hread, Tables.secretOf, hold, Option.map_some, Option.some_inj] at hstill
  have hmem : k ∈ calls past := story_subset_calls past h (hstory ▸ List.mem_cons_self)
  exact Or.inr ⟨secret, hsame.trans hstill, k, hmem, hverifies⟩

theorem AllProved.step (hs : AllProved c tables past s) (hfollows : Follows c past s)
    (hmay : ConfirmsRead past s e) (hstep : Server.step c ttl s e = some s') :
    AllProved c tables ((s, e) :: past) s' := by
  cases step_moves c ttl hstep with
  | receive _ => exact hs.keep (by rw [advance_tables])
  | reply _ => exact hs.keep (by rw [advance_tables])
  | @record i stored entry _ => exact hs.keep (by cases stored <;> rfl)
  | @perform h env fate who stage hrun =>
      intro username row hrow hconfirmed
      rw [advance_tables] at hrow
      apply Proved.mono (calls_subset_cons _ past)
      rcases Stage.leaves_cases stage with hsame | ⟨hfate, hstatement⟩
      · rw [hsame] at hrow
        exact hs username row hrow hconfirmed
      · rcases Stage.confirmed_statement hstatement hrow hconfirmed with
          hbefore | ⟨sess, old, rfl, rfl, hold, hsecret⟩
        · exact hs username row hbefore hconfirmed
        · exact hfollows.proved hrun hfate hmay hold hsecret

/-- As long as `ConfirmTOTP` finds the secret its request has read, every confirmed secret has
been proved by a code. -/
theorem confirmed_secrets_proved
    (hrun : Course (Server.step c ttl) ConfirmsRead (Server.start tables) past s) :
    AllProved c tables past s := by
  have hboth : Follows c past s ∧ AllProved c tables past s := by
    apply Course.invariant (fun past s => Follows c past s ∧ AllProved c tables past s) ?_ ?_ hrun
    · refine ⟨Follows.start c tables, ?_⟩
      intro username row hrow hconfirmed
      exact Or.inl ⟨row, hrow, hconfirmed, rfl⟩
    · intro past s e s' hs hmay hstep
      exact ⟨hs.1.step hstep, hs.2.step hs.1 hmay hstep⟩
  exact hboth.2

end

/-! ## Two runs -/

open Watched in
def confirming : List Event :=
  serve 0 "/api/v1/users" (.createUser (some ⟨"root", password, "admin"⟩)) 0 2 ++
    serveLogin 1 [] 0 ++ serveEnroll 2 0 ++
    serve 3 "/api/v1/totp/confirm" (.guarded (.totpConfirm (some code))) 0 3

def unproved (c : Primitives) (past : Past) (username : String) (row : UserRow) : Bool :=
  row.totpConfirmed && (calls past).all fun k => !k.verifies c username (row.totpSecret.getD [])

theorem not_allProved {c : Primitives} {past : Past} {s : Server} {username : String}
    (h : (s.tables.users.lookup username).any (unproved c past username) = true) :
    ¬ AllProved c Tables.empty past s := by
  intro hproved
  obtain ⟨row, hrow, hunproved⟩ := (Option.any_eq_true _ _).mp h
  obtain ⟨hconfirmed, hnone⟩ := Bool.and_eq_true_iff.mp hunproved
  rcases hproved username row hrow hconfirmed with
    ⟨row₀, hstart, -⟩ | ⟨secret, hsecret, k, hk, hverifies⟩
  · cases hstart
  · have hother := List.all_eq_true.mp hnone k hk
    rw [hsecret, Option.getD_some, hverifies] at hother
    cases hother

open Watched in
theorem confirmed_secrets_proved_root :
    ∃ past s, Course (Server.step plainPrimitives sessionTtl) ConfirmsRead
        (Server.start Tables.empty) past s ∧
      (s.tables.users.lookup "root").any (·.totpConfirmed) = true ∧
      AllProved plainPrimitives Tables.empty past s := by
  obtain ⟨past, s, hrun, hconfirmed⟩ :=
    course_of_any (Server.step plainPrimitives sessionTtl) ConfirmsRead
      (s := Server.start Tables.empty) (confirming ++ [.perform 3 (envOf 0) .done])
      (fun _ s => (s.tables.users.lookup "root").any (·.totpConfirmed) = true)
      (by decide +kernel)
  exact ⟨past, s, hrun, hconfirmed, confirmed_secrets_proved hrun⟩

open Watched in
/-- Another secret is enrolled before the last statement of the confirming request; it ends up
confirmed although nobody has shown a code of it. -/
theorem unproved_secret_confirmed :
    ∃ past s, Course (Server.step plainPrimitives sessionTtl) (fun _ _ _ => True)
        (Server.start Tables.empty) past s ∧
      ¬ AllProved plainPrimitives Tables.empty past s := by
  obtain ⟨past, s, hrun, hunproved⟩ :=
    course_of_any (Server.step plainPrimitives sessionTtl) (fun _ _ _ => True)
      (s := Server.start Tables.empty)
      (confirming ++ serveEnroll 4 16 ++ [.perform 3 (envOf 0) .done])
      (fun past s =>
        (s.tables.users.lookup "root").any (unproved plainPrimitives past "root") = true)
      (by decide +kernel)
  exact ⟨past, s, hrun, not_allProved hunproved⟩

end TomAgent.Console
