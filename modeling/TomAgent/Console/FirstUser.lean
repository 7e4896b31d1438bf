import TomAgent.Console.SecondFactor

/-!
# The first user

While there are no users, `createUser` asks for no session.  It counts the users, hashes the
password and inserts the row; requests that have counted none may all insert.
-/

namespace TomAgent.Console

open Execution Iam Server

def Call.manages (k : Call) : Bool :=
  match k.stage with
  | .findSessionUser (.createUser _) username =>
      k.fate = .done && (k.tables.findUser username).toOption.any fun u =>
        u.status = .active && hasPermission u.role .userManage
  | _ => false

section
variable (c : Primitives) (ttl : Time)

def Call.creates (k : Call) : Bool :=
  match k.stage with
  | .createUser _ _ _ _ => k.ran c ttl
  | _ => false

/-- The step creates a user for a request that no session stands behind. -/
def bootstraps (past : Past) (s : Server) (e : Event) : Option Call :=
  (callOf (s, e)).filter fun k => k.creates c ttl && !(story past k.handler).any (·.manages)

def anonymous : Past → List Call
  | [] => []
  | (s, e) :: past => (bootstraps c ttl past s e).toList ++ anonymous past

abbrev BootstrapsEmpty (past : Past) (s : Server) (e : Event) : Prop :=
  (bootstraps c ttl past s e).isSome = true → s.tables.userCount = 0

end

/-! ## Users stay -/

section
variable {c : Primitives} {ttl : Time} {env : Env} {fate : Fate} {t t' : Tables} {stage : Stage}

theorem role_updateUser {username name : String} {change : UserRow → UserRow} {row : UserRow}
    (hrole : ∀ row, (change row).role = row.role) (h : t.users.lookup name = some row) :
    ∃ row', (t.updateUser username change).users.lookup name = some row' ∧
      row'.role = row.role := by
  unfold Tables.updateUser
  split
  next => exact ⟨row, h, rfl⟩
  next old hold =>
    by_cases hname : name = username
    · subst hname
      cases h.symm.trans hold
      exact ⟨change row, AList.lookup_insert _, hrole row⟩
    · exact ⟨row, (AList.lookup_insert_ne hname).trans h, rfl⟩

/-- No statement removes a user or changes a role. -/
theorem Stage.role_statement {username : String} {row : UserRow}
    (h : stage.statement c ttl env t = .ok t') (hrow : t.users.lookup username = some row) :
    ∃ row', t'.users.lookup username = some row' ∧ row'.role = row.role := by
  cases stage with
  | createUser body role actor hash =>
      obtain ⟨hfree, rfl⟩ := Tables.createUser_ok h
      have hname : username ≠ body.username := by
        rintro rfl
        rw [hfree] at hrow
        cases hrow
      exact ⟨row, (AList.lookup_insert_ne hname).trans hrow, rfl⟩
  | setTotpSecret sess secret =>
      cases h
      exact role_updateUser (fun _ => rfl) hrow
  | confirmTotp sess =>
      cases h
      exact role_updateUser (fun _ => rfl) hrow
  | createSession body u token =>
      obtain ⟨-, rfl⟩ := Tables.createSession_ok h
      exact ⟨row, hrow, rfl⟩
  | revokeSession sess idText id =>
      obtain ⟨e, -, -, rfl⟩ := Tables.revokeSession_ok h
      exact ⟨row, hrow, rfl⟩
  | _ =>
      cases h
      exact ⟨row, hrow, rfl⟩

theorem Stage.role_leaves {username : String} {row : UserRow}
    (hrow : t.users.lookup username = some row) :
    ∃ row', (stage.leaves c ttl env fate t).users.lookup username = some row' ∧
      row'.role = row.role := by
  rcases Stage.leaves_cases stage with hsame | ⟨-, hstatement⟩
  · rw [hsame]
    exact ⟨row, hrow, rfl⟩
  · exact Stage.role_statement hstatement hrow

theorem Server.role_step {s s' : Server} {e : Event} {username : String} {row : UserRow}
    (hstep : Server.step c ttl s e = some s') (hrow : s.tables.users.lookup username = some row) :
    ∃ row', s'.tables.users.lookup username = some row' ∧ row'.role = row.role := by
  cases step_moves c ttl hstep with
  | receive _ => exact ⟨row, by rw [advance_tables]; exact hrow, rfl⟩
  | perform _ =>
      rw [advance_tables]
      exact Stage.role_leaves hrow
  | reply _ => exact ⟨row, by rw [advance_tables]; exact hrow, rfl⟩
  | @record i stored entry _ => exact ⟨row, by cases stored <;> exact hrow, rfl⟩

/-! ## One call -/

/-- A request that comes to the insertion without a session creates an administrator. -/
theorem Path.creates_admin {request : Request} {ks : List Call} {body : UserBody} {role : Role}
    {actor : String} {hash : Text} (hpath : Path c request ks (.createUser body role actor hash))
    (hnone : ks.any (·.manages) = false) : role = .admin := by
  rcases hpath.last with ⟨route, -, henters⟩ | ⟨h, before, env, t, rest, rfl, -, hleads⟩
  · cases henters
  · cases hleads with
    | bootstrap _ => rfl
    | admits _ _ _ henters => cases henters
    | manages hfound hactive hperm =>
        simp [Call.manages, hfound, hactive, hperm, Except.toOption] at hnone

theorem lookup_created {username : String} {hash : Text} {role : Role}
    (h : t.createUser username hash role = .ok t') :
    ∃ row, t'.users.lookup username = some row ∧ row.role = role := by
  obtain ⟨-, rfl⟩ := Tables.createUser_ok h
  exact ⟨_, AList.lookup_insert _, rfl⟩

theorem userCount_pos {username : String} {row : UserRow}
    (h : t.users.lookup username = some row) : t.userCount ≠ 0 := by
  intro hzero
  have hmem := AList.mem_lookup_iff.mp h
  rw [List.eq_nil_of_length_eq_zero hzero] at hmem
  cases hmem

end

/-! ## Whole runs -/

section
variable {c : Primitives} {ttl : Time} {tables : Tables} {past : Past} {s s' : Server} {e : Event}

def Call.CreatedAdmin (s : Server) (k : Call) : Prop :=
  ∃ body actor hash row, k.stage = .createUser body .admin actor hash ∧
    s.tables.users.lookup body.username = some row ∧ row.role = .admin

/-- At most one user has been created without a session, and that one is an administrator. -/
structure OneAnonymous (c : Primitives) (ttl : Time) (past : Past) (s : Server) : Prop where
  single : (anonymous c ttl past).length ≤ 1
  admins : ∀ k ∈ anonymous c ttl past, k.CreatedAdmin s

theorem Call.CreatedAdmin.step {k : Call} (hk : k.CreatedAdmin s)
    (hstep : Server.step c ttl s e = some s') : k.CreatedAdmin s' := by
  obtain ⟨body, actor, hash, row, hstage, hrow, hrole⟩ := hk
  obtain ⟨row', hrow', hsame⟩ := Server.role_step hstep hrow
  exact ⟨body, actor, hash, row', hstage, hrow', hsame.trans hrole⟩

/-- A user who is created without a session is an administrator. -/
theorem Follows.createdAdmin (hs : Follows c past s) (hstep : Server.step c ttl s e = some s')
    {k : Call} (hk : bootstraps c ttl past s e = some k) : k.CreatedAdmin s' := by
  obtain ⟨hcall, htest⟩ := Option.filter_eq_some_iff.mp hk
  obtain ⟨hcreates, hnone⟩ := Bool.and_eq_true_iff.mp htest
  obtain ⟨-, hrun, -⟩ := callOf_eq_some hcall
  obtain ⟨s₀, request, -, -, hpath⟩ := hs k.handler _ hrun
  rw [Call.CreatedAdmin, tables_of_call hcall hstep]
  cases hstage : k.stage with
  | createUser body role actor hash =>
      rw [hstage] at hpath
      cases hpath.creates_admin (Bool.not_eq_true' _ ▸ hnone)
      simp only [Call.creates, hstage] at hcreates
      have hstatement := Call.statement_of_ran hcreates
      rw [hstage] at hstatement
      obtain ⟨row, hrow, hrole⟩ := lookup_created hstatement
      exact ⟨body, actor, hash, row, rfl, hrow, hrole⟩
  | _ =>
      rw [Call.creates, hstage] at hcreates
      cases hcreates

theorem OneAnonymous.step (hs : OneAnonymous c ttl past s) (hfollows : Follows c past s)
    (hmay : BootstrapsEmpty c ttl past s e) (hstep : Server.step c ttl s e = some s') :
    OneAnonymous c ttl ((s, e) :: past) s' := by
  cases hnew : bootstraps c ttl past s e with
  | none =>
      have hsame : anonymous c ttl ((s, e) :: past) = anonymous c ttl past := by
        rw [anonymous, hnew]
        rfl
      exact ⟨hsame ▸ hs.single, fun k hk => (hs.admins k (hsame ▸ hk)).step hstep⟩
  | some new =>
      have hempty : s.tables.userCount = 0 := hmay (by rw [hnew]; rfl)
      -- a user created before would still be there
      have hfirst : anonymous c ttl past = [] := by
        apply List.eq_nil_iff_forall_not_mem.mpr
        intro k hk
        obtain ⟨body, actor, hash, row, -, hrow, -⟩ := hs.admins k hk
        exact userCount_pos hrow hempty
      have honly : anonymous c ttl ((s, e) :: past) = [new] := by
        rw [anonymous, hnew, hfirst]
        rfl
      refine ⟨by rw [honly]; exact Nat.le_refl 1, fun k hk => ?_⟩
      rw [honly, List.mem_singleton] at hk
      subst hk
      exact hfollows.createdAdmin hstep hnew

/-- As long as a user without a session behind it is inserted into an empty table only, at most
one user is created that way, and it is an administrator. -/
theorem one_anonymous_user
    (hrun : Course (Server.step c ttl) (BootstrapsEmpty c ttl) (Server.start tables) past s) :
    OneAnonymous c ttl past s := by
  have hboth : Follows c past s ∧ OneAnonymous c ttl past s := by
    apply Course.invariant (fun past s => Follows c past s ∧ OneAnonymous c ttl past s) ?_ ?_ hrun
    · exact ⟨Follows.start c tables, Nat.zero_le 1, fun k hk => absurd hk List.not_mem_nil⟩
    · intro past s e s' hs hmay hstep
      exact ⟨hs.1.step hstep, hs.2.step hs.1 hmay hstep⟩
  exact hboth.2

end

/-! ## Two runs -/

open Watched in
/-- Two requests come in before there is a user; each has counted before the other inserts. -/
def twoFirst : List Event :=
  [(0, "root"), (1, "backup")].flatMap (fun p =>
    serve p.1 "/api/v1/users" (.createUser (some ⟨p.2, password, "admin"⟩)) 0 1) ++
  [.perform 0 (envOf 0) .done]

open Watched in
theorem one_anonymous_user_root :
    ∃ past s, Course (Server.step plainPrimitives sessionTtl)
        (BootstrapsEmpty plainPrimitives sessionTtl) (Server.start Tables.empty) past s ∧
      (anonymous plainPrimitives sessionTtl past).length = 1 ∧
      OneAnonymous plainPrimitives sessionTtl past s := by
  obtain ⟨past, s, hrun, hone⟩ :=
    course_of_any (Server.step plainPrimitives sessionTtl)
      (BootstrapsEmpty plainPrimitives sessionTtl) (s := Server.start Tables.empty) twoFirst
      (fun past _ => (anonymous plainPrimitives sessionTtl past).length = 1) (by decide +kernel)
  exact ⟨past, s, hrun, hone, one_anonymous_user hrun⟩

open Watched in
theorem two_anonymous_users :
    ∃ past s, Course (Server.step plainPrimitives sessionTtl) (fun _ _ _ => True)
        (Server.start Tables.empty) past s ∧
      ¬ OneAnonymous plainPrimitives sessionTtl past s := by
  obtain ⟨past, s, hrun, htwo⟩ :=
    course_of_any (Server.step plainPrimitives sessionTtl) (fun _ _ _ => True)
      (s := Server.start Tables.empty) (twoFirst ++ [.perform 1 (envOf 0) .done])
      (fun past _ => (anonymous plainPrimitives sessionTtl past).length = 2) (by decide +kernel)
  refine ⟨past, s, hrun, fun hone => ?_⟩
  have hsingle := hone.single
  omega

end TomAgent.Console
