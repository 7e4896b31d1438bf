import TomAgent.Console.SecondFactor

/-!
# Where a privileged action comes from

Requests are served one after the other.  A request that acts on the fleet, revokes a session
or reads the audit log has shown a token; the session of that token goes back to a login whose
password and code were right, and has been in the table ever since.
-/

namespace TomAgent.Console

open Execution Iam Server

/-! ## Vocabulary -/

/-- The calls this is about, with the permission that the route table asks for. -/
def Stage.privilege : Stage → Option Perm
  | .forward _ .submit _ => some .commandSubmit
  | .forward _ .cancel _ => some .commandCancel
  | .revokeSession _ _ _ => some .admin
  | .listAudit _ => some .admin
  | _ => none

/-- A request is read when no other is under way. -/
def sequential (s : Server) : Event → Bool
  | .receive _ _ => s.handlers.entries.isEmpty
  | _ => true

abbrev Sequential (_ : Past) (s : Server) (e : Event) : Prop := sequential s e = true

def presented (past : Past) : List Text :=
  past.filterMap fun
    | (_, .receive _ request) => bearer request.caller.authorization
    | _ => none

def drawn (past : Past) : List Text :=
  (calls past).filterMap fun k =>
    match k.stage with
    | .createSession _ _ token => some token
    | _ => none

section
variable (c : Primitives) (ttl : Time)

def NoCollisions (past : Past) : Prop :=
  ∀ token ∈ presented past, ∀ other ∈ drawn past, c.tokenHash token = c.tokenHash other →
    token = other

instance (past : Past) : Decidable (NoCollisions c past) :=
  inferInstanceAs (Decidable (∀ token ∈ _, _))

/-- The lookup `f` of a login has found its user, and the login has shown what it must. -/
structure Call.Admits (body : LoginBody) (u : UserInfo) (f : Call) : Prop where
  looked : f.stage = .findLogin body
  found : f.tables.findUser body.username = .ok u
  password : c.verifyPassword body.password u.passwordHash = true
  active : u.status = .active
  code : u.totpConfirmed = true → c.verify u.totpSecret body.totpCode f.env.now = true

/-- The call `k` of a login after its lookup `f` has put the session in the table, and if it
has heard so the login has answered with the token. -/
structure Call.LogsIn (k : Call) (s : Server) (token : Text) (row : SessionRow) (f : Call) :
    Prop where
  admitted : ∃ body u, k.stage = .createSession body u token ∧ f.Admits c body u ∧
    row.username = body.username ∧
    (k.fate = .done → (k.handler, ⟨200, .login token row.expiresAt u.role⟩) ∈ s.responses)
  ran : k.ran c ttl = true
  created : (k.leaves c ttl).sessions.lookup (c.tokenHash token) = some row

/-- A login has created the session, and every call since then has left it in the table. -/
def Issued (past : Past) (s : Server) (token : Text) (row : SessionRow) : Prop :=
  ∃ later login earlier f k, past = later ++ login :: earlier ∧ callOf login = some k ∧
    story earlier k.handler = [f] ∧ k.LogsIn c ttl s token row f ∧
    ∀ k' ∈ calls later, (k'.leaves c ttl).sessions.lookup (c.tokenHash token) = some row

structure Legitimate (past : Past) (s : Server) (h : Nat) (who : Caller) (perm : Perm)
    (token : Text) (row : SessionRow) : Prop where
  shown : bearer who.authorization = some token
  issued : Issued c ttl past s token row
  present : s.tables.sessions.lookup (c.tokenHash token) = some row
  live : ∃ k ∈ story past h, (∃ purpose, k.stage = .findSession purpose (c.tokenHash token)) ∧
    k.env.now ≤ row.expiresAt
  allowed : ∃ u, s.tables.users.lookup row.username = some u ∧ u.status = .active ∧
    hasPermission u.role perm = true

end

/-! ## One request -/

section
variable {c : Primitives} {ttl : Time} {request : Request} {ks : List Call}

theorem secondFactor_code {env : Env} {body : LoginBody} {u : UserInfo}
    (hfactor : secondFactor c env body u = .ok ()) (hconfirmed : u.totpConfirmed = true) :
    c.verify u.totpSecret body.totpCode env.now = true := by
  rw [secondFactor, if_pos hconfirmed] at hfactor
  split at hfactor
  next => cases hfactor
  next =>
    split at hfactor
    next hverified => exact hverified
    next => cases hfactor

theorem Path.admits {body : LoginBody} {u : UserInfo} {token : Text}
    (hpath : Path c request ks (.createSession body u token)) :
    ∃ f, ks = [f] ∧ f.Admits c body u := by
  rcases hpath.last with ⟨route, -, henters⟩ | ⟨h, before, env, t, rest, rfl, hfirst, hleads⟩
  · cases henters
  · cases hleads with
    | admits _ _ _ henters => cases henters
    | login hfound hpassword hactive hfactor =>
        rcases hfirst.last with ⟨route, rfl, -⟩ | ⟨_, _, _, _, _, -, -, hleads⟩
        · exact ⟨_, rfl, rfl, hfound, hpassword, hactive, secondFactor_code hfactor⟩
        · cases hleads with
          | admits _ _ _ henters => cases henters

/-- The session of a request behind `auth`. -/
theorem Path.session {endpoint : Guarded} {username : String}
    (hpath : Path c request ks (.findSessionUser (.guarded endpoint) username)) :
    ∃ k token expires, ks = [k] ∧ bearer request.caller.authorization = some token ∧
      k.stage = .findSession (.guarded endpoint) (c.tokenHash token) ∧
      k.tables.findSession (c.tokenHash token) = .ok (username, expires) ∧
      k.env.now ≤ expires := by
  rcases hpath.last with ⟨route, -, henters⟩ | ⟨h, before, env, t, rest, rfl, hfirst, hleads⟩
  · cases henters
  · cases hleads with
    | admits _ _ _ henters => cases henters
    | @session _ hash _ expires hfound hlive =>
        rcases hfirst.last with ⟨route, rfl, henters⟩ | ⟨_, _, _, _, _, -, -, hleads⟩
        · cases henters with
          | @guarded _ token htoken => exact ⟨_, token, expires, rfl, htoken, rfl, hfound, hlive⟩
        · cases hleads with
          | admits _ _ _ henters => cases henters

theorem Guarded.Enters.privilege {who : Caller} {env : Env} {sess : SessionCtx}
    {endpoint : Guarded} {stage : Stage} {perm : Perm}
    (h : endpoint.Enters c who env sess stage) (hperm : stage.privilege = some perm) :
    endpoint.perm = some perm := by
  cases h with
  | @forward endpoint query =>
      cases endpoint with
      | submit => exact hperm
      | cancel => exact hperm
      | result => cases hperm
      | assets => cases hperm
  | revoke => exact hperm
  | listAudit => exact hperm
  | _ => cases hperm

/-- A request comes to a privileged call by a live session of an active user who may make it. -/
theorem Path.privileged {stage : Stage} {perm : Perm} (hpath : Path c request ks stage)
    (hperm : stage.privilege = some perm) :
    ∃ token username expires u k k' endpoint, ks = [k', k] ∧
      bearer request.caller.authorization = some token ∧
      k.stage = .findSession (.guarded endpoint) (c.tokenHash token) ∧
      k.tables.findSession (c.tokenHash token) = .ok (username, expires) ∧
      k.env.now ≤ expires ∧ k'.tables.findUser username = .ok u ∧ u.status = .active ∧
      hasPermission u.role perm = true := by
  rcases hpath.last with ⟨route, -, henters⟩ | ⟨h, before, env, t, rest, rfl, hfirst, hleads⟩
  · cases henters <;> cases hperm
  · cases hleads with
    | @admits endpoint username u _ hfound hactive hallowed henters =>
        obtain ⟨k, token, expires, rfl, htoken, hstage, hsession, hlive⟩ := hfirst.session
        exact ⟨token, username, expires, u, k, _, endpoint, rfl, htoken, hstage, hsession, hlive,
          hfound, hactive, hallowed perm (henters.privilege hperm)⟩
    | _ => cases hperm

end

/-! ## Sessions go back to logins -/

section
variable {c : Primitives} {ttl : Time} {past : Past} {s s' : Server} {e : Event}

def Answered (c : Primitives) (ttl : Time) (past : Past) (s : Server) : Prop :=
  ∀ k ∈ calls past, ∀ x, k.next c ttl = .exit x → (k.handler, x.response) ∈ s.responses

theorem responses_subset_advance (s : Server) (h : Nat) (who : Caller) (next : Next) :
    s.responses ⊆ (s.advance h who next).responses := by
  cases next with
  | call stage => exact List.Subset.refl _
  | exit x => exact List.subset_append_left _ _

theorem responses_subset_step (hstep : Server.step c ttl s e = some s') :
    s.responses ⊆ s'.responses := by
  cases step_moves c ttl hstep with
  | receive _ => exact responses_subset_advance s _ _ _
  | @perform h env fate who stage _ =>
      let t := stage.leaves c ttl env fate s.tables
      exact responses_subset_advance { s with tables := t } h who _
  | reply _ => exact responses_subset_advance s _ _ _
  | record _ => exact List.Subset.refl _

theorem mem_calls_cons {k : Call} (hk : k ∈ calls ((s, e) :: past)) :
    callOf (s, e) = some k ∨ k ∈ calls past := by
  rw [calls, List.filterMap_cons] at hk
  split at hk
  next => exact Or.inr hk
  next k' hcall =>
    rcases List.mem_cons.mp hk with rfl | hold
    · exact Or.inl hcall
    · exact Or.inr hold

theorem Answered.step (hs : Answered c ttl past s) (hstep : Server.step c ttl s e = some s') :
    Answered c ttl ((s, e) :: past) s' := by
  intro k hk x hexit
  rcases mem_calls_cons hk with hcall | hold
  · obtain ⟨rfl, hrun, htables⟩ := callOf_eq_some hcall
    cases step_moves c ttl hstep with
    | perform hrun' =>
        cases hrun.symm.trans hrun'
        rw [Call.next, htables] at hexit
        rw [hexit]
        exact List.mem_append_right _ (List.mem_singleton_self _)
  · exact responses_subset_step hstep (hs k hold x hexit)

def Known (c : Primitives) (ttl : Time) (past : Past) (s : Server) : Prop :=
  ∀ hash row, s.tables.sessions.lookup hash = some row →
    ∃ token ∈ drawn past, c.tokenHash token = hash ∧ Issued c ttl past s token row

theorem drawn_subset_cons (entry : Server × Event) (past : Past) :
    drawn past ⊆ drawn (entry :: past) :=
  List.filterMap_subset _ (calls_subset_cons entry past)

theorem Call.LogsIn.step {k f : Call} {token : Text} {row : SessionRow}
    (h : k.LogsIn c ttl s token row f) (hstep : Server.step c ttl s e = some s') :
    k.LogsIn c ttl s' token row f := by
  obtain ⟨body, u, hstage, hadmits, hname, htold⟩ := h.admitted
  exact ⟨⟨body, u, hstage, hadmits, hname,
    fun hdone => responses_subset_step hstep (htold hdone)⟩, h.ran, h.created⟩

theorem Issued.step {token : Text} {row : SessionRow} (h : Issued c ttl past s token row)
    (hstep : Server.step c ttl s e = some s')
    (hrow : s'.tables.sessions.lookup (c.tokenHash token) = some row) :
    Issued c ttl ((s, e) :: past) s' token row := by
  obtain ⟨later, login, earlier, f, k, rfl, hcall, hstory, hlogin, hsince⟩ := h
  refine ⟨(s, e) :: later, login, earlier, f, k, rfl, hcall, hstory, hlogin.step hstep, ?_⟩
  intro k' hk'
  rcases mem_calls_cons hk' with hnew | hold
  · rw [← tables_of_call hnew hstep]
    exact hrow
  · exact hsince k' hold

/-- A login that has heard of its session answers with the token. -/
theorem Call.next_createSession {k : Call} {body : LoginBody} {u : UserInfo} {token : Text}
    (hstage : k.stage = .createSession body u token) (hdone : k.fate = .done) {t' : Tables}
    (hstatement : k.stage.statement c ttl k.env k.tables = .ok t') :
    ∃ x, k.next c ttl = .exit x ∧ x.response = ⟨200, .login token (k.env.now + ttl) u.role⟩ := by
  rw [hstage] at hstatement
  rw [Call.next, hstage, hdone]
  simp only [Stage.resume, hstatement]
  exact ⟨_, rfl, rfl⟩

theorem Follows.issued (hs : Follows c past s) (hstep : Server.step c ttl s e = some s')
    {k : Call} (hcall : callOf (s, e) = some k) {body : LoginBody} {u : UserInfo} {token : Text}
    (hstage : k.stage = .createSession body u token) {row : SessionRow}
    (hrow : s'.tables.sessions.lookup (c.tokenHash token) = some row)
    (hname : row.username = body.username) (hexpires : row.expiresAt = k.env.now + ttl)
    {t' : Tables} (hfate : k.fate ≠ .refused)
    (hstatement : k.stage.statement c ttl k.env k.tables = .ok t')
    (hanswered : Answered c ttl ((s, e) :: past) s') :
    Issued c ttl ((s, e) :: past) s' token row := by
  obtain ⟨-, hrun, -⟩ := callOf_eq_some hcall
  obtain ⟨s₀, request, -, -, hpath⟩ := hs k.handler _ hrun
  rw [hstage] at hpath
  obtain ⟨f, hstory, hadmits⟩ := hpath.admits
  have htold : k.fate = .done →
      (k.handler, ⟨200, .login token row.expiresAt u.role⟩) ∈ s'.responses := by
    intro hdone
    obtain ⟨x, hexit, hresponse⟩ := Call.next_createSession hstage hdone hstatement
    have hmem : k ∈ calls ((s, e) :: past) := List.mem_filterMap.mpr ⟨_, List.mem_cons_self, hcall⟩
    rw [hexpires, ← hresponse]
    exact hanswered k hmem x hexit
  have hcreated : (k.leaves c ttl).sessions.lookup (c.tokenHash token) = some row := by
    rw [← tables_of_call hcall hstep]
    exact hrow
  have hran : k.ran c ttl = true := by
    rw [Call.ran, Stage.ran, hstatement, decide_eq_true hfate]
    rfl
  have hlogin : k.LogsIn c ttl s' token row f :=
    ⟨⟨body, u, hstage, hadmits, hname, htold⟩, hran, hcreated⟩
  exact ⟨[], (s, e), past, f, k, rfl, hcall, hstory, hlogin, fun k' hk' =>
    absurd hk' List.not_mem_nil⟩

theorem Known.step (hs : Known c ttl past s) (hfollows : Follows c past s)
    (hanswered : Answered c ttl past s) (hstep : Server.step c ttl s e = some s') :
    Known c ttl ((s, e) :: past) s' := by
  intro hash row hrow
  -- a session that was there before
  have hkeep : s.tables.sessions.lookup hash = some row →
      ∃ token ∈ drawn ((s, e) :: past), c.tokenHash token = hash ∧
        Issued c ttl ((s, e) :: past) s' token row := by
    intro hbefore
    obtain ⟨token, htoken, rfl, hissued⟩ := hs hash row hbefore
    exact ⟨token, drawn_subset_cons (s, e) past htoken, rfl, hissued.step hstep hrow⟩
  cases step_moves c ttl hstep with
  | receive _ => exact hkeep (by rwa [advance_tables] at hrow)
  | reply _ => exact hkeep (by rwa [advance_tables] at hrow)
  | @record i stored entry _ => exact hkeep (by cases stored <;> exact hrow)
  | @perform h env fate who stage hrun =>
      have hleaves := hrow
      rw [advance_tables] at hleaves
      rcases Stage.leaves_cases stage with hsame | ⟨hfate, hstatement⟩
      · rw [hsame] at hleaves
        exact hkeep hleaves
      · rcases Stage.session_statement hstatement hleaves with
          hbefore | ⟨body, u, token, rfl, rfl, hname, hexpires⟩
        · exact hkeep hbefore
        · have hcall : callOf (s, .perform h env fate) = some _ := callOf_perform hrun
          have hdrawn : token ∈ drawn ((s, .perform h env fate) :: past) :=
            List.mem_filterMap.mpr
              ⟨_, List.mem_filterMap.mpr ⟨_, List.mem_cons_self, hcall⟩, rfl⟩
          exact ⟨token, hdrawn, rfl, hfollows.issued hstep hcall rfl hrow hname.symm hexpires
            hfate hstatement (hanswered.step hstep)⟩

end

/-! ## One request at a time -/

section
variable {c : Primitives} {ttl : Time} {past : Past} {s s' : Server} {e : Event} {h : Nat}

/-- The handler runs alone, and what its calls have seen is what there is. -/
structure Alone (past : Past) (s : Server) (h : Nat) : Prop where
  only : ∀ j handler, s.handlers.lookup j = some handler → j = h
  users : ∀ k ∈ story past h, k.tables.users = s.tables.users
  sessions : ∀ k ∈ story past h, k.tables.sessions = s.tables.sessions

def Still (past : Past) (s : Server) : Prop :=
  ∀ h handler, s.handlers.lookup h = some handler → Alone past s h

theorem Still.step (hs : Still past s) (hmay : Sequential past s e)
    (hstep : Server.step c ttl s e = some s') : Still ((s, e) :: past) s' := by
  intro h handler hh
  cases step_moves c ttl hstep with
  | @receive k request hfree =>
      have hnone : ∀ j handler', s.handlers.lookup j ≠ some handler' := by
        intro j handler' hj
        have hmem := AList.mem_lookup_iff.mp hj
        rw [List.isEmpty_iff.mp hmay] at hmem
        cases hmem
      rcases lookup_advance hh with ⟨rfl, -, -⟩ | ⟨-, hother⟩
      · refine ⟨fun j handler' hj => ?_, ?_, ?_⟩
        · rcases lookup_advance hj with ⟨rfl, -, -⟩ | ⟨-, hother⟩
          · rfl
          · exact absurd hother (hnone j handler')
        · rw [story_receive_self]
          exact fun k hk => absurd hk List.not_mem_nil
        · rw [story_receive_self]
          exact fun k hk => absurd hk List.not_mem_nil
      · exact absurd hother (hnone h handler)
  | @perform k env fate who stage hrun =>
      have halone := hs k _ hrun
      rcases lookup_advance hh with ⟨rfl, -, hnext⟩ | ⟨hne, hother⟩
      · have hread : stage.leaves c ttl env fate s.tables = s.tables :=
          (Stage.leads_of_call (not_forward_of_step hstep hrun) hnext).leaves
        refine ⟨fun j handler' hj => ?_, ?_, ?_⟩
        · rcases lookup_advance hj with ⟨rfl, -, -⟩ | ⟨-, hother⟩
          · rfl
          · exact halone.only j handler' hother
        · rw [story_perform_self hrun, advance_tables, hread]
          exact List.forall_mem_cons.mpr ⟨rfl, halone.users⟩
        · rw [story_perform_self hrun, advance_tables, hread]
          exact List.forall_mem_cons.mpr ⟨rfl, halone.sessions⟩
      · exact absurd (halone.only h handler hother) hne
  | @reply k upstream who sess endpoint query hrun =>
      rcases lookup_advance hh with ⟨-, -, hnext⟩ | ⟨hne, hother⟩
      · obtain ⟨x, hx⟩ := proxied_exit who sess endpoint query upstream
        rw [hx] at hnext
        cases hnext
      · exact absurd ((hs k _ hrun).only h handler hother) hne
  | @record i stored entry _ =>
      have halone := hs h handler hh
      have husers : (if stored then s.tables.recordAudit entry else s.tables).users =
          s.tables.users := by cases stored <;> rfl
      have hsessions : (if stored then s.tables.recordAudit entry else s.tables).sessions =
          s.tables.sessions := by cases stored <;> rfl
      exact ⟨halone.only, fun k hk => (halone.users k hk).trans husers.symm,
        fun k hk => (halone.sessions k hk).trans hsessions.symm⟩

structure Origins (c : Primitives) (ttl : Time) (past : Past) (s : Server) : Prop where
  follows : Follows c past s
  answered : Answered c ttl past s
  known : Known c ttl past s
  still : Still past s

theorem origins_of_course {tables : Tables} (hsessions : tables.sessions = ∅)
    (hrun : Course (Server.step c ttl) Sequential (Server.start tables) past s) :
    Origins c ttl past s := by
  apply Course.invariant (Origins c ttl) ?_ ?_ hrun
  · refine ⟨Follows.start c tables, fun k hk => absurd hk List.not_mem_nil, ?_, ?_⟩
    · intro hash row hrow
      rw [Server.start, hsessions] at hrow
      cases hrow
    · intro h handler hh
      cases hh
  · intro past s e s' hs hmay hstep
    exact ⟨hs.follows.step hstep, hs.answered.step hstep,
      hs.known.step hs.follows hs.answered hstep, hs.still.step hmay hstep⟩

/-- Behind every privileged call there is a login of a user who may make it. -/
theorem privileged_call_has_origin {tables : Tables} (hsessions : tables.sessions = ∅)
    (hrun : Course (Server.step c ttl) Sequential (Server.start tables) past s)
    (hcollisions : NoCollisions c past) {who : Caller} {stage : Stage} {perm : Perm}
    (hat : s.handlers.lookup h = some ⟨who, stage⟩) (hperm : stage.privilege = some perm) :
    ∃ token row, Legitimate c ttl past s h who perm token row := by
  have horigins := origins_of_course hsessions hrun
  obtain ⟨s₀, request, harrived, hwho, hpath⟩ := horigins.follows h _ hat
  obtain rfl : who = request.caller := hwho
  have halone := horigins.still h _ hat
  obtain ⟨token, username, expires, u, k, k', endpoint, hstory, htoken, hstage, hsession, hlive,
    huser, hactive, hallowed⟩ := hpath.privileged hperm
  have hk : k ∈ story past h := by rw [hstory]; simp
  have hk' : k' ∈ story past h := by rw [hstory]; simp
  obtain ⟨row, hrow, rfl, rfl⟩ := Tables.lookup_of_findSession hsession
  rw [halone.sessions k hk] at hrow
  obtain ⟨other, hdrawn, hhash, hissued⟩ := horigins.known _ row hrow
  have hpresented : token ∈ presented past := List.mem_filterMap.mpr ⟨_, harrived, htoken⟩
  cases hcollisions token hpresented other hdrawn hhash.symm
  obtain ⟨userRow, huserRow, rfl⟩ := Tables.lookup_of_findUser huser
  rw [halone.users k' hk'] at huserRow
  exact ⟨token, row, htoken, hissued, hrow, ⟨k, hk, ⟨_, hstage⟩, hlive⟩,
    userRow, huserRow, hactive, hallowed⟩

end

open Watched in
theorem privileged_call_has_origin_audit :
    ∃ past s who stage, Course (Server.step plainPrimitives sessionTtl) Sequential
        (Server.start Tables.empty) past s ∧ s.handlers.lookup 2 = some ⟨who, stage⟩ ∧
      stage = .listAudit 50 ∧
      ∃ token row, Legitimate plainPrimitives sessionTtl past s 2 who .admin token row := by
  obtain ⟨past, s, hrun, hcollisions, hany⟩ :=
    course_of_any (Server.step plainPrimitives sessionTtl) Sequential
      (s := Server.start Tables.empty)
      (serve 0 "/api/v1/users" (.createUser (some ⟨"root", password, "admin"⟩)) 0 2 ++
        serveLogin 1 [] 0 ++ serve 2 "/api/v1/audit" (.guarded (.listAudit [])) 0 2)
      (fun past s => NoCollisions plainPrimitives past ∧
        (s.handlers.lookup 2).any (fun handler => handler.stage = .listAudit 50) = true)
      (by decide +kernel)
  obtain ⟨⟨who, stage⟩, hat, hstage⟩ := (Option.any_eq_true _ _).mp hany
  cases of_decide_eq_true hstage
  exact ⟨past, s, who, _, hrun, hat, rfl,
    privileged_call_has_origin rfl hrun hcollisions hat rfl⟩

end TomAgent.Console
