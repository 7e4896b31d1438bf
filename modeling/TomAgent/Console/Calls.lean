import TomAgent.Console.Api

/-!
# What a handler has done before

A handler comes to a store call by the calls before it.  `Leads` says once what each of these
has found; `Path` strings them together for one request; `Follows` finds that path for every
handler in the past of a run of the server, whatever the other handlers do in between.
-/

namespace TomAgent.Console

open Execution Iam Server

/-! ## From one call to the next -/

section
variable (c : Primitives) (who : Caller) (env : Env) (t : Tables)

inductive Guarded.Enters (sess : SessionCtx) : Guarded → Stage → Prop
  | logout :
      Enters sess .logout
        (.deleteSession sess (c.tokenHash ((bearer who.authorization).getD [])))
  | enroll {secret : Text} (hsecret : generateSecret env.random = some secret) :
      Enters sess .totpEnroll (.setTotpSecret sess secret)
  | confirm {code : Text} : Enters sess (.totpConfirm (some code)) (.findTotp sess code)
  | forward {endpoint : Proxy} {query : Query} :
      Enters sess (.proxy endpoint query) (.forward sess endpoint query)
  | listSessions : Enters sess .listSessions .listSessions
  | revoke {idText : Text} {id : Int} :
      Enters sess (.revokeSession idText) (.revokeSession sess idText id)
  | listAudit {limit : Text} : Enters sess (.listAudit limit) (.listAudit (auditLimit limit))

inductive Route.Enters : Route → Stage → Prop
  | createUser {body : UserBody} : Enters (.createUser (some body)) (.userCount body)
  | login {body : LoginBody} : Enters (.login (some body)) (.findLogin body)
  | guarded {endpoint : Guarded} {token : Text} (htoken : bearer who.authorization = some token) :
      Enters (.guarded endpoint) (.findSession (.guarded endpoint) (c.tokenHash token))

/-- A call that ran on the tables `t` takes its handler to another one. -/
inductive Leads : Stage → Stage → Prop
  | bootstrap {body : UserBody} {hash : Text} (hempty : t.userCount = 0) :
      Leads (.userCount body) (.createUser body .admin "anonymous" hash)
  | authenticates {body : UserBody} {token : Text} (hsome : 0 < t.userCount)
      (htoken : bearer who.authorization = some token) :
      Leads (.userCount body) (.findSession (.createUser body) (c.tokenHash token))
  | session {purpose : Purpose} {hash : Text} {username : String} {expires : Time}
      (hfound : t.findSession hash = .ok (username, expires)) (hlive : env.now ≤ expires) :
      Leads (.findSession purpose hash) (.findSessionUser purpose username)
  | manages {body : UserBody} {username : String} {u : UserInfo} {role : Role} {hash : Text}
      (hfound : t.findUser username = .ok u) (hactive : u.status = .active)
      (hperm : hasPermission u.role .userManage = true) :
      Leads (.findSessionUser (.createUser body) username) (.createUser body role username hash)
  | admits {endpoint : Guarded} {username : String} {u : UserInfo} {stage : Stage}
      (hfound : t.findUser username = .ok u) (hactive : u.status = .active)
      (hperm : ∀ perm, endpoint.perm = some perm → hasPermission u.role perm = true)
      (henters : endpoint.Enters c who env ⟨username, u.role⟩ stage) :
      Leads (.findSessionUser (.guarded endpoint) username) stage
  | login {body : LoginBody} {u : UserInfo} {token : Text}
      (hfound : t.findUser body.username = .ok u)
      (hpassword : c.verifyPassword body.password u.passwordHash = true)
      (hactive : u.status = .active) (hfactor : secondFactor c env body u = .ok ()) :
      Leads (.findLogin body) (.createSession body u token)
  | confirms {sess : SessionCtx} {code : Text} {u : UserInfo}
      (hfound : t.findUser sess.username = .ok u) (hsecret : u.totpSecret ≠ [])
      (hverified : c.verify u.totpSecret code env.now = true) :
      Leads (.findTotp sess code) (.confirmTotp sess)

end

section
variable {c : Primitives} {ttl : Time} {who : Caller} {env : Env} {fate : Fate} {t : Tables}
variable {stage stage' : Stage}

theorem Fate.told_ok {α : Type} {result : Except StoreError α} {a : α}
    (h : fate.told result = .ok a) : result = .ok a := by
  cases fate with
  | done => exact h
  | lost => cases h
  | refused => cases h

theorem authenticate_call {purpose : Purpose} (h : authenticate c who purpose = .call stage) :
    ∃ token, bearer who.authorization = some token ∧
      stage = .findSession purpose (c.tokenHash token) := by
  unfold authenticate at h
  split at h
  next => cases h
  next token htoken =>
    cases h
    exact ⟨token, htoken, rfl⟩

theorem createUserAs_call {body : UserBody} {actor : String}
    (h : createUserAs c who env body actor = .call stage) :
    ∃ role hash, Role.ofName body.role = some role ∧ stage = .createUser body role actor hash := by
  unfold createUserAs at h
  split at h
  next => cases h
  next =>
    split at h
    next => cases h
    next =>
      split at h
      next => cases h
      next role hrole =>
        split at h
        next => cases h
        next hash _ =>
          cases h
          exact ⟨role, hash, hrole, rfl⟩

theorem Guarded.enters_of_call {sess : SessionCtx} {endpoint : Guarded}
    (h : endpoint.enter c who env sess = .call stage) : endpoint.Enters c who env sess stage := by
  cases endpoint with
  | logout =>
      cases h
      exact .logout
  | totpEnroll =>
      simp only [Guarded.enter] at h
      split at h
      next => cases h
      next secret hsecret =>
        cases h
        exact .enroll hsecret
  | totpConfirm code =>
      cases code with
      | none => cases h
      | some code =>
          cases h
          exact .confirm
  | whoami => cases h
  | proxy endpoint query =>
      simp only [Guarded.enter] at h
      split at h
      next =>
        cases h
        exact .forward
      next => cases h
  | listSessions =>
      cases h
      exact .listSessions
  | revokeSession idText =>
      simp only [Guarded.enter] at h
      split at h
      next => cases h
      next =>
        split at h
        next => cases h
        next =>
          cases h
          exact .revoke
  | listAudit limit =>
      cases h
      exact .listAudit

theorem Guarded.admitted_call {sess : SessionCtx} {endpoint : Guarded}
    (h : endpoint.admitted c who env sess = .call stage) :
    (∀ perm, endpoint.perm = some perm → hasPermission sess.role perm = true) ∧
      endpoint.Enters c who env sess stage := by
  unfold Guarded.admitted at h
  split at h
  next hperm =>
    refine ⟨fun perm h' => ?_, Guarded.enters_of_call h⟩
    rw [hperm] at h'
    cases h'
  next perm hperm =>
    split at h
    next hholds =>
      refine ⟨fun perm' h' => ?_, Guarded.enters_of_call h⟩
      rw [hperm] at h'
      cases h'
      exact hholds
    next => cases h

theorem Route.enters_of_call {route : Route} (h : route.enter c who = .call stage) :
    route.Enters c who stage := by
  fun_cases Route.enter c who route
  · cases h
  · cases h
    exact .createUser
  · cases h
  · cases h
    exact .login
  · obtain ⟨token, htoken, rfl⟩ := authenticate_call h
    exact .guarded htoken

theorem leads_userCount {body : UserBody}
    (h : (Stage.userCount body).resume c ttl who env fate t = .call stage) :
    Leads c who env t (.userCount body) stage := by
  simp only [Stage.resume] at h
  split at h
  next => cases h
  next hcount =>
    split at h
    next => cases h
    next hadmin =>
      obtain ⟨role, hash, hrole, rfl⟩ := createUserAs_call h
      rw [not_not.mp hadmin] at hrole
      cases Option.some.inj hrole
      exact .bootstrap (Except.ok.inj (Fate.told_ok hcount))
  next n hcount =>
    obtain ⟨token, htoken, rfl⟩ := authenticate_call h
    have hn : t.userCount = n + 1 := Except.ok.inj (Fate.told_ok hcount)
    exact .authenticates (by rw [hn]; exact Nat.succ_pos n) htoken

theorem leads_findSessionUser {purpose : Purpose} {username : String}
    (h : (Stage.findSessionUser purpose username).resume c ttl who env fate t = .call stage) :
    Leads c who env t (.findSessionUser purpose username) stage := by
  simp only [Stage.resume] at h
  split at h
  next => cases h
  next u hfound =>
    split at h
    next => cases h
    next hactive =>
      cases purpose with
      | createUser body =>
          simp only [Purpose.admitted] at h
          split at h
          next hperm =>
            obtain ⟨role, hash, -, rfl⟩ := createUserAs_call h
            exact .manages (Fate.told_ok hfound) (not_not.mp hactive) hperm
          next => cases h
      | guarded endpoint =>
          obtain ⟨hperm, henters⟩ := Guarded.admitted_call h
          exact .admits (Fate.told_ok hfound) (not_not.mp hactive) hperm henters

theorem leads_findLogin {body : LoginBody}
    (h : (Stage.findLogin body).resume c ttl who env fate t = .call stage) :
    Leads c who env t (.findLogin body) stage := by
  simp only [Stage.resume, checkLogin] at h
  split at h
  next => cases h
  next => cases h
  next u hfound =>
    split at h
    next => cases h
    next hpassword =>
      split at h
      next => cases h
      next hactive =>
        split at h
        next => cases h
        next hfactor =>
          split at h
          next => cases h
          next =>
            cases h
            exact .login (Fate.told_ok hfound) (not_not.mp hpassword) (not_not.mp hactive) hfactor

/-- The store calls after which a handler goes on, and what it has found by then. -/
theorem Stage.leads_of_call (hlocal : ∀ sess endpoint query, stage ≠ .forward sess endpoint query)
    (h : stage.resume c ttl who env fate t = .call stage') : Leads c who env t stage stage' := by
  cases stage with
  | userCount body => exact leads_userCount h
  | findSession purpose hash =>
      simp only [Stage.resume] at h
      split at h
      next => cases h
      next username expires hfound =>
        split at h
        next => cases h
        next hlive =>
          cases h
          exact .session (Fate.told_ok hfound) (not_lt.mp hlive)
  | findSessionUser purpose username => exact leads_findSessionUser h
  | findLogin body => exact leads_findLogin h
  | findTotp sess code =>
      simp only [Stage.resume] at h
      split at h
      next => cases h
      next u hfound =>
        split at h
        next => cases h
        next hsecret =>
          split at h
          next hverified =>
            cases h
            exact .confirms (Fate.told_ok hfound) hsecret hverified
          next => cases h
  | forward sess endpoint query => exact absurd rfl (hlocal sess endpoint query)
  | _ =>
      simp only [Stage.resume, createdUser, revokedSession] at h
      repeat' split at h
      all_goals cases h

theorem Stage.done_of_call (hlocal : ∀ sess endpoint query, stage ≠ .forward sess endpoint query)
    (h : stage.resume c ttl who env fate t = .call stage') : fate = .done := by
  cases fate with
  | done => rfl
  | lost => cases Stage.leads_of_call hlocal h <;> cases h
  | refused => cases Stage.leads_of_call hlocal h <;> cases h

/-- A handler that goes on has only read. -/
theorem Leads.leaves (h : Leads c who env t stage stage') :
    stage.leaves c ttl env fate t = t := by
  cases h <;> cases fate <;> rfl

def proxyEntry (who : Caller) (sess : SessionCtx) (endpoint : Proxy) (query : Query)
    (result : AuditResult) (detail : Detail) : AuditEntry :=
  ⟨sess.username, endpoint.action, if query.assetId = "" then query.cmdId else query.assetId,
    result, who.remoteAddr, some detail⟩

theorem reportProxy_exit (who : Caller) (sess : SessionCtx) (endpoint : Proxy) (query : Query)
    (result : AuditResult) (detail : Detail) (response : Response) :
    reportProxy who sess endpoint query result detail response =
      .exit ⟨if endpoint.action = "" then [] else
        [proxyEntry who sess endpoint query result detail], response⟩ := by
  by_cases hname : endpoint.action = ""
  · simp [reportProxy, hname, Next.silent]
  · simp [reportProxy, hname, Next.audited, proxyEntry]

theorem proxied_exit (who : Caller) (sess : SessionCtx) (endpoint : Proxy) (query : Query)
    (upstream : Upstream) : ∃ e, proxied who sess endpoint query upstream = .exit e := by
  fun_cases proxied who sess endpoint query upstream <;> exact ⟨_, reportProxy_exit ..⟩

end

/-! ## Calls of a run -/

/-- The statement has run and changed what it is for. -/
def Stage.ran (c : Primitives) (ttl : Time) (env : Env) (fate : Fate) (t : Tables)
    (stage : Stage) : Bool :=
  fate ≠ .refused && (stage.statement c ttl env t).toBool

structure Call where
  handler : Nat
  who : Caller
  stage : Stage
  env : Env
  fate : Fate
  tables : Tables

namespace Call

variable (c : Primitives) (ttl : Time) (k : Call)

def leaves : Tables := k.stage.leaves c ttl k.env k.fate k.tables

def next : Next := k.stage.resume c ttl k.who k.env k.fate k.tables

def ran : Bool := k.stage.ran c ttl k.env k.fate k.tables

end Call

abbrev Past := List (Server × Event)

def callOf : Server × Event → Option Call
  | (s, .perform h env fate) =>
      (s.handlers.lookup h).map fun handler =>
        ⟨h, handler.who, handler.stage, env, fate, s.tables⟩
  | _ => none

def calls (past : Past) : List Call := past.filterMap callOf

/-- The calls so far of the request that handler `h` serves, newest first. -/
def story : Past → Nat → List Call
  | [], _ => []
  | (s, e) :: past, h =>
      match e with
      | .receive k _ => if h = k then [] else story past h
      | .perform k _ _ => if h = k then (callOf (s, e)).toList ++ story past h else story past h
      | _ => story past h

section
variable (c : Primitives) (ttl : Time)

/-- The request comes to a call through these calls. -/
inductive Path (request : Request) : List Call → Stage → Prop
  | enter {stage : Stage} (henters : request.route.Enters c request.caller stage) :
      Path request [] stage
  | call {k : Call} {ks : List Call} {stage : Stage} (hpath : Path request ks k.stage)
      (hwho : k.who = request.caller) (hdone : k.fate = .done)
      (hleads : Leads c k.who k.env k.tables k.stage stage) :
      Path request (k :: ks) stage

theorem Path.last {c : Primitives} {request : Request} {ks : List Call} {stage : Stage}
    (hpath : Path c request ks stage) :
    (∃ route : Route, ks = [] ∧ route.Enters c request.caller stage) ∨
      ∃ h before env t rest, ks = ⟨h, request.caller, before, env, .done, t⟩ :: rest ∧
        Path c request rest before ∧ Leads c request.caller env t before stage := by
  cases hpath with
  | enter henters => exact Or.inl ⟨request.route, rfl, henters⟩
  | @call k rest _ hpath hwho hdone hleads =>
      obtain ⟨h, who, before, env, fate, t⟩ := k
      cases hwho
      cases hdone
      exact Or.inr ⟨h, before, env, t, rest, rfl, hpath, hleads⟩

/-- A running handler serves a request that has arrived, and is where its calls have led it. -/
def Follows (past : Past) (s : Server) : Prop :=
  ∀ h handler, s.handlers.lookup h = some handler →
    ∃ s₀ request, (s₀, Event.receive h request) ∈ past ∧ handler.who = request.caller ∧
      Path c request (story past h) handler.stage

end

section
variable {c : Primitives} {ttl : Time} {past : Past} {s s' : Server} {e : Event} {h k : Nat}

theorem callOf_perform {env : Env} {fate : Fate} {who : Caller} {stage : Stage}
    (hrun : s.handlers.lookup h = some ⟨who, stage⟩) :
    callOf (s, .perform h env fate) = some ⟨h, who, stage, env, fate, s.tables⟩ := by
  rw [callOf, hrun]
  rfl

theorem callOf_eq_some {call : Call} (hcall : callOf (s, e) = some call) :
    e = .perform call.handler call.env call.fate ∧
      s.handlers.lookup call.handler = some ⟨call.who, call.stage⟩ ∧ call.tables = s.tables := by
  cases e with
  | perform h env fate =>
      obtain ⟨handler, hrun, rfl⟩ := Option.map_eq_some_iff.mp hcall
      exact ⟨rfl, hrun, rfl⟩
  | _ => cases hcall

theorem tables_of_call {call : Call} (hcall : callOf (s, e) = some call)
    (hstep : step c ttl s e = some s') : s'.tables = call.leaves c ttl := by
  obtain ⟨rfl, hrun, htables⟩ := callOf_eq_some hcall
  cases step_moves c ttl hstep with
  | perform hrun' =>
      cases hrun.symm.trans hrun'
      rw [advance_tables, Call.leaves, htables]

theorem Call.statement_of_ran {call : Call} (hran : call.ran c ttl = true) :
    call.stage.statement c ttl call.env call.tables = .ok (call.leaves c ttl) := by
  obtain ⟨handler, who, stage, env, fate, t⟩ := call
  obtain ⟨hfate, hok⟩ := Bool.and_eq_true_iff.mp hran
  simp only [Call.leaves, Stage.leaves]
  cases hstatement : stage.statement c ttl env t with
  | error err =>
      simp only [hstatement] at hok
      cases hok
  | ok t' =>
      cases fate with
      | done => rfl
      | lost => rfl
      | refused => cases hfate

theorem story_receive_self {request : Request} :
    story ((s, .receive h request) :: past) h = [] := if_pos rfl

theorem story_receive_ne {request : Request} (hk : k ≠ h) :
    story ((s, .receive h request) :: past) k = story past k := if_neg hk

theorem story_perform_self {env : Env} {fate : Fate} {who : Caller} {stage : Stage}
    (hrun : s.handlers.lookup h = some ⟨who, stage⟩) :
    story ((s, .perform h env fate) :: past) h =
      ⟨h, who, stage, env, fate, s.tables⟩ :: story past h := by
  rw [story, if_pos rfl, callOf_perform hrun]
  rfl

theorem story_perform_ne {env : Env} {fate : Fate} (hk : k ≠ h) :
    story ((s, .perform h env fate) :: past) k = story past k := if_neg hk

theorem calls_subset_cons (entry : Server × Event) (past : Past) :
    calls past ⊆ calls (entry :: past) :=
  ((List.sublist_cons_self entry past).filterMap callOf).subset

theorem story_subset_calls (past : Past) (h : Nat) : story past h ⊆ calls past := by
  induction past with
  | nil => exact List.Subset.refl _
  | cons entry past ih =>
      obtain ⟨s, e⟩ := entry
      have hkept : story past h ⊆ calls ((s, e) :: past) :=
        List.Subset.trans ih (calls_subset_cons (s, e) past)
      cases e with
      | receive k request =>
          rw [story]
          split
          · exact List.nil_subset _
          · exact hkept
      | perform k env fate =>
          rw [story]
          split
          · refine List.append_subset.mpr ⟨fun call hcall => ?_, hkept⟩
            exact List.mem_filterMap.mpr ⟨_, List.mem_cons_self, Option.mem_toList.mp hcall⟩
          · exact hkept
      | reply k upstream => exact hkept
      | record i stored => exact hkept

theorem not_forward_of_step {env : Env} {fate : Fate} {who : Caller} {stage : Stage}
    (hstep : step c ttl s (.perform h env fate) = some s')
    (hrun : s.handlers.lookup h = some ⟨who, stage⟩) (sess : SessionCtx) (endpoint : Proxy)
    (query : Query) : stage ≠ .forward sess endpoint query := by
  rintro rfl
  rw [step, hrun] at hstep
  cases hstep

theorem Follows.start (c : Primitives) (tables : Tables) : Follows c [] (Server.start tables) := by
  intro h handler hk
  cases hk

/-- A request already under way goes on as it was, if its own calls are as they were. -/
theorem Follows.keep (hs : Follows c past s) {handler : Handler}
    (hk : s.handlers.lookup k = some handler) (hstory : story ((s, e) :: past) k = story past k) :
    ∃ s₀ request, (s₀, Event.receive k request) ∈ (s, e) :: past ∧
      handler.who = request.caller ∧
      Path c request (story ((s, e) :: past) k) handler.stage := by
  obtain ⟨s₀, request, hmem, hwho, hpath⟩ := hs k handler hk
  exact ⟨s₀, request, List.mem_cons_of_mem _ hmem, hwho, hstory ▸ hpath⟩

theorem Follows.step (hs : Follows c past s) (hstep : Server.step c ttl s e = some s') :
    Follows c ((s, e) :: past) s' := by
  intro k handler hk
  cases step_moves c ttl hstep with
  | @receive h request hfree =>
      rcases lookup_advance hk with ⟨rfl, hwho, hnext⟩ | ⟨hne, hother⟩
      · refine ⟨s, request, List.mem_cons_self, hwho, ?_⟩
        rw [story_receive_self]
        exact .enter (Route.enters_of_call hnext)
      · exact hs.keep hother (story_receive_ne hne)
  | @perform h env fate who stage hrun =>
      rcases lookup_advance hk with ⟨rfl, hwho, hnext⟩ | ⟨hne, hother⟩
      · obtain ⟨s₀, request, hmem, hcaller, hpath⟩ := hs k _ hrun
        refine ⟨s₀, request, List.mem_cons_of_mem _ hmem, hwho.trans hcaller, ?_⟩
        rw [story_perform_self hrun]
        have hlocal := not_forward_of_step hstep hrun
        exact .call hpath hcaller (Stage.done_of_call hlocal hnext)
          (Stage.leads_of_call hlocal hnext)
      · exact hs.keep hother (story_perform_ne hne)
  | @reply h upstream who sess endpoint query hrun =>
      rcases lookup_advance hk with ⟨-, -, hnext⟩ | ⟨-, hother⟩
      · obtain ⟨e, he⟩ := proxied_exit who sess endpoint query upstream
        rw [he] at hnext
        cases hnext
      · exact hs.keep hother rfl
  | record _ => exact hs.keep hk rfl

/-- In every run, each handler is where the calls of its request have led it. -/
theorem follows_of_course {may : Past → Server → Event → Prop} {tables : Tables}
    (hrun : Course (Server.step c ttl) may (Server.start tables) past s) : Follows c past s := by
  apply Course.invariant (Follows c) (Follows.start c tables) ?_ hrun
  intro past s e s' hs _ hstep
  exact hs.step hstep

end

end TomAgent.Console
