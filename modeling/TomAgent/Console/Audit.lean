import TomAgent.Console.SecondFactor

/-!
# What the audit is told

Every way out of a handler carries the entries it reports.  A request is followed from its
route to that way out, through store calls that may find anything and fail in any way and, for
a forwarded request, through whatever the connector makes of it.
-/

namespace TomAgent.Console

open Execution Iam Server

/-! ## Vocabulary -/

/-- The statements that must not go unreported, with the action they are reported as. -/
def Stage.writes : Stage → Option String
  | .createUser _ _ _ _ => some "user.create"
  | .createSession _ _ _ => some "auth.login"
  | .setTotpSecret _ _ => some "auth.totp_enroll"
  | .confirmTotp _ => some "auth.totp_confirm"
  | .deleteSession _ _ => some "auth.logout"
  | .revokeSession _ _ _ => some "session.revoke"
  | _ => none

def writeActions : List String :=
  ["user.create", "auth.login", "auth.totp_enroll", "auth.totp_confirm", "auth.logout",
    "session.revoke"]

def Body.own : Body → Bool
  | .upstream _ _ => false
  | _ => true

def Upstream.accepted : Upstream → Bool
  | .answered status _ body => status < 400 && body.length ≤ proxyLimit
  | _ => false

/-- An answer of success that goes on behind the limit of the reader. -/
def Upstream.cut : Upstream → Bool
  | .unreachable => false
  | .broken status _ body => status < 400 && proxyLimit ≤ body.length
  | .answered status _ body => status < 400 && proxyLimit < body.length

/-- Who a request is from, by what its calls have found. -/
def Call.actor (k : Call) : Option String :=
  match k.stage with
  | .findSessionUser _ username => some username
  | .findLogin body => some (if body.username = "" then "anonymous" else body.username)
  | _ => none

def actorOf (ks : List Call) : String := (ks.findSome? Call.actor).getD "anonymous"

section
variable (c : Primitives) (ttl : Time)

def Call.succeeds (k : Call) : Bool :=
  k.fate = .done && (k.stage.statement c ttl k.env k.tables).toBool

/-- A request that has ended: its store calls, newest first, the answer of the connector if it
was asked, and the way out. -/
inductive Ended (request : Request) : List Call → Option (Proxy × Upstream) → Exit → Prop
  | atOnce {x : Exit} (hexit : request.route.enter c request.caller = .exit x) :
      Ended request [] none x
  | store {k : Call} {ks : List Call} {x : Exit} (hpath : Path c request ks k.stage)
      (hwho : k.who = request.caller) (hexit : k.next c ttl = .exit x) :
      Ended request (k :: ks) none x
  | connector {sess : SessionCtx} {endpoint : Proxy} {query : Query} {ks : List Call}
      {upstream : Upstream} {x : Exit} (hpath : Path c request ks (.forward sess endpoint query))
      (hexit : proxied request.caller sess endpoint query upstream = .exit x) :
      Ended request ks (some (endpoint, upstream)) x

/-- The audit is told what has happened. -/
structure Audited (ks : List Call) (reply : Option (Proxy × Upstream)) (x : Exit) : Prop where
  /-- Every refusal of the console is reported once. -/
  denied : x.response.status = 401 ∨ x.response.status = 403 → x.response.body.own = true →
    ∃ entry, x.audit = [entry] ∧ entry.result = .denied
  /-- So is every statement that has succeeded, under the name of the actor. -/
  written : ∀ k ∈ ks, ∀ action, k.stage.writes = some action → k.succeeds c ttl = true →
    ∃ entry, x.audit = [entry] ∧ entry.result = .ok ∧ entry.action = action ∧
      entry.actor = actorOf ks
  /-- No success is reported that was none. -/
  honest : ∀ entry ∈ x.audit, entry.result = .ok → entry.action ∈ writeActions →
    ∃ k ∈ ks, k.stage.writes = some entry.action ∧ k.succeeds c ttl = true
  /-- Every request that submits or cancels is reported once, as a success only if it was one. -/
  forwarded : ∀ endpoint upstream, reply = some (endpoint, upstream) → endpoint.action ≠ "" →
    ∃ entry, x.audit = [entry] ∧ (entry.result = .ok → upstream.accepted = true)

end

def Uncut (reply : Option (Proxy × Upstream)) : Prop :=
  ∀ endpoint upstream, reply = some (endpoint, upstream) → endpoint.action ≠ "" →
    upstream.cut = false

/-! ## Ways out without a success -/

/-- Nothing is reported as a success, and a refusal is reported. -/
def Exit.quiet (x : Exit) : Bool :=
  x.audit.all (fun entry => entry.result ≠ .ok) &&
    (!decide (x.response.status = 401 ∨ x.response.status = 403) ||
      decide (x.audit.map (·.result) = [.denied]))

def Next.quiet : Next → Bool
  | .exit x => x.quiet
  | .call _ => true

section
variable {c : Primitives} {ttl : Time} {who : Caller} {env : Env} {fate : Fate} {t : Tables}
variable {stage : Stage}

theorem authenticate_quiet (purpose : Purpose) : (authenticate c who purpose).quiet = true := by
  unfold authenticate
  split <;> rfl

theorem createUserAs_quiet (body : UserBody) (actor : String) :
    (createUserAs c who env body actor).quiet = true := by
  fun_cases createUserAs c who env body actor <;> rfl

theorem Guarded.enter_quiet (sess : SessionCtx) (endpoint : Guarded) :
    (endpoint.enter c who env sess).quiet = true := by
  fun_cases Guarded.enter c who env sess endpoint <;> rfl

theorem Purpose.admitted_quiet (sess : SessionCtx) (purpose : Purpose) :
    (purpose.admitted c who env sess).quiet = true := by
  cases purpose with
  | createUser body =>
      simp only [Purpose.admitted]
      split
      next => exact createUserAs_quiet body sess.username
      next => rfl
  | guarded endpoint =>
      simp only [Purpose.admitted, Guarded.admitted]
      split
      next => exact Guarded.enter_quiet sess endpoint
      next =>
        split
        next => exact Guarded.enter_quiet sess endpoint
        next => rfl

theorem checkLogin_quiet (body : LoginBody) (found : Except StoreError UserInfo) :
    (checkLogin c who env body found).quiet = true := by
  fun_cases checkLogin c who env body found <;> rfl

theorem Route.enter_quiet (route : Route) : (route.enter c who).quiet = true := by
  fun_cases Route.enter c who route
  · rfl
  · rfl
  · rfl
  · rfl
  · exact authenticate_quiet _

theorem Stage.resume_quiet (hread : stage.writes = none) :
    (stage.resume c ttl who env fate t).quiet = true := by
  cases stage with
  | userCount body =>
      simp only [Stage.resume]
      split
      next => rfl
      next =>
        split
        next => rfl
        next => exact createUserAs_quiet body "anonymous"
      next => exact authenticate_quiet _
  | findSession purpose hash =>
      simp only [Stage.resume]
      split
      next => rfl
      next => split <;> rfl
  | findSessionUser purpose username =>
      simp only [Stage.resume]
      split
      next => rfl
      next =>
        split
        next => rfl
        next => exact Purpose.admitted_quiet _ purpose
  | findLogin body => exact checkLogin_quiet body _
  | findTotp sess code =>
      simp only [Stage.resume]
      split
      next => rfl
      next =>
        split
        next => rfl
        next => split <;> rfl
  | listSessions =>
      simp only [Stage.resume]
      split <;> rfl
  | listAudit limit =>
      simp only [Stage.resume]
      split <;> rfl
  | forward sess endpoint query => rfl
  | _ => cases hread

theorem Stage.resume_failed {action : String} (hwrites : stage.writes = some action)
    {err : StoreError}
    (hfailed : fate.told ((stage.statement c ttl env t).map fun _ => ()) = .error err) :
    (stage.resume c ttl who env fate t).quiet = true := by
  cases stage with
  | createUser body role actor hash =>
      simp only [Stage.resume, hfailed]
      cases err <;> rfl
  | revokeSession sess idText id =>
      simp only [Stage.resume, hfailed]
      cases err <;> rfl
  | createSession body u token =>
      simp only [Stage.resume, hfailed]
      rfl
  | setTotpSecret sess secret =>
      simp only [Stage.resume, hfailed]
      rfl
  | confirmTotp sess =>
      simp only [Stage.resume, hfailed]
      rfl
  | deleteSession sess tokenHash =>
      simp only [Stage.resume, hfailed]
      rfl
  | _ => cases hwrites

/-! ## Ways out with a success -/

def Stage.actor : Stage → String
  | .createUser _ _ actor _ => actor
  | .createSession body _ _ => if body.username = "" then "anonymous" else body.username
  | .setTotpSecret sess _ => sess.username
  | .confirmTotp sess => sess.username
  | .deleteSession sess _ => sess.username
  | .revokeSession sess _ _ => sess.username
  | _ => "anonymous"

theorem Stage.resume_written {action : String} (hwrites : stage.writes = some action)
    (hdone : fate.told ((stage.statement c ttl env t).map fun _ => ()) = .ok ()) :
    ∃ entry response, stage.resume c ttl who env fate t = .exit ⟨[entry], response⟩ ∧
      entry.result = .ok ∧ entry.action = action ∧ entry.actor = stage.actor ∧
      response.status < 400 := by
  cases stage <;> cases hwrites <;>
    · simp only [Stage.resume, hdone]
      exact ⟨_, _, rfl, rfl, rfl, rfl, by simp⟩

end

/-! ## The calls before -/

section
variable {c : Primitives} {ttl : Time} {request : Request} {ks : List Call} {stage : Stage}

theorem Leads.reads {who : Caller} {env : Env} {t : Tables} {before : Stage}
    (h : Leads c who env t before stage) : before.writes = none := by
  cases h <;> rfl

/-- Only the last call of a request writes. -/
theorem Path.reads (hpath : Path c request ks stage) : ∀ k ∈ ks, k.stage.writes = none := by
  induction hpath with
  | enter _ => exact fun k hk => absurd hk List.not_mem_nil
  | call _ _ _ hleads ih => exact List.forall_mem_cons.mpr ⟨hleads.reads, ih⟩

theorem Guarded.Enters.actor {who : Caller} {env : Env} {sess : SessionCtx} {endpoint : Guarded}
    {action : String} (h : endpoint.Enters c who env sess stage)
    (hwrites : stage.writes = some action) : stage.actor = sess.username := by
  cases h with
  | logout => rfl
  | enroll _ => rfl
  | revoke => rfl
  | _ => cases hwrites

theorem Path.actor_findTotp {sess : SessionCtx} {code : Text}
    (hpath : Path c request ks (.findTotp sess code)) : actorOf ks = sess.username := by
  rcases hpath.last with ⟨route, -, henters⟩ | ⟨h, before, env, t, rest, rfl, -, hleads⟩
  · cases henters
  · cases hleads with
    | admits _ _ _ henters =>
        cases henters
        rfl

theorem Path.userCount_first {body : UserBody} (hpath : Path c request ks (.userCount body)) :
    ks = [] := by
  rcases hpath.last with ⟨route, rfl, -⟩ | ⟨h, before, env, t, rest, rfl, -, hleads⟩
  · rfl
  · cases hleads with
    | admits _ _ _ henters => cases henters

/-- The actor of a statement is the one that the calls before it have found. -/
theorem Path.actor {action : String} (hpath : Path c request ks stage)
    (hwrites : stage.writes = some action) : stage.actor = actorOf ks := by
  rcases hpath.last with ⟨route, -, henters⟩ | ⟨h, before, env, t, rest, rfl, hbefore, hleads⟩
  · cases henters <;> cases hwrites
  · cases hleads with
    | bootstrap _ =>
        cases hbefore.userCount_first
        rfl
    | manages _ _ _ => rfl
    | admits _ _ _ henters => exact henters.actor hwrites
    | login _ _ _ _ => rfl
    | confirms _ _ _ => exact hbefore.actor_findTotp.symm
    | authenticates _ _ => cases hwrites
    | session _ _ => cases hwrites

/-! ## Every way out -/

theorem Exit.audited_of_quiet {x : Exit} (hquiet : x.quiet = true)
    (hnone : ∀ k ∈ ks, ∀ action, k.stage.writes = some action → k.succeeds c ttl = false) :
    Audited c ttl ks none x := by
  obtain ⟨hnot, hdenied⟩ := Bool.and_eq_true_iff.mp hquiet
  refine ⟨fun hstatus _ => ?_, ?_, ?_, ?_⟩
  · rw [decide_eq_true hstatus, Bool.not_true, Bool.false_or] at hdenied
    have hone : x.audit.map (·.result) = [.denied] := of_decide_eq_true hdenied
    obtain ⟨entry, hentry, hresult⟩ := List.map_eq_singleton_iff.mp hone
    exact ⟨entry, hentry, hresult⟩
  · intro k hk action hwrites hsucceeds
    rw [hnone k hk action hwrites] at hsucceeds
    cases hsucceeds
  · intro entry hentry hok
    exact absurd hok (of_decide_eq_true (List.all_eq_true.mp hnot entry hentry))
  · intro endpoint upstream hreply
    cases hreply

theorem Call.told_of_succeeds {k : Call} (h : k.succeeds c ttl = true) :
    k.fate.told ((k.stage.statement c ttl k.env k.tables).map fun _ => ()) = .ok () := by
  obtain ⟨hfate, hok⟩ := Bool.and_eq_true_iff.mp h
  rw [of_decide_eq_true hfate]
  cases hstatement : k.stage.statement c ttl k.env k.tables with
  | error err =>
      rw [hstatement] at hok
      cases hok
  | ok t' => rfl

theorem Call.told_of_not_succeeds {k : Call} (h : k.succeeds c ttl = false) :
    ∃ err, k.fate.told ((k.stage.statement c ttl k.env k.tables).map fun _ => ()) = .error err := by
  unfold Call.succeeds at h
  cases hfate : k.fate with
  | lost => exact ⟨_, rfl⟩
  | refused => exact ⟨_, rfl⟩
  | done =>
      cases hstatement : k.stage.statement c ttl k.env k.tables with
      | error err => exact ⟨err, rfl⟩
      | ok t' =>
          rw [hfate, hstatement] at h
          cases h

theorem actorOf_cons {k : Call} {action : String} (hwrites : k.stage.writes = some action) :
    actorOf (k :: ks) = actorOf ks := by
  have hskip : k.actor = none := by
    unfold Call.actor
    split
    next hstage => rw [hstage] at hwrites; cases hwrites
    next hstage => rw [hstage] at hwrites; cases hwrites
    next => rfl
  rw [actorOf, actorOf, List.findSome?_cons, hskip]

theorem Path.audited_written {k : Call} {x : Exit} {action : String}
    (hpath : Path c request ks k.stage) (hexit : k.next c ttl = .exit x)
    (hwrites : k.stage.writes = some action) (hsucceeds : k.succeeds c ttl = true) :
    Audited c ttl (k :: ks) none x := by
  have hnext : ∃ entry response, k.next c ttl = .exit ⟨[entry], response⟩ ∧
      entry.result = .ok ∧ entry.action = action ∧ entry.actor = k.stage.actor ∧
      response.status < 400 :=
    Stage.resume_written hwrites (Call.told_of_succeeds hsucceeds)
  obtain ⟨entry, response, hresume, hok, haction, hactor, hstatus⟩ := hnext
  cases hexit.symm.trans hresume
  refine ⟨fun hrefused _ => ?_, ?_, ?_, fun _ _ hreply => by cases hreply⟩
  · simp only at hrefused
    omega
  · intro k' hk' action' hwrites' _
    rcases List.mem_cons.mp hk' with rfl | hold
    · cases hwrites.symm.trans hwrites'
      have hname : entry.actor = actorOf (k' :: ks) := by
        rw [hactor, hpath.actor hwrites, actorOf_cons hwrites]
      exact ⟨entry, rfl, hok, haction, hname⟩
    · rw [hpath.reads k' hold] at hwrites'
      cases hwrites'
  · intro entry' hentry' _ _
    cases List.mem_singleton.mp hentry'
    exact ⟨k, List.mem_cons_self, haction ▸ hwrites, hsucceeds⟩

theorem Path.audited_store {k : Call} {x : Exit} (hpath : Path c request ks k.stage)
    (hexit : k.next c ttl = .exit x) : Audited c ttl (k :: ks) none x := by
  have hquiet : (k.next c ttl).quiet = true →
      (∀ action, k.stage.writes = some action → k.succeeds c ttl = false) →
      Audited c ttl (k :: ks) none x := by
    intro hquiet hlast
    rw [hexit] at hquiet
    refine Exit.audited_of_quiet hquiet (List.forall_mem_cons.mpr ⟨hlast, ?_⟩)
    intro k' hk' action hwrites
    rw [hpath.reads k' hk'] at hwrites
    cases hwrites
  cases hwrites : k.stage.writes with
  | none =>
      apply hquiet (Stage.resume_quiet hwrites)
      intro action hwrites'
      rw [hwrites] at hwrites'
      cases hwrites'
  | some action =>
      cases hsucceeds : k.succeeds c ttl with
      | true => exact hpath.audited_written hexit hwrites hsucceeds
      | false =>
          obtain ⟨err, hfailed⟩ := Call.told_of_not_succeeds hsucceeds
          exact hquiet (Stage.resume_failed hwrites hfailed) fun _ _ => hsucceeds

/-! ## The connector -/

theorem Upstream.not_accepted_of_cut {upstream : Upstream} (h : upstream.cut = true) :
    upstream.accepted = false := by
  cases upstream with
  | unreachable => rfl
  | broken status contentType body => rfl
  | answered status contentType body =>
      simp only [Upstream.cut, Bool.and_eq_true, decide_eq_true_eq] at h
      simp only [Upstream.accepted, Bool.and_eq_false_iff, decide_eq_false_iff_not]
      omega

/-- What a forwarded request reports and answers. -/
theorem proxied_report (who : Caller) (sess : SessionCtx) (endpoint : Proxy) (query : Query)
    (upstream : Upstream) :
    ∃ result detail response, proxied who sess endpoint query upstream =
        .exit ⟨if endpoint.action = "" then [] else
          [proxyEntry who sess endpoint query result detail], response⟩ ∧
      (result = .ok ↔ upstream.accepted = true ∨ upstream.cut = true) ∧
      (response.status = 502 ∨ response.body.own = false) := by
  have hpass : ∀ status contentType body, ∃ result detail response,
      passOn who sess endpoint query status contentType body =
        .exit ⟨if endpoint.action = "" then [] else
          [proxyEntry who sess endpoint query result detail], response⟩ ∧
      (result = .ok ↔ status < 400) ∧ (response.status = 502 ∨ response.body.own = false) := by
    intro status contentType body
    refine ⟨_, _, _, reportProxy_exit .., ?_, Or.inr rfl⟩
    by_cases hstatus : 400 ≤ status
    · simp [hstatus]
    · simp only [if_neg hstatus, true_iff]
      omega
  cases upstream with
  | unreachable =>
      refine ⟨_, _, _, reportProxy_exit .., ?_, Or.inl rfl⟩
      simp [Upstream.accepted, Upstream.cut]
  | broken status contentType body =>
      simp only [proxied]
      split
      next hshort =>
        refine ⟨_, _, _, reportProxy_exit .., ?_, Or.inl rfl⟩
        simp [Upstream.accepted, Upstream.cut, hshort]
      next hlong =>
        obtain ⟨result, detail, response, hexit, hok, hrest⟩ := hpass status contentType body
        refine ⟨result, detail, response, hexit, ?_, hrest⟩
        simp [hok, Upstream.accepted, Upstream.cut, not_lt.mp hlong]
  | answered status contentType body =>
      obtain ⟨result, detail, response, hexit, hok, hrest⟩ := hpass status contentType body
      refine ⟨result, detail, response, hexit, hok.trans ?_, hrest⟩
      simp only [Upstream.accepted, Upstream.cut, Bool.and_eq_true, decide_eq_true_eq]
      omega

theorem Proxy.action_not_write (endpoint : Proxy) : endpoint.action ∉ writeActions := by
  cases endpoint <;> decide

theorem Path.audited_connector {sess : SessionCtx} {endpoint : Proxy} {query : Query}
    {upstream : Upstream} {x : Exit} (hpath : Path c request ks (.forward sess endpoint query))
    (hexit : proxied request.caller sess endpoint query upstream = .exit x)
    (huncut : endpoint.action ≠ "" → upstream.cut = false) :
    Audited c ttl ks (some (endpoint, upstream)) x := by
  obtain ⟨result, detail, response, hreport, hok, hown⟩ :=
    proxied_report request.caller sess endpoint query upstream
  cases hexit.symm.trans hreport
  refine ⟨fun hrefused hbody => ?_, ?_, ?_, ?_⟩
  · rcases hown with hgateway | hupstream
    · simp only at hrefused
      omega
    · cases hbody.symm.trans hupstream
  · intro k hk action hwrites
    rw [hpath.reads k hk] at hwrites
    cases hwrites
  · intro entry hentry _ haction
    by_cases hname : endpoint.action = ""
    · rw [if_pos hname] at hentry
      cases hentry
    · rw [if_neg hname, List.mem_singleton] at hentry
      subst hentry
      exact absurd haction endpoint.action_not_write
  · intro endpoint' upstream' hreply hname
    cases hreply
    refine ⟨_, if_neg hname, fun hsuccess => ?_⟩
    rcases hok.mp hsuccess with haccepted | hcut
    · exact haccepted
    · cases hcut.symm.trans (huncut hname)

/-- A success that is cut off is reported all the same. -/
theorem not_audited_of_cut {who : Caller} {sess : SessionCtx} {endpoint : Proxy} {query : Query}
    {upstream : Upstream} {x : Exit}
    (hexit : proxied who sess endpoint query upstream = .exit x) (hname : endpoint.action ≠ "")
    (hcut : upstream.cut = true) : ¬ Audited c ttl ks (some (endpoint, upstream)) x := by
  intro haudited
  obtain ⟨result, detail, response, hreport, hok, -⟩ :=
    proxied_report who sess endpoint query upstream
  cases hexit.symm.trans hreport
  obtain ⟨entry, hentry, hsuccess⟩ := haudited.forwarded endpoint upstream rfl hname
  rw [if_neg hname] at hentry
  cases hentry
  have haccepted := hsuccess (hok.mpr (Or.inr hcut))
  rw [Upstream.not_accepted_of_cut hcut] at haccepted
  cases haccepted

/-! ## Every request -/

theorem Ended.audited {reply : Option (Proxy × Upstream)} {x : Exit}
    (h : Ended c ttl request ks reply x) (huncut : Uncut reply) : Audited c ttl ks reply x := by
  cases h with
  | atOnce hexit =>
      have hquiet : (request.route.enter c request.caller).quiet = true :=
        Route.enter_quiet request.route
      rw [hexit] at hquiet
      exact Exit.audited_of_quiet hquiet fun k hk => absurd hk List.not_mem_nil
  | store hpath _ hexit => exact hpath.audited_store hexit
  | connector hpath hexit => exact hpath.audited_connector hexit (huncut _ _ rfl)

/-- A request is audited as it should be, but for a success that is longer than the reader
reads. -/
theorem audited_iff_uncut {reply : Option (Proxy × Upstream)} {x : Exit}
    (hended : Ended c ttl request ks reply x) : Audited c ttl ks reply x ↔ Uncut reply := by
  constructor
  · rintro haudited endpoint upstream rfl hname
    cases hended with
    | connector _ hexit =>
        by_contra hcut
        exact not_audited_of_cut hexit hname (Bool.not_eq_false _ ▸ hcut) haudited
  · exact hended.audited

end

/-! ## Runs of the server -/

section
variable {c : Primitives} {ttl : Time} {past : Past} {s s' : Server} {e : Event}

theorem advance_answers {h k : Nat} {who : Caller} {next : Next} {response : Response}
    (hnew : (s.advance h who next).responses = s.responses ++ [(k, response)]) :
    ∃ x, next = .exit x ∧ x.response = response := by
  cases next with
  | call stage =>
      have hlength := congrArg List.length hnew
      simp [Server.advance] at hlength
  | exit x =>
      simp only [Server.advance, List.append_cancel_left_eq, List.cons.injEq, Prod.mk.injEq] at hnew
      exact ⟨x, rfl, hnew.1.2⟩

/-- Every answer of a run is the end of a request, and what that request reports is handed to
the writers. -/
theorem Follows.ended (hs : Follows c past s) (hstep : Server.step c ttl s e = some s') {h : Nat}
    {response : Response} (hnew : s'.responses = s.responses ++ [(h, response)]) :
    ∃ request ks reply x, Ended c ttl request ks reply x ∧ x.response = response ∧
      s'.auditing = s.auditing ++ x.audit := by
  cases step_moves c ttl hstep with
  | @receive h request hfree =>
      obtain ⟨x, hexit, hresponse⟩ := advance_answers hnew
      exact ⟨request, [], none, x, .atOnce hexit, hresponse, by rw [hexit]; rfl⟩
  | @perform h env fate who stage hrun =>
      obtain ⟨x, hexit, hresponse⟩ := advance_answers (s := { s with tables := _ }) hnew
      obtain ⟨s₀, request, -, hwho, hpath⟩ := hs h _ hrun
      have hended := Ended.store (k := ⟨h, who, stage, env, fate, s.tables⟩) hpath hwho hexit
      exact ⟨request, _, none, x, hended, hresponse, by rw [hexit]; rfl⟩
  | @reply h upstream who sess endpoint query hrun =>
      obtain ⟨x, hexit, hresponse⟩ := advance_answers hnew
      obtain ⟨s₀, request, -, hwho, hpath⟩ := hs h _ hrun
      obtain rfl : who = request.caller := hwho
      exact ⟨request, _, _, x, .connector hpath hexit, hresponse, by rw [hexit]; rfl⟩
  | record _ =>
      have hlength := congrArg List.length hnew
      simp at hlength

/-- Whatever the requests of a run do to each other, each of them is audited as it ends. -/
theorem answers_audited {may : Past → Server → Event → Prop} {tables : Tables}
    (hrun : Course (Server.step c ttl) may (Server.start tables) past s)
    (hstep : Server.step c ttl s e = some s') {h : Nat} {response : Response}
    (hnew : s'.responses = s.responses ++ [(h, response)]) :
    ∃ ks reply audit, s'.auditing = s.auditing ++ audit ∧
      (Uncut reply → Audited c ttl ks reply ⟨audit, response⟩) := by
  obtain ⟨request, ks, reply, x, hended, rfl, hauditing⟩ :=
    (follows_of_course hrun).ended hstep hnew
  exact ⟨ks, reply, x.audit, hauditing, hended.audited⟩

end

/-! ## Two answers of the connector -/

open Watched in
theorem submitted (upstream : Upstream) :
    ∃ request ks sess query x,
      Ended plainPrimitives sessionTtl request ks (some (.submit, upstream)) x ∧
      proxied request.caller sess .submit query upstream = .exit x := by
  let query : Query := ⟨"", "asset-1", "", "application/json", [], true⟩
  obtain ⟨past, s, hrun, hany⟩ :=
    course_of_any (Server.step plainPrimitives sessionTtl) (fun _ _ _ => True)
      (s := Server.start Tables.empty)
      (serve 0 "/api/v1/users" (.createUser (some ⟨"root", password, "admin"⟩)) 0 2 ++
        serveLogin 1 [] 0 ++ serve 2 "/api/v1/commands" (.guarded (.proxy .submit query)) 0 2)
      (fun _ s => (s.handlers.lookup 2).any
        (fun handler => handler.stage = .forward ⟨"root", .admin⟩ .submit query) = true)
      (by decide +kernel)
  obtain ⟨⟨who, stage⟩, hat, hstage⟩ := (Option.any_eq_true _ _).mp hany
  cases of_decide_eq_true hstage
  obtain ⟨s₀, request, -, hwho, hpath⟩ := follows_of_course hrun 2 _ hat
  obtain ⟨x, hexit⟩ := proxied_exit request.caller ⟨"root", .admin⟩ .submit query upstream
  exact ⟨request, _, _, query, x, .connector hpath hexit, hexit⟩

def answerOf (length : Nat) : Upstream :=
  .answered 200 "application/json" (List.replicate length 0)

theorem audited_iff_uncut_full_length :
    ∃ request ks x, Ended Watched.plainPrimitives sessionTtl request ks
        (some (.submit, answerOf proxyLimit)) x ∧
      Audited Watched.plainPrimitives sessionTtl ks (some (.submit, answerOf proxyLimit)) x := by
  obtain ⟨request, ks, _, _, x, hended, -⟩ := submitted (answerOf proxyLimit)
  refine ⟨request, ks, x, hended, (audited_iff_uncut hended).mpr ?_⟩
  rintro endpoint upstream hreply -
  cases hreply
  simp [answerOf, Upstream.cut]

def longAnswer : Upstream := answerOf (proxyLimit + 1)

/-- A long answer of success is not read to its end and is reported as a success. -/
theorem cut_answer_audited_ok :
    ∃ request ks x, Ended Watched.plainPrimitives sessionTtl request ks
        (some (.submit, longAnswer)) x ∧
      ¬ Audited Watched.plainPrimitives sessionTtl ks (some (.submit, longAnswer)) x := by
  obtain ⟨request, ks, sess, query, x, hended, hexit⟩ := submitted longAnswer
  refine ⟨request, ks, x, hended, not_audited_of_cut hexit (by decide) ?_⟩
  simp [longAnswer, answerOf, Upstream.cut]

end TomAgent.Console
