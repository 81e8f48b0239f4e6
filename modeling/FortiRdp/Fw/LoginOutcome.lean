/-
The outcome of a login. `login_basic` reports success in two places: when the client is authenticated already,
and when the firewall has allowed the login and the request behind it was answered. Only the first looks at the
cookie jar; behind the second it is the server that decides whether the client is authenticated.
-/
import FortiRdp.Fw.LoginForm
import FortiRdp.Fw.Redirects

namespace FortiRdp.Fw

open Util Net Http Run

/-! ## Being authenticated -/

/-- The jar holds the cookie of a login, not empty and not expired at that time. -/
def HoldsLogin (jar : Cookies) (now : Int) : Prop :=
  ∃ c, jar.get (ascii "SVPNCOOKIE") = some c ∧ c.value.text ≠ [] ∧ ¬ c.ExpiredAt now

/-- A time of the state: that of the last reading of the clock, or that of the next one. -/
def Current (s : FirewallClient) (now : Int) : Prop :=
  now = s.https.env.now (s.https.env.reads - 1) ∨ now = s.https.env.now s.https.env.reads

/-- `is_authenticated` holds in the state. -/
def LoggedIn (s : FirewallClient) : Prop := ∃ now, Current s now ∧ HoldsLogin s.cookieJar now

/-- `is_authenticated` says whether the jar holds the cookie of a login, at the time it reads. -/
theorem isAuthenticated_run (s : FirewallClient) : ∃ b s', FirewallClient.isAuthenticated s = .ok b s' ∧
    (b = true ↔ HoldsLogin s.cookieJar (s.https.env.now s.https.env.reads)) ∧ s'.cookieJar = s.cookieJar ∧
    s'.https.env.now = s.https.env.now ∧
    (s'.https.env.reads = s.https.env.reads ∨ s'.https.env.reads = s.https.env.reads + 1) := by
  unfold FirewallClient.isAuthenticated HoldsLogin
  rw [get_bind]
  cases s.cookieJar.get (ascii "SVPNCOOKIE") with
  | none => exact ⟨false, s, rfl, by simp, rfl, rfl, .inl rfl⟩
  | some c =>
    simp only
    split
    · rename_i hempty
      exact ⟨false, s, rfl, by simp [hempty], rfl, rfl, .inl rfl⟩
    · rename_i hvalue
      obtain ⟨env', hrun, hnow, hreads⟩ := c.isExpired_run s.https.env
      have hclock : FirewallClient.onHttps (HttpsClient.onEnv c.isExpired) s = _ := zoom_ok (zoom_ok hrun)
      rw [bind_ok hclock]
      refine ⟨_, _, rfl, ?_, rfl, hnow, ?_⟩
      · rw [Bool.not_eq_true', decide_eq_false_iff_not]
        constructor
        · intro hfresh
          exact ⟨c, rfl, hvalue, hfresh⟩
        · rintro ⟨c', hc', -, hfresh⟩
          cases hc'
          exact hfresh
      · have hreads : env'.reads = s.https.env.reads ∨ env'.reads = s.https.env.reads + 1 := by
          rw [hreads]
          split
          · exact .inr rfl
          · exact .inl rfl
        exact hreads

theorem isAuthenticated_loggedIn {s s' : FirewallClient} (h : FirewallClient.isAuthenticated s = .ok true s') : LoggedIn s' := by
  obtain ⟨b, t, hrun, hb, hjar, hnow, hreads⟩ := isAuthenticated_run s
  rw [h] at hrun
  cases hrun
  refine ⟨s.https.env.now s.https.env.reads, ?_, ?_⟩
  · unfold Current
    rw [hnow]
    rcases hreads with hreads | hreads
    · exact .inr (by rw [hreads])
    · exact .inl (by rw [hreads, Nat.add_sub_cancel])
  · rw [hjar]
    exact hb.1 rfl

/-! ## The cookies of an answer -/

theorem Cookies.get_eq_find (jar : Cookies) (name : Bytes) : jar.get name = jar.toList.find? fun c => decide (c.name = name) := by
  unfold Cookies.get Cookies.toList SortedMap.get
  rw [List.find?_map]
  refine congrArg (Option.map Prod.snd) (List.find?_congr fun e he => ?_)
  rw [Function.comp_apply, ← jar.named e he, decide_eq_decide]
  exact ⟨fun h => strKey_injective h, fun h => by rw [h]⟩

/-- A cookie leaves the others as they are. -/
theorem JarStep.get_other {host : Bytes} {now : Int} {cookie : Cookie} {jar jar' : Cookies} {name : Bytes}
    (h : JarStep host now cookie jar jar') (hne : cookie.name ≠ name) : jar'.get name = jar.get name := by
  have hkey : strKey name ≠ strKey cookie.name := fun h => hne (strKey_injective h).symm
  cases h with
  | foreign h => rfl
  | insecure hexp h => rfl
  | removed hhost hexp => exact (SortedMap.get_erase _ _ _).trans (if_neg hkey)
  | stored hhost hexp hsecure hhttp => exact (SortedMap.get_set _ _ _ _).trans (if_neg hkey)

/-- The time at which the cookie with the name is tested, when cookies go through the jar in a state. -/
def testedAt (s : FirewallClient) (host : Bytes) (cookies : List Cookie) (name : Bytes) : Int :=
  s.https.env.now (s.https.env.reads + ((cookies.takeWhile fun c => decide (c.name ≠ name)).map (testReads host)).sum)

/-- What the jar has under a name, when cookies have gone through it: only the one with the name matters. -/
theorem storeCookies_get {url : Url} {hostname : Bytes} (hname : url.getHostname = .ok hostname) (name : Bytes) :
    ∀ (cookies : List Cookie) (s : FirewallClient), (cookies.map Cookie.name).Nodup →
      ∃ s', cookies.forM (FirewallClient.storeCookie url) s = .ok ⟨⟩ s' ∧
        match cookies.find? fun c => decide (c.name = name) with
        | none => s'.cookieJar.get name = s.cookieJar.get name
        | some c => ∃ jar jar', JarStep (trimmed (lower hostname)) (testedAt s (trimmed (lower hostname)) cookies name) c jar jar' ∧
            jar.get name = s.cookieJar.get name ∧ s'.cookieJar.get name = jar'.get name
  | [], s, _ => ⟨s, rfl, rfl⟩
  | cookie :: cookies, s, hnodup => by
    obtain ⟨hnew, hnodup⟩ := List.nodup_cons.1 hnodup
    obtain ⟨t, hrun, hstep, hnow, hreads⟩ := storeCookie_step hname cookie s
    obtain ⟨s', hrest, hget⟩ := storeCookies_get hname name cookies t hnodup
    refine ⟨s', (bind_ok hrun).trans hrest, ?_⟩
    by_cases hcookie : cookie.name = name
    · have hnone : cookies.find? (fun c => decide (c.name = name)) = none := by
        rw [List.find?_eq_none]
        intro c hc heq
        exact hnew (hcookie ▸ of_decide_eq_true heq ▸ List.mem_map_of_mem hc)
      have htested : testedAt s (trimmed (lower hostname)) (cookie :: cookies) name = s.https.env.now s.https.env.reads := by
        unfold testedAt
        rw [List.takeWhile_cons_of_neg (by simpa using hcookie)]
        rfl
      rw [hnone] at hget
      rw [List.find?_cons_of_pos (by simpa using hcookie), htested]
      exact ⟨s.cookieJar, t.cookieJar, hstep, rfl, hget⟩
    · have htested : testedAt s (trimmed (lower hostname)) (cookie :: cookies) name =
          testedAt t (trimmed (lower hostname)) cookies name := by
        unfold testedAt
        rw [List.takeWhile_cons_of_pos (by simpa using hcookie), List.map_cons, List.sum_cons, hnow, hreads, Nat.add_assoc]
      rw [List.find?_cons_of_neg (by simpa using hcookie), htested]
      have hother := hstep.get_other hcookie
      rw [hother] at hget
      exact hget

/-- A received cookie is taken for the host. -/
def Taken (host : Bytes) (tested : Int) (cookie : Cookie) : Prop :=
  SameHost host cookie ∧ ¬ cookie.ExpiredAt tested ∧ cookie.secure = true ∧ cookie.httpOnly = true

/-- A received cookie changes nothing. -/
def Skipped (host : Bytes) (tested : Int) (cookie : Cookie) : Prop :=
  ¬ SameHost host cookie ∨ ¬ cookie.ExpiredAt tested ∧ (cookie.secure = false ∨ cookie.httpOnly = false)

/-- The answer, which is there in the state, grants the login: the client takes a cookie for it that is not empty
and not expired at that time, or the answer has none that counts and the jar holds one. -/
def Grants (host : Bytes) (answer : Answer) (s : FirewallClient) (now : Int) : Prop :=
  match answer.cookies.get (ascii "SVPNCOOKIE") with
  | none => HoldsLogin s.cookieJar now
  | some c =>
    let tested := testedAt s host answer.cookies.toList (ascii "SVPNCOOKIE")
    (Taken host tested c ∧ c.value.text ≠ [] ∧ ¬ (storedFor host c).ExpiredAt now) ∨
      (Skipped host tested c ∧ HoldsLogin s.cookieJar now)

theorem JarStep.holdsLogin_iff {host : Bytes} {tested : Int} {c : Cookie} {jar jar' : Cookies}
    (h : JarStep host tested c jar jar') (hname : c.name = ascii "SVPNCOOKIE") (now : Int) : HoldsLogin jar' now ↔
      (Taken host tested c ∧ c.value.text ≠ [] ∧ ¬ (storedFor host c).ExpiredAt now) ∨
        (Skipped host tested c ∧ HoldsLogin jar now) := by
  cases h with
  | foreign h =>
    constructor
    · exact fun hold => .inr ⟨.inl h, hold⟩
    · rintro (⟨htaken, -⟩ | ⟨-, hold⟩)
      · exact absurd htaken.1 h
      · exact hold
  | insecure hexp h =>
    constructor
    · exact fun hold => .inr ⟨.inr ⟨hexp, h⟩, hold⟩
    · rintro (⟨⟨-, -, hsecure, hhttp⟩, -⟩ | ⟨-, hold⟩)
      · rw [hsecure, hhttp] at h
        rcases h with h | h
        · cases h
        · cases h
      · exact hold
  | removed hhost hexp =>
    constructor
    · rintro ⟨c', hget, -⟩
      have hnone : (jar.remove c.name).get (ascii "SVPNCOOKIE") = none := by
        rw [← hname]
        exact (SortedMap.get_erase _ _ _).trans (if_pos rfl)
      rw [hnone] at hget
      cases hget
    · rintro (⟨⟨-, hfresh, -⟩, -⟩ | ⟨hforeign | ⟨hfresh, -⟩, -⟩)
      · exact absurd hexp hfresh
      · exact absurd hhost hforeign
      · exact absurd hexp hfresh
  | stored hhost hexp hsecure hhttp =>
    have hget : (jar.add (storedFor host c)).get (ascii "SVPNCOOKIE") = some (storedFor host c) := by
      rw [← hname]
      exact (SortedMap.get_set _ _ _ _).trans (if_pos rfl)
    constructor
    · rintro ⟨c', hc', hvalue, hfresh⟩
      rw [hget] at hc'
      cases hc'
      exact .inl ⟨⟨hhost, hexp, hsecure, hhttp⟩, hvalue, hfresh⟩
    · rintro (⟨-, hvalue, hfresh⟩ | ⟨hforeign | ⟨-, hflag⟩, -⟩)
      · exact ⟨_, hget, hvalue, hfresh⟩
      · exact absurd hhost hforeign
      · rw [hsecure, hhttp] at hflag
        rcases hflag with hflag | hflag
        · cases hflag
        · cases hflag

theorem answered_eq_some {p : Portal} {call : FirewallClient.Call} {s s₁ : FirewallClient} {answer : Answer} :
    answered p call s = some (answer, s₁) ↔ FirewallClient.sendAndReceive p
      (FirewallClient.buildRequest s.https.hostEp call.verb call.url call.body call.headers) call.answer s =
        .ok (some answer) s₁ := by
  unfold answered
  constructor
  · intro h
    split at h
    · rename_i hrun
      cases h
      exact hrun
    · cases h
  · intro h
    rw [h]

/-- The cookies of an answer go through the jar. -/
theorem doRequest_of_answered {p : Portal} {call : FirewallClient.Call} {s s₁ : FirewallClient} {answer : Answer}
    (h : answered p call s = some (answer, s₁)) : FirewallClient.doRequest p call s =
      (answer.cookies.toList.forM (FirewallClient.storeCookie call.url) >>= fun _ => pure (some answer)) s₁ := by
  have hdo : FirewallClient.doRequest p call s = (FirewallClient.sendAndReceive p
      (FirewallClient.buildRequest s.https.hostEp call.verb call.url call.body call.headers) call.answer >>= _) s := rfl
  rw [hdo, bind_ok (answered_eq_some.1 h)]

/-- An answered request that goes to a host leaves under a name what the cookie with the name makes of it. -/
theorem doRequest_get {p : Portal} {call : FirewallClient.Call} {s s₁ : FirewallClient} {answer : Answer} {hostname : Bytes}
    (hname : call.url.getHostname = .ok hostname) (hanswered : answered p call s = some (answer, s₁)) (name : Bytes) :
    ∃ s', FirewallClient.doRequest p call s = .ok (some answer) s' ∧
      match answer.cookies.get name with
      | none => s'.cookieJar.get name = s₁.cookieJar.get name
      | some c => ∃ jar jar', JarStep (trimmed (lower hostname))
          (testedAt s₁ (trimmed (lower hostname)) answer.cookies.toList name) c jar jar' ∧
            jar.get name = s₁.cookieJar.get name ∧ s'.cookieJar.get name = jar'.get name := by
  obtain ⟨s', hstore, hget⟩ := storeCookies_get hname name answer.cookies.toList s₁ (Cookies.names_nodup _)
  rw [← Cookies.get_eq_find] at hget
  exact ⟨s', (doRequest_of_answered hanswered).trans (bind_ok hstore), hget⟩

/-- An answered request leaves the client logged in exactly when its answer grants the login. -/
theorem doRequest_holdsLogin {p : Portal} {call : FirewallClient.Call} {s s₁ s' : FirewallClient} {answer answer' : Answer}
    (hanswered : answered p call s = some (answer, s₁)) (h : FirewallClient.doRequest p call s = .ok (some answer') s')
    (now : Int) : HoldsLogin s'.cookieJar now ↔ Grants (hostOf call.url) answer s₁ now := by
  have hfind := Cookies.get_eq_find answer.cookies (ascii "SVPNCOOKIE")
  unfold Grants hostOf
  cases hname : call.url.getHostname with
  | error e =>
    -- without a host name no cookie goes through: there is none
    rw [doRequest_of_answered hanswered] at h
    obtain ⟨u, t, hstore, h⟩ := bind_eq_ok h
    cases h
    have hnil : answer.cookies.toList = [] := by
      cases hcookies : answer.cookies.toList with
      | nil => rfl
      | cons cookie cookies =>
        have hthrow : FirewallClient.storeCookie call.url cookie s₁ = .error e s₁ := by
          unfold FirewallClient.storeCookie
          rw [hname]
          rfl
        have hall : (cookie :: cookies).forM (FirewallClient.storeCookie call.url) s₁ = .error e s₁ := bind_error hthrow
        rw [hcookies, hall] at hstore
        cases hstore
    rw [hnil] at hstore hfind
    cases hstore
    rw [hfind]
    exact Iff.rfl
  | ok hostname =>
    obtain ⟨t, hrun, hget⟩ := doRequest_get hname hanswered (ascii "SVPNCOOKIE")
    rw [h] at hrun
    cases hrun
    cases hcookie : answer.cookies.get (ascii "SVPNCOOKIE") with
    | none =>
      rw [hcookie] at hget
      unfold HoldsLogin
      rw [hget]
    | some c =>
      rw [hcookie] at hget hfind
      obtain ⟨jar, jar', hstep, hbefore, hafter⟩ := hget
      have hfound := List.find?_some hfind.symm
      have hcname : c.name = ascii "SVPNCOOKIE" := of_decide_eq_true hfound
      have hiff := hstep.holdsLogin_iff hcname now
      unfold HoldsLogin at hiff ⊢
      rw [hbefore, ← hafter] at hiff
      exact hiff

/-! ## The request behind a login that is allowed -/

/-- A request for what the `redir` parameter names. -/
def Asked.IsRedir (r : Asked) : Prop := ∃ params, r.source = .redir params

/-- What the login makes of the request behind it. -/
def redirOutcome (answer : Option Answer) : PortalErr := if answer.isSome then .errNone else .commError

section Redir

variable {p : Portal}

/-- A request that follows no redirect is one call, and its answer is the one that is received. -/
theorem request_one (source : Source) (call : FirewallClient.Call) (s : FirewallClient) :
    requestsFrom p 1 source call s = [{ source, call, state := s }] ∧ ∀ answer s',
      FirewallClient.sendRequest p 1 call s = .ok (some answer) s' → FirewallClient.doRequest p call s = .ok (some answer) s' := by
  have hstep := sendRequest_step p 0 source call s
  cases hrun : FirewallClient.doRequest p call s with
  | error e t =>
    rw [hrun] at hstep
    rw [hstep.2]
    exact ⟨hstep.1, fun _ _ h => by cases h⟩
  | ok received t =>
    rw [hrun] at hstep
    cases received with
    | none =>
      rw [hstep.2]
      exact ⟨hstep.1, fun _ _ h => by cases h⟩
    | some received =>
      rcases hstep with ⟨-, hasked, hsent⟩ | ⟨_, _, -, -, -, hasked, hsent⟩
      · rw [hsent]
        exact ⟨hasked, fun _ _ h => h⟩
      · rw [hsent]
        exact ⟨hasked, fun _ _ h => by cases h⟩

theorem requestsFrom_source {allowed : Nat} {source : Source} {call : FirewallClient.Call} {s : FirewallClient}
    (h : ∀ params, source ≠ .redir params) (r : Asked) (hr : r ∈ requestsFrom p allowed source call s) : ¬ r.IsRedir := by
  have hsource := requestsFrom_inv p (I := fun source _ => ∀ params, source ≠ .redir params)
    (fun _ _ _ _ _ _ _ _ _ hredir => by cases hredir) allowed h r hr
  rintro ⟨params, hparams⟩
  exact hsource params hparams

/-- The round goes on as the request behind the login does. -/
def follows (p : Portal) (r : Asked) : FwM PortalErr := do
  pure (redirOutcome (← FirewallClient.sendRequest p 1 r.call))

/-- The request behind the login is the last of its round, and decides about its end. -/
theorem loginStep_redir {askCode : Nat → Bytes → Option Bytes} {b : Nat × StringMap} {s : FirewallClient} {r : Asked}
    (hr : r ∈ roundRequests p b s) (hredir : r.IsRedir) :
    FirewallClient.loginStep p askCode b s = (follows p r >>= fun err => pure (.inr err)) r.state := by
  rcases List.mem_append.1 hr with hr | hr
  · obtain ⟨url, t, -, hr⟩ := mem_onReturn hr
    exact absurd hredir (requestsFrom_source (by rintro _ ⟨⟩) r hr)
  obtain ⟨⟨err, result⟩, t, hcheck, hr⟩ := mem_onReturn hr
  unfold FirewallClient.loginStep
  rw [bind_ok hcheck]
  simp only at hr ⊢
  by_cases herr : err ≠ .errNone
  · rw [if_pos herr] at hr
    cases hr
  rw [if_neg herr] at hr ⊢
  by_cases hone : result.getIntValue (ascii "ret") (-1) = 1
  swap
  · rw [if_neg hone] at hr
    cases hr
  have hzero : result.getIntValue (ascii "ret") (-1) ≠ 0 := by
    rw [hone]
    decide
  rw [if_pos hone] at hr
  rw [if_neg hzero, if_pos hone]
  obtain ⟨redirUrl, u, hredirUrl, hr⟩ := mem_onReturn hr
  obtain ⟨url, v, hurl, hr⟩ := mem_onReturn hr
  rw [(request_one _ _ _).1] at hr
  obtain rfl := List.mem_singleton.1 hr
  rw [bind_ok hredirUrl, get_bind, bind_ok hurl]
  cases hrun : FirewallClient.sendRequest p 1 (pageCall url) v with
  | error e w =>
    have hfollows : follows p { source := .redir result, call := pageCall url, state := v } v = .error e w := bind_error hrun
    rw [bind_error hfollows]
    exact bind_error hrun
  | ok answer w =>
    have hfollows : follows p { source := .redir result, call := pageCall url, state := v } v = .ok (redirOutcome answer) w :=
      bind_ok hrun
    rw [bind_ok hfollows]
    refine (bind_ok hrun).trans ?_
    cases answer with
    | none => rfl
    | some answer => rfl

/-- A round that ends the login without an error has made such a request. -/
theorem loginStep_errNone {askCode : Nat → Bytes → Option Bytes} {b : Nat × StringMap} {s s' : FirewallClient}
    (h : FirewallClient.loginStep p askCode b s = .ok (.inr .errNone) s') : ∃ r ∈ roundRequests p b s, r.IsRedir := by
  unfold FirewallClient.loginStep at h
  obtain ⟨⟨err, result⟩, t, hcheck, h⟩ := bind_eq_ok h
  simp only at h
  split at h
  · rename_i herr
    cases h
    exact absurd rfl herr
  rename_i herr
  split at h
  · obtain ⟨_, _, -, h⟩ := bind_eq_ok h
    obtain ⟨_, _, -, h⟩ := bind_eq_ok h
    cases h
  split at h
  · rename_i hone
    obtain ⟨redirUrl, u, hredirUrl, h⟩ := bind_eq_ok h
    rw [get_bind] at h
    obtain ⟨url, v, hurl, h⟩ := bind_eq_ok h
    refine ⟨{ source := .redir result, call := pageCall url, state := v }, List.mem_append_right _ ?_, result, rfl⟩
    rw [hcheck]
    unfold onReturn
    simp only
    rw [if_neg herr, if_pos hone]
    unfold redirRequests
    rw [hredirUrl]
    unfold onReturn
    simp only
    rw [hurl]
    simp only
    rw [(request_one _ _ _).1]
    exact List.mem_singleton_self _
  · obtain ⟨next, w, hnext, h⟩ := bind_eq_ok h
    cases next with
    | inr params => cases h
    | inl err =>
      cases h
      cases hparams : FirewallClient.nextParams (askCode b.1) (result.getIntValue (ascii "ret") (-1)) b.2 result with
      | error e =>
        rw [hparams] at hnext
        cases hnext
      | ok next =>
        rw [hparams] at hnext
        cases hnext
        exact absurd rfl (FirewallClient.nextParams_inl hparams)

/-- The request behind the login decides about its end. -/
theorem loginBasic_redir {askCredential : Option (Bytes × Bytes)} {askCode : Nat → Bytes → Option Bytes} {fuel : Nat}
    {s : FirewallClient} {r : Asked} (hr : r ∈ loginRequests p askCredential askCode fuel s) (hredir : r.IsRedir) :
    FirewallClient.loginBasic p askCredential askCode fuel s = follows p r r.state := by
  obtain ⟨url, t, hurl, hr⟩ := mem_onReturn hr
  unfold FirewallClient.loginBasic
  rw [get_bind]
  refine (bind_ok hurl).trans ?_
  rcases List.mem_append.1 hr with hr | hr
  · exact absurd hredir (requestsFrom_source (by rintro _ ⟨⟩) r hr)
  obtain ⟨answer, t₁, hanswer, hr⟩ := mem_onReturn hr
  rw [bind_ok hanswer]
  cases answer with
  | none => cases hr
  | some answer =>
    simp only at hr ⊢
    split at hr
    · cases hr
    rename_i hstatus
    rw [if_neg hstatus]
    obtain ⟨authenticated, t₂, hauth, hr⟩ := mem_onReturn hr
    rw [bind_ok hauth]
    split at hr
    · cases hr
    rename_i hnot
    rw [if_neg hnot]
    cases askCredential with
    | none => cases hr
    | some credential =>
      obtain ⟨m, b, u, hmem, hloop⟩ := roundEvents_reach hr
      refine hloop.trans ?_
      have hround : FirewallClient.loginStep p askCode b u = _ := loginStep_redir hmem hredir
      cases hfollows : follows p r r.state with
      | error e w =>
        rw [bind_error hfollows] at hround
        exact iterate_error hround
      | ok err w =>
        rw [bind_ok hfollows] at hround
        exact iterate_done hround

/-- A login without an error: the client is logged in, or such a request was made. -/
theorem loginBasic_errNone {askCredential : Option (Bytes × Bytes)} {askCode : Nat → Bytes → Option Bytes} {fuel : Nat}
    {s s' : FirewallClient} (h : FirewallClient.loginBasic p askCredential askCode fuel s = .ok .errNone s') :
    LoggedIn s' ∨ ∃ r ∈ loginRequests p askCredential askCode fuel s, r.IsRedir := by
  unfold FirewallClient.loginBasic at h
  rw [get_bind] at h
  obtain ⟨url, t, hurl, h⟩ := bind_eq_ok h
  obtain ⟨answer, t₁, hanswer, h⟩ := bind_eq_ok h
  have hurl : FirewallClient.makeUrl "/remote/login" (loginQuery s.realm) s = .ok url t := hurl
  cases answer with
  | none => cases h
  | some answer =>
    simp only at h
    split at h
    · cases h
    rename_i hstatus
    obtain ⟨authenticated, t₂, hauth, h⟩ := bind_eq_ok h
    cases authenticated with
    | true =>
      cases h
      exact .inl (isAuthenticated_loggedIn hauth)
    | false =>
      rw [if_neg Bool.false_ne_true] at h
      cases askCredential with
      | none => cases h
      | some credential =>
        obtain ⟨b, u, hround, hmem⟩ := iterate_last h
        obtain ⟨r, hr, hredir⟩ := loginStep_errNone hround
        refine .inr ⟨r, ?_, hredir⟩
        unfold loginRequests
        rw [hurl]
        refine List.mem_append_right _ ?_
        rw [hanswer]
        unfold onReturn
        simp only
        rw [if_neg hstatus, hauth]
        exact hmem r hr

theorem doRequest_answered {call : FirewallClient.Call} {s s' : FirewallClient} {answer : Answer}
    (h : FirewallClient.doRequest p call s = .ok (some answer) s') : ∃ s₁, answered p call s = some (answer, s₁) := by
  have hdo : FirewallClient.doRequest p call s = (FirewallClient.sendAndReceive p
      (FirewallClient.buildRequest s.https.hostEp call.verb call.url call.body call.headers) call.answer >>= _) s := rfl
  rw [hdo] at h
  obtain ⟨received, t, hsend, h⟩ := bind_eq_ok h
  cases received with
  | none => cases h
  | some received =>
    obtain ⟨_, u, -, h⟩ := bind_eq_ok h
    cases h
    exact ⟨t, answered_eq_some.2 hsend⟩

end Redir

/-- The login ended without an error and without the cookie. -/
def endsWithoutCookie : EStateM.Result Exn FirewallClient PortalErr → Bool
  | .ok .errNone s => (s.cookieJar.get (ascii "SVPNCOOKIE")).isNone
  | _ => false

theorem not_loggedIn {x : EStateM.Result Exn FirewallClient PortalErr} (h : endsWithoutCookie x = true) :
    ∃ s, x = .ok .errNone s ∧ ¬ LoggedIn s := by
  unfold endsWithoutCookie at h
  split at h
  · rename_i s
    refine ⟨s, rfl, ?_⟩
    rintro ⟨now, -, c, hget, -⟩
    rw [hget] at h
    cases h
  · cases h

/-- The answers of a firewall that allows the login and refuses the page behind it. -/
def refusingPage : List String :=
  [emptyPage, emptyPage, "HTTP/1.1 200 OK\r\nContent-Length: 14\r\n\r\nret=1,redir=/x",
    "HTTP/1.1 403 Forbidden\r\nContent-Length: 0\r\n\r\n"]

end FortiRdp.Fw
