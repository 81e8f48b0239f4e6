/-
The policy of the cookie jar: what a request does with the cookies of its answer, one after the other, and
what is in the jar after any sequence of requests.
-/
import FortiRdp.Fw.Pinning

namespace FortiRdp.Http

open Util

namespace Cookies

theorem mem_add {jar : Cookies} {c d : Cookie} (h : c ∈ (jar.add d).toList) : c = d ∨ c ∈ jar.toList := by
  obtain ⟨e, he, rfl⟩ := List.mem_map.1 h
  rcases Run.SortedMap.mem_setEntry e he with ⟨-, hval⟩ | he
  · exact .inl hval
  · exact .inr (List.mem_map_of_mem he)

theorem mem_remove {jar : Cookies} {c : Cookie} {name : Bytes} (h : c ∈ (jar.remove name).toList) : c ∈ jar.toList := by
  obtain ⟨e, he, rfl⟩ := List.mem_map.1 h
  exact List.mem_map_of_mem (List.mem_filter.1 he).1

/-- Every cookie is there once, under its own name. -/
theorem names_nodup (jar : Cookies) : (jar.toList.map Cookie.name).Nodup := by
  unfold toList
  rw [List.map_map, List.nodup_iff_pairwise_ne, List.pairwise_map]
  refine (List.Pairwise.and_mem.1 jar.map.sorted).imp ?_
  rintro e e' ⟨he, he', hlt⟩ hname
  have hkey : e.1 = e'.1 := by
    rw [jar.named e he, jar.named e' he']
    exact hname
  rw [hkey] at hlt
  exact lt_irrefl _ hlt

end Cookies

end FortiRdp.Http

namespace FortiRdp.Fw

open Util Net Http

/-! ## The policy -/

/-- The cookie is for the host, or for no domain in particular. -/
def SameHost (host : Bytes) (cookie : Cookie) : Prop := cookie.domain = [] ∨ cookie.domain = host

/-- A received cookie as it is stored for the host. -/
def storedFor (host : Bytes) (cookie : Cookie) : Cookie where
  name := cookie.name
  value := cookie.value
  domain := host
  path := if trimmed cookie.path = [] then ascii "/" else trimmed cookie.path
  expires := if cookie.expires < 0 then expiresUnspecified else cookie.expires
  secure := true
  httpOnly := true

instance (host : Bytes) (cookie : Cookie) : Decidable (SameHost host cookie) := inferInstanceAs (Decidable (_ ∨ _))

/-- What a received cookie does to the jar, at that time. -/
inductive JarStep (host : Bytes) (now : Int) (cookie : Cookie) (jar : Cookies) : Cookies → Prop
  | foreign (h : ¬ SameHost host cookie) : JarStep host now cookie jar jar
  | insecure (hexp : ¬ cookie.ExpiredAt now) (h : cookie.secure = false ∨ cookie.httpOnly = false) :
      JarStep host now cookie jar jar
  | removed (hhost : SameHost host cookie) (hexp : cookie.ExpiredAt now) :
      JarStep host now cookie jar (jar.remove cookie.name)
  | stored (hhost : SameHost host cookie) (hexp : ¬ cookie.ExpiredAt now) (hsecure : cookie.secure = true)
      (hhttp : cookie.httpOnly = true) : JarStep host now cookie jar (jar.add (storedFor host cookie))

/-- Received cookies, one after the other, each at a time that the clock showed. -/
inductive JarRun (host : Bytes) (clock : Int → Prop) : List Cookie → Cookies → Cookies → Prop
  | nil (jar : Cookies) : JarRun host clock [] jar jar
  | cons {cookie : Cookie} {cookies : List Cookie} {jar jar' jar'' : Cookies} {now : Int} (hnow : clock now)
      (hstep : JarStep host now cookie jar jar') (h : JarRun host clock cookies jar' jar'') :
      JarRun host clock (cookie :: cookies) jar jar''

/-- A foreign or insecure cookie changes nothing, or it is an expired one of the host and removes its name. -/
theorem JarStep.unchanged {host : Bytes} {now : Int} {cookie : Cookie} {jar jar' : Cookies}
    (h : JarStep host now cookie jar jar')
    (hbad : ¬ SameHost host cookie ∨ cookie.secure = false ∨ cookie.httpOnly = false) :
    jar' = jar ∨ SameHost host cookie ∧ cookie.ExpiredAt now ∧ jar' = jar.remove cookie.name := by
  cases h with
  | foreign h => exact .inl rfl
  | insecure hexp h => exact .inl rfl
  | removed hhost hexp => exact .inr ⟨hhost, hexp, rfl⟩
  | stored hhost hexp hsecure hhttp =>
    rcases hbad with h | h | h
    · exact absurd hhost h
    · rw [hsecure] at h
      cases h
    · rw [hhttp] at h
      cases h

/-- A stored cookie is not expired when the received one is not. -/
theorem storedFor_fresh {host : Bytes} {cookie : Cookie} {now : Int} (h : ¬ cookie.ExpiredAt now) :
    ¬ (storedFor host cookie).ExpiredAt now := by
  rintro ⟨hsession, hexp⟩
  by_cases hneg : cookie.expires < 0
  · simp [storedFor, hneg, Cookie.isSession] at hsession
  · simp only [storedFor, hneg, if_false] at hexp
    refine h ⟨?_, hexp⟩
    unfold Cookie.isSession
    rw [beq_eq_false_iff_ne]
    rintro heq
    rw [heq] at hneg
    exact hneg (by decide)

/-! ## The code follows the policy -/

theorem isSameHost_eq (cookie : Cookie) (urlDomain : Bytes) : FirewallClient.isSameHost cookie urlDomain =
    .ok (decide (cookie.domain = [] ∨ cookie.domain = trimmed (lower urlDomain))) := by
  unfold FirewallClient.isSameHost
  by_cases hempty : cookie.domain = []
  · rw [if_pos hempty, decide_eq_true (.inl hempty)]
  · rw [if_neg hempty]
    unfold Cookie.sameDomain normalizeDomain
    rw [trim_eq]
    show Except.ok _ = _
    congr 1
    rw [Bool.eq_iff_iff, beq_iff_eq, decide_eq_true_iff]
    exact ⟨.inr, fun h => h.resolve_left hempty⟩

theorem make_stored (cookie : Cookie) (urlDomain : Bytes) :
    Cookie.make cookie.name cookie.value urlDomain cookie.path cookie.expires true true =
      .ok (storedFor (trimmed (lower urlDomain)) cookie) := Cookie.make_eq _ _ _ _ _ _ _

/-- How often the clock is read for a cookie: a session cookie does not expire, and a foreign one is not tested. -/
def testReads (host : Bytes) (cookie : Cookie) : Nat := if SameHost host cookie ∧ cookie.isSession = false then 1 else 0

theorem storeCookie_step {url : Url} {name : Bytes} (hname : url.getHostname = .ok name) (cookie : Cookie)
    (s : FirewallClient) :
    ∃ s', FirewallClient.storeCookie url cookie s = .ok () s' ∧
      JarStep (trimmed (lower name)) (s.https.env.now s.https.env.reads) cookie s.cookieJar s'.cookieJar ∧
      s'.https.env.now = s.https.env.now ∧ s'.https.env.reads = s.https.env.reads + testReads (trimmed (lower name)) cookie := by
  unfold FirewallClient.storeCookie testReads SameHost
  rw [Run.except_bind hname, Run.except_bind (isSameHost_eq cookie name)]
  by_cases hhost : cookie.domain = [] ∨ cookie.domain = trimmed (lower name)
  swap
  · rw [decide_eq_false hhost]
    refine ⟨s, rfl, .foreign hhost, rfl, ?_⟩
    simp only [hhost, false_and, if_false]
    rfl
  rw [decide_eq_true hhost, if_pos rfl]
  simp only [hhost, true_and]
  -- the clock is read, and the cookie is expired or not
  obtain ⟨env', hrun, hnow, hreads⟩ := cookie.isExpired_run s.https.env
  have hclock : FirewallClient.onHttps (HttpsClient.onEnv cookie.isExpired) s = _ := Run.zoom_ok (Run.zoom_ok hrun)
  rw [Run.bind_ok hclock]
  by_cases hexp : cookie.isSession = false ∧ cookie.expires < s.https.env.now s.https.env.reads
  · rw [decide_eq_true hexp, if_pos rfl]
    exact ⟨_, rfl, .removed hhost hexp, hnow, hreads⟩
  rw [decide_eq_false hexp, if_neg Bool.false_ne_true]
  by_cases hflags : (cookie.secure && cookie.httpOnly) = true
  · rw [if_pos hflags, Run.except_bind (make_stored cookie name)]
    rw [Bool.and_eq_true] at hflags
    exact ⟨_, rfl, .stored hhost hexp hflags.1 hflags.2, hnow, hreads⟩
  · rw [if_neg hflags]
    refine ⟨_, rfl, .insecure hexp ?_, hnow, hreads⟩
    rw [Bool.and_eq_true, not_and_or, Bool.not_eq_true, Bool.not_eq_true] at hflags
    exact hflags

/-- The times that the clock shows from a state on. -/
def Shown (s : FirewallClient) (now : Int) : Prop := ∃ k, s.https.env.reads ≤ k ∧ now = s.https.env.now k

theorem JarRun.mono {host : Bytes} {clock clock' : Int → Prop} (hclock : ∀ now, clock now → clock' now)
    {cookies : List Cookie} {jar jar' : Cookies} (h : JarRun host clock cookies jar jar') :
    JarRun host clock' cookies jar jar' := by
  induction h with
  | nil jar => exact .nil jar
  | cons hnow hstep _ ih => exact .cons (hclock _ hnow) hstep ih

theorem storeCookies_run {url : Url} {name : Bytes} (hname : url.getHostname = .ok name) :
    ∀ (cookies : List Cookie) (s : FirewallClient), ∃ s', cookies.forM (FirewallClient.storeCookie url) s = .ok ⟨⟩ s' ∧
      JarRun (trimmed (lower name)) (Shown s) cookies s.cookieJar s'.cookieJar
  | [], s => ⟨s, rfl, .nil _⟩
  | cookie :: cookies, s => by
    obtain ⟨t, hrun, hstep, hnow, hreads⟩ := storeCookie_step hname cookie s
    obtain ⟨s', hrest, hjar⟩ := storeCookies_run hname cookies t
    refine ⟨s', (Run.bind_ok hrun).trans hrest, .cons ⟨_, Nat.le_refl _, rfl⟩ hstep (hjar.mono ?_)⟩
    rintro now ⟨k, hk, rfl⟩
    exact ⟨k, by omega, by rw [hnow]⟩

/-- Without a host name the first cookie throws, and the jar stays as it is. -/
theorem storeCookies_error {url : Url} {e : Exn} (hname : url.getHostname = .error e) (cookies : List Cookie)
    (s : FirewallClient) : (Run.endState (cookies.forM (FirewallClient.storeCookie url) s)).cookieJar = s.cookieJar := by
  cases cookies with
  | nil => rfl
  | cons cookie cookies =>
    have hrun : FirewallClient.storeCookie url cookie s = .error e s := by
      unfold FirewallClient.storeCookie
      rw [hname]
      rfl
    have hforM : (cookie :: cookies).forM (FirewallClient.storeCookie url) s = _ := Run.bind_error hrun
    rw [hforM]
    rfl

/-! ## Requests -/

/-- The host that the cookies of an answer to the URL are stored for. -/
def hostOf (url : Url) : Bytes :=
  match url.getHostname with
  | .ok name => trimmed (lower name)
  | .error _ => []

/-- The answer of a call and the state in which it is there; `none` when `send_and_receive` fails or throws. -/
def answered (p : Portal) (call : FirewallClient.Call) (s : FirewallClient) : Option (Answer × FirewallClient) :=
  match FirewallClient.sendAndReceive p
    (FirewallClient.buildRequest s.https.hostEp call.verb call.url call.body call.headers) call.answer s with
  | .ok (some answer) s' => some (answer, s')
  | _ => none

/-- What is written and received does not touch the jar. -/
theorem keeps_sendAndReceive (p : Portal) {I : FirewallClient → Prop} (h : ∀ s https, I s → I { s with https })
    (request : Request) (answer : Answer) : Run.Keeps I (FirewallClient.sendAndReceive p request answer) := by
  have hattempt {α : Type} (x : HttpsM α) : Run.Keeps I (FirewallClient.attempt x) := keeps_attempt fun s hs => h s _ hs
  have honHttps {α : Type} (x : HttpsM α) : Run.Keeps I (FirewallClient.onHttps x) := keeps_onHttps fun s hs => h s _ hs
  exact keeps_sendAndReceive_of (honHttps _) (keeps_reconnect (honHttps _) (hattempt _)) (fun _ _ => hattempt _)
    (fun _ => hattempt _) request answer

/-- A call that is not answered leaves the jar; else the cookies of the answer are run through, all of them
or none. -/
theorem doRequest_jar (p : Portal) (call : FirewallClient.Call) (s : FirewallClient) :
    match answered p call s with
    | none => (Run.endState (FirewallClient.doRequest p call s)).cookieJar = s.cookieJar
    | some (answer, s₁) => ∃ done, done <+: answer.cookies.toList ∧ JarRun (hostOf call.url) (Shown s₁) done s.cookieJar
        (Run.endState (FirewallClient.doRequest p call s)).cookieJar := by
  have hkeep := keeps_sendAndReceive p (I := fun t => t.cookieJar = s.cookieJar) (fun _ _ h => h)
    (FirewallClient.buildRequest s.https.hostEp call.verb call.url call.body call.headers) call.answer s rfl
  have hdo : FirewallClient.doRequest p call s = (FirewallClient.sendAndReceive p
      (FirewallClient.buildRequest s.https.hostEp call.verb call.url call.body call.headers) call.answer >>= _) s := rfl
  unfold answered
  rw [hdo]
  cases hrun : FirewallClient.sendAndReceive p
      (FirewallClient.buildRequest s.https.hostEp call.verb call.url call.body call.headers) call.answer s with
  | error e t =>
    rw [hrun] at hkeep
    rw [Run.bind_error hrun]
    exact hkeep
  | ok r t =>
    rw [hrun] at hkeep
    have hjar : t.cookieJar = s.cookieJar := hkeep
    rw [Run.bind_ok hrun]
    cases r with
    | none => exact hjar
    | some answer =>
      simp only
      unfold hostOf
      rw [← hjar]
      cases hname : call.url.getHostname with
      | ok name =>
        obtain ⟨s', hstore, hpolicy⟩ := storeCookies_run hname answer.cookies.toList t
        rw [Run.bind_ok hstore]
        exact ⟨_, List.prefix_refl _, hpolicy⟩
      | error e =>
        have hend := storeCookies_error hname answer.cookies.toList t
        refine ⟨[], List.nil_prefix, ?_⟩
        have hsame : (Run.endState ((answer.cookies.toList.forM (FirewallClient.storeCookie call.url) >>= fun _ =>
            pure (some answer) : FwM (Option Answer)) t)).cookieJar = t.cookieJar := by
          cases hrun : answer.cookies.toList.forM (FirewallClient.storeCookie call.url) t with
          | ok a u =>
            rw [hrun] at hend
            rw [Run.bind_ok hrun]
            exact hend
          | error e u =>
            rw [hrun] at hend
            rw [Run.bind_error hrun]
            exact hend
        rw [hsame]
        exact .nil _

/-- The state after calls, one after the other, each whether it returns or throws. -/
def requests (p : Portal) (calls : List FirewallClient.Call) (s : FirewallClient) : FirewallClient :=
  calls.foldl (fun s call => Run.endState (FirewallClient.doRequest p call s)) s

/-- Where a cookie of the jar comes from: a call among these that was answered with it, for the host of its
URL, at a time at which it was not expired. -/
structure Origin (p : Portal) (calls : List FirewallClient.Call) (s₀ : FirewallClient) (c : Cookie) : Prop where
  secure : c.secure = true
  httpOnly : c.httpOnly = true
  received : ∃ pre call post answer s₁, calls = pre ++ call :: post ∧
    answered p call (requests p pre s₀) = some (answer, s₁) ∧ c.domain = hostOf call.url ∧
    (∃ r ∈ answer.cookies.toList, r.name = c.name ∧ r.value = c.value) ∧ ∃ now, Shown s₁ now ∧ ¬ c.ExpiredAt now

/-- What a run of received cookies leaves in the jar. -/
theorem JarRun.mem {host : Bytes} {clock : Int → Prop} {cookies : List Cookie} {jar jar' : Cookies} {c : Cookie}
    (h : JarRun host clock cookies jar jar') (hc : c ∈ jar'.toList) :
    c ∈ jar.toList ∨ ∃ r ∈ cookies, ∃ now, clock now ∧ ¬ r.ExpiredAt now ∧ c = storedFor host r := by
  induction h with
  | nil jar => exact .inl hc
  | @cons cookie cookies jar jar' jar'' now hnow hstep _ ih =>
    rcases ih hc with hc | ⟨r, hr, hfresh⟩
    swap
    · exact .inr ⟨r, List.mem_cons_of_mem _ hr, hfresh⟩
    cases hstep with
    | foreign h => exact .inl hc
    | insecure hexp h => exact .inl hc
    | removed hhost hexp => exact .inl (Cookies.mem_remove hc)
    | stored hhost hexp hsecure hhttp =>
      rcases Cookies.mem_add hc with rfl | hc
      · exact .inr ⟨cookie, List.mem_cons_self .., now, hnow, hexp, rfl⟩
      · exact .inl hc

theorem requests_append (p : Portal) (pre : List FirewallClient.Call) (call : FirewallClient.Call) (s : FirewallClient) :
    requests p (pre ++ [call]) s = Run.endState (FirewallClient.doRequest p call (requests p pre s)) := by
  unfold requests
  rw [List.foldl_append]
  rfl

theorem Origin.later {p : Portal} {calls : List FirewallClient.Call} {s₀ : FirewallClient} {c : Cookie}
    (h : Origin p calls s₀ c) (call : FirewallClient.Call) : Origin p (calls ++ [call]) s₀ c := by
  obtain ⟨hsecure, hhttp, pre, call', post, answer, s₁, rfl, hanswer⟩ := h
  exact ⟨hsecure, hhttp, pre, call', post ++ [call], answer, s₁, by rw [List.append_assoc]; rfl, hanswer⟩

/-- Every cookie of the jar has an origin, after any calls from an empty jar. -/
theorem requests_origin (p : Portal) (s₀ : FirewallClient) (hempty : s₀.cookieJar = .empty) (calls : List FirewallClient.Call) :
    ∀ c ∈ (requests p calls s₀).cookieJar.toList, Origin p calls s₀ c := by
  induction calls using List.reverseRecOn with
  | nil =>
    intro c hc
    have hnil : (requests p [] s₀).cookieJar.toList = [] := by
      show s₀.cookieJar.toList = []
      rw [hempty]
      rfl
    rw [hnil] at hc
    cases hc
  | append_singleton pre call ih =>
    intro c hc
    rw [requests_append] at hc
    have hjar := doRequest_jar p call (requests p pre s₀)
    cases hanswer : answered p call (requests p pre s₀) with
    | none =>
      rw [hanswer] at hjar
      exact (ih c (by rwa [← hjar])).later call
    | some v =>
      obtain ⟨answer, s₁⟩ := v
      rw [hanswer] at hjar
      obtain ⟨done, hdone, hrun⟩ := hjar
      rcases hrun.mem hc with hc | ⟨r, hr, now, hnow, hfresh, rfl⟩
      · exact (ih c hc).later call
      · exact ⟨rfl, rfl, pre, call, [], answer, s₁, rfl, hanswer, rfl, ⟨r, hdone.subset hr, rfl, rfl⟩, now, hnow,
          storedFor_fresh hfresh⟩

/-- A request for the first page. -/
def FirewallClient.Call.page : FirewallClient.Call where
  verb := Request.getVerb
  url := { scheme := ascii "https", authority := ascii "fw:443", path := ascii "/", query := [], fragment := [] }
  body := []
  headers := .empty
  answer := .new

end FortiRdp.Fw
