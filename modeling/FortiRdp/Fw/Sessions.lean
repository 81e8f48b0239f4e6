/-
Sessions on the wire. The log of what a session writes is made of its requests, one after the other, and each
of them asks for what the client or the server has named; so the whole of it is well formed as long as the text
of the server is clean.
-/
import FortiRdp.Fw.WireRequests
import FortiRdp.Http.UrlCoding

namespace FortiRdp.Fw

open Util Net Http Run

/-- The requests of `logout`. -/
def logoutRequests (p : Portal) : FirewallClient → List Asked := pageRequests p 1 "/remote/logout" []

/-- The calls of a session, with the answers of the user. -/
inductive SessionCall where
  | openPortal (confirmCrt : Option Crt → UInt32 → Bool)
  | portalCall (call : PortalCall)

/-- The state after a call, whether it returns or throws. -/
def SessionCall.run (p : Portal) : SessionCall → FirewallClient → FirewallClient
  | .openPortal confirmCrt, s => endState (FirewallClient.openPortal p confirmCrt s)
  | .portalCall call, s => call.run p s

/-- The requests of a call; `login_saml` makes none. -/
def SessionCall.asked (p : Portal) : SessionCall → FirewallClient → List Asked
  | .openPortal confirmCrt, s => openRequests p confirmCrt s
  | .portalCall (.loginBasic askCredential askCode fuel), s => loginRequests p askCredential askCode fuel s
  | .portalCall (.loginSaml _), _ => []
  | .portalCall .getInfo, s => getPageRequests p "/remote/portal" (ascii "access") s
  | .portalCall .getConfig, s => getPageRequests p "/remote/fortisslvpn_xml" [] s
  | .portalCall .logout, s => logoutRequests p s

/-- The state after the calls of a session. -/
def runSession (p : Portal) (calls : List SessionCall) (s : FirewallClient) : FirewallClient :=
  calls.foldl (fun s call => call.run p s) s

/-- The requests of a session. -/
def sessionRequests (p : Portal) : List SessionCall → FirewallClient → List Asked
  | [], _ => []
  | call :: calls, s => call.asked p s ++ sessionRequests p calls (call.run p s)

/-! ## What the calls write -/

section Emits

variable {p : Portal}

/-- The program writes these requests. -/
def Sends (p : Portal) {α : Type} (x : FwM α) (asked : FirewallClient → List Asked) : Prop :=
  Emits (fun s => s.https.written) (Asked.written p) x asked

theorem sends_nothing {α : Type} {x : FwM α} (h : ∀ w, Keeps (fun s => s.https.written = w) x) : Sends p x fun _ => [] :=
  Emits.silent h

theorem sends_doRequest (source : Source) (call : FirewallClient.Call) :
    Sends p (FirewallClient.doRequest p call) fun s => [{ source, call, state := s }] := by
  intro s
  rw [List.flatMap_singleton]
  exact (Asked.sent p { source, call, state := s }).1

theorem sends_except {α : Type} (x : Except Exn α) : Sends p (ofExcept x : FwM α) fun _ => [] :=
  sends_nothing fun _ => Keeps.except x

theorem sends_makeUrl (path : String) (query : Bytes) : Sends p (FirewallClient.makeUrl path query) fun _ => [] :=
  sends_nothing fun _ => Kept.makeUrl path query

theorem sends_isAuthenticated : Sends p FirewallClient.isAuthenticated fun _ => [] :=
  sends_nothing fun w => (indifferent_written w).isAuthenticated

theorem sends_sendRequest : ∀ (allowed : Nat) (source : Source) (call : FirewallClient.Call),
    Sends p (FirewallClient.sendRequest p allowed call) (requestsFrom p allowed source call)
  | 0, _, _ => sends_nothing fun _ => Keeps.pure none
  | allowed + 1, source, call => by
    refine Emits.bind (sends_doRequest source call) fun answer => ?_
    cases answer with
    | none => exact sends_nothing fun _ => Keeps.pure none
    | some answer =>
      refine Emits.ite ?_ (sends_nothing fun _ => Keeps.pure _)
      cases answer.headers.getStr (ascii "Location") with
      | none => exact sends_nothing fun _ => Keeps.pure _
      | some location =>
        refine Emits.get_bind fun s => Emits.after (sends_except _) fun url => ?_
        exact sends_sendRequest allowed (.location location) { call with url, answer }

theorem sends_page {α : Type} {f : Option Answer → FwM α} (allowed : Nat) (path : String) (query : Bytes)
    (hf : ∀ answer, Sends p (f answer) fun _ => []) :
    Sends p (FirewallClient.makeUrl path query >>= fun url => FirewallClient.sendRequest p allowed (pageCall url) >>= f)
      (pageRequests p allowed path query) :=
  Emits.after (sends_makeUrl path query) fun url => Emits.before (sends_sendRequest allowed _ (pageCall url)) hf

theorem sends_pure {α : Type} (a : α) : Sends p (pure a : FwM α) fun _ => [] := sends_nothing fun _ => Keeps.pure a

theorem sends_openPage : Sends p (FirewallClient.openPage p) (pageRequests p 3 "/" []) := by
  refine sends_page 3 "/" [] fun answer => ?_
  cases answer with
  | none => exact sends_pure _
  | some answer => exact sends_pure _

theorem sends_openPortal (confirmCrt : Option Crt → UInt32 → Bool) :
    Sends p (FirewallClient.openPortal p confirmCrt) (openRequests p confirmCrt) := by
  have hconnect : Sends p (FirewallClient.attempt HttpsClient.connect) fun _ => [] :=
    sends_nothing fun w => keeps_attempt fun _ hs => connect_silent.endState hs
  refine Emits.after hconnect fun r => ?_
  cases r with
  | none => exact sends_pure _
  | some u =>
    intro s
    simp only
    rw [get_bind]
    split
    · exact sends_openPage _
    · exact sends_pure _ s

theorem sends_tryLoginCheck (inParams : StringMap) :
    Sends p (FirewallClient.tryLoginCheck p inParams) (checkRequests p inParams) := by
  refine Emits.after (sends_makeUrl _ _) fun url => Emits.before (sends_sendRequest 1 _ _) fun answer => ?_
  cases answer with
  | none => exact sends_pure _
  | some answer =>
    refine sends_nothing fun w => Keeps.ite (Keeps.bind (Keeps.except _) fun outParams => ?_) (Keeps.pure _)
    cases outParams.getInt (ascii "ret") with
    | none => exact Keeps.pure _
    | some _ => exact Keeps.pure _

theorem sends_loginStep (askCode : Nat → Bytes → Option Bytes) (b : Nat × StringMap) :
    Sends p (FirewallClient.loginStep p askCode b) (roundRequests p b) := by
  refine Emits.bind (sends_tryLoginCheck b.2) fun r => Emits.ite (sends_pure _) ?_
  by_cases hzero : r.2.getIntValue (ascii "ret") (-1) = 0
  · simp only [if_pos hzero]
    have hone : r.2.getIntValue (ascii "ret") (-1) ≠ 1 := by
      rw [hzero]
      decide
    simp only [if_neg hone]
    exact sends_nothing fun _ => Keeps.bind (Keeps.except _) fun _ => Keeps.bind (Keeps.except _) fun _ => Keeps.pure _
  · simp only [if_neg hzero]
    refine Emits.ite ?_ (sends_nothing fun _ => Keeps.bind (Keeps.except _) fun next => ?_)
    · refine Emits.after (sends_except _) fun redirUrl => ?_
      refine Emits.get_bind fun s => Emits.after (sends_except _) fun url => ?_
      refine Emits.before (sends_sendRequest 1 (.redir r.2) (pageCall url)) fun answer => ?_
      cases answer with
      | none => exact sends_pure _
      | some answer => exact sends_pure _
    · cases next with
      | inl err => exact Keeps.pure _
      | inr params => exact Keeps.pure _

theorem sends_loginBasic (askCredential : Option (Bytes × Bytes)) (askCode : Nat → Bytes → Option Bytes) (fuel : Nat) :
    Sends p (FirewallClient.loginBasic p askCredential askCode fuel) (loginRequests p askCredential askCode fuel) := by
  intro s₀
  unfold FirewallClient.loginBasic loginRequests
  rw [get_bind]
  refine Emits.after (sends_makeUrl _ (loginQuery s₀.realm)) (fun url => ?_) s₀
  refine Emits.bind (sends_sendRequest 1 (.page "/remote/login" (loginQuery s₀.realm)) (pageCall url)) fun answer => ?_
  cases answer with
  | none => exact sends_pure _
  | some answer =>
    refine Emits.ite (sends_pure _) (Emits.after sends_isAuthenticated fun authenticated => ?_)
    refine Emits.ite (sends_pure _) ?_
    cases askCredential with
    | none => exact sends_pure _
    | some credential => exact Emits.iterate (sends_loginStep askCode) fuel _

theorem sends_getPage (path : String) (query : Bytes) :
    Sends p (FirewallClient.getPage p path query) (getPageRequests p path query) := by
  refine Emits.after sends_isAuthenticated fun authenticated => Emits.ite ?_ (sends_pure _)
  refine sends_page 1 path query fun answer => ?_
  cases answer with
  | none => exact sends_pure _
  | some answer => exact sends_pure _

theorem sends_logout : Sends p (FirewallClient.logout p) (logoutRequests p) :=
  sends_page 1 "/remote/logout" [] fun _ => sends_nothing fun _ => Keeps.bind (Keeps.modify fun _ hs => hs) fun _ => Keeps.pure _

/-- The log of a call grows by what its requests write. -/
theorem SessionCall.written_run (call : SessionCall) (s : FirewallClient) :
    (call.run p s).https.written = s.https.written ++ (call.asked p s).flatMap (Asked.written p) := by
  cases call with
  | openPortal confirmCrt => exact sends_openPortal confirmCrt s
  | portalCall call =>
    cases call with
    | loginBasic askCredential askCode fuel => exact sends_loginBasic askCredential askCode fuel s
    | loginSaml askSamlauth =>
      have hsilent : Sends p (FirewallClient.loginSaml p askSamlauth) fun _ => [] :=
        sends_nothing fun w => (indifferent_written w).loginSaml askSamlauth
      exact hsilent s
    | getInfo => exact Emits.before (sends_getPage _ _) (fun _ => sends_pure _) s
    | getConfig => exact Emits.before (sends_getPage _ _) (fun _ => sends_pure _) s
    | logout => exact sends_logout s

theorem written_runSession : ∀ (calls : List SessionCall) (s : FirewallClient),
    (runSession p calls s).https.written = s.https.written ++ (sessionRequests p calls s).flatMap (Asked.written p)
  | [], s => (List.append_nil _).symm
  | call :: calls, s => by
    show (runSession p calls (call.run p s)).https.written = _
    rw [written_runSession calls, call.written_run, List.append_assoc, ← List.flatMap_append]
    rfl

end Emits

/-! ## What the calls ask for -/

theorem toBytes_makeUrl {s : HttpsClient} {path query : Bytes} {url : Url} (h : s.makeUrl path query = .ok url) :
    url.toBytes true = requestTarget path query := by
  unfold HttpsClient.makeUrl at h
  rw [Url.ofParts_eq] at h
  cases h
  exact List.append_nil _

section Meant

variable {p : Portal}

/-- The call is what the client means by that source, in whatever state it is made. -/
def Means (source : Source) (call : FirewallClient.Call) : Prop := ∀ state, ({ source, call, state } : Asked).Meant

/-- A call for what the server has named. -/
theorem means_named {source : Source} {call : FirewallClient.Call} {s : HttpsClient} {path query : Bytes}
    (hverb : call.verb = Request.getVerb ∨ call.verb = Request.postVerb)
    (hheaders : call.headers = .empty ∨ call.headers = loginHeaders) (hparts : source.parts = .ok (path, query))
    (hsource : ∀ path query, source ≠ .page path query) (h : s.makeUrl path query = .ok call.url) : Means source call :=
  fun _ => {
    verb := hverb
    headers := hheaders
    url := ⟨path, query, hparts, toBytes_makeUrl h⟩
    page := fun path query hpage => absurd hpage (hsource path query) }

/-- A call for a page of the portal. -/
theorem means_page {path : String} {query : Bytes} {call : FirewallClient.Call} {s : HttpsClient}
    (hverb : call.verb = Request.getVerb ∨ call.verb = Request.postVerb)
    (hheaders : call.headers = .empty ∨ call.headers = loginHeaders) (htarget : IsTarget (requestTarget (ascii path) query))
    (h : s.makeUrl (ascii path) query = .ok call.url) : Means (.page path query) call :=
  fun _ => {
    verb := hverb
    headers := hheaders
    url := ⟨ascii path, query, rfl, toBytes_makeUrl h⟩
    page := by
      rintro _ _ ⟨⟩
      exact htarget }

theorem makeUrl_ok {path : String} {query : Bytes} {s t : FirewallClient} {url : Url}
    (h : FirewallClient.makeUrl path query s = .ok url t) : s.https.makeUrl (ascii path) query = .ok url :=
  (except_eq_ok h).1

theorem requestsFrom_meant {allowed : Nat} {source : Source} {call : FirewallClient.Call} {s : FirewallClient}
    (h : Means source call) (r : Asked) (hr : r ∈ requestsFrom p allowed source call s) : r.Meant := by
  have hmeans : Means r.source r.call := by
    refine requestsFrom_inv p (I := Means) (fun t location _ _ _ _ h hurl => ?_) allowed h r hr
    have hshape := (h t).toShape
    exact means_named hshape.verb hshape.headers rfl nofun hurl
  exact hmeans r.state

theorem pageRequests_meant {allowed : Nat} {path : String} {query : Bytes} (htarget : IsTarget (requestTarget (ascii path) query))
    {s : FirewallClient} : ∀ r ∈ pageRequests p allowed path query s, r.Meant := by
  intro r hr
  obtain ⟨url, t, hurl, hr⟩ := mem_onReturn hr
  exact requestsFrom_meant (means_page (.inl rfl) (.inl rfl) htarget (makeUrl_ok hurl)) r hr

theorem openRequests_meant {confirmCrt : Option Crt → UInt32 → Bool} {s : FirewallClient} :
    ∀ r ∈ openRequests p confirmCrt s, r.Meant := by
  intro r hr
  obtain ⟨connected, t, -, hr⟩ := mem_onReturn hr
  cases connected with
  | none => cases hr
  | some u =>
    simp only at hr
    split at hr
    · exact pageRequests_meant (by decide) r hr
    · cases hr

theorem checkRequests_meant {inParams : StringMap} {s : FirewallClient} : ∀ r ∈ checkRequests p inParams s, r.Meant := by
  intro r hr
  obtain ⟨url, t, hurl, hr⟩ := mem_onReturn hr
  exact requestsFrom_meant (means_page (.inr rfl) (.inr rfl) (by decide) (makeUrl_ok hurl)) r hr

theorem redirRequests_meant {result : StringMap} {s : FirewallClient} : ∀ r ∈ redirRequests p result s, r.Meant := by
  intro r hr
  obtain ⟨redirUrl, t, hredir, hr⟩ := mem_onReturn hr
  obtain ⟨url, t', hurl, hr⟩ := mem_onReturn hr
  have hparts : (Source.redir result).parts = .ok (redirUrl.path, redirUrl.query) := by
    unfold Source.parts
    simp only
    rw [(except_eq_ok hredir).1]
    rfl
  exact requestsFrom_meant (means_named (.inl rfl) (.inl rfl) hparts nofun (except_eq_ok hurl).1) r hr

theorem roundRequests_meant {b : Nat × StringMap} {s : FirewallClient} : ∀ r ∈ roundRequests p b s, r.Meant := by
  intro r hr
  rcases List.mem_append.1 hr with hr | hr
  · exact checkRequests_meant r hr
  · obtain ⟨v, t, -, hr⟩ := mem_onReturn hr
    split at hr
    · cases hr
    split at hr
    · exact redirRequests_meant r hr
    · cases hr

/-- The realm goes into the query encoded. -/
theorem isTarget_login (realm : Bytes) : IsTarget (requestTarget (ascii "/remote/login") (loginQuery realm)) := by
  have hnone : ∀ c : UInt8, c = 32 ∨ c = 35 ∨ c = 13 ∨ c = 10 →
      c ∉ requestTarget (ascii "/remote/login") (loginQuery realm) := by
    intro c hc hmem
    have henc : c ∉ HttpsClient.encodeUrl realm := by
      rcases hc with rfl | rfl | rfl | rfl
      all_goals exact not_mem_encodeUrl (by decide) (by decide) (by decide) realm
    have hplain : c ∉ ascii "?/remote/login" ∧ c ∉ ascii "lang=en&" ∧ c ∉ ascii "realm=" ∧ c ∉ ascii "&" := by
      rcases hc with rfl | rfl | rfl | rfl
      all_goals decide
    have hquery : c ∉ loginQuery realm := by
      intro hmem
      have hmem := List.mem_of_mem_take hmem
      split at hmem
      · exact hplain.2.1 hmem
      · have hmem : c ∈ ascii "lang=en&" ++ ((ascii "realm=" ++ HttpsClient.encodeUrl realm ++ ascii "&") ++ []) := hmem
        simp only [List.mem_append, List.not_mem_nil, or_false] at hmem
        rcases hmem with hmem | (hmem | hmem) | hmem
        · exact hplain.2.1 hmem
        · exact hplain.2.2.1 hmem
        · exact henc hmem
        · exact hplain.2.2.2 hmem
    rcases List.mem_append.1 hmem with hmem | hmem
    · exact hplain.1 (List.mem_cons_of_mem _ (mem_of_mem_trimmed hmem))
    · split at hmem
      · cases hmem
      · rcases List.mem_cons.1 hmem with rfl | hmem
        · exact absurd hplain.1 (by decide)
        · exact hquery (mem_of_mem_trimmed hmem)
  have hhead : (requestTarget (ascii "/remote/login") (loginQuery realm)).head? = some 47 := by
    have htrimmed : trimmed (ascii "/remote/login") = ascii "/remote/login" := by decide
    unfold requestTarget
    rw [htrimmed]
    rfl
  exact ⟨hhead, hnone 32 (by decide), hnone 35 (by decide), hnone 13 (by decide), hnone 10 (by decide)⟩

theorem loginRequests_meant {askCredential : Option (Bytes × Bytes)} {askCode : Nat → Bytes → Option Bytes} {fuel : Nat}
    {s : FirewallClient} : ∀ r ∈ loginRequests p askCredential askCode fuel s, r.Meant := by
  intro r hr
  obtain ⟨url, t, hurl, hr⟩ := mem_onReturn hr
  rcases List.mem_append.1 hr with hr | hr
  · exact requestsFrom_meant (means_page (.inl rfl) (.inl rfl) (isTarget_login _) (makeUrl_ok hurl)) r hr
  obtain ⟨answer, t₁, -, hr⟩ := mem_onReturn hr
  cases answer with
  | none => cases hr
  | some answer =>
    simp only at hr
    split at hr
    · cases hr
    obtain ⟨authenticated, t₂, -, hr⟩ := mem_onReturn hr
    split at hr
    · cases hr
    cases askCredential with
    | none => cases hr
    | some credential => exact mem_roundEvents (fun b s r hr => roundRequests_meant r hr) fuel _ t₂ r hr

theorem getPageRequests_meant {path : String} {query : Bytes} (htarget : IsTarget (requestTarget (ascii path) query))
    {s : FirewallClient} : ∀ r ∈ getPageRequests p path query s, r.Meant := by
  intro r hr
  obtain ⟨authenticated, t, -, hr⟩ := mem_onReturn hr
  split at hr
  · exact pageRequests_meant htarget r hr
  · cases hr

theorem SessionCall.asked_meant (call : SessionCall) (s : FirewallClient) : ∀ r ∈ call.asked p s, r.Meant := by
  cases call with
  | openPortal confirmCrt => exact openRequests_meant
  | portalCall call =>
    cases call with
    | loginBasic askCredential askCode fuel => exact loginRequests_meant
    | loginSaml askSamlauth => exact fun r hr => absurd hr List.not_mem_nil
    | getInfo => exact getPageRequests_meant (by decide)
    | getConfig => exact getPageRequests_meant (by decide)
    | logout => exact pageRequests_meant (by decide)

theorem sessionRequests_meant : ∀ (calls : List SessionCall) (s : FirewallClient), ∀ r ∈ sessionRequests p calls s, r.Meant
  | [], _, _, hr => absurd hr List.not_mem_nil
  | call :: calls, s, r, hr => by
    rcases List.mem_append.1 hr with hr | hr
    · exact call.asked_meant s r hr
    · exact sessionRequests_meant calls _ r hr

end Meant

/-! ## A server with a script -/

/-- A server that sends these answers, whatever it is asked. -/
def serving (answers : List String) : Dial :=
  .opened 0 [.done] {
    peerCrt := some ⟨[1]⟩
    verifyResult := 0
    established := false
    incoming := keepData (answers.flatMap ascii) []
    outgoing := List.replicate 10 (.taken 1000) }

/-- A client of such a server. -/
def FirewallClient.facing (answers : List String) : FirewallClient :=
  .new (.new { hostname := ascii "fw", port := 443 } TlsConfig.new.setCaCrt (fun _ => serving answers) .still) []

def emptyPage : String := "HTTP/1.1 200 OK\r\nContent-Length: 0\r\n\r\n"

/-- `open`, and a call after it. -/
def opened (call : PortalCall) : List SessionCall := [.openPortal fun _ _ => false, .portalCall call]

/-! ## The log of a session -/

/-- What a session writes are its requests, one after the other, and each of them is one well-formed request as
long as the requests are clean. -/
theorem session_onWire (p : Portal) (calls : List SessionCall) (s : FirewallClient)
    (hclean : ∀ r ∈ sessionRequests p calls s, r.Clean) :
    (runSession p calls s).https.written = s.https.written ++ (sessionRequests p calls s).flatMap (Asked.written p) ∧
      ∀ r ∈ sessionRequests p calls s, r.OnWire p := by
  constructor
  · exact written_runSession calls s
  · intro r hr
    exact r.onWire p (sessionRequests_meant calls s r hr) (hclean r hr)

theorem session_onWire_logout :
    (runSession .plain (opened .logout) (.facing [emptyPage, emptyPage])).https.written =
      (FirewallClient.facing [emptyPage, emptyPage]).https.written ++
        (sessionRequests .plain (opened .logout) (.facing [emptyPage, emptyPage])).flatMap (Asked.written .plain) ∧
    ∀ r ∈ sessionRequests .plain (opened .logout) (.facing [emptyPage, emptyPage]), r.OnWire .plain := by
  have hclean : ∀ r ∈ sessionRequests .plain (opened .logout) (.facing [emptyPage, emptyPage]), r.Clean := by
    intro r hr
    have hall : (sessionRequests .plain (opened .logout) (.facing [emptyPage, emptyPage])).all (fun r =>
      (match r.source with | .page _ _ => true | _ => false) && decide (IsLine r.state.https.hostEp.toBytes) &&
        r.state.cookieJar.toList.isEmpty) = true := by decide +kernel
    have hr := List.all_eq_true.1 hall r hr
    simp only [Bool.and_eq_true, decide_eq_true_eq, List.isEmpty_iff] at hr
    obtain ⟨⟨hpage, hhost⟩, hjar⟩ := hr
    refine ⟨?_, hhost, ?_⟩
    · cases hsource : r.source with
      | page path query => trivial
      | location text =>
        rw [hsource] at hpage
        cases hpage
      | redir params =>
        rw [hsource] at hpage
        cases hpage
    · rw [hjar]
      exact nofun
  exact session_onWire .plain (opened .logout) (.facing [emptyPage, emptyPage]) hclean

theorem Asked.OnWire.requestLine {p : Portal} {r : Asked} (h : r.OnWire p) (hanswered : isAnswered (r.result p) = true) :
    ∃ target rest, IsTarget target ∧ takeLine (r.data p) = some (r.call.verb ++ ascii " " ++ target ++ ascii " HTTP/1.1", rest) := by
  rcases h with ⟨-, hnone⟩ | ⟨env, o, env', -, hwell, hdata⟩
  · rw [hanswered] at hnone
    cases hnone
  obtain ⟨target, htarget, hread⟩ := hwell.reads
  obtain ⟨hlines, hmessage⟩ := readRequest_iff.1 hread
  rcases hdata with hdata | ⟨hnone, -⟩
  · rw [linesText_cons, List.append_assoc] at hmessage
    refine ⟨target, linesText (r.request.fields o.uncrypt) ++ r.call.body, htarget, ?_⟩
    rw [hdata, hmessage]
    exact takeLine_iff.2 ⟨(hlines _ List.mem_cons_self).2, rfl⟩
  · rw [hanswered] at hnone
    cases hnone

/-- A login that is allowed without a `redir` parameter asks for nothing: the target of the request is empty. -/
theorem session_malformed :
    ¬ ∀ r ∈ sessionRequests .plain (opened (.loginBasic (some (ascii "u", ascii "p")) (fun _ _ => none) 1))
      (.facing [emptyPage, emptyPage, "HTTP/1.1 200 OK\r\nContent-Length: 5\r\n\r\nret=1", emptyPage]), r.OnWire .plain := by
  intro h
  have hany : (sessionRequests .plain (opened (.loginBasic (some (ascii "u", ascii "p")) (fun _ _ => none) 1))
      (.facing [emptyPage, emptyPage, "HTTP/1.1 200 OK\r\nContent-Length: 5\r\n\r\nret=1", emptyPage])).any (fun r =>
    isAnswered (r.result .plain) && decide (r.call.verb = Request.getVerb) &&
      (takeLine (r.data .plain)).any fun line => decide (line.1 = ascii "GET  HTTP/1.1")) = true := by
    decide +kernel
  obtain ⟨r, hr, hbad⟩ := List.any_eq_true.1 hany
  simp only [Bool.and_eq_true, decide_eq_true_eq] at hbad
  obtain ⟨⟨hanswered, hverb⟩, hline⟩ := hbad
  obtain ⟨target, rest, htarget, htake⟩ := (h r hr).requestLine hanswered
  rw [htake, hverb] at hline
  have hempty : ascii "GET  HTTP/1.1" = Request.getVerb ++ ascii " " ++ [] ++ ascii " HTTP/1.1" := by decide
  rw [Option.any_some, decide_eq_true_eq, hempty, List.append_cancel_right_eq, List.append_cancel_left_eq] at hline
  subst hline
  exact absurd htarget (by decide)

end FortiRdp.Fw
