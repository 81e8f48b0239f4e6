/-
The requests of a session, and what they are on the wire. `open`, the login, the pages and `logout` ask for
pages of the portal, and for what the answers of the server name: the `Location` of a redirect, and the `redir`
parameter behind a login. That text goes through `decode_url`, the URL and `make_url` into the request line as
it is, and cookies go back as they came; nothing looks for blanks, line breaks or an empty path.
-/
import FortiRdp.Fw.Pinning
import FortiRdp.Http.RequestText
import FortiRdp.Run.Emits

namespace FortiRdp.Fw

open Util Net Http Run

/-! ## What is asked for -/

/-- Where the URL of a request comes from. -/
inductive Source where
  | page (path : String) (query : Bytes)
  | location (text : Bytes)
  | redir (params : StringMap)

/-- The path and the query that `make_url` gets. -/
def Source.parts : Source → Except Exn (Bytes × Bytes)
  | .page path query => .ok (ascii path, query)
  | .location text => .ok ((Url.ofBytes text).path, (Url.ofBytes text).query)
  | .redir params => (FirewallClient.getRedirUrl params).map fun url => (url.path, url.query)

/-- The target of a request for them. -/
def requestTarget (path query : Bytes) : Bytes := trimmed path ++ if trimmed query = [] then [] else 63 :: trimmed query

/-- A call of `do_request`, and the state in which it is made. -/
structure Asked where
  source : Source
  call : FirewallClient.Call
  state : FirewallClient

/-- The request was answered. -/
def isAnswered : EStateM.Result Exn FirewallClient (Option Answer) → Bool
  | .ok (some _) _ => true
  | .ok none _ | .error _ _ => false

namespace Asked

def request (r : Asked) : Request :=
  FirewallClient.buildRequest r.state.https.hostEp r.call.verb r.call.url r.call.body r.call.headers

def result (p : Portal) (r : Asked) : EStateM.Result Exn FirewallClient (Option Answer) :=
  FirewallClient.doRequest p r.call r.state

/-- What it has written. -/
def written (p : Portal) (r : Asked) : List Written :=
  (endState (r.result p)).https.written.drop r.state.https.written.length

def data (p : Portal) (r : Asked) : Bytes := (r.written p).flatMap Written.data

/-- What it has written is one well-formed request: the whole of it, or a part when it was not answered. The
lines of the request are the headers that were set, and the `Cookie` header that the jar gives for the URL. -/
def OnWire (p : Portal) (r : Asked) : Prop :=
  (r.written p = [] ∧ isAnswered (r.result p) = false) ∨
  ∃ env o env', r.state.cookieJar.toHeader r.call.url env = .ok o env' ∧
    WellFormed r.call.verb (r.request.fields o.uncrypt) r.call.body (r.request.message o.uncrypt) ∧
    (r.data p = r.request.message o.uncrypt ∨
      isAnswered (r.result p) = false ∧ r.data p <+: r.request.message o.uncrypt ∧ r.data p ≠ r.request.message o.uncrypt)

end Asked

/-! ## One request -/

section Request

variable {p : Portal}

theorem recvAnswer_silent {w : List Written} (answer : Answer) :
    Keeps (fun s : HttpsClient => s.written = w) (HttpsClient.recvAnswer p.lib p.zlib answer) :=
  keeps_recvAnswer_of (fun _ _ _ hs => hs) (fun _ _ _ hs => hs) _ _ answer

theorem isReconnectionRequired_silent {w : List Written} :
    Keeps (fun s : HttpsClient => s.written = w) HttpsClient.isReconnectionRequired :=
  keeps_isReconnectionRequired_of fun _ _ hs => hs

theorem connect_silent {w : List Written} : Keeps (fun s : HttpsClient => s.written = w) HttpsClient.connect :=
  keeps_connect_of (fun _ _ _ hs => hs) (fun _ hs => hs) fun _ _ _ hs => hs

/-- The exchange writes the request, and then only reads. -/
theorem exchange_written (request : Request) (answer : Answer) (s : FirewallClient) : ∃ entries : List Written,
    (endState (FirewallClient.exchange p request answer s)).https.written = s.https.written ++ entries ∧
      ((entries = [] ∧ isAnswered (FirewallClient.exchange p request answer s) = false) ∨
        Carries request s.cookieJar (isAnswered (FirewallClient.exchange p request answer s)) (entries.flatMap Written.data)) := by
  obtain ⟨entries, hwritten, hsent⟩ := sendRequest_carries request s.cookieJar s.https
  refine ⟨entries, ?_⟩
  unfold FirewallClient.exchange
  rw [get_bind]
  cases hrun : HttpsClient.sendRequest request s.cookieJar s.https with
  | error e https =>
    rw [hrun] at hwritten hsent
    rcases attempt_error hrun with hattempt | hattempt
    · rw [bind_ok hattempt]
      exact ⟨hwritten, hsent⟩
    · rw [bind_error hattempt]
      exact ⟨hwritten, hsent⟩
  | ok u https =>
    rw [hrun] at hwritten hsent
    rw [bind_ok (attempt_ok hrun)]
    have hsilent : Keeps (fun t : FirewallClient => t.https.written = s.https.written ++ entries)
        (FirewallClient.attempt (HttpsClient.recvAnswer p.lib p.zlib answer)) :=
      keeps_attempt fun t ht => (recvAnswer_silent answer).endState ht
    refine ⟨hsilent.endState hwritten, .inr ?_⟩
    rcases hsent with ⟨-, hfalse⟩ | hcarries
    · cases hfalse
    · exact hcarries.weaken _

/-- Whatever was done before: a request is sent once, or not at all. -/
theorem sendAndReceive_written (request : Request) (answer : Answer) (s : FirewallClient) : ∃ entries : List Written,
    (endState (FirewallClient.sendAndReceive p request answer s)).https.written = s.https.written ++ entries ∧
      ((entries = [] ∧ isAnswered (FirewallClient.sendAndReceive p request answer s) = false) ∨
        Carries request s.cookieJar (isAnswered (FirewallClient.sendAndReceive p request answer s))
          (entries.flatMap Written.data)) := by
  -- up to the exchange nothing is written, and the jar stays as it is
  let I (t : FirewallClient) : Prop := t.https.written = s.https.written ∧ t.cookieJar = s.cookieJar
  have hexchange : ∀ t, I t → ∃ entries : List Written,
      (endState (FirewallClient.exchange p request answer t)).https.written = s.https.written ++ entries ∧
        ((entries = [] ∧ isAnswered (FirewallClient.exchange p request answer t) = false) ∨
          Carries request s.cookieJar (isAnswered (FirewallClient.exchange p request answer t))
            (entries.flatMap Written.data)) := by
    rintro t ⟨hwritten, hjar⟩
    have h := exchange_written (p := p) request answer t
    rwa [hwritten, hjar] at h
  have hnothing : ∀ {x : EStateM.Result Exn FirewallClient (Option Answer)}, I (endState x) → isAnswered x = false →
      ∃ entries : List Written, (endState x).https.written = s.https.written ++ entries ∧
        ((entries = [] ∧ isAnswered x = false) ∨ Carries request s.cookieJar (isAnswered x) (entries.flatMap Written.data)) :=
    fun hI hnone => ⟨[], by rw [hI.1, List.append_nil], .inl ⟨rfl, hnone⟩⟩
  have hrequired : Keeps I (FirewallClient.onHttps HttpsClient.isReconnectionRequired) :=
    keeps_onHttps fun t ht => ⟨isReconnectionRequired_silent.endState ht.1, ht.2⟩
  have hreconnect : Keeps I (FirewallClient.reconnect p) :=
    keeps_reconnect (keeps_onHttps fun t ht => ht) (keeps_attempt fun t ht => ⟨connect_silent.endState ht.1, ht.2⟩)
  have hrun : I s := ⟨rfl, rfl⟩
  unfold FirewallClient.sendAndReceive
  have h₁ := hrequired s hrun
  cases hfirst : FirewallClient.onHttps HttpsClient.isReconnectionRequired s with
  | error e t =>
    rw [hfirst] at h₁
    rw [bind_error hfirst]
    exact hnothing h₁ rfl
  | ok required t =>
    rw [hfirst] at h₁
    rw [bind_ok hfirst]
    cases required with
    | false => exact hexchange t h₁
    | true =>
      rw [if_pos rfl]
      have h₂ := hreconnect t h₁
      cases hsecond : FirewallClient.reconnect p t with
      | error e u =>
        rw [hsecond] at h₂
        rw [bind_error hsecond]
        exact hnothing h₂ rfl
      | ok connected u =>
        rw [hsecond] at h₂
        rw [bind_ok hsecond]
        cases connected with
        | true => exact hexchange u h₂
        | false => exact hnothing h₂ rfl

theorem indifferent_written (w : List Written) : Indifferent fun s => s.https.written = w := ⟨fun _ _ h => h, fun _ _ h => h⟩

/-- A request writes its message, or a part of it, or nothing at all. -/
theorem Asked.sent (p : Portal) (r : Asked) :
    (endState (r.result p)).https.written = r.state.https.written ++ r.written p ∧
      ((r.written p = [] ∧ isAnswered (r.result p) = false) ∨
        Carries r.request r.state.cookieJar (isAnswered (r.result p)) (r.data p)) := by
  obtain ⟨entries, hwritten, hsent⟩ := sendAndReceive_written (p := p) r.request r.call.answer r.state
  -- what is done behind the exchange writes nothing
  have hend : (endState (r.result p)).https.written = r.state.https.written ++ entries ∧
      ((entries = [] ∧ isAnswered (r.result p) = false) ∨
        Carries r.request r.state.cookieJar (isAnswered (r.result p)) (entries.flatMap Written.data)) := by
    have hresult : r.result p = (FirewallClient.sendAndReceive p r.request r.call.answer >>= _) r.state := rfl
    rw [hresult]
    cases hrun : FirewallClient.sendAndReceive p r.request r.call.answer r.state with
    | error e t =>
      rw [hrun] at hwritten hsent
      rw [bind_error hrun]
      exact ⟨hwritten, hsent⟩
    | ok answer t =>
      rw [hrun] at hwritten hsent
      rw [bind_ok hrun]
      cases answer with
      | none => exact ⟨hwritten, hsent⟩
      | some answer =>
        have hsilent : Keeps (fun s : FirewallClient => s.https.written = r.state.https.written ++ entries)
            (answer.cookies.toList.forM (FirewallClient.storeCookie r.call.url) >>= fun _ => pure (some answer)) :=
          Keeps.bind (keeps_forM ((indifferent_written _).keeps_storeCookie r.call.url) _) fun _ => Keeps.pure _
        refine ⟨hsilent.endState hwritten, .inr ?_⟩
        rcases hsent with ⟨-, hfalse⟩ | hcarries
        · cases hfalse
        · exact hcarries.weaken _
  have hentries : r.written p = entries := by
    unfold Asked.written
    rw [hend.1, List.drop_left]
  unfold Asked.data
  rw [hentries]
  exact hend

end Request

/-! ## Its lines -/

/-- The headers of the login form. -/
def loginHeaders : StringMap := SortedMap.empty.set (ascii "Content-Type") (ascii "text/plain;charset=UTF-8")

/-- How the client asks: for a page, or with the login form. -/
structure Asked.Shape (r : Asked) : Prop where
  verb : r.call.verb = Request.getVerb ∨ r.call.verb = Request.postVerb
  headers : r.call.headers = .empty ∨ r.call.headers = loginHeaders

/-- The headers of a request, in the order in which they are written. -/
theorem Asked.Shape.entries {r : Asked} (h : r.Shape) : ∃ type,
    (type = [] ∨ type = [(ascii "Content-Type", ascii "text/plain;charset=UTF-8")]) ∧
    r.request.sentHeaders.entries =
      [(ascii "Accept", ascii "text/html"), (ascii "Accept-Encoding", ascii "identity"), (ascii "Accept-Language", ascii "en"),
        (ascii "Cache-Control", ascii "no-cache"), (ascii "Connection", ascii "keep-alive")] ++
      (if r.call.body = [] then [] else [(ascii "Content-Length", Endpoint.decimal r.call.body.length)]) ++ type ++
      [(ascii "Host", r.state.https.hostEp.toBytes), (ascii "User-Agent", ascii "Mozilla/5.0 (Windows NT 10.0; Win64; x64)")] := by
  unfold Asked.request Request.sentHeaders
  have hbody : (FirewallClient.buildRequest r.state.https.hostEp r.call.verb r.call.url r.call.body r.call.headers).body =
    r.call.body := rfl
  rw [hbody]
  rcases h.headers with hheaders | hheaders
  · refine ⟨[], .inl rfl, ?_⟩
    rw [hheaders]
    by_cases hempty : r.call.body = []
    · rw [if_pos hempty, if_pos hempty]
      rfl
    · rw [if_neg hempty, if_neg hempty]
      rfl
  · refine ⟨_, .inr rfl, ?_⟩
    rw [hheaders]
    by_cases hempty : r.call.body = []
    · rw [if_pos hempty, if_pos hempty]
      rfl
    · rw [if_neg hempty, if_neg hempty]
      rfl

theorem Asked.Shape.announced {r : Asked} (h : r.Shape) (cookie : Bytes) :
    (r.request.fields cookie).filter (ascii "Content-Length: ").isPrefixOf = announced r.request.body := by
  obtain ⟨type, htype, hentries⟩ := h.entries
  have hcookie : (if cookie = [] then [] else [ascii "Cookie: " ++ cookie]).filter (ascii "Content-Length: ").isPrefixOf = [] := by
    split
    · rfl
    · rfl
  have hbody : r.request.body = r.call.body := rfl
  unfold Request.fields Http.announced
  rw [hentries, List.filter_append, hcookie, List.append_nil, hbody]
  rcases htype with rfl | rfl
  · split
    · rfl
    · rfl
  · split
    · rfl
    · rfl

theorem isLine_decimal (n : Nat) : IsLine (Endpoint.decimal n) :=
  ⟨fun h => absurd (Endpoint.isdigit_decimal h) (by decide), fun h => absurd (Endpoint.isdigit_decimal h) (by decide)⟩

theorem Asked.Shape.isLine {r : Asked} (h : r.Shape) (hhost : IsLine r.state.https.hostEp.toBytes) {cookie : Bytes}
    (hcookie : IsLine cookie) : ∀ l ∈ r.request.fields cookie, IsLine l := by
  obtain ⟨type, htype, hentries⟩ := h.entries
  have hline : ∀ e ∈ r.request.sentHeaders.entries, IsLine e.1 ∧ IsLine e.2 := by
    rw [hentries]
    intro e he
    simp only [List.mem_append, List.mem_cons, List.not_mem_nil, or_false] at he
    rcases he with ((he | he) | he) | he
    · rcases he with rfl | rfl | rfl | rfl | rfl
      all_goals decide
    · split at he
      · cases he
      · rw [List.mem_singleton.1 he]
        exact ⟨(by decide : IsLine (ascii "Content-Length")), isLine_decimal _⟩
    · rcases htype with rfl | rfl
      · cases he
      · rw [List.mem_singleton.1 he]
        decide
    · rcases he with rfl | rfl
      · exact ⟨(by decide : IsLine (ascii "Host")), hhost⟩
      · decide
  intro l hl
  rcases List.mem_append.1 hl with hl | hl
  · obtain ⟨e, he, rfl⟩ := List.mem_map.1 hl
    obtain ⟨hname, hvalue⟩ := hline e he
    exact isLine_append.2 ⟨isLine_append.2 ⟨hname, by decide⟩, hvalue⟩
  · split at hl
    · cases hl
    · rw [List.mem_singleton.1 hl]
      exact isLine_append.2 ⟨by decide, hcookie⟩
/-! ## Clean requests -/

/-- The server's text gives a target; pages of the portal always do. -/
def Source.Clean : Source → Prop
  | .page _ _ => True
  | .location text => IsTarget (requestTarget (Url.ofBytes text).path (Url.ofBytes text).query)
  | .redir params =>
    match FirewallClient.getRedirUrl params with
    | .ok url => IsTarget (requestTarget url.path url.query)
    | .error _ => True

/-- The target is one, and neither the host nor a cookie that goes with the request has a line break. -/
structure Asked.Clean (r : Asked) : Prop where
  source : r.source.Clean
  host : IsLine r.state.https.hostEp.toBytes
  cookies : ∀ c ∈ r.state.cookieJar.toList, c.GoesTo r.call.url → c.IsLine

/-- The URL is made of the parts that its source gives, and a page of the portal is a target. -/
structure Asked.Meant (r : Asked) : Prop extends r.Shape where
  url : ∃ path query, r.source.parts = .ok (path, query) ∧ r.call.url.toBytes true = requestTarget path query
  page : ∀ path query, r.source = .page path query → IsTarget (requestTarget (ascii path) query)

theorem Asked.isTarget {r : Asked} (h : r.Meant) (hclean : r.source.Clean) : IsTarget (r.call.url.toBytes true) := by
  obtain ⟨path, query, hparts, hurl⟩ := h.url
  rw [hurl]
  cases hsource : r.source with
  | page name text =>
    have htarget := h.page name text hsource
    rw [hsource] at hparts
    cases hparts
    exact htarget
  | location text =>
    rw [hsource] at hparts hclean
    cases hparts
    exact hclean
  | redir params =>
    rw [hsource] at hparts hclean
    have hmap : (FirewallClient.getRedirUrl params).map (fun url => (url.path, url.query)) = .ok (path, query) := hparts
    have hredir : match FirewallClient.getRedirUrl params with
      | .ok url => IsTarget (requestTarget url.path url.query)
      | .error _ => True := hclean
    cases hurl : FirewallClient.getRedirUrl params with
    | error e =>
      rw [hurl] at hmap
      cases hmap
    | ok url =>
      rw [hurl] at hmap hredir
      cases hmap
      exact hredir

/-- A clean request is well formed on the wire. -/
theorem Asked.onWire (p : Portal) {r : Asked} (h : r.Meant) (hclean : r.Clean) : r.OnWire p := by
  rcases (r.sent p).2 with hnothing | ⟨env, o, env', ho, hdata⟩
  · exact .inl hnothing
  · refine .inr ⟨env, o, env', ho, ?_, hdata⟩
    have hverb : IsLine r.request.verb := by
      show IsLine r.call.verb
      rcases h.verb with hverb | hverb
      · rw [hverb]
        decide
      · rw [hverb]
        decide
    exact (Request.wellFormed_iff hverb (h.announced _)).2
      ⟨r.isTarget h hclean.source, h.isLine hclean.host (Cookies.toHeader_isLine hclean.cookies ho)⟩

/-! ## The requests of the calls -/

/-- The call for a page. -/
def pageCall (url : Url) : FirewallClient.Call :=
  { verb := Request.getVerb, url, body := [], headers := .empty, answer := .new }

section Requests

variable (p : Portal)

/-- The requests of `send_request`. -/
def requestsFrom : Nat → Source → FirewallClient.Call → FirewallClient → List Asked
  | 0, _, _, _ => []
  | allowed + 1, source, call, s =>
    [{ source, call, state := s }] ++ onReturn (FirewallClient.doRequest p call s) fun answer t =>
      match answer with
      | none => []
      | some answer =>
        if FirewallClient.isRedirect answer.statusCode then
          match answer.headers.getStr (ascii "Location") with
          | none => []
          | some location =>
            onReturn ((ofExcept (t.https.makeUrl (Url.ofBytes location).path (Url.ofBytes location).query) : FwM Url) t)
              fun url t => requestsFrom allowed (.location location) { call with url, answer } t
        else []

/-- What the first call is, and stays where a redirect is followed, every call is. -/
theorem requestsFrom_inv {I : Source → FirewallClient.Call → Prop}
    (hnext : ∀ (t : FirewallClient) (location : Bytes) {source : Source} {call : FirewallClient.Call} {url : Url}
      {answer : Answer}, I source call →
      t.https.makeUrl (Url.ofBytes location).path (Url.ofBytes location).query = .ok url →
        I (.location location) { call with url, answer })
    (allowed : Nat) : ∀ {source : Source} {call : FirewallClient.Call} {s : FirewallClient}, I source call →
      ∀ r ∈ requestsFrom p allowed source call s, I r.source r.call := by
  induction allowed with
  | zero =>
    intro source call s _ r hr
    cases hr
  | succ allowed ih =>
    intro source call s h r hr
    rcases List.mem_append.1 hr with hr | hr
    · obtain rfl := List.mem_singleton.1 hr
      exact h
    obtain ⟨answer, t, -, hr⟩ := mem_onReturn hr
    cases answer with
    | none => cases hr
    | some answer =>
      simp only at hr
      split at hr
      · split at hr
        · cases hr
        · obtain ⟨url, t', hurl, hr⟩ := mem_onReturn hr
          exact ih (hnext t _ h (except_eq_ok hurl).1) r hr
      · cases hr

/-- The requests for a page, with the redirects that are followed. -/
def pageRequests (allowed : Nat) (path : String) (query : Bytes) (s : FirewallClient) : List Asked :=
  onReturn (FirewallClient.makeUrl path query s) fun url t => requestsFrom p allowed (.page path query) (pageCall url) t

/-- The requests of `open`. -/
def openRequests (confirmCrt : Option Crt → UInt32 → Bool) (s : FirewallClient) : List Asked :=
  onReturn (FirewallClient.attempt HttpsClient.connect s) fun r t =>
    match r with
    | none => []
    | some () =>
      if p.accepts confirmCrt t.https.getPeerCrt t.https.getCrtCheck then
        pageRequests p 3 "/" [] { t with peerCrtDigest := p.crtDigest t.https.getPeerCrt }
      else []

/-- The request of `try_login_check`. -/
def checkRequests (inParams : StringMap) (s : FirewallClient) : List Asked :=
  onReturn (FirewallClient.makeUrl "/remote/logincheck" [] s) fun url t =>
    requestsFrom p 1 (.page "/remote/logincheck" [])
      { verb := Request.postVerb, url, body := inParams.join (ascii "&"), headers := loginHeaders, answer := .new } t

/-- The request behind a login that is allowed. -/
def redirRequests (result : StringMap) (s : FirewallClient) : List Asked :=
  onReturn ((ofExcept (FirewallClient.getRedirUrl result) : FwM Url) s) fun redirUrl t =>
    onReturn ((ofExcept (t.https.makeUrl redirUrl.path redirUrl.query) : FwM Url) t) fun url t =>
      requestsFrom p 1 (.redir result) (pageCall url) t

/-- The requests of a round of the login loop. -/
def roundRequests (b : Nat × StringMap) (s : FirewallClient) : List Asked :=
  checkRequests p b.2 s ++ onReturn (FirewallClient.tryLoginCheck p b.2 s) fun r t =>
    if r.1 ≠ .errNone then []
    else if r.2.getIntValue (ascii "ret") (-1) = 1 then redirRequests p r.2 t
    else []

/-- The query of the login page. -/
def loginQuery (realm : Bytes) : Bytes :=
  let query : StringMap := if realm = [] then .empty
    else Run.SortedMap.empty.set (ascii "realm") (HttpsClient.encodeUrl realm)
  StringMap.join (query.set (ascii "lang") (ascii "en")) (ascii "&")

/-- The requests of `login_basic`. -/
def loginRequests (askCredential : Option (Bytes × Bytes)) (askCode : Nat → Bytes → Option Bytes) (fuel : Nat)
    (s : FirewallClient) : List Asked :=
  onReturn (FirewallClient.makeUrl "/remote/login" (loginQuery s.realm) s) fun url t =>
    requestsFrom p 1 (.page "/remote/login" (loginQuery s.realm)) (pageCall url) t ++
    onReturn (FirewallClient.getUrl p url t) fun answer t =>
      match answer with
      | none => []
      | some answer =>
        if answer.statusCode ≠ statusOk then []
        else onReturn (FirewallClient.isAuthenticated t) fun authenticated t =>
          if authenticated then []
          else
            match askCredential with
            | none => []
            | some (username, password) =>
              roundEvents (FirewallClient.loginStep p askCode) (roundRequests p) fuel (0, FirewallClient.loginParams s.realm username password) t

/-- The requests of `get_info` and `get_config`. -/
def getPageRequests (path : String) (query : Bytes) (s : FirewallClient) : List Asked :=
  onReturn (FirewallClient.isAuthenticated s) fun authenticated t => if authenticated then pageRequests p 1 path query t else []

end Requests

end FortiRdp.Fw
