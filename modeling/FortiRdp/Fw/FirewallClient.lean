/-
The client of the portal (`FirewallClient`): it opens a connection, checks the certificate and records its
digest, and sends its requests over connections that show the same certificate. The answers of the user
are parameters of the calls.
-/
import FortiRdp.Http.HttpsClient

namespace FortiRdp.Fw

open Util Net Http

/-- What the client uses of the system: the date functions, the decompressor, the digest of a certificate,
the certificate store, the PEM encoder, and the parsers of the two documents of the portal. -/
structure Portal where
  lib : DateLib
  zlib : Zlib
  sha256 : Bytes → Bytes
  isTrusted : Crt → Bool
  toPem : Crt → Option Bytes
  portalInfo : Bytes → Bytes
  localAddr : Bytes → Option Bytes

structure FirewallClient where
  https : HttpsClient
  peerCrtDigest : Bytes
  cookieJar : Cookies
  realm : Bytes

abbrev FwM := EStateM Exn FirewallClient

inductive PortalErr where
  | errNone
  | commError
  | certUntrusted
  | certInvalid
  | httpError
  | accessDenied
  | loginCancelled
  deriving DecidableEq, Repr

/-- `CrtDigest`: the digest of no certificate is made of zeros. -/
def Portal.crtDigest (p : Portal) : Option Crt → Bytes
  | none => List.replicate 32 0
  | some crt => p.sha256 crt.raw

/-- The decision of `open` about a certificate: it is verified, the certificate store trusts it and
nothing else is wrong, or the user confirms it. -/
def Portal.accepts (p : Portal) (confirmCrt : Option Crt → UInt32 → Bool) (peerCrt : Option Crt) (crtCheck : UInt32) :
    Bool :=
  let crtStatus :=
    if crtCheck &&& badcertNotTrusted ≠ 0 ∧ peerCrt.any p.isTrusted then crtCheck &&& ~~~badcertNotTrusted
    else crtCheck
  crtStatus == 0 || confirmCrt peerCrt crtStatus

namespace FirewallClient

/-- The constructor. -/
def new (https : HttpsClient) (realm : Bytes) : FirewallClient :=
  { https, peerCrtDigest := List.replicate 32 0, cookieJar := .empty, realm }

def onHttps {α : Type} (x : HttpsM α) : FwM α := Run.zoom FirewallClient.https (fun https s => { s with https }) x

/-- A call under `catch (const std::runtime_error&)`: `none` when it has thrown one. -/
def attempt {α : Type} (x : HttpsM α) : FwM (Option α) := fun s =>
  match x s.https with
  | .ok a https => .ok (some a) { s with https }
  | .error e https => if e.isRuntimeError then .ok none { s with https } else .error e { s with https }

def makeUrl (path : String) (query : Bytes) : FwM Url := do
  ofExcept ((← get).https.makeUrl (ascii path) query)

/-! ## Requests -/

/-- The connection is made anew: whether it succeeds and shows the recorded certificate. -/
def reconnect (p : Portal) : FwM Bool := do
  onHttps HttpsClient.disconnect
  match ← attempt HttpsClient.connect with
  | none => pure false
  | some () => do
    let s ← get
    pure (s.peerCrtDigest == p.crtDigest s.https.getPeerCrt)

/-- The request is sent and its answer received. -/
def exchange (p : Portal) (request : Request) (answer : Answer) : FwM (Option Answer) := do
  let s ← get
  match ← attempt (HttpsClient.sendRequest request s.cookieJar) with
  | none => pure none
  | some () => attempt (HttpsClient.recvAnswer p.lib p.zlib answer)

/-- `send_and_receive`: `none` when it fails. -/
def sendAndReceive (p : Portal) (request : Request) (answer : Answer) : FwM (Option Answer) := do
  if ← onHttps HttpsClient.isReconnectionRequired then
    if ← reconnect p then exchange p request answer else pure none
  else exchange p request answer

/-- The test of `do_request` for the domain of a cookie. -/
def isSameHost (cookie : Cookie) (urlDomain : Bytes) : Except Exn Bool :=
  if cookie.domain = [] then .ok true else cookie.sameDomain urlDomain

/-- What `do_request` does with a cookie of the answer. -/
def storeCookie (url : Url) (cookie : Cookie) : FwM Unit := do
  let urlDomain ← ofExcept url.getHostname
  if ← ofExcept (isSameHost cookie urlDomain) then
    if ← onHttps (HttpsClient.onEnv cookie.isExpired) then
      modify fun s => { s with cookieJar := s.cookieJar.remove cookie.name }
    else if cookie.secure && cookie.httpOnly then
      let stored ← ofExcept (Cookie.make cookie.name cookie.value urlDomain cookie.path cookie.expires true true)
      modify fun s => { s with cookieJar := s.cookieJar.add stored }

/-- The request of `do_request`, with its headers. -/
def buildRequest (hostEp : Endpoint) (verb : Bytes) (url : Url) (body : Bytes) (headers : StringMap) : Request :=
  { ((((((((Request.new verb url).set "Accept" (ascii "text/html")).set "Accept-Encoding" (ascii "identity")).set
    "Accept-Language" (ascii "en")).set "Cache-Control" (ascii "no-cache")).set "Connection" (ascii "keep-alive")).set
    "Host" hostEp.toBytes).set "User-Agent" (ascii "Mozilla/5.0 (Windows NT 10.0; Win64; x64)")).addHeaders headers with
    body }

/-- The calls of `do_request`. -/
structure Call where
  verb : Bytes
  url : Url
  body : Bytes
  headers : StringMap
  answer : Answer

/-- `do_request`: `none` when it fails. -/
def doRequest (p : Portal) (call : Call) : FwM (Option Answer) := do
  let s ← get
  let request := buildRequest s.https.hostEp call.verb call.url call.body call.headers
  match ← sendAndReceive p request call.answer with
  | none => do
    onHttps HttpsClient.disconnect
    pure none
  | some answer => do
    answer.cookies.toList.forM (storeCookie call.url)
    pure (some answer)

/-- A status that is followed to the `Location` of the answer. -/
def isRedirect (statusCode : Nat) : Bool :=
  statusCode == statusTemporaryRedirect || statusCode == statusFound || statusCode == statusSeeOther

/-- `send_request`, with `allow_redir + 1` as the number of requests that are allowed. -/
def sendRequest (p : Portal) : Nat → Call → FwM (Option Answer)
  | 0, _ => pure none
  | allowed + 1, call => do
    match ← doRequest p call with
    | none => pure none
    | some answer =>
      if isRedirect answer.statusCode then
        match answer.headers.getStr (ascii "Location") with
        | none => pure (some answer)
        | some location => do
          let redirUrl := Url.ofBytes location
          let url ← ofExcept ((← get).https.makeUrl redirUrl.path redirUrl.query)
          sendRequest p allowed { call with url, answer }
      else pure (some answer)

/-- A request that follows no redirect. -/
def getUrl (p : Portal) (url : Url) : FwM (Option Answer) :=
  sendRequest p 1 { verb := Request.getVerb, url, body := [], headers := .empty, answer := .new }

/-! ## The portal -/

/-- The first page, once the certificate is accepted. -/
def openPage (p : Portal) : FwM PortalErr := do
  let url ← makeUrl "/" []
  match ← sendRequest p 3 { verb := Request.getVerb, url, body := [], headers := .empty, answer := .new } with
  | none => pure .commError
  | some answer => pure (if answer.statusCode = statusOk then .errNone else .httpError)

/-- `open`. -/
def openPortal (p : Portal) (confirmCrt : Option Crt → UInt32 → Bool) : FwM PortalErr := do
  match ← attempt HttpsClient.connect with
  | none => pure .commError
  | some () => do
    let s ← get
    if p.accepts confirmCrt s.https.getPeerCrt s.https.getCrtCheck then
      set { s with peerCrtDigest := p.crtDigest s.https.getPeerCrt }
      openPage p
    else pure .certUntrusted

/-- `is_authenticated`. -/
def isAuthenticated : FwM Bool := do
  match (← get).cookieJar.get (ascii "SVPNCOOKIE") with
  | none => pure false
  | some cookie =>
    if cookie.value.text = [] then pure false
    else pure (!(← onHttps (HttpsClient.onEnv cookie.isExpired)))

/-- `try_login_check`: the parameters of the answer, or an error. -/
def tryLoginCheck (p : Portal) (inParams : StringMap) : FwM (PortalErr × StringMap) := do
  let url ← makeUrl "/remote/logincheck" []
  let headers : StringMap := Run.SortedMap.empty.set (ascii "Content-Type") (ascii "text/plain;charset=UTF-8")
  match ← sendRequest p 1
    { verb := Request.postVerb, url, body := inParams.join (ascii "&"), headers, answer := .new } with
  | none => pure (.commError, .empty)
  | some answer =>
    if answer.statusCode = statusOk ∨ answer.statusCode = statusUnauthorized ∨ answer.statusCode = statusForbidden then
      let outParams ← ofExcept (StringMap.ofLine answer.body.bytes 44)
      match outParams.getInt (ascii "ret") with
      | none => pure (.accessDenied, outParams)
      | some _ => pure (.errNone, outParams)
    else pure (.httpError, .empty)

/-- `get_redir_url`; the URL stays empty without a `redir` parameter. -/
def getRedirUrl (params : StringMap) : Except Exn Url :=
  match params.getStr (ascii "redir") with
  | none => .ok .empty
  | some redir => (HttpsClient.decodeUrl redir).map Url.ofBytes

/-- The text that asks for a code. -/
def codePrompt (retcode : Int) (result : StringMap) : Except Exn Bytes :=
  match result.getStr (ascii "tokeninfo") with
  | none => .ok (ascii "Enter authentication code")
  | some device => (HttpsClient.decodeUrl device).map fun device =>
    (if retcode = 2 then ascii "Enter fortitoken code "
    else if retcode = 3 then ascii "Enter authentication code sent to email "
    else ascii "Enter authentication code sent to SMS ") ++ device

/-- Parameters of the answer that go into the next request under their own names. -/
def copyParams (result params : StringMap) (names : List String) : StringMap :=
  names.foldl (fun m name => m.set (ascii name) (result.getStrValue (ascii name) [])) params

/-- Texts joined by commas, as `string_format` does: each ends at its first NUL. -/
def joinParams (result : StringMap) (first : String) (names : List String) : Bytes :=
  names.foldl (fun text name => text ++ ascii "," ++ cStr (result.getStrValue (ascii name) []))
    (cStr (result.getStrValue (ascii first) []))

/-- The parameters of the next request of the login loop, for a return code that asks for a code; `none`
when the user cancels or the code is not known. -/
def nextParams (askCode : Bytes → Option Bytes) (retcode : Int) (params result : StringMap) :
    Except Exn (PortalErr ⊕ StringMap) :=
  if retcode = 2 ∨ retcode = 3 ∨ retcode = 4 then do
    match askCode (← codePrompt retcode result) with
    | none => pure (.inl .loginCancelled)
    | some code => pure (.inr (copyParams result ((params.set (ascii "code") code).set (ascii "code2") [])
      ["reqid", "polid", "grp"]))
  else if retcode = 5 then
    match askCode (ascii "Wait next code") with
    | none => pure (.inl .loginCancelled)
    | some code => pure (.inr (copyParams result ((params.set (ascii "code") []).set (ascii "code2") code)
      ["reqid", "polid", "grp"]))
  else if retcode = 6 then
    if result.getIntValue (ascii "pass_renew") 0 = 1 then pure (.inl .loginCancelled)
    else match askCode (result.getStrValue (ascii "chal_msg") (ascii "enter code")) with
      | none => pure (.inl .loginCancelled)
      | some code => pure (.inr ((((copyParams result params ["magic"]).set (ascii "reqid")
        (joinParams result "reqid" ["polid"])).set (ascii "grpid")
        (joinParams result "grpid" ["pid", "is_chal_rsp"])).set (ascii "credential2") code))
  else pure (.inl .accessDenied)

/-- A round of the login loop, with the number of codes asked before. -/
def loginStep (p : Portal) (askCode : Nat → Bytes → Option Bytes) (b : Nat × StringMap) :
    FwM ((Nat × StringMap) ⊕ PortalErr) := do
  let (err, result) ← tryLoginCheck p b.2
  if err ≠ .errNone then pure (.inr err)
  else
    let retcode := result.getIntValue (ascii "ret") (-1)
    if retcode = 0 then do
      let redirUrl ← ofExcept (getRedirUrl result)
      let _ ← ofExcept redirUrl.getQueryMap
      pure (.inr .accessDenied)
    else if retcode = 1 then do
      let redirUrl ← ofExcept (getRedirUrl result)
      let url ← ofExcept ((← get).https.makeUrl redirUrl.path redirUrl.query)
      match ← getUrl p url with
      | none => pure (.inr .commError)
      | some _ => pure (.inr .errNone)
    else do
      match ← ofExcept (nextParams (askCode b.1) retcode b.2 result) with
      | .inl err => pure (.inr err)
      | .inr params => pure (.inl (b.1 + 1, match result.getStr (ascii "peer") with
        | none => params
        | some peer => params.set (ascii "peer") peer))

/-- The form of the login page, filled in. -/
def loginParams (realm username password : Bytes) : StringMap :=
  let params : StringMap := (Run.SortedMap.empty.set (ascii "ajax") (ascii "1")).set (ascii "username")
    (HttpsClient.encodeUrl username)
  let params := if realm = [] then params else params.set (ascii "realm") (HttpsClient.encodeUrl realm)
  params.set (ascii "credential") (HttpsClient.encodeUrl password)

/-- `login_basic`: the user gives a name and a password or cancels, and answers the requests for a code.
The fuel bounds the rounds of the login loop. -/
def loginBasic (p : Portal) (askCredential : Option (Bytes × Bytes)) (askCode : Nat → Bytes → Option Bytes) (fuel : Nat) :
    FwM PortalErr := do
  let realm := (← get).realm
  let query : StringMap := if realm = [] then .empty
    else Run.SortedMap.empty.set (ascii "realm") (HttpsClient.encodeUrl realm)
  let url ← makeUrl "/remote/login" (StringMap.join (query.set (ascii "lang") (ascii "en")) (ascii "&"))
  match ← getUrl p url with
  | none => pure .commError
  | some answer =>
    if answer.statusCode ≠ statusOk then pure .httpError
    else if ← isAuthenticated then pure .errNone
    else match askCredential with
      | none => pure .loginCancelled
      | some (username, password) =>
        Run.iterate .exhausted (loginStep p askCode) fuel (0, loginParams realm username password)

/-- `login_saml`: the dialog gets the URL, the certificate and the cookie jar, which it may change. -/
def loginSaml (p : Portal) (askSamlauth : Url → Bytes → Cookies → Bool × Cookies) : FwM PortalErr := do
  let s ← get
  match s.https.getPeerCrt.bind p.toPem with
  | none => pure .certInvalid
  | some pem => do
    let query : StringMap := Run.SortedMap.empty.set (ascii "realm") (HttpsClient.encodeUrl s.realm)
    let url ← makeUrl "/remote/saml/start" (query.join (ascii "&"))
    let (ok, cookieJar) := askSamlauth url pem s.cookieJar
    modify fun s => { s with cookieJar }
    pure (if ok then .errNone else .loginCancelled)

/-- `logout`. -/
def logout (p : Portal) : FwM Bool := do
  let url ← makeUrl "/remote/logout" []
  let answer ← getUrl p url
  modify fun s => { s with cookieJar := .empty }
  pure answer.isSome

/-- The body of a page that only an authenticated client may ask for. -/
def getPage (p : Portal) (path : String) (query : Bytes) : FwM (Option Bytes) := do
  if ← isAuthenticated then
    let url ← makeUrl path query
    match ← getUrl p url with
    | none => pure none
    | some answer => pure (if answer.statusCode = statusOk then some answer.body.bytes else none)
  else pure none

/-- `get_info`. -/
def getInfo (p : Portal) : FwM (Option Bytes) := do
  pure ((← getPage p "/remote/portal" (ascii "access")).map p.portalInfo)

/-- `get_config`. -/
def getConfig (p : Portal) : FwM (Option Bytes) := do
  pure ((← getPage p "/remote/fortisslvpn_xml" []).bind p.localAddr)

end FirewallClient

end FortiRdp.Fw
