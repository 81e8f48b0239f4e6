/-
Requests (`Request`): the text of a request, with the `Cookie` header that the cookie jar gives for its URL.
-/
import FortiRdp.Http.Cookie
import FortiRdp.Http.Url

namespace FortiRdp.Http

open Util Net

/-- The test of one cookie in `to_header`, with its short circuits. -/
def Cookie.eligible (cookie : Cookie) (secureLink : Bool) (urlDomain urlPath : Bytes) : EnvM Bool := do
  if ← cookie.isExpired then pure false
  else if !cookie.httpOnly then pure false
  else if secureLink && !cookie.secure then pure false
  else if !(← ofExcept (cookie.sameDomain urlDomain)) then pure false
  else ofExcept (cookie.pathMatches urlPath)

/-- `to_header` of the cookies. -/
def Cookies.toHeader (cookies : Cookies) (url : Url) : EnvM ObfString := do
  let buffer ← newObf []
  let urlDomain ← ofExcept url.getHostname
  let secureLink := iequal url.scheme (ascii "https")
  let buffer ← cookies.toList.foldlM (fun (buffer : ObfString) cookie => do
    if ← cookie.eligible secureLink urlDomain url.path then
      pure ((buffer.appendObf (← cookie.toHeader)).append (ascii "; "))
    else pure buffer) buffer
  if 0 < buffer.text.length then ofExcept (buffer.substr 0 (some (buffer.text.length - 2)))
  else newObf []

theorem raises_newObf {E : Exn → Prop} (s : Bytes) : Run.Raises E (newObf s) := by
  intro env e env' h
  cases h

theorem raises_isExpired {E : Exn → Prop} (cookie : Cookie) : Run.Raises E cookie.isExpired := by
  refine Run.Raises.ite (Run.Raises.pure _) (Run.Raises.bind (fun env e env' h => ?_) fun _ => Run.Raises.pure _)
  cases h

theorem raises_eligible {E : Exn → Prop} (cookie : Cookie) (secureLink : Bool) (urlDomain urlPath : Bytes) :
    Run.Raises E (cookie.eligible secureLink urlDomain urlPath) := by
  refine Run.Raises.bind (raises_isExpired cookie) fun expired => Run.Raises.ite (Run.Raises.pure _) ?_
  refine Run.Raises.ite (Run.Raises.pure _) (Run.Raises.ite (Run.Raises.pure _) ?_)
  have hdomain : cookie.sameDomain urlDomain = .ok (cookie.domain == trimmed (lower urlDomain)) := by
    unfold Cookie.sameDomain normalizeDomain
    rw [trim_eq]
    rfl
  have hpath : ∃ b, cookie.pathMatches urlPath = .ok b := by
    unfold Cookie.pathMatches normalizePath
    rw [trim_eq]
    exact ⟨_, rfl⟩
  refine Run.Raises.bind (Run.Raises.except_ok hdomain) fun same => Run.Raises.ite (Run.Raises.pure _) ?_
  exact Run.Raises.except_ok hpath.choose_spec

/-- The `Cookie` header exists for every URL with a host name. -/
theorem Cookies.toHeader_ok (cookies : Cookies) {url : Url} {hostname : Bytes} (h : url.getHostname = .ok hostname)
    (env : Env) : ∃ o env', cookies.toHeader url env = .ok o env' := by
  refine Run.Raises.returns (Run.Raises.bind (raises_newObf _) fun buffer => ?_) env
  refine Run.Raises.bind (Run.Raises.except_ok h) fun urlDomain => ?_
  refine Run.Raises.bind (Run.Raises.foldlM (fun buffer cookie => ?_) _ _) fun buffer => ?_
  · refine Run.Raises.bind (raises_eligible _ _ _ _) fun b => Run.Raises.ite ?_ (Run.Raises.pure _)
    exact Run.Raises.bind (Run.Raises.bind (raises_newObf _) fun _ => Run.Raises.pure _) fun _ => Run.Raises.pure _
  · refine Run.Raises.ite ?_ (raises_newObf _)
    have hcut : buffer.substr 0 (some (buffer.text.length - 2)) =
        .ok { buffer with text := cStr (buffer.text.take (buffer.text.length - 2)) } := rfl
    exact Run.Raises.except_ok hcut

/-- Without a host name nothing is built. -/
theorem Cookies.toHeader_error (cookies : Cookies) {url : Url} {e : Exn} (h : url.getHostname = .error e) (env : Env) :
    ∃ env', cookies.toHeader url env = .error e env' := by
  unfold Cookies.toHeader
  obtain ⟨buffer, env', hbuffer, -⟩ := newObf_hides [] env
  rw [Run.bind_ok hbuffer, h]
  exact ⟨env', rfl⟩

structure Request where
  verb : Bytes
  url : Url
  headers : StringMap
  body : Bytes

namespace Request

def getVerb : Bytes := ascii "GET"

def postVerb : Bytes := ascii "POST"

/-- The constructor. -/
def new (verb : Bytes) (url : Url) : Request := { verb, url, headers := .empty, body := [] }

/-- `Headers::set`. -/
def set (r : Request) (name : String) (value : Bytes) : Request :=
  { r with headers := r.headers.set (ascii name) value }

/-- `Headers::add`. -/
def addHeaders (r : Request) (headers : StringMap) : Request := { r with headers := r.headers.setAll headers.entries }

/-- `Headers::write`. -/
def writeHeaders (headers : StringMap) : Bytes :=
  headers.entries.flatMap fun e => e.1 ++ ascii ": " ++ e.2 ++ ascii "\r\n"

/-- The first buffer that `send` writes: the request line, the headers and the cookies. -/
def head (r : Request) (cookies : Cookies) : EnvM Bytes := do
  let headers := if r.body = [] then r.headers else r.headers.set (ascii "Content-Length") (Endpoint.decimal r.body.length)
  let cookieHeader ← cookies.toHeader r.url
  pure (r.verb ++ ascii " " ++ r.url.toBytes true ++ ascii " " ++ ascii "HTTP/1.1" ++ ascii "\r\n" ++
    writeHeaders headers ++
    (if 0 < cookieHeader.text.length then ascii "Cookie: " ++ cookieHeader.uncrypt ++ ascii "\r\n" else []) ++
    ascii "\r\n")

/-- The head of a request to a URL with a host name is text; without one nothing is built. -/
theorem head_outcome (r : Request) (cookies : Cookies) (env : Env) :
    match r.url.getHostname with
    | .ok _ => ∃ text env', r.head cookies env = .ok text env' ∧ text ≠ []
    | .error e => ∃ env', r.head cookies env = .error e env' := by
  cases hname : r.url.getHostname with
  | ok hostname =>
    obtain ⟨o, env', ho⟩ := cookies.toHeader_ok hname env
    refine ⟨_, env', Run.bind_ok ho, fun hnil => ?_⟩
    rw [List.append_eq_nil_iff] at hnil
    exact absurd hnil.2 (by decide)
  | error e =>
    obtain ⟨env', he⟩ := cookies.toHeader_error hname env
    exact ⟨env', Run.bind_error he⟩

end Request

end FortiRdp.Http
