/-
Cookies (`Cookie`, `Cookies`): what a `Set-Cookie` value becomes, which cookies a request carries, and
the map of the cookies by their names.
-/
import FortiRdp.Util.Env
import FortiRdp.Util.StringMap

namespace FortiRdp.Http

open Util

def expiresUnspecified : Int := -1

def normalizeDomain (domain : Bytes) : Except Exn Bytes := trim (lower domain)

def normalizePath (path : Bytes) : Except Exn Bytes := do
  let path ← trim path
  pure (if path = [] then ascii "/" else path)

structure Cookie where
  name : Bytes
  value : ObfString
  domain : Bytes
  path : Bytes
  expires : Int
  secure : Bool
  httpOnly : Bool
  deriving DecidableEq, Repr

namespace Cookie

/-- The constructor. -/
def make (name : Bytes) (value : ObfString) (domain path : Bytes) (expires : Int) (secure httpOnly : Bool) :
    Except Exn Cookie := do
  let domain ← normalizeDomain domain
  let path ← normalizePath path
  pure {
    name, value, domain, path, secure, httpOnly
    expires := if expires < 0 then expiresUnspecified else expires }

/-- `to_header`. -/
def toHeader (c : Cookie) : EnvM ObfString := do
  pure ((← newObf (c.name ++ ascii "=")).appendObf c.value)

/-- `is_session`. -/
def isSession (c : Cookie) : Bool := c.expires == expiresUnspecified

/-- `is_expired`. -/
def isExpired (c : Cookie) : EnvM Bool := do
  if c.isSession then pure false
  else pure (decide (c.expires < (← readNow)))

/-- `same_domain`. -/
def sameDomain (c : Cookie) (domain : Bytes) : Except Exn Bool := do
  pure (c.domain == (← normalizeDomain domain))

/-- `path_matches`. -/
def pathMatches (c : Cookie) (path : Bytes) : Except Exn Bool := do
  let tmp ← normalizePath path
  pure (c.path == tmp || tmp.take c.path.length == c.path)

def cookieDateFormats : List Bytes := [
  ascii "%a, %d %b %Y %H:%M:%S %Z",
  ascii "%a, %d-%b-%Y %H:%M:%S %Z",
  ascii "%a, %d %b %y %H:%M:%S %Z",
  ascii "%a, %d-%b-%y %H:%M:%S %Z"]

/-- `parse_http_date`: the first format that fits, with a year after 1900. -/
def parseHttpDate (lib : DateLib) (value : Bytes) : Int :=
  go cookieDateFormats
where
  go : List Bytes → Int
    | [] => 0
    | format :: formats =>
      match lib.strptime (cStr value) format with
      | some tm => if 0 < tm.year then lib.mktime tm else go formats
      | none => go formats

/-- What the attributes of a cookie have set. -/
structure Attributes where
  domain : Bytes
  path : Bytes
  expires : Int
  secure : Bool
  httpOnly : Bool

/-- One attribute; those that are not known are ignored. -/
def parseAttribute (lib : DateLib) (attrs : Attributes) (part : ObfString) : Except Exn Attributes := do
  let cookieAv ← trimleft part.uncrypt
  match find 61 cookieAv with
  | some pos => do
    let attributeName ← substr cookieAv 0 (some pos)
    let attributeValue ← substr cookieAv (pos + 1) none
    pure (
      if iequal attributeName (ascii "domain") then { attrs with domain := attributeValue }
      else if iequal attributeName (ascii "path") then { attrs with path := attributeValue }
      else if iequal attributeName (ascii "expires") then { attrs with expires := parseHttpDate lib attributeValue }
      else attrs)
  | none =>
    pure (
      if iequal cookieAv (ascii "secure") then { attrs with secure := true }
      else if iequal cookieAv (ascii "httponly") then { attrs with httpOnly := true }
      else attrs)

/-- `parse`. -/
def parse (lib : DateLib) (cookieString : ObfString) : Except Exn Cookie :=
  match cookieString.split 59 with
  | [] => .error (.cookieError (ascii "Empty cookie definition"))
  | cookiePair :: parts =>
    match cookiePair.find 61 with
    | none => .error (.cookieError (ascii "Invalid cookie :" ++ cookieString.uncrypt))
    | some posPair => do
      let cookieName ← cookiePair.substr 0 (some posPair)
      let cookieValue ← cookiePair.substr (posPair + 1) none
      let attrs ← parts.foldlM (parseAttribute lib)
        { domain := [], path := [], expires := expiresUnspecified, secure := false, httpOnly := false }
      make cookieName.uncrypt cookieValue attrs.domain attrs.path attrs.expires attrs.secure attrs.httpOnly

/-! ### What the constructor and the test of expiry do -/

theorem make_eq (name : Bytes) (value : ObfString) (domain path : Bytes) (expires : Int) (secure httpOnly : Bool) :
    make name value domain path expires secure httpOnly = .ok {
      name, value, secure, httpOnly
      domain := trimmed (lower domain)
      path := if trimmed path = [] then ascii "/" else trimmed path
      expires := if expires < 0 then expiresUnspecified else expires } := by
  unfold Cookie.make normalizeDomain normalizePath
  rw [trim_eq, trim_eq]
  rfl

/-- The cookie is expired at that time; a session cookie never is. -/
def ExpiredAt (c : Cookie) (now : Int) : Prop := c.isSession = false ∧ c.expires < now

theorem isExpired_run (c : Cookie) (env : Env) : ∃ env', c.isExpired env =
    .ok (decide (c.isSession = false ∧ c.expires < env.now env.reads)) env' ∧ env'.now = env.now ∧
      env'.reads = env.reads + if c.isSession = false then 1 else 0 := by
  unfold isExpired
  cases hsession : c.isSession with
  | true => exact ⟨env, rfl, rfl, rfl⟩
  | false =>
    refine ⟨{ env with reads := env.reads + 1 }, ?_, rfl, rfl⟩
    simp only [true_and]
    rfl

end Cookie

/-! ## Collections -/

theorem strKey_injective {a b : Bytes} (h : strKey a = strKey b) : a = b :=
  List.map_injective_iff.2 (fun _ _ h => UInt8.toNat_inj.1 h) h

/-- The cookies, each under its own name. -/
structure Cookies where
  map : Run.SortedMap Cookie strKey
  named : ∀ e ∈ map.entries, e.1 = e.2.name

namespace Cookies

def empty : Cookies := ⟨.empty, fun _ h => absurd h List.not_mem_nil⟩

/-- `add` of a cookie. -/
def add (cookies : Cookies) (cookie : Cookie) : Cookies where
  map := cookies.map.set cookie.name cookie
  named := by
    intro e he
    rcases Run.SortedMap.mem_setEntry e he with ⟨hkey, hval⟩ | he
    · rw [hval]
      exact strKey_injective hkey
    · exact cookies.named e he

def remove (cookies : Cookies) (name : Bytes) : Cookies :=
  ⟨cookies.map.erase name, fun e he => cookies.named e (List.mem_filter.1 he).1⟩

def get (cookies : Cookies) (name : Bytes) : Option Cookie := cookies.map.get name

/-- The cookies in the order of their names. -/
def toList (cookies : Cookies) : List Cookie := cookies.map.entries.map Prod.snd

end Cookies

end FortiRdp.Http
