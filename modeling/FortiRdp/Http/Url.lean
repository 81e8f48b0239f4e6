/-
URLs (`Url`): the parts of a URL, the state machine that finds them in a text, and the host name that
the authority names.
-/
import FortiRdp.Net.Endpoint
import FortiRdp.Util.StringMap

namespace FortiRdp.Http

open Util Net

structure Url where
  scheme : Bytes
  authority : Bytes
  path : Bytes
  query : Bytes
  fragment : Bytes
  deriving DecidableEq, Repr

namespace Url

/-- An empty URL. -/
def empty : Url := { scheme := [], authority := [], path := [], query := [], fragment := [] }

/-! ## Parsing -/

/-- The states 0 to 11 of the parser; it never enters state 6. -/
inductive State where
  | start
  | scheme
  | afterScheme
  | slash
  | slashes
  | authority
  | path
  | queryStart
  | query
  | fragmentStart
  | fragment
  deriving DecidableEq, Repr

structure Parser where
  state : State
  buffer : Bytes
  url : Url

/-- What a character that is not NUL does. -/
def Parser.next (p : Parser) (c : UInt8) : Parser :=
  match p.state with
  | .start =>
    if c = 58 then { p with buffer := [c], state := .path }
    else if c = 47 then { p with buffer := [c], state := .slash }
    else if c = 63 then { p with state := .queryStart }
    else if c = 35 then { p with state := .fragmentStart }
    else { p with buffer := [c], state := .scheme }
  | .scheme =>
    if c = 58 then { p with url := { p.url with scheme := p.buffer }, buffer := [], state := .afterScheme }
    else if c = 63 then { p with url := { p.url with path := p.buffer }, state := .queryStart }
    else if c = 35 then { p with url := { p.url with path := p.buffer }, state := .fragmentStart }
    else { p with buffer := p.buffer ++ [c] }
  | .afterScheme =>
    if c = 47 then { p with state := .slash }
    else { p with buffer := [c], state := .path }
  | .slash =>
    if c = 47 then { p with state := .slashes }
    else { p with buffer := p.buffer ++ [c], state := .path }
  | .slashes => { p with buffer := [c], state := .authority }
  | .authority =>
    if c = 47 then { p with url := { p.url with authority := p.buffer }, buffer := [47], state := .path }
    else if c = 63 then { p with url := { p.url with authority := p.buffer }, state := .queryStart }
    else if c = 35 then { p with url := { p.url with authority := p.buffer }, state := .fragmentStart }
    else { p with buffer := p.buffer ++ [c] }
  | .path =>
    if c = 63 then { p with url := { p.url with path := p.buffer }, buffer := [], state := .queryStart }
    else if c = 35 then { p with url := { p.url with path := p.buffer }, buffer := [], state := .fragmentStart }
    else { p with buffer := p.buffer ++ [c] }
  | .queryStart => { p with buffer := [c], state := .query }
  | .query =>
    if c = 35 then { p with url := { p.url with query := p.buffer }, buffer := [], state := .fragmentStart }
    else { p with buffer := p.buffer ++ [c] }
  | .fragmentStart => { p with buffer := [c], state := .fragment }
  | .fragment => { p with buffer := p.buffer ++ [c] }

/-- What the end of the text does. -/
def Parser.finish (p : Parser) : Url :=
  match p.state with
  | .scheme | .slash | .path => { p.url with path := p.buffer }
  | .authority => { p.url with authority := p.buffer }
  | .query => { p.url with query := p.buffer }
  | .fragment => { p.url with fragment := p.buffer }
  | .start | .afterScheme | .slashes | .queryStart | .fragmentStart => p.url

/-- The constructor from a text. -/
def ofBytes (url : Bytes) : Url :=
  (((cStr url).dropWhile isspace).foldl Parser.next { state := .start, buffer := [], url := empty }).finish

/-- The constructor from the parts. -/
def ofParts (scheme authority path query fragment : Bytes) : Except Exn Url := do
  let scheme ← trim scheme
  let authority ← trim authority
  let path ← trim path
  let query ← trim query
  let fragment ← trim fragment
  pure { scheme, authority, path, query, fragment }

example : ofBytes (ascii " https://fw:10443/remote/login?lang=en#top") =
    { scheme := ascii "https", authority := ascii "fw:10443", path := ascii "/remote/login", query := ascii "lang=en",
      fragment := ascii "top" } := by decide

/-! ## Parts -/

/-- `get_hostname`. -/
def getHostname (u : Url) : Except Exn Bytes :=
  if u.authority = [] then .ok [] else (Endpoint.init u.authority 80).map Endpoint.hostname

/-- `get_query_map`. -/
def getQueryMap (u : Url) : Except Exn StringMap := StringMap.ofLine u.query 38

/-- `to_string`; the implicit form leaves out scheme and authority. -/
def toBytes (u : Url) (implicit : Bool) : Bytes :=
  (if implicit then []
  else (if u.scheme = [] then [] else u.scheme ++ [58]) ++
    (if u.authority = [] then [] else [47, 47] ++ u.authority)) ++
  u.path ++
  (if u.query = [] then [] else 63 :: u.query) ++
  (if u.fragment = [] then [] else 35 :: u.fragment)

/-- `ofParts` never throws. -/
theorem ofParts_eq (scheme authority path query fragment : Bytes) : ofParts scheme authority path query fragment =
    .ok {
      scheme := trimmed scheme
      authority := trimmed authority
      path := trimmed path
      query := trimmed query
      fragment := trimmed fragment } := by
  unfold ofParts
  simp only [trim_eq]
  rfl

end Url

end FortiRdp.Http
