/-
The HTTPS client (`HttpsClient`): a connection that is kept alive for a time and a number of requests. The
network decides what every attempt to connect meets; what is written is recorded with the certificate of
the connection that it goes to.
-/
import FortiRdp.Http.Answer
import FortiRdp.Http.Request
import FortiRdp.Net.TlsSocket

namespace FortiRdp.Http

open Util Net

/-- Bytes that were sent, on a connection with that certificate and that result of its verification. -/
structure Written where
  peerCrt : Option Crt
  verifyResult : UInt32
  data : Bytes
  deriving DecidableEq, Repr

structure HttpsClient where
  hostEp : Endpoint
  tlsConfig : TlsConfig
  keepaliveTimer : Util.Timer
  maxRequests : Int
  keepaliveTimeout : Int
  requestCount : Int
  conn : Option TlsConn
  network : Nat → Dial
  dialed : Nat
  written : List Written
  env : Env

abbrev HttpsM := EStateM Exn HttpsClient

def statusOk : Nat := 200

def statusFound : Nat := 302

def statusSeeOther : Nat := 303

def statusTemporaryRedirect : Nat := 307

def statusUnauthorized : Nat := 401

def statusForbidden : Nat := 403

def defaultKeepAliveTimeout : Int := 60

def defaultMaxRequests : Int := 100

namespace HttpsClient

def onEnv {α : Type} (x : EnvM α) : HttpsM α := Run.zoom HttpsClient.env (fun env s => { s with env }) x

/-- The constructor. The timer runs from then on. -/
def new (hostEp : Endpoint) (tlsConfig : TlsConfig) (network : Nat → Dial) (env : Env) : HttpsClient where
  hostEp := hostEp
  tlsConfig := tlsConfig
  keepaliveTimer := ⟨env.tick env.reads + (defaultKeepAliveTimeout * 1000).toNat⟩
  maxRequests := defaultMaxRequests
  keepaliveTimeout := defaultKeepAliveTimeout
  requestCount := 0
  conn := none
  network := network
  dialed := 0
  written := []
  env := { env with reads := env.reads + 1 }

/-- `get_peer_crt`. -/
def getPeerCrt (s : HttpsClient) : Option Crt := s.conn.bind TlsConn.peerCrt

/-- `get_crt_check`; without a session the result is not available. -/
def getCrtCheck (s : HttpsClient) : UInt32 := (s.conn.map TlsConn.verifyResult).getD 0xFFFFFFFF

/-- `_keepalive_timer.start(_keepalive_timeout * 1000)`, a duration of 32 bits. -/
def startKeepaliveTimer : HttpsM Unit := do
  let duration := ((← get).keepaliveTimeout * 1000 % 2 ^ 32).toNat
  let timer ← onEnv (Util.Timer.start duration)
  modify fun s => { s with keepaliveTimer := timer }

/-- `is_reconnection_required`. -/
def isReconnectionRequired : HttpsM Bool := do
  let s ← get
  if s.conn.isNone then pure true
  else if ← onEnv s.keepaliveTimer.isElapsed then pure true
  else pure (decide (s.maxRequests ≤ s.requestCount))

/-- Opens the socket and performs the handshake; a socket that is open is refused. -/
def dial : HttpsM Unit := do
  let s ← get
  match s.conn with
  | some _ => throw (.mbedError mbedtlsErrNetInvalidContext)
  | none =>
    let (conn, err) := tlsConnect s.tlsConfig (s.network s.dialed)
    modify fun s => { s with conn, dialed := s.dialed + 1 }
    match err with
    | some rc => throw (.mbedError rc)
    | none => pure ()

/-- `connect`. -/
def connect : HttpsM Unit := do
  startKeepaliveTimer
  modify fun s => { s with requestCount := 0 }
  dial

/-- `disconnect`. -/
def disconnect : HttpsM Unit := modify fun s => { s with conn := none }

/-- `Request::write_buffer`. -/
def writeBuffer (buffer : Bytes) : HttpsM Unit := do
  let s ← get
  let (status, sent, outgoing) := tcpWrite (connOutgoing s.conn) buffer
  modify fun s => { s with
    conn := s.conn.map fun conn => { conn with outgoing }
    written := s.written ++ [{ peerCrt := s.getPeerCrt, verifyResult := s.getCrtCheck, data := sent }] }
  match status.code with
  | .netctxSndError | .netctxSndRetry => throw (.mbedError status.rc)
  | .netctxSndOk => pure ()

/-- `Request::send`. -/
def send (request : Request) (cookies : Cookies) : HttpsM Unit := do
  writeBuffer (← onEnv (request.head cookies))
  if request.body ≠ [] then writeBuffer request.body

/-- `send_request`. -/
def sendRequest (request : Request) (cookies : Cookies) : HttpsM Unit := do
  send request cookies
  modify fun s => { s with requestCount := s.requestCount + 1 }
  startKeepaliveTimer

/-- The answer is read from the connection. -/
def receive {α : Type} (answer : Answer) (x : AnswerM α) : HttpsM (α × Answer) := fun s =>
  let back (r : Receiver) : HttpsClient :=
    { s with conn := s.conn.map fun conn => { conn with incoming := r.incoming }, env := r.env }
  match x { answer, incoming := connIncoming s.conn, env := s.env } with
  | .ok a r => .ok (a, r.answer) (back r)
  | .error e r => .error e (back r)

/-- The `max` and `timeout` parameters of a `Keep-Alive` header, with their defaults. -/
def keepAliveParams (headers : StringMap) : Except Exn (Int × Int) :=
  match headers.getStr (ascii "Keep-Alive") with
  | none => .ok (defaultMaxRequests, defaultKeepAliveTimeout)
  | some keepAlive => do
    let params ← StringMap.ofLine keepAlive 44
    pure (params.getIntValue (ascii "max") defaultMaxRequests, params.getIntValue (ascii "timeout") defaultKeepAliveTimeout)

/-- `recv_answer`, into an answer that is cleared. -/
def recvAnswer (lib : DateLib) (zlib : Zlib) (answer : Answer) : HttpsM Answer := do
  let (_, answer) ← receive answer.clear (Answer.recv lib zlib)
  let (maxRequests, timeout) ← ofExcept (keepAliveParams answer.headers)
  modify fun s => { s with maxRequests := max 0 maxRequests, keepaliveTimeout := max 0 timeout }
  pure answer

/-- `make_url`. -/
def makeUrl (s : HttpsClient) (path query : Bytes) : Except Exn Url :=
  Url.ofParts (ascii "https") s.hostEp.toBytes path query []

/-! ## URL encoding -/

def hexDigit (n : Nat) : UInt8 := if n < 10 then (48 + n).toUInt8 else (87 + n).toUInt8

/-- `encode_url`. -/
def encodeUrl (str : Bytes) : Bytes := str.flatMap fun c =>
  if isalnum c || c == 45 || c == 95 || c == 46 || c == 126 then [c]
  else [37, hexDigit (c.toNat / 16), hexDigit (c.toNat % 16)]

/-- `isxdigit`. -/
def isxdigit (c : UInt8) : Bool := isdigit c || (65 ≤ c && c ≤ 70) || (97 ≤ c && c ≤ 102)

/-- The character of two hexadecimal digits, as the code computes it: letters are taken like digits. -/
def decodeHex (c1 c2 : UInt8) : UInt8 := ((((c1.toNat - 48) * 16 + (c2.toNat - 48)) % 128).toUInt8)

/-- `decode_url`. The length minus two is taken as `size_t`, so a shorter text is read beyond its end. -/
def decodeUrl (str : Bytes) : Except Exn Bytes :=
  if str.length < 2 then .error .outOfRange else .ok (go str)
where
  go : Bytes → Bytes
    | c :: c1 :: c2 :: rest =>
      if c = 37 then
        if isxdigit c1 && isxdigit c2 then decodeHex c1 c2 :: go rest else go rest
      else c :: go (c1 :: c2 :: rest)
    | rest => rest

end HttpsClient

end FortiRdp.Http
