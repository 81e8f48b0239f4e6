/-
The reader of HTTP answers (`Answer`): the status line, the headers, and a body of known length, in
chunks or compressed. It reads from what arrives on a connection, and its loops have as much fuel as
there are bytes to come.
-/
import FortiRdp.Http.Cookie
import FortiRdp.Net.TcpSocket
import FortiRdp.Util.ByteBuffer

namespace FortiRdp.Http

open Util Net

structure Answer where
  statusCode : Nat
  reasonPhrase : Bytes
  headers : StringMap
  cookies : Cookies
  body : ByteBuffer

/-- An answer that is being read, and what it is read from. -/
structure Receiver where
  answer : Answer
  incoming : List Seg
  env : Env

abbrev AnswerM := EStateM Exn Receiver

/-! ## Decompression -/

inductive ZCode where
  | ok
  | streamEnd
  | bufError
  | streamError
  | needDict
  | dataError
  | memError
  deriving DecidableEq, Repr

/-- What a call of `inflate` answers: the output, and the stream and the input that are left. -/
structure Inflated (Stream : Type) where
  code : ZCode
  output : Bytes
  stream : Stream
  input : Bytes

/-- The decompressor. A stream and an input have a finite output: `left` bounds what is to come. -/
structure Zlib where
  Stream : Type
  inflateInit2 : Option Stream
  inflate : Stream → Bytes → Nat → Inflated Stream
  left : Stream → Bytes → Nat
  output_le : ∀ s input room, (inflate s input room).output.length ≤ room
  left_le : ∀ s input room,
    (inflate s input room).output.length + left (inflate s input room).stream (inflate s input room).input ≤ left s input

/-- A decompressor that cannot be started. -/
def noZlib : Zlib where
  Stream := Unit
  inflateInit2 := none
  inflate _ input _ := { code := .ok, output := [], stream := (), input }
  left _ _ := 0
  output_le _ _ _ := Nat.zero_le _
  left_le _ _ _ := Nat.le_refl _

/-! ## Status -/

inductive AnswerStatus where
  | errNone
  | errEof
  | errInvalidField
  | errInvalidVersion
  | errInvalidStatusLine
  | errInvalidStatusCode
  | errInvalidHeader
  | errChunkSize
  | errBodySize
  | errContentEncoding
  | errTransferEncoding
  | errBody
  deriving DecidableEq, Repr

/-- `answer_status_msg`. -/
def answerStatusMsg : AnswerStatus → Bytes
  | .errEof => ascii "HTTP answer EOF"
  | .errInvalidField => ascii "HTTP answer contains non ASCII character"
  | .errInvalidStatusLine => ascii "Invalid HTTP status line"
  | .errInvalidVersion => ascii "Invalid HTTP version"
  | .errInvalidStatusCode => ascii "Invalid HTTP status code"
  | .errInvalidHeader => ascii "Invalid HTTP header"
  | .errChunkSize => ascii "Invalid HTTP chunk size"
  | .errBodySize => ascii "Invalid HTTP body size"
  | .errContentEncoding => ascii "Unsupported HTTP content encoding"
  | .errTransferEncoding => ascii "Unsupported HTTP transfer encoding"
  | .errBody => ascii "Incomplete HTTP body"
  | .errNone => []

def statusError (status : AnswerStatus) : Exn := .httpError (answerStatusMsg status)

def maxLineSize : Nat := 8 * 1024

def maxHeaderSize : Nat := 4 * 1024

def maxBodySize : Nat := 32 * 1014 * 1024

def maxChunkSize : Nat := 2 * 1014 * 1024

def defaultCode : Nat := 400

def defaultReason : Bytes := ascii "Bad Request"

namespace Answer

/-- The constructor. -/
def new : Answer where
  statusCode := defaultCode
  reasonPhrase := defaultReason
  headers := .empty
  cookies := .empty
  body := .ofCapacity 4096

def clear (a : Answer) : Answer where
  statusCode := defaultCode
  reasonPhrase := defaultReason
  headers := .empty
  cookies := .empty
  body := a.body.clear

def modifyAnswer (f : Answer → Answer) : AnswerM Unit := modify fun s => { s with answer := f s.answer }

def onEnv {α : Type} (x : EnvM α) : AnswerM α := Run.zoom Receiver.env (fun env s => { s with env }) x

/-! ## Reading -/

/-- `read_buffer`: `none` at the end of the stream. -/
def readBuffer (len : Nat) : AnswerM (Option Bytes) := fun s =>
  let (status, data, incoming) := tcpRead s.incoming len
  match status.code with
  | .netctxRcvError | .netctxRcvRetry => .error (.mbedError status.rc) { s with incoming }
  | .netctxRcvOk => .ok (some data) { s with incoming }
  | .netctxRcvEof => .ok none { s with incoming }

/-- `read_byte`. -/
def readByte : AnswerM (Option UInt8) := do
  pure ((← readBuffer 1).bind List.head?)

/-- The states 0 and 1 of `read_line`; it is done in state 2. -/
inductive LineState where
  | text
  | cr
  deriving DecidableEq, Repr

structure Line where
  state : LineState
  bytesReceived : Nat
  buffer : ByteBuffer

def Line.start (buffer : ByteBuffer) : Line := { state := .text, bytesReceived := 0, buffer := buffer.clear }

/-- What a character does: the line goes on, or it was the LF of its end. -/
def Line.next (l : Line) (c : UInt8) : Line ⊕ ByteBuffer :=
  match l.state with
  | .text =>
    if c = 13 then
      .inl { l with state := .cr, bytesReceived := l.bytesReceived + 1 }
    else if l.bytesReceived < l.buffer.capacity then
      .inl { l with bytesReceived := l.bytesReceived + 1, buffer := l.buffer.append [c] }
    else
      .inl { l with bytesReceived := l.bytesReceived + 1 }
  | .cr =>
    if c = 10 then
      .inr l.buffer
    else if l.bytesReceived < l.buffer.capacity then
      .inl { l with bytesReceived := l.bytesReceived + 1, buffer := (l.buffer.append [13]).append [c] }
    else
      .inl { l with bytesReceived := l.bytesReceived + 1 }

/-- A round of the loop of `read_line`. -/
def readLineStep (l : Line) : AnswerM (Line ⊕ AnswerStatus × ByteBuffer) := do
  match ← readByte with
  | none => pure (.inr (.errEof, l.buffer))
  | some c =>
    match l.next c with
    | .inl l => pure (.inl l)
    | .inr buffer => pure (.inr (.errNone, buffer))

/-- `read_line`. -/
def readLine (buffer : ByteBuffer) : AnswerM (AnswerStatus × ByteBuffer) := do
  let fuel := bytesLeft (← get).incoming + 1
  Run.iterate .exhausted readLineStep fuel (.start buffer)

/-- The digits of the status code. -/
def readStatusCode : Bytes → AnswerM AnswerStatus
  | [] => do
    let code := (← get).answer.statusCode
    pure (if code < 100 ∨ 600 ≤ code then .errInvalidStatusCode else .errNone)
  | c :: digits => do
    if isdigit c then
      modifyAnswer fun a => { a with statusCode := a.statusCode * 10 + (c.toNat - 48) }
      readStatusCode digits
    else pure .errInvalidStatusCode

/-- The reason phrase, the rest of the status line. -/
def readReason : AnswerM AnswerStatus := do
  let (status, buffer) ← readLine (.ofCapacity 1024)
  if status = .errNone ∧ buffer.bytes ≠ [] then
    let reason ← ofExcept (trim buffer.bytes)
    modifyAnswer fun a => { a with reasonPhrase := reason }
  pure status

/-- `read_control_data`. -/
def readControlData : AnswerM AnswerStatus := do
  modifyAnswer fun a => { a with statusCode := defaultCode, reasonPhrase := defaultReason }
  match ← readBuffer 8 with
  | none => pure .errInvalidStatusLine
  | some httpVersion =>
  if httpVersion ≠ ascii "HTTP/1.1" then pure .errInvalidVersion
  else
  match ← readBuffer 1 with
  | none => pure .errInvalidStatusLine
  | some space =>
  if space ≠ ascii " " then pure .errInvalidStatusLine
  else
  match ← readBuffer 3 with
  | none => pure .errInvalidStatusLine
  | some statusCode =>
    modifyAnswer fun a => { a with statusCode := 0 }
    let status ← readStatusCode statusCode
    if status ≠ .errNone then pure status
    else readReason

def isValidFieldName (fieldName : Bytes) : Bool :=
  decide (0 < fieldName.length) && fieldName.all fun c => isalnum c || c == 45

/-- One header, or a cookie: a definition that is not one is skipped. -/
def storeHeader (lib : DateLib) (fieldName : Bytes) (fieldValue : ObfString) : AnswerM Unit := do
  if iequal fieldName (ascii "Set-Cookie") then
    match Cookie.parse lib fieldValue with
    | .ok cookie => modifyAnswer fun a => { a with cookies := a.cookies.add cookie }
    | .error (.cookieError _) => pure ()
    | .error e => throw e
  else modifyAnswer fun a => { a with headers := a.headers.set fieldName fieldValue.uncrypt }

/-- What a header line does; one without a name in front of a colon does nothing. -/
def readHeaderLine (lib : DateLib) (line : ObfString) : AnswerM AnswerStatus := do
  match line.find 58 with
  | none => pure .errNone
  | some pos =>
    if pos = 0 then pure .errNone
    else
    let fieldName := (← ofExcept (line.substr 0 (some pos))).uncrypt
    if isValidFieldName fieldName then
      let rest ← ofExcept (line.substr (pos + 1) none)
      storeHeader lib fieldName (← ofExcept rest.trim)
      pure .errNone
    else pure .errInvalidField

/-- A round of the loop of `read_headers`. -/
def readHeadersStep (lib : DateLib) (buffer : ByteBuffer) : AnswerM (ByteBuffer ⊕ AnswerStatus) := do
  let (status, buffer) ← readLine buffer
  if status ≠ .errNone ∨ buffer.bytes = [] then pure (.inr status)
  else
    let line ← onEnv buffer.toObfstring
    let status ← readHeaderLine lib line
    if status ≠ .errNone then pure (.inr status)
    else pure (.inl buffer)

/-- `read_headers`. -/
def readHeaders (lib : DateLib) : AnswerM AnswerStatus := do
  let fuel := bytesLeft (← get).incoming + 1
  Run.iterate .exhausted (readHeadersStep lib) fuel (.ofCapacity maxHeaderSize)

/-! ## The body -/

/-- A subtraction of `size_t`. -/
def sizeSub (a b : Nat) : Nat := (a + 2 ^ 64 - b) % 2 ^ 64

theorem sizeSub_eq {a b : Nat} (h : b ≤ a) (ha : a < 2 ^ 64) : sizeSub a b = a - b := by
  unfold sizeSub
  omega

/-- The part of the data for which there is room in the body. -/
def appendBody (data : Bytes) (maxSize : Nat) : AnswerM Unit := modifyAnswer fun a =>
  let availableSpace := sizeSub maxSize a.body.bytes.length
  if 0 < availableSpace then { a with body := a.body.append (data.take (min data.length availableSpace)) }
  else a

/-- A round of the loop of `read_body`, for the bytes that are left. -/
def readBodyStep (maxSize size : Nat) : AnswerM (Nat ⊕ Bool) := do
  let len := min size 4096
  match ← readBuffer len with
  | none => pure (.inr (size == 0))
  | some data =>
    appendBody data maxSize
    if 0 < size - len then pure (.inl (size - len))
    else pure (.inr true)

/-- `read_body`. -/
def readBody (size maxSize : Nat) : AnswerM Bool := Run.iterate .exhausted (readBodyStep maxSize) (size + 1) size

/-- A round of the inner loop of `read_gzip_body`: `none` when the input is refused. It goes on as long
as the output fills the buffer. -/
def inflateStep (zlib : Zlib) (maxSize : Nat) (strm : zlib.Stream × Bytes) :
    AnswerM ((zlib.Stream × Bytes) ⊕ Option zlib.Stream) := do
  let r := zlib.inflate strm.1 strm.2 1024
  if r.code = .needDict ∨ r.code = .dataError ∨ r.code = .memError then pure (.inr none)
  else
    appendBody r.output maxSize
    if r.output.length = 1024 then pure (.inl (r.stream, r.input))
    else pure (.inr (some r.stream))

/-- A round of the outer loop: the next piece of the input. -/
def readGzipBodyStep (zlib : Zlib) (maxSize : Nat) (b : zlib.Stream × Nat) :
    AnswerM ((zlib.Stream × Nat) ⊕ Bool) := do
  let len := min b.2 1024
  match ← readBuffer len with
  | none => pure (.inr false)
  | some data =>
    match ← Run.iterate .exhausted (inflateStep zlib maxSize) (zlib.left b.1 data + 1) (b.1, data) with
    | none => pure (.inr false)
    | some strm =>
      if 0 < b.2 - len then pure (.inl (strm, b.2 - len))
      else pure (.inr true)

/-- `read_gzip_body`. -/
def readGzipBody (zlib : Zlib) (size maxSize : Nat) : AnswerM Bool :=
  match zlib.inflateInit2 with
  | none => pure false
  | some strm => Run.iterate .exhausted (readGzipBodyStep zlib maxSize) (size + 1) (strm, size)

/-! ## The whole answer -/

/-- A round of the loop over the chunks. -/
def readChunk (buffer : ByteBuffer) : AnswerM (ByteBuffer ⊕ Unit) := do
  let (status, buffer) ← readLine buffer
  if status ≠ .errNone ∨ buffer.bytes = [] then throw (statusError .errChunkSize)
  match str2num buffer.bytes 16 0 maxChunkSize with
  | none => throw (statusError .errChunkSize)
  | some chunkSize =>
    if 0 < chunkSize then
      if !(← readBody chunkSize.toNat maxBodySize) then throw (statusError .errBody)
    -- skip eol
    let (status, buffer) ← readLine buffer
    if status ≠ .errNone ∨ buffer.bytes ≠ [] then throw (statusError .errBody)
    if 0 < chunkSize then pure (.inl buffer)
    else pure (.inr ())

def readChunks : AnswerM Unit := do
  let fuel := bytesLeft (← get).incoming + 1
  Run.iterate .exhausted readChunk fuel (.ofCapacity maxLineSize)

/-- The body of known length; without a length there is none. -/
def readSized (zlib : Zlib) (gzipContent : Bool) : AnswerM Unit := do
  match (← get).answer.headers.getStr (ascii "Content-Length") with
  | none => pure ()
  | some length =>
    match str2num length 10 0 maxBodySize with
    | none => throw (statusError .errBodySize)
    | some size =>
      if 0 < size then
        modifyAnswer fun a => { a with body := a.body.reserve size.toNat }
        let bodyAvailable ←
          if gzipContent then readGzipBody zlib size.toNat maxBodySize
          else readBody size.toNat maxBodySize
        if !bodyAvailable then throw (statusError .errBody)

def transferEncoding : AnswerM Bytes := do
  match (← get).answer.headers.getStr (ascii "Transfer-Encoding") with
  | none => pure []
  | some value => pure (lower (← ofExcept (trim value)))

/-- Whether the content is compressed. -/
def contentEncoding : AnswerM Bool := do
  match (← get).answer.headers.getStr (ascii "Content-Encoding") with
  | none => pure false
  | some value =>
    let encoding := lower (← ofExcept (trim value))
    if encoding = [] then pure false
    else if encoding = ascii "gzip" then pure true
    else throw (statusError .errContentEncoding)

/-- `recv`. -/
def recv (lib : DateLib) (zlib : Zlib) : AnswerM Unit := do
  let status ← readControlData
  if status ≠ .errNone then throw (statusError status)
  let status ← readHeaders lib
  if status ≠ .errNone then throw (statusError status)
  let transfer ← transferEncoding
  let gzipContent ← contentEncoding
  if transfer = ascii "chunked" then
    if gzipContent then throw (statusError .errContentEncoding)
    readChunks
  else if transfer = [] then readSized zlib gzipContent
  else throw (statusError .errTransferEncoding)

end Answer

end FortiRdp.Http
