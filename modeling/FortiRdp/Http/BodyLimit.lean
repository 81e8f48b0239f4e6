/-
The limit of a body. The reader is run once more with its arithmetic checked: a subtraction below zero
and a negative length would lead into any other program. From a cleared answer both readers do the same,
so neither ever happens, and a body never gets beyond its limit.
-/
import FortiRdp.Http.BodyOutcome

namespace FortiRdp.Http

open Util Net

namespace Checked

/-- The part of the data for which there is room in the body; `below` when there is less than no room. -/
def appendBody (below : AnswerM Unit) (data : Bytes) (maxSize : Nat) : AnswerM Unit := do
  let size := (← get).answer.body.bytes.length
  if maxSize < size then below
  else
    let availableSpace := maxSize - size
    if 0 < availableSpace then
      Answer.modifyAnswer fun a => { a with body := a.body.append (data.take (min data.length availableSpace)) }

/-- A `long` taken as a `size_t`; `negative` when it is below zero. -/
def toSize (negative : AnswerM Nat) (n : Int) : AnswerM Nat := if n < 0 then negative else pure n.toNat

section

variable (below : AnswerM Unit) (negative : AnswerM Nat)

def readBodyStep (maxSize size : Nat) : AnswerM (Nat ⊕ Bool) := do
  let len := min size 4096
  match ← Answer.readBuffer len with
  | none => pure (.inr (size == 0))
  | some data =>
    appendBody below data maxSize
    if 0 < size - len then pure (.inl (size - len))
    else pure (.inr true)

def readBody (size maxSize : Nat) : AnswerM Bool := Run.iterate .exhausted (readBodyStep below maxSize) (size + 1) size

def inflateStep (zlib : Zlib) (maxSize : Nat) (strm : zlib.Stream × Bytes) :
    AnswerM ((zlib.Stream × Bytes) ⊕ Option zlib.Stream) := do
  let r := zlib.inflate strm.1 strm.2 1024
  if r.code = .needDict ∨ r.code = .dataError ∨ r.code = .memError then pure (.inr none)
  else
    appendBody below r.output maxSize
    if r.output.length = 1024 then pure (.inl (r.stream, r.input))
    else pure (.inr (some r.stream))

def readGzipBodyStep (zlib : Zlib) (maxSize : Nat) (b : zlib.Stream × Nat) :
    AnswerM ((zlib.Stream × Nat) ⊕ Bool) := do
  let len := min b.2 1024
  match ← Answer.readBuffer len with
  | none => pure (.inr false)
  | some data =>
    match ← Run.iterate .exhausted (inflateStep below zlib maxSize) (zlib.left b.1 data + 1) (b.1, data) with
    | none => pure (.inr false)
    | some strm =>
      if 0 < b.2 - len then pure (.inl (strm, b.2 - len))
      else pure (.inr true)

def readGzipBody (zlib : Zlib) (size maxSize : Nat) : AnswerM Bool :=
  match zlib.inflateInit2 with
  | none => pure false
  | some strm => Run.iterate .exhausted (readGzipBodyStep below zlib maxSize) (size + 1) (strm, size)

def readChunk (buffer : ByteBuffer) : AnswerM (ByteBuffer ⊕ Unit) := do
  let (status, buffer) ← Answer.readLine buffer
  if status ≠ .errNone ∨ buffer.bytes = [] then throw (statusError .errChunkSize)
  match str2num buffer.bytes 16 0 maxChunkSize with
  | none => throw (statusError .errChunkSize)
  | some chunkSize =>
    if 0 < chunkSize then
      if !(← readBody below (← toSize negative chunkSize) maxBodySize) then throw (statusError .errBody)
    let (status, buffer) ← Answer.readLine buffer
    if status ≠ .errNone ∨ buffer.bytes ≠ [] then throw (statusError .errBody)
    if 0 < chunkSize then pure (.inl buffer)
    else pure (.inr ())

def readChunks : AnswerM Unit := do
  let fuel := bytesLeft (← get).incoming + 1
  Run.iterate .exhausted (readChunk below negative) fuel (.ofCapacity maxLineSize)

def readSized (zlib : Zlib) (gzipContent : Bool) : AnswerM Unit := do
  match (← get).answer.headers.getStr (ascii "Content-Length") with
  | none => pure ()
  | some length =>
    match str2num length 10 0 maxBodySize with
    | none => throw (statusError .errBodySize)
    | some size =>
      if 0 < size then
        let length ← toSize negative size
        Answer.modifyAnswer fun a => { a with body := a.body.reserve length }
        let bodyAvailable ←
          if gzipContent then readGzipBody below zlib length maxBodySize
          else readBody below length maxBodySize
        if !bodyAvailable then throw (statusError .errBody)

/-- `recv`, with checks. -/
def recv (lib : DateLib) (zlib : Zlib) : AnswerM Unit := do
  let status ← Answer.readControlData
  if status ≠ .errNone then throw (statusError status)
  let status ← Answer.readHeaders lib
  if status ≠ .errNone then throw (statusError status)
  let transfer ← Answer.transferEncoding
  let gzipContent ← Answer.contentEncoding
  if transfer = ascii "chunked" then
    if gzipContent then throw (statusError .errContentEncoding)
    readChunks below negative
  else if transfer = [] then readSized below negative zlib gzipContent
  else throw (statusError .errTransferEncoding)

end

end Checked

/-! ## The limit -/

/-- The body is within its limit. -/
def BodyFits (ans : Answer) : Prop := ans.body.bytes.length ≤ maxBodySize

def Limited (s : Receiver) : Prop := BodyFits s.answer

/-- Within the limit the subtraction does not wrap, and it is what the checked one gives. -/
theorem appendBody_agree (below : AnswerM Unit) (data : Bytes) :
    Run.Agree Limited (Checked.appendBody below data maxBodySize) (Answer.appendBody data maxBodySize) := by
  intro s hs
  have hlimit : ¬ maxBodySize < s.answer.body.bytes.length := Nat.not_lt.2 hs
  have hsub := Answer.sizeSub_eq hs maxBodySize_lt
  unfold Checked.appendBody
  rw [Run.get_bind, if_neg hlimit, ← hsub]
  unfold Answer.appendBody
  by_cases hroom : 0 < Answer.sizeSub maxBodySize s.answer.body.bytes.length
  · rw [if_pos hroom]
    unfold Answer.modifyAnswer
    show EStateM.Result.ok () _ = EStateM.Result.ok () _
    simp only [hroom, if_true]
  · rw [if_neg hroom]
    show EStateM.Result.ok () _ = EStateM.Result.ok () _
    simp only [hroom, if_false]

/-- The append is clipped to the room that is left. -/
theorem keeps_appendBody (data : Bytes) : Run.Keeps Limited (Answer.appendBody data maxBodySize) := by
  refine keeps_modifyAnswer (P := BodyFits) fun ans hans => ?_
  unfold BodyFits at hans ⊢
  rw [Answer.sizeSub_eq hans maxBodySize_lt]
  simp only
  split
  · rw [ByteBuffer.bytes_append, List.length_append, List.length_take]
    omega
  · exact hans

theorem toSize_ok (negative : AnswerM Nat) {n : Int} (h : 0 ≤ n) : Checked.toSize negative n = pure n.toNat :=
  if_neg (Int.not_lt.2 h)

section

variable (below : AnswerM Unit) (negative : AnswerM Nat)

/-! ### Bodies -/

theorem readBodyStep_agree (size : Nat) :
    Run.Agree Limited (Checked.readBodyStep below maxBodySize size) (Answer.readBodyStep maxBodySize size) := by
  refine Run.Agree.bind (Run.Agree.refl _) (keeps_readBuffer (P := BodyFits) _) fun v => ?_
  cases v with
  | none => exact Run.Agree.refl _
  | some data => exact Run.Agree.bind (appendBody_agree below data) (keeps_appendBody data) fun _ => Run.Agree.refl _

theorem keeps_readBodyStep (size : Nat) : Run.Keeps Limited (Answer.readBodyStep maxBodySize size) := by
  refine Run.Keeps.bind (keeps_readBuffer (P := BodyFits) _) fun v => ?_
  cases v with
  | none => exact Run.Keeps.pure _
  | some data =>
    exact Run.Keeps.bind (keeps_appendBody data) fun _ => Run.Keeps.ite (Run.Keeps.pure _) (Run.Keeps.pure _)

theorem readBody_agree (size : Nat) :
    Run.Agree Limited (Checked.readBody below size maxBodySize) (Answer.readBody size maxBodySize) :=
  Run.Agree.iterate (readBodyStep_agree below) keeps_readBodyStep _ _

theorem keeps_readBody (size : Nat) : Run.Keeps Limited (Answer.readBody size maxBodySize) :=
  Run.Keeps.iterate keeps_readBodyStep _ _

theorem inflateStep_agree (zlib : Zlib) (strm : zlib.Stream × Bytes) :
    Run.Agree Limited (Checked.inflateStep below zlib maxBodySize strm) (Answer.inflateStep zlib maxBodySize strm) :=
  Run.Agree.ite (Run.Agree.refl _)
    (Run.Agree.bind (appendBody_agree below _) (keeps_appendBody _) fun _ => Run.Agree.refl _)

theorem keeps_inflateStep (zlib : Zlib) (strm : zlib.Stream × Bytes) :
    Run.Keeps Limited (Answer.inflateStep zlib maxBodySize strm) :=
  Run.Keeps.ite (Run.Keeps.pure _)
    (Run.Keeps.bind (keeps_appendBody _) fun _ => Run.Keeps.ite (Run.Keeps.pure _) (Run.Keeps.pure _))

theorem readGzipBodyStep_agree (zlib : Zlib) (b : zlib.Stream × Nat) :
    Run.Agree Limited (Checked.readGzipBodyStep below zlib maxBodySize b) (Answer.readGzipBodyStep zlib maxBodySize b) := by
  refine Run.Agree.bind (Run.Agree.refl _) (keeps_readBuffer (P := BodyFits) _) fun v => ?_
  cases v with
  | none => exact Run.Agree.refl _
  | some data =>
    exact Run.Agree.bind (Run.Agree.iterate (inflateStep_agree below zlib) (keeps_inflateStep zlib) _ _)
      (Run.Keeps.iterate (keeps_inflateStep zlib) _ _) fun _ => Run.Agree.refl _

theorem keeps_readGzipBodyStep (zlib : Zlib) (b : zlib.Stream × Nat) :
    Run.Keeps Limited (Answer.readGzipBodyStep zlib maxBodySize b) := by
  refine Run.Keeps.bind (keeps_readBuffer (P := BodyFits) _) fun v => ?_
  cases v with
  | none => exact Run.Keeps.pure _
  | some data =>
    refine Run.Keeps.bind (Run.Keeps.iterate (keeps_inflateStep zlib) _ _) fun r => ?_
    cases r with
    | none => exact Run.Keeps.pure _
    | some strm => exact Run.Keeps.ite (Run.Keeps.pure _) (Run.Keeps.pure _)

theorem readGzipBody_agree (zlib : Zlib) (size : Nat) :
    Run.Agree Limited (Checked.readGzipBody below zlib size maxBodySize) (Answer.readGzipBody zlib size maxBodySize) := by
  unfold Checked.readGzipBody Answer.readGzipBody
  cases zlib.inflateInit2 with
  | none => exact Run.Agree.refl _
  | some strm => exact Run.Agree.iterate (readGzipBodyStep_agree below zlib) (keeps_readGzipBodyStep zlib) _ _

theorem keeps_readGzipBody (zlib : Zlib) (size : Nat) : Run.Keeps Limited (Answer.readGzipBody zlib size maxBodySize) := by
  unfold Answer.readGzipBody
  cases zlib.inflateInit2 with
  | none => exact Run.Keeps.pure _
  | some strm => exact Run.Keeps.iterate (keeps_readGzipBodyStep zlib) _ _

/-! ### Chunks and lengths -/

theorem readChunk_agree (buffer : ByteBuffer) :
    Run.Agree Limited (Checked.readChunk below negative buffer) (Answer.readChunk buffer) := by
  refine Run.Agree.bind (Run.Agree.refl _) (keeps_readLine (P := BodyFits) buffer) fun v => Run.Agree.ite (Run.Agree.refl _) ?_
  cases hsize : str2num v.2.bytes 16 0 maxChunkSize with
  | none => exact Run.Agree.refl _
  | some chunkSize =>
    obtain ⟨hpos, -⟩ := str2num_range hsize
    simp only [toSize_ok negative hpos, pure_bind]
    refine Run.Agree.ite (Run.Agree.bind (readBody_agree below _) (keeps_readBody _) fun _ => ?_) ?_
    · exact Run.Agree.refl _
    · exact Run.Agree.refl _

theorem keeps_readChunk (buffer : ByteBuffer) : Run.Keeps Limited (Answer.readChunk buffer) := by
  refine Run.Keeps.bind (keeps_readLine (P := BodyFits) buffer) fun v => Run.Keeps.ite (Run.Keeps.throw _) ?_
  cases str2num v.2.bytes 16 0 maxChunkSize with
  | none => exact Run.Keeps.throw _
  | some chunkSize =>
    have heol : Run.Keeps Limited (do
        let (status, buffer) ← Answer.readLine v.2
        if status ≠ .errNone ∨ buffer.bytes ≠ [] then throw (statusError .errBody)
        if 0 < chunkSize then pure (.inl buffer) else pure (.inr ()) : AnswerM (ByteBuffer ⊕ Unit)) :=
      Run.Keeps.bind (keeps_readLine (P := BodyFits) v.2) fun w => Run.Keeps.ite (Run.Keeps.throw _)
        (Run.Keeps.ite (Run.Keeps.pure _) (Run.Keeps.pure _))
    refine Run.Keeps.ite (Run.Keeps.bind (keeps_readBody _) fun b => ?_) heol
    exact Run.Keeps.ite (Run.Keeps.throw _) heol

theorem readChunks_agree : Run.Agree Limited (Checked.readChunks below negative) Answer.readChunks :=
  Run.Agree.bind (Run.Agree.refl _) Run.Keeps.get fun _ =>
    Run.Agree.iterate (readChunk_agree below negative) keeps_readChunk _ _

theorem keeps_readChunks : Run.Keeps Limited Answer.readChunks :=
  Run.Keeps.bind Run.Keeps.get fun _ => Run.Keeps.iterate keeps_readChunk _ _

/-- Reserving does not touch what is stored. -/
theorem keeps_reserve (size : Nat) :
    Run.Keeps Limited (Answer.modifyAnswer fun a => { a with body := a.body.reserve size }) :=
  keeps_modifyAnswer (P := BodyFits) fun _ h => h

theorem readSized_agree (zlib : Zlib) (gzipContent : Bool) :
    Run.Agree Limited (Checked.readSized below negative zlib gzipContent) (Answer.readSized zlib gzipContent) := by
  refine Run.Agree.bind (Run.Agree.refl _) Run.Keeps.get fun s => ?_
  cases s.answer.headers.getStr (ascii "Content-Length") with
  | none => exact Run.Agree.refl _
  | some length =>
    simp only
    cases hsize : str2num length 10 0 maxBodySize with
    | none => exact Run.Agree.refl _
    | some size =>
      obtain ⟨hpos, -⟩ := str2num_range hsize
      simp only [toSize_ok negative hpos, pure_bind]
      refine Run.Agree.ite (Run.Agree.bind (Run.Agree.refl _) (keeps_reserve _) fun _ => ?_) (Run.Agree.refl _)
      cases gzipContent with
      | true => exact Run.Agree.bind (readGzipBody_agree below zlib _) (keeps_readGzipBody zlib _) fun _ => Run.Agree.refl _
      | false => exact Run.Agree.bind (readBody_agree below _) (keeps_readBody _) fun _ => Run.Agree.refl _

theorem keeps_readSized (zlib : Zlib) (gzipContent : Bool) : Run.Keeps Limited (Answer.readSized zlib gzipContent) := by
  refine Run.Keeps.bind Run.Keeps.get fun s => ?_
  cases s.answer.headers.getStr (ascii "Content-Length") with
  | none => exact Run.Keeps.pure _
  | some length =>
    simp only
    cases str2num length 10 0 maxBodySize with
    | none => exact Run.Keeps.throw _
    | some size =>
      refine Run.Keeps.ite (Run.Keeps.bind (keeps_reserve _) fun _ => ?_) (Run.Keeps.pure _)
      cases gzipContent with
      | true =>
        exact Run.Keeps.bind (keeps_readGzipBody zlib _) fun _ => Run.Keeps.ite (Run.Keeps.throw _) (Run.Keeps.pure _)
      | false => exact Run.Keeps.bind (keeps_readBody _) fun _ => Run.Keeps.ite (Run.Keeps.throw _) (Run.Keeps.pure _)

/-! ### The whole answer -/

theorem keeps_head (lib : DateLib) : Run.Keeps Limited Answer.readControlData ∧ Run.Keeps Limited (Answer.readHeaders lib) :=
  ⟨keeps_readControlData (P := BodyFits) (fun _ _ h => h) (fun _ _ h => h),
    keeps_readHeaders (P := BodyFits) lib (fun _ _ h => h) (fun _ _ h => h)⟩

theorem keeps_codings : Run.Keeps Limited Answer.transferEncoding ∧ Run.Keeps Limited Answer.contentEncoding := by
  constructor
  · refine Run.Keeps.bind Run.Keeps.get fun s => ?_
    cases s.answer.headers.getStr (ascii "Transfer-Encoding") with
    | none => exact Run.Keeps.pure _
    | some value => exact Run.Keeps.bind (Run.Keeps.except _) fun _ => Run.Keeps.pure _
  · refine Run.Keeps.bind Run.Keeps.get fun s => ?_
    cases s.answer.headers.getStr (ascii "Content-Encoding") with
    | none => exact Run.Keeps.pure _
    | some value =>
      refine Run.Keeps.bind (Run.Keeps.except _) fun encoding => ?_
      exact Run.Keeps.ite (Run.Keeps.pure _) (Run.Keeps.ite (Run.Keeps.pure _) (Run.Keeps.throw _))

theorem recv_agree (lib : DateLib) (zlib : Zlib) :
    Run.Agree Limited (Checked.recv below negative lib zlib) (Answer.recv lib zlib) := by
  refine Run.Agree.bind (Run.Agree.refl _) (keeps_head lib).1 fun _ => Run.Agree.ite (Run.Agree.refl _) ?_
  refine Run.Agree.bind (Run.Agree.refl _) (keeps_head lib).2 fun _ => Run.Agree.ite (Run.Agree.refl _) ?_
  refine Run.Agree.bind (Run.Agree.refl _) keeps_codings.1 fun _ => ?_
  refine Run.Agree.bind (Run.Agree.refl _) keeps_codings.2 fun _ => ?_
  refine Run.Agree.ite (Run.Agree.ite (Run.Agree.refl _) (readChunks_agree below negative)) ?_
  exact Run.Agree.ite (readSized_agree below negative zlib _) (Run.Agree.refl _)

end

theorem keeps_recv (lib : DateLib) (zlib : Zlib) : Run.Keeps Limited (Answer.recv lib zlib) := by
  refine Run.Keeps.bind (keeps_head lib).1 fun _ => Run.Keeps.ite (Run.Keeps.throw _) ?_
  refine Run.Keeps.bind (keeps_head lib).2 fun _ => Run.Keeps.ite (Run.Keeps.throw _) ?_
  refine Run.Keeps.bind keeps_codings.1 fun _ => ?_
  refine Run.Keeps.bind keeps_codings.2 fun _ => ?_
  refine Run.Keeps.ite (Run.Keeps.ite (Run.Keeps.throw _) keeps_readChunks) ?_
  exact Run.Keeps.ite (keeps_readSized zlib _) (Run.Keeps.throw _)

/-- From a cleared answer the checked reader does what the reader does, whatever a failed check would do;
and the body is within its limit in the end. -/
theorem recv_limited (lib : DateLib) (zlib : Zlib) (answer : Answer) (incoming : List Seg) (env : Env)
    (below : AnswerM Unit) (negative : AnswerM Nat) :
    Checked.recv below negative lib zlib { answer := answer.clear, incoming, env } =
        Answer.recv lib zlib { answer := answer.clear, incoming, env } ∧
      (Run.endState (Answer.recv lib zlib { answer := answer.clear, incoming, env })).answer.body.bytes.length ≤ maxBodySize := by
  have hclear : Limited { answer := answer.clear, incoming, env } := Nat.zero_le maxBodySize
  constructor
  · exact recv_agree below negative lib zlib _ hclear
  · exact Run.Spec.endState (keeps_recv lib zlib) hclear

end FortiRdp.Http
