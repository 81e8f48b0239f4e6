/-
How the reading of a whole answer ends: whether the body is accepted depends on the headers and on the
bytes after them, and an accepted answer is returned with the headers of its head.
-/
import FortiRdp.Http.HeadScan

namespace FortiRdp.Http

open Util Net

/-! ## Compressed bodies -/

/-- The stream after all that an input yields; `none` when it is refused. -/
def inflateAll (zlib : Zlib) : Nat → zlib.Stream → Bytes → Option zlib.Stream
  | 0, _, _ => none
  | n + 1, strm, input =>
    let r := zlib.inflate strm input 1024
    if r.code = .needDict ∨ r.code = .dataError ∨ r.code = .memError then none
    else if r.output.length = 1024 then inflateAll zlib n r.stream r.input
    else some r.stream

/-- Whether the bytes are a compressed body of that size that is accepted. -/
def inflates (zlib : Zlib) : Nat → zlib.Stream → Nat → Bytes → Bool
  | 0, _, _, _ => false
  | n + 1, strm, size, bytes =>
    let len := min size 1024
    if bytes.length < len then false
    else
    match inflateAll zlib (zlib.left strm (bytes.take len) + 1) strm (bytes.take len) with
    | none => false
    | some strm =>
      if 0 < size - len then inflates zlib n strm (size - len) (bytes.drop len)
      else true

theorem appendBody_ok (data : Bytes) (maxSize : Nat) (s : Receiver) :
    ∃ s', Answer.appendBody data maxSize s = .ok () s' ∧ s'.incoming = s.incoming ∧
      s'.answer.headers = s.answer.headers := by
  refine ⟨_, rfl, rfl, ?_⟩
  simp only
  split
  · rfl
  · rfl

theorem inflate_loop {zlib : Zlib} (maxSize : Nat) : ∀ (n : Nat) (strm : zlib.Stream) (input : Bytes) (s : Receiver),
    zlib.left strm input < n →
      ∃ s', Run.iterate .exhausted (Answer.inflateStep zlib maxSize) n (strm, input) s =
          .ok (inflateAll zlib n strm input) s' ∧
        s'.incoming = s.incoming ∧ s'.answer.headers = s.answer.headers
  | 0, _, _, _, hn => absurd hn (Nat.not_lt_zero _)
  | n + 1, strm, input, s, hn => by
    have hleft := zlib.left_le strm input 1024
    unfold inflateAll
    simp only
    by_cases hbad : (zlib.inflate strm input 1024).code = .needDict ∨ (zlib.inflate strm input 1024).code = .dataError ∨
        (zlib.inflate strm input 1024).code = .memError
    · rw [if_pos hbad]
      refine ⟨s, Run.iterate_done ?_, rfl, rfl⟩
      unfold Answer.inflateStep
      simp only
      rw [if_pos hbad]
      rfl
    rw [if_neg hbad]
    obtain ⟨t, happend, hincoming, hheaders⟩ := appendBody_ok (zlib.inflate strm input 1024).output maxSize s
    have hstep : Answer.inflateStep zlib maxSize (strm, input) s =
        (if (zlib.inflate strm input 1024).output.length = 1024 then
          pure (.inl ((zlib.inflate strm input 1024).stream, (zlib.inflate strm input 1024).input))
        else pure (.inr (some (zlib.inflate strm input 1024).stream)) : AnswerM _) t := by
      unfold Answer.inflateStep
      simp only
      rw [if_neg hbad, Run.bind_ok happend]
    by_cases hfull : (zlib.inflate strm input 1024).output.length = 1024
    · rw [if_pos hfull] at hstep ⊢
      obtain ⟨s', hrun, hin, hhead⟩ := inflate_loop maxSize n (zlib.inflate strm input 1024).stream
        (zlib.inflate strm input 1024).input t (by omega)
      exact ⟨s', (Run.iterate_more hstep).trans hrun, hin.trans hincoming, hhead.trans hheaders⟩
    · rw [if_neg hfull] at hstep ⊢
      exact ⟨t, Run.iterate_done hstep, hincoming, hheaders⟩

theorem readBuffer_exists {len : Nat} {s : Receiver} (h : len ≤ (available s.incoming).length) :
    ∃ s', Answer.readBuffer len s = .ok (some ((available s.incoming).take len)) s' ∧ s'.answer = s.answer ∧
      available s'.incoming = (available s.incoming).drop len := by
  have hlen : ((available s.incoming).take len).length = len := by
    rw [List.length_take]
    omega
  have hread : Consumes (· = s.answer) (Answer.readBuffer ((available s.incoming).take len).length)
      ((available s.incoming).take len) _ := Consumes.readBuffer
  rw [hlen] at hread
  obtain ⟨v, s', hrun, ⟨rfl, hans⟩, hav⟩ := hread.exists_ok rfl (List.take_append_drop len _).symm
  exact ⟨s', hrun, hans, hav⟩

/-- A read beyond the end of the stream returns nothing or is refused. -/
theorem readBuffer_short {len : Nat} {s : Receiver} (h : (available s.incoming).length < len) :
    (∃ s', Answer.readBuffer len s = .ok none s') ∨ Refused (Answer.readBuffer len s) := by
  cases hrun : Answer.readBuffer len s with
  | error e s' => exact .inr ⟨e, s', rfl, raises_readBuffer len s e s' hrun⟩
  | ok v s' =>
    have hnone : v = none := (Yields.readBuffer (I := fun _ => True) h).of_ok trivial rfl hrun
    rw [hnone]
    exact .inl ⟨s', rfl⟩

/-- How the reading of a body ends: available, with the headers as they were; not available; or refused. -/
def BodyEnd (accepted : Bool) (headers : StringMap) (r : EStateM.Result Exn Receiver Bool) : Prop :=
  match accepted with
  | true => ∃ s', r = .ok true s' ∧ s'.answer.headers = headers
  | false => (∃ s', r = .ok false s') ∨ Refused r

theorem readGzipBody_rest {zlib : Zlib} (maxSize : Nat) : ∀ (n : Nat) (strm : zlib.Stream) (size : Nat) (s : Receiver),
    size < n → BodyEnd (inflates zlib n strm size (available s.incoming)) s.answer.headers
      (Run.iterate .exhausted (Answer.readGzipBodyStep zlib maxSize) n (strm, size) s)
  | 0, _, _, _, hn => absurd hn (Nat.not_lt_zero _)
  | n + 1, strm, size, s, hn => by
    unfold inflates
    simp only
    by_cases hshort : (available s.incoming).length < min size 1024
    · rw [if_pos hshort]
      rcases readBuffer_short hshort with ⟨t, hread⟩ | ⟨e, t, hread, he⟩
      · exact .inl ⟨t, Run.iterate_done (Run.bind_ok hread)⟩
      · exact .inr ⟨e, t, Run.iterate_error (Run.bind_error hread), he⟩
    rw [if_neg hshort]
    obtain ⟨t, hread, hans, hav⟩ := readBuffer_exists (Nat.not_lt.1 hshort)
    obtain ⟨u, hloop, hincoming, hheaders⟩ := inflate_loop maxSize
      (zlib.left strm ((available s.incoming).take (min size 1024)) + 1) strm _ t (Nat.lt_succ_self _)
    have hstep : Answer.readGzipBodyStep zlib maxSize (strm, size) s = _ := Run.bind_ok hread
    simp only at hstep
    rw [Run.bind_ok hloop] at hstep
    cases hall : inflateAll zlib (zlib.left strm ((available s.incoming).take (min size 1024)) + 1) strm
        ((available s.incoming).take (min size 1024)) with
    | none =>
      rw [hall] at hstep
      exact .inl ⟨u, Run.iterate_done hstep⟩
    | some strm' =>
      rw [hall] at hstep
      simp only at hstep ⊢
      by_cases hmore : 0 < size - min size 1024
      · rw [if_pos hmore] at hstep ⊢
        have ih := readGzipBody_rest maxSize n strm' (size - min size 1024) u (by omega)
        rw [hincoming, hav, hheaders, hans] at ih
        rw [Run.iterate_more hstep]
        exact ih
      · rw [if_neg hmore] at hstep ⊢
        exact ⟨u, Run.iterate_done hstep, by rw [hheaders, hans]⟩

theorem readGzipBody_outcome (zlib : Zlib) (size maxSize : Nat) (s : Receiver) :
    BodyEnd (match zlib.inflateInit2 with
      | none => false
      | some strm => inflates zlib (size + 1) strm size (available s.incoming)) s.answer.headers
      (Answer.readGzipBody zlib size maxSize s) := by
  unfold Answer.readGzipBody
  cases zlib.inflateInit2 with
  | none => exact .inl ⟨s, rfl⟩
  | some strm => exact readGzipBody_rest maxSize (size + 1) strm size s (Nat.lt_succ_self _)

/-! ## Plain bodies -/

theorem raises_appendBody (data : Bytes) (maxSize : Nat) : Run.Raises IsRefusal (Answer.appendBody data maxSize) :=
  raises_modifyAnswer _

theorem raises_readBody (size maxSize : Nat) : Run.Raises IsRefusal (Answer.readBody size maxSize) := by
  intro s e s' h
  refine Run.Raises.iterate (m := fun size _ => size) ?_ ?_ (size + 1) size s e s' (Nat.lt_succ_self _) h
  · intro b s b' s' h
    obtain ⟨v, t, -, h⟩ := Run.bind_eq_ok h
    cases v with
    | none => cases h
    | some data =>
      obtain ⟨_, u, -, h⟩ := Run.bind_eq_ok h
      split at h
      · cases h
        omega
      · cases h
  · intro b
    refine Run.Raises.bind (raises_readBuffer _) fun v => ?_
    cases v with
    | none => exact Run.Raises.pure _
    | some data =>
      exact Run.Raises.bind (raises_appendBody data maxSize) fun _ =>
        Run.Raises.ite (Run.Raises.pure _) (Run.Raises.pure _)

theorem bodyIs_self (p : Answer) : BodyIs p p.body.bytes p := ⟨rfl, rfl⟩

theorem BodyIs.headers {p ans : Answer} {d : Bytes} (h : BodyIs p d ans) : ans.headers = p.headers := by
  obtain ⟨-, hrest⟩ := h
  rw [← hrest]

theorem readBody_outcome {size maxSize : Nat} (hmax : maxSize < 2 ^ 64) (hsize : 0 < size) (s : Receiver)
    (hbody : s.answer.body.bytes.length ≤ maxSize) :
    BodyEnd (decide (size ≤ (available s.incoming).length)) s.answer.headers (Answer.readBody size maxSize s) := by
  by_cases hlen : size ≤ (available s.incoming).length
  · rw [decide_eq_true hlen]
    have htake : ((available s.incoming).take size).length = size := by
      rw [List.length_take]
      omega
    have hread : Consumes (BodyIs s.answer s.answer.body.bytes)
        (Answer.readBody ((available s.incoming).take size).length maxSize) _ _ :=
      readBody_take hmax (List.ne_nil_of_length_pos (by omega)) hbody
    rw [htake] at hread
    obtain ⟨v, s', hrun, ⟨rfl, hans⟩, -⟩ := hread.exists_ok (bodyIs_self s.answer) (List.take_append_drop size _).symm
    exact ⟨s', hrun, hans.headers⟩
  · rw [decide_eq_false hlen]
    cases hrun : Answer.readBody size maxSize s with
    | error e s' => exact .inr ⟨e, s', rfl, raises_readBody size maxSize s e s' hrun⟩
    | ok v s' =>
      have hfalse : v = false :=
        (readBody_none (p := s.answer) hmax (Nat.not_le.1 hlen) hbody).of_ok (bodyIs_self s.answer) rfl hrun
      rw [hfalse]
      exact .inl ⟨s', rfl⟩

/-! ## Chunks -/

theorem raises_readChunk (buffer : ByteBuffer) : Run.Raises IsRefusal (Answer.readChunk buffer) := by
  refine Run.Raises.bind (raises_readLine buffer) fun v => Run.Raises.ite (Run.Raises.throw trivial) ?_
  cases str2num v.2.bytes 16 0 maxChunkSize with
  | none => exact Run.Raises.throw trivial
  | some size =>
    have heol : ∀ w : AnswerStatus × ByteBuffer, Run.Raises IsRefusal
        (if w.1 ≠ .errNone ∨ w.2.bytes ≠ [] then throw (statusError .errBody)
          else if 0 < size then pure (.inl w.2) else pure (.inr ()) : AnswerM (ByteBuffer ⊕ Unit)) := fun w =>
      Run.Raises.ite (Run.Raises.throw trivial) (Run.Raises.ite (Run.Raises.pure _) (Run.Raises.pure _))
    exact Run.Raises.ite (Run.Raises.bind (raises_readBody _ _) fun b =>
      Run.Raises.ite (Run.Raises.throw trivial) (Run.Raises.bind (raises_readLine v.2) heol))
      (Run.Raises.bind (raises_readLine v.2) heol)

theorem readChunks_error {p : Answer} : ∀ (n : Nat) (buffer : ByteBuffer) (s : Receiver) (d : Bytes) (e : Exn) (s' : Receiver),
    (available s.incoming).length < n → BodyIs p d s.answer → d.length ≤ maxBodySize →
      Run.iterate .exhausted Answer.readChunk n buffer s = .error e s' → IsRefusal e
  | 0, _, _, _, _, _, hn, _, _, _ => absurd hn (Nat.not_lt_zero _)
  | n + 1, buffer, s, d, e, s', hn, hbody, hd, h => by
    rcases Run.bind_eq_error h with h | ⟨r, t, hr, h⟩
    · exact raises_readChunk buffer s e s' h
    cases r with
    | inr _ => cases h
    | inl buffer' =>
      -- the round has read a chunk
      cases hchunk : chunkBytes buffer (available s.incoming) with
      | none => exact ((readChunk_none (p := p) hchunk hd).of_ok hbody rfl hr).elim
      | some c =>
        obtain ⟨payload, eol, rest⟩ := c
        obtain ⟨a, ha, hpos⟩ := chunkBytes_append hchunk
        have hlen : (available s.incoming).length = a.length + rest.length := by rw [ha, List.length_append]
        obtain ⟨⟨-, hbody'⟩, hav⟩ := (readChunk_some (p := p) (ha ▸ hchunk) hd).of_ok hbody ha hr
        exact readChunks_error n buffer' t _ e s' (by rw [hav]; omega) hbody' (by rw [List.length_take]; omega) h

/-- How the reading of an answer ends: returned with the headers, or refused. -/
def AnswerEnd (accepted : Bool) (headers : StringMap) (r : EStateM.Result Exn Receiver Unit) : Prop :=
  match accepted with
  | true => ∃ s', r = .ok () s' ∧ s'.answer.headers = headers
  | false => Refused r

theorem readChunks_outcome (s : Receiver) (hbody : s.answer.body.bytes = []) :
    AnswerEnd (chunkPayloads (available s.incoming)).isSome s.answer.headers (Answer.readChunks s) := by
  cases hp : chunkPayloads (available s.incoming) with
  | some r =>
    obtain ⟨payloads, rest⟩ := r
    obtain ⟨a, ha⟩ := decodeChunks_append hp
    have hread := readChunks_some (p := s.answer) hbody (ha ▸ hp)
    obtain ⟨v, s', hrun, hans, -⟩ := hread.exists_ok rfl ha
    exact ⟨s', hrun, hans.headers⟩
  | none =>
    show Refused (Answer.readChunks s)
    cases hrun : Answer.readChunks s with
    | ok v s' => exact ((readChunks_none (p := s.answer) hbody hp).of_ok rfl rfl hrun).elim
    | error e s' =>
      refine ⟨e, s', rfl, ?_⟩
      exact readChunks_error (p := s.answer) _ _ s [] e s' (length_available_lt _) ⟨hbody, rfl⟩ (Nat.zero_le _) hrun

/-! ## The answer -/

/-- Whether the bytes after a head are a body of the announced length that is accepted. -/
def sizedAccepted (zlib : Zlib) (gzipContent : Bool) (headers : StringMap) (bytes : Bytes) : Bool :=
  match headers.getStr (ascii "Content-Length") with
  | none => true
  | some length =>
    match str2num length 10 0 maxBodySize with
    | none => false
    | some size =>
      if 0 < size then
        if gzipContent then
          match zlib.inflateInit2 with
          | none => false
          | some strm => inflates zlib (size.toNat + 1) strm size.toNat bytes
        else decide (size.toNat ≤ bytes.length)
      else true

/-- A body that is not available is an HTTP error. -/
theorem BodyEnd.answer {accepted : Bool} {headers : StringMap} {x : AnswerM Bool} {s : Receiver}
    (h : BodyEnd accepted headers (x s)) :
    AnswerEnd accepted headers ((x >>= fun b => if !b then throw (statusError .errBody) else pure ()) s) := by
  cases accepted with
  | true =>
    obtain ⟨s', hrun, hheaders⟩ := h
    exact ⟨s', Run.bind_ok hrun, hheaders⟩
  | false =>
    rcases h with ⟨s', hrun⟩ | ⟨e, s', hrun, he⟩
    · exact ⟨_, s', Run.bind_ok hrun, trivial⟩
    · exact ⟨e, s', Run.bind_error hrun, he⟩

theorem readSized_outcome (zlib : Zlib) (gzipContent : Bool) (s : Receiver) (hbody : s.answer.body.bytes = []) :
    AnswerEnd (sizedAccepted zlib gzipContent s.answer.headers (available s.incoming)) s.answer.headers
      (Answer.readSized zlib gzipContent s) := by
  unfold sizedAccepted Answer.readSized
  rw [Run.get_bind]
  cases hlength : s.answer.headers.getStr (ascii "Content-Length") with
  | none => exact ⟨s, rfl, rfl⟩
  | some length =>
    simp only
    cases hsize : str2num length 10 0 maxBodySize with
    | none => exact ⟨_, s, rfl, trivial⟩
    | some size =>
      simp only
      by_cases hpos : 0 < size
      swap
      · rw [if_neg hpos, if_neg hpos]
        exact ⟨s, rfl, rfl⟩
      rw [if_pos hpos, if_pos hpos]
      -- the capacity of the body is all that changes
      obtain ⟨t, ht, htin, htbody, hthead⟩ : ∃ t, Answer.modifyAnswer
          (fun a => { a with body := a.body.reserve size.toNat }) s = .ok () t ∧ t.incoming = s.incoming ∧
            t.answer.body.bytes = [] ∧ t.answer.headers = s.answer.headers := ⟨_, rfl, rfl, hbody, rfl⟩
      rw [Run.bind_ok ht, ← htin, ← hthead]
      cases gzipContent with
      | true => exact (readGzipBody_outcome zlib size.toNat maxBodySize t).answer
      | false =>
        refine (readBody_outcome maxBodySize_lt (by omega) t ?_).answer
        rw [htbody]
        exact Nat.zero_le _

/-! ## The whole answer -/

/-- The coding that a header names, or none. -/
def codingOf (headers : StringMap) (name : Bytes) : Bytes :=
  match headers.getStr name with
  | none => []
  | some value => lower (trimmed value)

/-- Whether the bytes after a head are a body that is accepted. -/
def bodyAccepted (zlib : Zlib) (headers : StringMap) (bytes : Bytes) : Bool :=
  let transfer := codingOf headers (ascii "Transfer-Encoding")
  let content := codingOf headers (ascii "Content-Encoding")
  if content = [] ∨ content = ascii "gzip" then
    if transfer = ascii "chunked" then decide (content = []) && (chunkPayloads bytes).isSome
    else if transfer = [] then sizedAccepted zlib (decide (content ≠ [])) headers bytes
    else false
  else false

theorem transferEncoding_run (s : Receiver) :
    Answer.transferEncoding s = .ok (codingOf s.answer.headers (ascii "Transfer-Encoding")) s := by
  unfold Answer.transferEncoding codingOf
  rw [Run.get_bind]
  cases s.answer.headers.getStr (ascii "Transfer-Encoding") with
  | none => rfl
  | some value =>
    simp only
    rw [trim_eq]
    rfl

theorem contentEncoding_run (s : Receiver) : Answer.contentEncoding s =
    let content := codingOf s.answer.headers (ascii "Content-Encoding")
    if content = [] then .ok false s
    else if content = ascii "gzip" then .ok true s
    else .error (statusError .errContentEncoding) s := by
  unfold Answer.contentEncoding codingOf
  rw [Run.get_bind]
  cases s.answer.headers.getStr (ascii "Content-Encoding") with
  | none => rfl
  | some value =>
    simp only
    rw [trim_eq]
    show (if lower (trimmed value) = [] then pure false
      else if lower (trimmed value) = ascii "gzip" then pure true
      else throw (statusError .errContentEncoding) : AnswerM Bool) s = _
    split
    · rfl
    · split
      · rfl
      · rfl

/-- The part of `recv` behind the head. -/
def recvBody (zlib : Zlib) : AnswerM Unit := do
  let transfer ← Answer.transferEncoding
  let gzipContent ← Answer.contentEncoding
  if transfer = ascii "chunked" then
    if gzipContent then throw (statusError .errContentEncoding)
    Answer.readChunks
  else if transfer = [] then Answer.readSized zlib gzipContent
  else throw (statusError .errTransferEncoding)

theorem recvBody_outcome (zlib : Zlib) (s : Receiver) (hbody : s.answer.body.bytes = []) :
    AnswerEnd (bodyAccepted zlib s.answer.headers (available s.incoming)) s.answer.headers (recvBody zlib s) := by
  have hcontent := contentEncoding_run s
  unfold bodyAccepted recvBody
  rw [Run.bind_ok (transferEncoding_run s)]
  simp only at hcontent ⊢
  generalize codingOf s.answer.headers (ascii "Content-Encoding") = content at hcontent ⊢
  generalize codingOf s.answer.headers (ascii "Transfer-Encoding") = transfer
  -- the body with its two codings known
  have hrest : ∀ gzipContent : Bool, Answer.contentEncoding s = .ok gzipContent s → decide (content ≠ []) = gzipContent →
      AnswerEnd (if transfer = ascii "chunked" then decide (content = []) && (chunkPayloads (available s.incoming)).isSome
        else if transfer = [] then sizedAccepted zlib (decide (content ≠ [])) s.answer.headers (available s.incoming)
        else false) s.answer.headers
        ((Answer.contentEncoding >>= fun gzipContent =>
          if transfer = ascii "chunked" then do
            if gzipContent then throw (statusError .errContentEncoding)
            Answer.readChunks
          else if transfer = [] then Answer.readSized zlib gzipContent
          else throw (statusError .errTransferEncoding)) s) := by
    intro gzipContent hrun hgzip
    rw [Run.bind_ok hrun, hgzip]
    by_cases hchunked : transfer = ascii "chunked"
    · rw [if_pos hchunked, if_pos hchunked]
      cases gzipContent with
      | true =>
        rw [decide_eq_false (of_decide_eq_true hgzip)]
        exact ⟨_, s, rfl, trivial⟩
      | false =>
        rw [decide_eq_true (not_not.1 (of_decide_eq_false hgzip)), Bool.true_and]
        exact readChunks_outcome s hbody
    rw [if_neg hchunked, if_neg hchunked]
    by_cases hnone : transfer = []
    · rw [if_pos hnone, if_pos hnone]
      exact readSized_outcome zlib gzipContent s hbody
    · rw [if_neg hnone, if_neg hnone]
      exact ⟨_, s, rfl, trivial⟩
  by_cases hempty : content = []
  · rw [if_pos (.inl hempty)]
    rw [if_pos hempty] at hcontent
    exact hrest false hcontent (decide_eq_false (not_not.2 hempty))
  rw [if_neg hempty] at hcontent
  by_cases hgzip : content = ascii "gzip"
  · rw [if_pos (.inr hgzip)]
    rw [if_pos hgzip] at hcontent
    exact hrest true hcontent (decide_eq_true hempty)
  · rw [if_neg hgzip] at hcontent
    rw [if_neg (not_or.2 ⟨hempty, hgzip⟩)]
    exact ⟨_, s, Run.bind_error hcontent, trivial⟩

/-- The whole reading: a fault in the head is thrown, the rest is refused or returned. -/
theorem recv_outcome (lib : DateLib) (zlib : Zlib) {s : Receiver} {a : Answer} (hclear : s.answer = a.clear) :
    match scanHead (available s.incoming) with
    | .stopped => Refused (Answer.recv lib zlib s)
    | .fault => ∃ s', Answer.recv lib zlib s = .error .outOfRange s'
    | .done headers rest => AnswerEnd (bodyAccepted zlib headers rest) headers (Answer.recv lib zlib s) := by
  have hcontrol := readControlData_outcome s
  have hrecv : ∀ s', Answer.readControlData s = .ok .errNone s' →
      Answer.recv lib zlib s = (Answer.readHeaders lib >>= fun status => do
        if status ≠ .errNone then throw (statusError status)
        recvBody zlib) s' := fun s' h => Run.bind_ok h
  unfold scanHead
  cases hstatus : statusBytes (available s.incoming) with
  | none =>
    rw [hstatus] at hcontrol
    rcases hcontrol with ⟨status, s', hrun, hne⟩ | ⟨e, s', hrun, he⟩
    · refine ⟨statusError status, s', ?_, trivial⟩
      refine (Run.bind_ok hrun).trans ?_
      simp only
      rw [if_pos hne]
      rfl
    · exact ⟨e, s', Run.bind_error hrun, he⟩
  | some rest =>
    rw [hstatus] at hcontrol
    obtain ⟨t, hrun, hav⟩ := hcontrol
    have hkeep : t.answer.headers = .empty ∧ t.answer.body.bytes = [] := by
      have hs : s.answer.headers = .empty ∧ s.answer.body.bytes = [] := by
        rw [hclear]
        exact ⟨rfl, rfl⟩
      have h := keeps_readControlData (P := fun a => a.headers = .empty ∧ a.body.bytes = []) (fun _ _ h => h)
        (fun _ _ h => h) s hs
      rw [hrun] at h
      exact h
    rw [hrecv t hrun]
    have hheaders := readHeaders_outcome lib t
    rw [hav, hkeep.1] at hheaders
    simp only
    cases hscan : scanHeaders (rest.length + 1) (.ofCapacity maxHeaderSize) .empty rest with
    | stopped =>
      rw [hscan] at hheaders
      rcases hheaders with ⟨status, s', hread, hne⟩ | ⟨e, s', hread, he⟩
      · refine ⟨statusError status, s', ?_, trivial⟩
        refine (Run.bind_ok hread).trans ?_
        rw [if_pos hne]
        rfl
      · exact ⟨e, s', Run.bind_error hread, he⟩
    | fault =>
      rw [hscan] at hheaders
      obtain ⟨s', hread⟩ := hheaders
      exact ⟨s', Run.bind_error hread⟩
    | done headers rest' =>
      rw [hscan] at hheaders
      obtain ⟨u, hread, hheaders, hav'⟩ := hheaders
      have hbody : u.answer.body.bytes = [] := by
        have h := keeps_readHeaders (P := fun a => a.body.bytes = []) lib (fun _ _ h => h) (fun _ _ h => h) t hkeep.2
        rw [hread] at h
        exact h
      have hend := recvBody_outcome zlib u hbody
      rw [hheaders, hav'] at hend
      rw [Run.bind_ok hread]
      exact hend

end FortiRdp.Http
