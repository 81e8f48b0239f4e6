/-
Whether an answer in chunks is stored whole: the reader consumes every chunk, but what goes beyond the
size limit of a body is dropped without an error.
-/
import FortiRdp.Http.AnswerRoundTrip

namespace FortiRdp.Http

open Util Net

/-- The head of the answer is accepted and announces chunks; `t` is the receiver after it. -/
structure ChunkedHead (lib : DateLib) (s t : Receiver) : Prop where
  control : ∃ u, Answer.readControlData s = .ok .errNone u ∧ Answer.readHeaders lib u = .ok .errNone t
  transfer : Answer.transferEncoding t = .ok (ascii "chunked") t
  content : Answer.contentEncoding t = .ok false t

/-- The answer is not cut: what is stored are the payloads of the stream, and payloads beyond the size
limit are an HTTP error. -/
structure NotCut (lib : DateLib) (zlib : Zlib) (s t : Receiver) : Prop where
  whole : ∀ s', Answer.recv lib zlib s = .ok () s' →
    ∃ payloads rest, chunkPayloads (available t.incoming) = some (payloads, rest) ∧
      s'.answer.body.bytes = payloads.flatten
  refused : ∀ payloads rest, chunkPayloads (available t.incoming) = some (payloads, rest) →
    maxBodySize < payloads.flatten.length → ∃ message s', Answer.recv lib zlib s = .error (.httpError message) s'

section

variable {lib : DateLib} (zlib : Zlib) {s t : Receiver} {a : Answer}

theorem ChunkedHead.body (h : ChunkedHead lib s t) (hclear : s.answer = a.clear) : t.answer.body.bytes = [] := by
  obtain ⟨u, hcontrol, hheaders⟩ := h.control
  have hs : s.answer.body.bytes = [] := by rw [hclear]; rfl
  have hu := keeps_readControlData (P := fun a => a.body.bytes = []) (fun _ _ h => h) (fun _ _ h => h) s hs
  rw [hcontrol] at hu
  have ht := keeps_readHeaders lib (P := fun a => a.body.bytes = []) (fun _ _ h => h) (fun _ _ h => h) u hu
  rw [hheaders] at ht
  exact ht

/-- After such a head the chunks are read. -/
theorem ChunkedHead.recv_eq (h : ChunkedHead lib s t) : Answer.recv lib zlib s = Answer.readChunks t := by
  obtain ⟨u, hcontrol, hheaders⟩ := h.control
  unfold Answer.recv
  rw [Run.bind_ok hcontrol]
  simp only [ne_eq, not_true_eq_false, if_false]
  rw [Run.bind_ok hheaders]
  simp only [not_true_eq_false, if_false]
  rw [Run.bind_ok h.transfer, Run.bind_ok h.content]
  simp

/-- A stream of chunks is read to its end, and its payloads are stored up to the limit. -/
theorem ChunkedHead.recv_some (h : ChunkedHead lib s t) (hclear : s.answer = a.clear) {payloads : List Bytes}
    {rest : Bytes} (hp : chunkPayloads (available t.incoming) = some (payloads, rest)) :
    ∃ s', Answer.recv lib zlib s = .ok () s' ∧ s'.answer.body.bytes = payloads.flatten.take maxBodySize := by
  obtain ⟨tail, harr, -⟩ := arrives_available t.incoming
  obtain ⟨consumed, hbytes⟩ := decodeChunks_append hp
  rw [hbytes] at hp harr
  obtain ⟨_, s', hrun, hbody, -⟩ := readChunks_some (p := t.answer) (h.body hclear) hp tail t rest rfl harr
  exact ⟨s', (h.recv_eq zlib).trans hrun, hbody.1⟩

/-- On any other stream the reader throws. -/
theorem ChunkedHead.recv_none (h : ChunkedHead lib s t) (hclear : s.answer = a.clear)
    (hp : chunkPayloads (available t.incoming) = none) (s' : Receiver) : Answer.recv lib zlib s ≠ .ok () s' := by
  intro hrun
  obtain ⟨tail, harr, hdead⟩ := arrives_available t.incoming
  rw [(h.recv_eq zlib)] at hrun
  exact readChunks_none (p := t.answer) (h.body hclear) hp tail t rfl hdead harr () s' hrun

end

/-- An answer in chunks is not cut if and only if its payloads are within the size limit. -/
theorem recv_chunked_whole (lib : DateLib) (zlib : Zlib) (s t : Receiver) (a : Answer) (hclear : s.answer = a.clear)
    (h : ChunkedHead lib s t) :
    NotCut lib zlib s t ↔ ∀ payloads rest, chunkPayloads (available t.incoming) = some (payloads, rest) →
      payloads.flatten.length ≤ maxBodySize := by
  constructor
  · intro hnot payloads rest hp
    by_contra hlong
    obtain ⟨s', hrun, -⟩ := h.recv_some zlib hclear hp
    obtain ⟨message, s'', herr⟩ := hnot.refused payloads rest hp (Nat.lt_of_not_le hlong)
    rw [hrun] at herr
    cases herr
  · intro hfit
    constructor
    · intro s' hrun
      cases hp : chunkPayloads (available t.incoming) with
      | none => exact absurd hrun (h.recv_none zlib hclear hp s')
      | some r =>
        obtain ⟨s'', hrun', hbody⟩ := h.recv_some zlib hclear hp
        rw [hrun'] at hrun
        cases hrun
        rw [List.take_of_length_le (hfit r.1 r.2 hp)] at hbody
        exact ⟨r.1, r.2, rfl, hbody⟩
    · intro payloads rest hp hlong
      exact absurd (hfit payloads rest hp) (Nat.not_le.2 hlong)

/-! ## A long answer -/

/-- A chunk of the largest size, of zeros. -/
def Chunk.zeros : Chunk where
  text := ascii "1FB000"
  data := List.replicate maxChunkSize 0
  size := by
    rw [List.length_replicate]
    decide
  ne := by
    rw [Ne, List.replicate_eq_nil_iff]
    decide
  le := by rw [List.length_replicate]
  fits := by decide

theorem Chunk.length_zeros : Chunk.zeros.data.length = maxChunkSize := List.length_replicate

/-- A chunk of one byte. -/
def Chunk.one : Chunk where
  text := ascii "1"
  data := [1]
  size := by decide
  ne := by decide
  le := by decide
  fits := by decide

/-- The zeros fill the body, and one more byte follows. -/
def longChunks : List Chunk := List.replicate 16 .zeros ++ [.one]

def Response.long : Response where
  code := 200
  reason := ascii "OK"
  before := []
  after := []
  body := (longChunks.map Chunk.data).flatten
  framing := .chunked {
      name := ascii "Transfer-Encoding"
      value := ascii "chunked"
      valid := by decide
      noCookie := by decide
      cr := by decide
      nul := by decide
      trimmed := ⟨by decide, by decide⟩
      fits := by decide }
    (by decide : iequal _ _ = true) (by decide) longChunks rfl (ascii "0")
    (by decide) (by decide)
  code_ge := Response.hi.code_ge
  code_lt := Response.hi.code_lt
  reason_cr := Response.hi.reason_cr
  reason_trimmed := Response.hi.reason_trimmed
  reason_fits := Response.hi.reason_fits
  plain := Response.hi.plain

theorem length_longChunks : ((longChunks.map Chunk.data).flatten).length = maxBodySize + 1 := by
  have hzeros : ∀ n, ((List.replicate n Chunk.zeros).map Chunk.data).flatten.length = n * maxChunkSize := by
    intro n
    rw [List.map_replicate, List.length_flatten, List.map_replicate, List.sum_replicate_nat, Chunk.length_zeros]
  unfold longChunks
  have hone : (([Chunk.one].map Chunk.data).flatten).length = 1 := rfl
  rw [List.map_append, List.flatten_append, List.length_append, hzeros, hone]
  unfold maxChunkSize maxBodySize
  omega

/-- The receiver in front of the long answer. -/
def Receiver.long : Receiver :=
  { answer := Answer.new.clear, incoming := keepData Response.long.render [], env := .still }

/-- The head of a response in chunks is accepted, and its chunks are what comes next. -/
theorem Response.chunkedHead (r : Response) (lib : DateLib) {s : Receiver} {a : Answer} {rest : Bytes} {tail : List Seg}
    (hclear : s.answer = a.clear) (harr : Arrives tail s.incoming (r.render ++ rest))
    (hchunked : r.framing.header.Named (ascii "Transfer-Encoding"))
    (hvalue : lower r.framing.header.value = ascii "chunked") :
    ∃ t, ChunkedHead lib s t ∧ Arrives tail t.incoming (r.framing.wire ++ rest) := by
  have hstatus := readControlData_consumes (p := a.clear) r.code_ge r.code_lt r.reason_cr r.reason_trimmed r.reason_fits
  unfold render at harr
  rw [List.append_assoc] at harr
  obtain ⟨_, u, hcontrol, ⟨rfl, hu⟩, harr⟩ := hstatus tail s _ hclear harr
  rw [List.append_assoc] at harr
  obtain ⟨_, t, hheaders, ⟨rfl, ht⟩, harr⟩ := readHeaders_consumes lib r.headers tail u _ hu harr
  have htransfer : t.answer.headers.getStr (ascii "Transfer-Encoding") = some r.framing.header.value := by
    rw [ht]
    refine (getStr_stored r.headers _).trans (lastValue_named (by decide) hchunked fun h hh => ?_)
    exact (r.plain h (List.mem_append_right _ hh)).noTransfer
  have hcontent : t.answer.headers.getStr (ascii "Content-Encoding") = none := by
    rw [ht]
    exact (getStr_stored r.headers _).trans r.contentEncoding_none
  refine ⟨t, ⟨⟨u, hcontrol, hheaders⟩, ?_, ?_⟩, harr⟩
  · unfold Answer.transferEncoding
    rw [Run.get_bind, htransfer]
    simp only [trim_trimmed r.framing.header.trimmed]
    rw [← hvalue]
    rfl
  · unfold Answer.contentEncoding
    rw [Run.get_bind, hcontent]
    rfl

theorem Receiver.long_head : ∃ t, ChunkedHead noDates long t ∧
    chunkPayloads (available t.incoming) = some (longChunks.map Chunk.data, []) := by
  have harr := arrives_keepData (.done : Arrives [] [] []) Response.long.render
  obtain ⟨t, hhead, harr⟩ := Response.long.chunkedHead noDates (a := Answer.new) (s := Receiver.long) rfl harr
    (by decide : iequal _ _ = true) (by decide)
  refine ⟨t, hhead, ?_⟩
  rw [available_arrives .nil harr]
  exact chunkPayloads_render [] (by decide : Numeral 16 0 (ascii "0")) (by decide)

theorem recv_chunked_whole_long : ∃ t, ChunkedHead noDates .long t ∧
    (NotCut noDates noZlib .long t ↔ ∀ payloads rest, chunkPayloads (available t.incoming) = some (payloads, rest) →
      payloads.flatten.length ≤ maxBodySize) := by
  obtain ⟨t, hhead, -⟩ := Receiver.long_head
  exact ⟨t, hhead, recv_chunked_whole noDates noZlib .long t Answer.new rfl hhead⟩

/-- The last byte of the long answer is lost. -/
theorem recv_chunked_cut : ∃ t, ChunkedHead noDates .long t ∧ ¬ NotCut noDates noZlib .long t := by
  obtain ⟨t, hhead, hp⟩ := Receiver.long_head
  refine ⟨t, hhead, fun hnot => ?_⟩
  obtain ⟨s', hrun, -⟩ := hhead.recv_some noZlib (a := Answer.new) rfl hp
  have hlong : maxBodySize < ((longChunks.map Chunk.data).flatten).length := by
    rw [length_longChunks]
    exact Nat.lt_succ_self _
  obtain ⟨message, s'', herr⟩ := hnot.refused _ _ hp hlong
  rw [hrun] at herr
  cases herr

end FortiRdp.Http
