/-
Answers are read back: a response in either framing, in whatever pieces it arrives, is stored as it was
rendered, and the reader stops at the byte after it, where the next answer of the connection begins.
-/
import FortiRdp.Http.ChunkedBody

namespace FortiRdp.Http

open Util Net

/-! ## Chunks -/

structure Chunk where
  text : Bytes
  data : Bytes
  size : Numeral 16 data.length text
  ne : data ≠ []
  le : data.length ≤ maxChunkSize
  fits : text.length ≤ maxLineSize

def Chunk.render (c : Chunk) : Bytes := c.text ++ [13, 10] ++ (c.data ++ [13, 10])

theorem cr_numeral {radix n : Nat} {text : Bytes} (h : Numeral radix n text) : 13 ∉ text := by
  intro hcr
  obtain ⟨d, hd, -⟩ := h.digits 13 hcr
  exact isalnum_ne (isalnum_of_digit hd) (by decide) rfl

theorem chunkBytes_render {buffer : ByteBuffer} {text data : Bytes} (rest : Bytes) (hcap : maxLineSize ≤ buffer.capacity)
    (hsize : Numeral 16 data.length text) (hle : data.length ≤ maxChunkSize) (hfits : text.length ≤ maxLineSize) :
    chunkBytes buffer (text ++ 13 :: 10 :: (data ++ 13 :: 10 :: rest)) =
      some (data, filled buffer [] (Nat.zero_le _), rest) := by
  have hline : text.length ≤ buffer.capacity := hfits.trans hcap
  have hnum : str2num text 16 0 maxChunkSize = some (data.length : Int) :=
    str2num_numeral hsize (Nat.le_refl _) (Int.ofNat_le.2 hle) (by decide)
  have hread : lineBytes (.start buffer) (text ++ 13 :: 10 :: (data ++ 13 :: 10 :: rest)) =
      some (filled buffer text hline, data ++ 13 :: 10 :: rest) :=
    lineBytes_filled _ (cr_numeral hsize) hline
  have heol : lineBytes (.start (filled buffer text hline)) (13 :: 10 :: rest) =
      some (filled buffer [] (Nat.zero_le _), rest) :=
    lineBytes_filled rest List.not_mem_nil (Nat.zero_le _)
  have htext : (filled buffer text hline).bytes = text := rfl
  have hempty : (filled buffer [] (Nat.zero_le _)).bytes = [] := rfl
  have hlen : ¬ (data ++ 13 :: 10 :: rest).length < data.length := by
    rw [List.length_append]
    omega
  unfold chunkBytes
  rw [hread]
  simp only [htext, hsize.ne, if_false, hnum, Int.toNat_natCast, hlen, List.drop_left, heol, hempty, if_true,
    List.take_left]

def renderChunks (chunks : List Chunk) (last : Bytes) : Bytes :=
  chunks.flatMap Chunk.render ++ (last ++ [13, 10] ++ [13, 10])

theorem decodeChunks_render {last : Bytes} (rest : Bytes) (hlast : Numeral 16 0 last)
    (hfits : last.length ≤ maxLineSize) : ∀ (chunks : List Chunk) (n : Nat) (buffer : ByteBuffer),
      chunks.length < n → maxLineSize ≤ buffer.capacity →
        decodeChunks n buffer (renderChunks chunks last ++ rest) = some (chunks.map Chunk.data, rest)
  | [], n + 1, buffer, _, hcap => by
    have hchunk : chunkBytes buffer (last ++ 13 :: 10 :: ([] ++ 13 :: 10 :: rest)) = some ([], _, rest) :=
      chunkBytes_render rest hcap hlast (Nat.zero_le _) hfits
    have hbytes : renderChunks [] last ++ rest = last ++ 13 :: 10 :: ([] ++ 13 :: 10 :: rest) := by
      simp [renderChunks]
    rw [hbytes, decodeChunks, hchunk]
    rfl
  | c :: chunks, n + 1, buffer, hn, hcap => by
    have hchunk := chunkBytes_render (renderChunks chunks last ++ rest) hcap c.size c.le c.fits
    have hbytes : renderChunks (c :: chunks) last ++ rest =
        c.text ++ 13 :: 10 :: (c.data ++ 13 :: 10 :: (renderChunks chunks last ++ rest)) := by
      simp [renderChunks, Chunk.render]
    have ih := decodeChunks_render rest hlast hfits chunks n (filled buffer [] (Nat.zero_le _))
      (Nat.lt_of_succ_lt_succ hn) hcap
    rw [hbytes, decodeChunks, hchunk]
    simp only [c.ne, if_false, ih, Option.map_some, List.map_cons]

theorem length_renderChunks (last : Bytes) : ∀ chunks, chunks.length ≤ (renderChunks chunks last).length
  | [] => Nat.zero_le _
  | c :: chunks => by
    have ih := length_renderChunks last chunks
    simp only [renderChunks, Chunk.render, List.flatMap_cons, List.length_append, List.length_cons] at ih ⊢
    omega

theorem chunkPayloads_render {chunks : List Chunk} {last : Bytes} (rest : Bytes) (hlast : Numeral 16 0 last)
    (hfits : last.length ≤ maxLineSize) :
    chunkPayloads (renderChunks chunks last ++ rest) = some (chunks.map Chunk.data, rest) := by
  have hcount := length_renderChunks last chunks
  refine decodeChunks_render rest hlast hfits chunks _ _ ?_ (Nat.le_refl _)
  rw [List.length_append]
  omega

/-! ## Responses -/

def Header.Named (h : Header) (name : Bytes) : Prop := iequal h.name name = true

/-- How the body is framed: the header that says so, and the text of the sizes. -/
inductive Framing (body : Bytes) where
  | length (header : Header) (named : header.Named (ascii "Content-Length"))
      (size : Numeral 10 body.length header.value) (le : body.length ≤ maxBodySize)
  | chunked (header : Header) (named : header.Named (ascii "Transfer-Encoding"))
      (value : lower header.value = ascii "chunked") (chunks : List Chunk)
      (whole : (chunks.map Chunk.data).flatten = body) (last : Bytes) (size : Numeral 16 0 last)
      (fits : last.length ≤ maxLineSize)

def Framing.header {body : Bytes} : Framing body → Header
  | .length header _ _ _ => header
  | .chunked header _ _ _ _ _ _ _ => header

/-- What stands after the headers. -/
def Framing.wire {body : Bytes} : Framing body → Bytes
  | .length _ _ _ _ => body
  | .chunked _ _ _ chunks _ last _ _ => renderChunks chunks last

/-- A header that says nothing about the body. -/
structure Header.Plain (h : Header) : Prop where
  noLength : ¬ h.Named (ascii "Content-Length")
  noTransfer : ¬ h.Named (ascii "Transfer-Encoding")
  noContent : ¬ h.Named (ascii "Content-Encoding")

/-- A response; the header that frames the body stands anywhere between the others. -/
structure Response where
  code : Nat
  reason : Bytes
  before : List Header
  after : List Header
  body : Bytes
  framing : Framing body
  code_ge : 100 ≤ code
  code_lt : code < 600
  reason_cr : 13 ∉ reason
  reason_trimmed : Trimmed reason
  reason_fits : reason.length + 1 ≤ 1024
  plain : ∀ h ∈ before ++ after, h.Plain

namespace Response

def headers (r : Response) : List Header := r.before ++ r.framing.header :: r.after

def statusLine (r : Response) : Bytes :=
  ascii "HTTP/1.1" ++ (ascii " " ++ (codeText r.code ++ (32 :: r.reason ++ [13, 10])))

def render (r : Response) : Bytes := r.statusLine ++ (renderHeaders r.headers ++ r.framing.wire)

end Response

/-- The value of the last header of that name. -/
def lastValue (headers : List Header) (name : Bytes) : Option Bytes :=
  (headers.reverse.find? fun h => decide (foldName h.name = foldName name)).map Header.value

theorem getStr_stored (headers : List Header) (name : Bytes) :
    (stored .empty headers).getStr name = lastValue headers name := by
  unfold StringMap.getStr stored lastValue
  rw [Run.SortedMap.get_setAll, Run.SortedMap.get_empty, Option.or_none, ← List.map_reverse, List.find?_map, Option.map_map]
  exact congrArg (fun p => Option.map Header.value (List.find? p headers.reverse))
    (funext fun h => decide_eq_decide.2 Iff.rfl)

theorem foldName_of_not_named {h : Header} {name : Bytes} (hname : 0 ∉ name) (hn : ¬ h.Named name) :
    foldName h.name ≠ foldName name :=
  foldName_ne (h.not_mem_name (by decide)) hname (Bool.eq_false_iff.2 hn)

theorem foldName_of_named {h : Header} {name : Bytes} (hname : 0 ∉ name) (hn : h.Named name) :
    foldName h.name = foldName name := by
  unfold Header.Named iequal at hn
  unfold foldName
  rw [cStr_eq (h.not_mem_name (by decide)), cStr_eq hname, beq_iff_eq.1 hn]

theorem lastValue_none {headers : List Header} {name : Bytes} (hname : 0 ∉ name)
    (hn : ∀ h ∈ headers, ¬ h.Named name) : lastValue headers name = none := by
  unfold lastValue
  rw [Option.map_eq_none_iff, List.find?_eq_none]
  intro h hh hfold
  exact foldName_of_not_named hname (hn h (List.mem_reverse.1 hh)) (of_decide_eq_true hfold)

theorem lastValue_named {before after : List Header} {h : Header} {name : Bytes} (hname : 0 ∉ name)
    (hn : h.Named name) (hafter : ∀ h ∈ after, ¬ h.Named name) :
    lastValue (before ++ h :: after) name = some h.value := by
  have hnone := lastValue_none hname hafter
  unfold lastValue at *
  rw [Option.map_eq_none_iff] at hnone
  rw [List.reverse_append, List.reverse_cons, List.append_assoc, List.find?_append, hnone, Option.none_or,
    List.singleton_append, List.find?_cons]
  simp [foldName_of_named hname hn]

namespace Response

variable (r : Response)

/-- The answer after the headers were read. -/
def head (p : Answer) : Answer :=
  { p with statusCode := r.code, reasonPhrase := r.reason, headers := stored .empty r.headers }

theorem named_unique {h : Header} {a b : Bytes} (ha : h.Named a) (hab : iequal a b = false) : ¬ h.Named b := by
  intro hb
  unfold Header.Named iequal at ha hb
  rw [beq_iff_eq] at ha hb
  unfold iequal at hab
  rw [← ha, hb, beq_self_eq_true] at hab
  cases hab

/-- A header of the response is the framing one, or says nothing about the body. -/
theorem mem_headers {h : Header} (hh : h ∈ r.headers) : h = r.framing.header ∨ h.Plain := by
  unfold headers at hh
  rcases List.mem_append.1 hh with hh | hh
  · exact .inr (r.plain h (List.mem_append_left _ hh))
  · rcases List.mem_cons.1 hh with rfl | hh
    · exact .inl rfl
    · exact .inr (r.plain h (List.mem_append_right _ hh))

theorem contentEncoding_none : lastValue r.headers (ascii "Content-Encoding") = none := by
  refine lastValue_none (by decide) fun h hh => ?_
  rcases r.mem_headers hh with rfl | hplain
  · cases r.framing with
    | length header named size le => exact named_unique named (by decide)
    | chunked header named value chunks whole last size fits => exact named_unique named (by decide)
  · exact hplain.noContent

end Response

/-! ## The round trip -/

theorem contentEncoding_consumes {p : Answer} (h : p.headers.getStr (ascii "Content-Encoding") = none) :
    Consumes (· = p) Answer.contentEncoding [] fun v ans => v = false ∧ ans = p := by
  refine Consumes.get fun s hs _ => ?_
  rw [hs, h]
  exact Consumes.pure fun _ h => ⟨rfl, h⟩

theorem transferEncoding_consumes {p : Answer} {value : Option Bytes}
    (h : p.headers.getStr (ascii "Transfer-Encoding") = value) (htrim : ∀ v ∈ value, Trimmed v) :
    Consumes (· = p) Answer.transferEncoding [] fun v ans => v = (value.map lower).getD [] ∧ ans = p := by
  refine Consumes.get fun s hs _ => ?_
  rw [hs, h]
  cases value with
  | none => exact Consumes.pure fun _ h => ⟨rfl, h⟩
  | some v =>
    exact Consumes.bind_eq (a := []) (Consumes.except (trim_trimmed (htrim v rfl))) (Consumes.pure fun _ h => ⟨rfl, h⟩)

theorem readSized_consumes {zlib : Zlib} {p : Answer} {length body : Bytes} (hbody : p.body.bytes = [])
    (h : p.headers.getStr (ascii "Content-Length") = some length) (hsize : Numeral 10 body.length length)
    (hle : body.length ≤ maxBodySize) :
    Consumes (· = p) (Answer.readSized zlib false) body fun _ => BodyIs p body := by
  have hnum : str2num length 10 0 maxBodySize = some (body.length : Int) :=
    str2num_numeral hsize (by decide) (Int.ofNat_le.2 hle) (by decide)
  refine Consumes.get fun s hs _ => ?_
  rw [hs, h]
  simp only [hnum]
  by_cases hnil : body = []
  · subst hnil
    exact Consumes.pure fun ans h => ⟨by rw [h, hbody], by rw [h]⟩
  · have hpos : (0 : Int) < (body.length : Int) := Int.ofNat_lt.2 (List.length_pos_of_ne_nil hnil)
    rw [if_pos hpos]
    have hreserve : Consumes (· = p) (Answer.modifyAnswer fun a => { a with body := a.body.reserve (body.length : Int).toNat })
        [] fun _ => BodyIs p [] :=
      Consumes.modifyAnswer fun ans h => ⟨by rw [h]; exact hbody, by rw [h]⟩
    have hread := readBody_consumes (p := p) (d := []) maxBodySize_lt hnil hle
    refine Consumes.bind (a := []) hreserve fun _ => ?_
    have hrun : Consumes (BodyIs p []) (do
        let bodyAvailable ← Answer.readBody body.length maxBodySize
        if !bodyAvailable then throw (statusError .errBody)) (body ++ []) fun _ => BodyIs p body :=
      Consumes.bind_eq hread (Consumes.pure fun _ h => h)
    rwa [List.append_nil] at hrun

theorem Response.body_consumes (r : Response) {zlib : Zlib} {p : Answer} (hbody : p.body.bytes = [])
    (hheaders : p.headers = stored .empty r.headers) :
    Consumes (· = p) (do
      let transfer ← Answer.transferEncoding
      let gzipContent ← Answer.contentEncoding
      if transfer = ascii "chunked" then
        if gzipContent then throw (statusError .errContentEncoding)
        Answer.readChunks
      else if transfer = [] then Answer.readSized zlib gzipContent
      else throw (statusError .errTransferEncoding)) r.framing.wire fun _ => BodyIs p (r.body.take maxBodySize) := by
  have hcontent : p.headers.getStr (ascii "Content-Encoding") = none := by
    rw [hheaders, getStr_stored]
    exact r.contentEncoding_none
  have hplain : ∀ h ∈ r.after, h.Plain := fun h hh => r.plain h (List.mem_append_right _ hh)
  cases hf : r.framing with
  | length header named size le =>
    have hlength : p.headers.getStr (ascii "Content-Length") = some header.value := by
      rw [hheaders, getStr_stored]
      unfold Response.headers
      rw [hf]
      exact lastValue_named (by decide) named fun h hh => (hplain h hh).noLength
    have htransfer : p.headers.getStr (ascii "Transfer-Encoding") = none := by
      rw [hheaders, getStr_stored]
      refine lastValue_none (by decide) fun h hh => ?_
      rcases r.mem_headers hh with rfl | hplain
      · rw [hf]
        exact Response.named_unique named (by decide)
      · exact hplain.noTransfer
    refine Consumes.bind_eq (a := []) (transferEncoding_consumes htransfer fun _ h => by cases h) ?_
    refine Consumes.bind_eq (a := []) (contentEncoding_consumes hcontent) ?_
    rw [List.take_of_length_le le]
    exact readSized_consumes hbody hlength size le
  | chunked header named value chunks whole last size fits =>
    have htransfer : p.headers.getStr (ascii "Transfer-Encoding") = some header.value := by
      rw [hheaders, getStr_stored]
      unfold Response.headers
      rw [hf]
      exact lastValue_named (by decide) named fun h hh => (hplain h hh).noTransfer
    refine Consumes.bind_eq (a := []) (transferEncoding_consumes htransfer fun v hv => ?_) ?_
    · obtain rfl : header.value = v := Option.some.inj hv
      exact header.trimmed
    refine Consumes.bind_eq (a := []) (contentEncoding_consumes hcontent) ?_
    simp only [Option.map_some, Option.getD_some, value, if_true, Bool.false_eq_true, if_false]
    rw [← whole]
    exact readChunks_some hbody (chunkPayloads_render [] size fits)

theorem Response.recv_consumes (r : Response) (lib : DateLib) (zlib : Zlib) (a : Answer) :
    Consumes (· = a.clear) (Answer.recv lib zlib) r.render
      fun _ => BodyIs (r.head a.clear) (r.body.take maxBodySize) := by
  have hstatus := readControlData_consumes (p := a.clear) r.code_ge r.code_lt r.reason_cr r.reason_trimmed r.reason_fits
  unfold Answer.recv Response.render
  refine Consumes.bind_eq hstatus ?_
  simp only [ne_eq, not_true_eq_false, if_false]
  refine Consumes.bind_eq (readHeaders_consumes lib r.headers) ?_
  simp only [not_true_eq_false, if_false]
  exact r.body_consumes rfl rfl

/-- A response that was rendered is read back from any fragmentation, and what comes after it is left. -/
theorem recv_render (r : Response) (lib : DateLib) (zlib : Zlib) (a : Answer) (s : Receiver) (tail : List Seg)
    (rest : Bytes) (hclear : s.answer = a.clear) (hsize : r.body.length ≤ maxBodySize) (harr : Arrives tail s.incoming (r.render ++ rest)) :
    ∃ s', Answer.recv lib zlib s = .ok () s' ∧
      s'.answer.statusCode = r.code ∧ s'.answer.reasonPhrase = r.reason ∧
      (∀ name, s'.answer.headers.getStr name = lastValue r.headers name) ∧ s'.answer.cookies = .empty ∧
      s'.answer.body.bytes = r.body ∧ Arrives tail s'.incoming rest := by
  obtain ⟨u, s', hrun, ⟨hbody, hrest⟩, harr'⟩ := r.recv_consumes lib zlib a tail s rest hclear harr
  rw [List.take_of_length_le hsize] at hbody
  have hcode := congrArg Answer.statusCode hrest
  have hreason := congrArg Answer.reasonPhrase hrest
  have hheaders := congrArg Answer.headers hrest
  have hcookies := congrArg Answer.cookies hrest
  refine ⟨s', hrun, hcode, hreason, fun name => ?_, hcookies, hbody, harr'⟩
  rw [← getStr_stored]
  exact congrArg (StringMap.getStr · name) hheaders

/-- `HTTP/1.1 200 OK`, `Content-Length: 2` and the body `hi`. -/
def Response.hi : Response where
  code := 200
  reason := ascii "OK"
  before := []
  after := []
  body := ascii "hi"
  framing := .length {
      name := ascii "Content-Length"
      value := ascii "2"
      valid := by decide
      noCookie := by decide
      cr := by decide
      nul := by decide
      trimmed := ⟨by decide, by decide⟩
      fits := by decide }
    (by decide : iequal _ _ = true)
    ⟨by decide, fun c hc => ⟨2, by rw [List.mem_singleton.1 hc]; decide⟩, by decide⟩ (by decide)
  code_ge := by decide
  code_lt := by decide
  reason_cr := by decide
  reason_trimmed := ⟨by decide, by decide⟩
  reason_fits := by decide
  plain := fun _ h => absurd h List.not_mem_nil

/-- The response in two pieces, with the first byte of the next answer behind it. -/
def Response.hiPieces : List Seg := [
  .data 72 ((hi.render.take 13).drop 1),
  .retry 1 (.ready 1),
  .data 79 (hi.render.drop 14 ++ [72])]

theorem Response.hi_arrives : Arrives [] hiPieces (hi.render ++ [72]) := by
  have hcut : hi.render ++ [72] = 72 :: (hi.render.take 13).drop 1 ++ (79 :: (hi.render.drop 14 ++ [72]) ++ []) := by
    decide
  rw [hcut]
  exact .data 72 _ (.retry 1 1 (.data 79 _ .done))

theorem recv_render_hi :
    ∃ s', Answer.recv noDates noZlib { answer := Answer.new.clear, incoming := Response.hiPieces, env := .still } =
        .ok () s' ∧
      s'.answer.statusCode = 200 ∧ s'.answer.reasonPhrase = ascii "OK" ∧
      (∀ name, s'.answer.headers.getStr name = lastValue Response.hi.headers name) ∧ s'.answer.cookies = .empty ∧
      s'.answer.body.bytes = ascii "hi" ∧ Arrives [] s'.incoming [72] :=
  recv_render Response.hi noDates noZlib Answer.new _ [] [72] rfl (by decide) Response.hi_arrives

end FortiRdp.Http
