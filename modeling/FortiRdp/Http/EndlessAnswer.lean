/-
Answers on a stream that never ends. A line is read up to its CR LF however long it is, and the limits of
the buffers only cut what is stored; the header lines and the chunks are read one after the other, however
many they are. So the reader comes to an end exactly when each line that it comes to has one, and these
lines do not go on for ever.
-/
import FortiRdp.Http.ReadEnds
import Mathlib.Logic.Relation

namespace FortiRdp.Http

open Util Net
open Answer (Line)

/-! ## The lines of an answer -/

/-- The lines that are read: the rest of the status line, the header lines, the size of a chunk and the empty
line behind it. -/
inductive Place where
  | reason
  | header (headers : StringMap)
  | size
  | eol (more : Bool)

/-- A line that starts at a position of the stream, with the buffer that it is read into. -/
structure Point where
  place : Place
  buffer : ByteBuffer
  pos : Nat

/-- The headers after a header line; `none` when it is refused, or a faulty cookie. -/
def nextHeaders (headers : StringMap) (line : Bytes) : Option StringMap :=
  match headerField line with
  | .skip => some headers
  | .invalid => none
  | .field name value =>
    if iequal name (ascii "Set-Cookie") then if cookieFault value then none else some headers
    else some (headers.set name value)

/-- A body in chunks that is accepted. -/
def IsChunked (headers : StringMap) : Prop :=
  codingOf headers (ascii "Transfer-Encoding") = ascii "chunked" ∧ codingOf headers (ascii "Content-Encoding") = []

instance (headers : StringMap) : Decidable (IsChunked headers) := inferInstanceAs (Decidable (_ ∧ _))

namespace Point

/-- The line after one that ends in front of `pos`; `none` when no more lines are read. -/
def next (p : Point) (line : ByteBuffer) (pos : Nat) : Option Point :=
  match p.place with
  | .reason => some { place := .header .empty, buffer := .ofCapacity maxHeaderSize, pos }
  | .header headers =>
    if line.bytes = [] then
      if IsChunked headers then some { place := .size, buffer := .ofCapacity maxLineSize, pos } else none
    else (nextHeaders headers line.bytes).map fun headers => { place := .header headers, buffer := line, pos }
  | .size =>
    if line.bytes = [] then none
    else (str2num line.bytes 16 0 maxChunkSize).map fun (size : Int) =>
      { place := .eol (decide (0 < size)), buffer := line, pos := pos + size.toNat }
  | .eol more => if line.bytes = [] ∧ more = true then some { place := .size, buffer := line, pos } else none

/-- The line that starts at the point, and the position behind its CR LF. -/
def LineAt (σ : Stream' UInt8) (p : Point) (line : ByteBuffer) (pos : Nat) : Prop :=
  ∃ len, lineBytes (.start p.buffer) ((σ.drop p.pos).take len) = some (line, []) ∧ pos = p.pos + len

/-- From the point on there is a CR, and an LF somewhere behind it. -/
def HasEnd (σ : Stream' UInt8) (p : Point) : Prop := ∃ i j, p.pos ≤ i ∧ i < j ∧ σ.get i = 13 ∧ σ.get j = 10

/-- The reader comes from the line `p` to the line `q`. -/
def Leads (σ : Stream' UInt8) (p q : Point) : Prop := ∃ line pos, LineAt σ p line pos ∧ p.next line pos = some q

end Point

/-! ## A line of the stream -/

theorem lineBytes_more : ∀ {a : Bytes} {l : Line} {line : ByteBuffer} (rest : Bytes), lineBytes l a = some (line, []) →
    lineBytes l (a ++ rest) = some (line, rest)
  | c :: a, l, line, rest, h => by
    unfold lineBytes at h
    rw [List.cons_append, lineBytes]
    cases hnext : l.next c with
    | inl l' =>
      rw [hnext] at h
      exact lineBytes_more rest h
    | inr buffer =>
      rw [hnext] at h
      cases h
      rfl

/-- The line alone, without what comes after it. -/
theorem lineBytes_alone : ∀ {bytes rest : Bytes} {l : Line} {line : ByteBuffer}, lineBytes l bytes = some (line, rest) →
    ∃ a, bytes = a ++ rest ∧ 0 < a.length ∧ lineBytes l a = some (line, [])
  | c :: bytes, rest, l, line, h => by
    unfold lineBytes at h
    cases hnext : l.next c with
    | inl l' =>
      rw [hnext] at h
      obtain ⟨a, rfl, -, ha⟩ := lineBytes_alone h
      exact ⟨c :: a, rfl, Nat.succ_pos _, by rw [lineBytes, hnext]; exact ha⟩
    | inr buffer =>
      rw [hnext] at h
      cases h
      exact ⟨[c], rfl, Nat.one_pos, by rw [lineBytes, hnext]⟩

theorem lineBytes_length {a rest : Bytes} {l : Line} {line : ByteBuffer} (h : lineBytes l a = some (line, rest)) :
    0 < a.length := by
  obtain ⟨c, rfl, hpos⟩ := lineBytes_append h
  rw [List.length_append]
  omega

theorem next_cr {l : Line} {c : UInt8} (hcr : l.state = .cr) (hlf : c ≠ 10) :
    ∃ l', l.next c = .inl l' ∧ l'.state = .cr := by
  unfold Line.next
  rw [hcr]
  simp only [if_neg hlf]
  split
  · exact ⟨_, rfl, rfl⟩
  · exact ⟨_, rfl, rfl⟩

theorem next_text {l : Line} {c : UInt8} (htext : l.state = .text) :
    ∃ l', l.next c = .inl l' ∧ l'.state = if c = 13 then .cr else .text := by
  unfold Line.next
  rw [htext]
  simp only
  split
  · exact ⟨_, rfl, rfl⟩
  · split
    · exact ⟨_, rfl, rfl⟩
    · exact ⟨_, rfl, rfl⟩

/-- Behind its CR a line needs an LF. -/
theorem lineBytes_cr_iff : ∀ {bytes : Bytes} {l : Line}, l.state = .cr → ((lineBytes l bytes).isSome ↔ 10 ∈ bytes)
  | [], l, _ => by simp [lineBytes]
  | c :: bytes, l, hcr => by
    rw [lineBytes]
    by_cases hlf : c = 10
    · subst hlf
      simp [Line.next, hcr]
    · obtain ⟨l', hnext, hcr'⟩ := next_cr hcr hlf
      rw [hnext, List.mem_cons]
      exact (lineBytes_cr_iff hcr').trans ⟨.inr, fun h => h.resolve_left fun h => hlf h.symm⟩

/-- A line needs a CR, and an LF behind it. -/
theorem lineBytes_text_iff : ∀ {bytes : Bytes} {l : Line}, l.state = .text →
    ((lineBytes l bytes).isSome ↔ ∃ i j : Nat, i < j ∧ bytes[i]? = some 13 ∧ bytes[j]? = some 10)
  | [], l, _ => by simp [lineBytes]
  | c :: bytes, l, htext => by
    obtain ⟨l', hnext, hstate⟩ := next_text (c := c) htext
    rw [lineBytes, hnext]
    simp only
    by_cases hcr : c = 13
    · rw [if_pos hcr] at hstate
      rw [lineBytes_cr_iff hstate, List.mem_iff_getElem?]
      constructor
      · rintro ⟨j, hj⟩
        exact ⟨0, j + 1, Nat.succ_pos _, by rw [hcr]; rfl, hj⟩
      · rintro ⟨i, j, hij, -, hj⟩
        obtain ⟨j, rfl⟩ : ∃ k, j = k + 1 := ⟨j - 1, by omega⟩
        exact ⟨j, hj⟩
    · rw [if_neg hcr] at hstate
      rw [lineBytes_text_iff hstate]
      constructor
      · rintro ⟨i, j, hij, hi, hj⟩
        exact ⟨i + 1, j + 1, Nat.succ_lt_succ hij, hi, hj⟩
      · rintro ⟨i, j, hij, hi, hj⟩
        cases i with
        | zero =>
          injection hi with hi
          exact absurd hi hcr
        | succ i =>
          obtain ⟨j, rfl⟩ : ∃ k, j = k + 1 := ⟨j - 1, by omega⟩
          exact ⟨i, j, Nat.lt_of_succ_lt_succ hij, hi, hj⟩

/-- The bytes of the stream in front of a line and in it. -/
theorem getElem?_take_drop {α : Type} (σ : Stream' α) {pos len i : Nat} (h : i < len) :
    ((σ.drop pos).take len)[i]? = some (σ.get (pos + i)) := by
  rw [Stream'.getElem?_take h, Stream'.get_drop]

namespace Point

/-- There is an end of the line exactly when the line is read. -/
theorem hasEnd_iff {σ : Stream' UInt8} {p : Point} : HasEnd σ p ↔ ∃ line pos, LineAt σ p line pos := by
  constructor
  · rintro ⟨i, j, hi, hij, hcr, hlf⟩
    have hline : (lineBytes (.start p.buffer) ((σ.drop p.pos).take (j + 1))).isSome := by
      refine (lineBytes_text_iff rfl).2 ⟨i - p.pos, j - p.pos, by omega, ?_, ?_⟩
      · rw [getElem?_take_drop σ (by omega), show p.pos + (i - p.pos) = i by omega, hcr]
      · rw [getElem?_take_drop σ (by omega), show p.pos + (j - p.pos) = j by omega, hlf]
    obtain ⟨⟨line, rest⟩, hline⟩ := Option.isSome_iff_exists.1 hline
    obtain ⟨a, ha, -, halone⟩ := lineBytes_alone hline
    have hlen := congrArg List.length ha
    rw [Stream'.length_take, List.length_append] at hlen
    refine ⟨line, p.pos + a.length, a.length, ?_, rfl⟩
    have htake : (σ.drop p.pos).take a.length = a := by
      rw [← Nat.min_eq_right (show a.length ≤ j + 1 by omega), ← Stream'.take_take, ha, List.take_left]
    rw [htake]
    exact halone
  · rintro ⟨line, pos, len, hline, rfl⟩
    obtain ⟨i, j, hij, hi, hj⟩ := (lineBytes_text_iff (l := .start p.buffer) rfl).1 (Option.isSome_iff_exists.2 ⟨_, hline⟩)
    obtain ⟨hjlen, -⟩ := List.getElem?_eq_some_iff.1 hj
    rw [Stream'.length_take] at hjlen
    rw [getElem?_take_drop σ (hij.trans hjlen)] at hi
    rw [getElem?_take_drop σ hjlen] at hj
    exact ⟨p.pos + i, p.pos + j, by omega, by omega, Option.some.inj hi, Option.some.inj hj⟩

end Point

/-! ## What is read from a line on -/

/-- The end of a round of `readChunk`, behind the data. -/
def chunkEnd (more : Bool) (buffer : ByteBuffer) : AnswerM (ByteBuffer ⊕ Unit) := do
  let (status, buffer) ← Answer.readLine buffer
  if status ≠ .errNone ∨ buffer.bytes ≠ [] then throw (statusError .errBody)
  if more then pure (.inl buffer)
  else pure (.inr ())

def nextChunk (n : Nat) : ByteBuffer ⊕ Unit → AnswerM Unit
  | .inl buffer => Run.iterate .exhausted Answer.readChunk n buffer
  | .inr _ => pure ()

/-- The part of `recv` behind the headers, for the status that they were read with. -/
def afterHeaders (zlib : Zlib) (status : AnswerStatus) : AnswerM Unit := do
  if status ≠ .errNone then throw (statusError status)
  recvBody zlib

/-- The part of `recv` behind the status line. -/
def afterReason (lib : DateLib) (zlib : Zlib) (status : AnswerStatus) : AnswerM Unit := do
  if status ≠ .errNone then throw (statusError status)
  let status ← Answer.readHeaders lib
  afterHeaders zlib status

namespace Point

/-- The rest of `recv`, from the line on; the loop that the line is in has the fuel `n`. -/
def program (lib : DateLib) (zlib : Zlib) (p : Point) (n : Nat) : AnswerM Unit :=
  match p.place with
  | .reason => Answer.readReason >>= afterReason lib zlib
  | .header _ => Run.iterate .exhausted (Answer.readHeadersStep lib) n p.buffer >>= afterHeaders zlib
  | .size => Run.iterate .exhausted Answer.readChunk n p.buffer
  | .eol more => chunkEnd more p.buffer >>= nextChunk n

/-- The answer when the reader comes to the line. -/
def Inv (p : Point) (ans : Answer) : Prop :=
  match p.place with
  | .reason => p.buffer = .ofCapacity 1024 ∧ Headed .empty ans
  | .header headers => Headed headers ans
  | .size | .eol _ => ans.body.bytes.length ≤ maxBodySize

end Point

section Steps

variable {lib : DateLib} {zlib : Zlib} {a : Bytes} {buffer line : ByteBuffer} {headers : StringMap}

theorem readLine_line {I : Answer → Prop} (h : lineBytes (.start buffer) a = some (line, [])) :
    Consumes I (Answer.readLine buffer) a fun v ans => v = (.errNone, line) ∧ I ans :=
  readLine_bytes [] (by rwa [List.append_nil])

/-- A line without an end is read to the end of what arrives. -/
theorem line_none {p : Point} (h : lineBytes (.start p.buffer) a = none) : Starves p.Inv (p.program lib zlib) a := by
  obtain ⟨place, buffer, pos⟩ := p
  cases place with
  | reason =>
    refine Starves.bind (f := fun _ => afterReason lib zlib) (Starves.of_self ?_)
    rintro ans ⟨rfl, -⟩
    exact Starves.bind (f := fun _ => _) (readLine_starves h)
  | header headers =>
    refine Starves.bind (f := fun _ => afterHeaders zlib) (Starves.last ?_)
    exact Starves.bind (f := fun _ => _) (readLine_starves h)
  | size => exact Starves.last (Starves.bind (f := fun _ => _) (readLine_starves h))
  | eol more =>
    exact Starves.bind (Starves.bind (f := fun _ => _) (readLine_starves h))

/-! ### The status line and the headers -/

theorem reason_next (h : lineBytes (.start (.ofCapacity 1024)) a = some (line, [])) :
    Proceeds (Headed .empty) (fun _ => Answer.readReason >>= afterReason lib zlib) a (Headed .empty)
      (fun n => Run.iterate .exhausted (Answer.readHeadersStep lib) n (.ofCapacity maxHeaderSize) >>= afterHeaders zlib) := by
  intro n tail s b hs harr hn
  have hline : lineBytes (.start (.ofCapacity 1024)) (a ++ []) = some (line, []) := by rwa [List.append_nil]
  have hreason : Consumes (· = s.answer) Answer.readReason a _ := readReason_exists hline
  obtain ⟨v, t, hrun, ⟨rfl, reason, ht⟩, harr'⟩ := hreason tail s b rfl harr
  refine ⟨bytesLeft t.incoming + 1, t, ?_, ?_, harr', Nat.lt_succ_of_le (arrives_bytesLeft harr')⟩
  · show (Answer.readReason >>= afterReason lib zlib) s = _
    rw [Run.bind_ok hrun]
    rfl
  · rw [ht]
    exact hs

theorem readHeaderLine_next (lib : DateLib) {line : Bytes} {o : ObfString} (h : o.Hides line) (s : Receiver) :
    match nextHeaders s.answer.headers line with
    | some headers => ∃ t, Answer.readHeaderLine lib o s = .ok .errNone t ∧ t.incoming = s.incoming ∧
        t.answer.headers = headers ∧ t.answer.body = s.answer.body
    | none => Answer.readHeaderLine lib o s = .ok .errInvalidField s ∨ Answer.readHeaderLine lib o s = .error .outOfRange s := by
  have hfield := readHeaderLine_outcome lib h s
  have hbody : ∀ status t, Answer.readHeaderLine lib o s = .ok status t → t.answer.body = s.answer.body := by
    intro status t hrun
    have hkeeps : Run.Keeps (fun t => t.answer.body = s.answer.body) (Answer.readHeaderLine lib o) :=
      keeps_readHeaderLine (P := fun a => a.body = s.answer.body) (fun _ _ h => h) (fun _ _ h => h) o
    have hkeep := hkeeps s rfl
    rw [hrun] at hkeep
    exact hkeep
  unfold nextHeaders
  cases hf : headerField line with
  | skip =>
    rw [hf] at hfield
    exact ⟨s, hfield, rfl, rfl, rfl⟩
  | invalid =>
    rw [hf] at hfield
    exact .inl hfield
  | field name value =>
    rw [hf] at hfield
    simp only at hfield ⊢
    split at hfield
    · rename_i hcookie
      rw [if_pos hcookie]
      split at hfield
      · rename_i hfault
        rw [if_pos hfault]
        exact .inr hfield
      · rename_i hfault
        rw [if_neg hfault]
        obtain ⟨t, hrun, hincoming, hheaders⟩ := hfield
        exact ⟨t, hrun, hincoming, hheaders, hbody _ _ hrun⟩
    · rename_i hcookie
      rw [if_neg hcookie]
      obtain ⟨t, hrun, hincoming, hheaders⟩ := hfield
      exact ⟨t, hrun, hincoming, hheaders, hbody _ _ hrun⟩

theorem header_next {headers' : StringMap} (h : lineBytes (.start buffer) a = some (line, [])) (hne : line.bytes ≠ [])
    (hnext : nextHeaders headers line.bytes = some headers') :
    Proceeds (Headed headers) (fun n => Run.iterate .exhausted (Answer.readHeadersStep lib) n buffer >>= afterHeaders zlib) a
      (Headed headers') (fun n => Run.iterate .exhausted (Answer.readHeadersStep lib) n line >>= afterHeaders zlib) := by
  intro n tail s b hs harr hn
  have hpos := lineBytes_length h
  rw [List.length_append] at hn
  obtain ⟨n, rfl⟩ : ∃ m, n = m + 1 := ⟨n - 1, by omega⟩
  obtain ⟨o, t, hides, hans, harr', hstep⟩ := readHeadersStep_line lib (lineBytes_more b h) hne harr
  have hline := readHeaderLine_next lib hides t
  rw [hans, hs.1, hnext] at hline
  obtain ⟨u, hrun, hincoming, hheaders, hbody⟩ := hline
  have hround : Answer.readHeadersStep lib buffer s = .ok (.inl line) u := by
    rw [hstep, Run.bind_ok hrun]
    rfl
  refine ⟨n, u, ?_, ⟨hheaders, by rw [hbody]; exact hs.2⟩, hincoming ▸ harr', by omega⟩
  exact Run.bind_congr (Run.iterate_more hround)

/-- A line that is refused. -/
theorem header_refused (h : lineBytes (.start buffer) a = some (line, [])) (hne : line.bytes ≠ [])
    (hnext : nextHeaders headers line.bytes = none) :
    EndsAfter (Headed headers)
      (fun n => Run.iterate .exhausted (Answer.readHeadersStep lib) n buffer >>= afterHeaders zlib) a := by
  intro n tail s b hs harr hn
  obtain ⟨n, rfl⟩ : ∃ m, n = m + 1 := ⟨n - 1, by omega⟩
  obtain ⟨o, t, hides, hans, harr', hstep⟩ := readHeadersStep_line lib (lineBytes_more b h) hne harr
  have hline := readHeaderLine_next lib hides t
  rw [hans, hs.1, hnext] at hline
  show Arrives tail (Run.endState ((Run.iterate _ _ _ _ >>= afterHeaders zlib) s)).incoming b
  rcases hline with hrun | hrun
  · have hround : Answer.readHeadersStep lib buffer s = .ok (.inr .errInvalidField) t := by
      rw [hstep, Run.bind_ok hrun]
      rfl
    rw [Run.bind_ok (Run.iterate_done hround)]
    exact harr'
  · have hround : Answer.readHeadersStep lib buffer s = .error .outOfRange t := by
      rw [hstep, Run.bind_error hrun]
    rw [Run.bind_error (Run.iterate_error hround)]
    exact harr'

/-- The empty line: the body is read. -/
theorem header_empty (h : lineBytes (.start buffer) a = some (line, [])) (hempty : line.bytes = []) :
    Proceeds (Headed headers) (fun n => Run.iterate .exhausted (Answer.readHeadersStep lib) n buffer >>= afterHeaders zlib) a
      (Headed headers) (fun _ => recvBody zlib) := by
  intro n tail s b hs harr hn
  obtain ⟨n, rfl⟩ : ∃ m, n = m + 1 := ⟨n - 1, by omega⟩
  have hround := readHeadersStep_empty lib (I := Headed headers) (lineBytes_more b h) hempty
  obtain ⟨v, t, hrun, ⟨rfl, ht⟩, harr'⟩ := hround tail s b hs harr
  refine ⟨b.length + 1, t, ?_, ht, harr', Nat.lt_succ_self _⟩
  show (Run.iterate _ _ _ _ >>= afterHeaders zlib) s = _
  rw [Run.bind_ok (Run.iterate_done hrun)]
  rfl

theorem recvBody_chunked {s : Receiver} (h : IsChunked headers) (hs : Headed headers s.answer) :
    recvBody zlib s = Answer.readChunks s := by
  have hcontent := contentEncoding_run s
  rw [hs.1, h.2] at hcontent
  unfold recvBody
  rw [Run.bind_ok (transferEncoding_run s), Run.bind_ok hcontent, hs.1, h.1]
  rfl

/-- The empty line in front of chunks. -/
theorem header_chunked (h : lineBytes (.start buffer) a = some (line, [])) (hempty : line.bytes = [])
    (hchunked : IsChunked headers) :
    Proceeds (Headed headers) (fun n => Run.iterate .exhausted (Answer.readHeadersStep lib) n buffer >>= afterHeaders zlib) a
      (fun ans => ans.body.bytes.length ≤ maxBodySize)
      (fun n => Run.iterate .exhausted Answer.readChunk n (.ofCapacity maxLineSize)) := by
  intro n tail s b hs harr hn
  obtain ⟨m, t, hrun, ht, harr', -⟩ := header_empty h hempty n tail s b hs harr hn
  refine ⟨bytesLeft t.incoming + 1, t, ?_, ?_, harr', Nat.lt_succ_of_le (arrives_bytesLeft harr')⟩
  · rw [hrun]
    exact recvBody_chunked hchunked ht
  · show t.answer.body.bytes.length ≤ _
    rw [ht.2]
    exact Nat.zero_le _

/-! ### The chunks -/

/-- The data of a chunk. -/
def chunkData (size : Int) : AnswerM Unit := do
  if 0 < size then
    if !(← Answer.readBody size.toNat maxBodySize) then throw (statusError .errBody)

theorem readChunk_line {size : Int} {tail : List Seg} {s : Receiver} {b : Bytes}
    (h : lineBytes (.start buffer) a = some (line, [])) (hne : line.bytes ≠ [])
    (hsize : str2num line.bytes 16 0 maxChunkSize = some size) (harr : Arrives tail s.incoming (a ++ b)) :
    ∃ t, t.answer = s.answer ∧ Arrives tail t.incoming b ∧
      Answer.readChunk buffer s = (chunkData size >>= fun _ => chunkEnd (decide (0 < size)) line) t := by
  have hread : Consumes (· = s.answer) (Answer.readLine buffer) a _ := readLine_line h
  obtain ⟨v, t, hrun, ⟨rfl, hans⟩, harr'⟩ := hread tail s b rfl harr
  refine ⟨t, hans, harr', ?_⟩
  unfold Answer.readChunk chunkData chunkEnd
  rw [Run.bind_ok hrun]
  simp only [hne, hsize, ne_eq, not_true_eq_false, or_self, if_false]
  by_cases hpos : 0 < size
  · simp only [hpos, decide_true, if_true]
    cases hbody : Answer.readBody size.toNat maxBodySize t with
    | error e u => rw [Run.bind_error hbody, Run.bind_error (Run.bind_error hbody)]
    | ok v u =>
      rw [Run.bind_ok hbody, Run.bind_congr (Run.bind_ok hbody)]
      cases v with
      | false => rfl
      | true => rfl
  · simp only [hpos, decide_false, if_false, Bool.false_eq_true]
    rfl

theorem chunkData_consumes {size : Int} {c : Bytes} (hc : c.length = size.toNat) :
    Consumes (fun ans => ans.body.bytes.length ≤ maxBodySize) (chunkData size) c
      fun _ ans => ans.body.bytes.length ≤ maxBodySize := by
  intro tail s b hs harr
  unfold chunkData
  by_cases hpos : 0 < size
  · have hbody := readBody_take (p := s.answer) maxBodySize_lt (List.ne_nil_of_length_pos (l := c) (by omega)) hs
    rw [hc] at hbody
    obtain ⟨v, t, hrun, ⟨rfl, ht⟩, harr'⟩ := hbody tail s b (bodyIs_self _) harr
    simp only [if_pos hpos]
    refine ⟨(), t, Run.bind_ok hrun, ?_, harr'⟩
    rw [ht.1, List.length_take]
    exact Nat.min_le_left _ _
  · obtain rfl : c = [] := List.eq_nil_of_length_eq_zero (by omega)
    simp only [if_neg hpos]
    exact ⟨(), s, rfl, hs, harr⟩

theorem chunkData_starves {size : Int} {c : Bytes} (hc : c.length < size.toNat) :
    Starves (fun ans => ans.body.bytes.length ≤ maxBodySize) (fun _ => chunkData size) c := by
  intro n s hs harr hn
  unfold chunkData
  simp only [if_pos (show 0 < size by omega)]
  obtain ⟨e, t, hrun, hav⟩ := readBody_starves hc n s hs harr hn
  exact ⟨e, t, Run.bind_error hrun, hav⟩

theorem chunkEnd_consumes {I : Answer → Prop} (more : Bool) (h : lineBytes (.start buffer) a = some (line, []))
    (hempty : line.bytes = []) :
    Consumes I (chunkEnd more buffer) a fun r ans => r = (if more then .inl line else .inr ()) ∧ I ans := by
  rw [← List.append_nil a]
  refine Consumes.bind_eq (readLine_line h) ?_
  simp only [hempty, ne_eq, not_true_eq_false, or_self, if_false]
  cases more with
  | true => exact Consumes.pure fun _ hs => ⟨rfl, hs⟩
  | false => exact Consumes.pure fun _ hs => ⟨rfl, hs⟩

theorem iterate_readChunk (n : Nat) (buffer : ByteBuffer) :
    Run.iterate .exhausted Answer.readChunk (n + 1) buffer = Answer.readChunk buffer >>= nextChunk n := by
  refine congrArg (Answer.readChunk buffer >>= ·) (funext fun r => ?_)
  cases r with
  | inl buffer => rfl
  | inr v => rfl

/-- A size line that is accepted, and the data that it announces. -/
theorem size_next {size : Int} {c : Bytes} (h : lineBytes (.start buffer) a = some (line, [])) (hne : line.bytes ≠ [])
    (hsize : str2num line.bytes 16 0 maxChunkSize = some size) (hc : c.length = size.toNat) :
    Proceeds (fun ans => ans.body.bytes.length ≤ maxBodySize) (fun n => Run.iterate .exhausted Answer.readChunk n buffer)
      (a ++ c) (fun ans => ans.body.bytes.length ≤ maxBodySize)
      (fun n => chunkEnd (decide (0 < size)) line >>= nextChunk n) := by
  intro n tail s b hs harr hn
  have hpos := lineBytes_length h
  rw [List.append_assoc] at harr
  rw [List.length_append, List.length_append] at hn
  obtain ⟨n, rfl⟩ : ∃ m, n = m + 1 := ⟨n - 1, by omega⟩
  obtain ⟨t, ht, harr', hstep⟩ := readChunk_line h hne hsize harr
  obtain ⟨v, u, hrun, hu, harr''⟩ := chunkData_consumes hc tail t b (by rw [ht]; exact hs) harr'
  rw [Run.bind_ok hrun] at hstep
  refine ⟨n, u, ?_, hu, harr'', by omega⟩
  show Run.iterate .exhausted Answer.readChunk (n + 1) buffer s = _
  rw [iterate_readChunk]
  exact Run.bind_congr hstep

/-- The data of a chunk is cut off. -/
theorem size_short {size : Int} {c : Bytes} (h : lineBytes (.start buffer) a = some (line, [])) (hne : line.bytes ≠ [])
    (hsize : str2num line.bytes 16 0 maxChunkSize = some size) (hc : c.length < size.toNat) :
    Starves (fun ans => ans.body.bytes.length ≤ maxBodySize) (fun n => Run.iterate .exhausted Answer.readChunk n buffer)
      (a ++ c) := by
  intro n s hs harr hn
  obtain ⟨n, rfl⟩ : ∃ m, n = m + 1 := ⟨n - 1, by omega⟩
  obtain ⟨t, ht, harr', hstep⟩ := readChunk_line h hne hsize harr
  obtain ⟨e, u, hrun, hav⟩ := chunkData_starves hc (c.length + 1) t (by rw [ht]; exact hs) harr' (Nat.lt_succ_self _)
  rw [Run.bind_error hrun] at hstep
  exact ⟨e, u, Run.iterate_error hstep, hav⟩

/-- A size line that is refused. -/
theorem size_refused (h : lineBytes (.start buffer) a = some (line, []))
    (hsize : line.bytes = [] ∨ str2num line.bytes 16 0 maxChunkSize = none) :
    EndsAfter (fun _ => True) (fun n => Run.iterate .exhausted Answer.readChunk n buffer) a := by
  intro n tail s b hs harr hn
  obtain ⟨n, rfl⟩ : ∃ m, n = m + 1 := ⟨n - 1, by omega⟩
  have hread : Consumes (· = s.answer) (Answer.readLine buffer) a _ := readLine_line h
  obtain ⟨v, t, hrun, ⟨rfl, -⟩, harr'⟩ := hread tail s b rfl harr
  have hround : Answer.readChunk buffer s = .error (statusError .errChunkSize) t := by
    unfold Answer.readChunk
    rw [Run.bind_ok hrun]
    by_cases hempty : line.bytes = []
    · simp only [hempty, or_true, if_true]
      rfl
    · simp only [hempty, hsize.resolve_left hempty, ne_eq, not_true_eq_false, or_self, if_false]
      rfl
  show Arrives tail (Run.endState (Run.iterate _ _ _ _ s)).incoming b
  rw [Run.iterate_error hround]
  exact harr'

theorem eol_next (h : lineBytes (.start buffer) a = some (line, [])) (hempty : line.bytes = []) :
    Proceeds (fun ans => ans.body.bytes.length ≤ maxBodySize) (fun n => chunkEnd true buffer >>= nextChunk n) a
      (fun ans => ans.body.bytes.length ≤ maxBodySize) (fun n => Run.iterate .exhausted Answer.readChunk n line) := by
  intro n tail s b hs harr hn
  obtain ⟨v, t, hrun, ⟨rfl, ht⟩, harr'⟩ := chunkEnd_consumes (I := fun ans => ans.body.bytes.length ≤ maxBodySize) true h hempty
    tail s b hs harr
  have hpos := lineBytes_length h
  rw [List.length_append] at hn
  refine ⟨n, t, ?_, ht, harr', by omega⟩
  exact Run.bind_ok hrun

/-- The line behind the last chunk, or one that is not empty. -/
theorem eol_done {more : Bool} (h : lineBytes (.start buffer) a = some (line, [])) (hlast : line.bytes = [] → more = false) :
    EndsAfter (fun _ => True) (fun n => chunkEnd more buffer >>= nextChunk n) a := by
  intro n tail s b hs harr hn
  show Arrives tail (Run.endState ((chunkEnd more buffer >>= nextChunk n) s)).incoming b
  by_cases hempty : line.bytes = []
  · obtain ⟨v, t, hrun, ⟨rfl, -⟩, harr'⟩ := chunkEnd_consumes (I := fun _ => True) more h hempty tail s b hs harr
    rw [Run.bind_ok hrun, hlast hempty]
    exact harr'
  · have hread : Consumes (· = s.answer) (Answer.readLine buffer) a _ := readLine_line h
    obtain ⟨v, t, hrun, ⟨rfl, -⟩, harr'⟩ := hread tail s b rfl harr
    have hround : chunkEnd more buffer s = .error (statusError .errBody) t := by
      unfold chunkEnd
      rw [Run.bind_ok hrun]
      simp only [hempty, ne_eq, not_false_eq_true, or_true, if_true]
      rfl
    rw [Run.bind_error hround]
    exact harr'

end Steps

/-! ## From line to line -/

/-- The lines that another one follows, and that one. -/
theorem Point.next_cases {p q : Point} {line : ByteBuffer} {pos : Nat} (h : p.next line pos = some q) :
    (p.place = .reason ∧ q = { place := .header .empty, buffer := .ofCapacity maxHeaderSize, pos }) ∨
    (∃ headers, p.place = .header headers ∧ line.bytes = [] ∧ IsChunked headers ∧
      q = { place := .size, buffer := .ofCapacity maxLineSize, pos }) ∨
    (∃ headers headers', p.place = .header headers ∧ line.bytes ≠ [] ∧ nextHeaders headers line.bytes = some headers' ∧
      q = { place := .header headers', buffer := line, pos }) ∨
    (∃ size : Int, p.place = .size ∧ line.bytes ≠ [] ∧ str2num line.bytes 16 0 maxChunkSize = some size ∧
      q = { place := .eol (decide (0 < size)), buffer := line, pos := pos + size.toNat }) ∨
    (p.place = .eol true ∧ line.bytes = [] ∧ q = { place := .size, buffer := line, pos }) := by
  obtain ⟨place, buffer, start⟩ := p
  cases place with
  | reason =>
    cases h
    exact .inl ⟨rfl, rfl⟩
  | header headers =>
    unfold Point.next at h
    simp only at h
    split at h
    · rename_i hempty
      split at h
      · rename_i hchunked
        cases h
        exact .inr (.inl ⟨headers, rfl, hempty, hchunked, rfl⟩)
      · cases h
    · rename_i hne
      rw [Option.map_eq_some_iff] at h
      obtain ⟨headers', hheaders, rfl⟩ := h
      exact .inr (.inr (.inl ⟨headers, headers', rfl, hne, hheaders, rfl⟩))
  | size =>
    unfold Point.next at h
    simp only at h
    split at h
    · cases h
    · rename_i hne
      rw [Option.map_eq_some_iff] at h
      obtain ⟨size, hsize, rfl⟩ := h
      exact .inr (.inr (.inr (.inl ⟨size, rfl, hne, hsize, rfl⟩)))
  | eol more =>
    unfold Point.next at h
    simp only at h
    split at h
    · rename_i hlast
      obtain ⟨hempty, rfl⟩ := hlast
      cases h
      exact .inr (.inr (.inr (.inr ⟨rfl, hempty, rfl⟩)))
    · cases h

theorem Point.le_next {p q : Point} {line : ByteBuffer} {pos : Nat} (h : p.next line pos = some q) : pos ≤ q.pos := by
  rcases Point.next_cases h with ⟨-, rfl⟩ | ⟨_, -, -, -, rfl⟩ | ⟨_, _, -, -, -, rfl⟩ | ⟨size, -, -, -, rfl⟩ | ⟨-, -, rfl⟩
  · exact Nat.le_refl _
  · exact Nat.le_refl _
  · exact Nat.le_refl _
  · exact Nat.le_add_right _ _
  · exact Nat.le_refl _

section Lines

variable {lib : DateLib} {zlib : Zlib} {p q : Point} {a c : Bytes} {line : ByteBuffer} {pos : Nat}

/-- A line that another one follows is taken, with the data in front of that one. -/
theorem line_next (lib : DateLib) (zlib : Zlib) (h : lineBytes (.start p.buffer) a = some (line, []))
    (hnext : p.next line pos = some q) (hc : q.pos = pos + c.length) : Proceeds p.Inv (p.program lib zlib) (a ++ c) q.Inv (q.program lib zlib) := by
  have hnone : q.pos = pos → a ++ c = a := by
    intro hpos
    obtain rfl : c = [] := List.eq_nil_of_length_eq_zero (by omega)
    exact List.append_nil a
  obtain ⟨place, buffer, start⟩ := p
  rcases Point.next_cases hnext with ⟨rfl, rfl⟩ | ⟨headers, rfl, hempty, hchunked, rfl⟩ |
    ⟨headers, headers', rfl, hne, hheaders, rfl⟩ | ⟨size, rfl, hne, hsize, rfl⟩ | ⟨rfl, hempty, rfl⟩
  · rw [hnone rfl]
    rintro n tail s b ⟨rfl, hheaded⟩ harr hn
    exact reason_next h n tail s b hheaded harr hn
  · rw [hnone rfl]
    exact header_chunked h hempty hchunked
  · rw [hnone rfl]
    exact header_next h hne hheaders
  · exact size_next h hne hsize (Nat.add_left_cancel hc).symm
  · rw [hnone rfl]
    exact eol_next h hempty

/-- Data that does not arrive in full is waited for. -/
theorem line_short (h : lineBytes (.start p.buffer) a = some (line, [])) (hnext : p.next line pos = some q)
    (hc : pos + c.length < q.pos) : Starves p.Inv (p.program lib zlib) (a ++ c) := by
  have hpos : q.pos ≠ pos := by omega
  obtain ⟨place, buffer, start⟩ := p
  rcases Point.next_cases hnext with ⟨-, rfl⟩ | ⟨_, -, -, -, rfl⟩ | ⟨_, _, -, -, -, rfl⟩ | ⟨size, rfl, hne, hsize, rfl⟩ |
    ⟨-, -, rfl⟩
  · exact absurd rfl hpos
  · exact absurd rfl hpos
  · exact absurd rfl hpos
  · exact size_short h hne hsize (Nat.lt_of_add_lt_add_left hc)
  · exact absurd rfl hpos

/-- Behind a line that no other one follows the reader comes to its end. -/
theorem line_stop (h : lineBytes (.start p.buffer) a = some (line, [])) (hnext : p.next line pos = none)
    (σ : Stream' UInt8) : ∃ n, EndsAfter p.Inv (p.program lib zlib) (a ++ σ.take n) := by
  obtain ⟨place, buffer, start⟩ := p
  cases place with
  | reason => cases hnext
  | header headers =>
    unfold Point.next at hnext
    simp only at hnext
    split at hnext
    · rename_i hempty
      split at hnext
      · cases hnext
      · rename_i hchunked
        obtain ⟨n, hn⟩ := recvBody_ends zlib σ hchunked
        exact ⟨n, (header_empty h hempty).ends hn⟩
    · rename_i hne
      rw [Option.map_eq_none_iff] at hnext
      refine ⟨0, ?_⟩
      rw [Stream'.take_zero, List.append_nil]
      exact header_refused h hne hnext
  | size =>
    refine ⟨0, ?_⟩
    rw [Stream'.take_zero, List.append_nil]
    have hrefused : line.bytes = [] ∨ str2num line.bytes 16 0 maxChunkSize = none := by
      unfold Point.next at hnext
      simp only at hnext
      split at hnext
      · rename_i hempty
        exact .inl hempty
      · exact .inr (Option.map_eq_none_iff.1 hnext)
    exact fun n tail s b _ => size_refused h hrefused n tail s b trivial
  | eol more =>
    refine ⟨0, ?_⟩
    rw [Stream'.take_zero, List.append_nil]
    have hlast : line.bytes = [] → more = false := by
      intro hempty
      unfold Point.next at hnext
      cases more with
      | false => rfl
      | true =>
        simp only [hempty, and_self, if_true] at hnext
        cases hnext
    exact fun n tail s b _ => eol_done h hlast n tail s b trivial

end Lines

/-! ## The whole run -/

namespace Point

variable {σ : Stream' UInt8} {p q : Point}

theorem LineAt.unique {line line' : ByteBuffer} {pos pos' : Nat} (h : LineAt σ p line pos) (h' : LineAt σ p line' pos') :
    line = line' ∧ pos = pos' := by
  obtain ⟨len, hline, rfl⟩ := h
  obtain ⟨len', hline', rfl⟩ := h'
  have hmore := lineBytes_more (((σ.drop p.pos).drop len).take len') hline
  have hmore' := lineBytes_more (((σ.drop p.pos).drop len').take len) hline'
  rw [← take_add] at hmore hmore'
  rw [Nat.add_comm len', hmore] at hmore'
  obtain ⟨rfl, hrest⟩ := Prod.mk.inj (Option.some.inj hmore')
  have hlen := congrArg List.length hrest
  rw [Stream'.length_take, Stream'.length_take] at hlen
  exact ⟨rfl, by rw [hlen]⟩

/-- The lines that the reader comes to have an end, and they do not go on for ever. -/
def Finite (σ : Stream' UInt8) (p : Point) : Prop :=
  (∀ q, Relation.ReflTransGen (Leads σ) p q → HasEnd σ q) ∧ ¬ ∃ f : Nat → Point, f 0 = p ∧ ∀ n, Leads σ (f n) (f (n + 1))

theorem finite_iff : Finite σ p ↔
    (∀ q, Relation.ReflTransGen (Leads σ) p q → HasEnd σ q) ∧ Acc (fun q p => Leads σ p q) p := by
  have hchain := not_acc_iff_exists_descending_chain (r := fun q p => Leads σ p q) (x := p)
  exact and_congr_right fun _ => (not_congr hchain).symm.trans not_not

/-- Where the lines do not end, they do not from the next line on. -/
theorem exists_leads (h : ¬ Finite σ p) (hend : HasEnd σ p) : ∃ q, Leads σ p q ∧ ¬ Finite σ q := by
  rw [finite_iff, not_and_or] at h
  rcases h with h | h
  · push Not at h
    obtain ⟨q, hreach, hq⟩ := h
    rcases Relation.ReflTransGen.cases_head hreach with rfl | ⟨r, hleads, hrest⟩
    · exact absurd hend hq
    · exact ⟨r, hleads, fun hr => hq (hr.1 q hrest)⟩
  · obtain ⟨q, hq, hleads⟩ := exists_not_acc_lt_of_not_acc h
    exact ⟨q, hleads, fun hr => hq (finite_iff.1 hr).2⟩

/-- A line of a body in chunks; the one behind the last chunk is none of them. -/
def InChunks (p : Point) : Prop := p.place = .size ∨ p.place = .eol true

theorem Leads.inChunks {r : Point} (h : Leads σ p q) (hnext : Leads σ q r) (hp : InChunks p) : InChunks q := by
  obtain ⟨line, pos, -, h⟩ := h
  obtain ⟨line', pos', -, hnext⟩ := hnext
  obtain ⟨place, buffer, start⟩ := p
  rcases hp with hp | hp
  · cases hp
    rcases next_cases h with ⟨hplace, -⟩ | ⟨_, hplace, -⟩ | ⟨_, _, hplace, -⟩ | ⟨size, -, -, -, rfl⟩ | ⟨hplace, -⟩
    · cases hplace
    · cases hplace
    · cases hplace
    · rcases next_cases hnext with ⟨hplace, -⟩ | ⟨_, hplace, -⟩ | ⟨_, _, hplace, -⟩ | ⟨_, hplace, -⟩ | ⟨hplace, -⟩
      · cases hplace
      · cases hplace
      · cases hplace
      · cases hplace
      · exact .inr hplace
    · cases hplace
  · cases hp
    rcases next_cases h with ⟨hplace, -⟩ | ⟨_, hplace, -⟩ | ⟨_, _, hplace, -⟩ | ⟨_, hplace, -⟩ | ⟨-, -, rfl⟩
    · cases hplace
    · cases hplace
    · cases hplace
    · cases hplace
    · exact .inl rfl

/-- Lines that go on for ever are header lines, or those of a body in chunks. -/
theorem forever_kinds {f : Nat → Point} (h : ∀ n, Leads σ (f n) (f (n + 1))) :
    (∀ n, ∃ headers, (f (n + 1)).place = .header headers) ∨ ∃ m, ∀ n, m ≤ n → InChunks (f n) := by
  by_cases hchunks : ∃ m, InChunks (f m)
  · obtain ⟨m, hm⟩ := hchunks
    refine .inr ⟨m, fun n hn => ?_⟩
    induction n, hn using Nat.le_induction with
    | base => exact hm
    | succ n hn ih => exact (h n).inChunks (h (n + 1)) ih
  · refine .inl fun n => ?_
    have hnone : ∀ k, ¬ InChunks (f k) := fun k hk => hchunks ⟨k, hk⟩
    obtain ⟨line, pos, -, hnext⟩ := h n
    rcases next_cases hnext with ⟨-, hq⟩ | ⟨_, -, -, -, hq⟩ | ⟨_, headers, -, -, -, hq⟩ | ⟨size, hplace, -⟩ | ⟨hplace, -⟩
    · exact ⟨.empty, by rw [hq]⟩
    · exact absurd (.inl (by rw [hq])) (hnone (n + 1))
    · exact ⟨headers, by rw [hq]⟩
    · exact absurd (.inl hplace) (hnone n)
    · exact absurd (.inr hplace) (hnone n)

variable {lib : DateLib} {zlib : Zlib}

/-- When the lines end, the reader does: by induction on the lines that are still to come. -/
theorem ends_of_finite (h : Finite σ p) : EndsOn p.Inv (p.program lib zlib) (σ.drop p.pos) := by
  obtain ⟨hend, hacc⟩ := finite_iff.1 h
  clear h
  induction hacc with
  | intro p hbelow ih =>
    obtain ⟨line, pos, hat⟩ := hasEnd_iff.1 (hend p Relation.ReflTransGen.refl)
    have hleads : ∀ q, p.next line pos = some q → Leads σ p q := fun q hq => ⟨line, pos, hat, hq⟩
    obtain ⟨len, hline, rfl⟩ := hat
    cases hnext : p.next line (p.pos + len) with
    | none =>
      obtain ⟨n, hn⟩ := line_stop hline hnext ((σ.drop p.pos).drop len)
      exact ⟨len + n, by rw [take_add]; exact hn⟩
    | some q =>
      obtain ⟨n, hn⟩ := ih q (hleads q hnext) fun r hr => hend r (Relation.ReflTransGen.head (hleads q hnext) hr)
      obtain ⟨k, hk⟩ := Nat.exists_eq_add_of_le (le_next hnext)
      have hstep := line_next lib zlib (c := ((σ.drop p.pos).drop len).take k) hline hnext
        (by rw [Stream'.length_take]; exact hk)
      have hdrop : (σ.drop p.pos).drop (len + k) = σ.drop q.pos := by rw [Stream'.drop_drop, hk, Nat.add_assoc]
      refine ⟨len + k + n, ?_⟩
      rw [take_add, take_add, hdrop]
      exact hstep.ends hn

/-- When they do not, the reader takes whatever arrives, and waits for more. -/
theorem starves_of_not_finite : ∀ (m : Nat) {p : Point}, ¬ Finite σ p →
    Starves p.Inv (p.program lib zlib) ((σ.drop p.pos).take m) := by
  intro m
  induction m using Nat.strongRecOn with
  | ind m ih =>
    intro p h
    cases hline : lineBytes (.start p.buffer) ((σ.drop p.pos).take m) with
    | none => exact line_none hline
    | some r =>
      obtain ⟨line, rest⟩ := r
      obtain ⟨a, ha, hpos, halone⟩ := lineBytes_alone hline
      -- the bytes behind the line
      have hlen := congrArg List.length ha
      rw [Stream'.length_take, List.length_append] at hlen
      have hsplit := take_add rest.length a.length (σ.drop p.pos)
      rw [← hlen, ha] at hsplit
      obtain ⟨htake, hrest⟩ := List.append_inj hsplit (by rw [Stream'.length_take])
      have hat : LineAt σ p line (p.pos + a.length) := ⟨a.length, by rw [← htake]; exact halone, rfl⟩
      obtain ⟨q, ⟨line', pos, hat', hnext⟩, hq⟩ := exists_leads h (hasEnd_iff.2 ⟨line, _, hat⟩)
      obtain ⟨rfl, rfl⟩ := hat.unique hat'
      rw [ha]
      by_cases hshort : p.pos + a.length + rest.length < q.pos
      · exact line_short halone hnext hshort
      · obtain ⟨k, hk⟩ := Nat.exists_eq_add_of_le (le_next hnext)
        obtain ⟨n, hn⟩ := Nat.exists_eq_add_of_le (show k ≤ rest.length by omega)
        rw [hn, take_add, Stream'.drop_drop, Stream'.drop_drop, ← hk] at hrest
        rw [hrest, ← List.append_assoc]
        have hstep := line_next lib zlib (c := ((σ.drop p.pos).drop a.length).take k) halone hnext
          (by rw [Stream'.length_take]; exact hk)
        rw [Stream'.drop_drop] at hstep
        exact hstep.starves (ih n (by omega) hq)

end Point

/-! ## The start of the status line -/

/-- A status line is accepted up to its reason: the version, a blank and a status code. -/
def StatusStart (σ : Stream' UInt8) : Prop :=
  σ.take 8 = ascii "HTTP/1.1" ∧ (σ.drop 8).take 1 = ascii " " ∧ isStatusCode ((σ.drop 9).take 3) = true

/-- The line of the reason, behind such a start. -/
def Point.start : Point := { place := .reason, buffer := .ofCapacity 1024, pos := 12 }

section Start

variable {lib : DateLib} {zlib : Zlib} {σ : Stream' UInt8}

theorem recv_start (h : StatusStart σ) :
    Proceeds (Headed .empty) (fun _ => Answer.recv lib zlib) (σ.take 12) Point.start.Inv (Point.start.program lib zlib) := by
  obtain ⟨hversion, hspace, hdigits⟩ := h
  simp only [isStatusCode, Bool.and_eq_true, decide_eq_true_eq, List.all_eq_true] at hdigits
  obtain ⟨⟨⟨hlen, hall⟩, hlow⟩, hhigh⟩ := hdigits
  have htake : σ.take 12 = ascii "HTTP/1.1" ++ (ascii " " ++ (σ.drop 9).take 3) := by
    rw [← hversion, ← hspace]
    exact (take_add 4 8 σ).trans (congrArg _ (take_add 3 1 _))
  intro n tail s b hs harr hn
  rw [htake, List.append_assoc, List.append_assoc] at harr
  obtain ⟨t, hrun, harr', ht⟩ := readControlData_start hlen hall hlow hhigh harr
  refine ⟨b.length + 1, t, Run.bind_congr hrun, ⟨rfl, ?_⟩, harr', Nat.lt_succ_self _⟩
  rw [ht]
  exact hs

theorem readBuffer_take {I : Answer → Prop} (n : Nat) (σ : Stream' UInt8) :
    Consumes I (Answer.readBuffer n) (σ.take n) fun v ans => v = some (σ.take n) ∧ I ans := by
  have hread : Consumes I (Answer.readBuffer (σ.take n).length) (σ.take n) _ := Consumes.readBuffer
  rwa [Stream'.length_take] at hread

theorem readStatusCode_reads_nothing : ∀ (digits : Bytes) (s : Receiver),
    ∃ status t, Answer.readStatusCode digits s = .ok status t ∧ t.incoming = s.incoming
  | [], s => ⟨_, s, rfl, rfl⟩
  | c :: digits, s => by
    unfold Answer.readStatusCode
    split
    · exact readStatusCode_reads_nothing digits { s with answer := _ }
    · exact ⟨_, s, rfl, rfl⟩

theorem readStatusCode_refused {digits : Bytes} (hlen : digits.length = 3) (h : isStatusCode digits ≠ true) :
    Consumes (fun ans => ans.statusCode = 0) (Answer.readStatusCode digits) [] fun status _ => status ≠ .errNone := by
  intro tail s b hs harr
  obtain ⟨status, t, hrun, hincoming⟩ := readStatusCode_reads_nothing digits s
  refine ⟨status, t, hrun, ?_, hincoming ▸ harr⟩
  rintro rfl
  obtain ⟨hall, hlow, hhigh, -⟩ := readStatusCode_ok hrun
  rw [hs] at hlow hhigh
  apply h
  simp only [isStatusCode, Bool.and_eq_true, decide_eq_true_eq, List.all_eq_true]
  exact ⟨⟨⟨hlen, hall⟩, hlow⟩, hhigh⟩

/-- Another start is refused. -/
theorem readControlData_refused (h : ¬ StatusStart σ) :
    ∃ n, Consumes (fun _ => True) Answer.readControlData (σ.take n) fun status _ => status ≠ .errNone := by
  unfold Answer.readControlData
  have hset : Consumes (fun _ => True) (Answer.modifyAnswer fun a =>
      { a with statusCode := defaultCode, reasonPhrase := defaultReason }) [] fun _ _ => True :=
    Consumes.modifyAnswer fun _ _ => trivial
  by_cases hversion : σ.take 8 = ascii "HTTP/1.1"
  swap
  · refine ⟨8 + 0, ?_⟩
    rw [take_add, Stream'.take_zero]
    refine Consumes.bind (a := []) hset fun _ => Consumes.bind_eq (readBuffer_take 8 σ) ?_
    simp only [ne_eq, hversion, not_false_eq_true, if_true]
    exact Consumes.pure fun _ _ => by decide
  by_cases hspace : (σ.drop 8).take 1 = ascii " "
  swap
  · refine ⟨8 + (1 + 0), ?_⟩
    rw [take_add, take_add, Stream'.take_zero]
    refine Consumes.bind (a := []) hset fun _ => Consumes.bind_eq (readBuffer_take 8 σ) ?_
    simp only [ne_eq, hversion, not_true_eq_false, if_false]
    refine Consumes.bind_eq (readBuffer_take 1 (σ.drop 8)) ?_
    simp only [hspace, not_false_eq_true, if_true]
    exact Consumes.pure fun _ _ => by decide
  have hdigits : isStatusCode ((σ.drop 9).take 3) ≠ true := fun hdigits => h ⟨hversion, hspace, hdigits⟩
  refine ⟨8 + (1 + (3 + 0)), ?_⟩
  rw [take_add, take_add, take_add, Stream'.take_zero]
  refine Consumes.bind (a := []) hset fun _ => Consumes.bind_eq (readBuffer_take 8 σ) ?_
  simp only [ne_eq, hversion, not_true_eq_false, if_false]
  refine Consumes.bind_eq (readBuffer_take 1 (σ.drop 8)) ?_
  simp only [hspace, not_true_eq_false, if_false]
  refine Consumes.bind_eq (readBuffer_take 3 (σ.drop 9)) ?_
  have hreset : Consumes (fun _ => True) (Answer.modifyAnswer fun a => { a with statusCode := 0 }) []
      fun _ ans => ans.statusCode = 0 := Consumes.modifyAnswer fun _ _ => rfl
  refine Consumes.bind (a := []) hreset fun _ => ?_
  refine Consumes.bind (a := []) (readStatusCode_refused (Stream'.length_take ..) hdigits) fun status => ?_
  intro tail s b hs harr
  rw [if_pos hs]
  exact ⟨status, s, rfl, hs, harr⟩

theorem recv_refused (h : ¬ StatusStart σ) : EndsOn (Headed .empty) (fun _ => Answer.recv lib zlib) σ := by
  obtain ⟨n, hcontrol⟩ := readControlData_refused h
  refine ⟨n, fun _ tail s b _ harr _ => ?_⟩
  obtain ⟨status, t, hrun, hstatus, harr'⟩ := hcontrol tail s b trivial harr
  show Arrives tail (Run.endState ((Answer.readControlData >>= afterReason lib zlib) s)).incoming b
  rw [Run.bind_ok hrun]
  unfold afterReason
  rw [if_pos hstatus]
  exact harr'

/-- The reader takes whatever arrives of a stream that it does not come to the end of. -/
theorem recv_starves (h : StatusStart σ) (hlines : ¬ Point.Finite σ .start) (m : Nat) :
    Starves (Headed .empty) (fun _ => Answer.recv lib zlib) (σ.take (12 + m)) := by
  rw [take_add]
  exact (recv_start h).starves (Point.starves_of_not_finite m hlines)

theorem recv_ends (h : StatusStart σ → Point.Finite σ .start) : EndsOn (Headed .empty) (fun _ => Answer.recv lib zlib) σ := by
  by_cases hstart : StatusStart σ
  · obtain ⟨n, hn⟩ := Point.ends_of_finite (h hstart)
    refine ⟨12 + n, ?_⟩
    rw [take_add]
    exact (recv_start hstart).ends hn
  · exact recv_refused hstart

/-- With the bytes of the stream always there, the program ends after some of them, whatever comes behind these. -/
def EndsReady {α : Type} (I : Answer → Prop) (x : AnswerM α) (σ : Stream' UInt8) : Prop :=
  ∃ n, ∀ k tail s, I s.answer → s.incoming = keepData (σ.take (n + k)) tail →
    Arrives tail (Run.endState (x s)).incoming ((σ.drop n).take k)

theorem EndsOn.ready {α : Type} {I : Answer → Prop} {x : AnswerM α} (h : EndsOn I (fun _ => x) σ) : EndsReady I x σ := by
  obtain ⟨n, hn⟩ := h
  refine ⟨n, fun k tail s hs hincoming => ?_⟩
  have harr := arrives_keepData (.done : Arrives tail tail []) (σ.take (n + k))
  rw [List.append_nil, take_add] at harr
  rw [take_add] at hincoming
  exact hn _ tail s _ hs (hincoming ▸ harr) (Nat.lt_succ_self _)

theorem not_endsReady (h : StatusStart σ) (hlines : ¬ Point.Finite σ .start) :
    ¬ EndsReady (Headed .empty) (Answer.recv lib zlib) σ := by
  rintro ⟨n, hn⟩
  -- of twelve bytes more it takes all, though it has come to its end in front of them
  let s : Receiver := { answer := .new, incoming := keepData (σ.take (n + 12)) [], env := .still }
  have hleft := hn 12 [] s ⟨rfl, rfl⟩ rfl
  have harr := arrives_keepData (.done : Arrives [] [] []) (σ.take (n + 12))
  rw [List.append_nil] at harr
  have hmore : Starves (Headed .empty) (fun _ => Answer.recv lib zlib) (σ.take (12 + n)) := recv_starves h hlines n
  rw [Nat.add_comm] at hmore
  obtain ⟨e, t, hrun, hav⟩ := hmore _ s ⟨rfl, rfl⟩ harr (Nat.lt_succ_self _)
  have hrun : Answer.recv lib zlib s = .error e t := hrun
  rw [hrun] at hleft
  have hlen := congrArg List.length ((available_arrives .nil hleft).symm.trans hav)
  rw [Stream'.length_take] at hlen
  cases hlen

/-- `recv` ends on a stream exactly when it refuses the start of it, or the lines behind the start end. -/
theorem recv_ends_iff (lib : DateLib) (zlib : Zlib) (σ : Stream' UInt8) :
    EndsReady (Headed .empty) (Answer.recv lib zlib) σ ↔ (StatusStart σ → Point.Finite σ .start) := by
  constructor
  · intro h hstart
    by_contra hlines
    exact not_endsReady hstart hlines h
  · exact fun h => (recv_ends h).ready

end Start

/-- A status line whose reason goes on for ever. -/
def endlessReason : Stream' UInt8 := Stream'.appendStream' (ascii "HTTP/1.1 200") (Stream'.const 97)

theorem recv_endlessReason : ¬ EndsReady (Headed .empty) (Answer.recv noDates noZlib) endlessReason := by
  have hend : ¬ Point.HasEnd endlessReason .start := by
    rintro ⟨i, j, hi, -, hcr, -⟩
    obtain ⟨k, rfl⟩ : ∃ k, i = 12 + k := Nat.exists_eq_add_of_le hi
    rw [← Stream'.get_drop, show endlessReason.drop 12 = Stream'.const 97 from Stream'.drop_append_stream _ _] at hcr
    cases hcr
  apply not_endsReady
  · exact ⟨by decide, by decide, by decide⟩
  · exact fun h => hend (h.1 .start Relation.ReflTransGen.refl)

end FortiRdp.Http
