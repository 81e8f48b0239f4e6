/-
The numbers that frame a body: the size of a chunk and the content length. `str2num` takes what `strtol`
converts at the beginning of a text, so a text that is no number of the format is refused only when that
number happens to be out of range.
-/
import FortiRdp.Http.ChunkedBody
import FortiRdp.Http.LineReader

namespace FortiRdp.Http

open Util Net

/-! ## The formats -/

/-- The text of a chunk size: hexadecimal digits, and perhaps an extension after a semicolon. -/
def ChunkNumber (n : Nat) (text : Bytes) : Prop :=
  ∃ digits ext, text = digits ++ ext ∧ Numeral 16 n digits ∧ (ext = [] ∨ ext.head? = some 59)

/-- The text of a content length: decimal digits, with blanks around. -/
def LengthNumber (n : Nat) (text : Bytes) : Prop :=
  ∃ before digits after, text = before ++ (digits ++ after) ∧ Numeral 10 n digits ∧
    (∀ c ∈ before, isBlank c = true) ∧ ∀ c ∈ after, isBlank c = true

theorem ChunkNumber.leading {n : Nat} {text : Bytes} (h : ChunkNumber n text) : leadingNumber 16 text = n := by
  obtain ⟨digits, ext, rfl, hnum, hext⟩ := h
  refine leadingNumber_digits [] ext (fun _ hc => nomatch hc) hnum (by decide) ?_
  rcases hext with rfl | hext
  · exact nofun
  · rw [hext]
    rintro c ⟨⟩
    decide

theorem LengthNumber.leading {n : Nat} {text : Bytes} (h : LengthNumber n text) : leadingNumber 10 text = n := by
  obtain ⟨before, digits, after, rfl, hnum, hbefore, hafter⟩ := h
  have hblank : ∀ c, isBlank c = true → isspace c = true ∧ isalnum c = false := by
    intro c hc
    simp only [isBlank, Bool.or_eq_true, beq_iff_eq] at hc
    rcases hc with rfl | rfl <;> decide
  refine leadingNumber_digits before after (fun c hc => (hblank c (hbefore c hc)).1) hnum (by decide) ?_
  intro c hc
  exact (hblank c (hafter c (List.mem_of_mem_head? hc))).2

/-! ## How a number is used -/

/-- The number of the format is used when it is in range; with every other text the reading ends at once. -/
def ReadStrictly {ρ : Type} (Number : Nat → Bytes → Prop) (maxval : Nat) (text : Bytes) (use : Nat → ρ) (refused r : ρ) :
    Prop :=
  (∀ n, Number n text → n ≤ maxval → r = use n) ∧ ((∀ n, Number n text → maxval < n) → r = refused)

/-- The text is a number of the format, or the number that it begins with is out of range. -/
def Strict (Number : Nat → Bytes → Prop) (radix maxval : Nat) (text : Bytes) : Prop :=
  (∃ n, Number n text) ∨ ¬ (0 ≤ leadingNumber radix text ∧ leadingNumber radix text ≤ maxval)

section Use

variable {ρ : Type} {Number : Nat → Bytes → Prop} {radix maxval : Nat} {text : Bytes} {use : Nat → ρ} {refused r : ρ}

theorem readStrictly_iff (hnumber : ∀ n, Number n text → leadingNumber radix text = n) (hdiff : ∀ n, use n ≠ refused)
    (hrun : r = if 0 ≤ leadingNumber radix text ∧ leadingNumber radix text ≤ maxval then use (leadingNumber radix text).toNat
      else refused) : ReadStrictly Number maxval text use refused r ↔ Strict Number radix maxval text := by
  constructor
  · rintro ⟨-, hother⟩
    by_contra hnot
    unfold Strict at hnot
    push Not at hnot
    obtain ⟨hno, hpos, hle⟩ := hnot
    rw [if_pos ⟨hpos, hle⟩] at hrun
    exact hdiff _ (hrun.symm.trans (hother fun n hn => absurd hn (hno n)))
  · intro h
    constructor
    · intro n hn hle
      rw [hnumber n hn] at hrun
      rw [hrun, if_pos ⟨Int.natCast_nonneg n, Int.ofNat_le.2 hle⟩]
      rfl
    · intro hlarge
      rw [hrun, if_neg]
      rcases h with ⟨n, hn⟩ | hrange
      · have hlt := hlarge n hn
        rw [hnumber n hn]
        omega
      · exact hrange

end Use

/-! ## Chunk sizes -/

/-- What `recv` does with a chunk once it has its size. -/
def takeChunk (chunkSize : Nat) (buffer : ByteBuffer) : AnswerM (ByteBuffer ⊕ Unit) := do
  if 0 < chunkSize then
    if !(← Answer.readBody chunkSize maxBodySize) then throw (statusError .errBody)
  let (status, buffer) ← Answer.readLine buffer
  if status ≠ .errNone ∨ buffer.bytes ≠ [] then throw (statusError .errBody)
  if 0 < chunkSize then pure (.inl buffer)
  else pure (.inr ())

/-- What it throws then is not that the size is wrong. -/
theorem raises_takeChunk (chunkSize : Nat) (buffer : ByteBuffer) :
    Run.Raises (· ≠ statusError .errChunkSize) (takeChunk chunkSize buffer) := by
  have hmbed : ∀ rc, Exn.mbedError rc ≠ statusError .errChunkSize := fun _ h => nomatch h
  have hex : Exn.exhausted ≠ statusError .errChunkSize := fun h => nomatch h
  have hbody : statusError .errBody ≠ statusError .errChunkSize := by decide
  have heol : Run.Raises (· ≠ statusError .errChunkSize) (do
      let (status, buffer) ← Answer.readLine buffer
      if status ≠ .errNone ∨ buffer.bytes ≠ [] then throw (statusError .errBody)
      if 0 < chunkSize then pure (.inl buffer) else pure (.inr ()) : AnswerM (ByteBuffer ⊕ Unit)) :=
    Run.Raises.bind (raises_line hmbed hex buffer) fun v => Run.Raises.ite (Run.Raises.throw hbody)
      (Run.Raises.ite (Run.Raises.pure _) (Run.Raises.pure _))
  refine Run.Raises.ite (Run.Raises.bind (raises_body hmbed hex _ _) fun b => ?_) heol
  exact Run.Raises.ite (Run.Raises.throw hbody) heol

theorem readChunk_size {buffer line : ByteBuffer} {s s' : Receiver}
    (hline : Answer.readLine buffer s = .ok (.errNone, line) s') (hne : line.bytes ≠ []) :
    Answer.readChunk buffer s =
      if 0 ≤ leadingNumber 16 line.bytes ∧ leadingNumber 16 line.bytes ≤ maxChunkSize then
        takeChunk (leadingNumber 16 line.bytes).toNat line s'
      else .error (statusError .errChunkSize) s' := by
  unfold Answer.readChunk
  rw [Run.bind_ok hline]
  simp only [ne_eq, hne, not_true_eq_false, or_self, if_false]
  rw [str2num_leading line.bytes 16 (by decide) (by decide) (by decide)]
  split
  · rename_i hrange
    obtain ⟨n, hn⟩ := Int.eq_ofNat_of_zero_le hrange.1
    rw [hn]
    simp only [Int.natCast_pos, Int.toNat_natCast]
    rfl
  · rfl

/-- A chunk-size line is read strictly exactly when it is empty, or a number of the format, or begins with
a number that is out of range. -/
theorem chunk_strictly {buffer line : ByteBuffer} {s s' : Receiver}
    (hline : Answer.readLine buffer s = .ok (.errNone, line) s') :
    ReadStrictly ChunkNumber maxChunkSize line.bytes (fun n => takeChunk n line s') (.error (statusError .errChunkSize) s')
        (Answer.readChunk buffer s) ↔
      line.bytes = [] ∨ Strict ChunkNumber 16 maxChunkSize line.bytes := by
  by_cases hne : line.bytes = []
  · have hnone : ∀ n, ¬ ChunkNumber n line.bytes := by
      rintro n ⟨digits, ext, htext, hnum, -⟩
      rw [hne] at htext
      exact hnum.ne (List.append_eq_nil_iff.1 htext.symm).1
    have hrun : Answer.readChunk buffer s = .error (statusError .errChunkSize) s' := by
      unfold Answer.readChunk
      rw [Run.bind_ok hline]
      simp only [hne, or_true, if_true]
      rfl
    exact ⟨fun _ => .inl hne, fun _ => ⟨fun n hn => absurd hn (hnone n), fun _ => hrun⟩⟩
  · have hiff := readStrictly_iff (fun _ (hn : ChunkNumber _ _) => hn.leading)
      (fun n h => raises_takeChunk n line s' _ _ h rfl) (readChunk_size hline hne)
    rw [hiff]
    exact ⟨.inr, fun h => h.resolve_left hne⟩

/-! ## Content lengths -/

/-- What `recv` does once it has the content length. -/
def takeSized (zlib : Zlib) (gzipContent : Bool) (size : Nat) : AnswerM Unit := do
  if 0 < size then
    Answer.modifyAnswer fun a => { a with body := a.body.reserve size }
    let bodyAvailable ←
      if gzipContent then Answer.readGzipBody zlib size maxBodySize
      else Answer.readBody size maxBodySize
    if !bodyAvailable then throw (statusError .errBody)

theorem raises_takeSized (zlib : Zlib) (gzipContent : Bool) (size : Nat) :
    Run.Raises (· ≠ statusError .errBodySize) (takeSized zlib gzipContent size) := by
  have hmbed : ∀ rc, Exn.mbedError rc ≠ statusError .errBodySize := fun _ h => nomatch h
  have hex : Exn.exhausted ≠ statusError .errBodySize := fun h => nomatch h
  have hbody : statusError .errBody ≠ statusError .errBodySize := by decide
  refine Run.Raises.ite (Run.Raises.bind (Run.Raises.modify _) fun _ => ?_) (Run.Raises.pure _)
  cases gzipContent with
  | true =>
    exact Run.Raises.bind (raises_gzipBody hmbed hex zlib _ _) fun b =>
      Run.Raises.ite (Run.Raises.throw hbody) (Run.Raises.pure _)
  | false =>
    exact Run.Raises.bind (raises_body hmbed hex _ _) fun b => Run.Raises.ite (Run.Raises.throw hbody) (Run.Raises.pure _)

theorem readSized_size (zlib : Zlib) (gzipContent : Bool) {s : Receiver} {text : Bytes}
    (htext : s.answer.headers.getStr (ascii "Content-Length") = some text) :
    Answer.readSized zlib gzipContent s =
      if 0 ≤ leadingNumber 10 text ∧ leadingNumber 10 text ≤ maxBodySize then
        takeSized zlib gzipContent (leadingNumber 10 text).toNat s
      else .error (statusError .errBodySize) s := by
  unfold Answer.readSized
  rw [Run.get_bind, htext]
  simp only
  rw [str2num_leading text 10 (by decide) (by decide) (by decide)]
  split
  · rename_i hrange
    obtain ⟨n, hn⟩ := Int.eq_ofNat_of_zero_le hrange.1
    rw [hn]
    simp only [Int.natCast_pos, Int.toNat_natCast]
    rfl
  · rfl

theorem sized_strictly (zlib : Zlib) (gzipContent : Bool) {s : Receiver} {text : Bytes}
    (htext : s.answer.headers.getStr (ascii "Content-Length") = some text) :
    ReadStrictly LengthNumber maxBodySize text (fun n => takeSized zlib gzipContent n s)
        (.error (statusError .errBodySize) s) (Answer.readSized zlib gzipContent s) ↔
      Strict LengthNumber 10 maxBodySize text :=
  readStrictly_iff (fun _ hn => hn.leading) (fun n h => raises_takeSized zlib gzipContent n s _ _ h rfl)
    (readSized_size zlib gzipContent htext)

/-- Exactly which chunk-size lines and content lengths are read strictly. -/
theorem framing_exact (zlib : Zlib) (gzipContent : Bool) :
    (∀ buffer line s s', Answer.readLine buffer s = .ok (.errNone, line) s' →
      (ReadStrictly ChunkNumber maxChunkSize line.bytes (fun n => takeChunk n line s') (.error (statusError .errChunkSize) s')
          (Answer.readChunk buffer s) ↔
        line.bytes = [] ∨ Strict ChunkNumber 16 maxChunkSize line.bytes)) ∧
    ∀ s text, s.answer.headers.getStr (ascii "Content-Length") = some text →
      (ReadStrictly LengthNumber maxBodySize text (fun n => takeSized zlib gzipContent n s)
          (.error (statusError .errBodySize) s) (Answer.readSized zlib gzipContent s) ↔
        Strict LengthNumber 10 maxBodySize text) :=
  ⟨fun _ _ _ _ hline => chunk_strictly hline, fun _ _ htext => sized_strictly zlib gzipContent htext⟩

/-- A chunk-size line without a digit is read as the size 0: it ends the body. -/
theorem readChunk_no_digit : (∀ n, ¬ ChunkNumber n (ascii "g")) ∧
    ∃ line s', Answer.readLine (.ofCapacity maxLineSize) (.of (ascii "g\r\n\r\n")) = .ok (.errNone, line) s' ∧
      line.bytes = ascii "g" ∧
      Answer.readChunk (.ofCapacity maxLineSize) (.of (ascii "g\r\n\r\n")) = takeChunk 0 line s' ∧
      ¬ ReadStrictly ChunkNumber maxChunkSize line.bytes (fun n => takeChunk n line s')
        (.error (statusError .errChunkSize) s') (Answer.readChunk (.ofCapacity maxLineSize) (.of (ascii "g\r\n\r\n"))) := by
  have hno : ∀ n, ¬ ChunkNumber n (ascii "g") := by
    rintro n ⟨digits, ext, htext, hnum, -⟩
    obtain ⟨c, t, rfl⟩ := List.exists_cons_of_ne_nil hnum.ne
    obtain ⟨hc, -⟩ := List.cons.inj htext
    obtain ⟨d, hd, hlt⟩ := hnum.digits c (List.mem_cons_self ..)
    rw [← hc] at hd
    cases hd
    exact absurd hlt (by decide)
  have hlead : leadingNumber 16 (ascii "g") = 0 := by decide
  have hcr : 13 ∉ ascii "g" := by decide
  have hfit : (ascii "g").length ≤ (ByteBuffer.ofCapacity maxLineSize).capacity := by decide
  have hbytes : lineBytes (.start (.ofCapacity maxLineSize)) (available (Receiver.of (ascii "g\r\n\r\n")).incoming) =
      some (filled (.ofCapacity maxLineSize) (ascii "g") hfit, ascii "\r\n") :=
    lineBytes_filled (ascii "\r\n") hcr hfit
  obtain ⟨s', hline, -, -⟩ := readLine_exists hbytes
  refine ⟨hno, _, s', hline, rfl, ?_, ?_⟩
  · rw [readChunk_size hline (show ascii "g" ≠ [] by decide)]
    show (if 0 ≤ leadingNumber 16 (ascii "g") ∧ leadingNumber 16 (ascii "g") ≤ maxChunkSize then _ else _) = _
    rw [hlead]
    rfl
  · intro h
    rcases (chunk_strictly hline).1 h with h | ⟨n, hn⟩ | h
    · exact absurd h (show ascii "g" ≠ [] by decide)
    · exact hno n hn
    · exact h (show 0 ≤ leadingNumber 16 (ascii "g") ∧ leadingNumber 16 (ascii "g") ≤ maxChunkSize by decide)

end FortiRdp.Http
