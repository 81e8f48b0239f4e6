/-
When a program that reads ends. It ends after bytes when it takes exactly these, whatever comes after them;
it starves on bytes when it takes all of them and asks for more, which never comes; and it proceeds to
another program when it takes bytes and then does what that program does. The programs may have fuel: a
number beyond the bytes there are.
-/
import FortiRdp.Http.BodyOutcome
import Mathlib.Data.Stream.Init

namespace FortiRdp.Http

open Util Net
open Answer (Line)

/-- The program ends and has taken the bytes `a`, and nothing of what comes after them. -/
def EndsAfter {α : Type} (I : Answer → Prop) (x : Nat → AnswerM α) (a : Bytes) : Prop :=
  ∀ n tail s b, I s.answer → Arrives tail s.incoming (a ++ b) → (a ++ b).length < n →
    Arrives tail (Run.endState (x n s)).incoming b

/-- When nothing comes after the bytes `a`, the program waits for more until the time is over. -/
def Starves {α : Type} (I : Answer → Prop) (x : Nat → AnswerM α) (a : Bytes) : Prop :=
  ∀ n s, I s.answer → Arrives [] s.incoming a → a.length < n → ∃ e s', x n s = .error e s' ∧ available s'.incoming = []

/-- The program takes the bytes `a`, and goes on like the other one. -/
def Proceeds {α : Type} (I : Answer → Prop) (x : Nat → AnswerM α) (a : Bytes) (J : Answer → Prop) (y : Nat → AnswerM α) :
    Prop :=
  ∀ n tail s b, I s.answer → Arrives tail s.incoming (a ++ b) → (a ++ b).length < n →
    ∃ m s', x n s = y m s' ∧ J s'.answer ∧ Arrives tail s'.incoming b ∧ b.length < m

section Rules

variable {α β : Type} {I J : Answer → Prop} {a c : Bytes}

theorem Proceeds.ends {x y : Nat → AnswerM α} (h : Proceeds I x a J y) (hy : EndsAfter J y c) : EndsAfter I x (a ++ c) := by
  intro n tail s b hs harr hn
  rw [List.append_assoc] at harr hn
  obtain ⟨m, s', hrun, hs', harr', hm⟩ := h n tail s (c ++ b) hs harr hn
  rw [hrun]
  exact hy m tail s' b hs' harr' hm

theorem Proceeds.starves {x y : Nat → AnswerM α} (h : Proceeds I x a J y) (hy : Starves J y c) : Starves I x (a ++ c) := by
  intro n s hs harr hn
  obtain ⟨m, s', hrun, hs', harr', hm⟩ := h n [] s c hs harr hn
  rw [hrun]
  exact hy m s' hs' harr' hm

namespace EndsAfter

theorem pure {v : α} : EndsAfter I (fun _ => Pure.pure v) [] := fun _ _ _ _ _ harr _ => harr

theorem throw {e : Exn} : EndsAfter I (fun _ => (throw e : AnswerM α)) [] := fun _ _ _ _ _ harr _ => harr

/-- A first part that returns one value. -/
theorem after {x : AnswerM α} {f : Nat → α → AnswerM β} {v : α} (hx : Consumes I x a fun w ans => w = v ∧ J ans)
    (hf : EndsAfter J (fun n => f n v) c) : EndsAfter I (fun n => x >>= f n) (a ++ c) := by
  intro n tail s b hs harr hn
  rw [List.append_assoc] at harr hn
  obtain ⟨w, t, hrun, ⟨rfl, ht⟩, harr'⟩ := hx tail s (c ++ b) hs harr
  show Arrives tail (Run.endState ((x >>= f n) s)).incoming b
  rw [Run.bind_ok hrun]
  refine hf n tail t b ht harr' ?_
  rw [List.length_append] at hn
  omega

/-- What follows reads nothing. -/
theorem bind {x : Nat → AnswerM α} {f : α → AnswerM β} (hx : EndsAfter I x a)
    (hf : ∀ v, EndsAfter (fun _ => True) (fun _ => f v) []) : EndsAfter I (fun n => x n >>= f) a := by
  intro n tail s b hs harr hn
  have h := hx n tail s b hs harr hn
  show Arrives tail (Run.endState ((x n >>= f) s)).incoming b
  cases hrun : x n s with
  | error e t =>
    rw [hrun] at h
    rw [Run.bind_error hrun]
    exact h
  | ok v t =>
    rw [hrun] at h
    rw [Run.bind_ok hrun]
    exact hf v (b.length + 1) tail t b trivial h (Nat.lt_succ_self _)

/-- The fuel is taken from the stream. -/
theorem fuel {x : Nat → AnswerM α} (hx : EndsAfter I x a) :
    EndsAfter I (fun _ => MonadState.get >>= fun s => x (bytesLeft s.incoming + 1)) a := by
  intro n tail s b hs harr hn
  exact hx (bytesLeft s.incoming + 1) tail s b hs harr (Nat.lt_succ_of_le (arrives_bytesLeft harr))

end EndsAfter

namespace Starves

theorem of_self {x : Nat → AnswerM α} (h : ∀ p, I p → Starves (· = p) x a) : Starves I x a :=
  fun n s hs harr hn => h s.answer hs n s rfl harr hn

theorem bind {x : Nat → AnswerM α} {f : Nat → α → AnswerM β} (hx : Starves I x a) :
    Starves I (fun n => x n >>= f n) a := by
  intro n s hs harr hn
  obtain ⟨e, s', hrun, hav⟩ := hx n s hs harr hn
  exact ⟨e, s', Run.bind_error hrun, hav⟩

theorem after {x : AnswerM α} {f : Nat → α → AnswerM β} {v : α} (hx : Consumes I x a fun w ans => w = v ∧ J ans)
    (hf : Starves J (fun n => f n v) c) : Starves I (fun n => x >>= f n) (a ++ c) := by
  intro n s hs harr hn
  obtain ⟨w, t, hrun, ⟨rfl, ht⟩, harr'⟩ := hx [] s c hs harr
  show ∃ e s', (x >>= f n) s = _ ∧ _
  rw [Run.bind_ok hrun]
  refine hf n t ht harr' ?_
  rw [List.length_append] at hn
  omega

theorem fuel {x : Nat → AnswerM α} (hx : Starves I x a) :
    Starves I (fun _ => MonadState.get >>= fun s => x (bytesLeft s.incoming + 1)) a := by
  intro n s hs harr hn
  exact hx (bytesLeft s.incoming + 1) s hs harr (Nat.lt_succ_of_le (arrives_bytesLeft harr))

/-- A round that takes bytes and goes on. -/
theorem more {body : β → AnswerM (β ⊕ α)} {b b' : β} (hpos : 0 < a.length)
    (h : Consumes I (body b) a fun r ans => r = .inl b' ∧ J ans)
    (hn : Starves J (fun n => Run.iterate .exhausted body n b') c) :
    Starves I (fun n => Run.iterate .exhausted body n b) (a ++ c) := by
  intro n s hs harr hlen
  rw [List.length_append] at hlen
  obtain ⟨n, rfl⟩ : ∃ m, n = m + 1 := ⟨n - 1, by omega⟩
  obtain ⟨w, t, hrun, ⟨rfl, ht⟩, harr'⟩ := h [] s c hs harr
  show ∃ e s', Run.iterate .exhausted body (n + 1) b s = _ ∧ _
  rw [Run.iterate_more hrun]
  exact hn n t ht harr' (by omega)

/-- A round that starves. -/
theorem last {body : β → AnswerM (β ⊕ α)} {b : β} (h : Starves I (fun _ => body b) a) :
    Starves I (fun n => Run.iterate .exhausted body n b) a := by
  intro n s hs harr hlen
  obtain ⟨n, rfl⟩ : ∃ m, n = m + 1 := ⟨n - 1, by omega⟩
  obtain ⟨e, s', hrun, hav⟩ := h (a.length + 1) s hs harr (Nat.lt_succ_self _)
  exact ⟨e, s', Run.iterate_error hrun, hav⟩

end Starves

end Rules

/-! ## The parts of an answer -/

theorem readLoop_starves {segs : List Seg} {bytes : Bytes} (h : Arrives [] segs bytes) (len : Nat) (got : Bytes)
    (hlen : bytes.length < len) :
    (readLoop segs len got).1.code = .netctxRcvError ∧ (readLoop segs len got).2.2 = [] := by
  obtain ⟨n, got', hbehind⟩ := readLoop_behind h len got hlen
  rw [hbehind]
  exact ⟨rfl, rfl⟩

section Parts

variable {I : Answer → Prop}

theorem readBuffer_starves {a : Bytes} {len : Nat} (h : a.length < len) : Starves I (fun _ => Answer.readBuffer len) a := by
  intro n s _ harr _
  obtain ⟨hcode, hleft⟩ := readLoop_starves harr len [] h
  unfold Answer.readBuffer tcpRead
  simp only [hcode, hleft]
  exact ⟨_, _, rfl, rfl⟩

theorem readLine_rest_starves : ∀ {a : Bytes} {l : Line}, lineBytes l a = none →
    Starves I (fun n => Run.iterate .exhausted Answer.readLineStep n l) a
  | [], l, _ => by
    refine Starves.last (Starves.bind (f := fun _ => _) (Starves.bind (f := fun _ => _) ?_))
    exact readBuffer_starves Nat.one_pos
  | c :: a, l, h => by
    have hround := readLineStep_consumes I l c
    rw [lineBytes] at h
    cases hnext : l.next c with
    | inl l' =>
      rw [hnext] at h hround
      exact Starves.more (a := [c]) Nat.one_pos hround (readLine_rest_starves h)
    | inr buffer =>
      rw [hnext] at h
      cases h

/-- A line without an end. -/
theorem readLine_starves {a : Bytes} {buffer : ByteBuffer} (h : lineBytes (.start buffer) a = none) :
    Starves I (fun _ => Answer.readLine buffer) a :=
  (readLine_rest_starves h).fuel

theorem readBody_rest_starves {p : Answer} {maxSize : Nat} (hmax : maxSize < 2 ^ 64) : ∀ (size : Nat) (a d : Bytes),
    a.length < size → d.length ≤ maxSize →
      Starves (BodyIs p d) (fun n => Run.iterate .exhausted (Answer.readBodyStep maxSize) n size) a := by
  intro size
  induction size using Nat.strongRecOn with
  | ind size ih =>
    intro a d hsize hd
    by_cases hshort : a.length < min size 4096
    · exact Starves.last (Starves.bind (f := fun _ => _) (readBuffer_starves hshort))
    · have hlen : (a.take 4096).length = min size 4096 := by
        rw [List.length_take]
        omega
      have hround := readBodyStep_consumes (p := p) hmax hlen hd
      rw [if_pos (by omega)] at hround
      have hrest := ih (size - min size 4096) (by omega) (a.drop 4096) ((d ++ a.take 4096).take maxSize)
        (by rw [List.length_drop]; omega) (by rw [List.length_take]; omega)
      have hrun := Starves.more (by rw [hlen]; omega) hround hrest
      rwa [List.take_append_drop] at hrun

/-- A body of which a part is missing. -/
theorem readBody_starves {a : Bytes} {size : Nat} (hsize : a.length < size) :
    Starves (fun ans => ans.body.bytes.length ≤ maxBodySize) (fun _ => Answer.readBody size maxBodySize) a := by
  refine Starves.of_self fun p hp => ?_
  rintro n s rfl harr hn
  exact readBody_rest_starves (p := s.answer) maxBodySize_lt size a _ hsize hp (size + 1) s (bodyIs_self _) harr (by omega)

end Parts

/-! ## Bodies of known length -/

theorem take_add {α : Type} (n : Nat) : ∀ (m : Nat) (σ : Stream' α), σ.take (m + n) = σ.take m ++ (σ.drop m).take n
  | 0, σ => by rw [Nat.zero_add, Stream'.take_zero, List.nil_append, Stream'.drop_zero]
  | m + 1, σ => by
    rw [Nat.succ_add, Stream'.take_succ, Stream'.take_succ, take_add n m, Stream'.drop_succ, List.cons_append]

/-- The program ends somewhere in the stream. -/
def EndsOn {α : Type} (I : Answer → Prop) (x : Nat → AnswerM α) (σ : Stream' UInt8) : Prop := ∃ n, EndsAfter I x (σ.take n)

section Bodies

variable {zlib : Zlib} {maxSize : Nat}

/-- A compressed body ends with its size at the latest, whatever the decompressor answers. -/
theorem readGzipBody_rest_ends (n : Nat) : ∀ (strm : zlib.Stream) (size : Nat) (σ : Stream' UInt8), size < n →
    EndsOn (fun _ => True) (fun _ => Run.iterate .exhausted (Answer.readGzipBodyStep zlib maxSize) n (strm, size)) σ := by
  induction n with
  | zero =>
    intro strm size σ hn
    exact absurd hn (Nat.not_lt_zero _)
  | succ n ih =>
    intro strm size σ hn
    have hlen : (σ.take (min size 1024)).length = min size 1024 := Stream'.length_take ..
    have hread : Consumes (fun _ => True) (Answer.readBuffer (min size 1024)) (σ.take (min size 1024)) _ :=
      hlen ▸ Consumes.readBuffer
    have hinflate := inflate_loop maxSize (zlib.left strm (σ.take (min size 1024)) + 1) strm
      (σ.take (min size 1024))
    -- the round, up to what the decompressor says
    have hround : ∀ tail s b, Arrives tail s.incoming (σ.take (min size 1024) ++ b) → ∃ t, Arrives tail t.incoming b ∧
        Answer.readGzipBodyStep zlib maxSize (strm, size) s = ((inflateAll zlib
          (zlib.left strm (σ.take (min size 1024)) + 1) strm (σ.take (min size 1024))).elim (.ok (.inr false) t)
          fun strm => if 0 < size - min size 1024 then .ok (.inl (strm, size - min size 1024)) t else .ok (.inr true) t) := by
      intro tail s b harr
      obtain ⟨v, u, hbuffer, ⟨rfl, -⟩, harr'⟩ := hread tail s b trivial harr
      obtain ⟨t, hloop, hincoming, -⟩ := hinflate u (Nat.lt_succ_self _)
      refine ⟨t, hincoming ▸ harr', ?_⟩
      have hstep : Answer.readGzipBodyStep zlib maxSize (strm, size) s = _ := Run.bind_ok hbuffer
      simp only at hstep
      rw [hstep, Run.bind_ok hloop]
      cases inflateAll zlib (zlib.left strm (σ.take (min size 1024)) + 1) strm (σ.take (min size 1024)) with
      | none => rfl
      | some strm' =>
        simp only [Option.elim_some]
        split
        · rfl
        · rfl
    cases hall : inflateAll zlib (zlib.left strm (σ.take (min size 1024)) + 1) strm (σ.take (min size 1024)) with
    | none =>
      refine ⟨min size 1024, fun k tail s b _ harr _ => ?_⟩
      obtain ⟨t, ht, hstep⟩ := hround tail s b harr
      rw [hall, Option.elim_none] at hstep
      show Arrives tail (Run.endState (Run.iterate _ _ _ _ s)).incoming b
      rw [Run.iterate_done hstep]
      exact ht
    | some strm' =>
      by_cases hmore : 0 < size - min size 1024
      · obtain ⟨m, hrest⟩ := ih strm' (size - min size 1024) (σ.drop (min size 1024)) (by omega)
        refine ⟨min size 1024 + m, fun k tail s b _ harr hk => ?_⟩
        rw [take_add, List.append_assoc] at harr hk
        obtain ⟨t, ht, hstep⟩ := hround tail s _ harr
        rw [hall, Option.elim_some, if_pos hmore] at hstep
        show Arrives tail (Run.endState (Run.iterate _ _ _ _ s)).incoming b
        rw [Run.iterate_more hstep]
        rw [List.length_append] at hk
        exact hrest k tail t b trivial ht (by omega)
      · refine ⟨min size 1024, fun k tail s b _ harr _ => ?_⟩
        obtain ⟨t, ht, hstep⟩ := hround tail s b harr
        rw [hall, Option.elim_some, if_neg hmore] at hstep
        show Arrives tail (Run.endState (Run.iterate _ _ _ _ s)).incoming b
        rw [Run.iterate_done hstep]
        exact ht

theorem readGzipBody_ends (size : Nat) (σ : Stream' UInt8) :
    EndsOn (fun _ => True) (fun _ => Answer.readGzipBody zlib size maxSize) σ := by
  unfold Answer.readGzipBody
  cases zlib.inflateInit2 with
  | none => exact ⟨0, EndsAfter.pure⟩
  | some strm => exact readGzipBody_rest_ends (size + 1) strm size σ (Nat.lt_succ_self _)

theorem readBody_ends {size : Nat} (hsize : 0 < size) (σ : Stream' UInt8) :
    EndsOn (fun ans => ans.body.bytes.length ≤ maxBodySize) (fun _ => Answer.readBody size maxBodySize) σ := by
  have hlen : (σ.take size).length = size := Stream'.length_take ..
  refine ⟨size, fun k tail s b hs harr _ => ?_⟩
  show Arrives tail (Run.endState (Answer.readBody size maxBodySize s)).incoming b
  have hread : Consumes (BodyIs s.answer s.answer.body.bytes) (Answer.readBody (σ.take size).length maxBodySize) _ _ :=
    readBody_take maxBodySize_lt (List.ne_nil_of_length_pos (by omega)) hs
  rw [hlen] at hread
  obtain ⟨v, t, hrun, -, harr'⟩ := hread tail s b (bodyIs_self _) harr
  rw [hrun]
  exact harr'

end Bodies

/-- The answer behind the head: its headers are known, and its body is empty. -/
def Headed (headers : StringMap) (ans : Answer) : Prop := ans.headers = headers ∧ ans.body.bytes = []

theorem readSized_ends (zlib : Zlib) (gzipContent : Bool) (headers : StringMap) (σ : Stream' UInt8) :
    EndsOn (Headed headers) (fun _ => Answer.readSized zlib gzipContent) σ := by
  -- where the length says that there is no body
  have hnone : ∀ {x : AnswerM Unit}, (∀ s, Headed headers s.answer → Answer.readSized zlib gzipContent s = x s) →
      EndsAfter (fun _ => True) (fun _ => x) [] → EndsOn (Headed headers) (fun _ => Answer.readSized zlib gzipContent) σ := by
    intro x hx hend
    refine ⟨0, fun k tail s b hs harr hk => ?_⟩
    show Arrives tail (Run.endState (Answer.readSized zlib gzipContent s)).incoming b
    rw [hx s hs]
    exact hend k tail s b trivial harr hk
  cases hlength : headers.getStr (ascii "Content-Length") with
  | none =>
    refine hnone (x := pure ()) (fun s hs => ?_) EndsAfter.pure
    unfold Answer.readSized
    rw [Run.get_bind, hs.1, hlength]
  | some length =>
    cases hsize : str2num length 10 0 maxBodySize with
    | none =>
      refine hnone (x := throw (statusError .errBodySize)) (fun s hs => ?_) EndsAfter.throw
      unfold Answer.readSized
      rw [Run.get_bind, hs.1, hlength]
      simp only [hsize]
    | some size =>
      by_cases hpos : 0 < size
      swap
      · refine hnone (x := pure ()) (fun s hs => ?_) EndsAfter.pure
        unfold Answer.readSized
        rw [Run.get_bind, hs.1, hlength]
        simp only [hsize, if_neg hpos]
      have hbody : EndsOn (fun ans => ans.body.bytes.length ≤ maxBodySize)
          (fun _ => if gzipContent then Answer.readGzipBody zlib size.toNat maxBodySize
            else Answer.readBody size.toNat maxBodySize) σ := by
        cases gzipContent with
        | true =>
          obtain ⟨n, hn⟩ := readGzipBody_ends size.toNat σ
          exact ⟨n, fun k tail s b _ => hn k tail s b trivial⟩
        | false => exact readBody_ends (by omega) σ
      obtain ⟨n, hn⟩ := hbody
      have hchecked := hn.bind (f := fun b => if !b then throw (statusError .errBody) else pure ()) fun b => by
        cases b with
        | true => exact EndsAfter.pure
        | false => exact EndsAfter.throw
      refine ⟨n, fun k tail s b hs harr hk => ?_⟩
      have hrun := hchecked k tail { s with answer := { s.answer with body := s.answer.body.reserve size.toNat } } b
        (by show s.answer.body.bytes.length ≤ _; rw [hs.2]; exact Nat.zero_le _) harr hk
      show Arrives tail (Run.endState (Answer.readSized zlib gzipContent s)).incoming b
      unfold Answer.readSized
      rw [Run.get_bind, hs.1, hlength]
      simp only [hsize, if_pos hpos]
      cases gzipContent with
      | true => exact hrun
      | false => exact hrun

/-- A body that is not in chunks ends, or is refused. -/
theorem recvBody_ends (zlib : Zlib) {headers : StringMap} (σ : Stream' UInt8)
    (h : ¬ (codingOf headers (ascii "Transfer-Encoding") = ascii "chunked" ∧
      codingOf headers (ascii "Content-Encoding") = [])) : EndsOn (Headed headers) (fun _ => recvBody zlib) σ := by
  -- what the codings decide is done without reading
  have hdecided : ∀ {x : AnswerM Unit}, (∀ s, Headed headers s.answer → recvBody zlib s = x s) →
      EndsOn (Headed headers) (fun _ => x) σ → EndsOn (Headed headers) (fun _ => recvBody zlib) σ := by
    rintro x hx ⟨n, hn⟩
    refine ⟨n, fun k tail s b hs harr hk => ?_⟩
    show Arrives tail (Run.endState (recvBody zlib s)).incoming b
    rw [hx s hs]
    exact hn k tail s b hs harr hk
  have hthrow (e : Exn) : EndsOn (Headed headers) (fun _ => (throw e : AnswerM Unit)) σ := ⟨0, EndsAfter.throw⟩
  -- the body once its two codings are known
  have hknown : ∀ (gzipContent : Bool) (s : Receiver), Headed headers s.answer →
      Answer.contentEncoding s = .ok gzipContent s → recvBody zlib s =
        (if codingOf headers (ascii "Transfer-Encoding") = ascii "chunked" then do
          if gzipContent then throw (statusError .errContentEncoding)
          Answer.readChunks
        else if codingOf headers (ascii "Transfer-Encoding") = [] then Answer.readSized zlib gzipContent
        else throw (statusError .errTransferEncoding) : AnswerM Unit) s := by
    intro gzipContent s hs hrun
    unfold recvBody
    rw [Run.bind_ok (transferEncoding_run s), Run.bind_ok hrun, hs.1]
  have hcontent (s : Receiver) (hs : Headed headers s.answer) := hs.1 ▸ contentEncoding_run s
  by_cases hempty : codingOf headers (ascii "Content-Encoding") = []
  · have hchunked : codingOf headers (ascii "Transfer-Encoding") ≠ ascii "chunked" := fun ht => h ⟨ht, hempty⟩
    have hbody := fun s hs => hknown false s hs ((hcontent s hs).trans (if_pos hempty))
    refine hdecided hbody ?_
    rw [if_neg hchunked]
    split
    · exact readSized_ends zlib false headers σ
    · exact hthrow _
  by_cases hgzip : codingOf headers (ascii "Content-Encoding") = ascii "gzip"
  · have hbody := fun s hs => hknown true s hs ((hcontent s hs).trans ((if_neg hempty).trans (if_pos hgzip)))
    refine hdecided hbody ?_
    split
    · exact hthrow _
    · split
      · exact readSized_ends zlib true headers σ
      · exact hthrow _
  · refine hdecided (x := throw (statusError .errContentEncoding)) (fun s hs => ?_) (hthrow _)
    unfold recvBody
    rw [Run.bind_ok (transferEncoding_run s)]
    exact Run.bind_error ((hcontent s hs).trans ((if_neg hempty).trans (if_neg hgzip)))

end FortiRdp.Http
