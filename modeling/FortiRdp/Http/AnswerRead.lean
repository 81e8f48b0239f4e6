/-
How the reader takes its parts from a stream: a program that consumes `a` reads exactly these bytes, in
whatever pieces they arrive, and leaves what comes after them. On a stream that ends too early it does
not return what it would have read. Lines, headers and bodies are read this way.
-/
import FortiRdp.Http.Answer

namespace FortiRdp.Http

open Util Net
open Answer (Line)

/-- Started with `I`, the program returns with `R`, and it takes the bytes `a` from the stream. -/
def Consumes {α : Type} (I : Answer → Prop) (x : AnswerM α) (a : Bytes) (R : α → Answer → Prop) : Prop :=
  ∀ tail s b, I s.answer → Arrives tail s.incoming (a ++ b) →
    ∃ v s', x s = .ok v s' ∧ R v s'.answer ∧ Arrives tail s'.incoming b

theorem arrives_bytesLeft {tail segs : List Seg} {bytes : Bytes} (h : Arrives tail segs bytes) :
    bytes.length ≤ bytesLeft segs := by
  induction h with
  | done => exact Nat.zero_le _
  | data c d h ih =>
    rw [bytesLeft, List.length_append, List.length_cons]
    omega
  | retry rw rc h ih => exact ih

namespace Consumes

variable {α β : Type} {I I' J : Answer → Prop} {R : α → Answer → Prop}

theorem pure {v : α} (h : ∀ ans, I ans → R v ans) : Consumes I (Pure.pure v) [] R :=
  fun _ s _ hs harr => ⟨v, s, rfl, h _ hs, harr⟩

theorem bind {x : AnswerM α} {f : α → AnswerM β} {a c : Bytes} {R' : β → Answer → Prop}
    (hx : Consumes I x a R) (hf : ∀ v, Consumes (R v) (f v) c R') :
    Consumes I (x >>= f) (a ++ c) R' := by
  intro tail s b hs harr
  rw [List.append_assoc] at harr
  obtain ⟨v, s', hrun, hpost, harr'⟩ := hx tail s (c ++ b) hs harr
  rw [Run.bind_ok hrun]
  exact hf v tail s' b hpost harr'

/-- A first part that returns one value. -/
theorem bind_eq {x : AnswerM α} {f : α → AnswerM β} {a c : Bytes} {R' : β → Answer → Prop} {v : α}
    (hx : Consumes I x a fun w ans => w = v ∧ J ans) (hf : Consumes J (f v) c R') :
    Consumes I (x >>= f) (a ++ c) R' := by
  refine bind hx fun w tail s b hs harr => ?_
  obtain ⟨rfl, hs⟩ := hs
  exact hf tail s b hs harr

theorem consequence {x : AnswerM α} {a : Bytes} {R' : α → Answer → Prop} (h : Consumes I x a R)
    (hpre : ∀ ans, I' ans → I ans) (hpost : ∀ v ans, R v ans → R' v ans) : Consumes I' x a R' := by
  intro tail s b hs harr
  obtain ⟨v, s', hrun, hv, harr'⟩ := h tail s b (hpre _ hs) harr
  exact ⟨v, s', hrun, hpost v _ hv, harr'⟩

/-- What the program sees when it reads the state: the stream has at least the bytes it takes. -/
theorem get {f : Receiver → AnswerM α} {a : Bytes}
    (h : ∀ s, I s.answer → a.length ≤ bytesLeft s.incoming → Consumes (· = s.answer) (f s) a R) :
    Consumes I (MonadState.get >>= f) a R := by
  intro tail s b hs harr
  have hlen := arrives_bytesLeft harr
  rw [List.length_append] at hlen
  exact h s hs (by omega) tail s b rfl harr

theorem modifyAnswer {f : Answer → Answer} {R : Answer → Prop} (h : ∀ ans, I ans → R (f ans)) :
    Consumes I (Answer.modifyAnswer f) [] fun _ => R :=
  fun _ s _ hs harr => ⟨(), { s with answer := f s.answer }, rfl, h _ hs, harr⟩

theorem modify_bind {p : Answer} {f : Answer → Answer} {x : Unit → AnswerM α} {a : Bytes}
    (h : Consumes (· = f p) (x ()) a R) : Consumes (· = p) (Answer.modifyAnswer f >>= x) a R := by
  have hf : Consumes (· = p) (Answer.modifyAnswer f) [] fun _ => (· = f p) := modifyAnswer fun ans h => by rw [h]
  exact bind hf fun _ => h

/-- What the program asks the machine for may be any value with `Q`. -/
theorem onEnv_bind {x : EnvM β} {f : β → AnswerM α} {Q : β → Prop} {a : Bytes}
    (h : ∀ env, ∃ v env', x env = .ok v env' ∧ Q v) (hf : ∀ v, Q v → Consumes I (f v) a R) :
    Consumes I (Answer.onEnv x >>= f) a R := by
  intro tail s b hs harr
  obtain ⟨v, env', hrun, hv⟩ := h s.env
  have hzoom : Answer.onEnv x s = .ok v { s with env := env' } := by
    show Run.zoom _ _ x s = _
    unfold Run.zoom
    rw [hrun]
  rw [Run.bind_ok hzoom]
  exact hf v hv tail { s with env := env' } b hs harr

/-- What is computed without the state returns its value. -/
theorem except {x : Except Exn α} {v : α} (h : x = .ok v) :
    Consumes I (ofExcept x : AnswerM α) [] fun w ans => w = v ∧ I ans := by
  subst h
  exact pure fun ans hs => ⟨rfl, hs⟩

theorem readBuffer {a : Bytes} : Consumes I (Answer.readBuffer a.length) a fun v ans => v = some a ∧ I ans := by
  intro tail s b hs harr
  obtain ⟨segs, hread, harr'⟩ := tcpRead_arrives harr
  refine ⟨some a, { s with incoming := segs }, ?_, ⟨rfl, hs⟩, harr'⟩
  unfold Answer.readBuffer
  rw [hread]

theorem readByte {c : UInt8} : Consumes I Answer.readByte [c] fun v ans => v = some c ∧ I ans :=
  have h : Consumes I Answer.readByte ([c] ++ []) fun v ans => v = some c ∧ I ans :=
    bind_eq readBuffer (pure fun _ hs => ⟨rfl, hs⟩)
  h

/-! ### Loops -/

theorem more {body : β → AnswerM (β ⊕ α)} {b b' : β} {n : Nat} {a c : Bytes}
    (h : Consumes I (body b) a fun r ans => r = .inl b' ∧ J ans)
    (hn : Consumes J (Run.iterate .exhausted body n b') c R) :
    Consumes I (Run.iterate .exhausted body (n + 1) b) (a ++ c) R :=
  bind_eq h hn

theorem done {body : β → AnswerM (β ⊕ α)} {b : β} {n : Nat} {a : Bytes} {v : α}
    (h : Consumes I (body b) a fun r ans => r = .inr v ∧ J ans) :
    Consumes I (Run.iterate .exhausted body (n + 1) b) a fun w ans => w = v ∧ J ans := by
  rw [← List.append_nil a]
  exact bind_eq h (pure fun _ hs => ⟨rfl, hs⟩)

end Consumes

/-- On a stream that ends after `a`, the program returns only values with `Q`. -/
def Yields {α : Type} (I : Answer → Prop) (x : AnswerM α) (a : Bytes) (Q : α → Prop) : Prop :=
  ∀ tail s, I s.answer → Dead tail → Arrives tail s.incoming a → ∀ v s', x s = .ok v s' → Q v

namespace Yields

variable {α β : Type} {I J : Answer → Prop} {Q : α → Prop} {a : Bytes}

theorem pure {v : α} (h : Q v) : Yields I (Pure.pure v) a Q := by
  intro tail s _ _ _ w s' hrun
  cases hrun
  exact h

theorem throw {e : Exn} : Yields I (throw e : AnswerM α) a Q := by
  intro tail s _ _ _ w s' hrun
  cases hrun

/-- The stream ends within the first part. -/
theorem bind {x : AnswerM β} {f : β → AnswerM α} {P : β → Prop} (hx : Yields I x a P)
    (hf : ∀ v s w s', P v → f v s = .ok w s' → Q w) : Yields I (x >>= f) a Q := by
  intro tail s hs hdead harr w s' hrun
  obtain ⟨v, t, hfirst, hrun⟩ := Run.bind_eq_ok hrun
  exact hf v t w s' (hx tail s hs hdead harr v t hfirst) hrun

/-- The stream ends after the first part. -/
theorem after {x : AnswerM β} {f : β → AnswerM α} {c : Bytes} {v : β}
    (hx : Consumes I x a fun w ans => w = v ∧ J ans) (hf : Yields J (f v) c Q) :
    Yields I (x >>= f) (a ++ c) Q := by
  intro tail s hs hdead harr w s' hrun
  obtain ⟨u, t, hfirst, ⟨rfl, hmid⟩, harr'⟩ := hx tail s c hs harr
  rw [Run.bind_ok hfirst] at hrun
  exact hf tail t hmid hdead harr' w s' hrun

theorem get {f : Receiver → AnswerM α}
    (h : ∀ s, I s.answer → a.length ≤ bytesLeft s.incoming → Yields (· = s.answer) (f s) a Q) :
    Yields I (MonadState.get >>= f) a Q := by
  intro tail s hs hdead harr
  exact h s hs (arrives_bytesLeft harr) tail s rfl hdead harr

theorem readBuffer {len : Nat} (h : a.length < len) : Yields I (Answer.readBuffer len) a (· = none) := by
  intro tail s _ hdead harr v s' hrun
  have hshort := readLoop_short hdead harr len [] h
  unfold Answer.readBuffer tcpRead at hrun
  generalize readLoop s.incoming len [] = r at hrun hshort
  obtain ⟨status, data, incoming⟩ := r
  simp only at hrun hshort
  split at hrun
  · cases hrun
  · cases hrun
  · rename_i hok
    exact absurd hok hshort
  · cases hrun
    rfl

theorem readByte : Yields I Answer.readByte [] (· = none) :=
  bind (readBuffer Nat.one_pos) fun v s w s' hv hrun => by
    cases hrun
    rw [hv]
    rfl

theorem more {body : β → AnswerM (β ⊕ α)} {b b' : β} {n : Nat} {c : Bytes}
    (h : Consumes I (body b) a fun r ans => r = .inl b' ∧ J ans)
    (hn : Yields J (Run.iterate .exhausted body n b') c Q) :
    Yields I (Run.iterate .exhausted body (n + 1) b) (a ++ c) Q :=
  after h hn

/-- The stream ends within a round, which then is the last one. -/
theorem last {body : β → AnswerM (β ⊕ α)} {b : β} {n : Nat}
    (h : Yields I (body b) a fun r => ∃ v, r = .inr v ∧ Q v) :
    Yields I (Run.iterate .exhausted body (n + 1) b) a Q := by
  refine bind h fun r s w s' hr hrun => ?_
  obtain ⟨v, rfl, hv⟩ := hr
  cases hrun
  exact hv

end Yields

/-! ## Runs on what is available -/

section Runs

variable {α : Type} {I : Answer → Prop} {x : AnswerM α} {a b : Bytes} {R : α → Answer → Prop} {s : Receiver}

theorem Consumes.exists_ok (h : Consumes I x a R) (hs : I s.answer) (hav : available s.incoming = a ++ b) :
    ∃ v s', x s = .ok v s' ∧ R v s'.answer ∧ available s'.incoming = b := by
  obtain ⟨tail, harr, hdead⟩ := arrives_available s.incoming
  rw [hav] at harr
  obtain ⟨v, s', hrun, hpost, harr'⟩ := h tail s b hs harr
  exact ⟨v, s', hrun, hpost, available_arrives hdead harr'⟩

/-- What a run of it has returned and left. -/
theorem Consumes.of_ok (h : Consumes I x a R) (hs : I s.answer) (hav : available s.incoming = a ++ b) {v : α}
    {s' : Receiver} (hrun : x s = .ok v s') : R v s'.answer ∧ available s'.incoming = b := by
  obtain ⟨w, t, hrun', hpost, hav'⟩ := h.exists_ok hs hav
  rw [hrun] at hrun'
  cases hrun'
  exact ⟨hpost, hav'⟩

theorem Yields.of_ok {Q : α → Prop} (h : Yields I x a Q) (hs : I s.answer) (hav : available s.incoming = a) {v : α}
    {s' : Receiver} (hrun : x s = .ok v s') : Q v := by
  obtain ⟨tail, harr, hdead⟩ := arrives_available s.incoming
  rw [hav] at harr
  exact h tail s hs hdead harr v s' hrun

/-- A successful read has taken the next bytes. -/
theorem readBuffer_ok {len : Nat} {data : Bytes} {s' : Receiver} (h : Answer.readBuffer len s = .ok (some data) s') :
    available s.incoming = data ++ available s'.incoming ∧ data.length = len ∧ s'.answer = s.answer := by
  by_cases hlen : (available s.incoming).length < len
  · have hnone : some data = none := (Yields.readBuffer (I := fun _ => True) hlen).of_ok trivial rfl h
    cases hnone
  · have htake : ((available s.incoming).take len).length = len := by
      rw [List.length_take]
      omega
    have hread : Consumes (· = s.answer) (Answer.readBuffer ((available s.incoming).take len).length)
        ((available s.incoming).take len) _ := Consumes.readBuffer
    rw [htake] at hread
    obtain ⟨⟨hdata, hans⟩, hav⟩ := hread.of_ok rfl (List.take_append_drop len (available s.incoming)).symm h
    cases hdata
    exact ⟨by rw [hav, List.take_append_drop], htake, hans⟩

end Runs

/-! ## What is left alone -/

section Frame

variable {P : Answer → Prop}

theorem keeps_readBuffer (len : Nat) : Run.Keeps (fun s => P s.answer) (Answer.readBuffer len) := by
  intro s hs
  unfold Answer.readBuffer
  generalize tcpRead s.incoming len = r
  obtain ⟨status, data, incoming⟩ := r
  cases hcode : status.code with
  | netctxRcvOk => simp only [hcode]; exact hs
  | netctxRcvEof => simp only [hcode]; exact hs
  | netctxRcvRetry => simp only [hcode]; exact hs
  | netctxRcvError => simp only [hcode]; exact hs

theorem keeps_modifyAnswer {f : Answer → Answer} (h : ∀ a, P a → P (f a)) :
    Run.Keeps (fun s => P s.answer) (Answer.modifyAnswer f) :=
  Run.Keeps.modify fun s hs => h s.answer hs

theorem keeps_onEnv {α : Type} (x : EnvM α) : Run.Keeps (fun s => P s.answer) (Answer.onEnv x) :=
  Run.Keeps.zoom fun _ _ hs => hs

theorem keeps_readLine (buffer : ByteBuffer) : Run.Keeps (fun s => P s.answer) (Answer.readLine buffer) := by
  refine Run.Keeps.bind Run.Keeps.get fun s => Run.Keeps.iterate (fun l => ?_) _ _
  refine Run.Keeps.bind (Run.Keeps.bind (keeps_readBuffer 1) fun v => Run.Keeps.pure _) fun v => ?_
  cases v with
  | none => exact Run.Keeps.pure _
  | some c =>
    simp only
    cases l.next c with
    | inl l => exact Run.Keeps.pure _
    | inr buffer => exact Run.Keeps.pure _

theorem keeps_readStatusCode (hcode : ∀ a n, P a → P { a with statusCode := n }) :
    ∀ digits, Run.Keeps (fun s => P s.answer) (Answer.readStatusCode digits)
  | [] => Run.Keeps.bind Run.Keeps.get fun _ => Run.Keeps.pure _
  | c :: digits => by
    refine Run.Keeps.ite (Run.Keeps.bind (keeps_modifyAnswer fun a h => hcode a _ h) fun _ => ?_) (Run.Keeps.pure _)
    exact keeps_readStatusCode hcode digits

theorem keeps_readReason (hreason : ∀ a t, P a → P { a with reasonPhrase := t }) :
    Run.Keeps (fun s => P s.answer) Answer.readReason := by
  refine Run.Keeps.bind (keeps_readLine _) fun v => Run.Keeps.ite ?_ (Run.Keeps.pure _)
  refine Run.Keeps.bind (Run.Keeps.except _) fun t => ?_
  exact Run.Keeps.bind (keeps_modifyAnswer fun a h => hreason a t h) fun _ => Run.Keeps.pure _

/-- The status line does not touch the rest of the answer. -/
theorem keeps_readControlData (hcode : ∀ a n, P a → P { a with statusCode := n })
    (hreason : ∀ a t, P a → P { a with reasonPhrase := t }) : Run.Keeps (fun s => P s.answer) Answer.readControlData := by
  refine Run.Keeps.bind (keeps_modifyAnswer fun a h => hcode { a with reasonPhrase := _ } _ (hreason a _ h)) fun _ => ?_
  refine Run.Keeps.bind (keeps_readBuffer 8) fun version => ?_
  cases version with
  | none => exact Run.Keeps.pure _
  | some version =>
  refine Run.Keeps.ite (Run.Keeps.pure _) (Run.Keeps.bind (keeps_readBuffer 1) fun space => ?_)
  cases space with
  | none => exact Run.Keeps.pure _
  | some space =>
  refine Run.Keeps.ite (Run.Keeps.pure _) (Run.Keeps.bind (keeps_readBuffer 3) fun digits => ?_)
  cases digits with
  | none => exact Run.Keeps.pure _
  | some digits =>
  refine Run.Keeps.bind (keeps_modifyAnswer fun a h => hcode a 0 h) fun _ => ?_
  refine Run.Keeps.bind (keeps_readStatusCode hcode digits) fun status => ?_
  exact Run.Keeps.ite (Run.Keeps.pure _) (keeps_readReason hreason)

theorem keeps_storeHeader {lib : DateLib} (hheaders : ∀ a m, P a → P { a with headers := m })
    (hcookies : ∀ a c, P a → P { a with cookies := c }) (name : Bytes) (value : ObfString) :
    Run.Keeps (fun s => P s.answer) (Answer.storeHeader lib name value) := by
  refine Run.Keeps.ite ?_ (keeps_modifyAnswer fun a h => hheaders a _ h)
  cases Cookie.parse lib value with
  | ok cookie => exact keeps_modifyAnswer fun a h => hcookies a _ h
  | error e =>
    cases e with
    | cookieError message => exact Run.Keeps.pure _
    | _ => exact Run.Keeps.throw _

theorem keeps_readHeaderLine {lib : DateLib} (hheaders : ∀ a m, P a → P { a with headers := m })
    (hcookies : ∀ a c, P a → P { a with cookies := c }) (line : ObfString) :
    Run.Keeps (fun s => P s.answer) (Answer.readHeaderLine lib line) := by
  unfold Answer.readHeaderLine
  cases line.find 58 with
  | none => exact Run.Keeps.pure _
  | some pos =>
    refine Run.Keeps.ite (Run.Keeps.pure _) (Run.Keeps.bind (Run.Keeps.except _) fun name => ?_)
    refine Run.Keeps.ite (Run.Keeps.bind (Run.Keeps.except _) fun rest => ?_) (Run.Keeps.pure _)
    refine Run.Keeps.bind (Run.Keeps.except _) fun value => ?_
    exact Run.Keeps.bind (keeps_storeHeader hheaders hcookies _ value) fun _ => Run.Keeps.pure _

/-- Neither do the headers. -/
theorem keeps_readHeaders (lib : DateLib) (hheaders : ∀ a m, P a → P { a with headers := m })
    (hcookies : ∀ a c, P a → P { a with cookies := c }) :
    Run.Keeps (fun s => P s.answer) (Answer.readHeaders lib) := by
  refine Run.Keeps.bind Run.Keeps.get fun s => Run.Keeps.iterate (fun buffer => ?_) _ _
  refine Run.Keeps.bind (keeps_readLine buffer) fun v => Run.Keeps.ite (Run.Keeps.pure _) ?_
  refine Run.Keeps.bind (keeps_onEnv _) fun line => ?_
  refine Run.Keeps.bind (keeps_readHeaderLine hheaders hcookies line) fun status => ?_
  exact Run.Keeps.ite (Run.Keeps.pure _) (Run.Keeps.pure _)

end Frame

/-! ## What is thrown -/

section Raises

variable {E : Exn → Prop}

/-- A read throws only errors of the connection. -/
theorem raises_buffer (hmbed : ∀ rc, E (.mbedError rc)) (len : Nat) : Run.Raises E (Answer.readBuffer len) := by
  intro s e s' h
  unfold Answer.readBuffer at h
  generalize tcpRead s.incoming len = r at h
  obtain ⟨status, data, incoming⟩ := r
  simp only at h
  split at h
  · cases h
    exact hmbed _
  · cases h
    exact hmbed _
  · cases h
  · cases h

theorem raises_lineStep (hmbed : ∀ rc, E (.mbedError rc)) (l : Line) : Run.Raises E (Answer.readLineStep l) := by
  refine Run.Raises.bind (Run.Raises.bind (raises_buffer hmbed 1) fun v => Run.Raises.pure _) fun v => ?_
  cases v with
  | none => exact Run.Raises.pure _
  | some c =>
    simp only
    cases l.next c with
    | inl l => exact Run.Raises.pure _
    | inr buffer => exact Run.Raises.pure _

theorem raises_line (hmbed : ∀ rc, E (.mbedError rc)) (hex : E .exhausted) (buffer : ByteBuffer) :
    Run.Raises E (Answer.readLine buffer) :=
  Run.Raises.bind Run.Raises.get fun _ => Run.Raises.iterate_any hex (raises_lineStep hmbed) _ _

theorem raises_body (hmbed : ∀ rc, E (.mbedError rc)) (hex : E .exhausted) (size maxSize : Nat) :
    Run.Raises E (Answer.readBody size maxSize) := by
  refine Run.Raises.iterate_any hex (fun size => ?_) _ _
  refine Run.Raises.bind (raises_buffer hmbed _) fun v => ?_
  cases v with
  | none => exact Run.Raises.pure _
  | some data =>
    exact Run.Raises.bind (Run.Raises.modify _) fun _ => Run.Raises.ite (Run.Raises.pure _) (Run.Raises.pure _)

theorem raises_inflateStep {zlib : Zlib} (maxSize : Nat) (strm : zlib.Stream × Bytes) :
    Run.Raises E (Answer.inflateStep zlib maxSize strm) :=
  Run.Raises.ite (Run.Raises.pure _) (Run.Raises.bind (Run.Raises.modify _) fun _ =>
    Run.Raises.ite (Run.Raises.pure _) (Run.Raises.pure _))

theorem raises_gzipBody (hmbed : ∀ rc, E (.mbedError rc)) (hex : E .exhausted) (zlib : Zlib) (size maxSize : Nat) :
    Run.Raises E (Answer.readGzipBody zlib size maxSize) := by
  unfold Answer.readGzipBody
  cases zlib.inflateInit2 with
  | none => exact Run.Raises.pure _
  | some strm =>
    refine Run.Raises.iterate_any hex (fun b => ?_) _ _
    refine Run.Raises.bind (raises_buffer hmbed _) fun v => ?_
    cases v with
    | none => exact Run.Raises.pure _
    | some data =>
      refine Run.Raises.bind (Run.Raises.iterate_any hex (raises_inflateStep maxSize) _ _) fun r => ?_
      cases r with
      | none => exact Run.Raises.pure _
      | some strm => exact Run.Raises.ite (Run.Raises.pure _) (Run.Raises.pure _)

end Raises

/-! ## Lines -/

/-- What `read_line` makes of the bytes: the buffer at the CR LF, and the bytes after it. -/
def lineBytes : Line → Bytes → Option (ByteBuffer × Bytes)
  | _, [] => none
  | l, c :: bytes =>
    match l.next c with
    | .inl l => lineBytes l bytes
    | .inr buffer => some (buffer, bytes)

/-- The bytes of a line, with its CR LF, are those in front of the rest. -/
theorem lineBytes_append : ∀ {bytes rest : Bytes} {l : Line} {buffer : ByteBuffer},
    lineBytes l bytes = some (buffer, rest) → ∃ a, bytes = a ++ rest ∧ 0 < a.length
  | c :: bytes, rest, l, buffer, h => by
    unfold lineBytes at h
    split at h
    · obtain ⟨a, rfl, -⟩ := lineBytes_append h
      exact ⟨c :: a, rfl, Nat.succ_pos _⟩
    · cases h
      exact ⟨[c], rfl, Nat.one_pos⟩

theorem readLineStep_consumes (I : Answer → Prop) (l : Line) (c : UInt8) :
    Consumes I (Answer.readLineStep l) [c] fun r ans =>
      r = (match l.next c with
        | .inl l => .inl l
        | .inr buffer => .inr (.errNone, buffer)) ∧ I ans := by
  rw [← List.append_nil [c]]
  refine Consumes.bind_eq Consumes.readByte ?_
  simp only
  cases l.next c with
  | inl l => exact Consumes.pure fun _ hs => ⟨rfl, hs⟩
  | inr buffer => exact Consumes.pure fun _ hs => ⟨rfl, hs⟩

/-- A round that goes on has taken a character. -/
theorem readLineStep_inl {l l' : Line} {s s' : Receiver} (h : Answer.readLineStep l s = .ok (.inl l') s') :
    ∃ c, available s.incoming = c :: available s'.incoming ∧ l.next c = .inl l' := by
  obtain ⟨v, t, hv, h⟩ := Run.bind_eq_ok h
  obtain ⟨data, u, hread, hv⟩ := Run.bind_eq_ok hv
  cases hv
  cases data with
  | none => cases h
  | some data =>
    obtain ⟨hav, hlen, -⟩ := readBuffer_ok hread
    obtain ⟨c, rfl⟩ := List.length_eq_one_iff.1 hlen
    refine ⟨c, ?_⟩
    simp only [Option.bind_some, List.head?_cons] at h
    cases hnext : l.next c with
    | inl l =>
      rw [hnext] at h
      cases h
      exact ⟨hav, rfl⟩
    | inr buffer =>
      rw [hnext] at h
      cases h

theorem readLine_rest {I : Answer → Prop} : ∀ (a rest : Bytes) (n : Nat) (l : Line) (buffer : ByteBuffer),
    a.length < n → lineBytes l (a ++ rest) = some (buffer, rest) →
      Consumes I (Run.iterate .exhausted Answer.readLineStep n l) a
        fun v ans => v = (.errNone, buffer) ∧ I ans
  | [], rest, n, l, buffer, _, h => by
    obtain ⟨a, hrest, ha⟩ := lineBytes_append h
    have := congrArg List.length hrest
    simp only [List.nil_append, List.length_append] at this
    omega
  | c :: a, rest, n + 1, l, buffer, hn, h => by
    have hround := readLineStep_consumes I l c
    rw [List.cons_append, lineBytes] at h
    cases hnext : l.next c with
    | inl l' =>
      rw [hnext] at h hround
      exact Consumes.more hround (readLine_rest a rest n l' buffer (Nat.lt_of_succ_lt_succ hn) h)
    | inr buffer' =>
      rw [hnext] at h hround
      obtain ⟨rfl, hrest⟩ := Prod.mk.inj (Option.some.inj h)
      obtain rfl : a = [] := List.append_left_eq_self.1 hrest
      exact Consumes.done hround

theorem readLine_rest_none {I : Answer → Prop} : ∀ (a : Bytes) (n : Nat) (l : Line), lineBytes l a = none →
    Yields I (Run.iterate .exhausted Answer.readLineStep n l) a fun v => v.1 = .errEof
  | _, 0, _, _ => Yields.throw
  | [], n + 1, l, _ => by
    refine Yields.last (Yields.bind Yields.readByte fun v s r s' hv hrun => ?_)
    rw [hv] at hrun
    cases hrun
    exact ⟨_, rfl, rfl⟩
  | c :: a, n + 1, l, h => by
    have hround := readLineStep_consumes I l c
    rw [lineBytes] at h
    cases hnext : l.next c with
    | inl l' =>
      rw [hnext] at h hround
      exact Yields.more hround (readLine_rest_none a n l' h)
    | inr buffer' =>
      rw [hnext] at h
      cases h

/-- A line is read with its CR LF. -/
theorem readLine_bytes {I : Answer → Prop} {a : Bytes} {buffer line : ByteBuffer} (rest : Bytes)
    (h : lineBytes (.start buffer) (a ++ rest) = some (line, rest)) :
    Consumes I (Answer.readLine buffer) a fun v ans => v = (.errNone, line) ∧ I ans := by
  refine Consumes.get fun s hs hlen => ?_
  refine (readLine_rest a rest _ _ line (Nat.lt_succ_of_le hlen) h).consequence (fun _ h => h) fun v ans h => ⟨h.1, ?_⟩
  exact h.2 ▸ hs

/-- Without a CR LF it is the end of the stream. -/
theorem readLine_none {I : Answer → Prop} {a : Bytes} {buffer : ByteBuffer}
    (h : lineBytes (.start buffer) a = none) :
    Yields I (Answer.readLine buffer) a fun v => v.1 = .errEof :=
  Yields.get fun _ _ _ => readLine_rest_none a _ _ h

/-- A line that was read stands in front of what is left. -/
theorem readLine_ok {buffer line : ByteBuffer} {s s' : Receiver}
    (h : Answer.readLine buffer s = .ok (.errNone, line) s') :
    lineBytes (.start buffer) (available s.incoming) = some (line, available s'.incoming) ∧ s'.answer = s.answer := by
  cases hline : lineBytes (.start buffer) (available s.incoming) with
  | none =>
    have heof := (readLine_none (I := fun _ => True) hline).of_ok trivial rfl h
    cases heof
  | some r =>
    obtain ⟨a, ha, -⟩ := lineBytes_append hline
    have hread := readLine_bytes (I := (· = s.answer)) r.2 (ha ▸ hline)
    obtain ⟨⟨hval, hans⟩, hav⟩ := hread.of_ok rfl ha h
    rw [(Prod.mk.inj hval).2, hav]
    exact ⟨rfl, hans⟩

theorem readLine_exists {buffer line : ByteBuffer} {rest : Bytes} {s : Receiver}
    (h : lineBytes (.start buffer) (available s.incoming) = some (line, rest)) :
    ∃ s', Answer.readLine buffer s = .ok (.errNone, line) s' ∧ s'.answer = s.answer ∧ available s'.incoming = rest := by
  obtain ⟨a, ha, -⟩ := lineBytes_append h
  have hread := readLine_bytes (I := (· = s.answer)) rest (ha ▸ h)
  obtain ⟨v, s', hrun, ⟨rfl, hans⟩, hav⟩ := hread.exists_ok rfl ha
  exact ⟨s', hrun, hans, hav⟩

/-- A buffer that holds a text that fits. -/
def filled (buffer : ByteBuffer) (text : Bytes) (h : text.length ≤ buffer.capacity) : ByteBuffer :=
  ⟨text, buffer.capacity, h⟩

theorem filled_append {buffer : ByteBuffer} {text data : Bytes} (h : text.length ≤ buffer.capacity)
    (h' : (text ++ data).length ≤ buffer.capacity) :
    (filled buffer text h).append data = filled buffer (text ++ data) h' := by
  rw [List.length_append] at h'
  have hcap := ByteBuffer.capacity_append (b := filled buffer text h) h'
  unfold filled
  unfold ByteBuffer.append at *
  simp only at hcap ⊢
  congr 1

/-- A text without CR that fits is kept whole, after the `got` that is there. -/
theorem lineBytes_text {buffer : ByteBuffer} (rest : Bytes) : ∀ (text got : Bytes), 13 ∉ text →
    (hgot : got.length ≤ buffer.capacity) → (hfit : (got ++ text).length ≤ buffer.capacity) →
      lineBytes { state := .text, bytesReceived := got.length, buffer := filled buffer got hgot } (text ++ rest) =
        lineBytes { state := .text, bytesReceived := (got ++ text).length, buffer := filled buffer (got ++ text) hfit } rest
  | [], got, _, hgot, hfit => by simp only [List.append_nil, List.nil_append]
  | c :: text, got, hcr, hgot, hfit => by
    have hne : c ≠ 13 := fun h => hcr (h ▸ List.mem_cons_self ..)
    have hlen : got.length < (filled buffer got hgot).capacity := by
      rw [List.length_append, List.length_cons] at hfit
      show got.length < buffer.capacity
      omega
    have happ : got ++ [c] ++ text = got ++ c :: text := by simp
    have hgot' : (got ++ [c]).length ≤ buffer.capacity := by
      rw [List.length_append]
      exact hlen
    have ih := lineBytes_text rest text (got ++ [c]) (fun h => hcr (List.mem_cons_of_mem _ h)) hgot'
      (by rw [happ]; exact hfit)
    rw [List.length_append] at ih
    rw [List.cons_append, lineBytes]
    simp only [Line.next, if_neg hne, if_pos hlen, filled_append hgot hgot']
    refine ih.trans ?_
    congr 3

/-- A text without CR that fits is the line that its CR LF ends. -/
theorem lineBytes_filled {buffer : ByteBuffer} {text : Bytes} (rest : Bytes) (hcr : 13 ∉ text)
    (hfit : text.length ≤ buffer.capacity) :
    lineBytes (.start buffer) (text ++ 13 :: 10 :: rest) = some (filled buffer text hfit, rest) :=
  lineBytes_text (13 :: 10 :: rest) text [] hcr (Nat.zero_le _) hfit

/-- A line without CR that fits its buffer is read whole, with its CR LF. -/
theorem readLine_consumes {I : Answer → Prop} {buffer : ByteBuffer} {text : Bytes} (hcr : 13 ∉ text)
    (hfit : text.length ≤ buffer.capacity) :
    Consumes I (Answer.readLine buffer) (text ++ [13, 10])
      fun v ans => v = (.errNone, filled buffer text hfit) ∧ I ans := by
  refine readLine_bytes [] ?_
  rw [List.append_nil]
  exact lineBytes_filled [] hcr hfit

/-! ## Bodies -/

/-- The answer is `p` but for its body, which is `d`. -/
def BodyIs (p : Answer) (d : Bytes) (ans : Answer) : Prop :=
  ans.body.bytes = d ∧ { ans with body := p.body } = p

/-- What is cut off once stays cut off. -/
theorem take_take_append {m : Nat} (d a : Bytes) : (d.take m ++ a).take m = (d ++ a).take m := by
  by_cases h : d.length ≤ m
  · rw [List.take_of_length_le h]
  · have hlen : m ≤ d.length := by omega
    rw [List.take_append_of_le_length hlen, List.take_append_of_le_length (by rw [List.length_take]; omega),
      List.take_take, Nat.min_self]

/-- The body takes the data for which it has room. -/
theorem appendBody_consumes {p : Answer} {d data : Bytes} {maxSize : Nat} (hmax : maxSize < 2 ^ 64)
    (hd : d.length ≤ maxSize) :
    Consumes (BodyIs p d) (Answer.appendBody data maxSize) [] fun _ => BodyIs p ((d ++ data).take maxSize) := by
  refine Consumes.modifyAnswer fun ans ⟨hbody, hrest⟩ => ?_
  simp only
  rw [hbody, Answer.sizeSub_eq hd hmax]
  split
  · have htake : data.take (min data.length (maxSize - d.length)) = data.take (maxSize - d.length) := by
      rw [← List.take_take, List.take_of_length_le (List.length_take_le' ..)]
    rw [htake]
    refine ⟨?_, hrest⟩
    rw [ByteBuffer.bytes_append, hbody, List.take_append, List.take_of_length_le hd]
  · have hfull : (d ++ data).take maxSize = d := by
      rw [List.take_append_of_le_length (by omega), List.take_of_length_le hd]
    rw [hfull]
    exact ⟨hbody, hrest⟩

theorem readBodyStep_consumes {p : Answer} {maxSize : Nat} (hmax : maxSize < 2 ^ 64) {size : Nat} {data d : Bytes}
    (hlen : data.length = min size 4096) (hd : d.length ≤ maxSize) :
    Consumes (BodyIs p d) (Answer.readBodyStep maxSize size) data fun v ans =>
      v = (if 0 < size - min size 4096 then .inl (size - min size 4096) else .inr true) ∧
        BodyIs p ((d ++ data).take maxSize) ans := by
  unfold Answer.readBodyStep
  simp only
  rw [← List.append_nil data, ← hlen]
  refine Consumes.bind_eq Consumes.readBuffer ?_
  refine Consumes.bind (a := []) (appendBody_consumes hmax hd) fun _ => ?_
  rw [List.append_nil]
  split
  · exact Consumes.pure fun _ h => ⟨rfl, h⟩
  · exact Consumes.pure fun _ h => ⟨rfl, h⟩

theorem readBody_rest {p : Answer} {maxSize : Nat} (hmax : maxSize < 2 ^ 64) : ∀ (n : Nat) (data d : Bytes),
    data ≠ [] → data.length ≤ n → d.length ≤ maxSize →
      Consumes (BodyIs p d) (Run.iterate .exhausted (Answer.readBodyStep maxSize) n data.length) data
        fun v ans => v = true ∧ BodyIs p ((d ++ data).take maxSize) ans
  | 0, data, d, hne, hn, _ => absurd (List.eq_nil_of_length_eq_zero (Nat.le_zero.1 hn)) hne
  | n + 1, data, d, hne, hn, hd => by
    have hpos := List.length_pos_of_ne_nil hne
    have hlen : (data.take 4096).length = min data.length 4096 := by rw [List.length_take, Nat.min_comm]
    have hround := readBodyStep_consumes (p := p) hmax hlen hd
    by_cases hlast : data.length ≤ 4096
    · rw [if_neg (by omega), List.take_of_length_le hlast] at hround
      exact Consumes.done hround
    · -- the first 4096 bytes, then the rest
      have hdrop : data.length - min data.length 4096 = (data.drop 4096).length := by
        rw [List.length_drop]
        omega
      rw [if_pos (by omega), hdrop] at hround
      have ih := readBody_rest (p := p) hmax n (data.drop 4096) ((d ++ data.take 4096).take maxSize)
        (List.ne_nil_of_length_pos (by omega)) (by omega) (by rw [List.length_take]; omega)
      rw [take_take_append, List.append_assoc, List.take_append_drop] at ih
      have hrun := Consumes.more hround ih
      rwa [List.take_append_drop] at hrun

/-- A body is read whole, and stored as far as there is room. -/
theorem readBody_take {p : Answer} {maxSize : Nat} {data d : Bytes} (hmax : maxSize < 2 ^ 64) (hne : data ≠ [])
    (hd : d.length ≤ maxSize) :
    Consumes (BodyIs p d) (Answer.readBody data.length maxSize) data
      fun v ans => v = true ∧ BodyIs p ((d ++ data).take maxSize) ans :=
  readBody_rest hmax (data.length + 1) data d hne (Nat.le_succ _) hd

/-- A body for which there is room is stored whole. -/
theorem readBody_consumes {p : Answer} {maxSize : Nat} {data d : Bytes} (hmax : maxSize < 2 ^ 64) (hne : data ≠ [])
    (hfit : (d ++ data).length ≤ maxSize) :
    Consumes (BodyIs p d) (Answer.readBody data.length maxSize) data
      fun v ans => v = true ∧ BodyIs p (d ++ data) ans := by
  have hd : d.length ≤ maxSize := by
    rw [List.length_append] at hfit
    omega
  have hrun := readBody_take (p := p) hmax hne hd
  rwa [List.take_of_length_le hfit] at hrun

theorem readBody_short {p : Answer} {maxSize : Nat} (hmax : maxSize < 2 ^ 64) : ∀ (n size : Nat) (a d : Bytes),
    a.length < size → d.length ≤ maxSize →
      Yields (BodyIs p d) (Run.iterate .exhausted (Answer.readBodyStep maxSize) n size) a (· = false)
  | 0, _, _, _, _, _ => Yields.throw
  | n + 1, size, a, d, hsize, hd => by
    by_cases hshort : a.length < min size 4096
    · refine Yields.last (Yields.bind (Yields.readBuffer hshort) fun v s r s' hv hrun => ?_)
      rw [hv] at hrun
      cases hrun
      exact ⟨_, rfl, beq_false_of_ne (by omega)⟩
    · have hlen : (a.take 4096).length = min size 4096 := by
        rw [List.length_take]
        omega
      have hround := readBodyStep_consumes (p := p) hmax hlen hd
      rw [if_pos (by omega)] at hround
      have ih := readBody_short (p := p) hmax n (size - min size 4096) (a.drop 4096) ((d ++ a.take 4096).take maxSize)
        (by rw [List.length_drop]; omega) (by rw [List.length_take]; omega)
      have hrun := Yields.more hround ih
      rwa [List.take_append_drop] at hrun

/-- A body that does not arrive whole is not available. -/
theorem readBody_none {p : Answer} {maxSize size : Nat} {a d : Bytes} (hmax : maxSize < 2 ^ 64) (hsize : a.length < size)
    (hd : d.length ≤ maxSize) : Yields (BodyIs p d) (Answer.readBody size maxSize) a (· = false) :=
  readBody_short hmax (size + 1) size a d hsize hd

/-! ## The status line -/

/-- The digits that are left of a status code. -/
theorem readStatusCode_consumes {p : Answer} : ∀ (digits : Bytes) (n : Nat), (∀ c ∈ digits, isdigit c = true) →
    let code := digits.foldl (fun n c => n * 10 + (c.toNat - 48)) n
    100 ≤ code → code < 600 →
      Consumes (· = { p with statusCode := n }) (Answer.readStatusCode digits) []
        fun v ans => v = .errNone ∧ ans = { p with statusCode := code }
  | [], n, _ => by
    intro code hlow hhigh
    refine Consumes.get fun s hs _ => ?_
    have hcode : s.answer.statusCode = code := by rw [hs]; rfl
    simp only [hcode]
    rw [if_neg (by omega)]
    exact Consumes.pure fun ans h => ⟨rfl, h.trans hs⟩
  | c :: digits, n, hdigits => by
    intro code hlow hhigh
    have ih := readStatusCode_consumes (p := p) digits (n * 10 + (c.toNat - 48))
      (fun d hd => hdigits d (List.mem_cons_of_mem _ hd)) hlow hhigh
    unfold Answer.readStatusCode
    rw [if_pos (hdigits c (List.mem_cons_self ..))]
    exact Consumes.modify_bind ih

theorem readReason_consumes {p : Answer} {reason : Bytes} (hcr : 13 ∉ reason) (htrim : Trimmed reason)
    (hfit : reason.length + 1 ≤ 1024) :
    Consumes (· = p) Answer.readReason (32 :: reason ++ [13, 10])
      fun v ans => v = .errNone ∧ ans = { p with reasonPhrase := reason } := by
  have hcr' : 13 ∉ 32 :: reason := by
    intro h
    rcases List.mem_cons.1 h with h | h
    · exact absurd h (by decide)
    · exact hcr h
  have hline : Consumes (· = p) (Answer.readLine (.ofCapacity 1024)) (32 :: reason ++ [13, 10]) _ :=
    readLine_consumes hcr' hfit
  rw [← List.append_nil (32 :: reason ++ [13, 10])]
  refine Consumes.bind_eq hline ?_
  have htext : (filled (.ofCapacity 1024) (32 :: reason) hfit).bytes = 32 :: reason := rfl
  simp only [htext]
  rw [if_pos ⟨trivial, List.cons_ne_nil _ _⟩]
  refine Consumes.bind_eq (a := []) (Consumes.except (trim_blank_trimmed htrim)) ?_
  exact Consumes.modify_bind (Consumes.pure fun ans h => ⟨rfl, h⟩)

/-- The three digits of a status code. -/
def codeText (code : Nat) : Bytes :=
  [(48 + code / 100).toUInt8, (48 + code / 10 % 10).toUInt8, (48 + code % 10).toUInt8]

theorem digit_text : ∀ d < 10, isdigit (48 + d).toUInt8 = true ∧ (48 + d).toUInt8.toNat - 48 = d := by decide

theorem codeText_digits {code : Nat} (h : code < 600) : ∀ c ∈ codeText code, isdigit c = true := by
  intro c hc
  simp only [codeText, List.mem_cons, List.not_mem_nil, or_false] at hc
  rcases hc with rfl | rfl | rfl
  · exact (digit_text _ (by omega)).1
  · exact (digit_text _ (by omega)).1
  · exact (digit_text _ (by omega)).1

theorem codeText_value {code : Nat} (h : code < 600) :
    (codeText code).foldl (fun n c => n * 10 + (c.toNat - 48)) 0 = code := by
  simp only [codeText, List.foldl_cons, List.foldl_nil]
  rw [(digit_text (code / 100) (by omega)).2, (digit_text (code / 10 % 10) (by omega)).2,
    (digit_text (code % 10) (by omega)).2]
  omega

/-- The start of a status line that is accepted: what is left to read is the reason. -/
theorem readControlData_start {digits : Bytes} {tail : List Seg} {s : Receiver} {b : Bytes} (hlen : digits.length = 3)
    (hall : ∀ c ∈ digits, isdigit c = true) (hlow : 100 ≤ digits.foldl (fun n c => n * 10 + (c.toNat - 48)) 0)
    (hhigh : digits.foldl (fun n c => n * 10 + (c.toNat - 48)) 0 < 600)
    (harr : Arrives tail s.incoming (ascii "HTTP/1.1" ++ (ascii " " ++ (digits ++ b)))) :
    ∃ t, Answer.readControlData s = Answer.readReason t ∧ Arrives tail t.incoming b ∧ t.answer =
      { s.answer with
        statusCode := digits.foldl (fun n c => n * 10 + (c.toNat - 48)) 0, reasonPhrase := defaultReason } := by
  let I (n : Nat) (ans : Answer) : Prop := ans = { s.answer with statusCode := n, reasonPhrase := defaultReason }
  obtain ⟨_, t₁, h₁, ⟨rfl, ht₁⟩, harr₁⟩ := Consumes.readBuffer (I := I defaultCode) (a := ascii "HTTP/1.1") tail
    { s with answer := { s.answer with statusCode := defaultCode, reasonPhrase := defaultReason } } _ rfl harr
  obtain ⟨_, t₂, h₂, ⟨rfl, ht₂⟩, harr₂⟩ := Consumes.readBuffer (a := ascii " ") tail t₁ _ ht₁ harr₁
  obtain ⟨_, t₃, h₃, ⟨rfl, ht₃⟩, harr₃⟩ := Consumes.readBuffer (a := digits) tail t₂ _ ht₂ harr₂
  have hcode := readStatusCode_consumes (p := { s.answer with reasonPhrase := defaultReason }) digits 0 hall hlow hhigh
  obtain ⟨_, t, h, ⟨rfl, ht⟩, harr'⟩ := hcode tail { t₃ with answer := { t₃.answer with statusCode := 0 } } b
    (by show ({ t₃.answer with statusCode := 0 } : Answer) = _; rw [ht₃]) harr₃
  rw [show (ascii "HTTP/1.1").length = 8 from rfl] at h₁
  rw [show (ascii " ").length = 1 from rfl] at h₂
  rw [hlen] at h₃
  refine ⟨t, ?_, harr', ht⟩
  unfold Answer.readControlData
  have hset : Answer.modifyAnswer (fun a => { a with statusCode := defaultCode, reasonPhrase := defaultReason }) s =
    .ok () { s with answer := { s.answer with statusCode := defaultCode, reasonPhrase := defaultReason } } := rfl
  have hreset : Answer.modifyAnswer (fun a => { a with statusCode := 0 }) t₃ =
    .ok () { t₃ with answer := { t₃.answer with statusCode := 0 } } := rfl
  rw [Run.bind_ok hset, Run.bind_ok h₁]
  simp only [ne_eq, not_true_eq_false, if_false]
  rw [Run.bind_ok h₂]
  simp only [not_true_eq_false, if_false]
  rw [Run.bind_ok h₃]
  simp only
  rw [Run.bind_ok hreset, Run.bind_ok h]
  simp only [not_true_eq_false, if_false]

/-- The status line is read with its CR LF. -/
theorem readControlData_consumes {p : Answer} {code : Nat} {reason : Bytes} (hlow : 100 ≤ code) (hhigh : code < 600)
    (hcr : 13 ∉ reason) (htrim : Trimmed reason) (hfit : reason.length + 1 ≤ 1024) :
    Consumes (· = p) Answer.readControlData
      (ascii "HTTP/1.1" ++ (ascii " " ++ (codeText code ++ (32 :: reason ++ [13, 10]))))
      fun v ans => v = .errNone ∧ ans = { p with statusCode := code, reasonPhrase := reason } := by
  rintro tail s b rfl harr
  simp only [List.append_assoc] at harr
  obtain ⟨t, hrun, harr', ht⟩ := readControlData_start (rfl : (codeText code).length = 3) (codeText_digits hhigh)
    (by rw [codeText_value hhigh]; exact hlow) (by rw [codeText_value hhigh]; exact hhigh) harr
  rw [codeText_value hhigh] at ht
  rw [hrun]
  refine readReason_consumes hcr htrim hfit tail t b ht ?_
  simpa using harr'

/-! ## Headers -/

/-- A header that the reader stores. -/
structure Header where
  name : Bytes
  value : Bytes
  valid : Answer.isValidFieldName name = true
  noCookie : iequal name (ascii "Set-Cookie") = false
  cr : 13 ∉ value
  nul : 0 ∉ value
  trimmed : Trimmed value
  fits : (name ++ 58 :: 32 :: value).length ≤ maxHeaderSize

namespace Header

def line (h : Header) : Bytes := h.name ++ 58 :: 32 :: h.value

theorem not_mem_name (h : Header) {c : UInt8} (hc : (isalnum c || c == 45) = false) : c ∉ h.name := by
  intro hmem
  have hvalid := h.valid
  unfold Answer.isValidFieldName at hvalid
  rw [Bool.and_eq_true, List.all_eq_true] at hvalid
  rw [hvalid.2 c hmem] at hc
  cases hc

theorem name_ne (h : Header) : h.name ≠ [] := by
  intro hnil
  have hvalid := h.valid
  rw [hnil] at hvalid
  cases hvalid

theorem cr_line (h : Header) : 13 ∉ h.line := by
  unfold line
  rw [List.mem_append, List.mem_cons, List.mem_cons]
  rintro (hn | h58 | h32 | hv)
  · exact h.not_mem_name (by decide) hn
  · exact absurd h58 (by decide)
  · exact absurd h32 (by decide)
  · exact h.cr hv

end Header

theorem readHeaderLine_consumes {lib : DateLib} {p : Answer} {h : Header} {o : ObfString} (ho : o.Hides h.line) :
    Consumes (· = p) (Answer.readHeaderLine lib o) []
      fun v ans => v = .errNone ∧ ans = { p with headers := p.headers.set h.name h.value } := by
  have hpos : h.name.length ≠ 0 := by
    rw [Ne, List.length_eq_zero_iff]
    exact h.name_ne
  have hfind : o.find 58 = some h.name.length :=
    (ObfString.find_hides ho 58).trans (find_append (h.not_mem_name (by decide)))
  -- the name in front of the colon
  have hname : substr h.line 0 (some h.name.length) = .ok h.name := by
    unfold substr Header.line
    rw [if_neg (Nat.not_lt_zero _)]
    simp
  obtain ⟨oname, honame, hhides, -⟩ := ObfString.substr_hides ho hname
  rw [cStr_eq (h.not_mem_name (by decide))] at hhides
  -- the value after it
  have hvalue : substr h.line (h.name.length + 1) none = .ok (32 :: h.value) := by
    unfold substr Header.line
    rw [if_neg (by simp)]
    simp
  have hnul : 0 ∉ 32 :: h.value := by
    intro h0
    rcases List.mem_cons.1 h0 with h0 | h0
    · exact absurd h0 (by decide)
    · exact h.nul h0
  obtain ⟨orest, horest, hrest, -⟩ := ObfString.substr_hides ho hvalue
  rw [cStr_eq hnul] at hrest
  obtain ⟨ovalue, hovalue, htrimmed⟩ := ObfString.trim_hides hrest hnul (trim_blank_trimmed h.trimmed)
  unfold Answer.readHeaderLine
  rw [hfind]
  simp only
  rw [if_neg hpos]
  refine Consumes.bind_eq (a := []) (Consumes.except honame) ?_
  rw [ObfString.uncrypt_hides hhides, if_pos h.valid]
  refine Consumes.bind_eq (a := []) (Consumes.except horest) ?_
  refine Consumes.bind_eq (a := []) (Consumes.except hovalue) ?_
  unfold Answer.storeHeader
  rw [if_neg (by rw [h.noCookie]; exact Bool.false_ne_true), ObfString.uncrypt_hides htrimmed]
  exact Consumes.modify_bind (Consumes.pure fun ans h => ⟨rfl, h⟩)

/-- The header lines and the empty line after them. -/
def renderHeaders (headers : List Header) : Bytes := headers.flatMap (fun h => h.line ++ [13, 10]) ++ [13, 10]

theorem renderHeaders_cons (h : Header) (headers : List Header) :
    renderHeaders (h :: headers) = h.line ++ [13, 10] ++ renderHeaders headers := by
  unfold renderHeaders
  rw [List.flatMap_cons, List.append_assoc]

theorem length_renderHeaders : ∀ headers, headers.length ≤ (renderHeaders headers).length
  | [] => Nat.zero_le _
  | h :: headers => by
    have ih := length_renderHeaders headers
    rw [renderHeaders_cons, List.length_append, List.length_append, List.length_cons, List.length_cons]
    omega

/-- What the header map holds after the headers were read. -/
def stored (m : StringMap) (headers : List Header) : StringMap := m.setAll (headers.map fun h => (h.name, h.value))

theorem readHeaders_rest {lib : DateLib} : ∀ (headers : List Header) (n : Nat) (buffer : ByteBuffer) (p : Answer),
    headers.length < n → maxHeaderSize ≤ buffer.capacity →
      Consumes (· = p) (Run.iterate .exhausted (Answer.readHeadersStep lib) n buffer) (renderHeaders headers)
        fun v ans => v = .errNone ∧ ans = { p with headers := stored p.headers headers }
  | [], n + 1, buffer, p, _, _ => by
    have hround : Consumes (· = p) (Answer.readHeadersStep lib buffer) ([] ++ [13, 10] ++ [])
        fun r ans => r = .inr .errNone ∧ ans = p :=
      Consumes.bind_eq (readLine_consumes List.not_mem_nil (Nat.zero_le _)) (Consumes.pure fun _ h => ⟨rfl, h⟩)
    exact Consumes.done hround
  | h :: headers, n + 1, buffer, p, hn, hcap => by
    have hfit : h.line.length ≤ buffer.capacity := h.fits.trans hcap
    have hround : Consumes (· = p) (Answer.readHeadersStep lib buffer) (h.line ++ [13, 10] ++ ([] ++ []))
        fun r ans => r = .inl (filled buffer h.line hfit) ∧
          ans = { p with headers := p.headers.set h.name h.value } := by
      refine Consumes.bind_eq (readLine_consumes h.cr_line hfit) ?_
      have htext : (filled buffer h.line hfit).bytes = h.line := rfl
      have hne : h.line ≠ [] := by simp [Header.line]
      simp only [htext, hne, not_true_eq_false, or_self, if_false, ne_eq]
      refine Consumes.onEnv_bind (newObf_hides h.line) fun o ho => ?_
      exact Consumes.bind_eq (readHeaderLine_consumes ho) (Consumes.pure fun _ h => ⟨rfl, h⟩)
    have hrun := Consumes.more hround (readHeaders_rest headers n (filled buffer h.line hfit)
      { p with headers := p.headers.set h.name h.value } (Nat.lt_of_succ_lt_succ hn) hcap)
    rwa [List.append_nil, List.append_nil, ← renderHeaders_cons] at hrun

/-- The headers are read with the empty line after them. -/
theorem readHeaders_consumes (lib : DateLib) {p : Answer} (headers : List Header) :
    Consumes (· = p) (Answer.readHeaders lib) (renderHeaders headers)
      fun v ans => v = .errNone ∧ ans = { p with headers := stored p.headers headers } := by
  refine Consumes.get fun s hs hlen => ?_
  rw [← hs]
  refine readHeaders_rest headers _ _ _ ?_ (Nat.le_refl _)
  have hlines := length_renderHeaders headers
  omega

end FortiRdp.Http
