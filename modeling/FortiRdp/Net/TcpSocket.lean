/-
The blocking reads and writes of a socket (`TcpSocket`), over what the layers below deliver and take.
A read puts the pieces that arrive together until it has all bytes, and leaves the rest of a piece for
the next one: what it returns does not depend on how the stream was cut.
-/
import FortiRdp.Net.Socket

namespace FortiRdp.Net

def mbedtlsErrSslTimeout : Int := -0x6800

inductive PollAnswer where
  | ready (rc : Int)
  | failed (rc : Int)
  deriving DecidableEq, Repr

/-! ## Reading -/

/-- What arrives on a connection: data, at least one byte; a moment without data, and how the poll for
more ends; the end of the stream; an error. After the last one nothing arrives in time. -/
inductive Seg where
  | data (c : UInt8) (d : Bytes)
  | retry (rw : Int) (poll : PollAnswer)
  | eof
  | error (rc : Int)
  deriving DecidableEq, Repr

/-- The rest of a piece of data stays in front of what arrives later. -/
def keepData : Bytes → List Seg → List Seg
  | [], segs => segs
  | c :: d, segs => .data c d :: segs

/-- The loop of `TcpSocket::read` for `len` more bytes, with those it has. -/
def readLoop : List Seg → Nat → Bytes → RcvStatus × Bytes × List Seg
  | segs, 0, got => ({ code := .netctxRcvOk, rc := 0, rbytes := got.length }, got, segs)
  | [], _ + 1, got => ({ code := .netctxRcvError, rc := mbedtlsErrSslTimeout, rbytes := got.length }, got, [])
  | .data c d :: segs, len + 1, got =>
    if d.length ≤ len then readLoop segs (len - d.length) (got ++ c :: d)
    else
      let got := got ++ (c :: d).take (len + 1)
      ({ code := .netctxRcvOk, rc := 0, rbytes := got.length }, got, keepData ((c :: d).drop (len + 1)) segs)
  | .retry _ (.ready _) :: segs, len + 1, got => readLoop segs (len + 1) got
  | .retry _ (.failed rc) :: segs, _ + 1, got => ({ code := .netctxRcvError, rc := rc, rbytes := got.length }, got, segs)
  | .eof :: segs, _ + 1, got => ({ code := .netctxRcvEof, rc := 0, rbytes := got.length }, got, .eof :: segs)
  | .error rc :: segs, _ + 1, got =>
    ({ code := .netctxRcvError, rc := rc, rbytes := got.length }, got, .error rc :: segs)

/-- `TcpSocket::read`. -/
def tcpRead (segs : List Seg) (len : Nat) : RcvStatus × Bytes × List Seg := readLoop segs len []

/-- The bytes that may still arrive. -/
def bytesLeft : List Seg → Nat
  | [] => 0
  | .data _ d :: segs => d.length + 1 + bytesLeft segs
  | .retry _ _ :: segs | .eof :: segs | .error _ :: segs => bytesLeft segs

/-! ## Writing -/

/-- What the layers below do with a `send_data`, and how the poll ends when they are busy. -/
inductive SndStep where
  | taken (room : Nat)
  | retry (rw : Int) (poll : PollAnswer)
  | error (rc : Int)
  deriving DecidableEq, Repr

/-- The loop of `TcpSocket::write`, with the bytes already sent. -/
def writeLoop : List SndStep → Bytes → Bytes → SndStatus × Bytes × List SndStep
  | steps, [], sent => ({ code := .netctxSndOk, rc := 0, sbytes := sent.length }, sent, steps)
  | [], _ :: _, sent => ({ code := .netctxSndError, rc := mbedtlsErrSslTimeout, sbytes := sent.length }, sent, [])
  | .taken room :: steps, c :: buf, sent =>
    writeLoop steps ((c :: buf).drop (room + 1)) (sent ++ (c :: buf).take (room + 1))
  | .retry _ (.ready _) :: steps, c :: buf, sent => writeLoop steps (c :: buf) sent
  | .retry _ (.failed rc) :: steps, _ :: _, sent =>
    ({ code := .netctxSndError, rc := rc, sbytes := sent.length }, sent, steps)
  | .error rc :: steps, _ :: _, sent => ({ code := .netctxSndError, rc := rc, sbytes := sent.length }, sent, steps)

/-- `TcpSocket::write`. -/
def tcpWrite (steps : List SndStep) (buf : Bytes) : SndStatus × Bytes × List SndStep := writeLoop steps buf []

/-- Whether the layers below take anything of a buffer. -/
def takesData : List SndStep → Bool
  | .taken _ :: _ => true
  | .retry _ (.ready _) :: steps => takesData steps
  | .retry _ (.failed _) :: _ | .error _ :: _ | [] => false

theorem writeLoop_sent : ∀ (steps : List SndStep) (buf sent : Bytes), sent <+: (writeLoop steps buf sent).2.1
  | [], [], sent | [], _ :: _, sent => List.prefix_refl sent
  | .taken _ :: _, [], sent => List.prefix_refl sent
  | .taken _ :: steps, _ :: _, sent => (List.prefix_append sent _).trans (writeLoop_sent steps _ _)
  | .retry _ (.ready _) :: _, [], sent => List.prefix_refl sent
  | .retry _ (.ready _) :: steps, c :: buf, sent => writeLoop_sent steps (c :: buf) sent
  | .retry _ (.failed _) :: _, [], sent | .retry _ (.failed _) :: _, _ :: _, sent => List.prefix_refl sent
  | .error _ :: _, [], sent | .error _ :: _, _ :: _, sent => List.prefix_refl sent

/-- A write that returns has sent all bytes, and one that fails has not. -/
theorem writeLoop_outcome : ∀ (steps : List SndStep) (buf sent : Bytes),
    if (writeLoop steps buf sent).1.code = .netctxSndOk then (writeLoop steps buf sent).2.1 = sent ++ buf
    else (writeLoop steps buf sent).2.1 <+: sent ++ buf ∧ (writeLoop steps buf sent).2.1 ≠ sent ++ buf
  | [], [], sent | .taken _ :: _, [], sent | .retry _ (.ready _) :: _, [], sent | .retry _ (.failed _) :: _, [], sent
  | .error _ :: _, [], sent => (List.append_nil sent).symm
  | .taken room :: steps, c :: buf, sent => by
    have h := writeLoop_outcome steps ((c :: buf).drop (room + 1)) (sent ++ (c :: buf).take (room + 1))
    rw [List.append_assoc, List.take_append_drop] at h
    exact h
  | .retry _ (.ready _) :: steps, c :: buf, sent => writeLoop_outcome steps (c :: buf) sent
  | [], c :: buf, sent | .retry _ (.failed _) :: _, c :: buf, sent | .error _ :: _, c :: buf, sent =>
    ⟨List.prefix_append _ _, fun h => List.cons_ne_nil c buf (List.self_eq_append_right.1 h)⟩

/-- Something of a buffer is sent when the layers below take anything. -/
theorem tcpWrite_sent : ∀ (steps : List SndStep) {buf : Bytes}, buf ≠ [] →
    ((tcpWrite steps buf).2.1 ≠ [] ↔ takesData steps = true)
  | _, [], h => absurd rfl h
  | [], _ :: _, _ => ⟨fun h => absurd rfl h, nofun⟩
  | .taken room :: steps, c :: buf, _ => by
    refine ⟨fun _ => rfl, fun _ hnil => ?_⟩
    have hsent := writeLoop_sent steps ((c :: buf).drop (room + 1)) ([] ++ (c :: buf).take (room + 1))
    have hloop : tcpWrite (.taken room :: steps) (c :: buf) =
        writeLoop steps ((c :: buf).drop (room + 1)) ([] ++ (c :: buf).take (room + 1)) := rfl
    rw [← hloop, hnil, List.prefix_nil] at hsent
    cases hsent
  | .retry _ (.ready _) :: steps, _ :: _, h => tcpWrite_sent steps h
  | .retry _ (.failed _) :: _, _ :: _, _ | .error _ :: _, _ :: _, _ => ⟨fun h => absurd rfl h, nofun⟩

/-! ## Fragmentation -/

/-- The bytes arrive first, in any pieces and with any successful waits between them, and `tail` is what
arrives after them. -/
inductive Arrives (tail : List Seg) : List Seg → Bytes → Prop
  | done : Arrives tail tail []
  | data {segs : List Seg} {bytes : Bytes} (c : UInt8) (d : Bytes) (h : Arrives tail segs bytes) :
      Arrives tail (.data c d :: segs) (c :: d ++ bytes)
  | retry {segs : List Seg} {bytes : Bytes} (rw rc : Int) (h : Arrives tail segs bytes) :
      Arrives tail (.retry rw (.ready rc) :: segs) bytes

theorem arrives_keepData {tail segs : List Seg} {bytes : Bytes} (h : Arrives tail segs bytes) :
    ∀ d, Arrives tail (keepData d segs) (d ++ bytes)
  | [] => h
  | c :: d => .data c d h

theorem readLoop_arrives {tail segs : List Seg} {bytes : Bytes} (h : Arrives tail segs bytes) :
    ∀ (a b got : Bytes), bytes = a ++ b →
      ∃ segs', readLoop segs a.length got =
          ({ code := .netctxRcvOk, rc := 0, rbytes := (got ++ a).length }, got ++ a, segs') ∧
        Arrives tail segs' b := by
  have empty : ∀ (segs : List Seg) (bytes got : Bytes), Arrives tail segs bytes → ∃ segs', readLoop segs 0 got =
      ({ code := .netctxRcvOk, rc := 0, rbytes := (got ++ []).length }, got ++ [], segs') ∧
        Arrives tail segs' bytes := by
    intro segs bytes got h
    refine ⟨segs, ?_, h⟩
    rw [List.append_nil]
    cases segs <;> rfl
  induction h with
  | done =>
    intro a b got hb
    obtain ⟨rfl, rfl⟩ := List.append_eq_nil_iff.1 hb.symm
    exact empty tail [] got .done
  | @data segs bytes c d h ih =>
    intro a b got hb
    cases a with
    | nil =>
      obtain rfl : b = c :: d ++ bytes := hb.symm
      exact empty _ _ got (.data c d h)
    | cons x a =>
      simp only [List.cons_append, List.cons.injEq] at hb
      obtain ⟨rfl, hb⟩ := hb
      simp only [List.length_cons, readLoop]
      by_cases hlen : d.length ≤ a.length
      · -- the whole piece is read
        obtain ⟨a', rfl⟩ : ∃ a', a = d ++ a' := by
          obtain ⟨a', ha, -⟩ | ⟨c', hc, -⟩ := List.append_eq_append_iff.1 hb
          · exact ⟨a', ha⟩
          · have hzero : c' = [] := by
              rw [hc, List.length_append] at hlen
              exact List.eq_nil_of_length_eq_zero (by omega)
            exact ⟨[], by rw [hc, hzero, List.append_nil, List.append_nil]⟩
        rw [List.append_assoc] at hb
        rw [if_pos hlen, List.length_append, Nat.add_sub_cancel_left]
        obtain ⟨segs', hread, harr⟩ := ih a' b (got ++ c :: d) (List.append_cancel_left hb)
        refine ⟨segs', ?_, harr⟩
        rw [hread]
        simp
      · -- the read ends within the piece
        rw [if_neg hlen]
        obtain ⟨d', rfl, rfl⟩ : ∃ d', d = a ++ d' ∧ b = d' ++ bytes := by
          obtain ⟨a', ha, -⟩ | ⟨c', hc, hb'⟩ := List.append_eq_append_iff.1 hb
          · rw [ha, List.length_append] at hlen
            omega
          · exact ⟨c', hc, hb'⟩
        refine ⟨keepData d' segs, ?_, arrives_keepData h d'⟩
        simp
  | @retry segs bytes rw rc h ih =>
    intro a b got hb
    cases a with
    | nil =>
      obtain rfl : b = bytes := hb.symm
      exact empty _ _ got (.retry rw rc h)
    | cons x a => exact ih (x :: a) b got hb

/-- A read returns the next bytes of the stream, however it is cut. -/
theorem tcpRead_arrives {tail segs : List Seg} {a b : Bytes} (h : Arrives tail segs (a ++ b)) :
    ∃ segs', tcpRead segs a.length = ({ code := .netctxRcvOk, rc := 0, rbytes := a.length }, a, segs') ∧
      Arrives tail segs' b := by
  obtain ⟨segs', hread, harr⟩ := readLoop_arrives h a b [] rfl
  exact ⟨segs', hread, harr⟩

/-- The bytes that arrive before the stream ends, fails or times out. -/
def available : List Seg → Bytes
  | .data c d :: segs => c :: d ++ available segs
  | .retry _ (.ready _) :: segs => available segs
  | .retry _ (.failed _) :: _ | .eof :: _ | .error _ :: _ | [] => []

/-- Nothing arrives any more. -/
inductive Dead : List Seg → Prop
  | nil : Dead []
  | retry {segs : List Seg} (rw rc : Int) (h : Dead segs) : Dead (.retry rw (.ready rc) :: segs)
  | failed (rw rc : Int) (segs : List Seg) : Dead (.retry rw (.failed rc) :: segs)
  | eof (segs : List Seg) : Dead (.eof :: segs)
  | error (rc : Int) (segs : List Seg) : Dead (.error rc :: segs)

theorem arrives_available : ∀ segs, ∃ tail, Arrives tail segs (available segs) ∧ Dead tail
  | [] => ⟨[], .done, .nil⟩
  | .data c d :: segs => by
    obtain ⟨tail, harr, hdead⟩ := arrives_available segs
    exact ⟨tail, .data c d harr, hdead⟩
  | .retry rw (.ready rc) :: segs => by
    obtain ⟨tail, harr, hdead⟩ := arrives_available segs
    exact ⟨tail, .retry rw rc harr, hdead⟩
  | .retry rw (.failed rc) :: segs => ⟨_, .done, .failed rw rc segs⟩
  | .eof :: segs => ⟨_, .done, .eof segs⟩
  | .error rc :: segs => ⟨_, .done, .error rc segs⟩

theorem available_dead {tail : List Seg} (h : Dead tail) : available tail = [] := by
  induction h with
  | retry rw rc h ih => exact ih
  | _ => rfl

/-- What has arrived of a stream that ends after it is what was available. -/
theorem available_arrives {tail segs : List Seg} {bytes : Bytes} (hdead : Dead tail) (h : Arrives tail segs bytes) :
    available segs = bytes := by
  induction h with
  | done => exact available_dead hdead
  | data c d h ih => rw [available, ih]
  | retry rw rc h ih => exact ih

theorem readLoop_dead {tail : List Seg} (h : Dead tail) (len : Nat) (got : Bytes) :
    (readLoop tail (len + 1) got).1.code ≠ .netctxRcvOk := by
  induction h with
  | retry rw rc h ih => exact ih
  | _ => simp [readLoop]

/-- A read of more bytes than arrive goes on behind them. -/
theorem readLoop_behind {tail segs : List Seg} {bytes : Bytes} (h : Arrives tail segs bytes) :
    ∀ (len : Nat) (got : Bytes), bytes.length < len → ∃ n got', readLoop segs len got = readLoop tail (n + 1) got' := by
  induction h with
  | done =>
    intro len got hlen
    obtain ⟨len, rfl⟩ : ∃ n, len = n + 1 := ⟨len - 1, by rw [List.length_nil] at hlen; omega⟩
    exact ⟨len, got, rfl⟩
  | @data segs bytes c d h ih =>
    intro len got hlen
    rw [List.length_append, List.length_cons] at hlen
    obtain ⟨len, rfl⟩ : ∃ n, len = n + 1 := ⟨len - 1, by omega⟩
    rw [readLoop, if_pos (by omega)]
    exact ih (len - d.length) (got ++ c :: d) (by omega)
  | @retry segs bytes rw rc h ih =>
    intro len got hlen
    obtain ⟨len, rfl⟩ : ∃ n, len = n + 1 := ⟨len - 1, by omega⟩
    exact ih (len + 1) got hlen

/-- A read of more bytes than arrive does not succeed. -/
theorem readLoop_short {tail segs : List Seg} {bytes : Bytes} (hdead : Dead tail) (h : Arrives tail segs bytes)
    (len : Nat) (got : Bytes) (hlen : bytes.length < len) : (readLoop segs len got).1.code ≠ .netctxRcvOk := by
  obtain ⟨n, got', hbehind⟩ := readLoop_behind h len got hlen
  rw [hbehind]
  exact readLoop_dead hdead n got'

end FortiRdp.Net
