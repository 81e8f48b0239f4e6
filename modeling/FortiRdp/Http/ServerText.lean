/-
What a server can make the client throw: `recv_answer` returns, or is refused with an HTTP error or an
error of the connection, for all streams but two kinds. A cookie with an attribute of blanks, and an
accepted answer with a `Keep-Alive` parameter whose value is made of blanks, end in `std::out_of_range`.
-/
import FortiRdp.Http.BodyOutcome
import FortiRdp.Http.HttpsClient

namespace FortiRdp.Http

open Util Net

/-- It returned, or it threw an `http_error` or an `mbed_error`. -/
def Handled {σ α : Type} : EStateM.Result Exn σ α → Prop
  | .ok _ _ => True
  | .error e _ => IsRefusal e

/-- The parameters of a `Keep-Alive` header can be cut. -/
def keepAliveFits (headers : StringMap) : Bool :=
  match headers.getStr (ascii "Keep-Alive") with
  | none => true
  | some keepAlive => !(split 44 keepAlive).any StringMap.blankValue

/-- A stream that throws nothing else: no cookie before the end of the head is a fault, and if the body is
accepted, the `Keep-Alive` parameters can be cut. -/
def Tame (zlib : Zlib) (bytes : Bytes) : Prop :=
  match scanHead bytes with
  | .stopped => True
  | .fault => False
  | .done headers rest => bodyAccepted zlib headers rest = true → keepAliveFits headers = true

theorem keepAliveParams_outcome (headers : StringMap) :
    if keepAliveFits headers = true then ∃ params, HttpsClient.keepAliveParams headers = .ok params
    else HttpsClient.keepAliveParams headers = .error .outOfRange := by
  unfold keepAliveFits HttpsClient.keepAliveParams
  cases headers.getStr (ascii "Keep-Alive") with
  | none => exact ⟨_, rfl⟩
  | some keepAlive =>
    have hadd := StringMap.add_outcome .empty keepAlive 44
    simp only
    cases hblank : (split 44 keepAlive).any StringMap.blankValue with
    | true =>
      rw [hblank, if_pos rfl] at hadd
      show (StringMap.add _ _ _ >>= _) = _
      rw [hadd]
      rfl
    | false =>
      rw [hblank, if_neg Bool.false_ne_true] at hadd
      obtain ⟨params, hparams⟩ := hadd
      show ∃ p, (StringMap.add _ _ _ >>= _) = Except.ok p
      rw [hparams]
      exact ⟨_, rfl⟩

theorem recvAnswer_error {lib : DateLib} {zlib : Zlib} {answer : Answer} {s : HttpsClient} {e : Exn} {t : Receiver}
    (h : Answer.recv lib zlib { answer := answer.clear, incoming := connIncoming s.conn, env := s.env } = .error e t) :
    ∃ s', HttpsClient.recvAnswer lib zlib answer s = .error e s' := by
  obtain ⟨s', hreceive⟩ : ∃ s', HttpsClient.receive answer.clear (Answer.recv lib zlib) s = .error e s' := by
    unfold HttpsClient.receive
    simp only
    rw [h]
    exact ⟨_, rfl⟩
  exact ⟨s', Run.bind_error hreceive⟩

theorem recvAnswer_fault (lib : DateLib) (zlib : Zlib) (answer : Answer) {s : HttpsClient}
    (h : scanHead (available (connIncoming s.conn)) = .fault) :
    ∃ s', HttpsClient.recvAnswer lib zlib answer s = .error .outOfRange s' := by
  have hrecv := recv_outcome lib zlib (a := answer)
    (s := { answer := answer.clear, incoming := connIncoming s.conn, env := s.env }) rfl
  rw [h] at hrecv
  obtain ⟨t, hrun⟩ := hrecv
  exact recvAnswer_error hrun

/-- Once the answer is there, the parameters of the connection decide. -/
theorem recvAnswer_params {lib : DateLib} {zlib : Zlib} {answer : Answer} {s : HttpsClient} {t : Receiver}
    (h : Answer.recv lib zlib { answer := answer.clear, incoming := connIncoming s.conn, env := s.env } = .ok () t) :
    Handled (HttpsClient.recvAnswer lib zlib answer s) ↔ keepAliveFits t.answer.headers = true := by
  obtain ⟨s', hreceive⟩ : ∃ s', HttpsClient.receive answer.clear (Answer.recv lib zlib) s = .ok ((), t.answer) s' := by
    unfold HttpsClient.receive
    simp only
    rw [h]
    exact ⟨_, rfl⟩
  have hparams := keepAliveParams_outcome t.answer.headers
  have hstep : HttpsClient.recvAnswer lib zlib answer s = _ := Run.bind_ok hreceive
  simp only at hstep
  rw [hstep]
  cases hfits : keepAliveFits t.answer.headers with
  | true =>
    rw [hfits, if_pos rfl] at hparams
    obtain ⟨params, hparams⟩ := hparams
    rw [Run.except_bind hparams]
    exact ⟨fun _ => rfl, fun _ => trivial⟩
  | false =>
    rw [hfits, if_neg Bool.false_ne_true] at hparams
    rw [hparams]
    exact ⟨fun h => absurd h id, fun h => absurd h Bool.false_ne_true⟩

/-- Whatever the server sends, `recv_answer` is handled exactly when the stream is tame. -/
theorem recvAnswer_handled (lib : DateLib) (zlib : Zlib) (answer : Answer) (s : HttpsClient) :
    Handled (HttpsClient.recvAnswer lib zlib answer s) ↔ Tame zlib (available (connIncoming s.conn)) := by
  have hrecv := recv_outcome lib zlib (a := answer)
    (s := { answer := answer.clear, incoming := connIncoming s.conn, env := s.env }) rfl
  unfold Tame
  cases hscan : scanHead (available (connIncoming s.conn)) with
  | stopped =>
    rw [hscan] at hrecv
    obtain ⟨e, t, hrun, he⟩ := hrecv
    obtain ⟨s', hs'⟩ := recvAnswer_error hrun
    rw [hs']
    exact ⟨fun _ => trivial, fun _ => he⟩
  | fault =>
    obtain ⟨s', hs'⟩ := recvAnswer_fault lib zlib answer hscan
    rw [hs']
    exact Iff.rfl
  | done headers rest =>
    rw [hscan] at hrecv
    simp only at hrecv ⊢
    cases hbody : bodyAccepted zlib headers rest with
    | false =>
      rw [hbody] at hrecv
      obtain ⟨e, t, hrun, he⟩ := hrecv
      obtain ⟨s', hs'⟩ := recvAnswer_error hrun
      rw [hs']
      exact ⟨fun _ h => absurd h Bool.false_ne_true, fun _ => he⟩
    | true =>
      rw [hbody] at hrecv
      obtain ⟨t, hrun, hheaders⟩ := hrecv
      rw [recvAnswer_params hrun, hheaders]
      exact ⟨fun h _ => h, fun h => h rfl⟩

/-- A server that sends a cookie with a blank attribute. -/
def HttpsClient.blankAttribute : HttpsClient :=
  { HttpsClient.new { hostname := ascii "fw", port := 443 } TlsConfig.new (fun _ => .refused (-1)) .still with
    conn := some {
      peerCrt := none
      verifyResult := 0
      established := true
      incoming := keepData (ascii "HTTP/1.1 200 OK\r\nSet-Cookie: a=b; ;c\r\n\r\n") []
      outgoing := [] } }

theorem recvAnswer_blank_attribute : ¬ Handled (HttpsClient.recvAnswer noDates noZlib Answer.new .blankAttribute) := by
  obtain ⟨s', hrun⟩ := recvAnswer_fault noDates noZlib Answer.new (s := .blankAttribute) rfl
  rw [hrun]
  exact id

end FortiRdp.Http
