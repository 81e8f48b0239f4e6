/-
The loops of `TcpSocket::read` and `TcpSocket::write` over the buffer of the caller: the pointer, the length that is
left and the total are updated apart, for any answers of `recv_data`, `send_data` and `poll`.
-/
import FortiRdp.Net.TcpSocket
import FortiRdp.Net.TunnelInput
import FortiRdp.Run.Transfer

namespace FortiRdp.Net

open Run

/-! ## The calls below -/

inductive PollStatusCode where
  | netctxPollOk
  | netctxPollError
  deriving DecidableEq, Repr

structure PollStatus where
  code : PollStatusCode
  rc : Int
  deriving DecidableEq, Repr

/-- `Socket::poll`, from what `mbedtls_net_poll` returns. -/
def poll (rc : Int) : PollStatus :=
  if rc < 0 then { code := .netctxPollError, rc := rc }
  else if rc = 0 then { code := .netctxPollError, rc := mbedtlsErrSslTimeout }
  else { code := .netctxPollOk, rc := rc }

/-- What `recv_data` answers when it is called for at most `len` bytes, with the bytes that it has stored. -/
structure RcvResult (len : Nat) where
  status : RcvStatus
  data : Bytes
  rbytes : status.rbytes = data.length
  ok : status.code = .netctxRcvOk → 0 < data.length ∧ data.length ≤ len
  other : status.code ≠ .netctxRcvOk → data = []

/-- What `send_data` answers when it is called for at most `len` bytes. -/
structure SndResult (len : Nat) where
  status : SndStatus
  ok : status.code = .netctxSndOk → 0 < status.sbytes ∧ status.sbytes ≤ len
  other : status.code ≠ .netctxSndOk → status.sbytes = 0

/-- A return of `mbedtls_ssl_read`: when it is positive, so many bytes have been stored. -/
structure SslRead (len : Nat) where
  rc : Int
  data : Bytes
  stored : data.length = rc.toNat
  fits : rc ≤ len

/-- The data of a record, as far as it fits. -/
def SslRead.ofData (d : Bytes) (len : Nat) : SslRead len where
  rc := (d.take len).length
  data := d.take len
  stored := rfl
  fits := Int.ofNat_le.2 (List.length_take_le _ _)

/-- A return of `mbedtls_ssl_write`: when it is positive, so many bytes have been taken. -/
structure SslWrite (len : Nat) where
  rc : Int
  fits : rc ≤ len

namespace TlsContext

/-- The status of `TlsContext::recv_data`. -/
def rcvStatus (rc : Int) : RcvStatus :=
  if 0 < rc then { code := .netctxRcvOk, rc := 0, rbytes := rc.toNat }
  else if rc = mbedtlsErrSslPeerCloseNotify ∨ rc = 0 then { code := .netctxRcvEof, rc := 0, rbytes := 0 }
  else if rc = mbedtlsErrSslWantRead then { code := .netctxRcvRetry, rc := mbedtlsNetPollRead, rbytes := 0 }
  else if rc = mbedtlsErrSslWantWrite then { code := .netctxRcvRetry, rc := mbedtlsNetPollWrite, rbytes := 0 }
  else { code := .netctxRcvError, rc := rc, rbytes := 0 }

/-- The status of `TlsContext::send_data`. -/
def sndStatus (rc : Int) : SndStatus :=
  if 0 < rc then { code := .netctxSndOk, rc := 0, sbytes := rc.toNat }
  else if rc = mbedtlsErrSslWantRead then { code := .netctxSndRetry, rc := mbedtlsNetPollRead, sbytes := 0 }
  else if rc = mbedtlsErrSslWantWrite then { code := .netctxSndRetry, rc := mbedtlsNetPollWrite, sbytes := 0 }
  else { code := .netctxSndError, rc := rc, sbytes := 0 }

/-- It is the status of the reads from the tunnel. -/
theorem tlsRecvData_status (ssl : SslContext) (len : Nat) : (tlsRecvData ssl len).1 = rcvStatus (sslRead ssl len).1 := by
  unfold tlsRecvData rcvStatus
  cases hread : sslRead ssl len with
  | mk rc rest =>
    dsimp only
    split_ifs <;> rfl

/-- Bytes come with a positive return only, and with it the status is OK. -/
theorem rcvStatus_rbytes (rc : Int) : (rcvStatus rc).rbytes = rc.toNat ∧ ((rcvStatus rc).code = .netctxRcvOk ↔ 0 < rc) := by
  unfold rcvStatus
  by_cases hpos : 0 < rc
  · rw [if_pos hpos]
    exact ⟨rfl, iff_of_true rfl hpos⟩
  · rw [if_neg hpos, Int.toNat_of_nonpos (Int.not_lt.1 hpos)]
    constructor
    · split_ifs <;> rfl
    · split_ifs <;> exact iff_of_false nofun hpos

theorem sndStatus_sbytes (rc : Int) : (sndStatus rc).sbytes = rc.toNat ∧ ((sndStatus rc).code = .netctxSndOk ↔ 0 < rc) := by
  unfold sndStatus
  by_cases hpos : 0 < rc
  · rw [if_pos hpos]
    exact ⟨rfl, iff_of_true rfl hpos⟩
  · rw [if_neg hpos, Int.toNat_of_nonpos (Int.not_lt.1 hpos)]
    constructor
    · split_ifs <;> rfl
    · split_ifs <;> exact iff_of_false nofun hpos

/-- `TlsContext::recv_data`. -/
def recvData {len : Nat} (r : SslRead len) : RcvResult len where
  status := rcvStatus r.rc
  data := r.data
  rbytes := (rcvStatus_rbytes r.rc).1.trans r.stored.symm
  ok h := by
    have hpos := (rcvStatus_rbytes r.rc).2.1 h
    have hfits := r.fits
    rw [r.stored]
    omega
  other h := by
    have hpos := mt (rcvStatus_rbytes r.rc).2.2 h
    exact List.eq_nil_of_length_eq_zero (r.stored.trans (Int.toNat_of_nonpos (Int.not_lt.1 hpos)))

/-- `TlsContext::send_data`. -/
def sendData {len : Nat} (r : SslWrite len) : SndResult len where
  status := sndStatus r.rc
  ok h := by
    have hpos := (sndStatus_sbytes r.rc).2.1 h
    have hfits := r.fits
    rw [(sndStatus_sbytes r.rc).1]
    omega
  other h := by
    have hpos := mt (sndStatus_sbytes r.rc).2.2 h
    rw [(sndStatus_sbytes r.rc).1, Int.toNat_of_nonpos (Int.not_lt.1 hpos)]

end TlsContext

/-! ## TcpSocket::read -/

/-- What one pass of the loop meets: the answer of `recv_data`, whatever it is called for, and, if it is polled, the
return of `mbedtls_net_poll`. -/
structure RcvEvent where
  recv : (len : Nat) → RcvResult len
  poll : Int

/-- The variables of `read`, the memory, and the calls of `recv_data`, each with its code and how the poll after it
ended. -/
structure ReadState where
  buf : Nat
  len : Nat
  readStatus : RcvStatus
  keepReading : Bool
  mem : Nat → UInt8
  calls : List (PieceCall (RcvStatusCode × PollStatusCode) UInt8)

def ReadState.init (mem : Nat → UInt8) (buf : Nat) (len : UInt64) : ReadState where
  buf := buf
  len := len.toNat
  readStatus := { code := .netctxRcvOk, rc := 0, rbytes := 0 }
  keepReading := decide (0 < len.toNat)
  mem := mem
  calls := []

/-- One pass of the loop. -/
def ReadState.pass (s : ReadState) (e : RcvEvent) : ReadState :=
  let r := e.recv s.len
  let pollStatus := Net.poll e.poll
  let calls := s.calls ++ [⟨s.buf, s.len, (r.status.code, pollStatus.code), r.data⟩]
  let mem := store s.mem s.buf r.data
  match r.status.code with
  | .netctxRcvOk =>
    let len := (s.len + 2 ^ 64 - r.status.rbytes) % 2 ^ 64
    { buf := s.buf + r.status.rbytes, len, keepReading := decide (0 < len), mem, calls,
      readStatus := { code := .netctxRcvOk, rc := r.status.rc, rbytes := (s.readStatus.rbytes + r.status.rbytes) % 2 ^ 64 } }
  | .netctxRcvRetry =>
    if pollStatus.code ≠ .netctxPollOk then
      { s with mem, calls, keepReading := false, readStatus := { s.readStatus with code := .netctxRcvError, rc := pollStatus.rc } }
    else { s with mem, calls, readStatus := { s.readStatus with code := .netctxRcvRetry, rc := r.status.rc } }
  | code => { s with mem, calls, keepReading := false, readStatus := { s.readStatus with code, rc := r.status.rc } }

/-- The loop, as far as the events go. -/
def ReadState.loop : List RcvEvent → ReadState → ReadState
  | [], s => s
  | e :: events, s => if s.keepReading then loop events (s.pass e) else s

/-! ## TcpSocket::write -/

structure SndEvent where
  send : (len : Nat) → SndResult len
  poll : Int

/-- The variables of `write`, and the calls of `send_data`. -/
structure WriteState where
  buf : Nat
  len : Nat
  writeStatus : SndStatus
  keepWriting : Bool
  calls : List (PieceCall (SndStatusCode × PollStatusCode) UInt8)

def WriteState.init (buf : Nat) (len : UInt64) : WriteState where
  buf := buf
  len := len.toNat
  writeStatus := { code := .netctxSndOk, rc := 0, sbytes := 0 }
  keepWriting := decide (0 < len.toNat)
  calls := []

/-- One pass of the loop; the bytes that are sent are those at the pointer. -/
def WriteState.pass (mem : Nat → UInt8) (s : WriteState) (e : SndEvent) : WriteState :=
  let r := e.send s.len
  let pollStatus := Net.poll e.poll
  let calls := s.calls ++ [⟨s.buf, s.len, (r.status.code, pollStatus.code), load mem s.buf r.status.sbytes⟩]
  match r.status.code with
  | .netctxSndOk =>
    let len := (s.len + 2 ^ 64 - r.status.sbytes) % 2 ^ 64
    { buf := s.buf + r.status.sbytes, len, keepWriting := decide (0 < len), calls,
      writeStatus := { code := .netctxSndOk, rc := r.status.rc, sbytes := (s.writeStatus.sbytes + r.status.sbytes) % 2 ^ 64 } }
  | .netctxSndRetry =>
    if pollStatus.code ≠ .netctxPollOk then
      { s with calls, keepWriting := false, writeStatus := { s.writeStatus with code := .netctxSndError, rc := pollStatus.rc } }
    else { s with calls, writeStatus := { s.writeStatus with code := .netctxSndRetry, rc := r.status.rc } }
  | code => { s with calls, keepWriting := false, writeStatus := { s.writeStatus with code, rc := r.status.rc } }

/-- The loop, as far as the events go. -/
def WriteState.loop (mem : Nat → UInt8) : List SndEvent → WriteState → WriteState
  | [], s => s
  | e :: events, s => if s.keepWriting then loop mem events (s.pass mem e) else s

/-! ## The laws -/

/-- A read goes on after a call that stored something, and after one that is to be made again when the socket is ready. -/
def RcvGoesOn (c : RcvStatusCode × PollStatusCode) : Prop := c.1 = .netctxRcvOk ∨ (c.1 = .netctxRcvRetry ∧ c.2 = .netctxPollOk)

def SndGoesOn (c : SndStatusCode × PollStatusCode) : Prop := c.1 = .netctxSndOk ∨ (c.1 = .netctxSndRetry ∧ c.2 = .netctxPollOk)

theorem rcvGoesOn_ok (p : PollStatusCode) : RcvGoesOn (.netctxRcvOk, p) := .inl rfl

theorem rcvGoesOn_retry (p : PollStatusCode) : RcvGoesOn (.netctxRcvRetry, p) ↔ p = .netctxPollOk :=
  ⟨fun h => h.elim nofun And.right, fun h => .inr ⟨rfl, h⟩⟩

theorem rcvGoesOn_eof (p : PollStatusCode) : ¬ RcvGoesOn (.netctxRcvEof, p) := fun h => h.elim nofun fun h => nomatch h.1

theorem rcvGoesOn_error (p : PollStatusCode) : ¬ RcvGoesOn (.netctxRcvError, p) := fun h => h.elim nofun fun h => nomatch h.1

theorem sndGoesOn_ok (p : PollStatusCode) : SndGoesOn (.netctxSndOk, p) := .inl rfl

theorem sndGoesOn_retry (p : PollStatusCode) : SndGoesOn (.netctxSndRetry, p) ↔ p = .netctxPollOk :=
  ⟨fun h => h.elim nofun And.right, fun h => .inr ⟨rfl, h⟩⟩

theorem sndGoesOn_error (p : PollStatusCode) : ¬ SndGoesOn (.netctxSndError, p) := fun h => h.elim nofun fun h => nomatch h.1

/-- What a read has done with its first events: the calls, one for each event while it goes on, and in the buffer the
bytes that they stored, with nothing written outside. -/
structure ReadLaw (mem : Nat → UInt8) (buf len : Nat) (events : List RcvEvent) (s : ReadState) : Prop where
  transferred : Transferred RcvGoesOn (·.1 = .netctxRcvOk) buf len s.readStatus.rbytes (s.keepReading = true)
    (s.readStatus.code = .netctxRcvOk) (s.readStatus.code = .netctxRcvEof ∨ s.readStatus.code = .netctxRcvError) s.calls
  stored : load s.mem buf s.readStatus.rbytes = movedBy s.calls
  outside : ∀ a, a < buf ∨ buf + s.readStatus.rbytes ≤ a → s.mem a = mem a
  passes : s.keepReading = true → s.calls.length = events.length

/-- What a write has done: the calls, which have sent the first bytes of the buffer. -/
structure WriteLaw (mem : Nat → UInt8) (buf len : Nat) (events : List SndEvent) (s : WriteState) : Prop where
  transferred : Transferred SndGoesOn (·.1 = .netctxSndOk) buf len s.writeStatus.sbytes (s.keepWriting = true)
    (s.writeStatus.code = .netctxSndOk) (s.writeStatus.code = .netctxSndError) s.calls
  sent : movedBy s.calls = load mem buf s.writeStatus.sbytes
  passes : s.keepWriting = true → s.calls.length = events.length

/-- The variables of a read, and the memory. -/
structure Reading (mem : Nat → UInt8) (buf len : Nat) (s : ReadState) : Prop where
  transferring : Transferring RcvGoesOn (·.1 = .netctxRcvOk) buf len s.buf s.len s.readStatus.rbytes (s.keepReading = true)
    (s.readStatus.code = .netctxRcvOk) (s.readStatus.code = .netctxRcvEof ∨ s.readStatus.code = .netctxRcvError) s.calls
  mem : s.mem = store mem buf (movedBy s.calls)

structure Writing (mem : Nat → UInt8) (buf len : Nat) (s : WriteState) : Prop where
  transferring : Transferring SndGoesOn (·.1 = .netctxSndOk) buf len s.buf s.len s.writeStatus.sbytes (s.keepWriting = true)
    (s.writeStatus.code = .netctxSndOk) (s.writeStatus.code = .netctxSndError) s.calls
  sent : movedBy s.calls = load mem buf (movedBy s.calls).length

section

variable {mem : Nat → UInt8} {buf len : Nat}

theorem Reading.stored {s : ReadState} (h : Reading mem buf len s) (c : PieceCall (RcvStatusCode × PollStatusCode) UInt8) :
    store s.mem s.buf c.moved = store mem buf (movedBy (s.calls ++ [c])) := by
  rw [h.mem, h.transferring.pointer, store_append, movedBy_append]

theorem Reading.pass {s : ReadState} (h : Reading mem buf len s) (hlen : len < 2 ^ 64) (hkeep : s.keepReading = true)
    (e : RcvEvent) : Reading mem buf len (s.pass e) := by
  have ht := h.transferring
  have hmem := h.stored ⟨s.buf, s.len, ((e.recv s.len).status.code, (poll e.poll).code), (e.recv s.len).data⟩
  have hrbytes := (e.recv s.len).rbytes
  have hother := (e.recv s.len).other
  unfold ReadState.pass
  cases hcode : (e.recv s.len).status.code with
  | netctxRcvOk =>
    rw [hcode] at hmem
    obtain ⟨-, hfit⟩ := (e.recv s.len).ok hcode
    simp only [hcode]
    exact ⟨ht.advance hkeep hlen hrbytes.symm (hrbytes ▸ hfit) rfl (rcvGoesOn_ok _) decide_eq_true_iff rfl, hmem⟩
  | netctxRcvRetry =>
    have hdata := hother (by rw [hcode]; exact nofun)
    rw [hcode, hdata] at hmem
    simp only [hcode, hdata]
    by_cases hpoll : (poll e.poll).code ≠ .netctxPollOk
    · rw [if_pos hpoll]
      exact ⟨ht.stay hkeep (.inr ⟨Bool.false_ne_true, mt (rcvGoesOn_retry _).1 hpoll, nofun, .inr rfl⟩), hmem⟩
    · rw [if_neg hpoll]
      exact ⟨ht.stay hkeep (.inl ⟨hkeep, (rcvGoesOn_retry _).2 (not_not.1 hpoll)⟩), hmem⟩
  | netctxRcvEof =>
    have hdata := hother (by rw [hcode]; exact nofun)
    rw [hcode, hdata] at hmem
    simp only [hcode, hdata]
    exact ⟨ht.stay hkeep (.inr ⟨Bool.false_ne_true, rcvGoesOn_eof _, nofun, .inl rfl⟩), hmem⟩
  | netctxRcvError =>
    have hdata := hother (by rw [hcode]; exact nofun)
    rw [hcode, hdata] at hmem
    simp only [hcode, hdata]
    exact ⟨ht.stay hkeep (.inr ⟨Bool.false_ne_true, rcvGoesOn_error _, nofun, .inr rfl⟩), hmem⟩

theorem Reading.loop (hlen : len < 2 ^ 64) : ∀ (events : List RcvEvent) {s : ReadState}, Reading mem buf len s →
    Reading mem buf len (s.loop events)
  | [], _, h => h
  | e :: events, s, h => by
    unfold ReadState.loop
    by_cases hkeep : s.keepReading = true
    · rw [if_pos hkeep]
      exact Reading.loop hlen events (h.pass hlen hkeep e)
    · rw [if_neg hkeep]
      exact h

/-- The calls of a write have sent the bytes from the start of the buffer on. -/
theorem Writing.sent_call {s : WriteState} (h : Writing mem buf len s) (answer : SndStatusCode × PollStatusCode) (n : Nat) :
    movedBy (s.calls ++ [⟨s.buf, s.len, answer, load mem s.buf n⟩]) =
      load mem buf (movedBy (s.calls ++ [⟨s.buf, s.len, answer, load mem s.buf n⟩])).length := by
  rw [movedBy_append, List.length_append, length_load, ← load_append, ← h.sent, h.transferring.pointer]

theorem Writing.pass {s : WriteState} (h : Writing mem buf len s) (hlen : len < 2 ^ 64) (hkeep : s.keepWriting = true)
    (e : SndEvent) : Writing mem buf len (s.pass mem e) := by
  have ht := h.transferring
  have hsent := h.sent_call ((e.send s.len).status.code, (poll e.poll).code) (e.send s.len).status.sbytes
  have hother := (e.send s.len).other
  unfold WriteState.pass
  cases hcode : (e.send s.len).status.code with
  | netctxSndOk =>
    rw [hcode] at hsent
    obtain ⟨-, hfit⟩ := (e.send s.len).ok hcode
    simp only [hcode]
    exact ⟨ht.advance hkeep hlen (length_load _ _ _) hfit rfl (sndGoesOn_ok _) decide_eq_true_iff rfl, hsent⟩
  | netctxSndRetry =>
    have hnone := hother (by rw [hcode]; exact nofun)
    rw [hcode, hnone] at hsent
    simp only [hcode, hnone]
    by_cases hpoll : (poll e.poll).code ≠ .netctxPollOk
    · rw [if_pos hpoll]
      exact ⟨ht.stay hkeep (.inr ⟨Bool.false_ne_true, mt (sndGoesOn_retry _).1 hpoll, nofun, rfl⟩), hsent⟩
    · rw [if_neg hpoll]
      exact ⟨ht.stay hkeep (.inl ⟨hkeep, (sndGoesOn_retry _).2 (not_not.1 hpoll)⟩), hsent⟩
  | netctxSndError =>
    have hnone := hother (by rw [hcode]; exact nofun)
    rw [hcode, hnone] at hsent
    simp only [hcode, hnone]
    exact ⟨ht.stay hkeep (.inr ⟨Bool.false_ne_true, sndGoesOn_error _, nofun, rfl⟩), hsent⟩

theorem Writing.loop (hlen : len < 2 ^ 64) : ∀ (events : List SndEvent) {s : WriteState}, Writing mem buf len s →
    Writing mem buf len (s.loop mem events)
  | [], _, h => h
  | e :: events, s, h => by
    unfold WriteState.loop
    by_cases hkeep : s.keepWriting = true
    · rw [if_pos hkeep]
      exact Writing.loop hlen events (h.pass hlen hkeep e)
    · rw [if_neg hkeep]
      exact h

end

theorem ReadState.calls_pass (s : ReadState) (e : RcvEvent) : (s.pass e).calls.length = s.calls.length + 1 := by
  unfold ReadState.pass
  dsimp only
  split
  · exact List.length_append
  · split <;> exact List.length_append
  · exact List.length_append

theorem ReadState.calls_loop : ∀ (events : List RcvEvent) (s : ReadState), (s.loop events).keepReading = true →
    (s.loop events).calls.length = s.calls.length + events.length
  | [], _, _ => rfl
  | e :: events, s, hend => by
    unfold ReadState.loop at hend ⊢
    by_cases hkeep : s.keepReading = true
    · rw [if_pos hkeep] at hend ⊢
      rw [calls_loop events _ hend, calls_pass, List.length_cons, Nat.add_right_comm, Nat.add_assoc]
    · rw [if_neg hkeep] at hend
      exact absurd hend hkeep

theorem WriteState.calls_pass (mem : Nat → UInt8) (s : WriteState) (e : SndEvent) : (s.pass mem e).calls.length = s.calls.length + 1 := by
  unfold WriteState.pass
  dsimp only
  split
  · exact List.length_append
  · split <;> exact List.length_append
  · exact List.length_append

theorem WriteState.calls_loop (mem : Nat → UInt8) : ∀ (events : List SndEvent) (s : WriteState),
    (s.loop mem events).keepWriting = true → (s.loop mem events).calls.length = s.calls.length + events.length
  | [], _, _ => rfl
  | e :: events, s, hend => by
    unfold WriteState.loop at hend ⊢
    by_cases hkeep : s.keepWriting = true
    · rw [if_pos hkeep] at hend ⊢
      rw [calls_loop mem events _ hend, calls_pass, List.length_cons, Nat.add_right_comm, Nat.add_assoc]
    · rw [if_neg hkeep] at hend
      exact absurd hend hkeep

theorem reading_init (mem : Nat → UInt8) (buf : Nat) (len : UInt64) : Reading mem buf len.toNat (.init mem buf len) :=
  ⟨.init buf len.toNat decide_eq_true_iff rfl, (store_nil mem buf).symm⟩

theorem writing_init (mem : Nat → UInt8) (buf : Nat) (len : UInt64) : Writing mem buf len.toNat (.init buf len) :=
  ⟨.init buf len.toNat decide_eq_true_iff rfl, rfl⟩

/-- Whatever is answered, a read stores what is received and a write sends what it is given: all of it when they return
OK, and a first part of it otherwise. -/
theorem transfer_laws (mem : Nat → UInt8) (buf : Nat) (len : UInt64) (rcvs : List RcvEvent) (snds : List SndEvent) :
    ReadLaw mem buf len.toNat rcvs ((ReadState.init mem buf len).loop rcvs) ∧
      WriteLaw mem buf len.toNat snds ((WriteState.init buf len).loop mem snds) := by
  constructor
  · have h := Reading.loop len.toNat_lt rcvs (reading_init mem buf len)
    constructor
    · exact h.transferring.transferred
    · rw [h.mem, h.transferring.count]
      exact load_store _ _ _
    · rintro a ha
      rw [h.transferring.count] at ha
      rw [h.mem]
      exact store_outside ha
    · intro hkeep
      exact (ReadState.calls_loop rcvs _ hkeep).trans (Nat.zero_add _)
  · have h := Writing.loop len.toNat_lt snds (writing_init mem buf len)
    constructor
    · exact h.transferring.transferred
    · rw [h.transferring.count]
      exact h.sent
    · intro hkeep
      exact (WriteState.calls_loop mem snds _ hkeep).trans (Nat.zero_add _)

/-- Three bytes from a TLS context, in two records and with a wait between them. -/
example : ((ReadState.init (fun _ => 0) 0 3).loop
    [{ recv := fun len => TlsContext.recvData (.ofData [97, 98] len), poll := 1 },
      { recv := fun _ => TlsContext.recvData ⟨mbedtlsErrSslWantRead, [], rfl, by unfold mbedtlsErrSslWantRead; omega⟩, poll := 1 },
      { recv := fun len => TlsContext.recvData (.ofData [99, 100] len), poll := 1 }]).readStatus =
    { code := .netctxRcvOk, rc := 0, rbytes := 3 } := by decide

/-! ## The stream -/

/-- What `recv_data` answers, as a result. -/
def RcvAnswer.result (a : RcvAnswer) (len : Nat) : RcvResult len where
  status := (recvData a len).1
  data := (recvData a len).2
  rbytes := by
    unfold recvData
    split
    · split <;> rfl
    all_goals rfl
  ok h := by
    unfold recvData at *
    split at h
    · split at h
      · cases h
      · rename_i hne
        simp only [if_neg hne]
        exact ⟨List.length_pos_of_ne_nil hne, List.length_take_le _ _⟩
    all_goals cases h
  other h := by
    unfold recvData at *
    split at h
    · split at h
      · rename_i hnil
        simp only [if_pos hnil]
      · exact absurd rfl h
    all_goals rfl

/-- The pass that a part of the stream is for. -/
def segEvent : Seg → RcvEvent
  | .data c d => { recv := (RcvAnswer.data (c :: d)).result, poll := 1 }
  | .retry rw (.ready _) => { recv := (RcvAnswer.retry rw).result, poll := 1 }
  | .retry rw (.failed rc) => { recv := (RcvAnswer.retry rw).result, poll := rc }
  | .eof => { recv := RcvAnswer.eof.result, poll := 1 }
  | .error rc => { recv := (RcvAnswer.error rc).result, poll := 1 }

/-- Behind its parts the stream has nothing more in time. -/
def segEvents (segs : List Seg) : List RcvEvent :=
  segs.map segEvent ++ [{ recv := (RcvAnswer.retry mbedtlsNetPollRead).result, poll := 0 }]

theorem ReadState.loop_done {s : ReadState} (h : s.keepReading = false) (events : List RcvEvent) : s.loop events = s := by
  cases events with
  | nil => rfl
  | cons e events => rw [loop, h, if_neg Bool.false_ne_true]

theorem ReadState.loop_cons {s : ReadState} (h : s.keepReading = true) (e : RcvEvent) (events : List RcvEvent) :
    s.loop (e :: events) = (s.pass e).loop events := by
  rw [loop, if_pos h]

theorem ReadState.movedBy_pass (s : ReadState) (e : RcvEvent) :
    movedBy (s.pass e).calls = movedBy s.calls ++ (e.recv s.len).data := by
  unfold ReadState.pass
  dsimp only
  split
  · exact movedBy_append _ _
  · split <;> exact movedBy_append _ _
  · exact movedBy_append _ _

/-- A pass that data has arrived for. -/
theorem ReadState.pass_data {s : ReadState} (hpos : 0 < s.len) (c : UInt8) (d : Bytes) :
    (s.pass (segEvent (.data c d))).readStatus.code = .netctxRcvOk ∧ (s.pass (segEvent (.data c d))).readStatus.rc = 0 ∧
      (s.pass (segEvent (.data c d))).keepReading = decide (0 < (s.pass (segEvent (.data c d))).len) ∧
      movedBy (s.pass (segEvent (.data c d))).calls = movedBy s.calls ++ (c :: d).take s.len := by
  have htake : (c :: d).take s.len ≠ [] := by
    rw [Ne, List.take_eq_nil_iff]
    exact not_or.2 ⟨Nat.ne_of_gt hpos, List.cons_ne_nil c d⟩
  have hrecv : recvData (.data (c :: d)) s.len =
      ({ code := .netctxRcvOk, rc := 0, rbytes := ((c :: d).take s.len).length }, (c :: d).take s.len) := if_neg htake
  unfold ReadState.pass segEvent
  simp only [RcvAnswer.result, hrecv]
  exact ⟨trivial, trivial, trivial, movedBy_append _ _⟩

/-- A pass that waited in vain. -/
theorem ReadState.pass_failed (s : ReadState) {rc : Int} (hneg : rc < 0) (rw' : Int) :
    (s.pass (segEvent (.retry rw' (.failed rc)))).keepReading = false ∧
      (s.pass (segEvent (.retry rw' (.failed rc)))).readStatus =
        { code := .netctxRcvError, rc := rc, rbytes := s.readStatus.rbytes } := by
  have hfailed : poll rc = { code := .netctxPollError, rc := rc } := if_pos hneg
  unfold ReadState.pass segEvent
  simp only [RcvAnswer.result, recvData, hfailed]
  exact ⟨rfl, rfl⟩

/-- A read that has all its bytes returns them. -/
theorem Reading.done {mem : Nat → UInt8} {buf len : Nat} {s : ReadState} (h : Reading mem buf len s) (hcode : s.readStatus.code = .netctxRcvOk)
    (hrc : s.readStatus.rc = 0) (hkeep : s.keepReading = decide (0 < s.len)) (hzero : s.len = 0) (events : List RcvEvent) :
    (s.loop events).keepReading = false ∧ movedBy (s.loop events).calls = movedBy s.calls ∧
      (s.loop events).readStatus = { code := .netctxRcvOk, rc := 0, rbytes := (movedBy s.calls).length } := by
  rw [hzero] at hkeep
  rw [ReadState.loop_done hkeep, ← h.transferring.count, ← hcode, ← hrc]
  exact ⟨hkeep, rfl, rfl⟩

/-- The loop over the memory does with the parts of a stream what `readLoop` says. -/
theorem loop_segEvents {mem : Nat → UInt8} {buf len : Nat} (hlen : len < 2 ^ 64) : ∀ (segs : List Seg) {s : ReadState},
    (∀ rw rc, Seg.retry rw (.failed rc) ∈ segs → rc < 0) → Reading mem buf len s → s.keepReading = true →
      (s.loop (segEvents segs)).keepReading = false ∧
        (s.loop (segEvents segs)).readStatus = (readLoop segs s.len (movedBy s.calls)).1 ∧
        movedBy (s.loop (segEvents segs)).calls = (readLoop segs s.len (movedBy s.calls)).2.1
  | segs, s, hpoll, h, hkeep => by
    obtain ⟨n, hn⟩ := Nat.exists_eq_add_one.2 (h.transferring.going hkeep).1
    have hcount := h.transferring.count
    cases segs with
    | nil =>
      unfold segEvents
      rw [List.map_nil, List.nil_append, ReadState.loop_cons hkeep, hn]
      simp [ReadState.pass, ReadState.loop, RcvAnswer.result, recvData, poll, readLoop, movedBy_append, hcount]
    | cons seg segs =>
      have hrest := loop_segEvents hlen segs (fun rw rc hin => hpoll rw rc (List.mem_cons_of_mem _ hin)) (h.pass hlen hkeep (segEvent seg))
      show (s.loop (segEvent seg :: segEvents segs)).keepReading = false ∧ (s.loop (segEvent seg :: segEvents segs)).readStatus = _ ∧
        movedBy (s.loop (segEvent seg :: segEvents segs)).calls = _
      rw [ReadState.loop_cons hkeep]
      cases seg with
      | data c d =>
        have hpass := h.pass hlen hkeep (segEvent (.data c d))
        obtain ⟨hcode, hrc, hkeep', hmoved⟩ := s.pass_data (h.transferring.going hkeep).1 c d
        have hleft := hpass.transferring.rest
        have hleft' := h.transferring.rest
        rw [hmoved, List.length_append, List.length_take, List.length_cons] at hleft
        rw [hn] at hmoved hleft hleft' ⊢
        rw [readLoop]
        by_cases hshort : d.length ≤ n
        · rw [if_pos hshort]
          rw [List.take_of_length_le (by simpa using hshort)] at hmoved
          have hlen' : (s.pass (segEvent (.data c d))).len = n - d.length := by omega
          rcases Nat.eq_zero_or_pos (n - d.length) with hzero | hpos
          · obtain ⟨hend, hcalls, hstatus⟩ := hpass.done hcode hrc hkeep' (hlen'.trans hzero) (segEvents segs)
            rw [hzero, hend, hcalls, hstatus, hmoved]
            cases segs <;> exact ⟨rfl, rfl, rfl⟩
          · rw [← hlen', ← hmoved]
            exact hrest (by rw [hkeep', hlen']; exact decide_eq_true hpos)
        · rw [if_neg hshort]
          obtain ⟨hend, hcalls, hstatus⟩ := hpass.done hcode hrc hkeep' (by omega) (segEvents segs)
          rw [hend, hcalls, hstatus, hmoved]
          exact ⟨rfl, rfl, rfl⟩
      | retry rw' answer =>
        cases answer with
        | ready rc =>
          have hunmoved : movedBy (s.pass (segEvent (.retry rw' (.ready rc)))).calls = movedBy s.calls :=
            (s.movedBy_pass _).trans (List.append_nil _)
          have hstays : (s.pass (segEvent (.retry rw' (.ready rc)))).len = s.len := rfl
          rw [hunmoved, hstays, hn] at hrest
          rw [hn]
          exact hrest hkeep
        | failed rc =>
          obtain ⟨hend, hstatus⟩ := s.pass_failed (hpoll rw' rc (List.mem_cons_self ..)) rw'
          rw [ReadState.loop_done hend, hstatus, hn, hcount, s.movedBy_pass]
          exact ⟨hend, rfl, List.append_nil _⟩
      | eof =>
        rw [ReadState.loop_done rfl, hn, s.movedBy_pass]
        exact ⟨rfl, congrArg (RcvStatus.mk .netctxRcvEof 0) hcount, List.append_nil _⟩
      | «error» rc =>
        rw [ReadState.loop_done rfl, hn, s.movedBy_pass]
        exact ⟨rfl, congrArg (RcvStatus.mk .netctxRcvError rc) hcount, List.append_nil _⟩

/-- `tcpRead` is what `read` does with a stream: its status, and the bytes that are then in the buffer. -/
theorem tcpRead_memory (mem : Nat → UInt8) (buf : Nat) (len : UInt64) {segs : List Seg}
    (hpoll : ∀ rw rc, Seg.retry rw (.failed rc) ∈ segs → rc < 0) :
    ((ReadState.init mem buf len).loop (segEvents segs)).readStatus = (tcpRead segs len.toNat).1 ∧
      load ((ReadState.init mem buf len).loop (segEvents segs)).mem buf (tcpRead segs len.toNat).1.rbytes =
        (tcpRead segs len.toNat).2.1 := by
  have hinit := reading_init mem buf len
  have h := Reading.loop len.toNat_lt (segEvents segs) hinit
  have hloop : ((ReadState.init mem buf len).loop (segEvents segs)).readStatus = (tcpRead segs len.toNat).1 ∧
      movedBy ((ReadState.init mem buf len).loop (segEvents segs)).calls = (tcpRead segs len.toNat).2.1 := by
    rcases Nat.eq_zero_or_pos len.toNat with hzero | hpos
    · have hdone : (ReadState.init mem buf len).keepReading = false := decide_eq_false (by omega)
      rw [ReadState.loop_done hdone, hzero]
      cases segs <;> exact ⟨rfl, rfl⟩
    · exact (loop_segEvents len.toNat_lt segs hpoll hinit (decide_eq_true hpos)).2
  refine ⟨hloop.1, ?_⟩
  rw [← hloop.1, ← hloop.2, h.mem, h.transferring.count]
  exact load_store _ _ _

end FortiRdp.Net
