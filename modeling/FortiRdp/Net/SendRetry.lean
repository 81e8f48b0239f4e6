/-
The calls of `send_data` made by `OutputQueue::write(net::Socket&)` and by `TcpSocket::write`. The TLS library
wants a call that could not be completed to be made again with the same arguments: a call that is answered with
a retry is followed by one with the same pointer, the same length and the same bytes, whatever was pushed on the
queue in between.
-/
import FortiRdp.Net.PbufCounts
import FortiRdp.Net.TcpSocket

namespace FortiRdp.Net

open FortiRdp.Lwip FortiRdp.Lwip.Mem FortiRdp.Util FortiRdp.Util.HeapQueue FortiRdp.Run FortiRdp.Run.Heap

/-- A call of `send_data`: its arguments, with the bytes at the pointer, and the code of its answer. -/
structure SendCall (π : Type) where
  pdata : π
  len : Nat
  data : Bytes
  code : SndStatusCode
  deriving DecidableEq, Repr

/-- The call after one that was answered with a retry has its arguments. -/
def RetryContract {π : Type} (calls : List (SendCall π)) : Prop :=
  calls.IsChain fun c c' => c.code = .netctxSndRetry → c'.pdata = c.pdata ∧ c'.len = c.len ∧ c'.data = c.data

/-- If the last call was answered with a retry, these were its arguments. -/
def Pending {π : Type} (calls : List (SendCall π)) (pdata : π) (len : Nat) (data : Bytes) : Prop :=
  ∀ c ∈ calls.getLast?, c.code = .netctxSndRetry → c.pdata = pdata ∧ c.len = len ∧ c.data = data

section

variable {π : Type} {calls : List (SendCall π)} {pdata : π} {len : Nat} {data : Bytes}

theorem RetryContract.call (h : RetryContract calls) (hp : Pending calls pdata len data) (code : SndStatusCode) :
    RetryContract (calls ++ [⟨pdata, len, data, code⟩]) := by
  apply List.IsChain.append h (List.isChain_singleton _)
  rintro c hc _ ⟨⟩ hretry
  obtain ⟨hptr, hlen, hdata⟩ := hp c hc hretry
  exact ⟨hptr.symm, hlen.symm, hdata.symm⟩

theorem pending_call (calls : List (SendCall π)) (pdata : π) (len : Nat) (data : Bytes) (code : SndStatusCode) :
    Pending (calls ++ [⟨pdata, len, data, code⟩]) pdata len data := by
  intro c hc _
  rw [List.getLast?_append, List.getLast?_singleton] at hc
  cases hc
  exact ⟨rfl, rfl, rfl⟩

theorem pending_done {c : SendCall π} (hc : c.code ≠ .netctxSndRetry) (pdata : π) (len : Nat) (data : Bytes) :
    Pending (calls ++ [c]) pdata len data := by
  intro c' hc' hretry
  rw [List.getLast?_append, List.getLast?_singleton] at hc'
  cases hc'
  exact absurd hretry hc

end

/-! ## TcpSocket -/

/-- The loop of `TcpSocket::write` from the place `pos` of the buffer on, with the calls of `send_data`. After the
last step a call is answered with a retry, and the poll ends without an answer. -/
def writeCallsLoop (buf : Bytes) : List SndStep → Nat → List (SendCall Nat) → SndStatus × List (SendCall Nat)
  | [], pos, calls =>
    if buf.length ≤ pos then ({ code := .netctxSndOk, rc := 0, sbytes := pos }, calls)
    else
      ({ code := .netctxSndError, rc := mbedtlsErrSslTimeout, sbytes := pos },
        calls ++ [{ pdata := pos, len := buf.length - pos, data := buf.drop pos, code := .netctxSndRetry }])
  | step :: steps, pos, calls =>
    if buf.length ≤ pos then ({ code := .netctxSndOk, rc := 0, sbytes := pos }, calls)
    else
      let call code : SendCall Nat := { pdata := pos, len := buf.length - pos, data := buf.drop pos, code }
      match step with
      | .taken room =>
        writeCallsLoop buf steps (pos + min (room + 1) (buf.length - pos)) (calls ++ [call .netctxSndOk])
      | .retry _ (.ready _) => writeCallsLoop buf steps pos (calls ++ [call .netctxSndRetry])
      | .retry _ (.failed rc) =>
        ({ code := .netctxSndError, rc := rc, sbytes := pos }, calls ++ [call .netctxSndRetry])
      | .error rc => ({ code := .netctxSndError, rc := rc, sbytes := pos }, calls ++ [call .netctxSndError])

/-- The calls of one `TcpSocket::write`, and its status. -/
def tcpWriteCalls (steps : List SndStep) (buf : Bytes) : SndStatus × List (SendCall Nat) := writeCallsLoop buf steps 0 []

/-- The loop with the calls is the one of `tcpWrite`. -/
theorem writeCallsLoop_status (buf : Bytes) : ∀ (steps : List SndStep) {pos : Nat} (calls : List (SendCall Nat)),
    pos ≤ buf.length → ∀ sent : Bytes, sent.length = pos →
      (writeCallsLoop buf steps pos calls).1 = (writeLoop steps (buf.drop pos) sent).1
  | steps, pos, calls, hpos, sent, hsent => by
    by_cases hend : buf.length ≤ pos
    · rw [List.drop_eq_nil_of_le hend]
      cases steps <;> simp only [writeCallsLoop, writeLoop, if_pos hend, hsent]
    · obtain ⟨c, rest, hrest⟩ := List.exists_cons_of_ne_nil (l := buf.drop pos) fun hnil => by
        have := congrArg List.length hnil
        rw [List.length_drop, List.length_nil] at this
        omega
      have hlen : rest.length + 1 = buf.length - pos := by
        have := congrArg List.length hrest
        rw [List.length_drop, List.length_cons] at this
        exact this.symm
      rw [hrest]
      cases steps with
      | nil => simp only [writeCallsLoop, writeLoop, if_neg hend, hsent]
      | cons step steps =>
        rw [writeCallsLoop, if_neg hend]
        cases step with
        | taken room =>
          -- what is taken from the bytes that are left is taken from the buffer, and at most as far as it goes
          have hdrop : buf.drop (pos + min (room + 1) (buf.length - pos)) = (c :: rest).drop (room + 1) := by
            rw [← hrest, List.drop_drop]
            by_cases hfit : room + 1 ≤ buf.length - pos
            · rw [Nat.min_eq_left hfit]
            · rw [List.drop_eq_nil_of_le (by omega), List.drop_eq_nil_of_le (by omega)]
          simp only [writeLoop]
          rw [← hdrop]
          refine writeCallsLoop_status buf steps _ (by omega) _ ?_
          rw [List.length_append, List.length_take, List.length_cons, hsent, hlen]
        | retry rw poll =>
          cases poll with
          | ready rc =>
            simp only [writeLoop]
            rw [← hrest]
            exact writeCallsLoop_status buf steps _ hpos sent hsent
          | failed rc => simp only [writeLoop, hsent]
        | error rc => simp only [writeLoop, hsent]

theorem writeCallsLoop_contract (buf : Bytes) : ∀ (steps : List SndStep) (pos : Nat) {calls : List (SendCall Nat)},
    RetryContract calls → Pending calls pos (buf.length - pos) (buf.drop pos) →
      RetryContract (writeCallsLoop buf steps pos calls).2
  | [], pos, calls, h, hp => by
    unfold writeCallsLoop
    split
    · exact h
    · exact h.call hp _
  | step :: steps, pos, calls, h, hp => by
    unfold writeCallsLoop
    split
    · exact h
    cases step with
    | taken room =>
      exact writeCallsLoop_contract buf steps _ (h.call hp _)
        (pending_done (show SndStatusCode.netctxSndOk ≠ .netctxSndRetry by decide) _ _ _)
    | retry rw poll =>
      cases poll with
      -- the place in the buffer stays, so the next call has the arguments of this one
      | ready rc => exact writeCallsLoop_contract buf steps pos (h.call hp _) (pending_call _ _ _ _ _)
      | failed rc => exact h.call hp _
    | error rc => exact h.call hp _

/-- In one `TcpSocket::write` a retry is followed by a call with the same arguments. -/
theorem tcpWriteCalls_contract (steps : List SndStep) (buf : Bytes) : RetryContract (tcpWriteCalls steps buf).2 :=
  writeCallsLoop_contract buf steps 0 .nil nofun

namespace Mem

/-! ## OutputQueue -/

/-- The calls on the tunnel; a pointer is a pbuf and a place in its payload. -/
abbrev TunnelCall := SendCall (Option (Nat × Nat))

/-- The loop of `OutputQueue::write(net::Socket&)`, with the calls of `send_data`. A socket that is asked more
often than the list has answers is busy. -/
def sendLoop : List SndAnswer → HeapQueue → List TunnelCall → Option (SndStatus × HeapQueue × List TunnelCall)
  | [], q, calls =>
    if q.isEmpty then some ({ code := .netctxSndOk, rc := 0, sbytes := 0 }, q, calls)
    else do
      let block ← q.getHead
      let status := sendData (.retry 0) block.len
      some (status, q, calls ++ [⟨block.pdata, block.len, block.data, status.code⟩])
  | a :: answers, q, calls =>
    if q.isEmpty then some ({ code := .netctxSndOk, rc := 0, sbytes := 0 }, q, calls)
    else do
      let block ← q.getHead
      let status := sendData a block.len
      let calls := calls ++ [⟨block.pdata, block.len, block.data, status.code⟩]
      if status.code = .netctxSndOk then do
        let (moved, q) ← q.move status.sbytes
        if moved then sendLoop answers q calls
        else some ({ status with code := .netctxSndError, rc := mbedtlsErrNetSocketFailed }, q, calls)
      else some (status, q, calls)

/-- `OutputQueue::write(net::Socket&)`. -/
def writeSocket (q : HeapQueue) (answers : List SndAnswer) (calls : List TunnelCall) :
    Option (Int × HeapQueue × List TunnelCall) := do
  let (status, q, calls) ← sendLoop answers q calls
  some (if status.code = .netctxSndRetry then 0 else status.rc, q, calls)

/-- `PPInterface::send`. -/
def send (q : HeapQueue) (answers : List SndAnswer) (calls : List TunnelCall) :
    Option (Bool × HeapQueue × List TunnelCall) :=
  if q.isEmpty then some (true, q, calls)
  else do
    let (rc, q, calls) ← writeSocket q answers calls
    some (rc == 0, q, calls)

/-- The interface with the calls that its output queue has made on the tunnel. -/
structure Tunnelled where
  counts : Counts
  calls : List TunnelCall
  deriving DecidableEq, Repr

def Tunnelled.init (capacity : UInt16) : Tunnelled := { counts := .init capacity, calls := [] }

/-- What happens at the interface: a `send`, or an operation that puts frames into the queue or handles pbufs
outside of it. Only `send` takes bytes from the queue. -/
inductive TunnelOp where
  | send (answers : List SndAnswer)
  | output (op : Op) (h : takes op = false)

def tunnelStep : Machine Tunnelled TunnelOp
  | t, .send answers => do
    let (_, queue, calls) ← send t.counts.queue answers t.calls
    some { counts := { t.counts with queue }, calls }
  | t, .output op _ => (step t.counts op).map fun counts => { t with counts }

variable {s : Counts} {q : HeapQueue} {l l' : List (Nat × Pbuf)} {calls : List TunnelCall}

/-- A retry is pending for what the queue offers next: the rest of its head. -/
def PendingHead (calls : List TunnelCall) (q : HeapQueue) (l : List (Nat × Pbuf)) : Prop :=
  ∀ c ∈ calls.getLast?, c.code = .netctxSndRetry → ∃ a v, l.head? = some (a, v) ∧ c.pdata = some (a, q.offset) ∧
    c.len = v.len - q.offset ∧ c.data = v.payload.drop q.offset

/-- What is put behind the queue does not change what it offers next. -/
theorem PendingHead.front {q' : HeapQueue} (h : PendingHead calls q l) (hf : SameFront q l q' l') :
    PendingHead calls q' l' := by
  intro c hc hretry
  obtain ⟨a, v, hhead, hptr, hlen, hdata⟩ := h c hc hretry
  obtain ⟨hoff, v', hhead', hpayload⟩ := hf.1 a v hhead
  refine ⟨a, v', hhead', hoff ▸ hptr, ?_, ?_⟩
  · rw [hlen, hoff, Pbuf.len, Pbuf.len, hpayload]
  · rw [hdata, hoff, hpayload]

/-- The block that is sent is the whole rest of the head. -/
theorem getHead_block {a : Nat} {v : Pbuf} (h : Sound s ((a, v) :: l)) :
    ∃ blk, s.queue.getHead = some blk ∧ blk.pdata = some (a, s.queue.offset) ∧ blk.len = v.len - s.queue.offset ∧
      blk.data = v.payload.drop s.queue.offset := by
  obtain ⟨blk, hblk, hptr, hlen, hdata⟩ := getHead_spec h.chain
  have hv : v.len < 65536 := PBufQueue.len_lt h.wf rfl
  refine ⟨blk, hblk, hptr, ?_, ?_⟩
  · rw [hlen]
    omega
  · rw [hdata]
    exact PBufQueue.getHead_data h.wf rfl

theorem sendLoop_contract : ∀ (answers : List SndAnswer) {s : Counts} {l : List (Nat × Pbuf)}
    {calls : List TunnelCall}, Sound s l → RetryContract calls → PendingHead calls s.queue l →
      ∃ status q' l' calls', sendLoop answers s.queue calls = some (status, q', calls') ∧ Sound ⟨q', s.held⟩ l' ∧
        RetryContract calls' ∧ PendingHead calls' q' l'
  | answers, s, [], calls, h, hc, hp => by
    have hempty : s.queue.isEmpty = true := by rw [isEmpty, show s.queue.chain = none from h.chain]; rfl
    refine ⟨{ code := .netctxSndOk, rc := 0, sbytes := 0 }, s.queue, [], calls, ?_, h, hc, hp⟩
    cases answers <;> rw [sendLoop, if_pos hempty]
  | answers, s, (a, v) :: l, calls, h, hc, hp => by
    have hempty : ¬ s.queue.isEmpty = true := by rw [isEmpty, h.chain.1]; exact Bool.false_ne_true
    obtain ⟨blk, hblk, hptr, hlen, hdata⟩ := getHead_block h
    -- the pending arguments are those of the head, which is what this call sends
    have hargs : Pending calls blk.pdata blk.len blk.data := by
      intro c hlast hretry
      obtain ⟨a', v', hhead, hptr', hlen', hdata'⟩ := hp c hlast hretry
      cases hhead
      exact ⟨hptr'.trans hptr.symm, hlen'.trans hlen.symm, hdata'.trans hdata.symm⟩
    -- and whatever its answer is, this call leaves its own arguments pending
    have hhead : ∀ code, PendingHead (calls ++ [⟨blk.pdata, blk.len, blk.data, code⟩]) s.queue ((a, v) :: l) := by
      intro code c hlast hretry
      obtain ⟨hptr', hlen', hdata'⟩ := pending_call calls blk.pdata blk.len blk.data code c hlast hretry
      exact ⟨a, v, rfl, hptr'.trans hptr, hlen'.trans hlen, hdata'.trans hdata⟩
    cases answers with
    | nil =>
      refine ⟨sendData (.retry 0) blk.len, s.queue, (a, v) :: l, _, ?_, h, hc.call hargs .netctxSndRetry, hhead _⟩
      rw [sendLoop, if_neg hempty, hblk]
      rfl
    | cons x answers =>
      rw [sendLoop, if_neg hempty, hblk]
      simp only [Option.bind_eq_bind, Option.bind_some]
      by_cases hok : (sendData x blk.len).code = .netctxSndOk
      · -- the call is complete, so nothing is pending for the next one
        have hdone : ∀ q l, PendingHead (calls ++ [⟨blk.pdata, blk.len, blk.data, (sendData x blk.len).code⟩]) q l := by
          intro q l c hlast hretry
          rw [List.getLast?_append, List.getLast?_singleton] at hlast
          cases hlast
          rw [show (sendData x blk.len).code = _ from hretry] at hok
          cases hok
        obtain ⟨moved, q', l', hmove, h'⟩ := move_sound h (sendData x blk.len).sbytes
        rw [if_pos hok, hmove]
        cases moved with
        | false => exact ⟨_, q', l', _, rfl, h'.sound, hc.call hargs _, hdone q' l'⟩
        | true => exact sendLoop_contract answers h'.sound (hc.call hargs _) (hdone q' l')
      · rw [if_neg hok]
        exact ⟨_, s.queue, (a, v) :: l, _, rfl, h, hc.call hargs _, hhead _⟩

/-- The interface is in order, and if a retry is pending then the queue offers its arguments again. -/
structure Retries (t : Tunnelled) : Prop where
  sound : ∃ l, Sound t.counts l ∧ PendingHead t.calls t.counts.queue l
  contract : RetryContract t.calls

theorem init_retries (capacity : UInt16) : Retries (.init capacity) :=
  ⟨⟨[], init_sound capacity, fun _ hc => nomatch hc⟩, .nil⟩

theorem tunnelStep_retries {t : Tunnelled} (h : Retries t) (op : TunnelOp) :
    ∃ t', tunnelStep t op = some t' ∧ Retries t' := by
  obtain ⟨l, hs, hp⟩ := h.sound
  cases op with
  | send answers =>
    by_cases hempty : t.counts.queue.isEmpty = true
    · refine ⟨t, ?_, h⟩
      simp only [tunnelStep, send, if_pos hempty, Option.bind_eq_bind, Option.bind_some]
    · obtain ⟨status, q', l', calls', hrun, hs', hc', hp'⟩ := sendLoop_contract answers hs h.contract hp
      refine ⟨{ counts := { t.counts with queue := q' }, calls := calls' }, ?_, ⟨l', hs', hp'⟩, hc'⟩
      simp only [tunnelStep, send, if_neg hempty, writeSocket, hrun, Option.bind_eq_bind, Option.bind_some]
  | output op hop =>
    obtain ⟨s', l', hrun, hs', hfront⟩ := step_sound hs op
    refine ⟨{ t with counts := s' }, ?_, ⟨l', hs'.sound, hp.front (hfront hop)⟩, h.contract⟩
    simp only [tunnelStep, hrun, Option.map_some]

theorem exec_retries : ∀ (ops : List TunnelOp) {t : Tunnelled}, Retries t →
    ∃ t', exec tunnelStep t ops = some t' ∧ Retries t'
  | [], t, h => ⟨t, rfl, h⟩
  | op :: ops, t, h => by
    obtain ⟨t₁, hstep, h₁⟩ := tunnelStep_retries h op
    obtain ⟨t', hrun, h'⟩ := exec_retries ops h₁
    exact ⟨t', by rw [exec, hstep]; exact hrun, h'⟩

end Mem

/-- In every run of the interface, a call on the tunnel that was answered with a retry is followed by one with the
same pointer, length and bytes; and so it is in every `TcpSocket::write`. -/
theorem retry_same_arguments :
    (∀ (capacity : UInt16) (ops : List Mem.TunnelOp),
      ∃ t, exec Mem.tunnelStep (.init capacity) ops = some t ∧ RetryContract t.calls) ∧
    ∀ (steps : List SndStep) (buf : Bytes), RetryContract (tcpWriteCalls steps buf).2 := by
  refine ⟨fun capacity ops => ?_, tcpWriteCalls_contract⟩
  obtain ⟨t, hrun, h⟩ := Mem.exec_retries ops (Mem.init_retries capacity)
  exact ⟨t, hrun, h.contract⟩

end FortiRdp.Net
