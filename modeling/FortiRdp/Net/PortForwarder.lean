/-
The forwarding of one local connection (`PortForwarder`), together with what the lwIP stack and its
timers hold for it: the control block with the callbacks registered on it, a DNS query that was not
answered yet, and the armed timers. A callback that is called after the forwarder was deleted is
recorded and does nothing else.
-/
import FortiRdp.Net.OutputQueue
import FortiRdp.Run.Machine
import Mathlib

namespace FortiRdp.Net

open FortiRdp.Lwip FortiRdp.Util FortiRdp.Run

/-! ## What lwIP holds -/

inductive PcbState where
  | closed
  | synSent
  | established
  | closing
  deriving DecidableEq, Repr

/-- A TCP control block: whether the error, sent and receive callbacks are registered (with the
forwarder as their argument), the bytes written and not yet reported to the sent callback, the chain
that the receive callback refused, and whether the FIN of the peer was delivered. -/
structure TcpPcb where
  state : PcbState
  errCb : Bool
  sentCb : Bool
  recvCb : Bool
  unacked : Nat
  refusedData : Option (List Pbuf)
  finReceived : Bool
  deriving DecidableEq, Repr

/-- `tcp_new`. -/
def tcpNew : TcpPcb :=
  { state := .closed, errCb := false, sentCb := false, recvCb := false, unacked := 0, refusedData := none,
    finReceived := false }

/-- `tcp_close`: a control block without a connection is freed, the other one stays until the closing
handshake ends. -/
def tcpClose (p : TcpPcb) : Option TcpPcb :=
  match p.state with
  | .closed => none
  | .synSent => none
  | .established => some { p with state := .closing }
  | .closing => some p

inductive Timer where
  | connect
  | fflush
  | rflush
  deriving DecidableEq, Repr

inductive Callback where
  | dnsFoundCb
  | tcpConnectedCb
  | tcpErrCb
  | tcpSentCb
  | tcpRecvCb
  | timeoutCb
  deriving DecidableEq, Repr

/-! ## The forwarder -/

inductive PfState where
  | ready
  | failed
  | connecting
  | connected
  | disconnecting
  | disconnected
  deriving DecidableEq, Repr

/-- The members of `PortForwarder`: `localServer` says whether the socket is open, `localClient`
whether the pointer is not null. -/
structure PortForwarder where
  state : PfState
  hostname : Bytes
  localServer : Bool
  localClient : Bool
  connectTimeout : Bool
  fflushTimeout : Bool
  rflushTimeout : Bool
  replyQueue : PBufQueue
  forwardQueue : PBufQueue
  forwardedBytes : Nat
  deriving DecidableEq, Repr

/-- What can be seen of a forwarder from outside: the bytes that went into the reply queue, those that
the local socket took, whether it failed, the bytes reported to `tcp_recved`, whether the remote host
closed the connection first, and the callbacks called after the deletion. -/
structure Trace where
  replyAccepted : Bytes
  localSent : Bytes
  localSendError : Bool
  recved : Nat
  remoteFin : Bool
  dangling : List Callback
  deriving DecidableEq, Repr

/-- A forwarder and what lwIP holds for it. The timers are the numbers of entries of `sys_timeout`. -/
structure Fwd where
  pf : PortForwarder
  pcb : Option TcpPcb
  dnsPending : Bool
  connectTimer : Nat
  fflushTimer : Nat
  rflushTimer : Nat
  deleted : Bool
  trace : Trace
  deriving DecidableEq, Repr

/-- The constructor. -/
def Fwd.new (hostname : Bytes) : Fwd :=
  { pf := { state := .ready, hostname := hostname, localServer := false, localClient := false,
            connectTimeout := false, fflushTimeout := false, rflushTimeout := false,
            replyQueue := .init (8 * 1024), forwardQueue := .init (8 * 1024), forwardedBytes := 0 }
    pcb := none, dnsPending := false, connectTimer := 0, fflushTimer := 0, rflushTimer := 0, deleted := false
    trace := { replyAccepted := [], localSent := [], localSendError := false, recved := 0, remoteFin := false,
               dangling := [] } }

namespace Fwd

/-- The destructor: it removes one entry of each timer, and the socket closes itself. -/
def delete (w : Fwd) : Fwd :=
  { w with
    pf := { w.pf with localServer := false }
    connectTimer := w.connectTimer - 1, fflushTimer := w.fflushTimer - 1, rflushTimer := w.rflushTimer - 1
    deleted := true }

/-! ## Callbacks -/

/-- `dns_found_cb`; `rcCon` is the answer of `tcp_connect`. -/
def dnsFoundCb (w : Fwd) (name : Bytes) (ipaddr : Bool) (rcCon : Err) : Fwd :=
  if w.pf.hostname ≠ name then { w with pf := { w.pf with state := .failed } }
  else if ipaddr = false then { w with pf := { w.pf with state := .failed } }
  else if rcCon = .errOk then
    { w with
      pcb := w.pcb.map fun p => { p with state := .synSent, errCb := true, sentCb := true, recvCb := true }
      connectTimer := w.connectTimer + 1 }
  else { w with pf := { w.pf with state := .failed, localServer := false }, pcb := w.pcb.bind tcpClose }

/-- `tcp_connected_cb`. -/
def tcpConnectedCb (w : Fwd) : Fwd :=
  { w with pf := { w.pf with state := .connected, connectTimeout := false }, connectTimer := w.connectTimer - 1 }

/-- `tcp_err_cb`. -/
def tcpErrCb (w : Fwd) : Fwd :=
  { w with pf := { w.pf with state := .disconnected, localServer := false } }

/-- `tcp_sent_cb`: the count is a `size_t`. -/
def tcpSentCb (w : Fwd) (len : Nat) : Fwd :=
  { w with pf := { w.pf with forwardedBytes := (w.pf.forwardedBytes + 2 ^ 64 - len) % 2 ^ 64 } }

/-- `tcp_recv_cb`. A null `p` with `ERR_OK` is the FIN of the remote host. -/
def tcpRecvCb (w : Fwd) (p : List Pbuf) (err : Err) : Err × Fwd :=
  if p ≠ [] then
    if w.pf.localServer = false then (.errOk, { w with trace := { w.trace with recved := w.trace.recved + totLen p } })
    else
      let (rc, queue) := w.pf.replyQueue.push p
      if rc = false then (.errMem, w)
      else (.errOk, { w with
        pf := { w.pf with replyQueue := queue }
        trace := { w.trace with recved := w.trace.recved + totLen p
                                replyAccepted := w.trace.replyAccepted ++ content p } })
  else if err = .errOk ∧ w.pf.state = .connected then
    (.errOk, { w with
      pf := { w.pf with state := .disconnecting, localClient := false, forwardQueue := w.pf.forwardQueue.clear }
      pcb := w.pcb.bind fun p => tcpClose { p with errCb := false, recvCb := false }
      rflushTimer := w.rflushTimer + 1
      trace := { w.trace with remoteFin := true } })
  else (.errOk, w)

/-- `timeout_cb`. -/
def timeoutCb (w : Fwd) : Timer → Fwd
  | .connect => { w with pf := { w.pf with connectTimeout := true } }
  | .fflush => { w with pf := { w.pf with fflushTimeout := true } }
  | .rflush => { w with pf := { w.pf with rflushTimeout := true } }

/-! ## Methods -/

/-- `connect`: the answers of `accept`, of the DNS query, of `tcp_new` and of `tcp_connect` (when the
name is resolved at once). -/
def connect (w : Fwd) (rcAccept : Int) (rcQuery : Err) (newOk : Bool) (rcCon : Err) : Bool × Fwd :=
  if w.pf.state ≠ .ready then (false, w)
  else if rcAccept ≠ 0 then (false, { w with pf := { w.pf with state := .failed } })
  else
    let w := { w with pf := { w.pf with localServer := true } }
    if rcQuery = .errOk ∨ rcQuery = .errInprogress then
      let w := { w with pf := { w.pf with state := .connecting }, dnsPending := rcQuery == Err.errInprogress }
      if newOk then
        let w := { w with pf := { w.pf with localClient := true }, pcb := some tcpNew }
        (true, if rcQuery = .errOk then w.dnsFoundCb w.pf.hostname true rcCon else w)
      else (false, { w with pf := { w.pf with state := .failed } })
    else (false, { w with pf := { w.pf with state := .failed } })

/-- `disconnect`. -/
def disconnect (w : Fwd) : Fwd :=
  if w.pf.state ≠ .connected then w
  else { w with
    pf := { w.pf with state := .disconnecting, localServer := false, replyQueue := w.pf.replyQueue.clear }
    fflushTimer := w.fflushTimer + 1 }

/-- `tcp_abort`: the control block is freed and the error callback called. -/
def tcpAbort (w : Fwd) : Fwd :=
  if w.pcb.any TcpPcb.errCb then { w with pcb := none }.tcpErrCb else { w with pcb := none }

/-- `abort`. -/
def abort (w : Fwd) : Fwd :=
  if w.pf.state = .connected ∨ w.pf.state = .connecting then
    let w := { w with pf := { w.pf with state := .disconnecting } }.tcpAbort
    { w with pf := { w.pf with localClient := false, forwardQueue := w.pf.forwardQueue.clear
                               replyQueue := w.pf.replyQueue.clear } }
  else w

/-- `recv`: the answer of the local socket and of `pbuf_alloc`. -/
def recv (w : Fwd) (answer : RcvAnswer) (a : Alloc) : Bool × Fwd :=
  if w.pf.state ≠ .connected then (false, w)
  else
    let availableSpace := min 2048 w.pf.forwardQueue.remainingSpace
    if availableSpace = 0 then (true, w)
    else
      let (status, incoming) := recvData answer availableSpace
      if status.code ≠ .netctxRcvOk then (false, w)
      else
        match pbufAlloc a status.rbytes with
        | none => (false, w)
        | some buffer =>
          let chain := (pbufTake [buffer] incoming).2
          let chain := if status.rbytes ≠ availableSpace
            then chain.map fun p => { p with flags := pbufFlagPush } else chain
          let (rc, queue) := w.pf.forwardQueue.push chain
          if rc = false then (false, w) else (true, { w with pf := { w.pf with forwardQueue := queue } })

/-- What `tcp_write` took waits for its acknowledgement. -/
def tcpWritten (w : Fwd) (blocks : List Cblock) : Option TcpPcb :=
  w.pcb.map fun p => { p with unacked := p.unacked + (blocks.flatMap Cblock.data).length }

/-- `forward`: the answers of the send buffer and `tcp_write`, whether segments are unsent, and the
answer of `tcp_output`. -/
def forward (w : Fwd) (answers : List (Nat × Err)) (unsent : Bool) (output : Err) : Bool × Fwd :=
  if w.pf.state ≠ .connected then (false, w)
  else
    let (rc, queue, blocks) := writeTcp w.pf.forwardQueue answers unsent output
    let written := (blocks.flatMap Cblock.data).length
    let forwarded := if rc = .errOk then (w.pf.forwardedBytes + written) % 2 ^ 64 else w.pf.forwardedBytes
    (decide (rc = .errOk), { w with pf := { w.pf with forwardQueue := queue, forwardedBytes := forwarded }
                                    pcb := w.tcpWritten blocks })

/-- The reply queue written to the local socket. -/
def writeReply (w : Fwd) (answers : List SndAnswer) : Int × Fwd :=
  let (rc, queue, sent) := writeSocket w.pf.replyQueue answers
  let failed := (sendLoop answers w.pf.replyQueue []).1.code == .netctxSndError
  (rc, { w with
    pf := { w.pf with replyQueue := queue }
    trace := { w.trace with localSent := w.trace.localSent ++ sent
                            localSendError := w.trace.localSendError || failed } })

/-- `reply`. -/
def reply (w : Fwd) (answers : List SndAnswer) : Bool × Fwd :=
  if w.pf.state ≠ .connected then (false, w)
  else
    let (rc, w) := w.writeReply answers
    (rc == 0, w)

/-- `flush_forward_queue`. -/
def flushForwardQueue (w : Fwd) (answers : List (Nat × Err)) (unsent : Bool) (output : Err) : Fwd :=
  if w.pf.state ≠ .disconnecting then w
  else
    let (rc, queue, blocks) := writeTcp w.pf.forwardQueue answers unsent output
    let w := { w with pf := { w.pf with forwardQueue := queue }, pcb := w.tcpWritten blocks }
    if rc ≠ .errOk ∨ w.pf.fflushTimeout = true ∨ w.pf.forwardQueue.isEmpty = true then
      { w with
        pf := { w.pf with forwardQueue := w.pf.forwardQueue.clear, localClient := false, state := .disconnected }
        pcb := w.pcb.bind fun p => tcpClose { p with errCb := false, recvCb := false } }
    else w

/-- `flush_reply_queue`. The queue that is tested is the forward queue. -/
def flushReplyQueue (w : Fwd) (answers : List SndAnswer) : Fwd :=
  if w.pf.state ≠ .disconnecting then w
  else
    let (rc, w) := w.writeReply answers
    if rc ≠ 0 ∨ w.pf.rflushTimeout = true ∨ w.pf.forwardQueue.isEmpty = true then
      { w with pf := { w.pf with forwardQueue := w.pf.forwardQueue.clear, localServer := false
                                 state := .disconnected } }
    else w

/-! ## What the main loop does with a forwarder -/

/-- The pass over the local sockets. -/
def localIo (w : Fwd) (readable writable : Bool) (rcv : RcvAnswer) (a : Alloc) (snd : List SndAnswer) : Fwd :=
  if w.pf.state = .connected then
    let w := if readable then
        let (ok, w) := w.recv rcv a
        if ok then w else w.disconnect
      else w
    if writable then
      let (ok, w) := w.reply snd
      if ok then w else w.disconnect
    else w
  else if w.pf.state = .disconnecting ∧ writable = true ∧ w.pf.localServer = true then w.flushReplyQueue snd
  else w

/-- `has_data_to_forward`; `sndbuf` is the space of the send buffer. -/
def hasDataToForward (w : Fwd) (unsent : Bool) (sndbuf : Nat) : Bool :=
  unsent || (!w.pf.forwardQueue.isEmpty && sndbuf != 0)

/-- A connection that timed out is aborted (`has_connection_timed_out`). -/
def abortTimedOut (w : Fwd) : Fwd :=
  if w.pf.state = .connecting ∧ w.pf.connectTimeout = true then w.abort else w

/-- The pass over the lwIP side. -/
def forwardPass (w : Fwd) (sndbuf : Nat) (answers : List (Nat × Err)) (unsent : Bool) (output : Err) : Fwd :=
  let w := w.abortTimedOut
  if w.pf.state = .connected then
    if w.hasDataToForward unsent sndbuf then
      let (ok, w) := w.forward answers unsent output
      if ok then w else w.disconnect
    else w
  else if w.pf.state = .disconnecting ∧ w.pf.localClient = true then w.flushForwardQueue answers unsent output
  else w

/-- The part of `abort_all` for one forwarder. -/
def abortConnected (w : Fwd) : Fwd := if w.pf.state = .connected then w.abort else w

end Fwd

/-! ## Steps -/

/-- What lwIP may do next. -/
inductive LwipEvent where
  | dnsFound (name : Bytes) (ipaddr : Bool) (rcCon : Err)
  | tcpConnected
  | tcpErr
  | tcpSent (len : Nat)
  | tcpRecv (p : PbufChain)
  | tcpFin
  | pcbFreed
  | timeout (t : Timer)

/-- A callback with the forwarder as its argument. -/
def Fwd.call (w : Fwd) (cb : Callback) (f : Fwd → Fwd) : Fwd :=
  if w.deleted then { w with trace := { w.trace with dangling := w.trace.dangling ++ [cb] } } else f w

/-- The event, when lwIP can produce it in this state. -/
def Fwd.lwip (w : Fwd) : LwipEvent → Option Fwd
  | .dnsFound name ipaddr rcCon =>
    if w.dnsPending then some ({ w with dnsPending := false }.call .dnsFoundCb (·.dnsFoundCb name ipaddr rcCon))
    else none
  | .tcpConnected =>
    w.pcb.bind fun p =>
      if p.state = .synSent then
        some ({ w with pcb := some { p with state := .established } }.call .tcpConnectedCb Fwd.tcpConnectedCb)
      else none
  | .tcpErr =>
    w.pcb.bind fun p =>
      if p.state = .closed then none
      else if p.errCb then some ({ w with pcb := none }.call .tcpErrCb Fwd.tcpErrCb)
      else some { w with pcb := none }
  | .tcpSent len =>
    w.pcb.bind fun p =>
      if (p.state = .established ∨ p.state = .closing) ∧ 0 < len ∧ len ≤ p.unacked then
        let w := { w with pcb := some { p with unacked := p.unacked - len } }
        some (if p.sentCb then w.call .tcpSentCb (·.tcpSentCb len) else w)
      else none
  | .tcpRecv c =>
    w.pcb.bind fun p =>
      if p.state = .established ∧ p.finReceived = false ∧ (p.refusedData = none ∨ p.refusedData = some c.pbufs) then
        if p.recvCb then
          some (w.call .tcpRecvCb fun w =>
            let (rc, w) := w.tcpRecvCb c.pbufs .errOk
            { w with pcb := w.pcb.map fun p =>
              { p with refusedData := if rc = .errOk then none else some c.pbufs } })
        else some w
      else none
  | .tcpFin =>
    w.pcb.bind fun p =>
      if p.state = .established ∧ p.finReceived = false ∧ p.refusedData = none then
        let w := { w with pcb := some { p with finReceived := true } }
        some (if p.recvCb then w.call .tcpRecvCb fun w => (w.tcpRecvCb [] .errOk).2 else w)
      else none
  | .pcbFreed =>
    w.pcb.bind fun p => if p.state = .closing then some { w with pcb := none } else none
  | .timeout .connect =>
    if 0 < w.connectTimer then
      some ({ w with connectTimer := w.connectTimer - 1 }.call .timeoutCb (·.timeoutCb .connect))
    else none
  | .timeout .fflush =>
    if 0 < w.fflushTimer then
      some ({ w with fflushTimer := w.fflushTimer - 1 }.call .timeoutCb (·.timeoutCb .fflush))
    else none
  | .timeout .rflush =>
    if 0 < w.rflushTimer then
      some ({ w with rflushTimer := w.rflushTimer - 1 }.call .timeoutCb (·.timeoutCb .rflush))
    else none

/-- What the tunneler may do with a forwarder. -/
inductive PfOp where
  | localIo (readable writable : Bool) (rcv : RcvAnswer) (a : Alloc) (snd : List SndAnswer)
  | forwardPass (sndbuf : Nat) (answers : List (Nat × Err)) (unsent : Bool) (output : Err)
  | abortConnected
  | delete

def Fwd.op (w : Fwd) : PfOp → Fwd
  | .localIo readable writable rcv a snd => w.localIo readable writable rcv a snd
  | .forwardPass sndbuf answers unsent output => w.forwardPass sndbuf answers unsent output
  | .abortConnected => w.abortConnected
  | .delete => w.delete

inductive PfAction where
  | lwip (e : LwipEvent)
  | op (o : PfOp)

/-- A new forwarder for a connection that the listener has: `connect`, and the deletion when it could
not. -/
def Fwd.accept (hostname : Bytes) (rcAccept : Int) (rcQuery : Err) (newOk : Bool) (rcCon : Err) : Bool × Fwd :=
  let (ok, w) := (Fwd.new hostname).connect rcAccept rcQuery newOk rcCon
  (ok, if ok then w else w.delete)

/-- A forwarder with lwIP and the tunneler around it, in any order. -/
def forwarder : Machine Fwd PfAction
  | w, .lwip e => w.lwip e
  | w, .op o => if w.deleted then none else some (w.op o)

end FortiRdp.Net
