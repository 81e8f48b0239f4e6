/-
The life of a forwarder: the stages it goes through, what the forwarder and lwIP hold in each of
them, and that every step of the code moves along the edges between the stages.
-/
import FortiRdp.Net.PortForwarder

namespace FortiRdp.Net

open FortiRdp.Lwip FortiRdp.Util FortiRdp.Run

/-! ## Stages -/

/-- The stages of a forwarder. While it disconnects it empties one of its queues: the forward queue
after a local close, the reply queue after a remote one. -/
inductive Stage where
  | ready
  | resolving
  | connecting
  | connected
  | flushForward
  | flushReply
  | failed
  | disconnected
  deriving DecidableEq, Repr

/-- The edges of the life of a forwarder. -/
inductive Stage.Next : Stage → Stage → Prop
  | resolve : Next .ready .resolving
  | connect : Next .ready .connecting
  | reject : Next .ready .failed
  | resolved : Next .resolving .connecting
  | unresolved : Next .resolving .failed
  | established : Next .connecting .connected
  | refused : Next .connecting .disconnected
  | localClose : Next .connected .flushForward
  | remoteClose : Next .connected .flushReply
  | reset : Next .connected .disconnected
  | forwarded : Next .flushForward .disconnected
  | replied : Next .flushReply .disconnected

/-- A connection in state `s` with all callbacks registered. -/
structure Wired (s : PcbState) (p : TcpPcb) : Prop where
  state : p.state = s
  err : p.errCb = true
  recv : p.recvCb = true

/-- A connection that the forwarder closed: the error and receive callbacks are removed. -/
structure Leaving (p : TcpPcb) : Prop where
  state : p.state = .closing
  err : p.errCb = false
  recv : p.recvCb = false

/-- At most `c`, `f` and `r` entries of the three timers. -/
def Fwd.Timers (w : Fwd) (c f r : Nat) : Prop := w.connectTimer ≤ c ∧ w.fflushTimer ≤ f ∧ w.rflushTimer ≤ r

/-- What the forwarder and lwIP hold in each stage. -/
inductive Phase (w : Fwd) : Stage → Prop
  | ready (state : w.pf.state = .ready) (pcb : w.pcb = none) (dns : w.dnsPending = false)
      (noTimeout : w.pf.connectTimeout = false) (timers : w.Timers 0 0 0) : Phase w .ready
  | resolving (state : w.pf.state = .connecting) (server : w.pf.localServer = true)
      (client : w.pf.localClient = true) (pcb : w.pcb = some tcpNew) (dns : w.dnsPending = true)
      (noTimeout : w.pf.connectTimeout = false) (timers : w.Timers 0 0 0) : Phase w .resolving
  | connecting {p : TcpPcb} (state : w.pf.state = .connecting) (server : w.pf.localServer = true)
      (client : w.pf.localClient = true) (pcb : w.pcb = some p) (wired : Wired .synSent p)
      (dns : w.dnsPending = false) (timers : w.Timers 1 0 0) : Phase w .connecting
  | connected {p : TcpPcb} (state : w.pf.state = .connected) (server : w.pf.localServer = true)
      (client : w.pf.localClient = true) (pcb : w.pcb = some p) (wired : Wired .established p)
      (dns : w.dnsPending = false) (timers : w.Timers 0 0 0) : Phase w .connected
  | flushForward {p : TcpPcb} (state : w.pf.state = .disconnecting) (server : w.pf.localServer = false)
      (client : w.pf.localClient = true) (pcb : w.pcb = some p) (wired : Wired .established p)
      (dns : w.dnsPending = false) (timers : w.Timers 0 1 0) : Phase w .flushForward
  | flushReply (state : w.pf.state = .disconnecting) (server : w.pf.localServer = true)
      (client : w.pf.localClient = false) (pcb : ∀ p, w.pcb = some p → Leaving p)
      (dns : w.dnsPending = false) (forward : w.pf.forwardQueue.chain = []) (timers : w.Timers 0 0 1) :
      Phase w .flushReply
  | failed (state : w.pf.state = .failed) (pcb : ∀ p, w.pcb = some p → p = tcpNew)
      (dns : w.dnsPending = false) (timers : w.Timers 0 0 0) : Phase w .failed
  | disconnected (state : w.pf.state = .disconnected) (server : w.pf.localServer = false)
      (pcb : ∀ p, w.pcb = some p → Leaving p) (dns : w.dnsPending = false) (timers : w.Timers 1 1 1) :
      Phase w .disconnected

/-- `w'` is in the same stage as `w` or in a next one. -/
def Moves (s : Stage) (w' : Fwd) : Prop := ∃ s', Phase w' s' ∧ (s' = s ∨ Stage.Next s s')

theorem Moves.stay {s : Stage} {w : Fwd} (h : Phase w s) : Moves s w := ⟨s, h, .inl rfl⟩

theorem Moves.next {s s' : Stage} {w : Fwd} (h : Phase w s') (hn : Stage.Next s s') : Moves s w := ⟨s', h, .inr hn⟩

theorem phase_new (hostname : Bytes) : Phase (.new hostname) .ready :=
  .ready rfl rfl rfl rfl ⟨le_rfl, le_rfl, le_rfl⟩

/-- The stage does not depend on the reply queue, the count of bytes in transit and the trace. A timer
may also expire: none is armed before there is a connection, so the flag of the first stages stays
clear. -/
theorem Phase.frame {w w' : Fwd} {s : Stage} (h : Phase w s)
    (pf : (w'.pf.state, w'.pf.localServer, w'.pf.localClient) = (w.pf.state, w.pf.localServer, w.pf.localClient))
    (timeout : 0 < w.connectTimer ∨ w'.pf.connectTimeout = w.pf.connectTimeout)
    (queue : w'.pf.forwardQueue = w.pf.forwardQueue) (pcb : w'.pcb = w.pcb) (dns : w'.dnsPending = w.dnsPending)
    (timers : w'.Timers w.connectTimer w.fflushTimer w.rflushTimer) : Phase w' s := by
  simp only [Prod.mk.injEq] at pf
  obtain ⟨state, server, client⟩ := pf
  have ht : ∀ {c f r : Nat}, w.Timers c f r → w'.Timers c f r := fun h =>
    ⟨timers.1.trans h.1, timers.2.1.trans h.2.1, timers.2.2.trans h.2.2⟩
  cases h with
  | ready h1 h2 h3 h4 h5 =>
    have hz := h5.1
    exact .ready (state.trans h1) (pcb.trans h2) (dns.trans h3) ((timeout.resolve_left (by omega)).trans h4) (ht h5)
  | resolving h1 h2 h3 h4 h5 h6 h7 =>
    have hz := h7.1
    exact .resolving (state.trans h1) (server.trans h2) (client.trans h3) (pcb.trans h4) (dns.trans h5)
      ((timeout.resolve_left (by omega)).trans h6) (ht h7)
  | connecting h1 h2 h3 h4 h5 h6 h7 =>
    exact .connecting (state.trans h1) (server.trans h2) (client.trans h3) (pcb.trans h4) h5 (dns.trans h6) (ht h7)
  | connected h1 h2 h3 h4 h5 h6 h7 =>
    exact .connected (state.trans h1) (server.trans h2) (client.trans h3) (pcb.trans h4) h5 (dns.trans h6) (ht h7)
  | flushForward h1 h2 h3 h4 h5 h6 h7 =>
    exact .flushForward (state.trans h1) (server.trans h2) (client.trans h3) (pcb.trans h4) h5 (dns.trans h6) (ht h7)
  | flushReply h1 h2 h3 h4 h5 h6 h7 =>
    exact .flushReply (state.trans h1) (server.trans h2) (client.trans h3) (pcb ▸ h4) (dns.trans h5)
      (by rw [queue, h6]) (ht h7)
  | failed h1 h2 h3 h4 => exact .failed (state.trans h1) (pcb ▸ h2) (dns.trans h3) (ht h4)
  | disconnected h1 h2 h3 h4 h5 =>
    exact .disconnected (state.trans h1) (server.trans h2) (pcb ▸ h3) (dns.trans h4) (ht h5)

/-! ## Methods and callbacks -/

theorem phase_dnsFoundCb {w : Fwd} (state : w.pf.state = .connecting) (server : w.pf.localServer = true)
    (client : w.pf.localClient = true) (pcb : w.pcb = some tcpNew) (dns : w.dnsPending = false)
    (timers : w.Timers 0 0 0) (name : Bytes) (ipaddr : Bool) (rcCon : Err) :
    Phase (w.dnsFoundCb name ipaddr rcCon) .failed ∨ Phase (w.dnsFoundCb name ipaddr rcCon) .connecting := by
  have hpcb : ∀ p, w.pcb = some p → p = tcpNew := fun p hp => Option.some.inj (hp.symm.trans pcb)
  unfold Fwd.dnsFoundCb
  split
  · exact .inl (.failed rfl hpcb dns timers)
  split
  · exact .inl (.failed rfl hpcb dns timers)
  split
  · refine .inr (.connecting state server client (by rw [pcb]; rfl) ⟨rfl, rfl, rfl⟩ dns ?_)
    exact ⟨Nat.succ_le_succ timers.1, timers.2⟩
  · refine .inl (.failed rfl ?_ dns timers)
    simp [pcb, tcpClose, tcpNew]

/-- A forwarder that was told to connect is on its way, or failed. -/
theorem connect_phase {w : Fwd} (h : Phase w .ready) (rcAccept : Int) (rcQuery : Err) (newOk : Bool) (rcCon : Err)
    (hok : (w.connect rcAccept rcQuery newOk rcCon).1 = true) :
    Moves .ready (w.connect rcAccept rcQuery newOk rcCon).2 := by
  cases h with
  | ready state pcb dns noTimeout timers =>
    unfold Fwd.connect at hok ⊢
    simp only [state, ne_eq, not_true_eq_false, if_false] at hok ⊢
    split at hok
    · cases hok
    rename_i hacc
    split at hok
    · rename_i hq
      split at hok
      · rename_i hnew
        rw [if_neg hacc, if_pos hq, if_pos hnew]
        simp only
        split
        · rename_i hq
          subst hq
          rcases phase_dnsFoundCb (w := { w with
              pf := { w.pf with state := .connecting, localServer := true, localClient := true }
              pcb := some tcpNew, dnsPending := false }) rfl rfl rfl rfl rfl timers w.pf.hostname true rcCon with h | h
          · exact .next h .reject
          · exact .next h .connect
        · rename_i hne
          have hq : rcQuery = .errInprogress := hq.resolve_left hne
          subst hq
          exact .next (.resolving rfl rfl rfl rfl rfl noTimeout timers) .resolve
      · cases hok
    · cases hok

theorem disconnect_phase {w : Fwd} (h : Phase w .connected) : Phase w.disconnect .flushForward := by
  cases h with
  | connected state server client pcb wired dns timers =>
    unfold Fwd.disconnect
    rw [if_neg (by simp [state])]
    exact .flushForward rfl rfl client pcb wired dns ⟨timers.1, Nat.succ_le_succ timers.2.1, timers.2.2⟩

/-- Aborting a connection ends it at once: lwIP calls the error callback. -/
theorem abort_phase {w : Fwd} {s : Stage} (h : Phase w s) (hs : s = .connecting ∨ s = .connected) :
    Phase w.abort .disconnected := by
  have key : ∀ {p : TcpPcb}, w.pcb = some p → p.errCb = true → w.dnsPending = false → w.Timers 1 1 1 →
      (w.pf.state = .connected ∨ w.pf.state = .connecting) → Phase w.abort .disconnected := by
    intro p pcb err dns timers state
    unfold Fwd.abort Fwd.tcpAbort
    rw [if_pos state]
    simp only [pcb, Option.any_some, err, if_true]
    exact .disconnected rfl rfl (by simp [Fwd.tcpErrCb]) dns timers
  rcases hs with rfl | rfl
  · cases h with
    | connecting state server client pcb wired dns timers =>
      exact key pcb wired.err dns ⟨timers.1, by have := timers.2.1; omega, by have := timers.2.2; omega⟩ (.inr state)
  · cases h with
    | connected state server client pcb wired dns timers =>
      exact key pcb wired.err dns
        ⟨by have := timers.1; omega, by have := timers.2.1; omega, by have := timers.2.2; omega⟩ (.inl state)

/-- `recv` touches nothing but the forward queue. -/
theorem recv_eq (w : Fwd) (rcv : RcvAnswer) (a : Alloc) :
    ∃ queue, (w.recv rcv a).2 = { w with pf := { w.pf with forwardQueue := queue } } := by
  unfold Fwd.recv
  split
  · exact ⟨_, rfl⟩
  simp only
  split
  · exact ⟨_, rfl⟩
  split
  · exact ⟨_, rfl⟩
  cases pbufAlloc a (recvData rcv (min 2048 w.pf.forwardQueue.remainingSpace)).1.rbytes with
  | none => exact ⟨_, rfl⟩
  | some buffer =>
    simp only
    generalize PBufQueue.push w.pf.forwardQueue _ = r
    obtain ⟨rc, queue⟩ := r
    cases rc with
    | false => exact ⟨_, rfl⟩
    | true => exact ⟨queue, rfl⟩

theorem recv_phase {w : Fwd} (h : Phase w .connected) (rcv : RcvAnswer) (a : Alloc) :
    Phase (w.recv rcv a).2 .connected := by
  obtain ⟨queue, hq⟩ := recv_eq w rcv a
  rw [hq]
  cases h with
  | connected state server client pcb wired dns timers => exact .connected state server client pcb wired dns timers

theorem writeReply_phase {w : Fwd} {s : Stage} (h : Phase w s) (snd : List SndAnswer) :
    Phase (w.writeReply snd).2 s :=
  h.frame rfl (.inr rfl) rfl rfl rfl ⟨le_rfl, le_rfl, le_rfl⟩

/-- The forward queue of a forwarder that empties its reply queue is empty, so the first flush ends
the forwarder whatever is left in the reply queue. -/
theorem flushReplyQueue_phase {w : Fwd} (h : Phase w .flushReply) (snd : List SndAnswer) :
    Phase (w.flushReplyQueue snd) .disconnected := by
  have hw := writeReply_phase h snd
  unfold Fwd.flushReplyQueue
  cases h with
  | flushReply state server client pcb dns forward timers =>
    rw [if_neg (by simp [state])]
    cases hw with
    | flushReply state server client pcb dns forward timers =>
      simp only
      rw [if_pos (.inr (.inr (by simpa using forward)))]
      exact .disconnected rfl rfl pcb dns
        ⟨by have := timers.1; simp only; omega, by have := timers.2.1; simp only; omega, timers.2.2⟩

theorem forward_phase {w : Fwd} (h : Phase w .connected) (answers : List (Nat × Err)) (unsent : Bool) (output : Err) :
    Phase (w.forward answers unsent output).2 .connected := by
  unfold Fwd.forward
  split
  · exact h
  · cases h with
    | connected state server client pcb wired dns timers =>
      simp only [Fwd.tcpWritten, pcb, Option.map_some]
      exact .connected state server client rfl ⟨wired.state, wired.err, wired.recv⟩ dns timers

theorem flushForwardQueue_phase {w : Fwd} (h : Phase w .flushForward) (answers : List (Nat × Err)) (unsent : Bool)
    (output : Err) : Moves .flushForward (w.flushForwardQueue answers unsent output) := by
  unfold Fwd.flushForwardQueue
  cases h with
  | @flushForward p state server client pcb wired dns timers =>
    rw [if_neg (by simp [state])]
    simp only [Fwd.tcpWritten, pcb, Option.map_some]
    split
    · refine .next (.disconnected rfl server ?_ dns
        ⟨by have := timers.1; simp only; omega, timers.2.1, by have := timers.2.2; simp only; omega⟩) .forwarded
      simp only [Option.bind_some, tcpClose, wired.state]
      rintro _ ⟨⟩
      exact ⟨rfl, rfl, rfl⟩
    · exact .stay (.flushForward state server client rfl ⟨wired.state, wired.err, wired.recv⟩ dns timers)

/-! ## Steps -/

/-- The state of the forwarder in a stage, as its code tests it. -/
@[simp] def Stage.state : Stage → PfState
  | .ready => .ready
  | .resolving => .connecting
  | .connecting => .connecting
  | .connected => .connected
  | .flushForward => .disconnecting
  | .flushReply => .disconnecting
  | .failed => .failed
  | .disconnected => .disconnected

theorem Phase.state_eq {w : Fwd} {s : Stage} (h : Phase w s) : w.pf.state = s.state := by
  cases h <;> assumption

/-- A method that failed is followed by `disconnect`. -/
def Fwd.orDisconnect (r : Bool × Fwd) : Fwd := if r.1 = true then r.2 else r.2.disconnect

/-- The pass over the local sockets up to `reply`. -/
def Fwd.afterRecv (w : Fwd) (readable : Bool) (rcv : RcvAnswer) (a : Alloc) : Fwd :=
  if readable then
    let (ok, w) := w.recv rcv a
    if ok then w else w.disconnect
  else w

theorem afterRecv_eq (w : Fwd) (readable : Bool) (rcv : RcvAnswer) (a : Alloc) :
    w.afterRecv readable rcv a = if readable = true then .orDisconnect (w.recv rcv a) else w := rfl

/-- The pass over the local sockets of a connection. -/
theorem localIo_connected {w : Fwd} (h : w.pf.state = .connected) (readable writable : Bool) (rcv : RcvAnswer) (a : Alloc)
    (snd : List SndAnswer) : w.localIo readable writable rcv a snd =
      if writable = true then .orDisconnect ((w.afterRecv readable rcv a).reply snd) else w.afterRecv readable rcv a := by
  unfold Fwd.localIo
  rw [if_pos h]
  rfl

/-- The pass over the lwIP side of a connection that has data. -/
theorem forwardPass_connected {w : Fwd} (h : w.pf.state = .connected) {sndbuf : Nat} {unsent : Bool}
    (hdata : w.hasDataToForward unsent sndbuf = true) (answers : List (Nat × Err)) (output : Err) :
    w.forwardPass sndbuf answers unsent output = .orDisconnect (w.forward answers unsent output) := by
  have hidle : w.abortTimedOut = w := if_neg (by rw [h]; rintro ⟨⟨⟩, -⟩)
  unfold Fwd.forwardPass
  simp only [hidle]
  rw [if_pos h, if_pos hdata]
  rfl

theorem localIo_phase {w : Fwd} {s : Stage} (h : Phase w s) (readable writable : Bool) (rcv : RcvAnswer) (a : Alloc)
    (snd : List SndAnswer) : Moves s (w.localIo readable writable rcv a snd) := by
  have hstate := h.state_eq
  cases s with
  | connected =>
    -- the reading side either keeps the connection or starts the disconnection
    have hread : Phase (w.afterRecv readable rcv a) .connected ∨ Phase (w.afterRecv readable rcv a) .flushForward := by
      have hrecv := recv_phase h rcv a
      rw [afterRecv_eq]
      unfold Fwd.orDisconnect
      split
      · split
        · exact .inl hrecv
        · exact .inr (disconnect_phase hrecv)
      · exact .inl h
    rw [localIo_connected hstate]
    generalize w.afterRecv readable rcv a = r at hread
    unfold Fwd.orDisconnect
    rcases hread with h | h
    · split
      · have hrep : Phase (r.reply snd).2 .connected := by
          unfold Fwd.reply
          rw [if_neg (by simp [h.state_eq])]
          exact writeReply_phase h snd
        split
        · exact .stay hrep
        · exact .next (disconnect_phase hrep) .localClose
      · exact .stay h
    · split
      · have hrep : r.reply snd = (false, r) := by
          unfold Fwd.reply
          rw [if_pos (by simp [h.state_eq])]
        have hdis : r.disconnect = r := by
          unfold Fwd.disconnect
          rw [if_pos (by simp [h.state_eq])]
        rw [hrep]
        simp only [Bool.false_eq_true, if_false, hdis]
        exact .next h .localClose
      · exact .next h .localClose
  | flushForward =>
    unfold Fwd.localIo
    rw [if_neg (by simp [hstate])]
    cases h with
    | flushForward state server client pcb wired dns timers =>
      rw [if_neg (by simp [server])]
      exact .stay (.flushForward state server client pcb wired dns timers)
  | flushReply =>
    unfold Fwd.localIo
    rw [if_neg (by simp [hstate])]
    split
    · exact .next (flushReplyQueue_phase h snd) .replied
    · exact .stay h
  | ready | resolving | connecting | failed | disconnected =>
    unfold Fwd.localIo
    rw [if_neg (by simp [hstate]), if_neg (by simp [hstate])]
    exact .stay h

/-- Only a forwarder that is connecting can time out. -/
theorem abortTimedOut_eq {w : Fwd} {s : Stage} (h : Phase w s) (hs : s ≠ .connecting) : w.abortTimedOut = w := by
  unfold Fwd.abortTimedOut
  apply if_neg
  rintro ⟨hstate, htimeout⟩
  rw [h.state_eq] at hstate
  cases h with
  | connecting => exact hs rfl
  | resolving state server client pcb dns noTimeout timers => rw [noTimeout] at htimeout; cases htimeout
  | ready | connected | flushForward | flushReply | failed | disconnected => cases hstate

theorem forwardPass_phase {w : Fwd} {s : Stage} (h : Phase w s) (sndbuf : Nat) (answers : List (Nat × Err))
    (unsent : Bool) (output : Err) : Moves s (w.forwardPass sndbuf answers unsent output) := by
  have hstate := h.state_eq
  unfold Fwd.forwardPass
  cases s with
  | connecting =>
    unfold Fwd.abortTimedOut
    split
    · have ha := abort_phase h (.inl rfl)
      simp only [ha.state_eq, Stage.state, reduceCtorEq, false_and, if_false]
      exact .next ha .refused
    · simp only [hstate, Stage.state, reduceCtorEq, false_and, if_false]
      exact .stay h
  | connected =>
    simp only [abortTimedOut_eq h, ne_eq, reduceCtorEq, not_false_eq_true, hstate, Stage.state, if_true]
    split
    · have hf := forward_phase h answers unsent output
      generalize w.forward answers unsent output = r at hf
      obtain ⟨ok, w⟩ := r
      simp only at hf ⊢
      split
      · exact .stay hf
      · exact .next (disconnect_phase hf) .localClose
    · exact .stay h
  | flushForward =>
    simp only [abortTimedOut_eq h, ne_eq, reduceCtorEq, not_false_eq_true, hstate, Stage.state, if_false, true_and]
    split
    · exact flushForwardQueue_phase h answers unsent output
    · exact .stay h
  | flushReply =>
    have hclient : w.pf.localClient = false := by cases h; assumption
    simp only [abortTimedOut_eq h, ne_eq, reduceCtorEq, not_false_eq_true, hstate, hclient, Stage.state,
      Bool.false_eq_true, and_false, if_false]
    exact .stay h
  | ready | resolving | failed | disconnected =>
    simp only [abortTimedOut_eq h, ne_eq, reduceCtorEq, not_false_eq_true, hstate, Stage.state, false_and, if_false]
    exact .stay h

theorem abortConnected_phase {w : Fwd} {s : Stage} (h : Phase w s) : Moves s w.abortConnected := by
  have hstate := h.state_eq
  unfold Fwd.abortConnected
  split
  · rename_i hc
    rw [hstate] at hc
    cases s with
    | connected => exact .next (abort_phase h (.inr rfl)) .reset
    | ready | resolving | connecting | flushForward | flushReply | failed | disconnected => cases hc
  · exact .stay h

/-! ## Events of the stack -/

theorem call_alive {w : Fwd} (alive : w.deleted = false) (cb : Callback) (f : Fwd → Fwd) : w.call cb f = f w := by
  unfold Fwd.call
  rw [alive]
  rfl

/-- The resolver answers a query. -/
theorem dnsPending_of_lwip {w w' : Fwd} {name : Bytes} {ipaddr : Bool} {rcCon : Err}
    (hs : w.lwip (.dnsFound name ipaddr rcCon) = some w') : w.dnsPending = true :=
  (Option.ite_none_right_eq_some.1 hs).1

/-- lwIP keeps a chain that the callback refuses. -/
def Fwd.keepRefused (c : PbufChain) (r : Err × Fwd) : Fwd :=
  { r.2 with pcb := r.2.pcb.map fun p => { p with refusedData := if r.1 = .errOk then none else some c.pbufs } }

/-- What an event does to a forwarder that exists: a callback that is registered runs on what lwIP has changed. -/
inductive LwipStep (w : Fwd) : LwipEvent → Fwd → Prop
  | dnsFound {name : Bytes} {ipaddr : Bool} {rcCon : Err} (pending : w.dnsPending = true) :
    LwipStep w (.dnsFound name ipaddr rcCon) ({ w with dnsPending := false }.dnsFoundCb name ipaddr rcCon)
  | tcpConnected {p : TcpPcb} (pcb : w.pcb = some p) (state : p.state = .synSent) :
    LwipStep w .tcpConnected { w with pcb := some { p with state := .established } }.tcpConnectedCb
  | tcpErr {p : TcpPcb} (pcb : w.pcb = some p) (connection : p.state ≠ .closed) (cb : p.errCb = true) :
    LwipStep w .tcpErr { w with pcb := none }.tcpErrCb
  | tcpErrSilent {p : TcpPcb} (pcb : w.pcb = some p) (connection : p.state ≠ .closed) (cb : p.errCb = false) :
    LwipStep w .tcpErr { w with pcb := none }
  | tcpSent {p : TcpPcb} {len : Nat} (pcb : w.pcb = some p) (connection : p.state = .established ∨ p.state = .closing)
      (bound : 0 < len ∧ len ≤ p.unacked) (cb : p.sentCb = true) :
    LwipStep w (.tcpSent len) ({ w with pcb := some { p with unacked := p.unacked - len } }.tcpSentCb len)
  | tcpSentSilent {p : TcpPcb} {len : Nat} (pcb : w.pcb = some p)
      (connection : p.state = .established ∨ p.state = .closing) (bound : 0 < len ∧ len ≤ p.unacked)
      (cb : p.sentCb = false) : LwipStep w (.tcpSent len) { w with pcb := some { p with unacked := p.unacked - len } }
  | tcpRecv {p : TcpPcb} {c : PbufChain} (pcb : w.pcb = some p) (connection : p.state = .established ∧
      p.finReceived = false ∧ (p.refusedData = none ∨ p.refusedData = some c.pbufs)) (cb : p.recvCb = true) :
    LwipStep w (.tcpRecv c) (.keepRefused c (w.tcpRecvCb c.pbufs .errOk))
  | tcpRecvSilent {p : TcpPcb} {c : PbufChain} (pcb : w.pcb = some p) (cb : p.recvCb = false) : LwipStep w (.tcpRecv c) w
  | tcpFin {p : TcpPcb} (pcb : w.pcb = some p)
      (connection : p.state = .established ∧ p.finReceived = false ∧ p.refusedData = none) (cb : p.recvCb = true) :
    LwipStep w .tcpFin ({ w with pcb := some { p with finReceived := true } }.tcpRecvCb [] .errOk).2
  | tcpFinSilent {p : TcpPcb} (pcb : w.pcb = some p)
      (connection : p.state = .established ∧ p.finReceived = false ∧ p.refusedData = none) (cb : p.recvCb = false) :
    LwipStep w .tcpFin { w with pcb := some { p with finReceived := true } }
  | pcbFreed {p : TcpPcb} (pcb : w.pcb = some p) (state : p.state = .closing) : LwipStep w .pcbFreed { w with pcb := none }
  | connectTimeout (armed : 0 < w.connectTimer) :
    LwipStep w (.timeout .connect) ({ w with connectTimer := w.connectTimer - 1 }.timeoutCb .connect)
  | fflushTimeout (armed : 0 < w.fflushTimer) :
    LwipStep w (.timeout .fflush) ({ w with fflushTimer := w.fflushTimer - 1 }.timeoutCb .fflush)
  | rflushTimeout (armed : 0 < w.rflushTimer) :
    LwipStep w (.timeout .rflush) ({ w with rflushTimer := w.rflushTimer - 1 }.timeoutCb .rflush)

theorem lwip_step {w w' : Fwd} (alive : w.deleted = false) {e : LwipEvent} (hs : w.lwip e = some w') : LwipStep w e w' := by
  cases e with
  | dnsFound name ipaddr rcCon =>
    simp only [Fwd.lwip] at hs
    split at hs
    · rename_i hdns
      rw [call_alive (by exact alive)] at hs
      cases hs
      exact .dnsFound hdns
    · cases hs
  | tcpConnected =>
    obtain ⟨p, hp, hs⟩ := Option.bind_eq_some_iff.1 hs
    split at hs
    · rename_i hsyn
      rw [call_alive (by exact alive)] at hs
      cases hs
      exact .tcpConnected hp hsyn
    · cases hs
  | tcpErr =>
    obtain ⟨p, hp, hs⟩ := Option.bind_eq_some_iff.1 hs
    split at hs
    · cases hs
    rename_i hopen
    split at hs
    · rename_i hcb
      rw [call_alive (by exact alive)] at hs
      cases hs
      exact .tcpErr hp hopen hcb
    · rename_i hcb
      cases hs
      exact .tcpErrSilent hp hopen (Bool.eq_false_iff.2 hcb)
  | tcpSent len =>
    obtain ⟨p, hp, hs⟩ := Option.bind_eq_some_iff.1 hs
    split at hs
    · rename_i hst
      cases hs
      split
      · rename_i hcb
        rw [call_alive (by exact alive)]
        exact .tcpSent hp hst.1 hst.2 hcb
      · rename_i hcb
        exact .tcpSentSilent hp hst.1 hst.2 (Bool.eq_false_iff.2 hcb)
    · cases hs
  | tcpRecv c =>
    obtain ⟨p, hp, hs⟩ := Option.bind_eq_some_iff.1 hs
    split at hs
    · rename_i hst
      split at hs
      · rename_i hcb
        rw [call_alive alive] at hs
        cases hs
        exact .tcpRecv hp hst hcb
      · rename_i hcb
        cases hs
        exact .tcpRecvSilent hp (Bool.eq_false_iff.2 hcb)
    · cases hs
  | tcpFin =>
    obtain ⟨p, hp, hs⟩ := Option.bind_eq_some_iff.1 hs
    split at hs
    · rename_i hst
      cases hs
      split
      · rename_i hcb
        rw [call_alive (by exact alive)]
        exact .tcpFin hp hst hcb
      · rename_i hcb
        exact .tcpFinSilent hp hst (Bool.eq_false_iff.2 hcb)
    · cases hs
  | pcbFreed =>
    obtain ⟨p, hp, hs⟩ := Option.bind_eq_some_iff.1 hs
    split at hs
    · rename_i hst
      cases hs
      exact .pcbFreed hp hst
    · cases hs
  | timeout t =>
    cases t with
    | connect =>
      obtain ⟨harmed, hs⟩ := Option.ite_none_right_eq_some.1 hs
      rw [call_alive (by exact alive)] at hs
      cases hs
      exact .connectTimeout harmed
    | fflush =>
      obtain ⟨harmed, hs⟩ := Option.ite_none_right_eq_some.1 hs
      rw [call_alive (by exact alive)] at hs
      cases hs
      exact .fflushTimeout harmed
    | rflush =>
      obtain ⟨harmed, hs⟩ := Option.ite_none_right_eq_some.1 hs
      rw [call_alive (by exact alive)] at hs
      cases hs
      exact .rflushTimeout harmed

/-- The control block of a forwarder in each stage. -/
theorem Phase.pcb_cases {w : Fwd} {s : Stage} (h : Phase w s) {p : TcpPcb} (hp : w.pcb = some p) :
    p = tcpNew ∨ (Wired .synSent p ∧ s = .connecting) ∨
      (Wired .established p ∧ (s = .connected ∨ s = .flushForward)) ∨
      (Leaving p ∧ (s = .flushReply ∨ s = .disconnected)) := by
  cases h with
  | ready state pcb => rw [pcb] at hp; cases hp
  | resolving state server client pcb => rw [pcb] at hp; cases hp; exact .inl rfl
  | connecting state server client pcb wired =>
    rw [pcb] at hp; cases hp; exact .inr (.inl ⟨wired, rfl⟩)
  | connected state server client pcb wired =>
    rw [pcb] at hp; cases hp; exact .inr (.inr (.inl ⟨wired, .inl rfl⟩))
  | flushForward state server client pcb wired =>
    rw [pcb] at hp; cases hp; exact .inr (.inr (.inl ⟨wired, .inr rfl⟩))
  | flushReply state server client pcb => exact .inr (.inr (.inr ⟨pcb p hp, .inl rfl⟩))
  | failed state pcb => exact .inl (pcb p hp)
  | disconnected state server pcb => exact .inr (.inr (.inr ⟨pcb p hp, .inr rfl⟩))

/-- Counters and refused data of a connection may change, its state and callbacks not. -/
theorem Phase.set_pcb {w : Fwd} {s : Stage} (h : Phase w s) {p : TcpPcb} (p' : TcpPcb) (hp : w.pcb = some p)
    (hne : p.state ≠ .closed) (state' : p'.state = p.state) (err' : p'.errCb = p.errCb) (recv' : p'.recvCb = p.recvCb) :
    Phase { w with pcb := some p' } s := by
  have hnew : p ≠ tcpNew := by
    rintro rfl
    exact hne rfl
  have wired' : ∀ {s : PcbState}, Wired s p → Wired s p' := fun h =>
    ⟨state'.trans h.state, err'.trans h.err, recv'.trans h.recv⟩
  have leaving' : Leaving p → ∀ q, some p' = some q → Leaving q := by
    rintro h q ⟨⟩
    exact ⟨state'.trans h.state, err'.trans h.err, recv'.trans h.recv⟩
  cases h with
  | ready state pcb => rw [pcb] at hp; cases hp
  | resolving state server client pcb => rw [pcb] at hp; cases hp; exact absurd rfl hnew
  | connecting state server client pcb wired dns timers =>
    rw [pcb] at hp; cases hp; exact .connecting state server client rfl (wired' wired) dns timers
  | connected state server client pcb wired dns timers =>
    rw [pcb] at hp; cases hp; exact .connected state server client rfl (wired' wired) dns timers
  | flushForward state server client pcb wired dns timers =>
    rw [pcb] at hp; cases hp; exact .flushForward state server client rfl (wired' wired) dns timers
  | flushReply state server client pcb dns forward timers =>
    exact .flushReply state server client (leaving' (pcb p hp)) dns forward timers
  | failed state pcb => exact absurd (pcb p hp) hnew
  | disconnected state server pcb dns timers => exact .disconnected state server (leaving' (pcb p hp)) dns timers

/-- Only a forwarder with a query in flight is called back by the resolver. -/
theorem Phase.of_dnsPending {w : Fwd} {s : Stage} (h : Phase w s) (hd : w.dnsPending = true) : s = .resolving := by
  cases h with
  | resolving => rfl
  | ready state pcb dns => rw [hd] at dns; cases dns
  | connecting state server client pcb wired dns => rw [hd] at dns; cases dns
  | connected state server client pcb wired dns => rw [hd] at dns; cases dns
  | flushForward state server client pcb wired dns => rw [hd] at dns; cases dns
  | flushReply state server client pcb dns => rw [hd] at dns; cases dns
  | failed state pcb dns => rw [hd] at dns; cases dns
  | disconnected state server pcb dns => rw [hd] at dns; cases dns

theorem dnsFound_phase {w w' : Fwd} {s : Stage} (h : Phase w s) (alive : w.deleted = false) {name : Bytes}
    {ipaddr : Bool} {rcCon : Err} (hs : w.lwip (.dnsFound name ipaddr rcCon) = some w') : Moves s w' := by
  cases lwip_step alive hs with
  | dnsFound hdns =>
    obtain rfl := h.of_dnsPending hdns
    cases h with
    | resolving state server client pcb dns noTimeout timers =>
      rcases phase_dnsFoundCb (w := { w with dnsPending := false }) state server client pcb rfl timers name ipaddr
        rcCon with h | h
      · exact .next h .unresolved
      · exact .next h .resolved

theorem tcpConnected_phase {w w' : Fwd} {s : Stage} (h : Phase w s) (alive : w.deleted = false)
    (hs : w.lwip .tcpConnected = some w') : Moves s w' := by
  cases lwip_step alive hs with
  | tcpConnected hp hsyn =>
    rcases h.pcb_cases hp with rfl | ⟨wired, rfl⟩ | ⟨wired, -⟩ | ⟨leaving, -⟩
    · cases hsyn
    · cases h with
      | connecting state server client pcb _ dns timers =>
        exact .next (.connected rfl server client rfl ⟨rfl, wired.err, wired.recv⟩ dns
          ⟨by have := timers.1; simp only [Fwd.tcpConnectedCb]; omega, timers.2⟩) .established
    · rw [wired.state] at hsyn; cases hsyn
    · rw [leaving.state] at hsyn; cases hsyn

/-- A forwarder that has closed its block stays in its stage when lwIP frees the block. -/
theorem Phase.freed {w : Fwd} {s : Stage} (h : Phase w s) (hs : s = .flushReply ∨ s = .disconnected) :
    Phase { w with pcb := none } s := by
  have gone : ∀ q : TcpPcb, (none : Option TcpPcb) = some q → Leaving q := fun q hq => by cases hq
  rcases hs with rfl | rfl
  · cases h with
    | flushReply state server client pcb dns forward timers => exact .flushReply state server client gone dns forward timers
  · cases h with
    | disconnected state server pcb dns timers => exact .disconnected state server gone dns timers

theorem tcpErr_phase {w w' : Fwd} {s : Stage} (h : Phase w s) (alive : w.deleted = false)
    (hs : w.lwip .tcpErr = some w') : Moves s w' := by
  have gone : ∀ q : TcpPcb, (none : Option TcpPcb) = some q → Leaving q := fun q hq => by cases hq
  cases lwip_step alive hs with
  | tcpErr hp hopen hcb =>
    rcases h.pcb_cases hp with rfl | ⟨-, rfl⟩ | ⟨-, rfl | rfl⟩ | ⟨leaving, -⟩
    · exact absurd rfl hopen
    · cases h with
      | connecting state server client pcb _ dns timers =>
        exact .next (.disconnected rfl rfl gone dns
          ⟨timers.1, by have := timers.2.1; simp only [Fwd.tcpErrCb]; omega,
            by have := timers.2.2; simp only [Fwd.tcpErrCb]; omega⟩) .refused
    · cases h with
      | connected state server client pcb _ dns timers =>
        exact .next (.disconnected rfl rfl gone dns
          ⟨by have := timers.1; simp only [Fwd.tcpErrCb]; omega, by have := timers.2.1; simp only [Fwd.tcpErrCb]; omega,
            by have := timers.2.2; simp only [Fwd.tcpErrCb]; omega⟩) .reset
    · cases h with
      | flushForward state server client pcb _ dns timers =>
        exact .next (.disconnected rfl rfl gone dns
          ⟨by have := timers.1; simp only [Fwd.tcpErrCb]; omega, timers.2.1,
            by have := timers.2.2; simp only [Fwd.tcpErrCb]; omega⟩) .forwarded
    · rw [leaving.err] at hcb; cases hcb
  | tcpErrSilent hp hopen hcb =>
    rcases h.pcb_cases hp with rfl | ⟨wired, -⟩ | ⟨wired, -⟩ | ⟨-, hst⟩
    · exact absurd rfl hopen
    · rw [wired.err] at hcb; cases hcb
    · rw [wired.err] at hcb; cases hcb
    · exact .stay (h.freed hst)

/-- `tcp_sent_cb` touches nothing but the count of bytes in transit. -/
theorem tcpSentCb_eq (w : Fwd) (len : Nat) :
    ∃ n, w.tcpSentCb len = { w with pf := { w.pf with forwardedBytes := n } } :=
  ⟨_, rfl⟩

theorem tcpSent_phase {w w' : Fwd} {s : Stage} (h : Phase w s) (alive : w.deleted = false) {len : Nat}
    (hs : w.lwip (.tcpSent len) = some w') : Moves s w' := by
  have hset : ∀ {p : TcpPcb}, w.pcb = some p → p.state = .established ∨ p.state = .closing →
      Phase { w with pcb := some { p with unacked := p.unacked - len } } s := by
    intro p hp hst
    refine h.set_pcb _ hp (fun hclosed => ?_) rfl rfl rfl
    rcases hst with hst | hst <;> rw [hclosed] at hst <;> cases hst
  cases lwip_step alive hs with
  | @tcpSent p _ hp hst =>
    obtain ⟨n, hn⟩ := tcpSentCb_eq { w with pcb := some { p with unacked := p.unacked - len } } len
    rw [hn]
    exact .stay ((hset hp hst).frame rfl (.inr rfl) rfl rfl rfl ⟨le_rfl, le_rfl, le_rfl⟩)
  | tcpSentSilent hp hst => exact .stay (hset hp hst)

theorem tcpRecv_phase {w w' : Fwd} {s : Stage} (h : Phase w s) (alive : w.deleted = false) {c : PbufChain}
    (hs : w.lwip (.tcpRecv c) = some w') : Moves s w' := by
  cases lwip_step alive hs with
  | tcpRecv hp hst =>
    -- the callback changes the reply queue and the trace, lwIP keeps a refused chain
    have hcb : Phase (w.tcpRecvCb c.pbufs .errOk).2 s ∧ (w.tcpRecvCb c.pbufs .errOk).2.pcb = w.pcb := by
      unfold Fwd.tcpRecvCb
      rw [if_pos c.ne]
      split
      · exact ⟨h.frame rfl (.inr rfl) rfl rfl rfl ⟨le_rfl, le_rfl, le_rfl⟩, rfl⟩
      · simp only
        split
        · exact ⟨h, rfl⟩
        · exact ⟨h.frame rfl (.inr rfl) rfl rfl rfl ⟨le_rfl, le_rfl, le_rfl⟩, rfl⟩
    obtain ⟨hphase, hpcb⟩ := hcb
    have hopen := hpcb.trans hp
    unfold Fwd.keepRefused
    rw [hopen]
    exact .stay (hphase.set_pcb _ hopen (by rw [hst.1]; exact fun hclosed => by cases hclosed) rfl rfl rfl)
  | tcpRecvSilent => exact .stay h

theorem tcpFin_phase {w w' : Fwd} {s : Stage} (h : Phase w s) (alive : w.deleted = false)
    (hs : w.lwip .tcpFin = some w') : Moves s w' := by
  have hset : ∀ {p : TcpPcb}, w.pcb = some p → p.state = .established →
      Phase { w with pcb := some { p with finReceived := true } } s := by
    intro p hp hst
    exact h.set_pcb _ hp (by rw [hst]; exact fun hclosed => by cases hclosed) rfl rfl rfl
  cases lwip_step alive hs with
  | tcpFin hp hst =>
    unfold Fwd.tcpRecvCb
    rw [if_neg (by simp)]
    split
    · rename_i hcon
      rcases h.pcb_cases hp with rfl | ⟨wired, -⟩ | ⟨wired, hstage⟩ | ⟨leaving, -⟩
      · exact absurd hst.1 (by decide)
      · rw [wired.state] at hst; exact absurd hst.1 (by decide)
      · rcases hstage with rfl | rfl
        · cases h with
          | connected state server client pcb _ dns timers =>
            refine .next (.flushReply rfl server rfl ?_ dns (PBufQueue.clear_chain _)
              ⟨timers.1, timers.2.1, Nat.succ_le_succ timers.2.2⟩) .remoteClose
            simp only [Option.bind_some, tcpClose, hst.1]
            rintro _ ⟨⟩
            exact ⟨rfl, rfl, rfl⟩
        · have := h.state_eq
          rw [hcon.2] at this
          cases this
      · rw [leaving.state] at hst; exact absurd hst.1 (by decide)
    · exact .stay (hset hp hst.1)
  | tcpFinSilent hp hst => exact .stay (hset hp hst.1)

theorem pcbFreed_phase {w w' : Fwd} {s : Stage} (h : Phase w s) (alive : w.deleted = false)
    (hs : w.lwip .pcbFreed = some w') : Moves s w' := by
  cases lwip_step alive hs with
  | pcbFreed hp hst =>
    rcases h.pcb_cases hp with rfl | ⟨wired, -⟩ | ⟨wired, -⟩ | ⟨-, hleaving⟩
    · cases hst
    · rw [wired.state] at hst; cases hst
    · rw [wired.state] at hst; cases hst
    · exact .stay (h.freed hleaving)

/-- A timer that expires sets its flag and is no longer armed. -/
theorem timeout_phase {w w' : Fwd} {s : Stage} (h : Phase w s) (alive : w.deleted = false) {t : Timer}
    (hs : w.lwip (.timeout t) = some w') : Moves s w' := by
  cases lwip_step alive hs with
  | connectTimeout armed => exact .stay (h.frame rfl (.inl armed) rfl rfl rfl ⟨Nat.sub_le .., le_rfl, le_rfl⟩)
  | fflushTimeout => exact .stay (h.frame rfl (.inr rfl) rfl rfl rfl ⟨le_rfl, Nat.sub_le .., le_rfl⟩)
  | rflushTimeout => exact .stay (h.frame rfl (.inr rfl) rfl rfl rfl ⟨le_rfl, le_rfl, Nat.sub_le ..⟩)

/-- Whatever lwIP does, a forwarder that exists stays in its stage or moves to a next one. -/
theorem lwip_phase {w w' : Fwd} {s : Stage} (h : Phase w s) (alive : w.deleted = false) {e : LwipEvent}
    (hs : w.lwip e = some w') : Moves s w' := by
  cases e with
  | dnsFound name ipaddr rcCon => exact dnsFound_phase h alive hs
  | tcpConnected => exact tcpConnected_phase h alive hs
  | tcpErr => exact tcpErr_phase h alive hs
  | tcpSent len => exact tcpSent_phase h alive hs
  | tcpRecv c => exact tcpRecv_phase h alive hs
  | tcpFin => exact tcpFin_phase h alive hs
  | pcbFreed => exact pcbFreed_phase h alive hs
  | timeout t => exact timeout_phase h alive hs

theorem op_phase {w : Fwd} {s : Stage} (h : Phase w s) (o : PfOp) (ho : o ≠ .delete) : Moves s (w.op o) := by
  cases o with
  | localIo readable writable rcv a snd => exact localIo_phase h readable writable rcv a snd
  | forwardPass sndbuf answers unsent output => exact forwardPass_phase h sndbuf answers unsent output
  | abortConnected => exact abortConnected_phase h
  | delete => exact absurd rfl ho

/-! ## Deletion -/

/-- Whether the forwarder was deleted, and the callbacks called since. -/
def Fwd.life (w : Fwd) : Bool × List Callback := (w.deleted, w.trace.dangling)

@[simp] theorem dnsFoundCb_life (w : Fwd) (name : Bytes) (ipaddr : Bool) (rcCon : Err) :
    (w.dnsFoundCb name ipaddr rcCon).life = w.life := by
  unfold Fwd.dnsFoundCb
  split
  · rfl
  split
  · rfl
  split <;> rfl

@[simp] theorem tcpRecvCb_life (w : Fwd) (p : List Pbuf) (err : Err) : (w.tcpRecvCb p err).2.life = w.life := by
  unfold Fwd.tcpRecvCb
  split
  · split
    · rfl
    · simp only
      split <;> rfl
  · split <;> rfl

@[simp] theorem disconnect_life (w : Fwd) : w.disconnect.life = w.life := by
  unfold Fwd.disconnect
  split <;> rfl

@[simp] theorem abort_life (w : Fwd) : w.abort.life = w.life := by
  unfold Fwd.abort Fwd.tcpAbort
  split
  · simp only
    split <;> rfl
  · rfl

@[simp] theorem recv_life (w : Fwd) (rcv : RcvAnswer) (a : Alloc) : (w.recv rcv a).2.life = w.life := by
  obtain ⟨queue, hq⟩ := recv_eq w rcv a
  rw [hq]
  rfl

/-- `forward` touches nothing but the forward queue, the count of bytes in transit and the control block. -/
theorem forward_eq (w : Fwd) (answers : List (Nat × Err)) (unsent : Bool) (output : Err) :
    ∃ queue n pcb, (w.forward answers unsent output).2 =
      { w with pf := { w.pf with forwardQueue := queue, forwardedBytes := n }, pcb := pcb } := by
  unfold Fwd.forward
  split
  · exact ⟨_, _, _, rfl⟩
  · exact ⟨_, _, _, rfl⟩

@[simp] theorem forward_life (w : Fwd) (answers : List (Nat × Err)) (unsent : Bool) (output : Err) :
    (w.forward answers unsent output).2.life = w.life := by
  obtain ⟨queue, n, pcb, hq⟩ := forward_eq w answers unsent output
  rw [hq]
  rfl

@[simp] theorem reply_life (w : Fwd) (snd : List SndAnswer) : (w.reply snd).2.life = w.life := by
  unfold Fwd.reply
  split <;> rfl

@[simp] theorem flushForwardQueue_life (w : Fwd) (answers : List (Nat × Err)) (unsent : Bool) (output : Err) :
    (w.flushForwardQueue answers unsent output).life = w.life := by
  unfold Fwd.flushForwardQueue
  split
  · rfl
  · simp only
    split <;> rfl

@[simp] theorem flushReplyQueue_life (w : Fwd) (snd : List SndAnswer) : (w.flushReplyQueue snd).life = w.life := by
  unfold Fwd.flushReplyQueue
  split
  · rfl
  · simp only
    split <;> rfl

theorem orDisconnect_life {w : Fwd} {r : Bool × Fwd} (h : r.2.life = w.life) : (Fwd.orDisconnect r).life = w.life := by
  unfold Fwd.orDisconnect
  split
  · exact h
  · rw [disconnect_life, h]

theorem op_life (w : Fwd) (o : PfOp) (ho : o ≠ .delete) : (w.op o).life = w.life := by
  cases o with
  | localIo readable writable rcv a snd =>
    show (w.localIo readable writable rcv a snd).life = w.life
    have hread : (w.afterRecv readable rcv a).life = w.life := by
      rw [afterRecv_eq]
      split
      · exact orDisconnect_life (recv_life w rcv a)
      · rfl
    by_cases hc : w.pf.state = .connected
    · rw [localIo_connected hc]
      split
      · rw [orDisconnect_life (reply_life _ snd), hread]
      · exact hread
    · unfold Fwd.localIo
      rw [if_neg hc]
      split
      · exact flushReplyQueue_life w snd
      · rfl
  | forwardPass sndbuf answers unsent output =>
    show (w.forwardPass sndbuf answers unsent output).life = w.life
    have htimed : w.abortTimedOut.life = w.life := by
      unfold Fwd.abortTimedOut
      split
      · exact abort_life w
      · rfl
    unfold Fwd.forwardPass
    simp only
    split
    · split
      · exact (orDisconnect_life (forward_life _ answers unsent output)).trans htimed
      · exact htimed
    · split
      · rw [flushForwardQueue_life, htimed]
      · exact htimed
  | abortConnected =>
    show w.abortConnected.life = w.life
    unfold Fwd.abortConnected
    split
    · exact abort_life w
    · rfl
  | delete => exact absurd rfl ho

/-- An event leaves a forwarder that exists in life. -/
theorem lwip_life {w w' : Fwd} (alive : w.deleted = false) {e : LwipEvent} (hs : w.lwip e = some w') :
    w'.life = w.life := by
  cases lwip_step alive hs with
  | dnsFound => exact dnsFoundCb_life _ _ _ _
  | @tcpSent p len =>
    obtain ⟨n, hn⟩ := tcpSentCb_eq { w with pcb := some { p with unacked := p.unacked - len } } len
    rw [hn]
    rfl
  | @tcpRecv _ c => exact tcpRecvCb_life w c.pbufs .errOk
  | tcpFin => exact tcpRecvCb_life _ [] .errOk
  | tcpConnected | tcpErr | tcpErrSilent | tcpSentSilent | tcpRecvSilent | tcpFinSilent | pcbFreed | connectTimeout
  | fflushTimeout | rflushTimeout => rfl

/-- A forwarder that was deleted is not touched any more: an event can only record that a callback
was called too late. -/
theorem lwip_gone {w w' : Fwd} (gone : w.deleted = true) {e : LwipEvent} (hs : w.lwip e = some w') :
    w'.deleted = true ∧ w'.pf = w.pf ∧ ∃ cbs, w'.trace = { w.trace with dangling := cbs } := by
  have hcall : ∀ (v : Fwd) (cb : Callback) (f : Fwd → Fwd), v.deleted = true → v.pf = w.pf → v.trace = w.trace →
      (v.call cb f).deleted = true ∧ (v.call cb f).pf = w.pf ∧
        ∃ cbs, (v.call cb f).trace = { w.trace with dangling := cbs } := by
    intro v cb f hdel hpf htrace
    unfold Fwd.call
    rw [if_pos hdel]
    exact ⟨hdel, hpf, _, by rw [htrace]⟩
  have same : ∀ v : Fwd, v.deleted = true → v.pf = w.pf → v.trace = w.trace →
      v.deleted = true ∧ v.pf = w.pf ∧ ∃ cbs, v.trace = { w.trace with dangling := cbs } :=
    fun v hdel hpf htrace => ⟨hdel, hpf, w.trace.dangling, htrace⟩
  cases e with
  | dnsFound name ipaddr rcCon =>
    simp only [Fwd.lwip] at hs
    split at hs
    · cases hs
      exact hcall _ _ _ gone rfl rfl
    · cases hs
  | tcpConnected =>
    obtain ⟨p, -, hs⟩ := Option.bind_eq_some_iff.1 hs
    split at hs
    · cases hs
      exact hcall _ _ _ gone rfl rfl
    · cases hs
  | tcpErr =>
    obtain ⟨p, -, hs⟩ := Option.bind_eq_some_iff.1 hs
    split at hs
    · cases hs
    split at hs
    · cases hs
      exact hcall _ _ _ gone rfl rfl
    · cases hs
      exact same _ gone rfl rfl
  | tcpSent len =>
    obtain ⟨p, -, hs⟩ := Option.bind_eq_some_iff.1 hs
    split at hs
    · cases hs
      split
      · exact hcall _ _ _ gone rfl rfl
      · exact same _ gone rfl rfl
    · cases hs
  | tcpRecv c =>
    obtain ⟨p, -, hs⟩ := Option.bind_eq_some_iff.1 hs
    split at hs
    · split at hs
      · cases hs
        exact hcall _ _ _ gone rfl rfl
      · cases hs
        exact same _ gone rfl rfl
    · cases hs
  | tcpFin =>
    obtain ⟨p, -, hs⟩ := Option.bind_eq_some_iff.1 hs
    split at hs
    · cases hs
      split
      · exact hcall _ _ _ gone rfl rfl
      · exact same _ gone rfl rfl
    · cases hs
  | pcbFreed =>
    obtain ⟨p, -, hs⟩ := Option.bind_eq_some_iff.1 hs
    split at hs
    · cases hs
      exact same _ gone rfl rfl
    · cases hs
  | timeout t =>
    cases t with
    | connect | fflush | rflush =>
      simp only [Fwd.lwip] at hs
      split at hs
      · cases hs
        exact hcall _ _ _ gone rfl rfl
      · cases hs

end FortiRdp.Net
