/-
The reply path of a forwarder: from `tcp_recv_cb` through the reply queue to the local socket. lwIP keeps a
chain that the callback refused and offers it again before anything newer, so the chains that go into the
queue are those it offered, in order, up to the close of the local socket; from then on they are acknowledged
and dropped.
-/
import FortiRdp.Net.PcbOwnership

namespace FortiRdp.Net

open FortiRdp.Lwip FortiRdp.Util FortiRdp.Run

/-! ## What the callback is offered and what it calls -/

/-- What `tcp_recv_cb` calls for a chain. -/
inductive RecvCall
  | tcpRecved (len : Nat)
  | pbufFree
  deriving DecidableEq, Repr

/-- `tcp_recv_cb` of a chain, with its calls in order. -/
def Fwd.tcpRecvCalls (w : Fwd) (p : List Pbuf) : Err × List RecvCall :=
  let len := totLen p
  if w.pf.localServer = false then (.errOk, [.tcpRecved len, .pbufFree])
  else if (w.pf.replyQueue.push p).1 = false then (.errMem, [])
  else (.errOk, [.tcpRecved len, .pbufFree])

/-- The control block has the callback registered. -/
def Fwd.listens (w : Fwd) : Bool := w.pcb.any TcpPcb.recvCb

/-- The chain that an action offers to `tcp_recv_cb`. -/
def Fwd.offers (w : Fwd) : PfAction → Option (List Pbuf)
  | .lwip (.tcpRecv c) => if w.listens then some c.pbufs else none
  | _ => none

/-- The chain that lwIP keeps because the callback refused it. -/
def Fwd.refused (w : Fwd) : Option (List Pbuf) := w.pcb.bind TcpPcb.refusedData

/-- The bytes of an action that were not offered before. -/
def Fwd.offered (w : Fwd) (a : PfAction) : Bytes :=
  match w.offers a with
  | some p => if w.refused = none then content p else []
  | none => []

/-- A forwarder with the bytes that lwIP offered to it, each chain once. -/
structure ReplyPath where
  w : Fwd
  offered : Bytes
  deriving DecidableEq, Repr

def ReplyPath.accept (hostname : Bytes) (rcAccept : Int) (rcQuery : Err) (newOk : Bool) (rcCon : Err) : ReplyPath :=
  { w := (Fwd.accept hostname rcAccept rcQuery newOk rcCon).2, offered := [] }

/-- The life of a forwarder up to its deletion. -/
def replyPath : Machine ReplyPath PfAction
  | l, a =>
    if l.w.deleted then none
    else (forwarder l.w a).map fun w => { w := w, offered := l.offered ++ l.w.offered a }

/-! ## Steps that offer nothing -/

/-- The control block can still offer chains: its callback is registered, or it is new. -/
def TcpPcb.offering (p : TcpPcb) : Prop := p.recvCb = true ∨ p = tcpNew

/-- What a step that offers nothing does to the reply path: bytes from the front of the queue go to the local
socket while it is open, and the rest stays in the queue or is dropped with the socket. -/
structure Replies (w w' : Fwd) (sent : Bytes) : Prop where
  wf : w'.pf.replyQueue.WF
  capacity : w'.pf.replyQueue.capacity = 8 * 1024
  accepted : w'.trace.replyAccepted = w.trace.replyAccepted
  recved : w'.trace.recved = w.trace.recved
  localSent : w'.trace.localSent = w.trace.localSent ++ sent
  front : sent <+: w.pf.replyQueue.content
  server : sent = [] ∨ w.pf.localServer = true
  rest : w'.pf.localServer = true → w.pf.localServer = true ∧
    w.pf.replyQueue.content = sent ++ w'.pf.replyQueue.content
  refused : ∀ p', w'.pcb = some p' → p'.offering →
    ∃ p, w.pcb = some p ∧ p.offering ∧ p'.refusedData = p.refusedData

/-- The reply queue in order. -/
structure ReplyOk (w : Fwd) : Prop where
  wf : w.pf.replyQueue.WF
  capacity : w.pf.replyQueue.capacity = 8 * 1024

theorem Replies.ok {w w' : Fwd} {sent : Bytes} (h : Replies w w' sent) : ReplyOk w' := ⟨h.wf, h.capacity⟩

/-- A block that is the same for the reply path. -/
theorem refused_same {w w' : Fwd} (h : w'.pcb = w.pcb) : ∀ p', w'.pcb = some p' → p'.offering →
    ∃ p, w.pcb = some p ∧ p.offering ∧ p'.refusedData = p.refusedData :=
  fun p' hp ho => ⟨p', h ▸ hp, ho, rfl⟩

/-- A block that offers nothing any more. -/
theorem refused_over {w w' : Fwd} (h : ∀ p', w'.pcb = some p' → ¬ p'.offering) : ∀ p', w'.pcb = some p' →
    p'.offering → ∃ p, w.pcb = some p ∧ p.offering ∧ p'.refusedData = p.refusedData :=
  fun p' hp ho => absurd ho (h p' hp)

/-- The queue and the socket stay as they are. -/
theorem Replies.same {w w' : Fwd} (h : ReplyOk w) (queue : w'.pf.replyQueue = w.pf.replyQueue)
    (trace : w'.trace.replyAccepted = w.trace.replyAccepted ∧ w'.trace.recved = w.trace.recved ∧
      w'.trace.localSent = w.trace.localSent)
    (server : w'.pf.localServer = true → w.pf.localServer = true)
    (refused : ∀ p', w'.pcb = some p' → p'.offering → ∃ p, w.pcb = some p ∧ p.offering ∧ p'.refusedData = p.refusedData) :
    Replies w w' [] where
  wf := queue ▸ h.wf
  capacity := queue ▸ h.capacity
  accepted := trace.1
  recved := trace.2.1
  localSent := by rw [trace.2.2, List.append_nil]
  front := List.nil_prefix
  server := .inl rfl
  rest := fun hs => ⟨server hs, by rw [queue]; rfl⟩
  refused := refused

/-- The queue is dropped and the socket closed. -/
theorem Replies.cleared {w w' : Fwd} (h : ReplyOk w) (queue : w'.pf.replyQueue = w.pf.replyQueue.clear)
    (trace : w'.trace = w.trace) (server : w'.pf.localServer = false)
    (refused : ∀ p', w'.pcb = some p' → p'.offering → ∃ p, w.pcb = some p ∧ p.offering ∧ p'.refusedData = p.refusedData) :
    Replies w w' [] where
  wf := queue ▸ PBufQueue.clear_wf h.wf
  capacity := by rw [queue, PBufQueue.clear_capacity, h.capacity]
  accepted := by rw [trace]
  recved := by rw [trace]
  localSent := by rw [trace, List.append_nil]
  front := List.nil_prefix
  server := .inl rfl
  rest := fun hs => absurd (server.symm.trans hs) (by decide)
  refused := refused

theorem Replies.refl {w : Fwd} (h : ReplyOk w) : Replies w w [] := .same h rfl ⟨rfl, rfl, rfl⟩ id (refused_same rfl)

theorem Replies.trans {w v u : Fwd} {s t : Bytes} (h : Replies w v s) (h' : Replies v u t) : Replies w u (s ++ t) where
  wf := h'.wf
  capacity := h'.capacity
  accepted := h'.accepted.trans h.accepted
  recved := h'.recved.trans h.recved
  localSent := by rw [h'.localSent, h.localSent, List.append_assoc]
  front := by
    -- the second part sends only while the socket is open, and then the queue holds what the first left
    rcases h'.server with rfl | hs
    · rw [List.append_nil]
      exact h.front
    · rw [(h.rest hs).2]
      exact (List.prefix_append_right_inj s).2 h'.front
  server := by
    rcases h'.server with rfl | hs
    · rw [List.append_nil]
      exact h.server
    · exact .inr (h.rest hs).1
  rest := fun hs => by
    obtain ⟨hv, hu⟩ := h'.rest hs
    obtain ⟨hw, hc⟩ := h.rest hv
    exact ⟨hw, by rw [hc, hu, List.append_assoc]⟩
  refused := fun p' hp ho => by
    obtain ⟨p, hp, ho, heq⟩ := h'.refused p' hp ho
    obtain ⟨q, hq, ho, heq'⟩ := h.refused p hp ho
    exact ⟨q, hq, ho, heq.trans heq'⟩

/-! ## Methods -/

theorem disconnect_replies {w : Fwd} (h : ReplyOk w) : Replies w w.disconnect [] := by
  unfold Fwd.disconnect
  split
  · exact .refl h
  · exact .cleared h rfl rfl rfl (refused_same rfl)

/-- The control block of an aborted connection is freed. -/
theorem abort_replies {w : Fwd} {s : Stage} (h : ReplyOk w) (hp : Phase w s) (hs : s = .connecting ∨ s = .connected) :
    Replies w w.abort [] := by
  -- the phase after an abort says that the local socket is closed
  have hclosed : w.abort.pf.localServer = false := by
    have := abort_phase hp hs
    cases this; assumption
  have hstate : w.pf.state = .connected ∨ w.pf.state = .connecting := by
    rw [hp.state_eq]
    rcases hs with rfl | rfl
    · exact .inr rfl
    · exact .inl rfl
  refine .cleared h ?_ ?_ hclosed (refused_over ?_)
  all_goals
    unfold Fwd.abort Fwd.tcpAbort
    rw [if_pos hstate]
    simp only
    split
  · rfl
  · rfl
  · rfl
  · rfl
  · exact fun _ hp' => by cases hp'
  · exact fun _ hp' => by cases hp'

theorem writeReply_replies {w : Fwd} (h : ReplyOk w) (server : w.pf.localServer = true) (snd : List SndAnswer) :
    Replies w (w.writeReply snd).2 (writeSocket w.pf.replyQueue snd).2.2 := by
  have hd := writeSocket_spec h.wf snd
  exact ⟨hd.wf, hd.capacity.trans h.capacity, rfl, rfl, rfl, ⟨_, hd.content.symm⟩, .inr server, fun _ => ⟨server, hd.content⟩,
    refused_same rfl⟩

theorem reply_replies {w : Fwd} (h : ReplyOk w) (server : w.pf.state = .connected → w.pf.localServer = true)
    (snd : List SndAnswer) : ∃ sent, Replies w (w.reply snd).2 sent := by
  unfold Fwd.reply
  split
  · exact ⟨[], .refl h⟩
  · rename_i hc
    exact ⟨_, writeReply_replies h (server (not_not.1 hc)) snd⟩

theorem orDisconnect_replies {w : Fwd} {r : Bool × Fwd} {sent : Bytes} (h : Replies w r.2 sent) :
    Replies w (.orDisconnect r) sent := by
  unfold Fwd.orDisconnect
  split
  · exact h
  · have hd := h.trans (disconnect_replies h.ok)
    rwa [List.append_nil] at hd

theorem recv_replies {w : Fwd} (h : ReplyOk w) (rcv : RcvAnswer) (a : Alloc) : Replies w (w.recv rcv a).2 [] := by
  obtain ⟨queue, hq⟩ := recv_eq w rcv a
  rw [hq]
  exact .same h rfl ⟨rfl, rfl, rfl⟩ id (refused_same rfl)

theorem flushReplyQueue_replies {w : Fwd} (h : ReplyOk w) (server : w.pf.localServer = true) (snd : List SndAnswer) :
    ∃ sent, Replies w (w.flushReplyQueue snd) sent := by
  unfold Fwd.flushReplyQueue
  split
  · exact ⟨[], .refl h⟩
  · have hw := writeReply_replies h server snd
    simp only
    split
    · refine ⟨_, ⟨hw.wf, hw.capacity, hw.accepted, hw.recved, hw.localSent, hw.front, hw.server, ?_, hw.refused⟩⟩
      exact fun hs => by cases hs
    · exact ⟨_, hw⟩

theorem localIo_replies {w : Fwd} {s : Stage} (h : ReplyOk w) (hp : Phase w s) (readable writable : Bool)
    (rcv : RcvAnswer) (a : Alloc) (snd : List SndAnswer) : ∃ sent, Replies w (w.localIo readable writable rcv a snd) sent := by
  -- a read leaves the reply queue, and it closes the socket only together with the connection
  have hread : Replies w (w.afterRecv readable rcv a) [] ∧ ((w.afterRecv readable rcv a).pf.state = .connected →
      w.pf.localServer = true → (w.afterRecv readable rcv a).pf.localServer = true) := by
    rw [afterRecv_eq]
    split
    · refine ⟨orDisconnect_replies (recv_replies h rcv a), ?_⟩
      obtain ⟨queue, hq⟩ := recv_eq w rcv a
      unfold Fwd.orDisconnect
      rw [hq]
      split
      · exact fun _ hs => hs
      · unfold Fwd.disconnect
        split
        · exact fun _ hs => hs
        · exact fun hs => by cases hs
    · exact ⟨.refl h, fun _ hs => hs⟩
  by_cases hcon : w.pf.state = .connected
  · rw [localIo_connected hcon]
    generalize w.afterRecv readable rcv a = v at hread
    obtain ⟨hwv, hserver⟩ := hread
    have server : w.pf.localServer = true := by
      obtain rfl := hp.of_connected hcon
      cases hp; assumption
    split
    · obtain ⟨sent, hr⟩ := reply_replies hwv.ok (fun hc => hserver hc server) snd
      exact ⟨_, hwv.trans (orDisconnect_replies hr)⟩
    · exact ⟨[], hwv⟩
  · unfold Fwd.localIo
    rw [if_neg hcon]
    split
    · rename_i hflush
      exact flushReplyQueue_replies h hflush.2.2 snd
    · exact ⟨[], .refl h⟩

theorem forward_replies {w : Fwd} (h : ReplyOk w) (hp : Phase w .connected) (answers : List (Nat × Err)) (unsent : Bool)
    (output : Err) : Replies w (w.forward answers unsent output).2 [] := by
  unfold Fwd.forward
  split
  · exact .refl h
  · cases hp with
    | @connected p state server client pcb wired =>
      refine .same h rfl ⟨rfl, rfl, rfl⟩ id ?_
      simp only [Fwd.tcpWritten, pcb, Option.map_some]
      rintro _ ⟨⟩ -
      exact ⟨p, rfl, .inl wired.recv, rfl⟩

theorem flushForwardQueue_replies {w : Fwd} (h : ReplyOk w) (hp : Phase w .flushForward) (answers : List (Nat × Err))
    (unsent : Bool) (output : Err) : Replies w (w.flushForwardQueue answers unsent output) [] := by
  unfold Fwd.flushForwardQueue
  cases hp with
  | @flushForward p state server client pcb wired =>
    rw [if_neg (by simp [state])]
    simp only [Fwd.tcpWritten, pcb, Option.map_some]
    split
    · refine .same h rfl ⟨rfl, rfl, rfl⟩ id (refused_over ?_)
      simp only [Option.bind_some, tcpClose, wired.state]
      rintro _ ⟨⟩ (hrecv | hnew)
      · cases hrecv
      · cases congrArg TcpPcb.state hnew
    · refine .same h rfl ⟨rfl, rfl, rfl⟩ id ?_
      rintro _ ⟨⟩ -
      exact ⟨p, pcb, .inl wired.recv, rfl⟩

theorem abortTimedOut_replies {w : Fwd} {s : Stage} (h : ReplyOk w) (hp : Phase w s) : Replies w w.abortTimedOut [] := by
  unfold Fwd.abortTimedOut
  split
  · rename_i hc
    obtain rfl := hp.of_timedOut hc.1 hc.2
    exact abort_replies h hp (.inl rfl)
  · exact .refl h

theorem forwardPass_replies {w : Fwd} {s : Stage} (h : ReplyOk w) (hp : Phase w s) (sndbuf : Nat)
    (answers : List (Nat × Err)) (unsent : Bool) (output : Err) :
    Replies w (w.forwardPass sndbuf answers unsent output) [] := by
  have htimed := abortTimedOut_replies h hp
  obtain ⟨s', hp', -⟩ : Moves s w.abortTimedOut := abortTimedOut_phase hp
  unfold Fwd.forwardPass
  simp only
  split
  · rename_i hcon
    obtain rfl := hp'.of_connected hcon
    split
    · have hf := htimed.trans (orDisconnect_replies (forward_replies htimed.ok hp' answers unsent output))
      rwa [List.append_nil] at hf
    · exact htimed
  · split
    · rename_i hflush
      obtain rfl := hp'.of_flushForward hflush.1 hflush.2
      have hf := htimed.trans (flushForwardQueue_replies htimed.ok hp' answers unsent output)
      rwa [List.append_nil] at hf
    · exact htimed

theorem op_replies {w : Fwd} {s : Stage} (h : ReplyOk w) (hp : Phase w s) (o : PfOp) : ∃ sent, Replies w (w.op o) sent := by
  cases o with
  | localIo readable writable rcv a snd => exact localIo_replies h hp readable writable rcv a snd
  | forwardPass sndbuf answers unsent output => exact ⟨[], forwardPass_replies h hp sndbuf answers unsent output⟩
  | abortConnected =>
    refine ⟨[], ?_⟩
    show Replies w w.abortConnected []
    unfold Fwd.abortConnected
    split
    · rename_i hc
      obtain rfl := hp.of_connected hc
      exact abort_replies h hp (.inr rfl)
    · exact .refl h
  | delete => exact ⟨[], .same h rfl ⟨rfl, rfl, rfl⟩ (fun hs => by cases hs) (refused_same rfl)⟩

/-! ## Events of the stack -/

/-- An event that offers no chain. -/
theorem lwip_replies {w w' : Fwd} {s : Stage} {e : LwipEvent} (h : ReplyOk w) (hp : Phase w s) (alive : w.deleted = false)
    (ho : w.offers (.lwip e) = none) (hs : w.lwip e = some w') : Replies w w' [] := by
  -- a block that changes is one with a connection, which is not new
  have hkeep : ∀ {p p' : TcpPcb}, w.pcb = some p → (p' = tcpNew → False) → p'.recvCb = p.recvCb →
      p'.refusedData = p.refusedData → ∀ q, some p' = some q → q.offering →
        ∃ p, w.pcb = some p ∧ p.offering ∧ q.refusedData = p.refusedData := by
    rintro p p' hpcb hnew hrecv hdata _ ⟨⟩ ho
    exact ⟨p, hpcb, .inl (hrecv ▸ ho.resolve_right hnew), hdata⟩
  have hopen : ∀ {p : TcpPcb} {len : Nat}, p.state = .established ∨ p.state = .closing →
      { p with unacked := p.unacked - len } = tcpNew → False := by
    rintro p len hst hnew
    have hclosed : p.state = .closed := congrArg TcpPcb.state hnew
    rw [hclosed] at hst
    rcases hst with hst | hst <;> cases hst
  cases lwip_step alive hs with
  | dnsFound hdns =>
    obtain rfl := hp.of_dnsPending hdns
    cases hp with
    | resolving state server client pcb =>
      unfold Fwd.dnsFoundCb
      split
      · exact .same h rfl ⟨rfl, rfl, rfl⟩ id (refused_same rfl)
      split
      · exact .same h rfl ⟨rfl, rfl, rfl⟩ id (refused_same rfl)
      split
      · refine .same h rfl ⟨rfl, rfl, rfl⟩ id ?_
        simp only [pcb, Option.map_some]
        rintro _ ⟨⟩ -
        exact ⟨tcpNew, rfl, .inr rfl, rfl⟩
      · refine .same h rfl ⟨rfl, rfl, rfl⟩ (fun hs => by cases hs) (refused_over ?_)
        simp only [pcb]
        exact fun _ hp' => by cases hp'
  | tcpConnected hpcb =>
    exact .same h rfl ⟨rfl, rfl, rfl⟩ id (hkeep hpcb (fun hnew => by cases congrArg TcpPcb.state hnew) rfl rfl)
  | tcpErr =>
    exact .same h rfl ⟨rfl, rfl, rfl⟩ (fun hs => by cases hs) (refused_over fun _ hp' => by cases hp')
  | tcpErrSilent | pcbFreed => exact .same h rfl ⟨rfl, rfl, rfl⟩ id (refused_over fun _ hp' => by cases hp')
  | @tcpSent p len hpcb hst =>
    obtain ⟨n, heq⟩ := tcpSentCb_eq { w with pcb := some { p with unacked := p.unacked - len } } len
    rw [heq]
    exact .same h rfl ⟨rfl, rfl, rfl⟩ id (hkeep hpcb (hopen hst) rfl rfl)
  | tcpSentSilent hpcb hst => exact .same h rfl ⟨rfl, rfl, rfl⟩ id (hkeep hpcb (hopen hst) rfl rfl)
  | tcpRecv hpcb _ hrecv => simp [Fwd.offers, Fwd.listens, hpcb, hrecv] at ho
  | tcpRecvSilent => exact .refl h
  | tcpFin hpcb hest =>
    unfold Fwd.tcpRecvCb
    rw [if_neg (by simp)]
    split
    · refine .same h rfl ⟨rfl, rfl, rfl⟩ id (refused_over ?_)
      simp only [Option.bind_some, tcpClose, hest.1]
      rintro _ ⟨⟩ (hrecv | hnew)
      · cases hrecv
      · cases congrArg TcpPcb.state hnew
    · exact .same h rfl ⟨rfl, rfl, rfl⟩ id (hkeep hpcb (fun hnew => by cases congrArg TcpPcb.finReceived hnew) rfl rfl)
  | tcpFinSilent hpcb =>
    exact .same h rfl ⟨rfl, rfl, rfl⟩ id (hkeep hpcb (fun hnew => by cases congrArg TcpPcb.finReceived hnew) rfl rfl)
  | connectTimeout | fflushTimeout | rflushTimeout => exact .same h rfl ⟨rfl, rfl, rfl⟩ id (refused_same rfl)

/-- What the callback does with a chain that lwIP offers: after the close of the socket it drops it, else it
refuses it or puts it into the queue. -/
inductive Offered (w : Fwd) (c : PbufChain) (w' : Fwd) : Prop
  | dropped (server : w.pf.localServer = false)
      (calls : w.tcpRecvCalls c.pbufs = (.errOk, [.tcpRecved (content c.pbufs).length, .pbufFree])) (pf : w'.pf = w.pf)
      (trace : w'.trace = { w.trace with recved := w.trace.recved + (content c.pbufs).length })
  | refused (server : w.pf.localServer = true) (calls : w.tcpRecvCalls c.pbufs = (.errMem, [])) (pf : w'.pf = w.pf)
      (trace : w'.trace = w.trace) (kept : w'.refused = some c.pbufs)
  | accepted (queue : PBufQueue) (server : w.pf.localServer = true)
      (calls : w.tcpRecvCalls c.pbufs = (.errOk, [.tcpRecved (content c.pbufs).length, .pbufFree]))
      (push : w.pf.replyQueue.push c.pbufs = (true, queue)) (pf : w'.pf = { w.pf with replyQueue := queue })
      (trace : w'.trace = { w.trace with recved := w.trace.recved + (content c.pbufs).length
                                         replyAccepted := w.trace.replyAccepted ++ content c.pbufs })
      (kept : w'.refused = none)

theorem tcpRecvCalls_code (w : Fwd) (c : PbufChain) : (w.tcpRecvCalls c.pbufs).1 = (w.tcpRecvCb c.pbufs .errOk).1 := by
  unfold Fwd.tcpRecvCalls Fwd.tcpRecvCb
  rw [if_pos c.ne]
  simp only
  split
  · rfl
  split <;> rfl

/-- An offer: a new chain, or the one that lwIP keeps. -/
theorem tcpRecv_offered {w w' : Fwd} {c : PbufChain} (alive : w.deleted = false) (hl : w.listens = true)
    (hs : w.lwip (.tcpRecv c) = some w') :
    (∃ p, w.pcb = some p ∧ p.offering ∧ (p.refusedData = none ∨ p.refusedData = some c.pbufs)) ∧ Offered w c w' := by
  have htot : totLen c.pbufs = (content c.pbufs).length := totLen_eq c.tot
  cases lwip_step alive hs with
  | tcpRecvSilent hpcb hcb => simp [Fwd.listens, hpcb, hcb] at hl
  | tcpRecv hpcb henabled hrecv =>
    refine ⟨⟨_, hpcb, .inl hrecv, henabled.2.2⟩, ?_⟩
    unfold Fwd.keepRefused Fwd.tcpRecvCb
    rw [if_pos c.ne]
    cases hserver : w.pf.localServer with
    | false =>
      rw [if_pos rfl]
      refine .dropped hserver ?_ rfl (by rw [← htot])
      unfold Fwd.tcpRecvCalls
      rw [if_pos hserver, htot]
    | true =>
      rw [if_neg (by decide)]
      -- the socket is open: the chain is refused with the push, or acknowledged with it
      cases hpush : w.pf.replyQueue.push c.pbufs with
      | mk rc queue =>
        cases rc with
        | false =>
          refine .refused hserver ?_ rfl rfl (by simp [Fwd.refused, hpcb])
          unfold Fwd.tcpRecvCalls
          rw [if_neg (by simp [hserver]), hpush, if_pos rfl]
        | true =>
          refine .accepted queue hserver ?_ hpush rfl (by rw [← htot]; rfl) (by simp [Fwd.refused, hpcb])
          unfold Fwd.tcpRecvCalls
          rw [if_neg (by simp [hserver]), hpush, if_neg nofun, htot]

/-! ## Runs -/

/-- What was sent is the beginning of what was accepted, and that of what was offered. While the local socket
is open nothing is lost: the queue holds the rest of what was accepted, which was acknowledged, and lwIP holds
the rest of what it offered. -/
structure ReplyKept (l : ReplyPath) : Prop where
  staged : l.w.Staged
  ok : ReplyOk l.w
  sent : l.w.trace.localSent <+: l.w.trace.replyAccepted
  held : l.w.pf.localServer = true → l.w.trace.replyAccepted = l.w.trace.localSent ++ l.w.pf.replyQueue.content ∧
    l.w.trace.recved = l.w.trace.replyAccepted.length
  accepted : l.w.trace.replyAccepted <+: l.offered
  kept : l.w.pf.localServer = true → ∀ p, l.w.pcb = some p → p.offering →
    l.offered = l.w.trace.replyAccepted ++ (p.refusedData.map content).getD []

theorem ReplyKept.replies {l : ReplyPath} {w' : Fwd} {sent : Bytes} (h : ReplyKept l) (staged : w'.Staged)
    (hr : Replies l.w w' sent) : ReplyKept { w := w', offered := l.offered } where
  staged := staged
  ok := hr.ok
  sent := by
    show w'.trace.localSent <+: w'.trace.replyAccepted
    rw [hr.localSent, hr.accepted]
    -- what is sent comes from the front of the queue, behind what was sent before
    rcases hr.server with rfl | hserver
    · rw [List.append_nil]
      exact h.sent
    · rw [(h.held hserver).1]
      exact (List.prefix_append_right_inj _).2 hr.front
  held := fun hserver => by
    obtain ⟨hbefore, hcontent⟩ := hr.rest hserver
    obtain ⟨hacc, hrecved⟩ := h.held hbefore
    refine ⟨?_, ?_⟩
    · show w'.trace.replyAccepted = w'.trace.localSent ++ w'.pf.replyQueue.content
      rw [hr.accepted, hr.localSent, hacc, hcontent, List.append_assoc]
    · show w'.trace.recved = w'.trace.replyAccepted.length
      rw [hr.recved, hr.accepted, hrecved]
  accepted := by
    show w'.trace.replyAccepted <+: l.offered
    rw [hr.accepted]
    exact h.accepted
  kept := fun hserver p' hp' ho => by
    obtain ⟨p, hp, ho, heq⟩ := hr.refused p' hp' ho
    show l.offered = w'.trace.replyAccepted ++ _
    rw [hr.accepted, heq]
    exact h.kept (hr.rest hserver).1 p hp ho

/-- The bytes of an offer count once, however often lwIP offers them. -/
theorem offered_eq {w : Fwd} {c : PbufChain} {p : TcpPcb} (hl : w.listens = true) (hp : w.pcb = some p)
    (hr : p.refusedData = none ∨ p.refusedData = some c.pbufs) :
    (p.refusedData.map content).getD [] ++ w.offered (.lwip (.tcpRecv c)) = content c.pbufs := by
  have hrefused : w.refused = p.refusedData := by unfold Fwd.refused; rw [hp]; rfl
  unfold Fwd.offered Fwd.offers
  simp only [hl, if_true, hrefused]
  rcases hr with hr | hr
  · simp [hr]
  · simp [hr]

theorem ReplyKept.offer {l : ReplyPath} {w' : Fwd} {c : PbufChain} (h : ReplyKept l) (staged : w'.Staged)
    (alive : l.w.deleted = false) (hl : l.w.listens = true) (hs : l.w.lwip (.tcpRecv c) = some w') :
    ReplyKept { w := w', offered := l.offered ++ l.w.offered (.lwip (.tcpRecv c)) } := by
  obtain ⟨⟨p, hp, ho, hr⟩, hoffered⟩ := tcpRecv_offered alive hl hs
  have hbytes := offered_eq hl hp hr
  have hprefix : l.w.trace.replyAccepted <+: l.offered ++ l.w.offered (.lwip (.tcpRecv c)) :=
    h.accepted.trans (List.prefix_append ..)
  -- with the offer, everything offered is either accepted or in this chain
  have hall : l.w.pf.localServer = true →
      l.offered ++ l.w.offered (.lwip (.tcpRecv c)) = l.w.trace.replyAccepted ++ content c.pbufs := fun hserver => by
    rw [h.kept hserver p hp ho, List.append_assoc, hbytes]
  have hrefused : ∀ {q : TcpPcb}, w'.pcb = some q → q.refusedData = w'.refused := fun hq => by
    unfold Fwd.refused
    rw [hq]
    rfl
  cases hoffered with
  | dropped server calls pf trace =>
    have hclosed : w'.pf.localServer ≠ true := by
      rw [pf, server]
      decide
    refine ⟨staged, ⟨pf ▸ h.ok.wf, pf ▸ h.ok.capacity⟩, ?_, fun hopen => absurd hopen hclosed, ?_,
      fun hopen => absurd hopen hclosed⟩
    · rw [trace]
      exact h.sent
    · rw [trace]
      exact hprefix
  | refused server calls pf trace kept =>
    refine ⟨staged, ⟨pf ▸ h.ok.wf, pf ▸ h.ok.capacity⟩, ?_, fun _ => ?_, ?_, fun _ q hq _ => ?_⟩
    · rw [trace]
      exact h.sent
    · rw [trace, pf]
      exact h.held server
    · rw [trace]
      exact hprefix
    · show l.offered ++ _ = w'.trace.replyAccepted ++ _
      rw [hrefused hq, kept, trace]
      exact hall server
  | accepted queue server calls push pf trace kept =>
    obtain ⟨hacc, hrecved⟩ := h.held server
    obtain ⟨hwf, hcontent, hcap⟩ := PBufQueue.push_accepted h.ok.wf c.tot c.pos c.bound
      (by rw [h.ok.capacity]; decide) push
    refine ⟨staged, ⟨pf ▸ hwf, pf ▸ hcap.trans h.ok.capacity⟩, ?_, fun _ => ⟨?_, ?_⟩, ?_, fun _ q hq _ => ?_⟩
    · rw [trace]
      exact h.sent.trans (List.prefix_append ..)
    · rw [trace, pf]
      simp only
      rw [hacc, hcontent, List.append_assoc]
    · rw [trace]
      simp only [List.length_append, hrecved]
    · rw [trace]
      simp only
      rw [hall server]
    · show l.offered ++ _ = w'.trace.replyAccepted ++ _
      rw [hrefused hq, kept, trace]
      simpa using hall server

theorem replyKept_step (l : ReplyPath) (a : PfAction) (l' : ReplyPath) (h : ReplyKept l)
    (hs : replyPath l a = some l') : ReplyKept l' := by
  simp only [replyPath] at hs
  split at hs
  · cases hs
  rename_i alive
  rw [Bool.not_eq_true] at alive
  obtain ⟨w', hw, rfl⟩ := Option.map_eq_some_iff.1 hs
  have hstaged := staged_step l.w a w' h.staged hw
  obtain ⟨s, hp⟩ := h.staged alive
  -- a step without an offer
  have hquiet : ∀ {sent}, Replies l.w w' sent → l.w.offers a = none →
      ReplyKept { w := w', offered := l.offered ++ l.w.offered a } := by
    intro sent hr hnone
    have hoffered : l.w.offered a = [] := by
      unfold Fwd.offered
      rw [hnone]
    rw [hoffered, List.append_nil]
    exact h.replies hstaged hr
  cases a with
  | op o =>
    simp only [forwarder, alive, Bool.false_eq_true, if_false, Option.some.injEq] at hw
    subst hw
    obtain ⟨sent, hr⟩ := op_replies h.ok hp o
    exact hquiet hr rfl
  | lwip e =>
    cases hoff : l.w.offers (.lwip e) with
    | none => exact hquiet (lwip_replies h.ok hp alive hoff hw) hoff
    | some p =>
      unfold Fwd.offers at hoff
      split at hoff
      · rename_i c heq
        cases heq
        split at hoff
        · rename_i hl
          exact h.offer hstaged alive hl hw
        · cases hoff
      · cases hoff

/-- A new forwarder has an empty reply queue, and a block that offered nothing. -/
theorem accept_reply (hostname : Bytes) (rcAccept : Int) (rcQuery : Err) (newOk : Bool) (rcCon : Err) :
    let w := (Fwd.accept hostname rcAccept rcQuery newOk rcCon).2
    w.pf.replyQueue = .init (8 * 1024) ∧ w.trace.replyAccepted = [] ∧ w.trace.localSent = [] ∧ w.trace.recved = 0 ∧
      w.refused = none := by
  -- an answer of the resolver makes or closes the block, and leaves queue and trace
  have hdns : ∀ (w : Fwd) (name : Bytes) (ipaddr : Bool), w.refused = none →
      (w.dnsFoundCb name ipaddr rcCon).pf.replyQueue = w.pf.replyQueue ∧
        (w.dnsFoundCb name ipaddr rcCon).trace = w.trace ∧ (w.dnsFoundCb name ipaddr rcCon).refused = none := by
    intro w name ipaddr hr
    unfold Fwd.dnsFoundCb
    split
    · exact ⟨rfl, rfl, hr⟩
    split
    · exact ⟨rfl, rfl, hr⟩
    split
    · refine ⟨rfl, rfl, ?_⟩
      unfold Fwd.refused at hr ⊢
      cases hp : w.pcb with
      | none => rfl
      | some p => rw [hp] at hr; exact hr
    · refine ⟨rfl, rfl, ?_⟩
      unfold Fwd.refused at hr ⊢
      cases hp : w.pcb with
      | none => rfl
      | some p =>
        rw [hp] at hr
        simp only [Option.bind_some] at hr ⊢
        unfold tcpClose
        split <;> simp [hr]
  have hconnect : ((Fwd.new hostname).connect rcAccept rcQuery newOk rcCon).2.pf.replyQueue = .init (8 * 1024) ∧
      ((Fwd.new hostname).connect rcAccept rcQuery newOk rcCon).2.trace = (Fwd.new hostname).trace ∧
      ((Fwd.new hostname).connect rcAccept rcQuery newOk rcCon).2.refused = none := by
    unfold Fwd.connect
    split
    · exact ⟨rfl, rfl, rfl⟩
    split
    · exact ⟨rfl, rfl, rfl⟩
    simp only
    split
    · split
      · split
        · exact hdns _ _ _ rfl
        · exact ⟨rfl, rfl, rfl⟩
      · exact ⟨rfl, rfl, rfl⟩
    · exact ⟨rfl, rfl, rfl⟩
  intro w
  simp only [w]
  unfold Fwd.accept
  generalize (Fwd.new hostname).connect rcAccept rcQuery newOk rcCon = r at hconnect
  obtain ⟨ok, v⟩ := r
  obtain ⟨hqueue, htrace, hrefused⟩ := hconnect
  simp only at hqueue htrace hrefused ⊢
  split
  · exact ⟨hqueue, by rw [htrace]; rfl, by rw [htrace]; rfl, by rw [htrace]; rfl, hrefused⟩
  · exact ⟨hqueue, congrArg Trace.replyAccepted htrace, congrArg Trace.localSent htrace, congrArg Trace.recved htrace,
      hrefused⟩

theorem replyKept_accept (hostname : Bytes) (rcAccept : Int) (rcQuery : Err) (newOk : Bool) (rcCon : Err) :
    ReplyKept (.accept hostname rcAccept rcQuery newOk rcCon) := by
  obtain ⟨hqueue, hacc, hsent, hrecved, hrefused⟩ := accept_reply hostname rcAccept rcQuery newOk rcCon
  refine ⟨staged_accept hostname rcAccept rcQuery newOk rcCon, ⟨?_, ?_⟩, ?_, fun _ => ⟨?_, ?_⟩, ?_, fun _ p hp _ => ?_⟩
  all_goals simp only [ReplyPath.accept]
  · rw [hqueue]
    exact PBufQueue.init_wf _
  · rw [hqueue]
    rfl
  · rw [hsent]
    exact List.nil_prefix
  · rw [hacc, hsent, hqueue]
    rfl
  · rw [hrecved, hacc]
    rfl
  · rw [hacc]
  · unfold Fwd.refused at hrefused
    simp only [ReplyPath.accept] at hp
    rw [hp] at hrefused
    rw [hacc, show p.refusedData = none from hrefused]
    rfl

/-- In every run the bytes that went to the local socket are a prefix of the bytes that lwIP offered, and while
the socket is open they and the bytes of the reply queue are as many as were acknowledged. A chain that is
offered after the close of the socket is acknowledged and dropped. Each chain that is answered with `ERR_OK` is
acknowledged and released once; one that is answered with `ERR_MEM` is not, and leaves the forwarder as it was. -/
theorem reply_path_delivers {hostname : Bytes} {rcAccept : Int} {rcQuery rcCon : Err} {newOk : Bool}
    {as : List PfAction} {l : ReplyPath}
    (hrun : exec replyPath (.accept hostname rcAccept rcQuery newOk rcCon) as = some l) :
    l.w.trace.localSent <+: l.offered ∧
    (l.w.pf.localServer = true →
      l.w.trace.localSent.length + l.w.pf.replyQueue.content.length = l.w.trace.recved) ∧
    ∀ c w', l.w.deleted = false → l.w.listens = true → l.w.lwip (.tcpRecv c) = some w' →
      let (rc, calls) := l.w.tcpRecvCalls c.pbufs
      let acknowledged : List RecvCall := [.tcpRecved (content c.pbufs).length, .pbufFree]
      rc = (l.w.tcpRecvCb c.pbufs .errOk).1 ∧
      (l.w.pf.localServer = false → rc = .errOk ∧ calls = acknowledged ∧ w'.pf = l.w.pf) ∧
      (rc = .errOk ∧ calls = acknowledged ∧ w'.trace.recved = l.w.trace.recved + (content c.pbufs).length ∨
        rc = .errMem ∧ calls = [] ∧ w'.pf = l.w.pf ∧ w'.trace = l.w.trace ∧ w'.refused = some c.pbufs) := by
  have hkept := exec_inv replyKept_step (replyKept_accept hostname rcAccept rcQuery newOk rcCon) hrun
  refine ⟨hkept.sent.trans hkept.accepted, fun hserver => ?_, fun c w' alive hl hs => ?_⟩
  · obtain ⟨hacc, hrecved⟩ := hkept.held hserver
    rw [hrecved, hacc, List.length_append]
  · have hcode := tcpRecvCalls_code l.w c
    cases (tcpRecv_offered alive hl hs).2 with
    | dropped server calls pf trace =>
      rw [calls] at hcode ⊢
      exact ⟨hcode, fun _ => ⟨rfl, rfl, pf⟩, .inl ⟨rfl, rfl, by rw [trace]⟩⟩
    | refused server calls pf trace kept =>
      rw [calls] at hcode ⊢
      exact ⟨hcode, fun hclosed => absurd (server.symm.trans hclosed) (by decide), .inr ⟨rfl, rfl, pf, trace, kept⟩⟩
    | accepted queue server calls push pf trace kept =>
      rw [calls] at hcode ⊢
      exact ⟨hcode, fun hclosed => absurd (server.symm.trans hclosed) (by decide),
        .inl ⟨rfl, rfl, by rw [trace]⟩⟩

/-- Two bytes in two pbufs. -/
def twoPbufs : PbufChain where
  pbufs := [⟨[1], 2, 0⟩, ⟨[2], 1, 0⟩]
  ne := by simp
  tot := ⟨rfl, rfl, trivial⟩
  pos := by decide
  bound := by decide

/-- One of two bytes goes to the local socket, which is closed then. -/
theorem reply_path_delivers_two :
    ∃ l, exec replyPath (.accept [] 0 .errOk true .errOk) [.lwip .tcpConnected, .lwip (.tcpRecv twoPbufs),
        .op (.localIo false true .eof none [.taken 0, .retry 2]), .op (.localIo true false .eof none [])] = some l ∧
      l.w.pf.localServer = false ∧ l.w.trace.localSent = [1] ∧ l.offered = [1, 2] ∧
      l.w.trace.localSent <+: l.offered := by
  obtain ⟨l, h, hp⟩ := Option.any_eq_true _ _ |>.1 (by decide +kernel :
    (exec replyPath (.accept [] 0 .errOk true .errOk) [.lwip .tcpConnected, .lwip (.tcpRecv twoPbufs),
      .op (.localIo false true .eof none [.taken 0, .retry 2]), .op (.localIo true false .eof none [])]).any
        (fun l => decide (l.w.pf.localServer = false ∧ l.w.trace.localSent = [1] ∧ l.offered = [1, 2])) = true)
  obtain ⟨hserver, hsent, hoffered⟩ := of_decide_eq_true hp
  exact ⟨l, h, hserver, hsent, hoffered, (reply_path_delivers h).1⟩

end FortiRdp.Net
