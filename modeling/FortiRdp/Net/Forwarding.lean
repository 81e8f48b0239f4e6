/-
The reply path of a forwarder. Every byte that went into the reply queue either was sent to the local
socket or is still in the queue, as long as the socket is open. After a close by the remote host the
socket is closed by the first flush, so nothing is lost when that flush empties the queue.
-/
import FortiRdp.Net.ForwarderPhase

namespace FortiRdp.Net

open FortiRdp.Lwip FortiRdp.Util FortiRdp.Run

/-! ## The ledger of the reply queue -/

/-- What became of the bytes of the reply queue. -/
structure Ledger (w : Fwd) : Prop where
  wf : w.pf.replyQueue.WF
  capacity : w.pf.replyQueue.capacity = 8 * 1024
  fin : w.trace.remoteFin = true →
    w.pf.state = .disconnecting ∧ w.pf.localClient = false ∨ w.pf.state = .disconnected
  held : w.deleted = false → w.pf.localServer = true →
    w.trace.replyAccepted = w.trace.localSent ++ w.pf.replyQueue.content
  done : w.pf.state = .disconnected ∨ w.deleted = false ∧ w.pf.localServer = false → w.trace.remoteFin = true →
    w.trace.localSendError = false → w.pf.rflushTimeout = false → w.trace.localSent = w.trace.replyAccepted

/-- The members that the ledger reads. -/
def Trace.ledger (t : Trace) : Bytes × Bytes × Bool × Bool := (t.replyAccepted, t.localSent, t.localSendError, t.remoteFin)

/-- A step that leaves the reply queue, its trace and the local socket alone keeps the ledger; the
flush timer may expire. -/
theorem Ledger.frame {w w' : Fwd} (h : Ledger w) (queue : w'.pf.replyQueue = w.pf.replyQueue)
    (state : w'.pf.state = w.pf.state ∨ w.trace.remoteFin = false ∧ w'.pf.state ≠ .disconnected)
    (server : w'.pf.localServer = w.pf.localServer) (client : w'.pf.localClient = w.pf.localClient)
    (timeout : w'.pf.rflushTimeout = false → w.pf.rflushTimeout = false) (deleted : w'.deleted = w.deleted)
    (trace : w'.trace.ledger = w.trace.ledger) : Ledger w' := by
  simp only [Trace.ledger, Prod.mk.injEq] at trace
  obtain ⟨accepted, sent, error, fin⟩ := trace
  refine ⟨queue ▸ h.wf, queue ▸ h.capacity, ?_, ?_, ?_⟩
  · intro hfin
    rw [fin] at hfin
    rcases state with state | ⟨hno, -⟩
    · rw [state, client]
      exact h.fin hfin
    · rw [hno] at hfin
      cases hfin
  · intro hdel hserver
    rw [accepted, sent, queue]
    exact h.held (deleted ▸ hdel) (server ▸ hserver)
  · intro hclosed hfin herr htimer
    rw [fin] at hfin
    rw [error] at herr
    rw [accepted, sent]
    rcases state with state | ⟨hno, -⟩
    · rw [state, server, deleted] at hclosed
      exact h.done hclosed hfin herr (timeout htimer)
    · rw [hno] at hfin
      cases hfin

/-- Before the remote host closed, the forwarder may close the local socket and drop the queue. -/
theorem Ledger.closed {w : Fwd} (wf : w.pf.replyQueue.WF) (capacity : w.pf.replyQueue.capacity = 8 * 1024)
    (fin : w.trace.remoteFin = false) (server : w.pf.localServer = false) : Ledger w :=
  ⟨wf, capacity, fun h => absurd (fin.symm.trans h) (by decide), fun _ h => absurd (server.symm.trans h) (by decide),
    fun _ h => absurd (fin.symm.trans h) (by decide)⟩

/-- Only a forwarder that empties its reply queue, or is done, was closed by the remote host. -/
theorem Ledger.noFin {w : Fwd} {s : Stage} (h : Ledger w) (hp : Phase w s) (hr : s ≠ .flushReply)
    (hd : s ≠ .disconnected) : w.trace.remoteFin = false := by
  have hstate := hp.state_eq
  cases hfin : w.trace.remoteFin with
  | false => rfl
  | true =>
    rcases h.fin hfin with ⟨hdis, hclient⟩ | hdis
    · rw [hstate] at hdis
      cases hp with
      | flushForward state server client => exact absurd (client.symm.trans hclient) (by decide)
      | flushReply => exact absurd rfl hr
      | ready | resolving | connecting | connected | failed | disconnected => cases hdis
    · rw [hstate] at hdis
      cases s with
      | disconnected => exact absurd rfl hd
      | ready | resolving | connecting | connected | flushForward | flushReply | failed => cases hdis

/-! ## Methods -/

theorem disconnect_ledger {w : Fwd} (h : Ledger w) : Ledger w.disconnect := by
  unfold Fwd.disconnect
  split
  · exact h
  · rename_i hc
    have hc : w.pf.state = .connected := not_not.1 hc
    have hfin : w.trace.remoteFin = false := by
      cases hfin : w.trace.remoteFin with
      | false => rfl
      | true => rcases h.fin hfin with ⟨hdis, -⟩ | hdis <;> rw [hc] at hdis <;> cases hdis
    exact .closed (PBufQueue.clear_wf h.wf) (by simpa using h.capacity) hfin rfl

theorem abort_ledger {w : Fwd} {s : Stage} (h : Ledger w) (hp : Phase w s) (hs : s = .connecting ∨ s = .connected) :
    Ledger w.abort := by
  have hfin : w.trace.remoteFin = false := by
    apply h.noFin hp <;> rcases hs with rfl | rfl <;> decide
  have hclosed : w.abort.pf.localServer = false := by
    have := abort_phase hp hs
    cases this; assumption
  refine .closed ?_ ?_ ?_ hclosed
  · unfold Fwd.abort Fwd.tcpAbort
    split
    · exact PBufQueue.clear_wf (by split <;> exact h.wf)
    · exact h.wf
  · unfold Fwd.abort Fwd.tcpAbort
    split
    · rw [PBufQueue.clear_capacity]
      split <;> exact h.capacity
    · exact h.capacity
  · unfold Fwd.abort Fwd.tcpAbort
    split
    · split <;> exact hfin
    · exact hfin

/-- The bytes that leave the reply queue go to the local socket. -/
theorem writeReply_ledger {w : Fwd} (h : Ledger w) (alive : w.deleted = false) (server : w.pf.localServer = true)
    (hstate : w.pf.state ≠ .disconnected) (snd : List SndAnswer) : Ledger (w.writeReply snd).2 := by
  have hd := writeSocket_spec h.wf snd
  have hheld := h.held alive server
  unfold Fwd.writeReply
  generalize writeSocket w.pf.replyQueue snd = r at hd
  obtain ⟨rc, queue, sent⟩ := r
  refine ⟨hd.wf, hd.capacity.trans h.capacity, h.fin, fun _ _ => ?_, ?_⟩
  · simp only
    rw [hheld, hd.content, List.append_assoc]
  · rintro (hdis | ⟨-, hserver⟩)
    · exact absurd hdis hstate
    · exact absurd (server.symm.trans hserver) (by decide)

/-- The flush of the reply queue loses nothing when the local socket has room for the whole queue. -/
theorem flushReplyQueue_ledger {w : Fwd} (h : Ledger w) (hp : Phase w .flushReply) (alive : w.deleted = false)
    {snd : List SndAnswer} (hroom : NeverBusy snd (blocks w.pf.replyQueue)) : Ledger (w.flushReplyQueue snd) := by
  have hstate : w.pf.state = .disconnecting := hp.state_eq
  have server : w.pf.localServer = true := by cases hp; assumption
  have hforward : w.pf.forwardQueue.chain = [] := by cases hp; assumption
  have hl := writeReply_ledger h alive server (by rw [hstate]; decide) snd
  have hheld := hl.held alive server
  have hempty := sendLoop_neverBusy snd [] h.wf hroom
  unfold Fwd.flushReplyQueue
  rw [if_neg (by simp [hstate])]
  have hcond : (w.writeReply snd).2.pf.forwardQueue.isEmpty = true := PBufQueue.isEmpty_iff.2 hforward
  simp only [hcond, or_true, if_true]
  refine ⟨hl.wf, hl.capacity, fun _ => .inr rfl, fun _ hs => (by cases hs), fun _ _ herr _ => ?_⟩
  rcases hempty with hcode | hchain
  · -- the socket failed
    simp [Fwd.writeReply, hcode] at herr
  · have hnil : (w.writeReply snd).2.pf.replyQueue.content = [] := by
      have hq : (w.writeReply snd).2.pf.replyQueue = (sendLoop snd w.pf.replyQueue []).2.1 := rfl
      rw [hq, PBufQueue.content, hchain]
      simp
    rw [hnil, List.append_nil] at hheld
    exact hheld.symm

/-! ## Steps -/

/-- Whenever `flush_reply_queue` is called, the local socket has room for the reply queue: it is not
busy before it has taken all of it. -/
def FlushFits (w : Fwd) : PfAction → Prop
  | .op (.localIo _ true _ _ snd) =>
    w.pf.state = .disconnecting → w.pf.localServer = true → NeverBusy snd (blocks w.pf.replyQueue)
  | _ => True

theorem localIo_ledger {w : Fwd} {s : Stage} (h : Ledger w) (hp : Phase w s) (alive : w.deleted = false)
    (readable writable : Bool) (rcv : RcvAnswer) (a : Alloc) (snd : List SndAnswer)
    (hfit : FlushFits w (.op (.localIo readable writable rcv a snd))) :
    Ledger (w.localIo readable writable rcv a snd) := by
  have hread : Ledger (w.afterRecv readable rcv a) ∧ (w.afterRecv readable rcv a).deleted = false ∧
      ((w.afterRecv readable rcv a).pf.state = .connected → w.pf.localServer = true →
        (w.afterRecv readable rcv a).pf.localServer = true) := by
    obtain ⟨queue, hq⟩ := recv_eq w rcv a
    have hrecv : Ledger (w.recv rcv a).2 := by
      rw [hq]
      exact h.frame rfl (.inl rfl) rfl rfl id rfl rfl
    rw [afterRecv_eq]
    unfold Fwd.orDisconnect
    split
    · split
      · exact ⟨hrecv, by rw [hq]; exact alive, fun _ hs => by rw [hq]; exact hs⟩
      · refine ⟨disconnect_ledger hrecv, ?_, ?_⟩
        · unfold Fwd.disconnect
          split <;> rw [hq] <;> exact alive
        · unfold Fwd.disconnect
          split
          · intro _ hs
            rw [hq]
            exact hs
          · exact fun hs => by cases hs
    · exact ⟨h, alive, fun _ hs => hs⟩
  by_cases hcon : w.pf.state = .connected
  · rw [localIo_connected hcon]
    generalize w.afterRecv readable rcv a = r at hread
    obtain ⟨hl, halive, hserver⟩ := hread
    unfold Fwd.orDisconnect
    have server : w.pf.localServer = true := by
      rw [hp.state_eq] at hcon
      cases hp with
      | connected => assumption
      | ready | resolving | connecting | flushForward | flushReply | failed | disconnected => cases hcon
    split
    · have hrep : Ledger (r.reply snd).2 := by
        unfold Fwd.reply
        split
        · exact hl
        · rename_i hc
          have hc : r.pf.state = .connected := not_not.1 hc
          exact writeReply_ledger hl halive (hserver hc server) (by rw [hc]; decide) snd
      split
      · exact hrep
      · exact disconnect_ledger hrep
    · exact hl
  · unfold Fwd.localIo
    rw [if_neg hcon]
    split
    · rename_i hflush
      obtain ⟨hdis, rfl, server⟩ := hflush
      have hreply : s = .flushReply := by
        rw [hp.state_eq] at hdis
        cases hp with
        | flushReply => rfl
        | flushForward state hs => rw [server] at hs; cases hs
        | ready | resolving | connecting | connected | failed | disconnected => cases hdis
      subst hreply
      exact flushReplyQueue_ledger h hp alive (hfit hdis server)
    · exact h

theorem abortTimedOut_ledger {w : Fwd} {s : Stage} (h : Ledger w) (hp : Phase w s) : Ledger w.abortTimedOut := by
  unfold Fwd.abortTimedOut
  split
  · rename_i hc
    have hstate := hp.state_eq.symm.trans hc.1
    cases s with
    | connecting => exact abort_ledger h hp (.inl rfl)
    | resolving =>
      cases hp with
      | resolving state server client pcb dns noTimeout => rw [noTimeout] at hc; exact absurd hc.2 (by decide)
    | ready | connected | flushForward | flushReply | failed | disconnected => cases hstate
  · exact h

/-- A forwarder that empties its forward queue was not closed by the remote host. -/
theorem flushForwardQueue_ledger {w : Fwd} (h : Ledger w) (hp : Phase w .flushForward) (answers : List (Nat × Err)) (unsent : Bool) (output : Err) :
    Ledger (w.flushForwardQueue answers unsent output) := by
  have hno := h.noFin hp (by decide) (by decide)
  have server : w.pf.localServer = false := by cases hp; assumption
  unfold Fwd.flushForwardQueue
  split
  · exact h
  · simp only
    split
    · exact .closed h.wf h.capacity hno server
    · exact .closed h.wf h.capacity hno server

theorem forwardPass_ledger {w : Fwd} {s : Stage} (h : Ledger w) (hp : Phase w s) (sndbuf : Nat)
    (answers : List (Nat × Err)) (unsent : Bool) (output : Err) :
    Ledger (w.forwardPass sndbuf answers unsent output) := by
  have htimed := abortTimedOut_ledger h hp
  unfold Fwd.forwardPass
  simp only
  split
  · split
    · have hf : Ledger (w.abortTimedOut.forward answers unsent output).2 := by
        unfold Fwd.forward
        split
        · exact htimed
        · exact htimed.frame rfl (.inl rfl) rfl rfl id rfl rfl
      generalize w.abortTimedOut.forward answers unsent output = r at hf
      obtain ⟨ok, u⟩ := r
      simp only at hf ⊢
      split
      · exact hf
      · exact disconnect_ledger hf
    · exact htimed
  · split
    · rename_i hflush
      -- an aborted forwarder is not disconnecting any more, so the forwarder was not connecting
      have hs : s = .flushForward := by
        cases s with
        | connecting =>
          unfold Fwd.abortTimedOut at hflush
          split at hflush
          · rw [(abort_phase hp (.inl rfl)).state_eq] at hflush
            cases hflush.1
          · rw [hp.state_eq] at hflush
            cases hflush.1
        | flushForward => rfl
        | flushReply =>
          rw [abortTimedOut_eq hp (by decide)] at hflush
          cases hp with
          | flushReply state server client => exact absurd (client.symm.trans hflush.2) (by decide)
        | ready | resolving | connected | failed | disconnected =>
          rw [abortTimedOut_eq hp (by decide), hp.state_eq] at hflush
          cases hflush.1
      subst hs
      rw [abortTimedOut_eq hp (by decide)]
      exact flushForwardQueue_ledger h hp answers unsent output
    · exact htimed

theorem abortConnected_ledger {w : Fwd} {s : Stage} (h : Ledger w) (hp : Phase w s) : Ledger w.abortConnected := by
  unfold Fwd.abortConnected
  split
  · rename_i hc
    rw [hp.state_eq] at hc
    cases s with
    | connected => exact abort_ledger h hp (.inr rfl)
    | ready | resolving | connecting | flushForward | flushReply | failed | disconnected => cases hc
  · exact h

theorem delete_ledger {w : Fwd} (h : Ledger w) : Ledger w.delete := by
  refine ⟨h.wf, h.capacity, h.fin, fun hdel => (by cases hdel), ?_⟩
  rintro (hdis | ⟨hdel, -⟩) hfin herr htimer
  · exact h.done (.inl hdis) hfin herr htimer
  · cases hdel

/-! ## Events of the stack -/

theorem dnsFoundCb_ledger {w : Fwd} (h : Ledger w) (hno : w.trace.remoteFin = false) (name : Bytes) (ipaddr : Bool)
    (rcCon : Err) : Ledger (w.dnsFoundCb name ipaddr rcCon) := by
  unfold Fwd.dnsFoundCb
  split
  · exact h.frame rfl (.inr ⟨hno, fun hs => by cases hs⟩) rfl rfl id rfl rfl
  split
  · exact h.frame rfl (.inr ⟨hno, fun hs => by cases hs⟩) rfl rfl id rfl rfl
  split
  · exact h.frame rfl (.inl rfl) rfl rfl id rfl rfl
  · exact .closed h.wf h.capacity hno rfl

/-- A chain that the callback takes comes behind the bytes that wait in the reply queue. -/
theorem tcpRecvCb_ledger {w : Fwd} {s : Stage} (h : Ledger w) (hp : Phase w s) (alive : w.deleted = false)
    (hs : s = .connected ∨ s = .flushForward) (c : PbufChain) : Ledger (w.tcpRecvCb c.pbufs .errOk).2 := by
  unfold Fwd.tcpRecvCb
  rw [if_pos c.ne]
  split
  · exact h.frame rfl (.inl rfl) rfl rfl id rfl rfl
  · rename_i hserver
    have server : w.pf.localServer = true := by simpa using hserver
    have hstate : w.pf.state = .connected := by
      rcases hs with rfl | rfl
      · exact hp.state_eq
      · cases hp with
        | flushForward state hs => exact absurd (server.symm.trans hs) (by decide)
    cases hpush : w.pf.replyQueue.push c.pbufs with
    | mk rc queue =>
      cases rc with
      | false => exact h
      | true =>
        obtain ⟨hwf, hcontent, hcap⟩ := PBufQueue.push_accepted h.wf c.tot c.pos c.bound
          (by rw [h.capacity]; decide) hpush
        refine ⟨hwf, hcap.trans h.capacity, h.fin, fun _ _ => ?_, ?_⟩
        · show w.trace.replyAccepted ++ content c.pbufs = w.trace.localSent ++ queue.content
          rw [h.held alive server, hcontent, List.append_assoc]
        · rintro (hdis | ⟨-, hs⟩)
          · exact absurd (hstate.symm.trans hdis) (by decide)
          · exact absurd (server.symm.trans hs) (by decide)

theorem tcpFin_ledger {w : Fwd} {s : Stage} (h : Ledger w) (hp : Phase w s) (alive : w.deleted = false) :
    Ledger (w.tcpRecvCb [] .errOk).2 := by
  unfold Fwd.tcpRecvCb
  rw [if_neg (by simp)]
  split
  · rename_i hcon
    have server : w.pf.localServer = true := by
      have hstate := hp.state_eq.symm.trans hcon.2
      cases hp with
      | connected => assumption
      | ready | resolving | connecting | flushForward | flushReply | failed | disconnected => cases hstate
    refine ⟨h.wf, h.capacity, fun _ => .inl ⟨rfl, rfl⟩, fun _ _ => h.held alive server, ?_⟩
    rintro (hdis | ⟨-, hs⟩)
    · cases hdis
    · exact absurd (server.symm.trans hs) (by decide)
  · exact h

theorem lwip_ledger {w w' : Fwd} {s : Stage} (h : Ledger w) (hp : Phase w s) (alive : w.deleted = false)
    {e : LwipEvent} (hs : w.lwip e = some w') : Ledger w' := by
  cases lwip_step alive hs with
  | dnsFound hdns =>
    obtain rfl := hp.of_dnsPending hdns
    apply dnsFoundCb_ledger
    · exact h.frame rfl (.inl rfl) rfl rfl id rfl rfl
    · exact h.noFin hp (by decide) (by decide)
  | tcpConnected hpcb hsyn =>
    have hno : w.trace.remoteFin = false := by
      rcases hp.pcb_cases hpcb with rfl | ⟨-, rfl⟩ | ⟨wired, -⟩ | ⟨leaving, -⟩
      · cases hsyn
      · exact h.noFin hp (by decide) (by decide)
      · rw [wired.state] at hsyn; cases hsyn
      · rw [leaving.state] at hsyn; cases hsyn
    exact h.frame rfl (.inr ⟨hno, fun hs => by cases hs⟩) rfl rfl id rfl rfl
  | tcpErr hpcb _ herr =>
    have hno : w.trace.remoteFin = false := by
      rcases hp.pcb_cases hpcb with rfl | ⟨-, rfl⟩ | ⟨-, rfl | rfl⟩ | ⟨leaving, -⟩
      · cases herr
      · exact h.noFin hp (by decide) (by decide)
      · exact h.noFin hp (by decide) (by decide)
      · exact h.noFin hp (by decide) (by decide)
      · rw [leaving.err] at herr; cases herr
    exact .closed h.wf h.capacity hno rfl
  | @tcpSent p len =>
    obtain ⟨n, hn⟩ := tcpSentCb_eq { w with pcb := some { p with unacked := p.unacked - len } } len
    rw [hn]
    exact h.frame rfl (.inl rfl) rfl rfl id rfl rfl
  | @tcpRecv _ c hpcb hst =>
    have hstage : s = .connected ∨ s = .flushForward := by
      rcases hp.pcb_cases hpcb with rfl | ⟨wired, -⟩ | ⟨-, hstage⟩ | ⟨leaving, -⟩
      · exact absurd hst.1 (by decide)
      · rw [wired.state] at hst; exact absurd hst.1 (by decide)
      · exact hstage
      · rw [leaving.state] at hst; exact absurd hst.1 (by decide)
    exact (tcpRecvCb_ledger h hp alive hstage c).frame rfl (.inl rfl) rfl rfl id rfl rfl
  | @tcpFin p hpcb hst =>
    have hset := hp.set_pcb { p with finReceived := true } hpcb (by rw [hst.1]; simp) rfl rfl rfl
    exact tcpFin_ledger (h.frame rfl (.inl rfl) rfl rfl id rfl rfl) hset alive
  | rflushTimeout => exact h.frame rfl (.inl rfl) rfl rfl (fun hs => by cases hs) rfl rfl
  | tcpErrSilent | tcpSentSilent | tcpFinSilent | pcbFreed | connectTimeout | fflushTimeout =>
    exact h.frame rfl (.inl rfl) rfl rfl id rfl rfl
  | tcpRecvSilent => exact h

/-- A forwarder that was just accepted has nothing to reply yet. -/
theorem connect_ledger (hostname : Bytes) (rcAccept : Int) (rcQuery : Err) (newOk : Bool) (rcCon : Err) :
    Ledger ((Fwd.new hostname).connect rcAccept rcQuery newOk rcCon).2 := by
  have hnew : ∀ w : Fwd, w.pf.replyQueue = .init (8 * 1024) → w.trace = (Fwd.new hostname).trace → Ledger w := by
    intro w hq ht
    refine ⟨hq ▸ PBufQueue.init_wf _, hq ▸ rfl, fun h => ?_, fun _ _ => ?_, fun _ h => ?_⟩
    · rw [ht] at h; cases h
    · rw [ht, hq]; rfl
    · rw [ht] at h; cases h
  unfold Fwd.connect
  split
  · exact hnew _ rfl rfl
  split
  · exact hnew _ rfl rfl
  simp only
  split
  · split
    · split
      · apply dnsFoundCb_ledger
        · exact hnew _ rfl rfl
        · rfl
      · exact hnew _ rfl rfl
    · exact hnew _ rfl rfl
  · exact hnew _ rfl rfl

/-! ## Runs -/

/-- What holds of a forwarder along every run: its ledger and, while it exists, its stage. -/
structure Kept (w : Fwd) : Prop where
  ledger : Ledger w
  phase : w.deleted = false → ∃ s, Phase w s

theorem kept_accept (hostname : Bytes) (rcAccept : Int) (rcQuery : Err) (newOk : Bool) (rcCon : Err) :
    Kept (Fwd.accept hostname rcAccept rcQuery newOk rcCon).2 := by
  have hl := connect_ledger hostname rcAccept rcQuery newOk rcCon
  have hp := connect_phase (phase_new hostname) rcAccept rcQuery newOk rcCon
  unfold Fwd.accept
  generalize (Fwd.new hostname).connect rcAccept rcQuery newOk rcCon = r at hl hp
  obtain ⟨ok, w⟩ := r
  cases ok with
  | true =>
    obtain ⟨s, hs, -⟩ := hp rfl
    exact ⟨hl, fun _ => ⟨s, hs⟩⟩
  | false => exact ⟨delete_ledger hl, fun h => by cases h⟩

theorem kept_step (w : Fwd) (a : PfAction) (w' : Fwd) (h : Kept w) (hfit : FlushFits w a)
    (hs : forwarder w a = some w') : Kept w' := by
  cases a with
  | lwip e =>
    cases hdel : w.deleted with
    | false =>
      obtain ⟨s, hp⟩ := h.phase hdel
      obtain ⟨s', hp', -⟩ := lwip_phase hp hdel hs
      exact ⟨lwip_ledger h.ledger hp hdel hs, fun _ => ⟨s', hp'⟩⟩
    | true =>
      obtain ⟨hdel', hpf, cbs, htrace⟩ := lwip_gone hdel hs
      refine ⟨h.ledger.frame (by rw [hpf]) (.inl (by rw [hpf])) (by rw [hpf]) (by rw [hpf]) (by rw [hpf]; exact id)
        (hdel'.trans hdel.symm) (by rw [htrace]; rfl), fun hno => ?_⟩
      rw [hdel'] at hno
      cases hno
  | op o =>
    simp only [forwarder] at hs
    split at hs
    · cases hs
    rename_i hdel
    have hdel : w.deleted = false := by simpa using hdel
    cases hs
    obtain ⟨s, hp⟩ := h.phase hdel
    cases o with
    | localIo readable writable rcv a snd =>
      obtain ⟨s', hp', -⟩ := localIo_phase hp readable writable rcv a snd
      exact ⟨localIo_ledger h.ledger hp hdel readable writable rcv a snd hfit, fun _ => ⟨s', hp'⟩⟩
    | forwardPass sndbuf answers unsent output =>
      obtain ⟨s', hp', -⟩ := forwardPass_phase hp sndbuf answers unsent output
      exact ⟨forwardPass_ledger h.ledger hp sndbuf answers unsent output, fun _ => ⟨s', hp'⟩⟩
    | abortConnected =>
      obtain ⟨s', hp', -⟩ := abortConnected_phase hp
      exact ⟨abortConnected_ledger h.ledger hp, fun _ => ⟨s', hp'⟩⟩
    | delete => exact ⟨delete_ledger h.ledger, fun hno => by cases hno⟩

/-- In every run in which each flush of the reply queue finds room for all of it in the local socket,
a forwarder that the remote host closed first has sent every byte of its reply queue when its local
socket is closed or its state is DISCONNECTED, unless the socket failed or the flush timer expired. -/
theorem reply_delivered {hostname : Bytes} {rcAccept : Int} {rcQuery rcCon : Err} {newOk : Bool} {as : List PfAction}
    {w : Fwd} (hfit : Meets forwarder FlushFits (Fwd.accept hostname rcAccept rcQuery newOk rcCon).2 as)
    (h : exec forwarder (Fwd.accept hostname rcAccept rcQuery newOk rcCon).2 as = some w)
    (hfin : w.trace.remoteFin = true) (herr : w.trace.localSendError = false) (htimer : w.pf.rflushTimeout = false)
    (hclosed : w.pf.state = .disconnected ∨ w.deleted = false ∧ w.pf.localServer = false) :
    w.trace.localSent = w.trace.replyAccepted :=
  (exec_inv_of_meets kept_step (kept_accept hostname rcAccept rcQuery newOk rcCon) hfit h).ledger.done hclosed hfin
    herr htimer

/-- The bytes `[1, 2]` of the remote host. -/
def twoBytes : PbufChain where
  pbufs := [⟨[1, 2], 2, 0⟩]
  ne := PbufChain.two.ne
  tot := PbufChain.two.tot
  pos := PbufChain.two.pos
  bound := PbufChain.two.bound

/-- A forwarder whose local socket takes one byte at the first flush and then is busy loses the other. -/
theorem reply_lost :
    ¬ ∀ (as : List PfAction) (w : Fwd), exec forwarder (Fwd.accept [] 0 .errOk true .errOk).2 as = some w →
      w.trace.remoteFin = true → w.trace.localSendError = false → w.pf.rflushTimeout = false →
      w.pf.state = .disconnected ∨ w.deleted = false ∧ w.pf.localServer = false →
      w.trace.localSent = w.trace.replyAccepted := by
  intro hall
  have := hall [.lwip .tcpConnected, .lwip (.tcpRecv twoBytes), .lwip .tcpFin,
    .op (.localIo false true .eof none [.taken 0, .retry 2])] _ rfl rfl rfl rfl (.inl rfl)
  exact absurd this (by decide)

/-- With room for both bytes nothing is lost. -/
theorem reply_delivered_two :
    let as : List PfAction := [.lwip .tcpConnected, .lwip (.tcpRecv twoBytes), .lwip .tcpFin,
      .op (.localIo false true .eof none [.taken 0, .taken 0])]
    ∃ w, exec forwarder (Fwd.accept [] 0 .errOk true .errOk).2 as = some w ∧
      w.trace.localSent = w.trace.replyAccepted ∧ w.trace.localSent = [1, 2] := by
  intro as
  have hfit : Meets forwarder FlushFits (Fwd.accept [] 0 .errOk true .errOk).2 as := by
    refine meets_step rfl trivial (meets_step rfl trivial (meets_step rfl trivial (meets_step rfl ?_ (meets_nil _))))
    intro _ _
    show NeverBusy [.taken 0, .taken 0] [2]
    simp [NeverBusy]
  obtain ⟨w, h⟩ : ∃ w, exec forwarder (Fwd.accept [] 0 .errOk true .errOk).2 as = some w := ⟨_, rfl⟩
  have hsent := reply_delivered hfit h
  cases h
  exact ⟨_, rfl, hsent rfl rfl rfl (.inl rfl), rfl⟩

end FortiRdp.Net
