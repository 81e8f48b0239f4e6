/-
The branches that report an internal error: the forward queue is full after `recv` looked at its space, or a
block cannot be moved past after it was sent. No run reaches them, as the queues stay in order: the data that
`recv` asks for fits, and what was sent is at most the rest of the head.
-/
import FortiRdp.Net.BackPressure
import FortiRdp.Net.PPInterface
import FortiRdp.Net.ReplyPath

namespace FortiRdp.Net

open FortiRdp.Lwip FortiRdp.Util FortiRdp.Run

/-! ## The answers that are tested -/

/-- What `move` answers in the loop of `OutputQueue::write(net::Socket&)`. -/
def sendMoves : List SndAnswer → PBufQueue → List Bool
  | [], _ => []
  | a :: answers, q =>
    if q.isEmpty then []
    else
      let status := sendData a q.getHead.data.length
      if status.code = .netctxSndOk then
        match q.move status.sbytes with
        | none => [false]
        | some q => true :: sendMoves answers q
      else []

/-- What `move` answers in the loop of `OutputQueue::write(tcp_pcb*)`. -/
def tcpMoves : List (Nat × Err) → PBufQueue → List Bool
  | [], _ => []
  | (sndbuf, rc) :: answers, q =>
    if q.isEmpty = true ∨ sndbuf = 0 then []
    else if rc = .errOk then
      match q.move (q.getCblock sndbuf).data.length with
      | none => [false]
      | some q => true :: tcpMoves answers q
    else []

/-- What `push` answers in `recv`, which is what `recv` returns once there is data and memory for it. -/
def Fwd.recvPush (w : Fwd) (rcv : RcvAnswer) (a : Alloc) : List Bool :=
  if w.received (.op (.localIo true false rcv a [])) = [] ∨ a = none then [] else [(w.recv rcv a).1]

/-- The answers of `push` and `move` that the code tests in an action. -/
def Fwd.checks (w : Fwd) : PfAction → List Bool
  | .op (.localIo readable writable rcv a snd) =>
    if w.pf.state = .connected then
      let v := w.afterRecv readable rcv a
      (if readable then w.recvPush rcv a else []) ++
        if writable = true ∧ v.pf.state = .connected then sendMoves snd v.pf.replyQueue else []
    else if w.pf.state = .disconnecting ∧ writable = true ∧ w.pf.localServer = true then
      sendMoves snd w.pf.replyQueue
    else []
  | .op (.forwardPass sndbuf answers unsent _) =>
    let v := w.abortTimedOut
    if v.pf.state = .connected ∧ v.hasDataToForward unsent sndbuf = true ∨
      v.pf.state = .disconnecting ∧ v.pf.localClient = true
    then tcpMoves answers v.pf.forwardQueue else []
  | _ => []

/-- The answers of `move` in a step of the PPP interface. -/
def Transmit.checks (t : Transmit) : TransmitOp → List Bool
  | .write _ _ _ => []
  | .send answers => sendMoves answers t.pp.outputQueue

/-! ## The queues -/

theorem sendMoves_true : ∀ (answers : List SndAnswer) {q : PBufQueue}, q.WF → ∀ b ∈ sendMoves answers q, b = true
  | [], _, _, b, hb => nomatch hb
  | a :: answers, q, hq, b, hb => by
    unfold sendMoves at hb
    split at hb
    · cases hb
    rename_i hne
    simp only [PBufQueue.isEmpty_iff] at hne
    simp only at hb
    split at hb
    · rename_i hok
      obtain ⟨q', hmove, hd⟩ := drained_head hq hne (sendData_ok hok).2
      rw [hmove] at hb
      rcases List.mem_cons.1 hb with rfl | hb
      · rfl
      · exact sendMoves_true answers hd.wf b hb
    · cases hb

theorem tcpMoves_true : ∀ (answers : List (Nat × Err)) {q : PBufQueue}, q.WF → ∀ b ∈ tcpMoves answers q, b = true
  | [], _, _, b, hb => nomatch hb
  | (sndbuf, rc) :: answers, q, hq, b, hb => by
    unfold tcpMoves at hb
    split at hb
    · cases hb
    rename_i hne
    simp only [PBufQueue.isEmpty_iff, not_or] at hne
    split at hb
    · obtain ⟨q', hmove, hd⟩ := drained_cblock hq hne.1 sndbuf
      rw [hmove] at hb
      rcases List.mem_cons.1 hb with rfl | hb
      · rfl
      · exact tcpMoves_true answers hd.wf b hb
    · cases hb

/-- The queues of a forwarder are in order, and the forward queue holds at most 8192 bytes. -/
structure QueuesOk (w : Fwd) : Prop where
  staged : w.Staged
  forward : w.pf.forwardQueue.Fits
  capacity : w.pf.forwardQueue.capacity = 8 * 1024
  reply : ReplyOk w

theorem push_capacity (q : PBufQueue) (c : List Pbuf) : (q.push c).2.capacity = q.capacity := by
  unfold PBufQueue.push
  split
  · split
    · split <;> rfl
    · rfl
  · rfl

theorem recv_capacity (w : Fwd) (rcv : RcvAnswer) (a : Alloc) :
    (w.recv rcv a).2.pf.forwardQueue.capacity = w.pf.forwardQueue.capacity := by
  unfold Fwd.recv
  split
  · rfl
  simp only
  split
  · rfl
  split
  · rfl
  cases pbufAlloc a (recvData rcv (min 2048 w.pf.forwardQueue.remainingSpace)).1.rbytes with
  | none => rfl
  | some buffer =>
    simp only
    generalize hpush : PBufQueue.push w.pf.forwardQueue _ = r
    have hcap : r.2.capacity = w.pf.forwardQueue.capacity := hpush ▸ push_capacity _ _
    split
    · rfl
    · exact hcap

theorem localIo_capacity (w : Fwd) (readable writable : Bool) (rcv : RcvAnswer) (a : Alloc) (snd : List SndAnswer) :
    (w.localIo readable writable rcv a snd).pf.forwardQueue.capacity = w.pf.forwardQueue.capacity := by
  -- neither a read nor the disconnection after a failed one gives the queue another capacity
  have hread : (w.afterRecv readable rcv a).pf.forwardQueue.capacity = w.pf.forwardQueue.capacity := by
    rw [afterRecv_eq]
    split
    · rw [orDisconnect_forwardQueue, recv_capacity]
    · rfl
  by_cases hc : w.pf.state = .connected
  · rw [localIo_connected hc]
    exact (congrArg PBufQueue.capacity (replyStep_forwardQueue _ writable snd).1).trans hread
  · unfold Fwd.localIo
    rw [if_neg hc]
    split
    · unfold Fwd.flushReplyQueue
      split
      · rfl
      · simp only
        split
        · exact PBufQueue.clear_capacity _
        · rfl
    · rfl

theorem abort_capacity {w : Fwd} (h : w.pf.state = .connected ∨ w.pf.state = .connecting) :
    w.abort.pf.forwardQueue.capacity = w.pf.forwardQueue.capacity := by
  rw [abort_forwardQueue w h, PBufQueue.clear_capacity]

theorem forwardPass_capacity {w : Fwd} (hq : w.pf.forwardQueue.WF) (sndbuf : Nat) (answers : List (Nat × Err))
    (unsent : Bool) (output : Err) :
    (w.forwardPass sndbuf answers unsent output).pf.forwardQueue.capacity = w.pf.forwardQueue.capacity := by
  have htimed : w.abortTimedOut.pf.forwardQueue.WF ∧
      w.abortTimedOut.pf.forwardQueue.capacity = w.pf.forwardQueue.capacity := by
    unfold Fwd.abortTimedOut
    split
    · rename_i hc
      rw [abort_forwardQueue w (.inr hc.1)]
      exact ⟨PBufQueue.clear_wf hq, PBufQueue.clear_capacity _⟩
    · exact ⟨hq, rfl⟩
  have hwrite := (writeTcp_spec htimed.1 answers unsent output).capacity.trans htimed.2
  unfold Fwd.forwardPass
  simp only
  split
  · split
    · have hforward : (w.abortTimedOut.forward answers unsent output).2.pf.forwardQueue.capacity =
          w.pf.forwardQueue.capacity := by
        unfold Fwd.forward
        split
        · exact htimed.2
        · exact hwrite
      generalize w.abortTimedOut.forward answers unsent output = r at hforward
      obtain ⟨ok, v⟩ := r
      simp only at hforward ⊢
      split
      · exact hforward
      · rw [disconnect_forwardQueue, hforward]
    · exact htimed.2
  · split
    · unfold Fwd.flushForwardQueue
      split
      · exact htimed.2
      · simp only
        split
        · rw [PBufQueue.clear_capacity]
          exact hwrite
        · exact hwrite
    · exact htimed.2

theorem step_capacity {w w' : Fwd} {a : PfAction} (alive : w.deleted = false) (hq : w.pf.forwardQueue.WF)
    (hs : forwarder w a = some w') : w'.pf.forwardQueue.capacity = w.pf.forwardQueue.capacity := by
  cases a with
  | lwip e =>
    -- the end of the stream is the only event that touches the queue: it clears it
    by_cases he : e = .tcpFin
    · subst he
      obtain ⟨p, -, hs⟩ := Option.bind_eq_some_iff.1 hs
      split at hs
      · cases hs
        split
        · rw [call_alive (by exact alive)]
          unfold Fwd.tcpRecvCb
          rw [if_neg (by simp)]
          split
          · exact PBufQueue.clear_capacity _
          · rfl
        · rfl
      · cases hs
    · rw [lwip_forwardQueue alive hs he]
  | op o =>
    simp only [forwarder, alive, Bool.false_eq_true, if_false, Option.some.injEq] at hs
    subst hs
    cases o with
    | localIo readable writable rcv a snd => exact localIo_capacity w readable writable rcv a snd
    | forwardPass sndbuf answers unsent output => exact forwardPass_capacity hq sndbuf answers unsent output
    | abortConnected =>
      show w.abortConnected.pf.forwardQueue.capacity = _
      unfold Fwd.abortConnected
      split
      · rename_i hc
        exact abort_capacity (.inl hc)
      · rfl
    | delete => rfl

/-! ## Runs -/

theorem queuesOk_accept (hostname : Bytes) (rcAccept : Int) (rcQuery : Err) (newOk : Bool) (rcCon : Err) :
    QueuesOk (Fwd.accept hostname rcAccept rcQuery newOk rcCon).2 := by
  have hsound := sound_accept hostname rcAccept rcQuery newOk rcCon
  exact ⟨hsound.staged, hsound.fits, by rw [accept_forwardQueue]; rfl,
    (replyKept_accept hostname rcAccept rcQuery newOk rcCon).ok⟩

/-- A step of the stack keeps the reply queue in order, whether it offers a chain or not. -/
theorem lwip_replyOk {w w' : Fwd} {s : Stage} {e : LwipEvent} (h : ReplyOk w) (hp : Phase w s) (alive : w.deleted = false)
    (hs : w.lwip e = some w') : ReplyOk w' := by
  cases hoff : w.offers (.lwip e) with
  | none => exact (lwip_replies h hp alive hoff hs).ok
  | some p =>
    unfold Fwd.offers at hoff
    split at hoff
    · rename_i c heq
      cases heq
      split at hoff
      · rename_i hl
        -- only an accepted chain changes the queue
        cases (tcpRecv_offered alive hl hs).2 with
        | dropped _ _ pf => exact ⟨pf ▸ h.wf, pf ▸ h.capacity⟩
        | refused _ _ pf => exact ⟨pf ▸ h.wf, pf ▸ h.capacity⟩
        | accepted queue _ _ push pf =>
          obtain ⟨hwf, -, hcap⟩ := PBufQueue.push_accepted h.wf c.tot c.pos c.bound (by rw [h.capacity]; decide) push
          exact ⟨pf ▸ hwf, pf ▸ hcap.trans h.capacity⟩
      · cases hoff
    · cases hoff

theorem queuesOk_step (w : Fwd) (a : PfAction) (w' : Fwd) (h : QueuesOk w) (hs : forwarder w a = some w') :
    QueuesOk w' := by
  have hstaged := staged_step w a w' h.staged hs
  cases hdel : w.deleted with
  | true =>
    cases a with
    | lwip e =>
      obtain ⟨-, hpf, -⟩ := lwip_gone hdel hs
      exact ⟨hstaged, hpf ▸ h.forward, hpf ▸ h.capacity, hpf ▸ h.reply.wf, hpf ▸ h.reply.capacity⟩
    | op o => simp [forwarder, hdel] at hs
  | false =>
    obtain ⟨s, hp⟩ := h.staged hdel
    obtain ⟨lost, ht⟩ := transfer_step hp hdel h.forward hs
    refine ⟨hstaged, ht.fits, (step_capacity hdel h.forward.wf hs).trans h.capacity, ?_⟩
    cases a with
    | lwip e => exact lwip_replyOk h.reply hp hdel hs
    | op o =>
      simp only [forwarder, hdel, Bool.false_eq_true, if_false, Option.some.injEq] at hs
      subst hs
      obtain ⟨sent, hr⟩ := op_replies h.reply hp o
      exact hr.ok

theorem recvPush_true {w : Fwd} (hq : w.pf.forwardQueue.Fits) (rcv : RcvAnswer) (a : Alloc) :
    ∀ b ∈ w.recvPush rcv a, b = true := by
  intro b hb
  unfold Fwd.recvPush at hb
  split at hb
  · cases hb
  rename_i hdata
  rw [not_or] at hdata
  -- a forwarder that is not connected receives nothing
  have hc : w.pf.state = .connected := by
    by_contra hc
    exact hdata.1 (received_eq_nil hc _)
  obtain ⟨ok, queue, lost, hrecv, -, -, -, hok, -⟩ := recv_spec hc hq false rcv a []
  rw [hrecv, hok.2 (.inr hdata)] at hb
  exact List.mem_singleton.1 hb

theorem afterRecv_replyOk {w : Fwd} (h : ReplyOk w) (readable : Bool) (rcv : RcvAnswer) (a : Alloc) :
    ReplyOk (w.afterRecv readable rcv a) := by
  unfold Fwd.afterRecv
  split
  · exact (orDisconnect_replies (recv_replies h rcv a)).ok
  · exact h

theorem checks_true {w : Fwd} (h : QueuesOk w) (a : PfAction) : ∀ b ∈ w.checks a, b = true := by
  intro b hb
  cases a with
  | lwip e => cases hb
  | op o =>
    cases o with
    | localIo readable writable rcv a snd =>
      simp only [Fwd.checks] at hb
      split at hb
      · rcases List.mem_append.1 hb with hb | hb
        · split at hb
          · exact recvPush_true h.forward rcv a b hb
          · cases hb
        · split at hb
          · exact sendMoves_true snd (afterRecv_replyOk h.reply readable rcv a).wf b hb
          · cases hb
      · split at hb
        · exact sendMoves_true snd h.reply.wf b hb
        · cases hb
    | forwardPass sndbuf answers unsent output =>
      simp only [Fwd.checks] at hb
      split at hb
      · have hq : w.abortTimedOut.pf.forwardQueue.WF := by
          unfold Fwd.abortTimedOut
          split
          · rename_i hc
            rw [abort_forwardQueue w (.inr hc.1)]
            exact PBufQueue.clear_wf h.forward.wf
          · exact h.forward.wf
        exact tcpMoves_true answers hq b hb
      · cases hb
    | abortConnected | delete => cases hb

/-- In every run of a forwarder and of the PPP interface each `push` of data that was just received and each
`move` over data that was just sent succeeds. The forward queue holds at most 8192 bytes, what was received
with memory for it is in it, and what was sent is no longer in the queue that it came from. -/
theorem internal_errors_dead :
    (∀ hostname rcAccept rcQuery newOk rcCon as w,
      exec forwarder (Fwd.accept hostname rcAccept rcQuery newOk rcCon).2 as = some w →
      w.pf.forwardQueue.size ≤ 8192 ∧
      (∀ a, ∀ b ∈ w.checks a, b = true) ∧
      (∀ rcv a, w.received (.op (.localIo true false rcv a [])) ≠ [] → a ≠ none →
        ∃ v, w.recv rcv a = (true, v) ∧ v.pf.forwardQueue.content =
          w.pf.forwardQueue.content ++ w.received (.op (.localIo true false rcv a []))) ∧
      (∀ snd, w.pf.replyQueue.content =
        (writeSocket w.pf.replyQueue snd).2.2 ++ (writeSocket w.pf.replyQueue snd).2.1.content) ∧
      ∀ answers unsent output, w.pf.forwardQueue.content =
        (writeTcp w.pf.forwardQueue answers unsent output).2.2.flatMap Cblock.data ++
          (writeTcp w.pf.forwardQueue answers unsent output).2.1.content) ∧
    ∀ ops t, exec transmit .init ops = some t →
      (∀ op, ∀ b ∈ t.checks op, b = true) ∧
      ∀ answers, t.pp.outputQueue.content = (t.pp.send answers).2.2 ++ (t.pp.send answers).2.1.outputQueue.content := by
  constructor
  · intro hostname rcAccept rcQuery newOk rcCon as w hrun
    have hok := exec_inv queuesOk_step (queuesOk_accept hostname rcAccept rcQuery newOk rcCon) hrun
    refine ⟨?_, checks_true hok, ?_, fun snd => (writeSocket_spec hok.reply.wf snd).content,
      fun answers unsent output => (writeTcp_spec hok.forward.wf answers unsent output).content⟩
    · have hsize := hok.forward.size
      rw [hok.capacity] at hsize
      exact hsize
    · intro rcv a hdata halloc
      have hc : w.pf.state = .connected := by
        by_contra hc
        exact hdata (received_eq_nil hc _)
      obtain ⟨ok, queue, lost, hrecv, -, hbytes, hlost, hiff, -⟩ := recv_spec hc hok.forward false rcv a []
      obtain rfl := hiff.2 (.inr ⟨hdata, halloc⟩)
      obtain rfl := hlost.resolve_right fun hno => nomatch hno.1
      rw [List.append_nil] at hbytes
      exact ⟨_, hrecv, hbytes.symm⟩
  · intro ops t hrun
    obtain ⟨_, f, -, hc⟩ := exec_simulates channel_step channel_init hrun
    refine ⟨fun op b hb => ?_, fun answers => (send_spec hc.wf answers).content⟩
    cases op with
    | write a sysNow pbuf => cases hb
    | send answers => exact sendMoves_true answers hc.wf b hb

/-- Three bytes that are received and written in two blocks. -/
theorem internal_errors_dead_three :
    ∃ w, exec forwarder (Fwd.accept [] 0 .errOk true .errOk).2 [.lwip .tcpConnected,
        .op (.localIo true false (.data [1, 2, 3]) (some fun _ => 0) [])] = some w ∧
      w.checks (.op (.forwardPass 2 [(2, .errOk), (9, .errOk)] false .errOk)) = [true, true] ∧
      w.pf.forwardQueue.size ≤ 8192 := by
  obtain ⟨w, h, hp⟩ := Option.any_eq_true _ _ |>.1 (by decide +kernel :
    (exec forwarder (Fwd.accept [] 0 .errOk true .errOk).2 [.lwip .tcpConnected,
      .op (.localIo true false (.data [1, 2, 3]) (some fun _ => 0) [])]).any
        (fun w => decide (w.checks (.op (.forwardPass 2 [(2, .errOk), (9, .errOk)] false .errOk)) = [true, true])) = true)
  exact ⟨w, h, of_decide_eq_true hp, (internal_errors_dead.1 [] 0 .errOk true .errOk _ w h).1⟩

end FortiRdp.Net
