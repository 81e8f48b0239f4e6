/-
A busy layer below a forwarder. The local socket may answer RETRY, `tcp_write` may have no memory for a
segment, and the output queue of the PPP interface may be full; all of this passes. The loop body keeps the
connection when `send_data` or `tcp_output` is busy. `recv` and `forward` take the same answers for errors,
and the loop body disconnects.
-/
import FortiRdp.Net.ForwardPath
import FortiRdp.Net.Forwarding

namespace FortiRdp.Net

open FortiRdp.Lwip FortiRdp.Util FortiRdp.Run

/-! ## The loop body -/

/-- What the layers below answer to a forwarder in one pass of the loop of `run`: whether `select` reports its
socket, the local socket, the memory of lwIP, and the TCP side. -/
structure PassAnswers where
  readable : Bool
  writable : Bool
  rcv : RcvAnswer
  alloc : Alloc
  snd : List SndAnswer
  sndbuf : Nat
  answers : List (Nat × Err)
  unsent : Bool
  output : Err

/-- The pass over the local sockets. -/
def PassAnswers.localIo (p : PassAnswers) : PfAction := .op (.localIo p.readable p.writable p.rcv p.alloc p.snd)

/-- The pass over the lwIP side. -/
def PassAnswers.forwardPass (p : PassAnswers) : PfAction := .op (.forwardPass p.sndbuf p.answers p.unsent p.output)

/-- The loop body up to the pass over the lwIP side. -/
def Fwd.afterLocal (w : Fwd) (p : PassAnswers) : Fwd := w.localIo p.readable p.writable p.rcv p.alloc p.snd

/-- What the loop body does with a forwarder. -/
def Fwd.pass (w : Fwd) (p : PassAnswers) : Fwd :=
  (w.afterLocal p).forwardPass p.sndbuf p.answers p.unsent p.output

/-- Every layer does what it is asked for, or is busy. -/
structure PassAnswers.Transient (p : PassAnswers) : Prop where
  rcv : (∃ rw, p.rcv = .retry rw) ∨ p.alloc ≠ none ∧ ∃ d, d ≠ [] ∧ p.rcv = .data d
  snd : ∀ a ∈ p.snd, (∃ room, a = .taken room) ∨ ∃ rw, a = .retry rw
  write : ∀ x ∈ p.answers, x.2 = .errOk ∨ x.2 = .errMem
  output : p.output = .errOk ∨ p.output = .errIf

/-- The bytes that left the reply queue went to the local socket. -/
def Fwd.ReplySent (w w' : Fwd) : Prop :=
  ∃ sent, w'.trace.localSent = w.trace.localSent ++ sent ∧ w.pf.replyQueue.content = sent ++ w'.pf.replyQueue.content

/-- The forwarder is as good after the loop body as before: CONNECTED, both sockets open, and every byte that
the layers below did not take is still in its queue. -/
structure Fwd.Survives (w : Fwd) (p : PassAnswers) : Prop where
  state : (w.pass p).pf.state = .connected
  server : (w.pass p).pf.localServer = true
  client : (w.pass p).LivePcb
  reply : w.ReplySent (w.pass p)
  forward : w.pf.forwardQueue.content ++ w.received p.localIo =
    (w.afterLocal p).written p.forwardPass ++ (w.pass p).pf.forwardQueue.content

/-- `recv` asks the local socket for data, and `recv_data` answers RETRY. -/
def Fwd.recvBusy (w : Fwd) (p : PassAnswers) : Prop :=
  p.readable = true ∧ w.pf.forwardQueue.remainingSpace ≠ 0 ∧ ∃ rw, p.rcv = .retry rw

/-- `forward` has a block for `tcp_write`, of those in the forward queue and the one that `recv` adds, and
`tcp_write` answers `ERR_MEM`. -/
def Fwd.writeBusy (w : Fwd) (p : PassAnswers) : Prop :=
  (p.unsent = true ∨ p.sndbuf ≠ 0) ∧
    OutOfMemory p.answers (blocks w.pf.forwardQueue ++ lengths (w.received p.localIo))

/-! ## The pass over the local sockets -/

/-- A socket that takes data or is busy does not fail the loop. -/
theorem sendLoop_busy : ∀ (answers : List SndAnswer) {q : PBufQueue} (sent : Bytes), q.WF →
    (∀ a ∈ answers, (∃ room, a = .taken room) ∨ ∃ rw, a = .retry rw) →
      (sendLoop answers q sent).1.code = .netctxSndRetry ∨ (sendLoop answers q sent).1.rc = 0
  | [], q, sent, _, _ => by
    unfold sendLoop
    split
    · exact .inr rfl
    · exact .inl rfl
  | a :: answers, q, sent, hq, hbusy => by
    unfold sendLoop
    split
    · exact .inr rfl
    rename_i hne
    simp only [PBufQueue.isEmpty_iff] at hne
    simp only
    split
    · rename_i hok
      obtain ⟨q', hmove, hd⟩ := drained_head hq hne (sendData_ok hok).2
      rw [hmove]
      exact sendLoop_busy answers _ hd.wf fun b hb => hbusy b (List.mem_cons_of_mem _ hb)
    · rename_i hok
      rcases hbusy a (List.mem_cons_self ..) with ⟨room, rfl⟩ | ⟨rw, rfl⟩
      · -- a socket that takes data of a block that is not empty is OK
        obtain ⟨p, c, hc⟩ := List.exists_cons_of_ne_nil hne
        have hoff : q.offset < p.len := hq.offset p (by simp [hc])
        have hlen : q.getHead.data.length ≠ 0 := by
          rw [PBufQueue.getHead_data hq hc, List.length_drop, ← Pbuf.len]
          omega
        refine absurd ?_ hok
        unfold sendData
        simp only
        rw [if_neg hlen]
      · exact .inl rfl

theorem reply_busy {w : Fwd} (hc : w.pf.state = .connected) (hq : w.pf.replyQueue.WF) {snd : List SndAnswer}
    (hbusy : ∀ a ∈ snd, (∃ room, a = .taken room) ∨ ∃ rw, a = .retry rw) :
    ∃ v, w.reply snd = (true, v) ∧ v.pf.state = .connected ∧ v.pf.forwardQueue = w.pf.forwardQueue ∧ w.ReplySent v := by
  have hcode : (writeSocket w.pf.replyQueue snd).1 = 0 := by
    unfold writeSocket
    simp only
    split
    · rfl
    · rename_i hne
      exact (sendLoop_busy snd [] hq hbusy).resolve_left hne
  have hd := writeSocket_spec hq snd
  refine ⟨(w.writeReply snd).2, ?_, hc, rfl, (writeSocket w.pf.replyQueue snd).2.2, rfl, hd.content⟩
  unfold Fwd.reply
  rw [if_neg (by simp [hc])]
  have hrc : (w.writeReply snd).1 = 0 := hcode
  simp [hrc]

theorem recvData_stored {d : Bytes} {len : Nat} (hd : d ≠ []) (hlen : len ≠ 0) : (recvData (.data d) len).2 ≠ [] := by
  have htake : d.take len ≠ [] := by
    rw [ne_eq, List.take_eq_nil_iff, not_or]
    exact ⟨hlen, hd⟩
  simp [recvData, htake]

/-- The pass over the local sockets keeps the connection and fills the forward queue, unless `recv_data` answers
RETRY. -/
theorem localIo_busy {w : Fwd} (hc : w.pf.state = .connected) (hq : w.pf.forwardQueue.Fits)
    (hr : w.pf.replyQueue.WF) {p : PassAnswers} (ht : p.Transient) :
    w.recvBusy p ∧ (w.afterLocal p).pf.state.past = true ∨
      ¬ w.recvBusy p ∧ (w.afterLocal p).pf.state = .connected ∧ w.ReplySent (w.afterLocal p) ∧
        blocks (w.afterLocal p).pf.forwardQueue = blocks w.pf.forwardQueue ++ lengths (w.received p.localIo) := by
  have hwrite : ∀ u : Fwd, u.pf.state = .connected → u.pf.replyQueue = w.pf.replyQueue → u.trace = w.trace →
      let v := if p.writable = true then Fwd.orDisconnect (u.reply p.snd) else u
      v.pf.state = .connected ∧ w.ReplySent v ∧ v.pf.forwardQueue = u.pf.forwardQueue := by
    intro u hu hqueue htrace
    have hsame : w.ReplySent u := ⟨[], by rw [htrace, List.append_nil], by rw [hqueue]; rfl⟩
    simp only
    split
    · obtain ⟨v, hv, hstate, hforward, hsent⟩ := reply_busy hu (hqueue ▸ hr) ht.snd
      rw [hv]
      refine ⟨hstate, ?_, hforward⟩
      unfold Fwd.ReplySent at hsent ⊢
      rw [hqueue, htrace] at hsent
      exact hsent
    · exact ⟨hu, hsame, rfl⟩
  unfold Fwd.afterLocal
  rw [localIo_connected hc, afterRecv_eq]
  by_cases hread : p.readable = true
  · obtain ⟨ok, queue, lost, hrecv, -, -, -, hok, hblocks⟩ := recv_spec hc hq p.writable p.rcv p.alloc p.snd
    have hreceived : w.received p.localIo = w.received (.op (.localIo true p.writable p.rcv p.alloc p.snd)) := by
      rw [← hread]
      rfl
    rw [← hreceived] at hok hblocks
    rw [if_pos hread, hrecv]
    cases ok with
    | true =>
      obtain ⟨hstate, hsent, hforward⟩ := hwrite { w with pf := { w.pf with forwardQueue := queue } } hc rfl rfl
      refine .inr ⟨?_, hstate, hsent, ?_⟩
      · rintro ⟨-, hspace, rw, hrcv⟩
        refine (hok.1 rfl).elim hspace fun hnot => hnot.1 ?_
        rw [hreceived, hrcv]
        simp only [Fwd.received]
        split <;> rfl
      · rw [← hblocks rfl]
        exact congrArg blocks hforward
    | false =>
      obtain ⟨hspace, hnone⟩ := not_or.1 (mt hok.2 (by decide))
      refine .inl ⟨⟨hread, hspace, ?_⟩, ?_⟩
      · -- data would have been taken
        rcases ht.rcv with hretry | ⟨halloc, d, hd, hrcv⟩
        · exact hretry
        · refine absurd ⟨?_, halloc⟩ hnone
          have hroom : min 2048 w.pf.forwardQueue.remainingSpace ≠ 0 := by omega
          rw [hreceived, hrcv]
          simp only [Fwd.received]
          rw [if_pos ⟨hc, hroom⟩]
          exact recvData_stored hd hroom
      · exact (replyStep_forwardQueue _ p.writable p.snd).2 (disconnect_past (.inl hc))
  · obtain ⟨hstate, hsent, hforward⟩ := hwrite w hc rfl rfl
    rw [if_neg hread]
    refine .inr ⟨fun h => hread h.1, hstate, hsent, ?_⟩
    have hnone : w.received p.localIo = [] := by
      unfold PassAnswers.localIo
      rw [Bool.not_eq_true] at hread
      rw [hread]
      rfl
    rw [hnone, lengths, if_pos rfl, List.append_nil]
    exact congrArg blocks hforward

/-! ## The pass over the lwIP side -/

theorem writeTcp_busy {q : PBufQueue} (hq : q.WF) {answers : List (Nat × Err)} (unsent : Bool) {output : Err}
    (hmem : ∀ x ∈ answers, x.2 = .errOk ∨ x.2 = .errMem) (hout : output = .errOk ∨ output = .errIf) :
    (writeTcp q answers unsent output).1 = .errOk ↔ ¬ OutOfMemory answers (blocks q) := by
  have hloop := tcpLoop_outOfMemory answers [] hq hmem
  unfold writeTcp
  generalize tcpLoop answers q [] = r at hloop
  obtain ⟨rc, queue, bs⟩ := r
  rcases hloop with ⟨hask, rfl⟩ | ⟨hask, rfl⟩
  · exact iff_of_false (by simp) (not_not.2 hask)
  · refine iff_of_true ?_ hask
    rcases hout with rfl | rfl <;> simp only [true_and] <;> split <;> rfl

/-- The pass over the lwIP side keeps the connection, unless `tcp_write` answers `ERR_MEM`. -/
theorem forwardPass_busy {w : Fwd} (hc : w.pf.state = .connected) (hq : w.pf.forwardQueue.WF) {p : PassAnswers}
    (ht : p.Transient) :
    let v := w.forwardPass p.sndbuf p.answers p.unsent p.output
    let busy := (p.unsent = true ∨ p.sndbuf ≠ 0) ∧ OutOfMemory p.answers (blocks w.pf.forwardQueue)
    busy ∧ v.pf.state.past = true ∨
      ¬ busy ∧ v.pf.state = .connected ∧ v.pf.replyQueue = w.pf.replyQueue ∧ v.trace = w.trace := by
  intro v busy
  have hidle : w.abortTimedOut = w := if_neg (by simp [hc])
  have hv : v = if w.hasDataToForward p.unsent p.sndbuf then
      .orDisconnect (w.forward p.answers p.unsent p.output) else w := by
    simp only [v, Fwd.forwardPass, hidle]
    rw [if_pos hc]
    rfl
  have hdata : busy → w.hasDataToForward p.unsent p.sndbuf = true := by
    rintro ⟨hsend, hask⟩
    have hne : w.pf.forwardQueue.isEmpty = false := by
      rw [← Bool.not_eq_true, PBufQueue.isEmpty_iff]
      intro hnil
      rw [blocks_nil hnil] at hask
      cases hanswers : p.answers <;> rw [hanswers] at hask <;> exact hask
    rcases hsend with hsend | hsend
    · simp [Fwd.hasDataToForward, hsend]
    · simp [Fwd.hasDataToForward, hne, hsend]
  rw [hv]
  split
  · rename_i hhas
    have hrc := writeTcp_busy hq p.unsent ht.write ht.output
    have hforward : (w.forward p.answers p.unsent p.output).1 =
        decide ((writeTcp w.pf.forwardQueue p.answers p.unsent p.output).1 = .errOk) := by
      unfold Fwd.forward
      rw [if_neg (by simp [hc])]
    obtain ⟨queue, n, pcb, heq⟩ := forward_eq w p.answers p.unsent p.output
    generalize w.forward p.answers p.unsent p.output = r at hforward heq
    obtain ⟨ok, u⟩ := r
    simp only at hforward heq ⊢
    subst heq
    by_cases hask : OutOfMemory p.answers (blocks w.pf.forwardQueue)
    · have hfail : ok = false := by
        rw [hforward, decide_eq_false_iff_not, hrc]
        exact not_not.2 hask
      rw [hfail]
      refine .inl ⟨⟨?_, hask⟩, disconnect_past (.inl hc)⟩
      unfold Fwd.hasDataToForward at hhas
      rcases Bool.or_eq_true_iff.1 hhas with hu | hs
      · exact .inl hu
      · exact .inr (by simpa using (Bool.and_eq_true_iff.1 hs).2)
    · have hok : ok = true := by
        rw [hforward, decide_eq_true_eq, hrc]
        exact hask
      rw [hok]
      exact .inr ⟨fun h => hask h.2, hc, rfl, rfl⟩
  · rename_i hhas
    exact .inr ⟨fun h => hhas (hdata h), hc, rfl, rfl⟩

/-! ## Reachable states -/

/-- What is known of a reachable forwarder. While its connection is not over, its reply queue was never
flushed. -/
structure Sound (w : Fwd) : Prop where
  staged : w.Staged
  fits : w.pf.forwardQueue.Fits
  kept : w.deleted = true ∨ w.pf.state.past = true ∨ Kept w

theorem sound_accept (hostname : Bytes) (rcAccept : Int) (rcQuery : Err) (newOk : Bool) (rcCon : Err) :
    Sound (Fwd.accept hostname rcAccept rcQuery newOk rcCon).2 := by
  refine ⟨staged_accept hostname rcAccept rcQuery newOk rcCon, ?_,
    .inr (.inr (kept_accept hostname rcAccept rcQuery newOk rcCon))⟩
  rw [accept_forwardQueue]
  exact PBufQueue.init_fits (by decide)

theorem sound_step (w : Fwd) (a : PfAction) (w' : Fwd) (h : Sound w) (hs : forwarder w a = some w') : Sound w' := by
  have hstaged := staged_step w a w' h.staged hs
  cases hdel : w.deleted with
  | true =>
    cases a with
    | lwip e =>
      obtain ⟨hdel', hpf, -⟩ := lwip_gone hdel hs
      exact ⟨hstaged, hpf ▸ h.fits, .inl hdel'⟩
    | op o => simp [forwarder, hdel] at hs
  | false =>
    obtain ⟨s, hp⟩ := h.staged hdel
    obtain ⟨lost, ht⟩ := transfer_step hp hdel h.fits hs
    refine ⟨hstaged, ht.fits, .inr ?_⟩
    by_cases hpast : w.pf.state.past = true
    · exact .inl ((step_past hp hdel hs).1 hpast)
    · -- a connection that is not over does not flush the reply queue
      have hfit : FlushFits w a := by
        unfold FlushFits
        split
        · intro hdis
          rw [hdis] at hpast
          exact absurd rfl hpast
        · trivial
      have hkept := (h.kept.resolve_left (by simp [hdel])).resolve_left hpast
      exact .inr (kept_step w a w' hkept hfit hs)

theorem past_not_connected {w : Fwd} (h : w.pf.state.past = true) : w.pf.state ≠ .connected := by
  intro hc
  rw [hc] at h
  cases h

/-- In every reachable CONNECTED state and for all answers of layers that do what they are asked for or are
busy, the loop body leaves the forwarder as it was, without the bytes that were taken, unless `recv_data`
answers RETRY to `recv` or `tcp_write` answers `ERR_MEM` to `forward`; then it does not. -/
theorem survives_iff {hostname : Bytes} {rcAccept : Int} {rcQuery rcCon : Err} {newOk : Bool} {as : List PfAction}
    {w : Fwd} (hrun : exec forwarder (Fwd.accept hostname rcAccept rcQuery newOk rcCon).2 as = some w)
    (alive : w.deleted = false) (hc : w.pf.state = .connected) {p : PassAnswers} (ht : p.Transient) :
    w.Survives p ↔ ¬ w.recvBusy p ∧ ¬ w.writeBusy p := by
  have hsound := exec_inv sound_step (sound_accept hostname rcAccept rcQuery newOk rcCon) hrun
  obtain ⟨s, hp⟩ := hsound.staged alive
  have hkept : Kept w := by
    refine (hsound.kept.resolve_left (by simp [alive])).resolve_left fun hpast => ?_
    exact past_not_connected hpast hc
  -- the two passes are steps of the machine
  have hlocal : forwarder w p.localIo = some (w.afterLocal p) := by
    simp only [forwarder, PassAnswers.localIo, alive]
    rfl
  obtain ⟨s', hp', -⟩ : Moves s (w.afterLocal p) := localIo_phase hp p.readable p.writable p.rcv p.alloc p.snd
  have alive' : (w.afterLocal p).deleted = false := by
    have hlife : (w.afterLocal p).life = w.life :=
      op_life w (.localIo p.readable p.writable p.rcv p.alloc p.snd) fun ho => by cases ho
    exact (congrArg Prod.fst hlife).trans alive
  have hremote : forwarder (w.afterLocal p) p.forwardPass = some (w.pass p) := by
    simp only [forwarder, PassAnswers.forwardPass, alive']
    rfl
  obtain ⟨s'', hp'', -⟩ : Moves s' (w.pass p) := forwardPass_phase hp' p.sndbuf p.answers p.unsent p.output
  obtain ⟨lost, hin⟩ := transfer_step hp alive hsound.fits hlocal
  obtain ⟨lost', hout⟩ := transfer_step hp' alive' hin.fits hremote
  rcases localIo_busy hc hsound.fits hkept.ledger.wf ht with ⟨hbusy, hpast⟩ | ⟨hbusy, hstate, hsent, hblocks⟩
  · refine iff_of_false (fun hsurvives => ?_) fun h => h.1 hbusy
    exact past_not_connected ((step_past hp' alive' hremote).1 hpast) hsurvives.state
  have hpass := forwardPass_busy hstate hin.fits.wf ht
  simp only at hpass
  rw [hblocks] at hpass
  rcases hpass with ⟨hwrite, hpast⟩ | ⟨hwrite, hcon, hreply, htrace⟩
  · exact iff_of_false (fun hsurvives => past_not_connected hpast hsurvives.state) fun h => h.2 hwrite
  refine iff_of_true ?_ ⟨hbusy, hwrite⟩
  have hcon : (w.pass p).pf.state = .connected := hcon
  obtain rfl := hp''.of_connected hcon
  refine ⟨hcon, by cases hp''; assumption, hp''.live rfl, ?_, ?_⟩
  · obtain ⟨sent, hlocalSent, hcontent⟩ := hsent
    refine ⟨sent, ?_, ?_⟩
    · rw [← hlocalSent]
      exact congrArg Trace.localSent htrace
    · rw [hcontent]
      exact congrArg (sent ++ PBufQueue.content ·) hreply.symm
  · -- a forwarder that is still CONNECTED gave up nothing
    obtain rfl := hin.past.resolve_right fun hpast => past_not_connected hpast hstate
    obtain rfl := hout.past.resolve_right fun hpast => past_not_connected hpast hcon
    have hbytes := hin.bytes
    have hbytes' := hout.bytes
    rw [List.append_nil] at hbytes hbytes'
    have hnone : (w.afterLocal p).received p.forwardPass = [] := rfl
    rw [hnone, List.append_nil] at hbytes'
    rw [hbytes, hbytes']
    rfl

/-- The local socket takes one byte and is busy then, and the output queue of the PPP interface is full: the
other byte stays in the reply queue. -/
theorem survives_busySend :
    let p : PassAnswers := { readable := false, writable := true, rcv := .retry 0, alloc := none,
                             snd := [.taken 0, .retry 2], sndbuf := 0, answers := [(0, .errOk)], unsent := true,
                             output := .errIf }
    ∃ w, exec forwarder (Fwd.accept [] 0 .errOk true .errOk).2 [.lwip .tcpConnected, .lwip (.tcpRecv twoBytes)] = some w ∧
      w.pf.replyQueue.content = [1, 2] ∧ w.Survives p ∧ (w.pass p).pf.replyQueue.content = [2] := by
  intro p
  obtain ⟨w, h⟩ : ∃ w, exec forwarder (Fwd.accept [] 0 .errOk true .errOk).2
      [.lwip .tcpConnected, .lwip (.tcpRecv twoBytes)] = some w := ⟨_, rfl⟩
  have ht : p.Transient := by
    refine ⟨.inl ⟨0, rfl⟩, ?_, by decide, .inr rfl⟩
    intro a ha
    rcases List.mem_cons.1 ha with rfl | ha
    · exact .inl ⟨0, rfl⟩
    · exact .inr ⟨2, List.mem_singleton.1 ha⟩
  have hspace : ∀ ns, ¬ OutOfMemory [(0, .errOk)] ns := by
    intro ns
    cases ns with
    | nil => exact id
    | cons n ns => exact fun hask => hask.1 rfl
  have hread : ¬ w.recvBusy p := fun hbusy => nomatch hbusy.1
  have hwrite : ¬ w.writeBusy p := fun hbusy => hspace _ hbusy.2
  have hsurvives : w.deleted = false → w.pf.state = .connected → w.Survives p := by
    intro alive hc
    exact (survives_iff h alive hc ht).2 ⟨hread, hwrite⟩
  cases h
  exact ⟨_, rfl, by decide +kernel, hsurvives rfl rfl, by decide +kernel⟩

/-- `recv_data` answers RETRY. -/
def busyRecv : PassAnswers :=
  { readable := true, writable := false, rcv := .retry 2, alloc := none, snd := [], sndbuf := 0, answers := []
    unsent := false, output := .errOk }

/-- `tcp_write` answers `ERR_MEM` to the byte that `recv` read. -/
def busyWrite : PassAnswers :=
  { readable := true, writable := false, rcv := .data [1], alloc := some fun _ => 0, snd := [], sndbuf := 100
    answers := [(100, .errMem)], unsent := false, output := .errOk }

/-- Either answer ends a connection that was just made. -/
theorem busy_disconnects :
    ∃ w, exec forwarder (Fwd.accept [] 0 .errOk true .errOk).2 [.lwip .tcpConnected] = some w ∧ w.deleted = false ∧
      w.pf.state = .connected ∧
      (busyRecv.Transient ∧ ¬ w.Survives busyRecv ∧ (w.pass busyRecv).pf.localServer = false) ∧
      busyWrite.Transient ∧ ¬ w.Survives busyWrite ∧ (w.pass busyWrite).pf.localServer = false := by
  have hclosed : ∀ {w : Fwd} {p : PassAnswers}, (w.pass p).pf.localServer = false → ¬ w.Survives p :=
    fun hno h => absurd (hno.symm.trans h.server) (by decide)
  have hretry : busyRecv.Transient := ⟨.inl ⟨2, rfl⟩, nofun, nofun, .inl rfl⟩
  have hmem : busyWrite.Transient := by
    refine ⟨.inr ⟨nofun, [1], by decide, rfl⟩, nofun, fun x hx => .inr ?_, .inl rfl⟩
    rw [List.mem_singleton.1 hx]
  refine ⟨_, rfl, rfl, rfl, ⟨hretry, hclosed ?_, ?_⟩, hmem, hclosed ?_, ?_⟩
  all_goals decide +kernel

end FortiRdp.Net
