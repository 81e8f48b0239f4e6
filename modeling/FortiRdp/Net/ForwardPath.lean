/-
The forward path of a forwarder: from `recv` through the forward queue to `tcp_write`, in `forward` while
the connection is open and in `flush_forward_queue` after the local socket was closed. The bytes received
are those written, those in the queue, and those given up at the end, in this order.
-/
import FortiRdp.Net.PcbOwnership

namespace FortiRdp.Net

open FortiRdp.Lwip FortiRdp.Util FortiRdp.Run

/-! ## What passes through -/

/-- The bytes that `recv_data` stores in an action. -/
def Fwd.received (w : Fwd) : PfAction → Bytes
  | .op (.localIo true _ rcv _ _) =>
    let availableSpace := min 2048 w.pf.forwardQueue.remainingSpace
    if w.pf.state = .connected ∧ availableSpace ≠ 0 then (recvData rcv availableSpace).2 else []
  | _ => []

/-- The bytes that an action passes to `tcp_write`, as far as it takes them. -/
def Fwd.written (w : Fwd) : PfAction → Bytes
  | .op (.forwardPass sndbuf answers unsent output) =>
    let v := w.abortTimedOut
    if v.pf.state = .connected ∧ v.hasDataToForward unsent sndbuf = true ∨
      v.pf.state = .disconnecting ∧ v.pf.localClient = true
    then (writeTcp v.pf.forwardQueue answers unsent output).2.2.flatMap Cblock.data else []
  | _ => []

/-- A forwarder with the bytes received from the local socket, the bytes that `tcp_write` took, and whether
`tcp_close` was called before the timer of the flush fired. -/
structure ForwardPath where
  w : Fwd
  received : Bytes
  written : Bytes
  closed : Bool
  deriving DecidableEq, Repr

def ForwardPath.accept (hostname : Bytes) (rcAccept : Int) (rcQuery : Err) (newOk : Bool) (rcCon : Err) : ForwardPath :=
  let l := PcbLedger.accept hostname rcAccept rcQuery newOk rcCon
  { w := l.w, received := [], written := [], closed := l.released.contains .tcpClose }

/-- The action calls `tcp_close`, and the timer of the flush has not fired. -/
def Fwd.closesInTime (w : Fwd) (a : PfAction) : Bool :=
  (w.releases a).contains .tcpClose && !w.pf.fflushTimeout

/-- The life of a forwarder up to its deletion. -/
def forwardPath : Machine ForwardPath PfAction
  | l, a =>
    if l.w.deleted then none
    else (forwarder l.w a).map fun w =>
      { w := w, received := l.received ++ l.w.received a, written := l.written ++ l.w.written a
        closed := l.closed || l.w.closesInTime a }

/-- The remote side stays open, there is memory for the data of the local socket, `tcp_write` succeeds, and
`tcp_output` succeeds or finds the output queue of the PPP interface full. -/
def PfAction.Smooth : PfAction → Prop
  | .lwip .tcpFin => False
  | .op (.localIo true _ (.data _) a _) => a ≠ none
  | .op (.forwardPass _ answers _ output) => (∀ x ∈ answers, x.2 = .errOk) ∧ (output = .errOk ∨ output = .errIf)
  | _ => True

/-! ## Into the queue -/

theorem recvData_length (rcv : RcvAnswer) (len : Nat) :
    (recvData rcv len).1.rbytes = (recvData rcv len).2.length ∧ (recvData rcv len).2.length ≤ len := by
  unfold recvData
  split
  · split
    · exact ⟨rfl, Nat.zero_le _⟩
    · exact ⟨rfl, by simp⟩
  · exact ⟨rfl, Nat.zero_le _⟩
  · exact ⟨rfl, Nat.zero_le _⟩
  · exact ⟨rfl, Nat.zero_le _⟩

/-- Data is stored exactly when the status is OK. -/
theorem recvData_ok (rcv : RcvAnswer) (len : Nat) :
    (recvData rcv len).1.code = .netctxRcvOk ↔ (recvData rcv len).2 ≠ [] := by
  unfold recvData
  split
  · split
    · simp
    · rename_i hne
      simpa using hne
  · simp
  · simp
  · simp

/-- The copy into a new pbuf fills it. -/
theorem pbufTake_alloc {a : Alloc} {n : Nat} {buffer : Pbuf} {d : Bytes} (h : pbufAlloc a n = some buffer)
    (hn : n < 65536) (hd : d.length = n) : (pbufTake [buffer] d).2 = [{ payload := d, totLen := n, flags := 0 }] := by
  obtain ⟨junk, rfl, hbuf⟩ := Option.map_eq_some_iff.1 h
  rw [Nat.mod_eq_of_lt hn] at hbuf
  subst hbuf
  unfold pbufTake
  rw [if_neg (by simp), if_neg (by simp [hd])]
  simp only [takeLoop]
  split
  · rename_i hnil
    subst hnil
    subst hd
    rfl
  · have hlen : ((List.range n).map junk).length = d.length := by simp [hd]
    rw [Pbuf.len, hlen, List.take_length, overwrite_all hlen.symm]

theorem pbufAlloc_none {a : Alloc} {n : Nat} : pbufAlloc a n = none ↔ a = none := by
  unfold pbufAlloc
  exact Option.map_eq_none_iff

theorem recvData_data {rcv : RcvAnswer} {len : Nat} (h : (recvData rcv len).2 ≠ []) : ∃ d, rcv = .data d := by
  cases rcv with
  | data d => exact ⟨d, rfl⟩
  | retry | eof | error => exact absurd rfl h

/-- The lengths of the blocks for some data: one block, or none for no data. -/
def lengths (d : Bytes) : List Nat := if d = [] then [] else [d.length]

/-- `recv` puts what it read behind the bytes of the forward queue, unless there is no memory for it. It
succeeds when it read something, and when there is no space for anything. -/
theorem recv_spec {w : Fwd} (hc : w.pf.state = .connected) (hq : w.pf.forwardQueue.Fits) (writable : Bool)
    (rcv : RcvAnswer) (a : Alloc) (snd : List SndAnswer) :
    ∃ ok queue lost, w.recv rcv a = (ok, { w with pf := { w.pf with forwardQueue := queue } }) ∧ queue.Fits ∧
      w.pf.forwardQueue.content ++ w.received (.op (.localIo true writable rcv a snd)) = queue.content ++ lost ∧
      (lost = [] ∨ ok = false ∧ a = none ∧ ∃ d, rcv = .data d) ∧
      (ok = true ↔ w.pf.forwardQueue.remainingSpace = 0 ∨
        w.received (.op (.localIo true writable rcv a snd)) ≠ [] ∧ a ≠ none) ∧
      (ok = true → blocks queue = blocks w.pf.forwardQueue ++
        lengths (w.received (.op (.localIo true writable rcv a snd)))) := by
  obtain ⟨hrbytes, hle⟩ := recvData_length rcv (min 2048 w.pf.forwardQueue.remainingSpace)
  have hok := recvData_ok rcv (min 2048 w.pf.forwardQueue.remainingSpace)
  have hreceived : w.received (.op (.localIo true writable rcv a snd)) =
      if min 2048 w.pf.forwardQueue.remainingSpace ≠ 0
      then (recvData rcv (min 2048 w.pf.forwardQueue.remainingSpace)).2 else [] := by
    simp only [Fwd.received, hc, true_and]
  rw [hreceived]
  unfold Fwd.recv
  rw [if_neg (by simp [hc])]
  simp only
  by_cases hspace : min 2048 w.pf.forwardQueue.remainingSpace = 0
  · rw [if_pos hspace, if_neg (by simp [hspace])]
    exact ⟨true, w.pf.forwardQueue, [], rfl, hq, rfl, .inl rfl, by simpa using hspace,
      fun _ => (List.append_nil _).symm⟩
  rw [if_neg hspace, if_pos hspace]
  have hroom : w.pf.forwardQueue.remainingSpace ≠ 0 := by omega
  have hdata : ∀ h : (recvData rcv (min 2048 w.pf.forwardQueue.remainingSpace)).2 ≠ [], ∃ d, rcv = .data d :=
    recvData_data
  generalize recvData rcv (min 2048 w.pf.forwardQueue.remainingSpace) = r at hrbytes hle hok hdata
  obtain ⟨status, incoming⟩ := r
  simp only at hrbytes hle hok hdata ⊢
  by_cases hcode : status.code = .netctxRcvOk
  · have hne := hok.1 hcode
    rw [if_neg (by simp [hcode])]
    cases halloc : pbufAlloc a status.rbytes with
    | none =>
      have hnone := pbufAlloc_none.1 halloc
      exact ⟨false, w.pf.forwardQueue, incoming, rfl, hq, rfl, .inr ⟨rfl, hnone, hdata hne⟩, by simp [hroom, hnone],
        nofun⟩
    | some buffer =>
      -- one pbuf that holds the data, with the flag or without
      have htake := pbufTake_alloc halloc (by omega) hrbytes.symm
      simp only
      rw [htake]
      generalize hchain : (if status.rbytes ≠ min 2048 w.pf.forwardQueue.remainingSpace then _ else _) = chain
      obtain ⟨flags, rfl⟩ : ∃ flags, chain = [{ payload := incoming, totLen := status.rbytes, flags := flags }] := by
        rw [← hchain]
        split <;> exact ⟨_, rfl⟩
      have hpos : 0 < incoming.length := List.length_pos_iff.2 hne
      obtain ⟨queue, hpush, hfits, hcontent⟩ := PBufQueue.push_fits hq
        (c := [{ payload := incoming, totLen := status.rbytes, flags := flags }])
        ⟨by simp [Pbuf.len, hrbytes], trivial⟩ (by simpa [Pbuf.len] using hpos) (by simp)
        (by simp only [content_cons, content_nil, List.append_nil]; omega)
      rw [hpush]
      have hsome : a ≠ none := by
        rintro rfl
        cases halloc
      exact ⟨true, queue, [], rfl, hfits, by simp [hcontent], .inl rfl, iff_of_true rfl (.inr ⟨hne, hsome⟩),
        fun _ => by rw [push_blocks hpush, lengths, if_neg hne]; rfl⟩
  · rw [if_pos hcode]
    obtain rfl : incoming = [] := by simpa [hcode] using hok
    exact ⟨false, w.pf.forwardQueue, [], rfl, hq, rfl, .inl rfl, by simp [hroom], nofun⟩

/-! ## Steps -/

/-- The connection has ended or is ending: the forwarder reads no more. -/
def PfState.past : PfState → Bool
  | .disconnecting | .disconnected | .failed => true
  | .ready | .connecting | .connected => false

/-- The connection has not begun: nothing was read. -/
def PfState.early : PfState → Bool
  | .ready | .connecting => true
  | .connected | .disconnecting | .disconnected | .failed => false

/-- What a step does to the forward queue: the bytes in it and those that come in are those that go out,
those that stay, and those it gives up. A forwarder gives up bytes only when its connection is over, and
in a smooth step only when it is DISCONNECTED without having closed its block in time. -/
structure Transfer (w : Fwd) (a : PfAction) (w' : Fwd) (lost : Bytes) : Prop where
  fits : w'.pf.forwardQueue.Fits
  bytes : w.pf.forwardQueue.content ++ w.received a = w.written a ++ (w'.pf.forwardQueue.content ++ lost)
  past : lost = [] ∨ w'.pf.state.past = true
  smooth : a.Smooth → lost = [] ∨ w'.pf.state = .disconnected
  closed : a.Smooth → w.closesInTime a = true →
    lost = [] ∧ (w'.pf.state = .failed ∨ w'.pf.state = .disconnected) ∧
      (w'.pf.forwardQueue.content = [] ∨ w.pf.state = .connecting)

/-- A step in which nothing passes. -/
theorem Transfer.quiet {w w' : Fwd} {a : PfAction} (hq : w.pf.forwardQueue.Fits)
    (queue : w'.pf.forwardQueue = w.pf.forwardQueue) (received : w.received a = []) (written : w.written a = [])
    (closes : (w.releases a).contains .tcpClose = false) : Transfer w a w' [] := by
  refine ⟨queue ▸ hq, by rw [queue, received, written]; rfl, .inl rfl, fun _ => .inl rfl, fun _ hc => ?_⟩
  rw [Fwd.closesInTime, closes] at hc
  cases hc

/-- A step that clears the queue and ends the connection without `tcp_close`. -/
theorem Transfer.cleared {w w' : Fwd} {a : PfAction} (hq : w.pf.forwardQueue.Fits)
    (queue : w'.pf.forwardQueue = w.pf.forwardQueue.clear) (received : w.received a = []) (written : w.written a = [])
    (past : w'.pf.state.past = true) (smooth : a.Smooth → w'.pf.state = .disconnected)
    (closes : a.Smooth → (w.releases a).contains .tcpClose = false) : Transfer w a w' w.pf.forwardQueue.content := by
  refine ⟨queue ▸ PBufQueue.clear_fits hq, ?_, .inr past, fun hs => .inr (smooth hs), fun hs hc => ?_⟩
  · rw [queue, received, written, PBufQueue.clear_content]
    simp
  · rw [Fwd.closesInTime, closes hs] at hc
    cases hc

theorem abort_forwardQueue (w : Fwd) (hs : w.pf.state = .connected ∨ w.pf.state = .connecting) :
    w.abort.pf.forwardQueue = w.pf.forwardQueue.clear := by
  unfold Fwd.abort Fwd.tcpAbort
  rw [if_pos hs]
  simp only
  split <;> rfl

theorem disconnect_forwardQueue (w : Fwd) : w.disconnect.pf.forwardQueue = w.pf.forwardQueue := by
  unfold Fwd.disconnect
  split <;> rfl

/-- A forwarder that disconnects is not CONNECTED any more. -/
theorem disconnect_past {w : Fwd} (h : w.pf.state = .connected ∨ w.pf.state.past = true) :
    w.disconnect.pf.state.past = true := by
  unfold Fwd.disconnect
  split
  · rename_i hne
    exact h.resolve_left hne
  · rfl

theorem orDisconnect_forwardQueue (r : Bool × Fwd) : (Fwd.orDisconnect r).pf.forwardQueue = r.2.pf.forwardQueue := by
  unfold Fwd.orDisconnect
  split
  · rfl
  · exact disconnect_forwardQueue _

/-- The second half of the pass over the local sockets leaves the forward queue alone. -/
theorem replyStep_forwardQueue (w : Fwd) (writable : Bool) (snd : List SndAnswer) :
    let v := if writable = true then Fwd.orDisconnect (w.reply snd) else w
    v.pf.forwardQueue = w.pf.forwardQueue ∧ (w.pf.state.past = true → v.pf.state.past = true) := by
  intro v
  have hreply : (w.reply snd).2.pf.forwardQueue = w.pf.forwardQueue ∧ (w.reply snd).2.pf.state = w.pf.state := by
    unfold Fwd.reply
    split
    · exact ⟨rfl, rfl⟩
    · exact ⟨rfl, rfl⟩
  simp only [v]
  split
  · obtain ⟨hqueue, hstate⟩ := hreply
    refine ⟨(orDisconnect_forwardQueue _).trans hqueue, ?_⟩
    unfold Fwd.orDisconnect
    split
    · exact fun h => hstate ▸ h
    · exact fun h => disconnect_past (.inr (hstate ▸ h))
  · exact ⟨rfl, id⟩

/-- Only a CONNECTED forwarder reads. -/
theorem received_eq_nil {w : Fwd} (h : w.pf.state ≠ .connected) (a : PfAction) : w.received a = [] := by
  unfold Fwd.received
  split
  · simp only
    rw [if_neg (by simp [h])]
  · rfl

theorem localIo_transfer {w : Fwd} {s : Stage} (h : Phase w s) (hq : w.pf.forwardQueue.Fits) (readable writable : Bool)
    (rcv : RcvAnswer) (a : Alloc) (snd : List SndAnswer) :
    ∃ lost, Transfer w (.op (.localIo readable writable rcv a snd)) (w.localIo readable writable rcv a snd) lost := by
  by_cases hc : w.pf.state = .connected
  · cases readable with
    | false =>
      refine ⟨[], .quiet hq ?_ rfl rfl rfl⟩
      rw [localIo_connected hc]
      exact (replyStep_forwardQueue w writable snd).1
    | true =>
      obtain ⟨ok, queue, lost, hrecv, hfits, hbytes, hlost, -, -⟩ := recv_spec hc hq writable rcv a snd
      have hpass : w.localIo true writable rcv a snd =
          let u := if ok = true then { w with pf := { w.pf with forwardQueue := queue } }
            else Fwd.disconnect { w with pf := { w.pf with forwardQueue := queue } }
          if writable = true then .orDisconnect (u.reply snd) else u := by
        rw [localIo_connected hc, afterRecv_eq, if_pos rfl, hrecv]
        rfl
      generalize hu : (if ok = true then { w with pf := { w.pf with forwardQueue := queue } }
        else Fwd.disconnect { w with pf := { w.pf with forwardQueue := queue } }) = u at hpass
      have hqueue : u.pf.forwardQueue = queue := by
        rw [← hu]
        split
        · rfl
        · exact disconnect_forwardQueue _
      have hpast : lost = [] ∨ u.pf.state.past = true := by
        rcases hlost with hnil | ⟨rfl, -⟩
        · exact .inl hnil
        · rw [← hu]
          exact .inr (disconnect_past (.inl hc))
      obtain ⟨hkeep, hstay⟩ := replyStep_forwardQueue u writable snd
      rw [hpass]
      refine ⟨lost, ⟨?_, ?_, hpast.imp_right hstay, fun hs => ?_, fun _ hcl => nomatch hcl⟩⟩
      · rw [hkeep, hqueue]
        exact hfits
      · rw [hkeep, hqueue]
        exact hbytes
      · rcases hlost with hnil | ⟨-, hnone, d, rfl⟩
        · exact .inl hnil
        · exact absurd hnone hs
  · have hreceived := received_eq_nil hc (.op (.localIo readable writable rcv a snd))
    unfold Fwd.localIo
    rw [if_neg hc]
    split
    · rename_i hflush
      -- the forward queue was cleared when the remote host closed
      have hreply : s = .flushReply := by
        have hdis := hflush.1
        rw [h.state_eq] at hdis
        cases h with
        | flushReply => rfl
        | flushForward state server => rw [server] at hflush; cases hflush.2.2
        | ready | resolving | connecting | connected | failed | disconnected => cases hdis
      subst hreply
      refine ⟨[], .quiet hq ?_ hreceived rfl rfl⟩
      have hnil : w.pf.forwardQueue.chain = [] := by cases h; assumption
      have hclear : w.pf.forwardQueue.clear = w.pf.forwardQueue := by
        unfold PBufQueue.clear
        rw [if_pos hnil]
      unfold Fwd.flushReplyQueue
      split
      · rfl
      · simp only
        split
        · exact hclear
        · rfl
    · exact ⟨[], .quiet hq rfl hreceived rfl rfl⟩

theorem flush_transfer {w : Fwd} (hq : w.pf.forwardQueue.Fits) (hs : w.pf.state = .disconnecting)
    (hc : w.pf.localClient = true) (sndbuf : Nat) (answers : List (Nat × Err)) (unsent : Bool) (output : Err) :
    ∃ lost, Transfer w (.op (.forwardPass sndbuf answers unsent output)) (w.flushForwardQueue answers unsent output)
      lost := by
  have hd := writeTcp_spec hq.wf answers unsent output
  have hfits := writeTcp_fits hq answers unsent output
  have hwritten : w.written (.op (.forwardPass sndbuf answers unsent output)) =
      (writeTcp w.pf.forwardQueue answers unsent output).2.2.flatMap Cblock.data := by
    have hidle : w.abortTimedOut = w := if_neg (by simp [hs])
    simp only [Fwd.written, hidle]
    exact if_pos (.inr ⟨hs, hc⟩)
  have hreceived := received_eq_nil (w := w) (by simp [hs]) (.op (.forwardPass sndbuf answers unsent output))
  unfold Fwd.flushForwardQueue
  rw [if_neg (by simp [hs])]
  simp only
  split
  · rename_i hend
    refine ⟨(writeTcp w.pf.forwardQueue answers unsent output).2.1.content, ⟨PBufQueue.clear_fits hfits, ?_, .inr rfl,
      fun _ => .inr rfl, fun hsm hcl => ?_⟩⟩
    · rw [hreceived, hwritten, PBufQueue.clear_content, List.append_nil, List.nil_append]
      exact hd.content
    · -- without an error and before the timer the queue ends empty
      obtain ⟨hrc, hout⟩ := hsm
      have hok := writeTcp_ok hq.wf unsent hrc hout
      have htimer : w.pf.fflushTimeout = false := by
        unfold Fwd.closesInTime at hcl
        simpa using (Bool.and_eq_true_iff.1 hcl).2
      have hempty := (hend.resolve_left (not_not.2 hok)).resolve_left (by simp [htimer])
      exact ⟨(PBufQueue.content_eq_nil hfits.wf).2 (PBufQueue.isEmpty_iff.1 hempty), .inr rfl,
        .inl (PBufQueue.clear_content _)⟩
  · rename_i hmore
    refine ⟨[], ⟨hfits, ?_, .inl rfl, fun _ => .inl rfl, fun _ hcl => ?_⟩⟩
    · rw [hreceived, hwritten, List.append_nil, List.append_nil]
      exact hd.content
    · have hstate : (w.flushForwardQueue answers unsent output).pf.state = .disconnecting := by
        unfold Fwd.flushForwardQueue
        rw [if_neg (by simp [hs])]
        simp only
        rw [if_neg hmore]
        exact hs
      have hnone : w.releases (.op (.forwardPass sndbuf answers unsent output)) = [] := by
        simp [Fwd.releases, hs, hstate]
      rw [Fwd.closesInTime, hnone] at hcl
      cases hcl

theorem forwardPass_transfer {w : Fwd} {s : Stage} (h : Phase w s) (hq : w.pf.forwardQueue.Fits) (sndbuf : Nat)
    (answers : List (Nat × Err)) (unsent : Bool) (output : Err) :
    ∃ lost, Transfer w (.op (.forwardPass sndbuf answers unsent output)) (w.forwardPass sndbuf answers unsent output)
      lost := by
  by_cases htimed : w.pf.state = .connecting ∧ w.pf.connectTimeout = true
  · -- the connection timed out: it is aborted, and nothing is written
    obtain rfl := h.of_timedOut htimed.1 htimed.2
    have habort : w.abortTimedOut = w.abort := if_pos htimed
    have hstate := (abort_phase h (.inl rfl)).state_eq
    have hpass : w.forwardPass sndbuf answers unsent output = w.abort := by
      simp [Fwd.forwardPass, habort, hstate]
    rw [hpass]
    refine ⟨_, .cleared hq (abort_forwardQueue w (.inr htimed.1)) (received_eq_nil (by simp [htimed.1]) _) ?_
      (by rw [hstate]; rfl) (fun _ => hstate) fun _ => ?_⟩
    · simp [Fwd.written, habort, hstate]
    · simp [Fwd.releases, htimed]
  have hidle : w.abortTimedOut = w := if_neg htimed
  have hpass : w.forwardPass sndbuf answers unsent output =
      if w.pf.state = .connected then
        if w.hasDataToForward unsent sndbuf then .orDisconnect (w.forward answers unsent output) else w
      else if w.pf.state = .disconnecting ∧ w.pf.localClient = true then w.flushForwardQueue answers unsent output
      else w := by
    unfold Fwd.forwardPass
    rw [hidle]
    rfl
  have hreceived : w.received (.op (.forwardPass sndbuf answers unsent output)) = [] := rfl
  rw [hpass]
  by_cases hc : w.pf.state = .connected
  · have hcloses : (w.releases (.op (.forwardPass sndbuf answers unsent output))).contains .tcpClose = false := by
      simp [Fwd.releases, hc]
    rw [if_pos hc]
    split
    · rename_i hdata
      have hd := writeTcp_spec hq.wf answers unsent output
      have hwritten : w.written (.op (.forwardPass sndbuf answers unsent output)) =
          (writeTcp w.pf.forwardQueue answers unsent output).2.2.flatMap Cblock.data := by
        simp only [Fwd.written, hidle]
        exact if_pos (.inl ⟨hc, hdata⟩)
      have hforward : (w.forward answers unsent output).2.pf.forwardQueue =
          (writeTcp w.pf.forwardQueue answers unsent output).2.1 := by
        unfold Fwd.forward
        rw [if_neg (by simp [hc])]
      have hqueue : (Fwd.orDisconnect (w.forward answers unsent output)).pf.forwardQueue =
          (writeTcp w.pf.forwardQueue answers unsent output).2.1 :=
        (orDisconnect_forwardQueue _).trans hforward
      refine ⟨[], ⟨hqueue ▸ writeTcp_fits hq answers unsent output, ?_, .inl rfl, fun _ => .inl rfl, fun _ hcl => ?_⟩⟩
      · rw [hreceived, hwritten, hqueue, List.append_nil, List.append_nil]
        exact hd.content
      · rw [Fwd.closesInTime, hcloses] at hcl
        cases hcl
    · rename_i hdata
      refine ⟨[], .quiet hq rfl hreceived ?_ hcloses⟩
      simp [Fwd.written, hidle, hc, hdata]
  · rw [if_neg hc]
    split
    · rename_i hflush
      exact flush_transfer hq hflush.1 hflush.2 sndbuf answers unsent output
    · rename_i hflush
      refine ⟨[], .quiet hq rfl hreceived ?_ ?_⟩
      · simp only [Fwd.written, hidle]
        exact if_neg (by tauto)
      · simp only [Fwd.releases]
        rw [if_neg htimed, if_neg (by tauto)]
        rfl

theorem dnsFoundCb_forwardQueue (w : Fwd) (name : Bytes) (ipaddr : Bool) (rcCon : Err) :
    (w.dnsFoundCb name ipaddr rcCon).pf.forwardQueue = w.pf.forwardQueue := by
  unfold Fwd.dnsFoundCb
  split
  · rfl
  split
  · rfl
  split <;> rfl

theorem tcpRecvCb_forwardQueue (w : Fwd) (c : PbufChain) :
    (w.tcpRecvCb c.pbufs .errOk).2.pf.forwardQueue = w.pf.forwardQueue := by
  unfold Fwd.tcpRecvCb
  rw [if_pos c.ne]
  split
  · rfl
  · simp only
    split <;> rfl

/-- Only the FIN of the remote host touches the forward queue. -/
theorem lwip_forwardQueue {w w' : Fwd} (alive : w.deleted = false) {e : LwipEvent} (hs : w.lwip e = some w')
    (he : e ≠ .tcpFin) : w'.pf.forwardQueue = w.pf.forwardQueue := by
  cases lwip_step alive hs with
  | dnsFound => exact dnsFoundCb_forwardQueue _ _ _ _
  | @tcpSent p len =>
    obtain ⟨n, hn⟩ := tcpSentCb_eq { w with pcb := some { p with unacked := p.unacked - len } } len
    rw [hn]
  | @tcpRecv _ c => exact tcpRecvCb_forwardQueue w c
  | tcpFin => exact absurd rfl he
  | tcpConnected | tcpErr | tcpErrSilent | tcpSentSilent | tcpRecvSilent | tcpFinSilent | pcbFreed | connectTimeout
  | fflushTimeout | rflushTimeout => rfl

theorem lwip_transfer {w w' : Fwd} {s : Stage} (h : Phase w s) (alive : w.deleted = false)
    (hq : w.pf.forwardQueue.Fits) {e : LwipEvent} (hs : w.lwip e = some w') : ∃ lost, Transfer w (.lwip e) w' lost := by
  have hreceived : w.received (.lwip e) = [] := rfl
  have hwritten : w.written (.lwip e) = [] := rfl
  have hquiet : e ≠ .tcpFin → (w.releases (.lwip e)).contains .tcpClose = false → ∃ lost, Transfer w (.lwip e) w' lost :=
    fun he hopen => ⟨[], .quiet hq (lwip_forwardQueue alive hs he) hreceived hwritten hopen⟩
  cases lwip_step alive hs with
  | tcpFin hpcb =>
    unfold Fwd.tcpRecvCb
    rw [if_neg (by simp)]
    split
    · exact ⟨_, .cleared hq rfl hreceived hwritten rfl (fun hno => hno.elim) fun hno => hno.elim⟩
    · rename_i hc
      refine ⟨[], .quiet hq rfl hreceived hwritten ?_⟩
      simp only [true_and] at hc
      simp [Fwd.releases, show w.pf.state ≠ .connected from hc]
  | tcpFinSilent hpcb _ hcb =>
    refine ⟨[], .quiet hq rfl hreceived hwritten ?_⟩
    simp [Fwd.releases, hpcb, hcb]
  | @dnsFound name ipaddr rcCon hdns =>
    have hqueue := lwip_forwardQueue alive hs fun he => by cases he
    obtain rfl := h.of_dnsPending hdns
    refine ⟨[], hqueue ▸ hq, by rw [hqueue, hreceived, hwritten]; rfl, .inl rfl, fun _ => .inl rfl, fun _ hcl => ?_⟩
    refine ⟨rfl, ?_, .inr h.state_eq⟩
    -- the block is closed only when `tcp_connect` failed
    by_cases hrc : w.pf.hostname = name ∧ ipaddr = true ∧ rcCon ≠ .errOk
    · unfold Fwd.dnsFoundCb
      rw [if_neg (not_not.2 hrc.1), if_neg (by simp [hrc.2.1]), if_neg hrc.2.2]
      exact .inl rfl
    · have hnone : w.releases (.lwip (.dnsFound name ipaddr rcCon)) = [] := if_neg hrc
      rw [Fwd.closesInTime, hnone] at hcl
      cases hcl
  | tcpErr | tcpErrSilent =>
    refine hquiet (fun he => by cases he) ?_
    show (if w.pcbOpen = true then [Release.lwipFree] else []).contains .tcpClose = false
    split <;> rfl
  | tcpConnected | tcpSent | tcpSentSilent | tcpRecv | tcpRecvSilent | pcbFreed | connectTimeout | fflushTimeout
  | rflushTimeout => exact hquiet (fun he => by cases he) rfl

theorem transfer_step {w w' : Fwd} {s : Stage} {a : PfAction} (h : Phase w s) (alive : w.deleted = false)
    (hq : w.pf.forwardQueue.Fits) (hs : forwarder w a = some w') : ∃ lost, Transfer w a w' lost := by
  cases a with
  | lwip e => exact lwip_transfer h alive hq hs
  | op o =>
    simp only [forwarder, alive, Bool.false_eq_true, if_false, Option.some.injEq] at hs
    subst hs
    cases o with
    | localIo readable writable rcv a snd => exact localIo_transfer h hq readable writable rcv a snd
    | forwardPass sndbuf answers unsent output => exact forwardPass_transfer h hq sndbuf answers unsent output
    | abortConnected =>
      simp only [Fwd.op, Fwd.abortConnected]
      split
      · rename_i hc
        obtain rfl := h.of_connected hc
        have hstate := (abort_phase h (.inr rfl)).state_eq
        refine ⟨_, .cleared hq (abort_forwardQueue w (.inl hc)) rfl rfl (by rw [hstate]; rfl) (fun _ => hstate) fun _ => ?_⟩
        simp [Fwd.releases, hc]
      · rename_i hc
        exact ⟨[], .quiet hq rfl rfl rfl (by simp [Fwd.releases, hc])⟩
    | delete => exact ⟨[], .quiet hq rfl rfl rfl rfl⟩

/-! ## Runs -/

/-- How the state moves: a connection that is over stays so, and none begins anew. -/
theorem step_past {w w' : Fwd} {s : Stage} {a : PfAction} (h : Phase w s) (alive : w.deleted = false)
    (hs : forwarder w a = some w') :
    (w.pf.state.past = true → w'.pf.state.past = true) ∧ (w'.pf.state.early = true → w.pf.state.early = true) := by
  rcases step_moves h alive hs with ⟨-, rfl⟩ | ⟨-, s', h', hmove⟩
  · exact ⟨id, id⟩
  · rw [h.state_eq, h'.state_eq]
    rcases hmove with rfl | hnext
    · exact ⟨id, id⟩
    · cases hnext <;> exact ⟨by decide, by decide⟩

/-- What is received was written, is in the queue, or was given up at the end. -/
structure Passing (l : ForwardPath) : Prop where
  staged : l.w.Staged
  fits : l.w.pf.forwardQueue.Fits
  passed : ∃ lost, l.received = l.written ++ (l.w.pf.forwardQueue.content ++ lost) ∧
    (lost = [] ∨ l.w.pf.state.past = true)

/-- After smooth steps a forwarder that is not at its end has given up nothing, and when its block was closed
in time everything was written. -/
structure Delivering (l : ForwardPath) : Prop where
  early : l.w.pf.state.early = true → l.received = []
  held : l.w.pf.state ≠ .failed → l.w.pf.state ≠ .disconnected → l.received = l.written ++ l.w.pf.forwardQueue.content
  closed : l.closed = true → (l.w.pf.state = .failed ∨ l.w.pf.state = .disconnected) ∧ l.written = l.received

theorem accept_forwardQueue (hostname : Bytes) (rcAccept : Int) (rcQuery : Err) (newOk : Bool) (rcCon : Err) :
    (Fwd.accept hostname rcAccept rcQuery newOk rcCon).2.pf.forwardQueue = .init (8 * 1024) := by
  have hconnect : ((Fwd.new hostname).connect rcAccept rcQuery newOk rcCon).2.pf.forwardQueue = .init (8 * 1024) := by
    unfold Fwd.connect
    split
    · rfl
    split
    · rfl
    simp only
    split
    · split
      · split
        · exact dnsFoundCb_forwardQueue _ _ _ _
        · rfl
      · rfl
    · rfl
  unfold Fwd.accept
  generalize (Fwd.new hostname).connect rcAccept rcQuery newOk rcCon = r at hconnect
  obtain ⟨ok, w⟩ := r
  cases ok <;> exact hconnect

theorem passing_accept (hostname : Bytes) (rcAccept : Int) (rcQuery : Err) (newOk : Bool) (rcCon : Err) :
    Passing (.accept hostname rcAccept rcQuery newOk rcCon) := by
  have hqueue := accept_forwardQueue hostname rcAccept rcQuery newOk rcCon
  refine ⟨staged_accept hostname rcAccept rcQuery newOk rcCon, ?_, [], ?_, .inl rfl⟩
  · show (Fwd.accept hostname rcAccept rcQuery newOk rcCon).2.pf.forwardQueue.Fits
    rw [hqueue]
    exact PBufQueue.init_fits (by decide)
  · show [] = [] ++ ((Fwd.accept hostname rcAccept rcQuery newOk rcCon).2.pf.forwardQueue.content ++ [])
    rw [hqueue]
    rfl

theorem forwardPath_cases {l l' : ForwardPath} {a : PfAction} (hs : forwardPath l a = some l') :
    l.w.deleted = false ∧ ∃ w, forwarder l.w a = some w ∧ l' =
      { w := w, received := l.received ++ l.w.received a, written := l.written ++ l.w.written a
        closed := l.closed || l.w.closesInTime a } := by
  simp only [forwardPath] at hs
  split at hs
  · cases hs
  rename_i hdel
  obtain ⟨w, hw, rfl⟩ := Option.map_eq_some_iff.1 hs
  exact ⟨by simpa using hdel, w, hw, rfl⟩

theorem passing_step (l : ForwardPath) (a : PfAction) (l' : ForwardPath) (h : Passing l) (hs : forwardPath l a = some l') :
    Passing l' := by
  obtain ⟨alive, w, hw, rfl⟩ := forwardPath_cases hs
  obtain ⟨s, hp⟩ := h.staged alive
  obtain ⟨gone, hreceived, hgone⟩ := h.passed
  obtain ⟨lost, ht⟩ := transfer_step hp alive h.fits hw
  obtain ⟨hpast, -⟩ := step_past hp alive hw
  refine ⟨staged_step l.w a w h.staged hw, ht.fits, ?_⟩
  rcases hgone with rfl | hover
  · -- nothing was given up before, so this step decides
    refine ⟨lost, ?_, ht.past⟩
    simp only
    rw [hreceived, List.append_nil, List.append_assoc, ht.bytes, List.append_assoc]
  · -- bytes were given up, so nothing comes in any more
    have hnone : l.w.received a = [] := by
      apply received_eq_nil
      intro hc
      rw [hc] at hover
      cases hover
    have hbytes := ht.bytes
    rw [hnone, List.append_nil] at hbytes
    refine ⟨lost ++ gone, ?_, .inr (hpast hover)⟩
    simp only
    rw [hnone, List.append_nil, hreceived, hbytes]
    simp only [List.append_assoc]

/-- At the end of its life a forwarder reads, writes and closes nothing. -/
theorem final_idle {w w' : Fwd} {s : Stage} {a : PfAction} (h : Phase w s) (hs : forwarder w a = some w')
    (hfinal : w.pf.state = .failed ∨ w.pf.state = .disconnected) :
    w.received a = [] ∧ w.written a = [] ∧ (w.releases a).contains .tcpClose = false := by
  have hne : w.pf.state ≠ .connected ∧ w.pf.state ≠ .connecting ∧ w.pf.state ≠ .disconnecting := by
    rcases hfinal with hf | hf <;> rw [hf] <;> decide
  have hidle : w.abortTimedOut = w := if_neg (by simp [hne.2.1])
  refine ⟨received_eq_nil hne.1 a, ?_, ?_⟩
  · unfold Fwd.written
    split
    · simp only [hidle]
      exact if_neg (by simp [hne])
    · rfl
  · cases a with
    | lwip e =>
      cases e with
      | dnsFound name ipaddr rcCon =>
        -- the resolver answers only while the connection is not made
        obtain rfl := h.of_dnsPending (dnsPending_of_lwip hs)
        exact absurd h.state_eq hne.2.1
      | tcpErr =>
        show (if w.pcbOpen = true then [Release.lwipFree] else []).contains .tcpClose = false
        split <;> rfl
      | tcpFin => simp [Fwd.releases, hne]
      | tcpConnected | tcpSent | tcpRecv | pcbFreed | timeout => rfl
    | op o =>
      cases o with
      | forwardPass => simp [Fwd.releases, hne]
      | abortConnected => simp [Fwd.releases, hne]
      | localIo | delete => rfl

theorem delivering_accept (hostname : Bytes) (rcAccept : Int) (rcQuery : Err) (newOk : Bool) (rcCon : Err) :
    Delivering (.accept hostname rcAccept rcQuery newOk rcCon) := by
  refine ⟨fun _ => rfl, fun _ _ => ?_, fun hcl => ⟨?_, rfl⟩⟩
  · show [] = [] ++ (Fwd.accept hostname rcAccept rcQuery newOk rcCon).2.pf.forwardQueue.content
    rw [accept_forwardQueue]
    rfl
  · have hreleased : (PcbLedger.accept hostname rcAccept rcQuery newOk rcCon).released.contains .tcpClose = true := hcl
    rcases accept_cases hostname rcAccept rcQuery newOk rcCon with
      ⟨-, -, -, hnone⟩ | ⟨-, -, -, -, hnone⟩ | ⟨-, hfailed, -⟩
    · rw [hnone] at hreleased
      cases hreleased
    · rw [hnone] at hreleased
      cases hreleased
    · exact .inl hfailed

theorem delivering_step (l : ForwardPath) (a : PfAction) (l' : ForwardPath) (h : Passing l ∧ Delivering l)
    (hsmooth : a.Smooth) (hs : forwardPath l a = some l') : Passing l' ∧ Delivering l' := by
  obtain ⟨hp, hd⟩ := h
  refine ⟨passing_step l a l' hp hs, ?_⟩
  obtain ⟨alive, w, hw, rfl⟩ := forwardPath_cases hs
  obtain ⟨s, hphase⟩ := hp.staged alive
  obtain ⟨lost, ht⟩ := transfer_step hphase alive hp.fits hw
  obtain ⟨-, hearly⟩ := step_past hphase alive hw
  by_cases hfinal : l.w.pf.state = .failed ∨ l.w.pf.state = .disconnected
  · -- at the end nothing changes any more
    obtain ⟨hreceived, hwritten, hcloses⟩ := final_idle hphase hw hfinal
    have hstate := state_final hp.staged hw hfinal
    refine ⟨fun he => ?_, fun hf hdis => ?_, fun hcl => ?_⟩
    · simp only [hstate] at he
      rcases hfinal with hf | hf <;> rw [hf] at he <;> cases he
    · simp only [hstate] at hf hdis
      exact (hfinal.elim hf hdis).elim
    · simp only [Fwd.closesInTime, hcloses, Bool.false_and, Bool.or_false] at hcl
      obtain ⟨-, hall⟩ := hd.closed hcl
      simp only [hstate, hreceived, hwritten, List.append_nil]
      exact ⟨hfinal, hall⟩
  · obtain ⟨hnf, hnd⟩ := not_or.1 hfinal
    have hheld := hd.held hnf hnd
    refine ⟨fun he => ?_, fun hf hdis => ?_, fun hcl => ?_⟩
    · have hbefore : l.w.pf.state.early = true := hearly he
      have hnone : l.w.received a = [] := by
        apply received_eq_nil
        intro hc
        rw [hc] at hbefore
        cases hbefore
      simp only
      rw [hd.early hbefore, hnone]
      rfl
    · obtain rfl := (ht.smooth hsmooth).resolve_right hdis
      have hbytes := ht.bytes
      rw [List.append_nil] at hbytes
      simp only
      rw [hheld, List.append_assoc, hbytes, List.append_assoc]
    · have hnow : l.w.closesInTime a = true := by
        rcases Bool.or_eq_true_iff.1 hcl with hcl | hcl
        · exact absurd (hd.closed hcl).1 hfinal
        · exact hcl
      obtain ⟨rfl, hend, hempty⟩ := ht.closed hsmooth hnow
      refine ⟨hend, ?_⟩
      have hbytes := ht.bytes
      rw [List.append_nil] at hbytes
      simp only
      rcases hempty with hempty | hcon
      · rw [hempty, List.append_nil] at hbytes
        rw [hheld, List.append_assoc, hbytes]
      · -- the connection was never made: nothing was read
        have hreceived : l.received = [] := hd.early (by rw [hcon]; rfl)
        have hnone : l.w.received a = [] := received_eq_nil (by rw [hcon]; nofun) a
        rw [hreceived] at hheld
        obtain ⟨hwritten, hcontent⟩ := List.append_eq_nil_iff.1 hheld.symm
        rw [hcontent, hnone] at hbytes
        obtain ⟨hnow, -⟩ := List.append_eq_nil_iff.1 hbytes.symm
        rw [hwritten, hnow, hreceived, hnone]

/-- The bytes that `tcp_write` took are at all times a prefix of the bytes received from the local socket. In
every run of smooth steps `tcp_close` is called before the timer of the flush fired only when it has taken
all of them. -/
theorem forward_path_delivers {hostname : Bytes} {rcAccept : Int} {rcQuery rcCon : Err} {newOk : Bool}
    {as : List PfAction} {l : ForwardPath}
    (hrun : exec forwardPath (.accept hostname rcAccept rcQuery newOk rcCon) as = some l) :
    l.written <+: l.received ∧
    (Meets forwardPath (fun _ a => a.Smooth) (.accept hostname rcAccept rcQuery newOk rcCon) as → l.closed = true →
      l.written = l.received) := by
  have hpass := exec_inv passing_step (passing_accept hostname rcAccept rcQuery newOk rcCon) hrun
  refine ⟨?_, fun hsmooth hcl => ?_⟩
  · obtain ⟨lost, hreceived, -⟩ := hpass.passed
    exact ⟨_, hreceived.symm⟩
  · have hboth := exec_inv_of_meets delivering_step
      ⟨passing_accept hostname rcAccept rcQuery newOk rcCon, delivering_accept hostname rcAccept rcQuery newOk rcCon⟩
      hsmooth hrun
    exact (hboth.2.closed hcl).2

/-- Three bytes and the end of the stream: two bytes are written while the connection is open, the last one by
the flush that closes it. -/
theorem forward_path_delivers_three :
    let as : List PfAction := [.lwip .tcpConnected, .op (.localIo true false (.data [1, 2, 3]) (some fun _ => 0) []),
      .op (.forwardPass 2 [(2, .errOk), (0, .errOk)] false .errIf), .op (.localIo true false .eof none []),
      .op (.forwardPass 9 [(9, .errOk)] false .errOk)]
    ∃ l, exec forwardPath (.accept [] 0 .errOk true .errOk) as = some l ∧ l.closed = true ∧ l.received = [1, 2, 3] ∧
      l.written = l.received := by
  intro as
  obtain ⟨l, h⟩ : ∃ l, exec forwardPath (.accept [] 0 .errOk true .errOk) as = some l := ⟨_, rfl⟩
  have hsmooth : Meets forwardPath (fun _ a => a.Smooth) (.accept [] 0 .errOk true .errOk) as := by
    refine meets_step rfl trivial (meets_step rfl nofun (meets_step rfl ?_ (meets_step rfl trivial
      (meets_step rfl ?_ (meets_nil _)))))
    · exact ⟨by decide, .inr rfl⟩
    · exact ⟨by decide, .inl rfl⟩
  have hall := (forward_path_delivers h).2 hsmooth
  cases h
  exact ⟨_, rfl, rfl, rfl, hall rfl⟩

end FortiRdp.Net
