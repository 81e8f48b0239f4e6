/-
Who gives the control block of a forwarder back to lwIP. A ledger counts the blocks that `tcp_new` gave and
their releases; what was given and not released is the block that the forwarder holds. `dns_found_cb`
gives the block back when it cannot connect, but not when the host name could not be resolved.
-/
import FortiRdp.Net.PcbLiveness

namespace FortiRdp.Net

open FortiRdp.Lwip FortiRdp.Util FortiRdp.Run

/-! ## Releases -/

inductive Release where
  | tcpClose
  | tcpAbort
  /-- lwIP frees the block and calls the error callback. -/
  | lwipFree
  deriving DecidableEq, Repr

/-- The releases that an action of a forwarder makes. An error of a block that was closed before releases
nothing any more. -/
def Fwd.releases (w : Fwd) : PfAction → List Release
  | .lwip (.dnsFound name ipaddr rcCon) =>
    if w.pf.hostname = name ∧ ipaddr = true ∧ rcCon ≠ .errOk then [.tcpClose] else []
  | .lwip .tcpErr => if w.pcbOpen = true then [.lwipFree] else []
  | .lwip .tcpFin => if w.pcb.any TcpPcb.recvCb = true ∧ w.pf.state = .connected then [.tcpClose] else []
  | .op (.forwardPass _ answers unsent output) =>
    if w.pf.state = .connecting ∧ w.pf.connectTimeout = true then [.tcpAbort]
    else if w.pf.state = .disconnecting ∧ w.pf.localClient = true ∧
      (w.flushForwardQueue answers unsent output).pf.state = .disconnected then [.tcpClose]
    else []
  | .op .abortConnected => if w.pf.state = .connected then [.tcpAbort] else []
  | _ => []

/-- A forwarder with the number of blocks that `tcp_new` gave it and their releases. -/
structure PcbLedger where
  w : Fwd
  allocated : Nat
  released : List Release
  deriving DecidableEq, Repr

/-- A connection that the listener has: `tcp_new` is called when the DNS query was answered or sent, and a
resolved host that cannot be connected releases the block at once. -/
def PcbLedger.accept (hostname : Bytes) (rcAccept : Int) (rcQuery : Err) (newOk : Bool) (rcCon : Err) : PcbLedger :=
  let new := decide (rcAccept = 0 ∧ (rcQuery = .errOk ∨ rcQuery = .errInprogress)) && newOk
  { w := (Fwd.accept hostname rcAccept rcQuery newOk rcCon).2
    allocated := if new then 1 else 0
    released := if new = true ∧ rcQuery = .errOk ∧ rcCon ≠ .errOk then [.tcpClose] else [] }

/-- The life of a forwarder up to its deletion. -/
def pcbLedger : Machine PcbLedger PfAction
  | l, a =>
    if l.w.deleted then none
    else (forwarder l.w a).map fun w => { l with w := w, released := l.released ++ l.w.releases a }

/-- The number of blocks that the forwarder holds. -/
def Fwd.held (w : Fwd) : Nat := if w.pcbOpen then 1 else 0

/-! ## What is given is released or held -/

theorem held_eq {w w' : Fwd} (h : w'.pcb = w.pcb) : w'.held = w.held := by unfold Fwd.held Fwd.pcbOpen; rw [h]

theorem held_open {w : Fwd} {p : TcpPcb} (h : w.pcb = some p) (hp : p.state ≠ .closing) : w.held = 1 := by
  unfold Fwd.held
  rw [if_pos]
  simpa [Fwd.pcbOpen, h] using hp

theorem held_none {w : Fwd} (h : w.pcb = none) : w.held = 0 := by
  unfold Fwd.held Fwd.pcbOpen
  rw [h]
  rfl

theorem held_closing {w : Fwd} {p : TcpPcb} (h : w.pcb = some p) (hp : p.state = .closing) : w.held = 0 := by
  simp [Fwd.held, Fwd.pcbOpen, h, hp]

theorem held_of_stage {w : Fwd} {s : Stage} (h : Phase w s) (hs : s.holdsPcb = true) : w.held = 1 := by
  unfold Fwd.held
  rw [if_pos (h.live hs).2]

/-- A block that was closed, or none. -/
theorem held_leaving {w : Fwd} (h : ∀ p, w.pcb = some p → Leaving p) : w.held = 0 := by
  cases hp : w.pcb with
  | none => exact held_none hp
  | some p => exact held_closing hp (h p hp).state

theorem disconnect_pcb (w : Fwd) : w.disconnect.pcb = w.pcb := by
  unfold Fwd.disconnect
  split <;> rfl

theorem orDisconnect_pcb {w : Fwd} {r : Bool × Fwd} (h : r.2.pcb = w.pcb) :
    (Fwd.orDisconnect r).pcb = w.pcb := by
  unfold Fwd.orDisconnect
  split
  · exact h
  · rw [disconnect_pcb, h]

theorem recv_pcb (w : Fwd) (rcv : RcvAnswer) (a : Alloc) : (w.recv rcv a).2.pcb = w.pcb := by
  obtain ⟨queue, hq⟩ := recv_eq w rcv a
  rw [hq]

theorem reply_pcb (w : Fwd) (snd : List SndAnswer) : (w.reply snd).2.pcb = w.pcb := by
  unfold Fwd.reply
  split <;> rfl

/-- The pass over the local sockets does not touch the control block. -/
theorem localIo_pcb (w : Fwd) (readable writable : Bool) (rcv : RcvAnswer) (a : Alloc) (snd : List SndAnswer) :
    (w.localIo readable writable rcv a snd).pcb = w.pcb := by
  have hread : (w.afterRecv readable rcv a).pcb = w.pcb := by
    rw [afterRecv_eq]
    split
    · exact orDisconnect_pcb (recv_pcb w rcv a)
    · rfl
  by_cases hc : w.pf.state = .connected
  · rw [localIo_connected hc]
    split
    · exact (orDisconnect_pcb (reply_pcb _ snd)).trans hread
    · exact hread
  · unfold Fwd.localIo
    rw [if_neg hc]
    split
    · unfold Fwd.flushReplyQueue
      split
      · rfl
      · simp only
        split <;> rfl
    · rfl

/-- An aborted connection holds nothing any more. -/
theorem abort_held {w : Fwd} {s : Stage} (h : Phase w s) (hs : s = .connecting ∨ s = .connected) : w.abort.held = 0 := by
  have hp := abort_phase h hs
  cases hp with
  | disconnected state server pcb => exact held_leaving pcb

/-- Each release of an event gives back the one block that the forwarder holds. -/
theorem lwip_held {w w' : Fwd} {s : Stage} {e : LwipEvent} (h : Phase w s) (alive : w.deleted = false)
    (hs : w.lwip e = some w') : (w.releases (.lwip e)).length + w'.held = w.held := by
  have hset : ∀ {v : Fwd} {p : TcpPcb} {len : Nat}, w.pcb = some p →
      v.pcb = some { p with unacked := p.unacked - len } → v.held = w.held := by
    intro v p len hp hv
    simp only [Fwd.held, Fwd.pcbOpen, hv, hp, Option.any_some]
  cases lwip_step alive hs with
  | @dnsFound name ipaddr rcCon hdns =>
    obtain rfl := h.of_dnsPending hdns
    rw [held_of_stage h rfl]
    cases h with
    | resolving state server client pcb =>
      unfold Fwd.dnsFoundCb
      split
      · rename_i hname
        rw [held_open (p := tcpNew) (by exact pcb) (by simp [tcpNew]), Fwd.releases, if_neg (by tauto)]
        rfl
      rename_i hname
      split
      · rename_i hip
        rw [held_open (p := tcpNew) (by exact pcb) (by simp [tcpNew]), Fwd.releases, if_neg (by simp [hip])]
        rfl
      rename_i hip
      split
      · rename_i hrc
        rw [held_open (by rw [pcb]; rfl) (by simp), Fwd.releases, if_neg (by simp [hrc])]
        rfl
      · rename_i hrc
        have hok : w.pf.hostname = name ∧ ipaddr = true ∧ rcCon ≠ .errOk :=
          ⟨not_not.1 hname, by simpa using hip, hrc⟩
        rw [held_none (by rw [pcb]; rfl), Fwd.releases, if_pos hok]
        rfl
  | tcpErr | tcpErrSilent =>
    rw [held_none rfl, Fwd.releases, Fwd.held]
    split <;> rfl
  | @tcpFin p hp hst hcb =>
    rw [held_open hp (by simp [hst.1])]
    unfold Fwd.tcpRecvCb
    rw [if_neg (by simp)]
    split
    · rename_i hcon
      have hrel : w.releases (.lwip .tcpFin) = [.tcpClose] := if_pos ⟨by simpa [hp] using hcb, hcon.2⟩
      rw [hrel, held_closing (p := { p with state := .closing, errCb := false, recvCb := false, finReceived := true })
        (by simp [tcpClose, hst.1]) rfl]
      rfl
    · rename_i hcon
      have hrel : w.releases (.lwip .tcpFin) = [] := if_neg fun hc => hcon ⟨rfl, hc.2⟩
      rw [hrel, held_open rfl (by simp [hst.1])]
      rfl
  | tcpFinSilent hp hst hcb =>
    have hrel : w.releases (.lwip .tcpFin) = [] := if_neg fun hc => by simp [hp, hcb] at hc
    rw [held_open hp (by simp [hst.1]), hrel, held_open rfl (by simp [hst.1])]
    rfl
  | tcpConnected hp hst =>
    rw [held_open hp (by simp [hst]), held_open rfl (by simp)]
    rfl
  | tcpSent hp | tcpSentSilent hp => exact (Nat.zero_add _).trans (hset hp rfl)
  | @tcpRecv p c hp hst =>
    have hcb : (w.tcpRecvCb c.pbufs .errOk).2.pcb = some p := by
      unfold Fwd.tcpRecvCb
      rw [if_pos c.ne]
      split
      · exact hp
      · simp only
        split <;> exact hp
    have hkept : (Fwd.keepRefused c (w.tcpRecvCb c.pbufs .errOk)).pcb = some { p with
        refusedData := if (w.tcpRecvCb c.pbufs .errOk).1 = .errOk then none else some c.pbufs } := by
      unfold Fwd.keepRefused
      rw [hcb]
      rfl
    rw [held_open hp (by simp [hst.1]), held_open hkept (by simp [hst.1])]
    rfl
  | tcpRecvSilent => exact Nat.zero_add _
  | pcbFreed hp hst =>
    rw [held_closing hp hst, held_none rfl]
    rfl
  | connectTimeout | fflushTimeout | rflushTimeout => exact (Nat.zero_add _).trans (held_eq rfl)

theorem disconnect_held (w : Fwd) : w.disconnect.held = w.held := held_eq (disconnect_pcb w)

/-- Every pass over the lwIP side releases at most the block that the forwarder holds. -/
theorem forwardPass_held {w : Fwd} {s : Stage} (h : Phase w s) (sndbuf : Nat) (answers : List (Nat × Err))
    (unsent : Bool) (output : Err) :
    (w.releases (.op (.forwardPass sndbuf answers unsent output))).length +
      (w.forwardPass sndbuf answers unsent output).held = w.held := by
  have hstate := h.state_eq
  -- a pass that neither aborts nor flushes
  have quiet : s ≠ .connecting → s ≠ .flushForward →
      w.releases (.op (.forwardPass sndbuf answers unsent output)) = [] := by
    intro hcon hflush
    simp only [Fwd.releases]
    rw [if_neg fun hc => hcon (h.of_timedOut hc.1 hc.2), if_neg fun hc => hflush (h.of_flushForward hc.1 hc.2.1)]
  unfold Fwd.forwardPass
  cases s with
  | connecting =>
    simp only [Fwd.releases]
    unfold Fwd.abortTimedOut
    split
    · have ha := abort_phase h (.inl rfl)
      simp only [ha.state_eq, Stage.state, reduceCtorEq, false_and, if_false]
      rw [abort_held h (.inl rfl), held_of_stage h rfl]
      rfl
    · simp only [hstate, Stage.state, reduceCtorEq, false_and, if_false]
      exact Nat.zero_add _
  | connected =>
    rw [quiet nofun nofun, held_of_stage h rfl]
    simp only [abortTimedOut_eq h, ne_eq, reduceCtorEq, not_false_eq_true, hstate, Stage.state, if_true]
    split
    · have hf := held_of_stage (forward_phase h answers unsent output) rfl
      generalize w.forward answers unsent output = r at hf
      obtain ⟨ok, v⟩ := r
      simp only at hf ⊢
      split
      · exact (Nat.zero_add _).trans hf
      · exact (Nat.zero_add _).trans ((disconnect_held v).trans hf)
    · exact (Nat.zero_add _).trans (held_of_stage h rfl)
  | flushForward =>
    have hclient : w.pf.localClient = true := by cases h; assumption
    have hlate : ¬(w.pf.state = .connecting ∧ w.pf.connectTimeout = true) := by simp [hstate]
    simp only [abortTimedOut_eq h, ne_eq, reduceCtorEq, not_false_eq_true, hstate, hclient, Stage.state, if_false,
      and_self, if_true, Fwd.releases, false_and, true_and]
    rw [held_of_stage h rfl]
    obtain ⟨s', h', rfl | hnext⟩ := flushForwardQueue_phase h answers unsent output
    · rw [if_neg (by simp [h'.state_eq]), held_of_stage h' rfl]
      rfl
    · cases hnext
      rw [if_pos (by simpa using h'.state_eq)]
      cases h' with
      | disconnected state server pcb => rw [held_leaving pcb]; rfl
  | flushReply =>
    have hclient : w.pf.localClient = false := by cases h; assumption
    rw [quiet nofun nofun]
    simp only [abortTimedOut_eq h, ne_eq, reduceCtorEq, not_false_eq_true, hstate, hclient, Stage.state,
      Bool.false_eq_true, and_false, if_false]
    exact Nat.zero_add _
  | ready | resolving | failed | disconnected =>
    rw [quiet nofun nofun]
    simp only [abortTimedOut_eq h, ne_eq, reduceCtorEq, not_false_eq_true, hstate, Stage.state, false_and, if_false]
    exact Nat.zero_add _

theorem op_held {w : Fwd} {s : Stage} (h : Phase w s) (o : PfOp) :
    (w.releases (.op o)).length + (w.op o).held = w.held := by
  cases o with
  | localIo readable writable rcv a snd =>
    rw [Fwd.op, held_eq (localIo_pcb w readable writable rcv a snd)]
    exact Nat.zero_add _
  | forwardPass sndbuf answers unsent output => exact forwardPass_held h sndbuf answers unsent output
  | abortConnected =>
    simp only [Fwd.op, Fwd.abortConnected, Fwd.releases]
    split
    · rename_i hc
      obtain rfl := h.of_connected hc
      rw [abort_held h (.inr rfl), held_of_stage h rfl]
      rfl
    · exact Nat.zero_add _
  | delete => exact Nat.zero_add _

/-- What an action releases, the forwarder does not hold any more. -/
theorem releases_held {w w' : Fwd} {s : Stage} {a : PfAction} (h : Phase w s) (alive : w.deleted = false)
    (hs : forwarder w a = some w') : (w.releases a).length + w'.held = w.held := by
  cases a with
  | lwip e => exact lwip_held h alive hs
  | op o =>
    simp only [forwarder, alive, Bool.false_eq_true, if_false, Option.some.injEq] at hs
    exact hs ▸ op_held h o

/-! ## Runs -/

/-- The blocks that `tcp_new` gave were released, or are held. -/
structure Balanced (l : PcbLedger) : Prop where
  staged : l.w.Staged
  single : l.allocated ≤ 1
  balance : l.allocated = l.released.length + l.w.held

/-- A new connection is rejected before `tcp_new`, on its way with a block, or refused at once with the block
released. -/
theorem accept_cases (hostname : Bytes) (rcAccept : Int) (rcQuery : Err) (newOk : Bool) (rcCon : Err) :
    let l := PcbLedger.accept hostname rcAccept rcQuery newOk rcCon
    l.w.deleted = true ∧ l.w.held = 0 ∧ l.allocated = 0 ∧ l.released = [] ∨
    l.w.deleted = false ∧ l.w.pf.state = .connecting ∧ l.w.held = 1 ∧ l.allocated = 1 ∧ l.released = [] ∨
    l.w.deleted = false ∧ l.w.pf.state = .failed ∧ l.w.held = 0 ∧ l.allocated = 1 ∧ l.released = [.tcpClose] := by
  intro l
  simp only [l, PcbLedger.accept]
  unfold Fwd.accept Fwd.connect
  rw [if_neg (by simp [Fwd.new])]
  by_cases hacc : rcAccept = 0
  · by_cases hq : rcQuery = .errOk ∨ rcQuery = .errInprogress
    · cases newOk with
      | false => exact .inl (by simp [hacc, hq, Fwd.held, Fwd.pcbOpen, Fwd.new, Fwd.delete])
      | true =>
        by_cases hok : rcQuery = .errOk
        · by_cases hrc : rcCon = .errOk
          · exact .inr (.inl (by simp [hacc, hok, hrc, Fwd.dnsFoundCb, Fwd.held, Fwd.pcbOpen, Fwd.new, tcpNew]))
          · exact .inr (.inr (by simp [hacc, hok, hrc, Fwd.dnsFoundCb, Fwd.held, Fwd.pcbOpen, Fwd.new, tcpNew, tcpClose]))
        · obtain rfl := hq.resolve_left hok
          exact .inr (.inl (by simp [hacc, Fwd.held, Fwd.pcbOpen, Fwd.new, tcpNew]))
    · exact .inl (by simp [hacc, hq, Fwd.held, Fwd.pcbOpen, Fwd.new, Fwd.delete])
  · exact .inl (by simp [hacc, Fwd.held, Fwd.pcbOpen, Fwd.new, Fwd.delete])

theorem balanced_accept (hostname : Bytes) (rcAccept : Int) (rcQuery : Err) (newOk : Bool) (rcCon : Err) :
    Balanced (.accept hostname rcAccept rcQuery newOk rcCon) := by
  have hstaged := staged_accept hostname rcAccept rcQuery newOk rcCon
  rcases accept_cases hostname rcAccept rcQuery newOk rcCon with
    ⟨-, hheld, halloc, hrel⟩ | ⟨-, -, hheld, halloc, hrel⟩ | ⟨-, -, hheld, halloc, hrel⟩ <;>
    exact ⟨hstaged, by simp [halloc], by simp [hheld, halloc, hrel]⟩

theorem balanced_step (l : PcbLedger) (a : PfAction) (l' : PcbLedger) (h : Balanced l) (hs : pcbLedger l a = some l') :
    Balanced l' := by
  simp only [pcbLedger] at hs
  split at hs
  · cases hs
  rename_i hdel
  rw [Bool.not_eq_true] at hdel
  obtain ⟨w', hw, rfl⟩ := Option.map_eq_some_iff.1 hs
  obtain ⟨s, hp⟩ := h.staged hdel
  refine ⟨staged_step l.w a w' h.staged hw, h.single, ?_⟩
  have hheld := releases_held hp hdel hw
  show l.allocated = (l.released ++ l.w.releases a).length + w'.held
  rw [h.balance, ← hheld, List.length_append, Nat.add_assoc]

/-- The resolver answers with an address of the host, and the forwarder is deleted in FAILED, in
DISCONNECTED or after the remote host closed the connection, not while it still holds its block. -/
def Fwd.givesBack (w : Fwd) : PfAction → Bool
  | .lwip (.dnsFound name ipaddr _) => name == w.pf.hostname && ipaddr
  | .op .delete => w.pf.state == .failed || w.pf.state == .disconnected || !w.pf.localClient
  | _ => true

/-- On the way to a deletion that leaks nothing: a forwarder that failed holds no block. -/
structure OnTrack (l : PcbLedger) : Prop where
  balanced : Balanced l
  alive : l.w.deleted = false
  begun : l.w.pf.state ≠ .ready
  failed : l.w.pf.state = .failed → l.w.held = 0

/-- On the way to a leak: the forwarder has failed and holds its block. -/
structure Leaking (l : PcbLedger) : Prop where
  balanced : Balanced l
  failed : l.w.pf.state = .failed
  held : l.w.held ≠ 0

/-- A forwarder that failed has nothing more to release. -/
theorem failed_releases {w w' : Fwd} {a : PfAction} (h : Phase w .failed) (hs : forwarder w a = some w') :
    w.releases a = [] := by
  have hstate := h.state_eq
  cases h with
  | failed state pcb dns timers =>
    cases a with
    | lwip e =>
      cases e with
      | dnsFound name ipaddr rcCon => simp [forwarder, Fwd.lwip, dns] at hs
      | tcpErr =>
        obtain ⟨p, hp, hs⟩ := Option.bind_eq_some_iff.1 hs
        rw [pcb p hp] at hs
        cases hs
      | tcpFin => simp [Fwd.releases, state]
      | tcpConnected | tcpSent | tcpRecv | pcbFreed | timeout => rfl
    | op o =>
      cases o with
      | forwardPass => simp [Fwd.releases, state]
      | abortConnected => simp [Fwd.releases, state]
      | localIo | delete => rfl

/-- A step of the ledger is a step of a forwarder that exists. -/
theorem pcbLedger_cases {l l' : PcbLedger} {a : PfAction} (hs : pcbLedger l a = some l') :
    l.w.deleted = false ∧ forwarder l.w a = some l'.w := by
  simp only [pcbLedger] at hs
  split at hs
  · cases hs
  · rename_i hdel
    obtain ⟨w', hw, rfl⟩ := Option.map_eq_some_iff.1 hs
    exact ⟨by simpa using hdel, hw⟩

theorem leaking_step (l : PcbLedger) (a : PfAction) (l' : PcbLedger) (h : Leaking l) (hs : pcbLedger l a = some l') :
    Leaking l' := by
  obtain ⟨alive, hw⟩ := pcbLedger_cases hs
  obtain ⟨s, hp⟩ := h.balanced.staged alive
  obtain rfl : s = .failed := by
    have hstate := hp.state_eq.symm.trans h.failed
    cases s with
    | failed => rfl
    | ready | resolving | connecting | connected | flushForward | flushReply | disconnected => cases hstate
  refine ⟨balanced_step l a l' h.balanced hs, (state_final h.balanced.staged hw (.inl h.failed)).trans h.failed, ?_⟩
  have hheld := releases_held hp alive hw
  rw [failed_releases hp hw] at hheld
  have := h.held
  simp only [List.length_nil] at hheld
  omega

/-- While the host name is resolved only the resolver moves the forwarder on. -/
theorem resolving_step {w w' : Fwd} {a : PfAction} (h : Phase w .resolving) (alive : w.deleted = false)
    (hs : forwarder w a = some w') :
    (∃ name ipaddr rcCon, a = .lwip (.dnsFound name ipaddr rcCon)) ∨ w'.pf.state = .connecting := by
  have hstate : w.pf.state = .connecting := h.state_eq
  have hpcb : w.pcb = some tcpNew := by cases h; assumption
  have hstay := abortTimedOut_eq h nofun
  cases a with
  | lwip e =>
    cases e with
    | dnsFound name ipaddr rcCon => exact .inl ⟨_, _, _, rfl⟩
    | timeout t =>
      have he : w.lwip (.timeout t) = some w' := hs
      refine .inr ?_
      cases lwip_step alive he with
      | connectTimeout | fflushTimeout | rflushTimeout => exact hstate
    | tcpConnected | tcpErr | tcpSent | tcpRecv | tcpFin | pcbFreed => simp [forwarder, Fwd.lwip, hpcb, tcpNew] at hs
  | op o =>
    simp only [forwarder, alive, Bool.false_eq_true, if_false, Option.some.injEq] at hs
    subst hs
    refine .inr ?_
    cases o with
    | localIo => simp [Fwd.op, Fwd.localIo, hstate]
    | forwardPass => simp [Fwd.op, Fwd.forwardPass, hstay, hstate]
    | abortConnected => simp [Fwd.op, Fwd.abortConnected, hstate]
    | delete => exact hstate

/-- Every stage but the ones that hold a block, and the one of a failure, holds none. -/
theorem held_released {w : Fwd} {s : Stage} (h : Phase w s) (hs : s.holdsPcb = false) (hf : s ≠ .failed) :
    w.held = 0 := by
  cases h with
  | ready state pcb => exact held_none pcb
  | flushReply state server client pcb => exact held_leaving pcb
  | disconnected state server pcb => exact held_leaving pcb
  | failed => exact absurd rfl hf
  | resolving | connecting | connected | flushForward => cases hs

/-- A resolved host is connected, or the block is given back. -/
theorem dnsFound_held {w w' : Fwd} {name : Bytes} {rcCon : Err} (h : Phase w .resolving) (alive : w.deleted = false)
    (hname : w.pf.hostname = name) (hs : forwarder w (.lwip (.dnsFound name true rcCon)) = some w')
    (hf : w'.pf.state = .failed) : w'.held = 0 := by
  have hheld := releases_held h alive hs
  have hrc : rcCon ≠ .errOk := by
    rintro rfl
    have hdns : w.dnsPending = true := by cases h; assumption
    have hstate : w.pf.state = .connecting := h.state_eq
    simp only [forwarder, Fwd.lwip, hdns, if_true] at hs
    rw [call_alive (by exact alive)] at hs
    cases hs
    simp [Fwd.dnsFoundCb, hname, hstate] at hf
  have hrel : w.releases (.lwip (.dnsFound name true rcCon)) = [.tcpClose] := if_pos ⟨hname, rfl, hrc⟩
  rw [hrel, held_of_stage h rfl] at hheld
  simpa using hheld

theorem forwarder_alive {w w' : Fwd} {a : PfAction} (alive : w.deleted = false) (ha : a ≠ .op .delete)
    (hs : forwarder w a = some w') : w'.deleted = false := by
  cases a with
  | lwip e => exact (congrArg Prod.fst (lwip_life alive hs)).trans alive
  | op o =>
    simp only [forwarder, alive, Bool.false_eq_true, if_false, Option.some.injEq] at hs
    subst hs
    exact (congrArg Prod.fst (op_life w o fun h => ha (h ▸ rfl))).trans alive

/-- A step that meets the condition stays on track, or deletes the forwarder with nothing held. -/
theorem OnTrack.step {l l' : PcbLedger} {a : PfAction} (h : OnTrack l) (hc : l.w.givesBack a = true)
    (hs : pcbLedger l a = some l') : OnTrack l' ∨ l'.w.deleted = true ∧ l'.w.held = 0 := by
  obtain ⟨alive, hw⟩ := pcbLedger_cases hs
  obtain ⟨s, hp⟩ := h.balanced.staged alive
  have hheld := releases_held hp alive hw
  rcases step_moves hp alive hw with ⟨rfl, hdelete⟩ | ⟨hne, s', hp', hmove⟩
  · refine .inr ⟨hdelete ▸ rfl, ?_⟩
    have hzero : l.w.held = 0 := by
      simp only [Fwd.givesBack, Bool.or_eq_true, beq_iff_eq, Bool.not_eq_true'] at hc
      rcases hc with (hf | hd) | hclient
      · exact h.failed hf
      · have hstate := hp.state_eq.symm.trans hd
        cases s with
        | disconnected => exact held_released hp rfl nofun
        | ready | resolving | connecting | connected | flushForward | flushReply | failed => cases hstate
      · cases hp with
        | ready state pcb => exact held_none pcb
        | flushReply state server client pcb => exact held_leaving pcb
        | disconnected state server pcb => exact held_leaving pcb
        | failed state => exact h.failed state
        | resolving state server client | connecting state server client | connected state server client
        | flushForward state server client => rw [client] at hclient; cases hclient
    exact (held_eq (by rw [hdelete]; rfl)).trans hzero
  · refine .inl ⟨balanced_step l a l' h.balanced hs, forwarder_alive alive hne hw, fun hready => ?_, fun hf => ?_⟩
    · rw [hp'.state_eq] at hready
      rcases hmove with rfl | hnext
      · exact h.begun (hp.state_eq.trans hready)
      · cases hnext <;> cases hready
    obtain rfl : s' = .failed := by
      have hstate := hp'.state_eq.symm.trans hf
      cases s' with
      | failed => rfl
      | ready | resolving | connecting | connected | flushForward | flushReply | disconnected => cases hstate
    rcases hmove with rfl | hnext
    · have := h.failed hp.state_eq
      omega
    · cases hnext with
      | reject =>
        have := held_released hp rfl nofun
        omega
      | unresolved =>
        rcases resolving_step hp alive hw with ⟨name, ipaddr, rcCon, rfl⟩ | hcon
        · simp only [Fwd.givesBack, Bool.and_eq_true, beq_iff_eq] at hc
          obtain ⟨hname, rfl⟩ := hc
          exact dnsFound_held hp alive hname.symm hw hf
        · rw [hf] at hcon
          cases hcon

/-- A step that does not meet it leads to a leak, or deletes the forwarder with its block. -/
theorem OnTrack.leaks {l l' : PcbLedger} {a : PfAction} (h : OnTrack l) (hc : l.w.givesBack a = false)
    (hs : pcbLedger l a = some l') : Leaking l' ∨ l'.w.deleted = true ∧ l'.w.held ≠ 0 := by
  obtain ⟨alive, hw⟩ := pcbLedger_cases hs
  obtain ⟨s, hp⟩ := h.balanced.staged alive
  have hbal := balanced_step l a l' h.balanced hs
  cases a with
  | lwip e =>
    cases e with
    | dnsFound name ipaddr rcCon =>
      have hheld := releases_held hp alive hw
      have hdns := dnsPending_of_lwip hw
      obtain rfl := hp.of_dnsPending hdns
      have hbad : ¬(l.w.pf.hostname = name ∧ ipaddr = true) := by
        rintro ⟨rfl, rfl⟩
        simp [Fwd.givesBack] at hc
      have hrel : l.w.releases (.lwip (.dnsFound name ipaddr rcCon)) = [] := if_neg fun hn => hbad ⟨hn.1, hn.2.1⟩
      rw [hrel, held_of_stage hp rfl] at hheld
      simp only [List.length_nil] at hheld
      refine .inl ⟨hbal, ?_, by omega⟩
      simp only [forwarder, Fwd.lwip, hdns, if_true] at hw
      rw [call_alive (by exact alive)] at hw
      rw [← Option.some.inj hw]
      unfold Fwd.dnsFoundCb
      split
      · rfl
      rename_i hname
      rw [if_pos]
      have hip := fun h => hbad ⟨not_not.1 hname, h⟩
      simpa using hip
    | tcpConnected | tcpErr | tcpSent | tcpRecv | tcpFin | pcbFreed | timeout => cases hc
  | op o =>
    cases o with
    | delete =>
      obtain ⟨-, hdelete⟩ | ⟨hne, -⟩ := step_moves hp alive hw
      · refine .inr ⟨hdelete ▸ rfl, ?_⟩
        simp only [Fwd.givesBack, Bool.or_eq_false_iff, beq_eq_false_iff_ne, ne_eq, Bool.not_eq_false'] at hc
        have hone : l.w.held = 1 := by
          have hstate := hp.state_eq
          cases s with
          | resolving | connecting | connected | flushForward => exact held_of_stage hp rfl
          | ready => exact absurd hstate h.begun
          | flushReply =>
            cases hp with
            | flushReply state server client => rw [client] at hc; cases hc.2
          | failed => exact absurd hstate hc.1.1
          | disconnected => exact absurd hstate hc.1.2
        have heq : l'.w.held = l.w.held := held_eq (by rw [hdelete]; rfl)
        rw [heq, hone]
        exact one_ne_zero
      · exact absurd rfl hne
    | localIo | forwardPass | abortConnected => cases hc

theorem onTrack_accept {hostname : Bytes} {rcAccept : Int} {rcQuery rcCon : Err} {newOk : Bool}
    (alive : (PcbLedger.accept hostname rcAccept rcQuery newOk rcCon).w.deleted = false) :
    OnTrack (.accept hostname rcAccept rcQuery newOk rcCon) := by
  have hbal := balanced_accept hostname rcAccept rcQuery newOk rcCon
  rcases accept_cases hostname rcAccept rcQuery newOk rcCon with ⟨hdel, -⟩ | ⟨-, hstate, -⟩ | ⟨-, hstate, hheld, -⟩
  · rw [alive] at hdel
    cases hdel
  · exact ⟨hbal, alive, by rw [hstate]; nofun, by rw [hstate]; nofun⟩
  · exact ⟨hbal, alive, by rw [hstate]; nofun, fun _ => hheld⟩

/-- A deletion ends the run. -/
theorem exec_deleted {l l' : PcbLedger} (hdel : l.w.deleted = true) :
    ∀ {as : List PfAction}, exec pcbLedger l as = some l' → as = [] ∧ l' = l
  | [], h => by cases h; exact ⟨rfl, rfl⟩
  | a :: as, h => by
    obtain ⟨t, ht, -⟩ := exec_cons h
    have := (pcbLedger_cases ht).1
    rw [hdel] at this
    cases this

/-- At a deletion every block is released exactly when none is held. -/
theorem Balanced.released_iff {l : PcbLedger} (h : Balanced l) : l.released.length = l.allocated ↔ l.w.held = 0 := by
  have := h.balance
  omega

theorem released_iff_givesBack : ∀ {as : List PfAction} {l l' : PcbLedger}, OnTrack l → exec pcbLedger l as = some l' →
    l'.w.deleted = true →
      (l'.released.length = l'.allocated ↔ Meets pcbLedger (fun l a => l.w.givesBack a = true) l as)
  | [], l, l', h, hrun, hdel => by
    cases hrun
    rw [h.alive] at hdel
    cases hdel
  | a :: as, l, l', h, hrun, hdel => by
    obtain ⟨t, ht, hrun⟩ := exec_cons hrun
    have hbal := balanced_step l a t h.balanced ht
    cases hc : l.w.givesBack a with
    | true =>
      rcases h.step hc ht with htrack | ⟨hend, hheld⟩
      · rw [released_iff_givesBack htrack hrun hdel]
        exact ⟨meets_step ht hc, fun hm => (meets_cons hm ht).2⟩
      · obtain ⟨rfl, rfl⟩ := exec_deleted hend hrun
        exact iff_of_true (hbal.released_iff.2 hheld) (meets_step ht hc (meets_nil _))
    | false =>
      refine iff_of_false (fun hreleased => ?_) fun hm => ?_
      · rcases h.leaks hc ht with hleak | ⟨hend, hheld⟩
        · have hleak' := exec_inv leaking_step hleak hrun
          exact hleak'.held (hleak'.balanced.released_iff.1 hreleased)
        · obtain ⟨rfl, rfl⟩ := exec_deleted hend hrun
          exact hheld (hbal.released_iff.1 hreleased)
      · have := (meets_cons hm ht).1
        rw [hc] at this
        cases this

/-- The block that `tcp_new` gave is never released twice, and at the deletion of the forwarder it has been
released in exactly the runs where the resolver answers with an address of the host and the forwarder is
deleted in FAILED, in DISCONNECTED or after the remote host closed. -/
theorem pcb_released_once {hostname : Bytes} {rcAccept : Int} {rcQuery rcCon : Err} {newOk : Bool} {as : List PfAction}
    {l : PcbLedger} (hrun : exec pcbLedger (.accept hostname rcAccept rcQuery newOk rcCon) as = some l) :
    l.allocated ≤ 1 ∧ l.released.length ≤ l.allocated ∧
    (l.w.deleted = true → (l.released.length = l.allocated ↔
      Meets pcbLedger (fun l a => l.w.givesBack a = true) (.accept hostname rcAccept rcQuery newOk rcCon) as)) := by
  have hstart := balanced_accept hostname rcAccept rcQuery newOk rcCon
  have hend := exec_inv balanced_step hstart hrun
  refine ⟨hend.single, ?_, fun hdel => ?_⟩
  · have := hend.balance
    omega
  · cases alive : (PcbLedger.accept hostname rcAccept rcQuery newOk rcCon).w.deleted with
    | false => exact released_iff_givesBack (onTrack_accept alive) hrun hdel
    | true =>
      -- a connection that could not be taken has no block
      obtain ⟨rfl, rfl⟩ := exec_deleted alive hrun
      refine iff_of_true (hstart.released_iff.2 ?_) (meets_nil _)
      rcases accept_cases hostname rcAccept rcQuery newOk rcCon with ⟨-, hheld, -⟩ | ⟨alive', -⟩ | ⟨alive', -⟩
      · exact hheld
      · rw [alive] at alive'; cases alive'
      · rw [alive] at alive'; cases alive'

/-- The local client closes: the block is closed after the flush. -/
theorem pcb_released_once_localClose :
    let as : List PfAction := [.lwip .tcpConnected, .op (.localIo true false .eof none []),
      .op (.forwardPass 100 [] false .errOk), .op .delete]
    ∃ l, exec pcbLedger (.accept [] 0 .errOk true .errOk) as = some l ∧ l.released = [.tcpClose] ∧
      l.released.length = l.allocated := by
  intro as
  obtain ⟨l, h⟩ : ∃ l, exec pcbLedger (.accept [] 0 .errOk true .errOk) as = some l := ⟨_, rfl⟩
  have hiff := (pcb_released_once h).2.2
  cases h
  exact ⟨_, rfl, rfl, (hiff rfl).2 (by decide)⟩

/-- The resolver finds no address: the forwarder is deleted in FAILED and its block is never released. -/
theorem pcb_leaked :
    ∃ l, exec pcbLedger (.accept [104] 0 .errInprogress true .errOk)
        [.lwip (.dnsFound [104] false .errOk), .op .delete] = some l ∧
      l.w.pf.state = .failed ∧ l.w.deleted = true ∧ l.allocated = 1 ∧ l.released = [] ∧ l.w.pcb = some tcpNew :=
  ⟨_, rfl, rfl, rfl, rfl, rfl, rfl⟩

end FortiRdp.Net
