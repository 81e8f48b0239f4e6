/-
The control block of a forwarder: `_local_client` is dereferenced only while it points to a block that
lwIP has not freed and the forwarder has not handed back.
-/
import FortiRdp.Net.ForwarderPhase

namespace FortiRdp.Net

open FortiRdp.Lwip FortiRdp.Util FortiRdp.Run

/-! ## Live control blocks -/

/-- lwIP has not freed the control block, and it was not handed back to lwIP by `tcp_close`. -/
def Fwd.pcbOpen (w : Fwd) : Bool := w.pcb.any fun p => p.state != .closing

/-- `_local_client` points to an open control block. -/
def Fwd.LivePcb (w : Fwd) : Prop := w.pf.localClient = true ∧ w.pcbOpen = true

instance (w : Fwd) : Decidable w.LivePcb := inferInstanceAs (Decidable (_ ∧ _))

/-- The stages in which the forwarder holds a control block. -/
@[simp] def Stage.holdsPcb : Stage → Bool
  | .resolving | .connecting | .connected | .flushForward => true
  | .ready | .flushReply | .failed | .disconnected => false

theorem Phase.live {w : Fwd} {s : Stage} (h : Phase w s) (hs : s.holdsPcb = true) : w.LivePcb := by
  have wired : ∀ {p : TcpPcb} {st : PcbState}, w.pcb = some p → Wired st p → st ≠ .closing → w.pcbOpen = true := by
    intro p st hp hw hne
    simp only [Fwd.pcbOpen, hp, Option.any_some, hw.state, bne_iff_ne]
    exact hne
  cases h with
  | resolving state server client pcb => exact ⟨client, by rw [Fwd.pcbOpen, pcb]; rfl⟩
  | connecting state server client pcb w => exact ⟨client, wired pcb w nofun⟩
  | connected state server client pcb w => exact ⟨client, wired pcb w nofun⟩
  | flushForward state server client pcb w => exact ⟨client, wired pcb w nofun⟩
  | ready | flushReply | failed | disconnected => cases hs

/-! ## Where the pointer is used -/

/-- The states of the forwarder in which an action dereferences `_local_client`: `dns_found_cb` connects
the block, `tcp_recv_cb` closes it at the FIN of the remote host, `abort` aborts it, and the forward pass
reads the send buffer and the unsent segments, writes, and closes it after a flush. -/
def Fwd.derefs (w : Fwd) : PfAction → List Fwd
  | .lwip (.dnsFound name ipaddr _) =>
    if w.deleted = false ∧ w.pf.hostname = name ∧ ipaddr = true then [{ w with dnsPending := false }] else []
  | .lwip .tcpFin => if w.deleted = false ∧ w.pcb.any TcpPcb.recvCb = true ∧ w.pf.state = .connected then [w] else []
  | .op (.forwardPass _ _ _ _) =>
    let v := w.abortTimedOut
    (if w.pf.state = .connecting ∧ w.pf.connectTimeout = true then [w] else []) ++
      (if v.pf.state = .connected ∨ v.pf.state = .disconnecting ∧ v.pf.localClient = true then [v] else [])
  | .op .abortConnected => if w.pf.state = .connected then [w] else []
  | _ => []

/-- The stage of a forwarder that is CONNECTED. -/
theorem Phase.of_connected {w : Fwd} {s : Stage} (h : Phase w s) (hs : w.pf.state = .connected) : s = .connected := by
  rw [h.state_eq] at hs
  cases s with
  | connected => rfl
  | ready | resolving | connecting | flushForward | flushReply | failed | disconnected => cases hs

/-- A forwarder that disconnects with its pointer set empties the forward queue. -/
theorem Phase.of_flushForward {w : Fwd} {s : Stage} (h : Phase w s) (hs : w.pf.state = .disconnecting)
    (hc : w.pf.localClient = true) : s = .flushForward := by
  rw [h.state_eq] at hs
  cases s with
  | flushForward => rfl
  | flushReply => cases h with | flushReply state server client => rw [client] at hc; cases hc
  | ready | resolving | connecting | connected | failed | disconnected => cases hs

/-- The timer of the connection runs only while there is one. -/
theorem Phase.of_timedOut {w : Fwd} {s : Stage} (h : Phase w s) (hs : w.pf.state = .connecting)
    (ht : w.pf.connectTimeout = true) : s = .connecting := by
  rw [h.state_eq] at hs
  cases s with
  | connecting => rfl
  | resolving =>
    cases h with
    | resolving state server client pcb dns noTimeout => rw [noTimeout] at ht; cases ht
  | ready | connected | flushForward | flushReply | failed | disconnected => cases hs

theorem abortTimedOut_phase {w : Fwd} {s : Stage} (h : Phase w s) : Moves s w.abortTimedOut := by
  unfold Fwd.abortTimedOut
  split
  · rename_i hc
    obtain rfl := h.of_timedOut hc.1 hc.2
    exact .next (abort_phase h (.inl rfl)) .refused
  · exact .stay h

/-- Every use of the pointer finds an open control block. -/
theorem derefs_live {w w' v : Fwd} {s : Stage} {a : PfAction} (h : Phase w s) (hs : forwarder w a = some w')
    (hv : v ∈ w.derefs a) : v.LivePcb := by
  cases a with
  | lwip e =>
    cases e with
    | dnsFound name ipaddr rcCon =>
      obtain rfl := h.of_dnsPending (dnsPending_of_lwip hs)
      simp only [Fwd.derefs] at hv
      split at hv
      · obtain rfl := List.mem_singleton.1 hv
        exact h.live rfl
      · cases hv
    | tcpFin =>
      simp only [Fwd.derefs] at hv
      split at hv
      · rename_i hc
        obtain rfl := List.mem_singleton.1 hv
        obtain rfl := h.of_connected hc.2.2
        exact h.live rfl
      · cases hv
    | tcpConnected | tcpErr | tcpSent | tcpRecv | pcbFreed | timeout => cases hv
  | op o =>
    cases o with
    | forwardPass sndbuf answers unsent output =>
      obtain ⟨s', h', -⟩ := abortTimedOut_phase h
      simp only [Fwd.derefs, List.mem_append] at hv
      rcases hv with hv | hv
      · split at hv
        · rename_i hc
          obtain rfl := List.mem_singleton.1 hv
          obtain rfl := h.of_timedOut hc.1 hc.2
          exact h.live rfl
        · cases hv
      · split at hv
        · rename_i hc
          obtain rfl := List.mem_singleton.1 hv
          rcases hc with hc | ⟨hc, hclient⟩
          · obtain rfl := h'.of_connected hc
            exact h'.live rfl
          · obtain rfl := h'.of_flushForward hc hclient
            exact h'.live rfl
        · cases hv
    | abortConnected =>
      simp only [Fwd.derefs] at hv
      split at hv
      · rename_i hc
        obtain rfl := List.mem_singleton.1 hv
        obtain rfl := h.of_connected hc
        exact h.live rfl
      · cases hv
    | localIo | delete => cases hv

/-! ## Runs -/

/-- A forwarder that exists is in a stage of its life. -/
def Fwd.Staged (w : Fwd) : Prop := w.deleted = false → ∃ s, Phase w s

theorem staged_accept (hostname : Bytes) (rcAccept : Int) (rcQuery : Err) (newOk : Bool) (rcCon : Err) :
    (Fwd.accept hostname rcAccept rcQuery newOk rcCon).2.Staged := by
  have hp := connect_phase (phase_new hostname) rcAccept rcQuery newOk rcCon
  unfold Fwd.accept
  generalize (Fwd.new hostname).connect rcAccept rcQuery newOk rcCon = r at hp
  obtain ⟨ok, w⟩ := r
  cases ok with
  | true =>
    obtain ⟨s, hs, -⟩ := hp rfl
    exact fun _ => ⟨s, hs⟩
  | false => exact nofun

/-- What a step makes of a forwarder that exists: it deletes it, or moves it along the edges of its life. -/
theorem step_moves {w w' : Fwd} {s : Stage} {a : PfAction} (h : Phase w s) (alive : w.deleted = false)
    (hs : forwarder w a = some w') : a = .op .delete ∧ w' = w.delete ∨ a ≠ .op .delete ∧ Moves s w' := by
  cases a with
  | lwip e => exact .inr ⟨nofun, lwip_phase h alive hs⟩
  | op o =>
    simp only [forwarder, alive, Bool.false_eq_true, if_false, Option.some.injEq] at hs
    cases o with
    | delete => exact .inl ⟨rfl, hs.symm⟩
    | localIo | forwardPass | abortConnected => exact .inr ⟨nofun, hs ▸ op_phase h _ nofun⟩

theorem staged_step (w : Fwd) (a : PfAction) (w' : Fwd) (h : w.Staged) (hs : forwarder w a = some w') : w'.Staged := by
  intro alive'
  cases hdel : w.deleted with
  | true =>
    cases a with
    | lwip e => rw [(lwip_gone hdel hs).1] at alive'; cases alive'
    | op o => simp [forwarder, hdel] at hs
  | false =>
    obtain ⟨s, hp⟩ := h hdel
    rcases step_moves hp hdel hs with ⟨-, rfl⟩ | ⟨-, s', hp', -⟩
    · cases alive'
    · exact ⟨s', hp'⟩

/-- FAILED and DISCONNECTED are the last states of a forwarder. -/
theorem state_final {w w' : Fwd} {a : PfAction} (h : w.Staged) (hs : forwarder w a = some w')
    (hfinal : w.pf.state = .failed ∨ w.pf.state = .disconnected) : w'.pf.state = w.pf.state := by
  cases hdel : w.deleted with
  | true =>
    cases a with
    | lwip e => rw [(lwip_gone hdel hs).2.1]
    | op o => simp [forwarder, hdel] at hs
  | false =>
    obtain ⟨s, hp⟩ := h hdel
    rcases step_moves hp hdel hs with ⟨-, rfl⟩ | ⟨-, s', hp', hmove⟩
    · rfl
    · rw [hp'.state_eq, hp.state_eq]
      rw [hp.state_eq] at hfinal
      rcases hmove with rfl | hnext
      · rfl
      · cases hnext <;> rcases hfinal with hf | hf <;> cases hf

/-- The states that `run` can see: a CONNECTED forwarder has a live control block and an open socket, one that
is DISCONNECTING has exactly one of them, FAILED and DISCONNECTED are never left, and every use of the pointer
finds a live control block. -/
theorem forwarder_liveness {hostname : Bytes} {rcAccept : Int} {rcQuery rcCon : Err} {as : List PfAction} {w : Fwd}
    (hrun : exec forwarder (Fwd.accept hostname rcAccept rcQuery true rcCon).2 as = some w)
    (alive : w.deleted = false) :
    (w.pf.state = .connected → w.LivePcb ∧ w.pf.localServer = true) ∧
    (w.pf.state = .disconnecting →
      w.pf.localServer = false ∧ w.LivePcb ∨ w.pf.localClient = false ∧ w.pf.localServer = true) ∧
    (∀ a w', forwarder w a = some w' → w.pf.state = .failed ∨ w.pf.state = .disconnected →
      w'.pf.state = w.pf.state) ∧
    ∀ a w', forwarder w a = some w' → ∀ v ∈ w.derefs a, v.LivePcb := by
  have hstaged := exec_inv staged_step (staged_accept hostname rcAccept rcQuery true rcCon) hrun
  obtain ⟨s, hp⟩ := hstaged alive
  refine ⟨fun hc => ?_, fun hd => ?_, fun a w' hs hf => state_final hstaged hs hf,
    fun a w' hs v hv => derefs_live hp hs hv⟩
  · obtain rfl := hp.of_connected hc
    exact ⟨hp.live rfl, by cases hp; assumption⟩
  · cases hclient : w.pf.localClient with
    | true =>
      obtain rfl := hp.of_flushForward hd hclient
      exact .inl ⟨by cases hp; assumption, hp.live rfl⟩
    | false =>
      rw [hp.state_eq] at hd
      cases hp with
      | flushReply state server => exact .inr ⟨rfl, server⟩
      | flushForward state server client => rw [hclient] at client; cases client
      | ready | resolving | connecting | connected | failed | disconnected => cases hd

/-- The local client closes while data is unsent: the next pass writes through a live pointer. -/
theorem forwarder_liveness_localClose :
    let as : List PfAction := [.lwip .tcpConnected, .op (.localIo true false .eof none [])]
    ∃ w, exec forwarder (Fwd.accept [] 0 .errOk true .errOk).2 as = some w ∧ w.pf.state = .disconnecting ∧
      w.derefs (.op (.forwardPass 0 [] false .errOk)) = [w] ∧ w.LivePcb := by
  intro as
  obtain ⟨w, h⟩ : ∃ w, exec forwarder (Fwd.accept [] 0 .errOk true .errOk).2 as = some w := ⟨_, rfl⟩
  have hlive := forwarder_liveness h
  cases h
  exact ⟨_, rfl, rfl, rfl, (hlive rfl).2.2.2 (.op (.forwardPass 0 [] false .errOk)) _ rfl _ (List.mem_singleton.2 rfl)⟩

end FortiRdp.Net
