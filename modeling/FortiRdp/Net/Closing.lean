/-
The state CLOSING of the tunneler: which connections are still taken there, and when it can be left.
The listener is selected whatever the state is, so a connection may be accepted after `terminate`; and
the abort timer is armed only when a forwarder is CONNECTED at the moment of the abort, so a forwarder
that connects later, or that can no longer empty its reply queue, may keep the loop in CLOSING.
-/
import FortiRdp.Net.ClientLimit

namespace FortiRdp.Net

open FortiRdp.Lwip FortiRdp.Util FortiRdp.Run

/-! ## Before the interface is up -/

/-- While the state is CONNECTING there is no forwarder, nothing was reported on the listener, and the
PPP interface was not up at the end of the last pass. -/
structure Opening (t : Tunneler) : Prop where
  fwds : t.state = .connecting → t.fwds = []
  quiet : t.state = .connecting → ∀ r, t.pc.ready = some r → r.listener = false
  down : t.state = .connecting → t.pc = .top → t.if4Up = false
  close : t.pc = .pppClose → t.state ≠ .connecting

theorem opening_init (maxClients : Nat) (hostname : Bytes) : Opening (.init maxClients hostname) := by
  refine ⟨fun _ => rfl, fun _ r hr => ?_, fun _ _ => rfl, fun h => ?_⟩
  · cases hr
  · cases h

/-- The switch stays in CONNECTING only while the PPP interface is down. -/
theorem switch_opening {t : Tunneler} (h : t.switch.state = .connecting) :
    t.state = .connecting ∧ t.if4Up = false ∧ t.switch = t.endLoop := by
  unfold Tunneler.switch at h ⊢
  cases hs : t.state with
  | connecting =>
    simp only [hs] at h ⊢
    split at h
    · cases h
    rename_i hterm
    split at h
    · cases h
    rename_i hup
    rw [if_neg hterm, if_neg hup]
    exact ⟨trivial, by simpa using hup, rfl⟩
  | running | closing | disconnecting =>
    simp only [hs] at h
    split at h <;> simp [Tunneler.endLoop, hs] at h
  | stopped => simp [hs, Tunneler.endLoop] at h

theorem opening_step (t : Tunneler) (a : TnAction) (t' : Tunneler) (hi : Opening t) (h : tunneler t a = some t') :
    Opening t' := by
  have flags := step_flags h
  -- the state was CONNECTING before, and the switch did nothing but end the pass
  have before : t'.state = .connecting → t.state = .connecting ∧ (a = .switch → t.if4Up = false ∧ t' = t.endLoop) := by
    intro hs
    rcases flags.state with heq | rfl | ⟨hstop, -⟩
    · refine ⟨heq ▸ hs, ?_⟩
      rintro rfl
      obtain ⟨-, rfl⟩ := switch_enabled h
      exact ⟨(switch_opening hs).2.1, (switch_opening hs).2.2⟩
    · obtain ⟨-, rfl⟩ := switch_enabled h
      exact ⟨(switch_opening hs).1, fun _ => ⟨(switch_opening hs).2.1, (switch_opening hs).2.2⟩⟩
    · rw [hstop] at hs; cases hs
  refine ⟨fun hs => ?_, fun hs r hr => ?_, fun hs htop => ?_, fun hp hs => ?_⟩
  · obtain ⟨hbefore, -⟩ := before hs
    rcases step_fwds h with ht | ⟨w, ⟨⟨r, hpc, hl⟩, -⟩, -⟩
    · rw [hi.fwds hbefore] at ht
      exact List.forall₂_nil_left_iff.1 ht
    · rw [hi.quiet hbefore r (by rw [hpc]; rfl)] at hl
      cases hl
  · obtain ⟨hbefore, -⟩ := before hs
    rcases flags.ready r hr with hr' | ⟨-, htop, hsel⟩
    · exact hi.quiet hbefore r hr'
    · have hdown := hi.down hbefore htop
      simp only [Tunneler.selectable, Tunneler.listenerSelected, hdown, Bool.false_and, Bool.or_false,
        Bool.and_eq_true, Bool.not_eq_true'] at hsel
      exact hsel.1.1
  · obtain ⟨hbefore, hswitch⟩ := before hs
    rcases flags.top htop with ⟨htop', hup⟩ | hsw | hp
    · exact hup.trans (hi.down hbefore htop')
    · obtain ⟨hup, rfl⟩ := hswitch hsw
      exact hup
    · exact absurd hbefore (hi.close hp)
  · obtain ⟨hbefore, hswitch⟩ := before hs
    rcases flags.pppClose hp with hp' | hsw
    · exact hi.close hp' hbefore
    · obtain ⟨-, rfl⟩ := hswitch hsw
      cases hp

/-! ## New clients -/

/-- A select that reports a connection on the listener. -/
def TnAction.reportsClient : TnAction → Bool
  | .select r => r.listener
  | _ => false

/-- A select in the state CLOSING or later finds no connection on the listener. -/
def NoLateClient (t : Tunneler) (a : TnAction) : Prop :=
  t.state ≠ .connecting → t.state ≠ .running → a.reportsClient = false

instance (t : Tunneler) (a : TnAction) : Decidable (NoLateClient t a) :=
  inferInstanceAs (Decidable (t.state ≠ .connecting → t.state ≠ .running → a.reportsClient = false))

/-- A connection on the listener is reported only while the state is RUNNING. -/
structure Barred (t : Tunneler) : Prop where
  opening : Opening t
  barred : t.state ≠ .running → ∀ r, t.pc.ready = some r → r.listener = false

theorem barred_init (maxClients : Nat) (hostname : Bytes) : Barred (.init maxClients hostname) :=
  ⟨opening_init maxClients hostname, fun _ r hr => by cases hr⟩

theorem barred_step (t : Tunneler) (a : TnAction) (t' : Tunneler) (hi : Barred t) (hc : NoLateClient t a)
    (h : tunneler t a = some t') : Barred t' := by
  have flags := step_flags h
  have hopen := opening_step t a t' hi.opening h
  refine ⟨hopen, fun hs r hr => ?_⟩
  have hstate : t'.state = t.state := by
    rcases flags.state with heq | rfl | ⟨-, hpc⟩
    · exact heq
    · obtain ⟨-, rfl⟩ := switch_enabled h
      rcases switch_pc t with hpc | hpc | hpc <;> rw [hpc] at hr <;> cases hr
    · rw [hpc] at hr; cases hr
  rcases flags.ready r hr with hr' | ⟨rfl, -, -⟩
  · exact hi.barred (hstate ▸ hs) r hr'
  · by_cases hcon : t'.state = .connecting
    · exact hopen.quiet hcon r hr
    · exact hc (hstate ▸ hcon) (hstate ▸ hs)

/-- In every run in which no select reports a connection on the listener in the state CLOSING or later,
a step that adds a forwarder is taken in the state RUNNING. -/
theorem accept_running {maxClients : Nat} {hostname : Bytes} {as : List TnAction} {a : TnAction} {t t' : Tunneler}
    (hm : Meets tunneler NoLateClient (.init maxClients hostname) as)
    (h : exec tunneler (.init maxClients hostname) as = some t) (hs : tunneler t a = some t')
    (hmore : t.fwds.length < t'.fwds.length) : t.state = .running := by
  have hi := exec_inv_of_meets barred_step (barred_init maxClients hostname) hm h
  rcases step_fwds hs with ht | ⟨w, ⟨⟨r, hpc, hl⟩, -⟩, -⟩
  · exact absurd ht.length_eq (Nat.ne_of_lt hmore)
  · by_contra hne
    rw [hi.barred hne r (by rw [hpc]; rfl)] at hl
    cases hl

/-- A pass of the loop without forwarders in which nothing is received. -/
def idlePass : List TnAction := [.selectTimeout, .forward 0 [] false .errOk, .timersDone, .purge, .switch]

/-- A client that connects after `terminate` is accepted in the state CLOSING. -/
theorem accept_closing :
    ¬ ∀ (as : List TnAction) (a : TnAction) (t t' : Tunneler), exec tunneler (.init 1 []) as = some t →
      tunneler t a = some t' → t.fwds.length < t'.fwds.length → t.state = .running := by
  intro hall
  have hrun := hall (comeUp ++ .terminate :: idlePass ++ takeClient.dropLast) (.accept 0 .errOk true .errOk) _ _ rfl rfl
    (by decide)
  exact absurd hrun (by decide)

/-- The first client of a tunnel that is up. -/
theorem accept_running_first :
    ∃ t t', exec tunneler (.init 1 []) (comeUp ++ takeClient.dropLast) = some t ∧
      tunneler t (.accept 0 .errOk true .errOk) = some t' ∧ t.fwds.length < t'.fwds.length ∧ t.state = .running := by
  have hm : Meets tunneler NoLateClient (.init 1 []) (comeUp ++ takeClient.dropLast) := by
    decide
  obtain ⟨t, h⟩ : ∃ t, exec tunneler (.init 1 []) (comeUp ++ takeClient.dropLast) = some t := ⟨_, rfl⟩
  have hrun : ∀ t', tunneler t (.accept 0 .errOk true .errOk) = some t' → t.fwds.length < t'.fwds.length →
    t.state = .running := fun t' => accept_running hm h
  cases h
  exact ⟨_, _, rfl, rfl, by decide, hrun _ rfl (by decide)⟩

/-! ## Leaving the state CLOSING -/

/-- The forwarder waits to empty its reply queue: its client pointer is null already. -/
def Fwd.replyingB (w : Fwd) : Bool := !w.deleted && w.pf.state == .disconnecting && !w.pf.localClient

theorem replyingB_iff {w : Fwd} :
    w.replyingB = true ↔ w.deleted = false ∧ w.pf.state = .disconnecting ∧ w.pf.localClient = false := by
  simp [Fwd.replyingB, and_assoc]

/-- The abort timer is armed or has expired. -/
def Tunneler.TimerSet (t : Tunneler) : Prop := 0 < t.abortTimer ∨ t.abortTimeout = true

/-- A forwarder that nothing but the end of its connection, or a write of its replies that the loop
does not try any more, takes out of the list. -/
def Tunneler.Held (t : Tunneler) : Prop :=
  ∃ w ∈ t.fwds, w.connectedB = true ∨ w.replyingB = true ∧ t.tunnelConnected = false

instance (t : Tunneler) : Decidable t.TimerSet :=
  inferInstanceAs (Decidable (0 < t.abortTimer ∨ t.abortTimeout = true))

instance (t : Tunneler) : Decidable t.Held :=
  inferInstanceAs (Decidable (∃ w ∈ t.fwds, w.connectedB = true ∨ w.replyingB = true ∧ t.tunnelConnected = false))

/-- The action completes the connection of a forwarder that exists. -/
def Tunneler.establishes (t : Tunneler) : TnAction → Bool
  | .lwip i .tcpConnected => t.fwds[i]?.any fun w => !w.deleted
  | _ => false

/-- The switch from RUNNING to CLOSING finds no connection to abort. -/
def Tunneler.abortsNothing (t : Tunneler) : TnAction → Bool
  | .switch => t.state == .running && t.terminate && connectedCount t.fwds == 0
  | _ => false

/-- The order of events in which the state CLOSING is always left: without the abort timer no
connection is completed and the tunnel is not lost while replies wait, nor was it lost when the state
was entered. -/
def Orderly (t : Tunneler) (a : TnAction) : Prop :=
  (t.state = .closing → ¬ t.TimerSet →
    t.establishes a = false ∧ (t.losesTunnel a = true → t.fwds.any Fwd.replyingB = false)) ∧
  (t.abortsNothing a = true → t.tunnelConnected = false → t.fwds.any Fwd.replyingB = false)

instance (t : Tunneler) (a : TnAction) : Decidable (Orderly t a) :=
  inferInstanceAs (Decidable ((t.state = .closing → ¬ t.TimerSet →
    t.establishes a = false ∧ (t.losesTunnel a = true → t.fwds.any Fwd.replyingB = false)) ∧
    (t.abortsNothing a = true → t.tunnelConnected = false → t.fwds.any Fwd.replyingB = false)))

/-- No method connects a forwarder. -/
theorem op_connecting {w : Fwd} (h : Phase w .connecting) (o : PfOp) (ho : o ≠ .delete) :
    (w.op o).pf.state ≠ .connected := by
  have hstate := h.state_eq
  cases o with
  | localIo readable writable rcv a snd =>
    show (w.localIo readable writable rcv a snd).pf.state ≠ .connected
    unfold Fwd.localIo
    rw [if_neg (by simp [hstate]), if_neg (by simp [hstate]), hstate]
    simp
  | forwardPass sndbuf answers unsent output =>
    show (w.forwardPass sndbuf answers unsent output).pf.state ≠ .connected
    obtain ⟨v, hv, hstate⟩ : ∃ v, v = w.abortTimedOut ∧ (v.pf.state = .connecting ∨ v.pf.state = .disconnected) := by
      refine ⟨_, rfl, ?_⟩
      unfold Fwd.abortTimedOut
      split
      · exact .inr (abort_phase h (.inl rfl)).state_eq
      · exact .inl hstate
    unfold Fwd.forwardPass
    rw [← hv]
    simp only
    rcases hstate with hs | hs
    · rw [if_neg (by simp [hs]), if_neg (by simp [hs]), hs]
      simp
    · rw [if_neg (by simp [hs]), if_neg (by simp [hs]), hs]
      simp
  | abortConnected =>
    show w.abortConnected.pf.state ≠ .connected
    unfold Fwd.abortConnected
    rw [if_neg (by simp [hstate]), hstate]
    simp
  | delete => exact absurd rfl ho

/-- Of the events of lwIP only `tcpConnected` connects a forwarder. -/
theorem lwip_connecting {w w' : Fwd} {e : LwipEvent} (h : Phase w .connecting) (alive : w.deleted = false)
    (hs : w.lwip e = some w') (hc : w'.pf.state = .connected) : e = .tcpConnected := by
  cases h with
  | connecting state server client pcb wired dns timers =>
    cases lwip_step alive hs with
    | tcpConnected => rfl
    | dnsFound hdns => rw [dns] at hdns; cases hdns
    | tcpErr => cases hc
    | tcpErrSilent | tcpSentSilent | tcpRecvSilent | tcpFinSilent | pcbFreed | connectTimeout | fflushTimeout
    | rflushTimeout => exact absurd (state.symm.trans hc) (by decide)
    | tcpSent hp hst =>
      rw [pcb] at hp
      cases hp
      rw [wired.state] at hst
      rcases hst with hst | hst <;> cases hst
    | tcpRecv hp hst | tcpFin hp hst =>
      rw [pcb] at hp
      cases hp
      rw [wired.state] at hst
      cases hst.1

/-- A forwarder that waits to empty its reply queue is in that stage. -/
theorem Phase.replying {w : Fwd} {s : Stage} (h : Phase w s) (state : w.pf.state = .disconnecting)
    (client : w.pf.localClient = false) : s = .flushReply := by
  cases h with
  | flushReply => rfl
  | flushForward _ _ client' => rw [client] at client'; cases client'
  | ready state' | resolving state' | connecting state' | connected state' | failed state' | disconnected state' =>
    rw [state] at state'; cases state'

theorem Stage.Next.to_connected {s s' : Stage} (h : Stage.Next s s') (hc : s'.state = .connected) :
    s = .connecting := by
  cases h with
  | established => rfl
  | resolve | connect | reject | resolved | unresolved | refused | localClose | remoteClose | reset | forwarded
  | replied => cases hc

/-- Only `tcpConnected` makes a forwarder CONNECTED. -/
theorem Touch.connected {t : Tunneler} {a : TnAction} {w w' : Fwd} (h : Touch t.fwds a w w') (hw : w.Started)
    (hc : w'.connectedB = true) : w.connectedB = true ∨ t.establishes a = true := by
  rw [connectedB_iff] at hc ⊢
  obtain ⟨alive, s, s', -, hp, hp', rfl | hn⟩ := h.alive hw hc.1
  · exact .inl ⟨alive, hp.state_eq.trans (hp'.state_eq.symm.trans hc.2)⟩
  · obtain rfl := hn.to_connected (hp'.state_eq.symm.trans hc.2)
    cases h with
    | same => exact .inl hc
    | lwip ha hget hs =>
      obtain rfl := lwip_connecting hp alive hs hc.2
      subst ha
      exact .inr (by simp [Tunneler.establishes, hget, alive])
    | op o _ ho => exact absurd hc.2 (op_connecting hp o ho)
    | purge | release => cases hc.1

/-- A forwarder that waits to empty its reply queue did so before, or was CONNECTED. -/
theorem Touch.replying {fwds : List Fwd} {a : TnAction} {w w' : Fwd} (h : Touch fwds a w w') (hw : w.Started)
    (hr : w'.replyingB = true) : w.replyingB = true ∨ w.connectedB = true := by
  rw [replyingB_iff] at hr ⊢
  rw [connectedB_iff]
  obtain ⟨alive, s, s', -, hp, hp', hn⟩ := h.alive hw hr.1
  obtain rfl := hp'.replying hr.2.1 hr.2.2
  rcases hn with rfl | hn
  · cases hp with
    | flushReply state server client => exact .inl ⟨alive, state, client⟩
  · cases hn with
    | remoteClose => exact .inr ⟨alive, hp.state_eq⟩

/-- What the abort leaves when it counts nothing. -/
theorem abortAll_none {fwds : List Fwd} (h : connectedCount fwds = 0) : (abortAll fwds).2 = fwds := by
  unfold abortAll
  refine (List.map_congr_left fun w hw => ?_).trans (List.map_id fwds)
  split
  · rfl
  · rename_i alive
    have hno := List.countP_eq_zero.1 h w hw
    rw [connectedB_iff] at hno
    show w.abortConnected = w
    unfold Fwd.abortConnected
    rw [if_neg fun hc => hno ⟨by simpa using alive, hc⟩]

/-- How the switch comes to the state CLOSING. -/
theorem switch_closing {t : Tunneler} (h : t.switch.state = .closing) :
    t.switch.TimerSet ∨ t.switch.fwds = t.fwds ∧ t.switch.tunnelConnected = t.tunnelConnected ∧
      (t.state = .connecting ∨ t.abortsNothing .switch = true ∨
        t.state = .closing ∧ (t.TimerSet → t.switch.TimerSet)) := by
  unfold Tunneler.switch at h ⊢
  cases hs : t.state with
  | connecting =>
    simp only [hs] at h ⊢
    split at h
    · rename_i hterm
      rw [if_pos hterm]
      exact .inr ⟨rfl, rfl, .inl trivial⟩
    · split at h <;> simp [Tunneler.endLoop, hs] at h
  | running =>
    simp only [hs] at h ⊢
    split at h
    · rename_i hterm
      rw [if_pos hterm]
      by_cases hcount : 0 < (abortAll t.fwds).1
      · left
        refine .inl ?_
        show 0 < if 0 < (abortAll t.fwds).1 then t.abortTimer + 1 else t.abortTimer
        rw [if_pos hcount]
        exact Nat.succ_pos _
      · right
        have hzero : connectedCount t.fwds = 0 := Nat.eq_zero_of_not_pos hcount
        refine ⟨abortAll_none hzero, rfl, .inr (.inl ?_)⟩
        simp [Tunneler.abortsNothing, hs, hterm, hzero]
    · simp [Tunneler.endLoop] at h
  | closing =>
    simp only [hs] at h ⊢
    split at h
    · cases h
    · rename_i hstay
      rw [if_neg hstay]
      exact .inr ⟨rfl, rfl, .inr (.inr ⟨trivial, id⟩)⟩
  | disconnecting =>
    simp only [hs] at h
    split at h <;> simp [Tunneler.endLoop, hs] at h
  | stopped =>
    simp only [hs, Tunneler.endLoop] at h
    cases h

/-- A forwarder that is held in the state CLOSING is released by the abort timer. -/
structure Leaves (t : Tunneler) : Prop where
  opening : Opening t
  started : ∀ w ∈ t.fwds, w.Started
  timer : t.state = .closing → t.Held → t.TimerSet

theorem leaves_init (maxClients : Nat) (hostname : Bytes) : Leaves (.init maxClients hostname) :=
  ⟨opening_init maxClients hostname, (fun w hw => by cases hw), (fun h => by cases h)⟩

/-- A new forwarder is not held. -/
theorem accept_not_held (hostname : Bytes) (rcAccept : Int) (rcQuery : Err) (newOk : Bool) (rcCon : Err) :
    (Fwd.accept hostname rcAccept rcQuery newOk rcCon).2.connectedB = false ∧
      (Fwd.accept hostname rcAccept rcQuery newOk rcCon).2.replyingB = false := by
  unfold Fwd.connectedB Fwd.replyingB
  cases alive : (Fwd.accept hostname rcAccept rcQuery newOk rcCon).2.deleted with
  | true => exact ⟨rfl, rfl⟩
  | false =>
    obtain ⟨s, hn, hp⟩ := accept_phase hostname rcAccept rcQuery newOk rcCon alive
    rw [hp.state_eq]
    cases hn <;> exact ⟨rfl, rfl⟩

theorem leaves_switch {t : Tunneler} (hi : Leaves t) (hc : Orderly t .switch) (hs : t.switch.state = .closing)
    (hheld : t.switch.Held) : t.switch.TimerSet := by
  rcases switch_closing hs with hset | ⟨hfwds, htunnel, hcase⟩
  · exact hset
  have hheld' : t.Held := by
    unfold Tunneler.Held at hheld ⊢
    rwa [hfwds, htunnel] at hheld
  rcases hcase with hs | hnone | ⟨hs, hset⟩
  · obtain ⟨w, hw, -⟩ := hheld'
    rw [hi.opening.fwds hs] at hw
    cases hw
  · obtain ⟨w, hw, hcon | ⟨hrep, hlost⟩⟩ := hheld'
    · simp only [Tunneler.abortsNothing, Bool.and_eq_true, beq_iff_eq] at hnone
      exact absurd hcon (List.countP_eq_zero.1 hnone.2 w hw)
    · exact absurd hrep (List.any_eq_false.1 (hc.2 hnone hlost) w hw)
  · exact hset (hi.timer hs hheld')

theorem leaves_step (t : Tunneler) (a : TnAction) (t' : Tunneler) (hi : Leaves t) (hc : Orderly t a)
    (h : tunneler t a = some t') : Leaves t' := by
  have flags := step_flags h
  refine ⟨opening_step t a t' hi.opening h, started_step hi.started h, fun hs hheld => ?_⟩
  by_cases hsw : a = .switch
  · subst hsw
    obtain ⟨-, rfl⟩ := switch_enabled h
    exact leaves_switch hi hc hs hheld
  by_contra hno
  -- the state was CLOSING before, without the timer, so nothing was held there
  have hstop : t'.state ≠ .stopped := by
    rw [hs]
    simp
  have hs' : t.state = .closing := by
    rcases flags.state with heq | hsw' | hstop'
    · exact heq.symm.trans hs
    · exact absurd hsw' hsw
    · exact absurd hstop'.1 hstop
  have hno' : ¬ t.TimerSet := by
    rcases flags.abort with ⟨htimer, htimeout⟩ | hset | hsw' | hstop'
    · rwa [Tunneler.TimerSet, htimer, htimeout] at hno
    · exact absurd (.inr hset) hno
    · exact absurd hsw' hsw
    · exact absurd hstop' hstop
  have hfree : ∀ w ∈ t.fwds, w.connectedB = true ∨ w.replyingB = true ∧ t.tunnelConnected = false → False :=
    fun w hw hheld => hno' (hi.timer hs' ⟨w, hw, hheld⟩)
  obtain ⟨hestablish, hlose⟩ := hc.1 hs' hno'
  obtain ⟨w', hw', hheld⟩ := hheld
  rcases mem_step h hw' with ⟨w, hw, ht⟩ | ⟨-, rcAccept, rcQuery, newOk, rcCon, -, rfl⟩
  · rcases hheld with hcon | ⟨hrep, hlost⟩
    · rcases ht.connected (hi.started w hw) hcon with hcon | hyes
      · exact hfree w hw (.inl hcon)
      · rw [hestablish] at hyes; cases hyes
    · rcases ht.replying (hi.started w hw) hrep with hrep | hcon
      · rcases flags.tunnel with heq | hlosing | hstop'
        · exact hfree w hw (.inr ⟨hrep, heq.symm.trans hlost⟩)
        · exact absurd hrep (List.any_eq_false.1 (hlose hlosing) w hw)
        · exact absurd hstop' hstop
      · exact hfree w hw (.inl hcon)
  · obtain ⟨hcon, hrep⟩ := accept_not_held t.hostname rcAccept rcQuery newOk rcCon
    rw [hcon, hrep] at hheld
    simp at hheld

/-- In every run with an orderly end, a forwarder that is held in the state CLOSING is released by the
abort timer. -/
theorem closing_released {maxClients : Nat} {hostname : Bytes} {as : List TnAction} {t : Tunneler}
    (hm : Meets tunneler Orderly (.init maxClients hostname) as)
    (h : exec tunneler (.init maxClients hostname) as = some t) (hs : t.state = .closing) (hheld : t.Held) :
    t.TimerSet :=
  (exec_inv_of_meets leaves_step (leaves_init maxClients hostname) hm h).timer hs hheld

/-- The rest of a pass with `n` forwarders, from the pass over the local sockets. -/
def restOfPass (n : Nat) : List TnAction :=
  List.replicate (n + 1) (.localIo .eof none []) ++ List.replicate (n + 1) (.forward 0 [] false .errOk) ++
    [.timersDone, .purge]

/-- A pass that only receives from the tunnel, up to the reception. -/
def receivePass : List TnAction :=
  [.select { tunnelWrite := false, tunnelRead := true, listener := false, pfRead := [], pfWrite := [] }, .send true]

/-- The only client is still connecting when the tunneler terminates, and connects afterwards. -/
theorem closing_stuck :
    ¬ ∀ (as : List TnAction) (t : Tunneler), exec tunneler (.init 1 []) as = some t → t.state = .closing → t.Held →
      t.TimerSet := by
  intro hall
  have hset := hall (comeUp ++ takeClient ++ restOfPass 1 ++ [.terminate, .switch] ++ receivePass ++
    [.lwip 0 .tcpConnected]) _ rfl rfl ⟨_, List.mem_cons_self .., .inl rfl⟩
  exact absurd hset (by decide)

/-- One client is connected when the tunneler terminates; the other one connects afterwards, and the
timer of the abort is armed. -/
theorem closing_released_two :
    let as : List TnAction := comeUp ++ takeClient ++ restOfPass 1 ++ [.switch] ++ receivePass ++
      [.lwip 0 .tcpConnected, .recv true, .accept 0 .errOk true .errOk] ++ restOfPass 1 ++ [.switch] ++ takeClient ++
      restOfPass 2 ++ [.terminate, .switch] ++ receivePass ++ [.lwip 1 .tcpConnected]
    ∃ t, exec tunneler (.init 2 []) as = some t ∧ t.state = .closing ∧ t.Held ∧ t.TimerSet := by
  intro as
  have hm : Meets tunneler Orderly (.init 2 []) as := by decide
  obtain ⟨t, h, hs, hheld⟩ : ∃ t, exec tunneler (.init 2 []) as = some t ∧ t.state = .closing ∧ t.Held :=
    ⟨_, rfl, by decide, by decide⟩
  exact ⟨t, h, hs, hheld, closing_released hm h hs hheld⟩

end FortiRdp.Net
