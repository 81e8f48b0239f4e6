/-
The callbacks that lwIP may call after the deletion of a forwarder. The destructor removes the timers
only. What else is registered is the business of the exits: each of them removes the error and the
receive callback and none the sent callback, and nothing withdraws a DNS query. So a deletion is safe
when no query is pending and the control block has no connection, or is closing with every byte
acknowledged; and then it stays safe.
-/
import FortiRdp.Net.Closing

namespace FortiRdp.Net

open FortiRdp.Lwip FortiRdp.Util FortiRdp.Run

/-! ## A forwarder that lwIP has forgotten -/

/-- A control block that calls nothing back: it has no connection, or it is closing without callbacks
for errors and data and with nothing to acknowledge. -/
def TcpPcb.Silent (p : TcpPcb) : Prop :=
  p.state = .closed ∨ Leaving p ∧ p.unacked = 0

/-- Nothing that lwIP holds can call the forwarder back. -/
structure Quiet (w : Fwd) : Prop where
  dns : w.dnsPending = false
  timers : w.Timers 0 0 0
  pcb : ∀ p, w.pcb = some p → p.Silent

/-- Whatever lwIP does, a forwarder that it has forgotten is not called back. -/
theorem lwip_quiet {w w' : Fwd} (h : Quiet w) {e : LwipEvent} (hs : w.lwip e = some w') :
    Quiet w' ∧ w'.life = w.life := by
  have freed : Quiet { w with pcb := none } := ⟨h.dns, h.timers, fun p hp => nomatch hp⟩
  obtain ⟨hconnect, hfflush, hrflush⟩ := h.timers
  cases e with
  | dnsFound name ipaddr rcCon => simp [Fwd.lwip, h.dns] at hs
  | tcpConnected =>
    obtain ⟨p, hp, hs⟩ := Option.bind_eq_some_iff.1 hs
    rcases h.pcb p hp with hclosed | ⟨hleave, -⟩
    · simp [hclosed] at hs
    · simp [hleave.state] at hs
  | tcpErr =>
    obtain ⟨p, hp, hs⟩ := Option.bind_eq_some_iff.1 hs
    rcases h.pcb p hp with hclosed | ⟨hleave, -⟩
    · simp [hclosed] at hs
    · simp only [hleave.state, hleave.err, reduceCtorEq, Bool.false_eq_true, if_false] at hs
      cases hs
      exact ⟨freed, rfl⟩
  | tcpSent len =>
    obtain ⟨p, hp, hs⟩ := Option.bind_eq_some_iff.1 hs
    split at hs
    · rename_i hc
      rcases h.pcb p hp with hclosed | ⟨-, hzero⟩
      · simp [hclosed] at hc
      · omega
    · cases hs
  | tcpRecv c =>
    obtain ⟨p, hp, hs⟩ := Option.bind_eq_some_iff.1 hs
    rcases h.pcb p hp with hclosed | ⟨hleave, -⟩
    · simp [hclosed] at hs
    · simp [hleave.state] at hs
  | tcpFin =>
    obtain ⟨p, hp, hs⟩ := Option.bind_eq_some_iff.1 hs
    rcases h.pcb p hp with hclosed | ⟨hleave, -⟩
    · simp [hclosed] at hs
    · simp [hleave.state] at hs
  | pcbFreed =>
    obtain ⟨p, -, hs⟩ := Option.bind_eq_some_iff.1 hs
    split at hs
    · cases hs
      exact ⟨freed, rfl⟩
    · cases hs
  | timeout i =>
    cases i with
    | connect | fflush | rflush =>
      simp only [Fwd.lwip] at hs
      split at hs
      · omega
      · cases hs

/-- lwIP holds nothing for the forwarder that the destructor does not remove. -/
def Fwd.Settled (w : Fwd) : Prop :=
  w.dnsPending = false ∧ ∀ p ∈ w.pcb, (p.state = .closed ∨ p.state = .closing) ∧ p.unacked = 0

instance (w : Fwd) : Decidable w.Settled :=
  inferInstanceAs (Decidable (w.dnsPending = false ∧ ∀ p ∈ w.pcb, (p.state = .closed ∨ p.state = .closing) ∧ p.unacked = 0))

/-- In every stage each timer has at most one entry. -/
theorem Phase.timers_le {w : Fwd} {s : Stage} (h : Phase w s) : w.Timers 1 1 1 := by
  have le : ∀ {c f r : Nat}, c ≤ 1 → f ≤ 1 → r ≤ 1 → w.Timers c f r → w.Timers 1 1 1 :=
    fun hc hf hr h => ⟨h.1.trans hc, h.2.1.trans hf, h.2.2.trans hr⟩
  cases h with
  | ready _ _ _ _ timers | resolving _ _ _ _ _ _ timers | connecting _ _ _ _ _ _ timers
  | connected _ _ _ _ _ _ timers | flushForward _ _ _ _ _ _ timers | flushReply _ _ _ _ _ _ timers
  | failed _ _ _ timers | disconnected _ _ _ _ timers =>
    exact le (by decide) (by decide) (by decide) timers

/-- The destructor of a settled forwarder leaves nothing behind. -/
theorem delete_quiet {w : Fwd} {s : Stage} (h : Phase w s) (hset : w.Settled) : Quiet w.delete := by
  obtain ⟨hdns, hpcb⟩ := hset
  obtain ⟨hconnect, hfflush, hrflush⟩ := h.timers_le
  refine ⟨hdns, ⟨by simp only [Fwd.delete]; omega, by simp only [Fwd.delete]; omega,
    by simp only [Fwd.delete]; omega⟩, fun p hp => ?_⟩
  obtain ⟨hstate, hzero⟩ := hpcb p hp
  rcases h.pcb_cases hp with rfl | ⟨wired, -⟩ | ⟨wired, -⟩ | ⟨leaving, -⟩
  · exact .inl rfl
  · rw [wired.state] at hstate; simp at hstate
  · rw [wired.state] at hstate; simp at hstate
  · exact .inr ⟨leaving, hzero⟩

/-- `connect` fails without a pending query unless `tcp_new` fails after the query was sent. -/
theorem connect_failed (hostname : Bytes) {rcAccept : Int} {rcQuery : Err} {newOk : Bool} (rcCon : Err)
    (hc : ¬ (rcAccept = 0 ∧ rcQuery = .errInprogress ∧ newOk = false))
    (hfail : ((Fwd.new hostname).connect rcAccept rcQuery newOk rcCon).1 = false) :
    Quiet ((Fwd.new hostname).connect rcAccept rcQuery newOk rcCon).2 := by
  have new : ∀ w : Fwd, w.dnsPending = false → w.pcb = none → w.Timers 0 0 0 → Quiet w :=
    fun w hdns hpcb htimers => ⟨hdns, htimers, fun p hp => by rw [hpcb] at hp; cases hp⟩
  have zero : (Fwd.new hostname).Timers 0 0 0 := ⟨le_rfl, le_rfl, le_rfl⟩
  unfold Fwd.connect at hfail ⊢
  split at hfail
  · rename_i hready
    exact absurd rfl hready
  rename_i hready
  rw [if_neg hready]
  split at hfail
  · rename_i hacc
    rw [if_pos hacc]
    exact new _ rfl rfl zero
  rename_i hacc
  rw [if_neg hacc]
  split at hfail
  · rename_i hq
    rw [if_pos hq]
    split at hfail
    · cases hfail
    · rename_i hnew
      rw [if_neg hnew]
      refine new _ ?_ rfl zero
      rcases hq with rfl | rfl
      · rfl
      · exact absurd ⟨not_not.1 hacc, rfl, by simpa using hnew⟩ hc
  · rename_i hq
    rw [if_neg hq]
    exact new _ rfl rfl zero

theorem accept_quiet (hostname : Bytes) {rcAccept : Int} {rcQuery : Err} {newOk : Bool} (rcCon : Err)
    (hc : ¬ (rcAccept = 0 ∧ rcQuery = .errInprogress ∧ newOk = false))
    (gone : (Fwd.accept hostname rcAccept rcQuery newOk rcCon).2.deleted = true) :
    Quiet (Fwd.accept hostname rcAccept rcQuery newOk rcCon).2 := by
  have hl := connect_life (Fwd.new hostname) rcAccept rcQuery newOk rcCon
  have hfail := connect_failed hostname rcCon hc
  unfold Fwd.accept at gone ⊢
  generalize (Fwd.new hostname).connect rcAccept rcQuery newOk rcCon = r at hl hfail gone
  obtain ⟨ok, w⟩ := r
  cases ok with
  | true =>
    have alive : w.deleted = false := congrArg Prod.fst hl
    exact absurd ((show w.deleted = true from gone).symm.trans alive) (by decide)
  | false =>
    have hq := hfail rfl
    obtain ⟨hconnect, hfflush, hrflush⟩ := hq.timers
    exact ⟨hq.dns, ⟨(Nat.sub_le _ _).trans hconnect, (Nat.sub_le _ _).trans hfflush, (Nat.sub_le _ _).trans hrflush⟩,
      hq.pcb⟩

/-! ## The invariant -/

/-- The step deletes only what lwIP has nothing more to tell. -/
def SettledDeletion (t : Tunneler) : TnAction → Prop
  | .accept rcAccept rcQuery newOk _ =>
    t.pc.ready.any Ready.listener = true → ¬ (rcAccept = 0 ∧ rcQuery = .errInprogress ∧ newOk = false)
  | .purge => ∀ w ∈ t.fwds, w.deleted = false → w.pf.state = .failed ∨ w.pf.state = .disconnected → w.Settled
  | .released => ∀ w ∈ t.fwds, w.deleted = false → w.Settled
  | _ => True

instance (t : Tunneler) (a : TnAction) : Decidable (SettledDeletion t a) := by
  unfold SettledDeletion
  cases a <;> infer_instance

/-- No callback was called too late, and none will be. -/
structure Safe (w : Fwd) : Prop where
  started : w.Started
  dangling : w.trace.dangling = []
  quiet : w.deleted = true → Quiet w

theorem Touch.safe {t : Tunneler} {a : TnAction} {w w' : Fwd} (h : Touch t.fwds a w w') (hw : w ∈ t.fwds)
    (hi : Safe w) (hc : SettledDeletion t a) : Safe w' := by
  have hstarted := h.started hi.started
  have same : w'.life = w.life → (w.deleted = true → Quiet w') → Safe w' := by
    intro hl hq
    refine ⟨hstarted, (congrArg Prod.snd hl).trans hi.dangling, fun gone => hq ?_⟩
    exact (congrArg Prod.fst hl).symm.trans gone
  have deleted : w.deleted = false → w.Settled → Safe w.delete := by
    intro alive hset
    obtain ⟨s, -, hp⟩ := hi.started alive
    exact ⟨fun alive' => (by cases alive'), hi.dangling, fun _ => delete_quiet hp hset⟩
  cases h with
  | same => exact hi
  | lwip ha _ hs =>
    cases hdel : w.deleted with
    | false =>
      refine same (lwip_life hdel hs) fun gone => ?_
      rw [hdel] at gone
      cases gone
    | true =>
      obtain ⟨hq, hl⟩ := lwip_quiet (hi.quiet hdel) hs
      exact same hl fun _ => hq
  | op o alive ho =>
    refine same (op_life w o ho) fun gone => ?_
    rw [alive] at gone
    cases gone
  | purge ha alive hstate =>
    subst ha
    exact deleted alive (hc w hw alive hstate)
  | release ha alive =>
    subst ha
    exact deleted alive (hc w hw alive)

theorem accept_safe (hostname : Bytes) {rcAccept : Int} {rcQuery : Err} {newOk : Bool} (rcCon : Err)
    (hc : ¬ (rcAccept = 0 ∧ rcQuery = .errInprogress ∧ newOk = false)) :
    Safe (Fwd.accept hostname rcAccept rcQuery newOk rcCon).2 := by
  refine ⟨accept_started hostname rcAccept rcQuery newOk rcCon, ?_, accept_quiet hostname rcCon hc⟩
  have hl := connect_life (Fwd.new hostname) rcAccept rcQuery newOk rcCon
  unfold Fwd.accept
  generalize (Fwd.new hostname).connect rcAccept rcQuery newOk rcCon = r at hl
  obtain ⟨ok, w⟩ := r
  cases ok with
  | true => exact congrArg Prod.snd hl
  | false => exact congrArg Prod.snd hl

theorem safe_step (t : Tunneler) (a : TnAction) (t' : Tunneler) (hi : ∀ w ∈ t.fwds, Safe w)
    (hc : SettledDeletion t a) (h : tunneler t a = some t') : ∀ w ∈ t'.fwds, Safe w := by
  intro w' hw'
  rcases mem_step h hw' with ⟨w, hw, ht⟩ | ⟨⟨r, hpc, hl⟩, rcAccept, rcQuery, newOk, rcCon, rfl, rfl⟩
  · exact ht.safe hw (hi w hw) hc
  · exact accept_safe t.hostname rcCon (hc (by rw [hpc]; exact hl))

/-- In every run that deletes only settled forwarders no callback is called with a forwarder that was
deleted. -/
theorem callbacks_alive {maxClients : Nat} {hostname : Bytes} {as : List TnAction} {t : Tunneler}
    (hm : Meets tunneler SettledDeletion (.init maxClients hostname) as)
    (h : exec tunneler (.init maxClients hostname) as = some t) : ∀ w ∈ t.fwds, w.trace.dangling = [] := by
  have hi := exec_inv_of_meets safe_step (fun w hw => by cases hw) hm h
  exact fun w hw => (hi w hw).dangling

/-- A select that finds only the first forwarder readable. -/
def readFirst : Ready := { tunnelWrite := false, tunnelRead := false, listener := false, pfRead := [0], pfWrite := [] }

/-- A client is connected, sends two bytes and closes: the bytes are written to the connection in the
same pass, and the next one deletes the forwarder. -/
def clientSendsAndCloses : List TnAction :=
  comeUp ++ takeClient ++ restOfPass 1 ++ [.switch] ++ receivePass ++
    [.lwip 0 .tcpConnected, .recv true, .accept 0 .errOk true .errOk] ++ restOfPass 1 ++
    [.switch, .select readFirst, .send true, .recv true, .accept 0 .errOk true .errOk,
      .localIo (.data [1, 2]) (some fun _ => 0) [], .localIo .eof none [],
      .forward 100 [(100, .errOk)] false .errOk, .forward 0 [] false .errOk, .timersDone, .purge,
      .switch, .select readFirst, .send true, .recv true, .accept 0 .errOk true .errOk,
      .localIo .eof none [], .localIo .eof none [],
      .forward 100 [] false .errOk, .forward 0 [] false .errOk, .timersDone]

/-- The acknowledgement of the two bytes arrives after the deletion and calls the sent callback. -/
theorem sent_after_delete :
    ¬ ∀ (as : List TnAction) (t : Tunneler), exec tunneler (.init 1 []) as = some t →
      ∀ w ∈ t.fwds, w.trace.dangling = [] := by
  intro hall
  have hlate : (exec tunneler (.init 1 []) (clientSendsAndCloses ++ [.purge, .switch] ++ receivePass ++
      [.lwip 0 (.tcpSent 2)])).any (fun t => t.fwds.any fun w => decide (w.trace.dangling ≠ [])) = true := by
    decide +kernel
  obtain ⟨t, ht, hany⟩ := (Option.any_eq_true _ _).1 hlate
  obtain ⟨w, hw, hne⟩ := List.any_eq_true.1 hany
  exact of_decide_eq_true hne (hall _ t ht w hw)

/-- When the acknowledgement arrives before the deletion no callback is late. -/
theorem callbacks_alive_acked :
    ∃ t, exec tunneler (.init 1 []) (clientSendsAndCloses.dropLast ++ [.lwip 0 (.tcpSent 2), .timersDone, .purge]) =
        some t ∧ t.fwds.any Fwd.deleted = true ∧ ∀ w ∈ t.fwds, w.trace.dangling = [] := by
  have hm : Meets tunneler SettledDeletion (.init 1 [])
      (clientSendsAndCloses.dropLast ++ [.lwip 0 (.tcpSent 2), .timersDone, .purge]) := by decide +kernel
  have hdeleted : (exec tunneler (.init 1 []) (clientSendsAndCloses.dropLast ++
      [.lwip 0 (.tcpSent 2), .timersDone, .purge])).any (fun t => t.fwds.any Fwd.deleted) = true := by decide +kernel
  obtain ⟨t, h, hdel⟩ := (Option.any_eq_true _ _).1 hdeleted
  exact ⟨t, h, hdel, callbacks_alive hm h⟩

end FortiRdp.Net
