/-
The limit of clients. The listener is selected only while nothing connects and the connected forwarders
are fewer than the limit, and between the select and the accept a forwarder can only leave the states
CONNECTING and CONNECTED, or go from the first to the second. So the one place that is free when the
select is prepared is still free at the accept.
-/
import FortiRdp.Net.TunnelerStep
import Mathlib.Tactic.Ring

namespace FortiRdp.Net

open FortiRdp.Lwip FortiRdp.Util FortiRdp.Run

/-! ## Counting -/

def connectingCount (fwds : List Fwd) : Nat := fwds.countP Fwd.connectingB

theorem connectedB_iff {w : Fwd} : w.connectedB = true ↔ w.deleted = false ∧ w.pf.state = .connected := by
  simp [Fwd.connectedB]

theorem connectingB_iff {w : Fwd} : w.connectingB = true ↔ w.deleted = false ∧ w.pf.state = .connecting := by
  simp [Fwd.connectingB]

/-- Connecting or connected. -/
def Fwd.busyB (w : Fwd) : Bool := w.connectedB || w.connectingB

theorem countP_busyB (fwds : List Fwd) : fwds.countP Fwd.busyB = connectedCount fwds + connectingCount fwds := by
  unfold connectedCount connectingCount
  induction fwds with
  | nil => rfl
  | cons w fwds ih =>
    simp only [List.countP_cons, ih]
    have hdisj : ¬ (w.connectedB = true ∧ w.connectingB = true) := by
      rw [connectedB_iff, connectingB_iff]
      rintro ⟨⟨-, h⟩, -, h'⟩
      rw [h] at h'
      cases h'
    cases hc : w.connectedB <;> cases hn : w.connectingB <;> simp_all [Fwd.busyB] <;> omega

/-- A count does not grow when every element that has the property afterwards had the other before. -/
theorem countP_le_countP {α β : Type*} {R : α → β → Prop} {p : α → Bool} {q : β → Bool} {l : List α} {l' : List β}
    (h : List.Forall₂ R l l') (hR : ∀ a b, R a b → q b = true → p a = true) : l'.countP q ≤ l.countP p := by
  induction h with
  | nil => exact le_rfl
  | @cons a b l l' hab _ ih =>
    rw [List.countP_cons, List.countP_cons]
    by_cases hq : q b = true
    · rw [if_pos hq, if_pos (hR a b hab hq)]
      omega
    · rw [if_neg hq]
      omega

/-- After the first stage nothing comes to be connecting, and what is connected was connecting. -/
theorem Stage.Next.busy {s s' : Stage} (h : Stage.Next s s') (hne : s ≠ .ready) :
    (s'.state = .connecting → s.state = .connecting) ∧
      (s'.state = .connected → s.state = .connecting) := by
  cases h <;> simp_all

theorem Touch.back {fwds : List Fwd} {a : TnAction} {w w' : Fwd} (h : Touch fwds a w w') (hw : w.Started) (alive' : w'.deleted = false) :
    w.deleted = false ∧ (w'.pf.state = .connecting → w.pf.state = .connecting) ∧
      (w'.pf.state = .connected → w.pf.state = .connected ∨ w.pf.state = .connecting) := by
  obtain ⟨alive, s, s', hne, hp, hp', hn⟩ := h.alive hw alive'
  rw [hp'.state_eq, hp.state_eq]
  rcases hn with rfl | hn
  · exact ⟨alive, id, .inl⟩
  · exact ⟨alive, (hn.busy hne).1, fun h => .inr ((hn.busy hne).2 h)⟩

theorem Touch.connectingB {fwds : List Fwd} {a : TnAction} {w w' : Fwd} (h : Touch fwds a w w') (hw : w.Started)
    (hc : w'.connectingB = true) : w.connectingB = true := by
  rw [connectingB_iff] at hc ⊢
  obtain ⟨alive, hback, -⟩ := h.back hw hc.1
  exact ⟨alive, hback hc.2⟩

theorem Touch.busyB {fwds : List Fwd} {a : TnAction} {w w' : Fwd} (h : Touch fwds a w w') (hw : w.Started) (hb : w'.busyB = true) :
    w.busyB = true := by
  simp only [Fwd.busyB, Bool.or_eq_true, connectedB_iff, connectingB_iff] at hb ⊢
  rcases hb with ⟨alive', hc⟩ | ⟨alive', hc⟩
  · obtain ⟨alive, -, hback⟩ := h.back hw alive'
    exact (hback hc).imp (⟨alive, ·⟩) (⟨alive, ·⟩)
  · obtain ⟨alive, hback, -⟩ := h.back hw alive'
    exact .inr ⟨alive, hback hc⟩

/-- Without an accept neither the connecting forwarders nor the busy ones become more. -/
theorem touch_counts {a : TnAction} {fwds fwds' : List Fwd} (hs : ∀ w ∈ fwds, w.Started)
    (h : List.Forall₂ (Touch fwds a) fwds fwds') :
    connectingCount fwds' ≤ connectingCount fwds ∧
      connectedCount fwds' + connectingCount fwds' ≤ connectedCount fwds + connectingCount fwds := by
  have hboth := (List.forall₂_and_left fwds fwds').2 ⟨hs, h⟩
  refine ⟨countP_le_countP hboth fun w w' h => h.2.connectingB h.1, ?_⟩
  rw [← countP_busyB, ← countP_busyB]
  exact countP_le_countP hboth fun w w' h => h.2.busyB h.1

/-! ## The invariant -/

/-- At most one forwarder is connecting, the flag of the loop knows it, the limit is kept, and a
connection that was reported has a free place. -/
structure Limit (maxClients : Nat) (t : Tunneler) : Prop where
  max : t.maxClients = maxClients
  started : ∀ w ∈ t.fwds, w.Started
  one : connectingCount t.fwds ≤ 1
  flag : 0 < connectingCount t.fwds → t.connecting = true
  bound : connectedCount t.fwds + connectingCount t.fwds ≤ maxClients
  free : ∀ r, t.pc.ready = some r → r.listener = true → t.connecting = false ∧ connectedCount t.fwds < maxClients

theorem limit_init (maxClients : Nat) (hostname : Bytes) : Limit maxClients (.init maxClients hostname) := by
  refine ⟨rfl, fun w hw => ?_, Nat.zero_le _, fun hpos => ?_, Nat.zero_le _, fun r hr => ?_⟩
  · cases hw
  · exact absurd hpos (Nat.lt_irrefl 0)
  · cases hr

/-- The switch clears the flag only when nothing is connecting. -/
theorem switch_connecting (t : Tunneler) :
    0 < connectingCount t.switch.fwds → t.connecting = true → t.switch.connecting = true := by
  unfold Tunneler.switch
  cases t.state with
  | connecting =>
    simp only
    split
    · exact fun _ => id
    · split <;> exact fun _ => id
  | running =>
    simp only
    split
    · exact fun _ => id
    · intro hpos hc
      have hany : hasConnectingForwarders t.fwds = true := by
        unfold hasConnectingForwarders
        rw [List.any_eq_true]
        exact List.countP_pos_iff.1 hpos
      simp [Tunneler.endLoop, hc, hany]
  | closing | disconnecting =>
    simp only
    split <;> exact fun _ => id
  | stopped => exact fun _ => id

/-- A step that accepts nothing keeps the limit. -/
theorem limit_touch {maxClients : Nat} {t t' : Tunneler} {a : TnAction} (hi : Limit maxClients t)
    (h : tunneler t a = some t') (ht : List.Forall₂ (Touch t.fwds a) t.fwds t'.fwds) : Limit maxClients t' := by
  have flags := step_flags h
  obtain ⟨hone, hbusy⟩ := touch_counts hi.started ht
  have hzero : t.connecting = false → connectingCount t.fwds = 0 := by
    intro hc
    by_contra hne
    rw [hi.flag (Nat.pos_of_ne_zero hne)] at hc
    cases hc
  refine ⟨flags.maxClients.trans hi.max, started_step hi.started h, hone.trans hi.one, fun hpos => ?_,
    hbusy.trans hi.bound, fun r hr hl => ?_⟩
  · have hc := hi.flag (by omega)
    rcases flags.connecting with heq | rfl | ⟨htrue, -⟩
    · exact heq.trans hc
    · obtain ⟨-, rfl⟩ := switch_enabled h
      exact switch_connecting t hpos hc
    · exact htrue
  · have hfree : t.connecting = false ∧ connectedCount t.fwds < maxClients := by
      rcases flags.ready r hr with hr' | ⟨-, -, hsel⟩
      · exact hi.free r hr' hl
      · simp only [Tunneler.selectable, hl, Bool.not_true, Bool.false_or, Bool.and_eq_true,
          Tunneler.listenerSelected, Bool.not_eq_true', decide_eq_true_eq, hi.max] at hsel
        exact ⟨hsel.1.1.1.2, hsel.1.1.2⟩
    have hz := hzero hfree.1
    refine ⟨?_, by omega⟩
    rcases flags.connecting with heq | rfl | ⟨-, hnone⟩
    · exact heq.trans hfree.1
    · obtain ⟨hpc, -⟩ := switch_enabled h
      rcases flags.ready r hr with hr' | ⟨hsel, -⟩
      · rw [hpc] at hr'; cases hr'
      · cases hsel
    · rw [hnone] at hr; cases hr

/-- An accept takes the place that was free when the select was prepared. -/
theorem limit_accept {maxClients : Nat} {t t' : Tunneler} {a : TnAction} {w : Fwd} (hi : Limit maxClients t)
    (h : tunneler t a = some t') (hacc : Accepts t a w) : Limit maxClients t' := by
  have hstarted := started_step hi.started h
  obtain ⟨⟨r, hpc, hl⟩, rcAccept, rcQuery, newOk, rcCon, rfl, rfl⟩ := hacc
  obtain ⟨hconn, hfree⟩ := hi.free r (by rw [hpc]; rfl) hl
  have hzero : connectingCount t.fwds = 0 := by
    by_contra hne
    rw [hi.flag (Nat.pos_of_ne_zero hne)] at hconn
    cases hconn
  simp only [tunneler, hpc, hl, if_true] at h
  cases h
  have hdel := accept_deleted t.hostname rcAccept rcQuery newOk rcCon
  simp only [Tunneler.acceptConnection] at hstarted ⊢
  generalize Fwd.accept t.hostname rcAccept rcQuery newOk rcCon = p at hdel hstarted ⊢
  obtain ⟨ok, w⟩ := p
  have hnew : connectedCount [w] + connectingCount [w] ≤ 1 := by
    rw [← countP_busyB]
    exact List.countP_le_length
  have happ : connectedCount (t.fwds ++ [w]) = connectedCount t.fwds + connectedCount [w] ∧
      connectingCount (t.fwds ++ [w]) = connectingCount t.fwds + connectingCount [w] :=
    ⟨List.countP_append, List.countP_append⟩
  refine ⟨hi.max, hstarted, ?_, fun hpos => ?_, ?_, fun _ hr => by cases hr⟩
  · simp only [happ]
    omega
  · -- a forwarder that is connecting exists, so `connect` succeeded
    simp only [happ, hzero, Nat.zero_add] at hpos
    obtain ⟨v, hv, hc⟩ := List.countP_pos_iff.1 hpos
    rw [List.mem_singleton] at hv
    subst hv
    rw [connectingB_iff, hdel] at hc
    have hok : ok = true := by simpa using hc.1
    simp only [hok, Bool.or_true]
  · simp only [happ]
    omega

theorem limit_step (maxClients : Nat) (t : Tunneler) (a : TnAction) (t' : Tunneler) (hi : Limit maxClients t)
    (h : tunneler t a = some t') : Limit maxClients t' := by
  rcases step_fwds h with ht | ⟨w, hacc, -⟩
  · exact limit_touch hi h ht
  · exact limit_accept hi h hacc

/-- In every reachable state at most one forwarder is connecting, the flag of the loop is set when one
is, and the connected and the connecting forwarders are at most `maxClients`. -/
theorem client_limit {maxClients : Nat} {hostname : Bytes} {as : List TnAction} {t : Tunneler}
    (h : exec tunneler (.init maxClients hostname) as = some t) :
    connectingCount t.fwds ≤ 1 ∧
      (∀ w ∈ t.fwds, w.deleted = false → w.pf.state = .connecting → t.connecting = true) ∧
      connectedCount t.fwds + connectingCount t.fwds ≤ maxClients := by
  have hi := exec_inv (limit_step maxClients) (limit_init maxClients hostname) h
  refine ⟨hi.one, fun w hw alive hc => ?_, hi.bound⟩
  exact hi.flag (List.countP_pos_iff.2 ⟨w, hw, connectingB_iff.2 ⟨alive, hc⟩⟩)

/-- One connection at a limit of one. -/
theorem client_limit_one :
    ∃ t, exec tunneler (.init 1 []) (comeUp ++ takeClient) = some t ∧ connectingCount t.fwds = 1 ∧
      connectedCount t.fwds + connectingCount t.fwds ≤ 1 := by
  obtain ⟨t, h⟩ : ∃ t, exec tunneler (.init 1 []) (comeUp ++ takeClient) = some t := ⟨_, rfl⟩
  have hlimit := client_limit h
  refine ⟨t, h, ?_, hlimit.2.2⟩
  cases h
  rfl

end FortiRdp.Net
