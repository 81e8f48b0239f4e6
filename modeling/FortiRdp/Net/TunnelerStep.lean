/-
What a step of the tunneler does. Each forwarder is left alone or takes a step of its own machine, and
the accept of a connection adds one: a forwarder that exists is always in one of the stages of its
life, and the numbers of connecting and of busy forwarders grow only by an accept. The flags of the
loop change at few places.
-/
import FortiRdp.Net.Tunneler
import Mathlib.Data.List.Forall2

namespace FortiRdp.Net

open FortiRdp.Lwip FortiRdp.Util FortiRdp.Run

/-! ## One step -/

/-- What an action of the tunneler may do to a forwarder of the list. -/
inductive Touch (fwds : List Fwd) (a : TnAction) (w : Fwd) : Fwd → Prop
  | same : Touch fwds a w w
  | lwip {i : Nat} {e : LwipEvent} {w' : Fwd} : a = .lwip i e → fwds[i]? = some w → w.lwip e = some w' →
      Touch fwds a w w'
  | op (o : PfOp) : w.deleted = false → o ≠ .delete → Touch fwds a w (w.op o)
  | purge : a = .purge → w.deleted = false → w.pf.state = .failed ∨ w.pf.state = .disconnected →
      Touch fwds a w (w.op .delete)
  | release : a = .released → w.deleted = false → Touch fwds a w (w.op .delete)

/-- The actions that accept a connection. -/
structure Accepts (t : Tunneler) (a : TnAction) (w : Fwd) : Prop where
  reported : ∃ r, t.pc = .accept r ∧ r.listener = true
  answers : ∃ rcAccept rcQuery newOk rcCon, a = .accept rcAccept rcQuery newOk rcCon ∧
    w = (Fwd.accept t.hostname rcAccept rcQuery newOk rcCon).2

theorem forall₂_set {R : Fwd → Fwd → Prop} (hrefl : ∀ w, R w w) : ∀ {fwds : List Fwd} {i : Nat} {w w' : Fwd},
    fwds[i]? = some w → R w w' → List.Forall₂ R fwds (fwds.set i w')
  | [], i, w, w', h, _ => by cases h
  | v :: fwds, 0, w, w', h, ht => by cases h; exact .cons ht (List.forall₂_same.2 fun v _ => hrefl v)
  | v :: fwds, i + 1, w, w', h, ht => .cons (hrefl v) (forall₂_set hrefl h ht)

theorem forall₂_map {R : Fwd → Fwd → Prop} {f : Fwd → Fwd} (hf : ∀ w, R w (f w)) (fwds : List Fwd) :
    List.Forall₂ R fwds (fwds.map f) :=
  List.forall₂_map_right_iff.2 (List.forall₂_same.2 fun w _ => hf w)

theorem forall₂_touch_refl (a : TnAction) (fwds : List Fwd) : List.Forall₂ (Touch fwds a) fwds fwds :=
  List.forall₂_same.2 fun _ _ => .same

/-- The two deletions of an iteration are one. -/
theorem deleteHavingState_twice (p q : PfState → Bool) (fwds : List Fwd) :
    deleteHavingState q (deleteHavingState p fwds) = deleteHavingState (fun s => p s || q s) fwds := by
  unfold deleteHavingState
  rw [List.map_map]
  apply List.map_congr_left
  intro w _
  simp only [Function.comp]
  by_cases hd : w.deleted = false
  · by_cases hp : p w.pf.state = true
    · have hfirst : (if w.deleted = false ∧ p w.pf.state = true then w.op .delete else w) = w.op .delete :=
        if_pos ⟨hd, hp⟩
      rw [hfirst, if_neg (by simp [Fwd.op, Fwd.delete]), if_pos ⟨hd, by simp [hp]⟩]
    · simp [hp]
  · simp [hd]

theorem onFwd_eq (t : Tunneler) (i : Nat) (o : PfOp) : ∃ fwds, t.onFwd i o = { t with fwds := fwds } := by
  unfold Tunneler.onFwd
  split
  · exact ⟨_, rfl⟩
  · split <;> exact ⟨_, rfl⟩

theorem onFwd_touch (t : Tunneler) (i : Nat) (o : PfOp) (ho : o ≠ .delete) (a : TnAction) :
    List.Forall₂ (Touch t.fwds a) t.fwds (t.onFwd i o).fwds := by
  unfold Tunneler.onFwd
  cases hw : t.fwds[i]? with
  | none => exact forall₂_touch_refl a t.fwds
  | some w =>
    simp only
    split
    · exact forall₂_touch_refl a t.fwds
    · rename_i alive
      exact forall₂_set (fun _ => .same) hw (.op o (by simpa using alive) ho)

theorem abortAll_touch (fwds : List Fwd) (a : TnAction) : List.Forall₂ (Touch fwds a) fwds (abortAll fwds).2 := by
  refine forall₂_map (fun w => ?_) fwds
  split
  · exact .same
  · rename_i alive
    exact .op .abortConnected (by simpa using alive) (by simp)

theorem switch_touch (t : Tunneler) (a : TnAction) : List.Forall₂ (Touch t.fwds a) t.fwds t.switch.fwds := by
  unfold Tunneler.switch
  cases t.state with
  | connecting =>
    simp only
    split
    · exact forall₂_touch_refl a t.fwds
    · split <;> exact forall₂_touch_refl a t.fwds
  | running =>
    simp only
    split
    · exact abortAll_touch t.fwds a
    · exact forall₂_touch_refl a t.fwds
  | closing | disconnecting =>
    simp only
    split <;> exact forall₂_touch_refl a t.fwds
  | stopped => exact forall₂_touch_refl a t.fwds

/-- A step leaves each forwarder alone or lets it take one step, or it accepts a connection. -/
theorem step_fwds {t t' : Tunneler} {a : TnAction} (h : tunneler t a = some t') :
    List.Forall₂ (Touch t.fwds a) t.fwds t'.fwds ∨ ∃ w, Accepts t a w ∧ t'.fwds = t.fwds ++ [w] := by
  have same : ∀ {u : Tunneler}, some u = some t' → u.fwds = t.fwds →
      List.Forall₂ (Touch t.fwds a) t.fwds t'.fwds ∨ ∃ w, Accepts t a w ∧ t'.fwds = t.fwds ++ [w] := by
    rintro u ⟨⟩ hu
    rw [hu]
    exact .inl (forall₂_touch_refl a t.fwds)
  cases a with
  | terminate => exact same h rfl
  | lwip i e =>
    simp only [tunneler] at h
    split at h
    · split at h
      · cases h
      · rename_i w hw
        obtain ⟨w', hw', h⟩ := Option.map_eq_some_iff.1 h
        subst h
        exact .inl (forall₂_set (fun _ => .same) hw (.lwip rfl hw hw'))
    · cases h
  | ppp if4Up dead | abortTimeout | disconnectTimeout | select r | selectTimeout | selectError | noSelect
  | timersDone | pppClosed =>
    simp only [tunneler] at h
    split at h
    · exact same h rfl
    · cases h
  | send ok | recv ok =>
    simp only [tunneler] at h
    split at h
    · refine same h ?_
      split <;> rfl
    · cases h
  | accept rcAccept rcQuery newOk rcCon =>
    simp only [tunneler] at h
    split at h
    · rename_i r hpc
      by_cases hl : r.listener = true
      · rw [if_pos hl] at h
        cases h
        exact .inr ⟨_, ⟨⟨r, hpc, hl⟩, _, _, _, _, rfl, rfl⟩, rfl⟩
      · rw [if_neg hl] at h
        exact same h rfl
    · cases h
  | localIo rcv a snd =>
    simp only [tunneler] at h
    split at h
    · split at h
      · cases h
        exact .inl (onFwd_touch t _ _ (by simp) _)
      · exact same h rfl
    · cases h
  | forward sndbuf answers unsent output =>
    simp only [tunneler] at h
    split at h
    · split at h
      · cases h
        exact .inl (onFwd_touch t _ _ (by simp) _)
      · exact same h rfl
    · cases h
  | purge =>
    simp only [tunneler] at h
    split at h
    · cases h
      rw [deleteHavingState_twice]
      refine .inl (forall₂_map (fun w => ?_) t.fwds)
      split
      · rename_i hc
        exact .purge rfl hc.1 (by simpa using hc.2)
      · exact .same
    · cases h
  | switch =>
    simp only [tunneler] at h
    split at h
    · cases h
      exact .inl (switch_touch t _)
    · cases h
  | released =>
    simp only [tunneler] at h
    split at h
    · cases h
      refine .inl (forall₂_map (fun w => ?_) t.fwds)
      split
      · rename_i hc
        exact .release rfl hc.1
      · exact .same
    · cases h

/-- Where the forwarders of the state after a step come from. -/
theorem mem_step {t t' : Tunneler} {a : TnAction} (h : tunneler t a = some t') {w' : Fwd} (hw : w' ∈ t'.fwds) :
    (∃ w ∈ t.fwds, Touch t.fwds a w w') ∨ Accepts t a w' := by
  rcases step_fwds h with htouch | ⟨w, hacc, hfwds⟩
  · obtain ⟨i, hi, rfl⟩ := List.getElem_of_mem hw
    have hi' : i < t.fwds.length := htouch.length_eq ▸ hi
    exact .inl ⟨t.fwds[i], List.getElem_mem hi', htouch.get hi' hi⟩
  · rw [hfwds, List.mem_append, List.mem_singleton] at hw
    rcases hw with hw | rfl
    · exact .inl ⟨w', hw, .same⟩
    · exact .inr hacc

/-! ## The stages of the forwarders -/

/-- A forwarder that has been told to connect and exists is in a stage of its life. -/
def Fwd.Started (w : Fwd) : Prop := w.deleted = false → ∃ s, s ≠ .ready ∧ Phase w s

/-- No edge of the life of a forwarder leads back to its first stage. -/
theorem Stage.Next.ne_ready {s s' : Stage} (h : Stage.Next s s') : s' ≠ .ready := by
  cases h <;> simp

/-- What a step of the tunneler makes of a forwarder that exists. -/
theorem Touch.moves {fwds : List Fwd} {a : TnAction} {w w' : Fwd} {s : Stage} (h : Touch fwds a w w') (alive : w.deleted = false)
    (hp : Phase w s) : w'.deleted = true ∨ w'.deleted = false ∧ Moves s w' := by
  have hlife : ∀ {v : Fwd}, v.life = w.life → v.deleted = false := fun hl => (congrArg Prod.fst hl).trans alive
  cases h with
  | same => exact .inr ⟨alive, .stay hp⟩
  | lwip _ _ hs => exact .inr ⟨hlife (lwip_life alive hs), lwip_phase hp alive hs⟩
  | op o _ ho => exact .inr ⟨hlife (op_life w o ho), op_phase hp o ho⟩
  | purge | release => exact .inl rfl

/-- What a step of the tunneler makes of a forwarder that was deleted. -/
theorem Touch.gone {fwds : List Fwd} {a : TnAction} {w w' : Fwd} (h : Touch fwds a w w') (gone : w.deleted = true) :
    w'.deleted = true := by
  cases h with
  | same => exact gone
  | lwip _ _ hs => exact (lwip_gone gone hs).1
  | op _ alive | purge _ alive | release _ alive => rw [gone] at alive; cases alive

/-- A forwarder that exists after a step existed before, and stayed in its stage or moved to a next one. -/
theorem Touch.alive {fwds : List Fwd} {a : TnAction} {w w' : Fwd} (h : Touch fwds a w w') (hw : w.Started)
    (alive' : w'.deleted = false) :
    w.deleted = false ∧ ∃ s s', s ≠ .ready ∧ Phase w s ∧ Phase w' s' ∧ (s' = s ∨ Stage.Next s s') := by
  cases hdel : w.deleted with
  | true => rw [h.gone hdel] at alive'; cases alive'
  | false =>
    obtain ⟨s, hne, hp⟩ := hw hdel
    rcases h.moves hdel hp with gone | ⟨-, s', hp', hn⟩
    · rw [gone] at alive'; cases alive'
    · exact ⟨rfl, s, s', hne, hp, hp', hn⟩

theorem Touch.started {fwds : List Fwd} {a : TnAction} {w w' : Fwd} (h : Touch fwds a w w') (hw : w.Started) : w'.Started := by
  intro alive'
  obtain ⟨-, s, s', hne, -, hp', rfl | hn⟩ := h.alive hw alive'
  · exact ⟨s', hne, hp'⟩
  · exact ⟨s', hn.ne_ready, hp'⟩

/-- `connect` leaves the first stage. -/
theorem connect_state (hostname : Bytes) (rcAccept : Int) (rcQuery : Err) (newOk : Bool) (rcCon : Err) :
    ((Fwd.new hostname).connect rcAccept rcQuery newOk rcCon).2.pf.state ≠ .ready := by
  unfold Fwd.connect
  rw [if_neg (by simp [Fwd.new])]
  split
  · simp
  simp only
  split
  · split
    · split
      · unfold Fwd.dnsFoundCb
        split
        · simp
        split
        · simp
        split <;> simp
      · simp
    · simp
  · simp

theorem connect_life (w : Fwd) (rcAccept : Int) (rcQuery : Err) (newOk : Bool) (rcCon : Err) :
    (w.connect rcAccept rcQuery newOk rcCon).2.life = w.life := by
  unfold Fwd.connect
  split
  · rfl
  split
  · rfl
  simp only
  split
  · split
    · split
      · exact dnsFoundCb_life ..
      · rfl
    · rfl
  · rfl

/-- A new forwarder exists when it could connect. -/
theorem accept_deleted (hostname : Bytes) (rcAccept : Int) (rcQuery : Err) (newOk : Bool) (rcCon : Err) :
    (Fwd.accept hostname rcAccept rcQuery newOk rcCon).2.deleted =
      !(Fwd.accept hostname rcAccept rcQuery newOk rcCon).1 := by
  have hl := connect_life (Fwd.new hostname) rcAccept rcQuery newOk rcCon
  unfold Fwd.accept
  generalize (Fwd.new hostname).connect rcAccept rcQuery newOk rcCon = r at hl
  obtain ⟨ok, w⟩ := r
  cases ok with
  | true => exact congrArg Prod.fst hl
  | false => rfl

/-- A new forwarder that exists is past the first edge of its life. -/
theorem accept_phase (hostname : Bytes) (rcAccept : Int) (rcQuery : Err) (newOk : Bool) (rcCon : Err)
    (alive : (Fwd.accept hostname rcAccept rcQuery newOk rcCon).2.deleted = false) :
    ∃ s, Stage.Next .ready s ∧ Phase (Fwd.accept hostname rcAccept rcQuery newOk rcCon).2 s := by
  have hp := connect_phase (phase_new hostname) rcAccept rcQuery newOk rcCon
  have hne := connect_state hostname rcAccept rcQuery newOk rcCon
  unfold Fwd.accept at alive ⊢
  generalize (Fwd.new hostname).connect rcAccept rcQuery newOk rcCon = r at hp hne alive
  obtain ⟨ok, w⟩ := r
  cases ok with
  | true =>
    obtain ⟨s, hs, rfl | hn⟩ := hp rfl
    · exact absurd hs.state_eq hne
    · exact ⟨s, hn, hs⟩
  | false => cases alive

theorem accept_started (hostname : Bytes) (rcAccept : Int) (rcQuery : Err) (newOk : Bool) (rcCon : Err) :
    (Fwd.accept hostname rcAccept rcQuery newOk rcCon).2.Started := fun alive => by
  obtain ⟨s, hn, hs⟩ := accept_phase hostname rcAccept rcQuery newOk rcCon alive
  exact ⟨s, hn.ne_ready, hs⟩

/-- Every forwarder of a reachable state has been told to connect. -/
theorem started_step {t t' : Tunneler} {a : TnAction} (hi : ∀ w ∈ t.fwds, w.Started) (h : tunneler t a = some t') :
    ∀ w ∈ t'.fwds, w.Started := by
  intro w' hw'
  rcases mem_step h hw' with ⟨w, hw, ht⟩ | ⟨-, rcAccept, rcQuery, newOk, rcCon, -, rfl⟩
  · exact ht.started (hi w hw)
  · exact accept_started t.hostname rcAccept rcQuery newOk rcCon

/-! ## The flags of the loop -/

/-- What `select` reported, until the new connection is accepted. -/
def Pc.ready : Pc → Option Ready
  | .send r | .recv r | .accept r => some r
  | _ => none

/-- The action finds the tunnel broken. -/
def Tunneler.losesTunnel (t : Tunneler) : TnAction → Bool
  | .send ok =>
    match t.pc with
    | .send r => r.tunnelWrite && !ok
    | _ => false
  | .recv ok =>
    match t.pc with
    | .recv r => r.tunnelRead && t.tunnelConnected && !ok
    | _ => false
  | _ => false

/-- Where the flags of the loop change. -/
structure StepFlags (t : Tunneler) (a : TnAction) (t' : Tunneler) : Prop where
  maxClients : t'.maxClients = t.maxClients
  ready : ∀ r, t'.pc.ready = some r → t.pc.ready = some r ∨ a = .select r ∧ t.pc = .top ∧ t.selectable r = true
  top : t'.pc = .top → t.pc = .top ∧ t'.if4Up = t.if4Up ∨ a = .switch ∨ t.pc = .pppClose
  pppClose : t'.pc = .pppClose → t.pc = .pppClose ∨ a = .switch
  state : t'.state = t.state ∨ a = .switch ∨ t'.state = .stopped ∧ t'.pc = .stopped
  connecting : t'.connecting = t.connecting ∨ a = .switch ∨ t'.connecting = true ∧ t'.pc.ready = none
  tunnel : t'.tunnelConnected = t.tunnelConnected ∨ t.losesTunnel a = true ∨ t'.state = .stopped
  abort : t'.abortTimer = t.abortTimer ∧ t'.abortTimeout = t.abortTimeout ∨ t'.abortTimeout = true ∨ a = .switch ∨
    t'.state = .stopped

theorem switch_pc (t : Tunneler) : t.switch.pc = .top ∨ t.switch.pc = .pppClose ∨ t.switch.pc = .release := by
  unfold Tunneler.switch
  cases t.state with
  | connecting =>
    simp only
    split
    · exact .inl rfl
    · split <;> exact .inl rfl
  | running =>
    simp only
    split <;> exact .inl rfl
  | closing =>
    simp only
    split
    · exact .inr (.inl rfl)
    · exact .inl rfl
  | disconnecting =>
    simp only
    split
    · exact .inr (.inr rfl)
    · exact .inl rfl
  | stopped => exact .inl rfl

theorem switch_frame (t : Tunneler) :
    t.switch.maxClients = t.maxClients ∧ t.switch.tunnelConnected = t.tunnelConnected := by
  unfold Tunneler.switch
  cases t.state with
  | connecting =>
    simp only
    split
    · exact ⟨rfl, rfl⟩
    · split <;> exact ⟨rfl, rfl⟩
  | running | closing | disconnecting =>
    simp only
    split <;> exact ⟨rfl, rfl⟩
  | stopped => exact ⟨rfl, rfl⟩

theorem switch_enabled {t t' : Tunneler} (h : tunneler t .switch = some t') : t.pc = .switch ∧ t' = t.switch := by
  simp only [tunneler] at h
  split at h
  · rename_i hpc
    cases h
    exact ⟨hpc, rfl⟩
  · cases h

/-- An action that changes none of these flags and goes to a place between the accept and the switch. -/
theorem StepFlags.pass {t t' : Tunneler} {a : TnAction} (hm : t'.maxClients = t.maxClients) (hs : t'.state = t.state)
    (hc : t'.connecting = t.connecting) (ht : t'.tunnelConnected = t.tunnelConnected)
    (ha : t'.abortTimer = t.abortTimer ∧ t'.abortTimeout = t.abortTimeout)
    (hr : t'.pc.ready = none) (htop : t'.pc ≠ .top) (hp : t'.pc ≠ .pppClose) : StepFlags t a t' :=
  ⟨hm, fun r h => absurd (hr.symm.trans h) (by simp), fun h => absurd h htop, fun h => absurd h hp, .inl hs, .inl hc, .inl ht,
    .inl ha⟩

theorem step_flags {t t' : Tunneler} {a : TnAction} (h : tunneler t a = some t') : StepFlags t a t' := by
  -- an action after which the loop is where it was
  have stay : ∀ {u : Tunneler}, some u = some t' → u.pc = t.pc → u.maxClients = t.maxClients → u.state = t.state →
      u.connecting = t.connecting → u.tunnelConnected = t.tunnelConnected →
      (u.if4Up = t.if4Up ∨ t.pc ≠ .top) →
      (u.abortTimer = t.abortTimer ∧ u.abortTimeout = t.abortTimeout ∨ u.abortTimeout = true) → StepFlags t a t' := by
    rintro u ⟨⟩ hpc hm hs hc ht hup ha
    exact ⟨hm, fun r hr => .inl (hpc ▸ hr), fun htop => .inl ⟨hpc ▸ htop, hup.resolve_right fun h => h (hpc ▸ htop)⟩,
      fun h => .inl (hpc ▸ h), .inl hs, .inl hc, .inl ht, ha.imp id .inl⟩
  have lwip_top : t.inLwip = true → t.pc ≠ .top := by
    intro hin htop
    rw [Tunneler.inLwip, htop] at hin
    cases hin
  cases a with
  | terminate => exact stay h rfl rfl rfl rfl rfl (.inl rfl) (.inl ⟨rfl, rfl⟩)
  | lwip i e =>
    simp only [tunneler] at h
    split at h
    · split at h
      · cases h
      · obtain ⟨w', -, h⟩ := Option.map_eq_some_iff.1 h
        exact stay (congrArg some h) rfl rfl rfl rfl rfl (.inl rfl) (.inl ⟨rfl, rfl⟩)
    · cases h
  | ppp if4Up dead =>
    simp only [tunneler] at h
    split at h
    · rename_i hin
      exact stay h rfl rfl rfl rfl rfl (.inr (lwip_top hin)) (.inl ⟨rfl, rfl⟩)
    · cases h
  | abortTimeout =>
    simp only [tunneler] at h
    split at h
    · exact stay h rfl rfl rfl rfl rfl (.inl rfl) (.inr rfl)
    · cases h
  | disconnectTimeout =>
    simp only [tunneler] at h
    split at h
    · exact stay h rfl rfl rfl rfl rfl (.inl rfl) (.inl ⟨rfl, rfl⟩)
    · cases h
  | select r =>
    simp only [tunneler] at h
    split at h
    · rename_i hc
      cases h
      refine ⟨rfl, ?_, by simp, by simp, .inl rfl, .inl rfl, .inl rfl, .inl ⟨rfl, rfl⟩⟩
      rintro _ ⟨⟩
      exact .inr ⟨rfl, hc.1, hc.2.2⟩
    · cases h
  | selectTimeout | selectError | noSelect | timersDone | purge =>
    simp only [tunneler] at h
    split at h
    · cases h
      exact .pass rfl rfl rfl rfl ⟨rfl, rfl⟩ rfl (by simp) (by simp)
    · cases h
  | pppClosed =>
    simp only [tunneler] at h
    split at h
    · rename_i hpc
      cases h
      exact ⟨rfl, fun r hr => (by cases hr), fun _ => .inr (.inr hpc), fun h => (by cases h), .inl rfl, .inl rfl,
        .inl rfl, .inl ⟨rfl, rfl⟩⟩
    · cases h
  | send ok | recv ok =>
    simp only [tunneler] at h
    split at h
    · rename_i r hpc
      cases h
      have hready : ∀ q, some r = some q → t.pc.ready = some q := by
        rintro q ⟨⟩
        rw [hpc]
        rfl
      split
      · rename_i hlost
        refine ⟨rfl, fun q hq => .inl (hready q hq), by simp, by simp, .inl rfl, .inl rfl, .inr (.inl ?_), .inl ⟨rfl, rfl⟩⟩
        simp [Tunneler.losesTunnel, hpc, hlost]
      · exact ⟨rfl, fun q hq => .inl (hready q hq), by simp, by simp, .inl rfl, .inl rfl, .inl rfl, .inl ⟨rfl, rfl⟩⟩
    · cases h
  | accept rcAccept rcQuery newOk rcCon =>
    simp only [tunneler] at h
    split at h
    · rename_i r hpc
      cases h
      split
      · refine ⟨rfl, by simp [Pc.ready], by simp, by simp, .inl rfl, ?_, .inl rfl, .inl ⟨rfl, rfl⟩⟩
        cases hok : (Fwd.accept t.hostname rcAccept rcQuery newOk rcCon).1 with
        | true => exact .inr (.inr ⟨by simp [Tunneler.acceptConnection, hok], rfl⟩)
        | false => exact .inl (by simp [Tunneler.acceptConnection, hok])
      · exact .pass rfl rfl rfl rfl ⟨rfl, rfl⟩ rfl (by simp) (by simp)
    · cases h
  | localIo rcv a snd =>
    simp only [tunneler] at h
    split at h
    · split at h
      · cases h
        obtain ⟨l, hl⟩ := onFwd_eq t _ (.localIo _ _ rcv a snd)
        rw [hl]
        exact .pass rfl rfl rfl rfl ⟨rfl, rfl⟩ rfl (by simp) (by simp)
      · cases h
        exact .pass rfl rfl rfl rfl ⟨rfl, rfl⟩ rfl (by simp) (by simp)
    · cases h
  | forward sndbuf answers unsent output =>
    simp only [tunneler] at h
    split at h
    · split at h
      · cases h
        obtain ⟨l, hl⟩ := onFwd_eq t _ (.forwardPass sndbuf answers unsent output)
        rw [hl]
        exact .pass rfl rfl rfl rfl ⟨rfl, rfl⟩ rfl (by simp) (by simp)
      · cases h
        exact .pass rfl rfl rfl rfl ⟨rfl, rfl⟩ rfl (by simp) (by simp)
    · cases h
  | switch =>
    simp only [tunneler] at h
    split at h
    · cases h
      refine ⟨(switch_frame t).1, fun r hr => ?_, fun _ => .inr (.inl rfl), fun _ => .inr rfl, .inr (.inl rfl),
        .inr (.inl rfl), .inl (switch_frame t).2, .inr (.inr (.inl rfl))⟩
      rcases switch_pc t with hpc | hpc | hpc <;> rw [hpc] at hr <;> cases hr
    · cases h
  | released =>
    simp only [tunneler] at h
    split at h
    · cases h
      exact ⟨rfl, fun r hr => (by cases hr), fun h => (by cases h), fun h => (by cases h), .inr (.inr ⟨rfl, rfl⟩),
        .inl rfl, .inr (.inr rfl), .inr (.inr (.inr rfl))⟩
    · cases h

/-! ## Two pieces of a run -/

/-- The first pass of the loop, in which the PPP interface comes up. -/
def comeUp : List TnAction :=
  [.selectTimeout, .forward 0 [] false .errOk, .ppp true false, .timersDone, .purge, .switch]

/-- A connection on the listener and nothing else. -/
def newClient : Ready := { tunnelWrite := false, tunnelRead := false, listener := true, pfRead := [], pfWrite := [] }

/-- A pass of the loop up to the accept of a connection whose name is resolved at once. -/
def takeClient : List TnAction := [.select newClient, .send true, .recv true, .accept 0 .errOk true .errOk]

end FortiRdp.Net
