/-
What the handshake of the controller guarantees. The ready event is set once in each pass of the loop, but
a pass that was woken by the end of the monitored task consumes no request. `SyncWaitTask` counts on that:
its message makes the UI thread request an action while the controller is blocked, and only a ready event
left over can let the request through. The same event left over lets a second request overwrite the first.
-/
import FortiRdp.Ui.AsyncController

namespace FortiRdp.Ui

open FortiRdp.Run

namespace AsyncController

variable {s t : AsyncController} {a : HandshakeAction}

/-! ## Frame -/

/-- A public method changes neither the events, nor the action, nor the controller thread. -/
theorem called_frame (s : AsyncController) (c : UiCall) :
    (s.called c).readyEvent = s.readyEvent ∧ (s.called c).requestEvent = s.requestEvent ∧
      (s.called c).ctl = s.ctl ∧ (s.called c).handling = s.handling ∧ (s.called c).action = s.action ∧
      (s.called c).requested = s.requested ∧ (s.called c).dispatched = s.dispatched := by
  cases c with
  | connect | disconnect | terminate => exact ⟨rfl, rfl, rfl, rfl, rfl, rfl, rfl⟩
  | createTunnel =>
    simp only [called, createTunnel]
    split <;> exact ⟨rfl, rfl, rfl, rfl, rfl, rfl, rfl⟩
  | startTask started monitor =>
    simp only [called, startTask]
    split
    · cases started <;> cases monitor <;> exact ⟨rfl, rfl, rfl, rfl, rfl, rfl, rfl⟩
    · exact ⟨rfl, rfl, rfl, rfl, rfl, rfl, rfl⟩

/-- A call that entered `request_action` is before the wait for the ready event. -/
theorem called_call (hs : s.call = none) (c : UiCall) :
    (s.called c).call = none ∨ ∃ a, (s.called c).call = some (a, .waitReady) := by
  cases c with
  | connect | disconnect | terminate => exact .inr ⟨_, rfl⟩
  | createTunnel =>
    simp only [called, createTunnel]
    split
    · exact .inr ⟨_, rfl⟩
    · exact .inl hs
  | startTask started monitor =>
    simp only [called, startTask]
    split
    · cases started <;> cases monitor
      · exact .inl hs
      · exact .inl hs
      · exact .inl hs
      · exact .inr ⟨_, rfl⟩
    · exact .inl hs

/-- The switch moves the controller thread only. -/
theorem switch_frame (s : AsyncController) :
    s.switch.readyEvent = s.readyEvent ∧ s.switch.requestEvent = s.requestEvent ∧ s.switch.call = s.call ∧
      s.switch.handling = s.handling ∧ s.switch.action = s.action ∧ s.switch.requested = s.requested ∧
      s.switch.dispatched = s.dispatched := by
  unfold switch
  split
  case h_1 | h_2 | h_3 => split <;> exact ⟨rfl, rfl, rfl, rfl, rfl, rfl, rfl⟩
  case h_4 | h_5 | h_6 => exact ⟨rfl, rfl, rfl, rfl, rfl, rfl, rfl⟩

/-- After the switch a procedure runs, the pass is over or the thread has ended. -/
theorem switch_ctl (s : AsyncController) :
    s.switch.ctl = .top ∨ s.switch.ctl = .ended ∨ ∃ p, s.switch.ctl = .running p := by
  unfold switch
  split
  case h_1 | h_2 | h_3 =>
    split
    · exact .inr (.inr ⟨_, rfl⟩)
    · exact .inl rfl
  case h_4 | h_6 => exact .inl rfl
  case h_5 => exact .inr (.inl rfl)

/-- The UI thread is at the place `pc` of a call. -/
theorem call_of_any {pc : CallPc} (h : s.call.any (·.2 == pc) = true) : ∃ a, s.call = some (a, pc) := by
  obtain ⟨⟨a, pc'⟩, hcall, hpc⟩ := Option.any_eq_true _ _ |>.1 h
  exact ⟨a, by rw [hcall, ← beq_iff_eq.1 hpc]⟩

/-- A message that is being handled keeps the controller thread in `SendMessage`. -/
def Handled (s : AsyncController) : Prop := ∀ m, s.handling = some m → s.ctl = .sending m

/-- Only a controller blocked in `SendMessage` has a message that is being handled. -/
theorem Handled.eq_none (h : Handled s) (hs : ∀ m, s.ctl ≠ .sending m) : s.handling = none := by
  cases hh : s.handling with
  | none => rfl
  | some m => exact absurd (h m hh) (hs m)

theorem handled_of_none (h : s.handling = none) : Handled s := fun m hm => by rw [h] at hm; cases hm

theorem handled_step (hi : Handled s) (h : handshake s a = some t) : Handled t := by
  obtain ⟨he, rfl⟩ := guarded_some h
  cases a with
  | call c =>
    obtain ⟨-, -, hctl, hhand, -⟩ := called_frame s c
    intro m hm
    exact hctl.trans (hi m (hhand.symm.trans hm))
  | takeReady | setRequest | processEnds => exact hi
  | store =>
    obtain ⟨x, hcall⟩ := call_of_any he
    simp only [next, hcall]
    exact hi
  | receive =>
    simp only [enabled, Bool.and_eq_true, Bool.or_eq_true, beq_iff_eq] at he
    rcases he.2 with hctl | hctl <;>
      simp only [next, hctl, onMessage, disconnect, requestAction] <;>
      exact fun m hm => by cases hm; rfl
  | reply =>
    simp only [enabled, Bool.and_eq_true, Option.isSome_iff_exists] at he
    obtain ⟨-, m, hm⟩ := he
    cases m <;> simp only [next, onReply, hm] <;> exact handled_of_none rfl
  | dispatch =>
    have hctl : s.ctl = .woken := by simpa [enabled] using he
    obtain ⟨-, -, -, hhand, -⟩ := switch_frame { s with dispatched := s.dispatched ++ [s.action] }
    exact handled_of_none (hhand.trans (hi.eq_none (by simp [hctl])))
  | setReady | wakeRequest | wakeTask | wakeFailed | ask | finish | taskWaited =>
    refine handled_of_none (hi.eq_none fun m hm => ?_)
    simp [enabled, hm] at he

/-! ## Waiting for each other -/

/-- The UI thread is in `_readyEvent.wait()` inside `request_action`, and the event is not set. -/
def uiBlocked (s : AsyncController) : Bool := s.call.any (·.2 == .waitReady) && !s.readyEvent

/-- The controller thread is in `SendMessage`. -/
def ctlSending (s : AsyncController) : Bool := s.ctl == .sending .dialog || s.ctl == .sending .disconnectFromFirewall

/-- Each thread waits for the other. -/
def Deadlock (s : AsyncController) : Prop := s.uiBlocked ∧ s.ctlSending

instance (s : AsyncController) : Decidable s.Deadlock := inferInstanceAs (Decidable (_ ∧ _))

/-- From the end of the task that wakes the controller to the reply of the UI thread, and likewise from
the request of a dialog to its answer, the UI thread makes no call of `request_action` of its own. -/
def uiFree (s : AsyncController) : HandshakeAction → Bool
  | .wakeTask | .ask => s.call.isNone
  | .call c => (s.called c).call.isNone || (s.ctl != .waitTask && !s.ctlSending)
  | _ => true

/-- While the controller waits, a ready event is set or on its way to a request; while it is blocked in
the request of `SyncWaitTask`, the ready event is there for the call of the handler. -/
structure Answerable (s : AsyncController) : Prop where
  waiting : s.ctl = .waiting → s.readyEvent = true ∨ s.requestEvent = true ∨ s.call.isSome = true
  entered : s.ctl = .waiting → ∀ a, s.call = some (a, .waitReady) → s.readyEvent = true ∨ s.requestEvent = true
  waitTask : s.ctl = .waitTask → s.call = none ∧ s.readyEvent = true
  dialog : s.ctl = .sending .dialog → s.call = none
  request : s.ctl = .sending .disconnectFromFirewall → s.handling = none → s.call = none ∧ s.readyEvent = true
  handler : s.ctl = .sending .disconnectFromFirewall → ∀ a, s.call = some (a, .waitReady) → s.readyEvent = true
  handled : Handled s

theorem answerable_init : Answerable .init :=
  ⟨nofun, nofun, nofun, nofun, nofun, nofun, handled_of_none rfl⟩

/-- The controller thread waits for nothing but a processor. -/
def quiet : CtlPc → Bool
  | .top | .woken | .running _ | .ended => true
  | .waiting | .waitTask | .sending _ => false

theorem Answerable.of_quiet (hq : quiet s.ctl = true) (hand : Handled s) : Answerable s := by
  refine ⟨fun hw => ?_, fun hw => ?_, fun hw => ?_, fun hw => ?_, fun hw => ?_, fun hw => ?_, hand⟩
  all_goals rw [hw] at hq; cases hq

/-- Inside a call, past the ready event. -/
theorem Answerable.of_call {x y : ControllerAction} {pc : CallPc} (pc' : CallPc) (h : Answerable s) (hand : Handled t)
    (hcall : s.call = some (x, pc)) (hctl : t.ctl = s.ctl) (hhand : t.handling = s.handling)
    (hcall' : t.call = some (y, pc')) (hpc : pc' ≠ .waitReady) : Answerable t := by
  have entered : ∀ b, t.call ≠ some (b, .waitReady) := by
    intro b hb
    rw [hcall'] at hb
    cases hb
    exact hpc rfl
  refine ⟨fun _ => .inr (.inr ?_), fun _ b hb => absurd hb (entered b), fun hw => ?_, fun hw => ?_, fun hw hh => ?_,
    fun _ b hb => absurd hb (entered b), hand⟩
  · rw [hcall']; rfl
  · rw [(h.waitTask (hctl ▸ hw)).1] at hcall; cases hcall
  · rw [h.dialog (hctl ▸ hw)] at hcall; cases hcall
  · rw [(h.request (hctl ▸ hw) (hhand ▸ hh)).1] at hcall; cases hcall

theorem Answerable.not_deadlock (h : Answerable s) : ¬ s.Deadlock := by
  rintro ⟨hui, hctl⟩
  simp only [uiBlocked, Bool.and_eq_true, Bool.not_eq_true'] at hui
  obtain ⟨a, hcall⟩ := call_of_any hui.1
  have hready := hui.2
  simp only [ctlSending, Bool.or_eq_true, beq_iff_eq] at hctl
  rcases hctl with hctl | hctl
  · rw [h.dialog hctl] at hcall
    cases hcall
  · rw [h.handler hctl a hcall] at hready
    cases hready

theorem answerable_step (s : AsyncController) (a : HandshakeAction) (t : AsyncController) (hi : Answerable s)
    (hc : s.uiFree a) (h : handshake s a = some t) : Answerable t := by
  have hand := handled_step hi.handled h
  obtain ⟨he, rfl⟩ := guarded_some h
  cases a with
  | call c =>
    simp only [enabled, Bool.and_eq_true, Option.isNone_iff_eq_none] at he
    obtain ⟨hready, hrequest, hctl, hhand, -⟩ := called_frame s c
    have waiting : s.ctl = .waiting → s.readyEvent = true ∨ s.requestEvent = true := by
      intro hw
      rcases hi.waiting hw with hr | hr | hr
      · exact .inl hr
      · exact .inr hr
      · rw [he.1] at hr; cases hr
    simp only [uiFree, ctlSending, Bool.or_eq_true, Bool.and_eq_true, bne_iff_ne, ne_eq, Bool.not_eq_true',
      Option.isNone_iff_eq_none, Bool.or_eq_false_iff, beq_eq_false_iff_ne] at hc
    rcases hc with hc | hc
    · refine ⟨fun hw => ?_, fun _ b hb => absurd (hc.symm.trans hb) nofun, fun hw => ⟨hc, ?_⟩, fun _ => hc,
        fun hw hh => ⟨hc, ?_⟩, fun _ b hb => absurd (hc.symm.trans hb) nofun, hand⟩
      · rw [next, hready, hrequest]
        exact (waiting (hctl ▸ hw)).imp_right .inl
      · exact hready.trans (hi.waitTask (hctl ▸ hw)).2
      · exact hready.trans (hi.request (hctl ▸ hw) (hhand ▸ hh)).2
    · refine ⟨?_, ?_, ?_, ?_, ?_, ?_, hand⟩
      all_goals simp only [next, hready, hrequest, hctl, hhand]
      · exact fun hw => (waiting hw).imp_right .inl
      · exact fun hw _ _ => waiting hw
      · exact fun hw => absurd hw hc.1
      · exact fun hw => absurd hw hc.2.1
      · exact fun hw => absurd hw hc.2.2
      · exact fun hw => absurd hw hc.2.2
  | takeReady =>
    simp only [enabled, Bool.and_eq_true] at he
    obtain ⟨x, hcall⟩ := call_of_any he.2
    refine .of_call (y := x) .gotReady hi hand hcall rfl rfl ?_ ?_ <;> simp [next, hcall]
  | store =>
    obtain ⟨x, hcall⟩ := call_of_any he
    refine .of_call (y := x) .stored hi hand hcall ?_ ?_ ?_ ?_ <;> simp [next, hcall]
  | setRequest =>
    obtain ⟨x, hcall⟩ := call_of_any he
    refine ⟨fun _ => .inr (.inl rfl), fun _ _ _ => .inr rfl, fun hw => ?_, fun _ => rfl, fun hw hh => ?_, nofun,
      hand⟩
    · rw [(hi.waitTask hw).1] at hcall; cases hcall
    · rw [(hi.request hw hh).1] at hcall; cases hcall
  | receive =>
    simp only [enabled, Bool.and_eq_true, Option.isNone_iff_eq_none, Bool.or_eq_true, beq_iff_eq] at he
    obtain ⟨⟨hcall, hhand⟩, hctl | hctl⟩ := he
    · simp only [next, hctl, onMessage] at hand ⊢
      exact ⟨nofun, nofun, nofun, fun _ => hcall, nofun, nofun, hand⟩
    · have hready := (hi.request hctl hhand).2
      simp only [next, hctl, onMessage, disconnect, requestAction] at hand ⊢
      exact ⟨nofun, nofun, nofun, nofun, nofun, fun _ _ _ => hready, hand⟩
  | reply =>
    simp only [enabled, Bool.and_eq_true, Option.isSome_iff_exists] at he
    obtain ⟨-, m, hm⟩ := he
    cases m <;> simp only [next, onReply, hm] at hand ⊢ <;> exact .of_quiet rfl hand
  | processEnds p => exact ⟨hi.waiting, hi.entered, hi.waitTask, hi.dialog, hi.request, hi.handler, hand⟩
  | setReady =>
    have hctl : s.ctl = .top := by simpa [enabled] using he
    exact ⟨fun _ => .inl rfl, fun _ _ _ => .inl rfl, nofun, nofun, nofun, nofun, hand⟩
  | wakeRequest =>
    have hctl : s.ctl = .waiting := by simp [enabled] at he; exact he.1
    exact .of_quiet rfl hand
  | wakeTask =>
    simp only [enabled, uiFree, Bool.and_eq_true, beq_iff_eq, Bool.not_eq_true', Option.isNone_iff_eq_none] at he hc
    obtain ⟨⟨⟨hctl, hrequest⟩, -⟩, -⟩ := he
    have hready : s.readyEvent = true := by
      rcases hi.waiting hctl with hr | hr | hr
      · exact hr
      · rw [hrequest] at hr; cases hr
      · rw [hc] at hr; cases hr
    exact ⟨nofun, nofun, fun _ => ⟨hc, hready⟩, nofun, nofun, nofun, hand⟩
  | wakeFailed =>
    have hctl : s.ctl = .waiting := by simp [enabled] at he; exact he.1.1
    exact .of_quiet rfl hand
  | dispatch =>
    have hctl : s.ctl = .woken := by simpa [enabled] using he
    refine .of_quiet ?_ hand
    rcases switch_ctl { s with dispatched := s.dispatched ++ [s.action] } with h' | h' | ⟨p, h'⟩ <;>
      simp only [next, h', quiet]
  | ask =>
    have hctl : s.ctl = .running .connect := by simpa [enabled] using he
    have hcall : s.call = none := by simpa [uiFree] using hc
    exact ⟨nofun, nofun, nofun, fun _ => hcall, nofun, nofun, hand⟩
  | finish ok =>
    have hctl : ∃ p, s.ctl = .running p := by
      simp only [enabled, Bool.or_eq_true, beq_iff_eq] at he
      rcases he with (he | he) | he <;> exact ⟨_, he⟩
    obtain ⟨p, hctl⟩ := hctl
    refine .of_quiet ?_ hand
    cases ok <;> rfl
  | taskWaited =>
    have hctl : s.ctl = .waitTask := by simpa [enabled] using he
    obtain ⟨hcall, hready⟩ := hi.waitTask hctl
    exact ⟨nofun, nofun, nofun, nofun, fun _ _ => ⟨hcall, hready⟩, fun _ _ _ => hready, hand⟩

/-- A call of `request_action` from its start to its return. -/
def requesting (c : UiCall) : List HandshakeAction := [.call c, .takeReady, .store, .setRequest]

/-- The user is connected, the tunnel is open and the controller monitors the task. -/
def monitoringRun : List HandshakeAction :=
  [.setReady] ++ requesting .connect ++ [.wakeRequest, .dispatch, .finish true, .setReady] ++
    requesting .createTunnel ++ [.wakeRequest, .dispatch, .finish true, .setReady] ++
    requesting (.startTask true true) ++ [.wakeRequest, .dispatch, .setReady]

/-- The threads never wait for each other in a run where the UI thread keeps out of `request_action` while
the controller is on its way to a sent message. -/
theorem threads_never_deadlock {as : List HandshakeAction} (hrun : exec handshake .init as = some t)
    (hfree : Meets handshake (fun s a => s.uiFree a = true) .init as) : ¬ t.Deadlock :=
  (exec_inv_of_meets answerable_step answerable_init hfree hrun).not_deadlock

/-- The task ends, and the request of `SyncWaitTask` is handled. -/
def taskEndRun : List HandshakeAction :=
  monitoringRun ++ [.processEnds 0, .wakeTask, .taskWaited, .receive, .takeReady, .store, .setRequest, .reply,
    .setReady, .wakeRequest, .dispatch, .finish true]

theorem threads_never_deadlock_taskEnd :
    ∃ t, exec handshake .init taskEndRun = some t ∧ t.dispatched = [.connect, .tunnel, .monitorTask, .disconnect] ∧
      ¬ t.Deadlock := by
  obtain ⟨t, h⟩ : ∃ t, exec handshake .init taskEndRun = some t := ⟨_, rfl⟩
  have hfree : Meets handshake (fun s a => s.uiFree a = true) .init taskEndRun := by decide +kernel
  have hdead := threads_never_deadlock h hfree
  cases h
  exact ⟨_, rfl, rfl, hdead⟩

/-- The task ends, and the user disconnects before the message of `SyncWaitTask` is received. -/
def clickRun : List HandshakeAction :=
  monitoringRun ++ [.processEnds 0, .wakeTask] ++ requesting .disconnect ++ [.taskWaited, .receive]

theorem threads_deadlock : ∃ t, exec handshake .init clickRun = some t ∧ t.Deadlock :=
  ⟨_, rfl, by decide +kernel⟩

/-! ## Each action once -/

/-- The UI thread is between the store of `_action` and `_requestEvent.set()`. -/
def storing (s : AsyncController) : Bool := s.call.any (·.2 == .stored)

/-- The action that is stored and not yet dispatched. -/
def pending (s : AsyncController) : List ControllerAction :=
  if s.requestEvent || s.ctl == .woken || s.storing then [s.action] else []

/-- The actions requested are the ones dispatched, in the same order, and then the one that is pending. -/
def ExactlyOnce (s : AsyncController) : Prop := s.requested = s.dispatched ++ s.pending

instance (s : AsyncController) : Decidable s.ExactlyOnce := inferInstanceAs (Decidable (_ = _))

/-- `request_action` stores its action when the request event is not set and the controller is not between
its wake-up by that event and its read of `_action`. -/
def storesAlone (s : AsyncController) : HandshakeAction → Bool
  | .store => !s.requestEvent && s.ctl != .woken
  | _ => true

/-- At most one of the three places of a request is taken: stored, signalled, being dispatched. -/
structure Alone (s : AsyncController) : Prop where
  handled : Handled s
  storing : s.storing = true → s.requestEvent = false ∧ s.ctl ≠ .woken
  woken : s.ctl = .woken → s.requestEvent = false
  exactly : s.ExactlyOnce

theorem alone_init : Alone .init := ⟨handled_of_none rfl, nofun, nofun, rfl⟩

/-- A step that leaves the request where it is. -/
theorem Alone.frame (h : Alone s) (hand : Handled t) (hreq : t.requestEvent = s.requestEvent) (hact : t.action = s.action)
    (hrqd : t.requested = s.requested) (hdis : t.dispatched = s.dispatched) (hsto : t.storing = s.storing)
    (hctl : t.ctl = .woken ↔ s.ctl = .woken) : Alone t := by
  refine ⟨hand, fun ht => ?_, fun ht => ?_, ?_⟩
  · obtain ⟨hr, hw⟩ := h.storing (hsto ▸ ht)
    exact ⟨hreq ▸ hr, fun hw' => hw (hctl.1 hw')⟩
  · exact hreq ▸ h.woken (hctl.1 ht)
  · have hpend : t.pending = s.pending := by
      have hbeq : (t.ctl == .woken) = (s.ctl == .woken) := by rw [Bool.eq_iff_iff, beq_iff_eq, beq_iff_eq, hctl]
      simp only [pending, hreq, hact, hsto, hbeq]
    unfold ExactlyOnce
    rw [hrqd, hdis, hpend]
    exact h.exactly

theorem alone_step (s : AsyncController) (a : HandshakeAction) (t : AsyncController) (hi : Alone s)
    (hc : s.storesAlone a) (h : handshake s a = some t) : Alone t := by
  have hand := handled_step hi.handled h
  obtain ⟨he, rfl⟩ := guarded_some h
  cases a with
  | call c =>
    simp only [enabled, Bool.and_eq_true, Option.isNone_iff_eq_none] at he
    obtain ⟨-, hreq, hctl, -, hact, hrqd, hdis⟩ := called_frame s c
    refine hi.frame hand hreq hact hrqd hdis ?_ (by simp only [next, hctl])
    simp only [next, storing, he.1]
    rcases called_call he.1 c with hc | ⟨x, hc⟩ <;> simp [hc]
  | takeReady =>
    simp only [enabled, Bool.and_eq_true] at he
    obtain ⟨x, hcall⟩ := call_of_any he.2
    refine hi.frame hand rfl rfl rfl rfl ?_ .rfl
    simp only [next, storing, hcall]
    rfl
  | store =>
    obtain ⟨x, hcall⟩ := call_of_any he
    simp only [storesAlone, Bool.and_eq_true, Bool.not_eq_true', bne_iff_ne, ne_eq] at hc
    have hpend : s.pending = [] := by simp [pending, storing, hc.1, hc.2, hcall]
    have hexact := hi.exactly
    simp only [ExactlyOnce, hpend, List.append_nil] at hexact
    simp only [next, hcall] at hand ⊢
    refine ⟨hand, fun _ => hc, fun _ => hc.1, ?_⟩
    simp [ExactlyOnce, pending, storing, hexact]
  | setRequest =>
    have hsto : s.storing = true := he
    obtain ⟨hreq, hctl⟩ := hi.storing hsto
    have hexact := hi.exactly
    simp only [ExactlyOnce, pending, hsto, Bool.or_true, if_true] at hexact
    refine ⟨hand, nofun, fun hw => absurd hw hctl, ?_⟩
    simpa [next, ExactlyOnce, pending] using hexact
  | wakeRequest =>
    simp only [enabled, Bool.and_eq_true, beq_iff_eq] at he
    have hsto : s.storing = false := by
      cases hs : s.storing with
      | false => rfl
      | true => rw [(hi.storing hs).1] at he; cases he.2
    have hexact := hi.exactly
    simp only [ExactlyOnce, pending, he.2, Bool.true_or, if_true] at hexact
    refine ⟨hand, fun hs => ?_, fun _ => rfl, ?_⟩
    · exact absurd hs (by simpa [next, storing] using hsto)
    · simpa [next, ExactlyOnce, pending] using hexact
  | dispatch =>
    have hctl : s.ctl = .woken := by simpa [enabled] using he
    have hreq := hi.woken hctl
    have hsto : s.storing = false := by
      cases hs : s.storing with
      | false => rfl
      | true => exact absurd hctl (hi.storing hs).2
    have hexact := hi.exactly
    simp only [ExactlyOnce, pending, hctl, beq_self_eq_true, Bool.or_true, Bool.true_or, if_true] at hexact
    obtain ⟨-, hreq', hcall', -, -, hrqd, hdis⟩ := switch_frame { s with dispatched := s.dispatched ++ [s.action] }
    have hctl' := switch_ctl { s with dispatched := s.dispatched ++ [s.action] }
    have hsto' : (next s .dispatch).storing = false := by simpa only [next, storing, hcall'] using hsto
    have hwok : (next s .dispatch).ctl ≠ .woken := by
      simp only [next]
      rcases hctl' with h' | h' | ⟨p, h'⟩ <;> rw [h'] <;> nofun
    refine ⟨hand, fun hs => ?_, fun hw => absurd hw hwok, ?_⟩
    · rw [hsto'] at hs; cases hs
    · have hpend : (next s .dispatch).pending = [] := by
        have hreq'' : (next s .dispatch).requestEvent = false := hreq'.trans hreq
        simp only [pending, hsto', hreq'', beq_eq_false_iff_ne.2 hwok]
        rfl
      rw [ExactlyOnce, hpend, List.append_nil]
      exact hrqd.trans (hexact.trans hdis.symm)
  | receive =>
    simp only [enabled, Bool.and_eq_true, Option.isNone_iff_eq_none, Bool.or_eq_true, beq_iff_eq] at he
    obtain ⟨⟨hcall, hhand⟩, hctl | hctl⟩ := he
    all_goals
      simp only [next, hctl, onMessage] at hand ⊢
      refine hi.frame hand rfl rfl rfl rfl ?_ ?_
      · simp [storing, hcall, disconnect, requestAction]
      · simp [hctl, disconnect, requestAction]
  | reply =>
    simp only [enabled, Bool.and_eq_true, Option.isSome_iff_exists] at he
    obtain ⟨-, m, hm⟩ := he
    have hctl := hi.handled m hm
    cases m <;> simp only [next, onReply, hm] at hand ⊢ <;>
      exact hi.frame hand rfl rfl rfl rfl rfl (by simp [hctl])
  | processEnds p => exact hi.frame hand rfl rfl rfl rfl rfl .rfl
  | setReady =>
    have hctl : s.ctl = .top := by simpa [enabled] using he
    exact hi.frame hand rfl rfl rfl rfl rfl (by simp [next, hctl])
  | wakeTask | wakeFailed =>
    simp only [enabled, Bool.and_eq_true, beq_iff_eq] at he
    exact hi.frame hand rfl rfl rfl rfl rfl (by simp [next, he])
  | ask | taskWaited =>
    simp only [enabled, beq_iff_eq] at he
    exact hi.frame hand rfl rfl rfl rfl rfl (by simp [next, he])
  | finish ok =>
    simp only [enabled, Bool.or_eq_true, beq_iff_eq] at he
    refine hi.frame hand rfl rfl rfl rfl rfl ?_
    rcases he with (he | he) | he <;> cases ok <;> simp [next, he]

/-- A store over a request that is not dispatched loses it. -/
theorem Alone.storesAlone (hi : Alone s) (h : handshake s a = some t) (ht : t.ExactlyOnce) : s.storesAlone a = true := by
  cases a with
  | store =>
    obtain ⟨he, rfl⟩ := guarded_some h
    obtain ⟨x, hcall⟩ := call_of_any he
    by_contra hover
    have hpend : s.pending = [s.action] := by
      simp only [AsyncController.storesAlone, Bool.and_eq_true, Bool.not_eq_true', bne_iff_ne, ne_eq, not_and_or,
        Bool.not_eq_false, not_not] at hover
      rcases hover with hr | hw
      · simp [pending, hr]
      · simp [pending, hw]
    have hexact := hi.exactly
    simp only [ExactlyOnce, hpend] at hexact
    simp only [ExactlyOnce, next, hcall, hexact] at ht
    -- two requests, and room for one that is pending
    have hlen := congrArg List.length ht
    simp only [List.length_append, List.length_singleton, pending] at hlen
    split at hlen <;> simp only [List.length_nil, List.length_cons] at hlen <;> omega
  | _ => rfl

/-- The actions dispatched are the actions requested, each once and in order, in all states of exactly
the runs where no store finds an earlier request that is not dispatched. -/
theorem dispatched_exactlyOnce (as : List HandshakeAction) :
    (∀ x ∈ steps handshake .init as, x.2.2.ExactlyOnce) ↔
      Meets handshake (fun s a => s.storesAlone a = true) .init as := by
  constructor
  · exact meets_of_steps alone_step (fun s a t hi h ht => hi.storesAlone h ht) alone_init
  · exact fun hm x hx => (steps_inv_of_meets alone_step alone_init hm x hx).2.2.2.exactly

/-- The task ends and its request to disconnect goes through on the ready event left over; the next pass
sets the event again before it takes the request, and another action overwrites the request. -/
def overwriteRun : List HandshakeAction :=
  monitoringRun ++ [.processEnds 0, .wakeTask, .taskWaited, .receive, .takeReady, .store, .setRequest, .reply,
    .setReady, .call .createTunnel, .takeReady, .store, .wakeRequest, .dispatch, .setRequest, .finish true,
    .setReady, .wakeRequest, .dispatch, .finish true]

theorem dispatched_overwritten :
    ∃ t, exec handshake .init overwriteRun = some t ∧
      t.requested = [.connect, .tunnel, .monitorTask, .disconnect, .tunnel] ∧
      t.dispatched = [.connect, .tunnel, .monitorTask, .tunnel, .tunnel] ∧ ¬ t.ExactlyOnce :=
  ⟨_, rfl, rfl, rfl, by decide +kernel⟩

end AsyncController

end FortiRdp.Ui
