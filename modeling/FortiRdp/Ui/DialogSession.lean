/-
The session behind the main dialog. The controls let one procedure at a time be under way: requested, pending,
running, or with its event posted. That keeps the objects alive that a procedure works on; what breaks it is the end
of the monitored application, which asks to disconnect whatever the dialog is doing.
-/
import FortiRdp.Ui.ConnectDialog

namespace FortiRdp.Ui

open FortiRdp.Run

namespace AsyncController

variable {s t : AsyncController} {a : HandshakeAction}

/-! ## Work of the controller -/

/-- The actions whose procedure works on the portal client or on the tunnel. -/
def isWork : ControllerAction → Bool
  | .connect | .tunnel | .disconnect => true
  | .none | .monitorTask | .terminate => false

/-- The call of the UI thread that is not stored yet. -/
def requestedWork (s : AsyncController) : Nat :=
  if s.call.any fun call => call.2 != .stored && isWork call.1 then 1 else 0

def pendingWork (s : AsyncController) : Nat := (s.pending.filter isWork).length

/-- A procedure runs, or waits for the answer of a dialog. -/
def working : CtlPc → Bool
  | .running _ | .sending .dialog => true
  | .top | .waiting | .woken | .waitTask | .sending .disconnectFromFirewall | .ended => false

/-- The procedures that are requested, pending or running. -/
def work (s : AsyncController) : Nat := s.requestedWork + s.pendingWork + if working s.ctl then 1 else 0

theorem pending_called (hs : s.call = none) (c : UiCall) : (s.called c).pending = s.pending := by
  obtain ⟨-, hreq, hctl, -, hact, -⟩ := called_frame s c
  have hsto : (s.called c).storing = s.storing := by
    rcases called_call hs c with hc | ⟨x, hc⟩ <;> simp [storing, hc, hs]
  unfold pending
  rw [hreq, hctl, hact, hsto]

/-- A public method requests one procedure at most. -/
theorem work_called (hs : s.call = none) (c : UiCall) : (s.called c).work ≤ s.work + 1 := by
  have hbefore : s.requestedWork = 0 := by rw [requestedWork, hs]; rfl
  have hafter : (s.called c).requestedWork ≤ 1 := by
    unfold requestedWork
    split <;> omega
  unfold work pendingWork
  rw [pending_called hs c, (called_frame s c).2.2.1]
  omega

theorem work_startTask (hs : s.call = none) (started monitor : Bool) : (s.startTask started monitor).work = s.work := by
  have hbefore : s.requestedWork = 0 := by rw [requestedWork, hs]; rfl
  have hafter : (s.startTask started monitor).requestedWork = 0 := by
    unfold requestedWork startTask
    cases s.tunnel <;> cases started <;> cases monitor <;> simp [hs, requestAction, isWork]
  have hframe := called_frame s (.startTask started monitor)
  have hpending := pending_called hs (.startTask started monitor)
  simp only [called] at hframe hpending
  unfold work pendingWork
  rw [hpending, hframe.2.2.1, hbefore, hafter]

/-- The work of a state, from the call, the pending action and the place of the controller. -/
theorem work_congr (hcall : t.requestedWork = s.requestedWork) (hpending : t.pending = s.pending)
    (hctl : working t.ctl = working s.ctl) : t.work = s.work := by
  unfold work pendingWork
  rw [hcall, hpending, hctl]

/-- A pass of the loop starts at most one procedure. -/
theorem work_switch (s : AsyncController) (hwoken : s.ctl = .woken) (hreq : s.requestEvent = false)
    (hsto : s.storing = false) : s.switch.work ≤ s.work := by
  obtain ⟨-, hreq', hcall', -, -, -, -⟩ := switch_frame s
  have hrequested : s.switch.requestedWork = s.requestedWork := by rw [requestedWork, hcall']; rfl
  have hstill : s.switch.ctl ≠ .woken := by
    rcases switch_ctl s with h' | h' | ⟨p, h'⟩ <;> rw [h'] <;> exact fun h => by cases h
  have hsto' : s.switch.storing = false := by rw [storing, hcall']; exact hsto
  have hpending : s.switch.pending = [] := by
    rw [pending, hreq', hreq, hsto', beq_eq_false_iff_ne.2 hstill]
    rfl
  have hbefore : s.pending = [s.action] := by rw [pending, hwoken]; simp
  have hctl : isWork s.action = false → working s.switch.ctl = false := by
    intro hact
    unfold switch
    cases hs : s.action with
    | connect | disconnect | tunnel => rw [hs] at hact; cases hact
    | none | monitorTask | terminate => rfl
  have hwork : ([s.action].filter isWork).length = if isWork s.action then 1 else 0 := by
    cases hact : isWork s.action <;> simp [hact]
  unfold work pendingWork
  rw [hrequested, hpending, hbefore, hwork]
  simp only [List.filter_nil, List.length_nil]
  cases hact : isWork s.action with
  | false =>
    rw [hctl hact]
    simp
  | true =>
    have hone : (if working s.switch.ctl then 1 else 0) ≤ 1 := by split <;> omega
    simp only [if_true]
    omega

/-- A step of the handshake that is no call adds nothing, unless it is the request to disconnect. -/
theorem work_step (hi : Alone s) (hc : s.storesAlone a = true) (h : handshake s a = some t) (hcall : ∀ c, a ≠ .call c)
    (hreceive : a = .receive → s.ctl ≠ .sending .disconnectFromFirewall) : t.work ≤ s.work := by
  obtain ⟨he, rfl⟩ := guarded_some h
  cases a with
  | call c => exact absurd rfl (hcall c)
  | takeReady =>
    simp only [enabled, Bool.and_eq_true] at he
    obtain ⟨x, hx⟩ := call_of_any he.2
    refine Nat.le_of_eq (work_congr ?_ ?_ rfl)
    · simp [requestedWork, next, hx]
    · simp [pending, storing, next, hx]
  | store =>
    obtain ⟨x, hx⟩ := call_of_any he
    simp only [storesAlone, Bool.and_eq_true, Bool.not_eq_true', bne_iff_ne, ne_eq] at hc
    have hnone : s.pending = [] := by simp [pending, storing, hc.1, hc.2, hx]
    have hsome : (s.next .store).pending = [x] := by simp [next, pending, storing, hx]
    have hctl : (s.next .store).ctl = s.ctl := by simp [next, hx]
    unfold work pendingWork
    rw [hnone, hsome, hctl]
    cases hact : isWork x <;> simp [requestedWork, next, hx, hact]
  | setRequest =>
    obtain ⟨x, hx⟩ := call_of_any he
    refine Nat.le_of_eq (work_congr ?_ ?_ rfl)
    · simp [requestedWork, next, hx]
    · simp [pending, storing, next, hx]
  | receive =>
    simp only [enabled, Bool.and_eq_true, Bool.or_eq_true, beq_iff_eq] at he
    have hctl := he.2.resolve_right (hreceive rfl)
    refine Nat.le_of_eq (work_congr ?_ ?_ ?_)
    · simp [requestedWork, next, hctl, onMessage]
    · simp [pending, storing, next, hctl, onMessage]
    · simp [next, hctl, onMessage]
  | reply =>
    simp only [enabled, Bool.and_eq_true, Option.isSome_iff_exists] at he
    obtain ⟨-, m, hm⟩ := he
    have hctl := hi.handled m hm
    have hbefore : s.pending = if s.requestEvent || s.storing then [s.action] else [] := by
      simp [pending, hctl]
    cases m with
    | dialog =>
      refine Nat.le_of_eq (work_congr ?_ ?_ ?_)
      · simp [requestedWork, next, onReply, hm]
      · rw [hbefore]; simp [pending, storing, next, onReply, hm]
      · simp [next, onReply, hm, hctl, working]
    | disconnectFromFirewall =>
      refine Nat.le_of_eq (work_congr ?_ ?_ ?_)
      · simp [requestedWork, next, onReply, hm]
      · rw [hbefore]; simp [pending, storing, next, onReply, hm]
      · simp [next, onReply, hm, hctl, working]
  | processEnds p => exact Nat.le_refl _
  | setReady =>
    have hctl : s.ctl = .top := by simpa [enabled] using he
    refine Nat.le_of_eq (work_congr rfl ?_ ?_)
    · simp [pending, storing, next, hctl]
    · simp [next, hctl, working]
  | wakeRequest =>
    simp only [enabled, Bool.and_eq_true, beq_iff_eq] at he
    refine Nat.le_of_eq (work_congr rfl ?_ ?_)
    · simp [pending, storing, next, he]
    · simp [next, he, working]
  | wakeTask | wakeFailed =>
    simp only [enabled, Bool.and_eq_true, beq_iff_eq] at he
    refine Nat.le_of_eq (work_congr rfl ?_ ?_)
    · simp [pending, storing, next, he]
    · simp [next, he, working]
  | dispatch =>
    have hctl : s.ctl = .woken := by simpa [enabled] using he
    have hsto : s.storing = false := by
      cases hs : s.storing with
      | false => rfl
      | true => exact absurd hctl (hi.storing hs).2
    exact work_switch _ hctl (hi.woken hctl) hsto
  | ask =>
    have hctl : s.ctl = .running .connect := by simpa [enabled] using he
    refine Nat.le_of_eq (work_congr rfl ?_ ?_)
    · simp [pending, storing, next, hctl]
    · simp [next, hctl, working]
  | finish ok =>
    have hctl : ∃ p, s.ctl = .running p := by
      simp only [enabled, Bool.or_eq_true, beq_iff_eq] at he
      rcases he with (he | he) | he <;> exact ⟨_, he⟩
    obtain ⟨p, hctl⟩ := hctl
    have hpending : (s.next (.finish ok)).pending = s.pending := by
      cases ok <;> simp [pending, storing, next, hctl]
    have hidle : working (s.next (.finish ok)).ctl = false := by cases ok <;> rfl
    unfold work pendingWork
    rw [hpending, hidle, show (s.next (.finish ok)).requestedWork = s.requestedWork from rfl]
    simp
  | taskWaited =>
    have hctl : s.ctl = .waitTask := by simpa [enabled] using he
    refine Nat.le_of_eq (work_congr rfl ?_ ?_)
    · simp [pending, storing, next, hctl]
    · simp [next, hctl, working]

/-- The message that asks to disconnect adds one procedure. -/
theorem work_onDisconnect (hctl : s.ctl = .sending .disconnectFromFirewall) (hcall : s.call = none) :
    (s.next .receive).work = s.work + 1 := by
  have hbefore : s.requestedWork = 0 := by rw [requestedWork, hcall]; rfl
  have hafter : (s.next .receive).requestedWork = 1 := by
    simp [requestedWork, next, hctl, onMessage, disconnect, requestAction, isWork]
  have hpending : (s.next .receive).pending = s.pending := by
    simp [pending, storing, next, hctl, hcall, onMessage, disconnect, requestAction]
  have hsame : (s.next .receive).ctl = s.ctl := by simp [next, hctl, onMessage, disconnect, requestAction]
  unfold work pendingWork
  rw [hafter, hbefore, hpending, hsame]
  omega

/-- A procedure that ends is no longer under way. -/
theorem work_finish {p : Procedure} (hctl : s.ctl = .running p) (ok : Bool) : (s.next (.finish ok)).work + 1 = s.work := by
  have hpending : (s.next (.finish ok)).pending = s.pending := by
    cases ok <;> simp [pending, storing, next, hctl]
  have hidle : working (s.next (.finish ok)).ctl = false := by cases ok <;> rfl
  unfold work pendingWork
  rw [hpending, hidle, hctl, show (s.next (.finish ok)).requestedWork = s.requestedWork from rfl]
  rfl

end AsyncController

namespace ConnectDialog

variable {c : DialogParams} {s t : ConnectDialog} {a : DialogAction}

/-! ## One procedure at a time -/

/-- The procedures that are under way: those of the controller, and those whose event has not been handled. -/
def underWay (s : ConnectDialog) : Nat := s.controller.work + s.posted.length

/-- No request is stored over another one, and the end of the application is only reported while the dialog offers to
disconnect. -/
def orderly (s : ConnectDialog) : DialogAction → Bool
  | .handshake .store => s.controller.storesAlone .store
  | .handshake .receive => s.controller.ctl != .sending .disconnectFromFirewall || (s.disconnectEnabled && !s.connectEnabled)
  | _ => true

/-- While the window exists: a control that starts a procedure is enabled when none is under way. -/
structure Session (s : ConnectDialog) : Prop where
  alone : s.controller.Alone
  single : s.underWay ≤ 1
  idle : s.connectEnabled = true ∨ s.disconnectEnabled = true → s.underWay = 0
  disconnect : s.disconnectVisible = true → s.connectEnabled = false
  taskInfo : s.connectEnabled = false → s.taskInfo = true

theorem session_init : Session .init :=
  ⟨AsyncController.alone_init, Nat.zero_le 1, fun _ => rfl, by decide, by decide⟩

/-- The UI thread calls a public method in its message loop. -/
theorem enabled_call (h : s.inLoop = true) (call : UiCall) : s.controller.enabled (.call call) = true := by
  simp only [inLoop, Bool.and_eq_true] at h
  simp only [AsyncController.enabled, Bool.and_eq_true]
  exact ⟨h.1.2, h.2⟩

theorem call_none (h : s.inLoop = true) : s.controller.call = none := by
  simp only [inLoop, Bool.and_eq_true, Option.isNone_iff_eq_none] at h
  exact h.1.2

theorem Session.alone_called (hi : Session s) (h : s.inLoop = true) (call : UiCall) : (s.controller.called call).Alone :=
  AsyncController.alone_step s.controller (.call call) _ hi.alone rfl (if_pos (enabled_call h call))

/-- A procedure is requested when none was under way; the controls that start one are disabled. -/
theorem Session.request (hi : Session s) (h : s.inLoop = true) (hidle : s.controller.work = 0) (call : UiCall)
    (ht : t.controller = s.controller.called call) (hposted : t.posted = []) (hconnect : t.connectEnabled = false)
    (hdisconnect : t.disconnectEnabled = false) (htask : t.taskInfo = true) : Session t := by
  have hwork := AsyncController.work_called (call_none h) call
  have hunder : t.underWay ≤ 1 := by
    unfold underWay
    rw [ht, hposted, List.length_nil]
    omega
  refine ⟨ht ▸ hi.alone_called h call, hunder, ?_, fun _ => hconnect, fun _ => htask⟩
  rintro (hc | hd)
  · rw [hconnect] at hc
    cases hc
  · rw [hdisconnect] at hd
    cases hd

/-- A launch of the application requests no procedure. -/
theorem Session.startTask (hi : Session s) (h : s.inLoop = true) (started : Bool) : Session (s.startTask c started) := by
  unfold ConnectDialog.startTask
  split
  · have halone := hi.alone_called h (.startTask started (!c.multiClients))
    have hwork := AsyncController.work_startTask (call_none h) started (!c.multiClients)
    have hunder : (⟨s.controller.startTask started (!c.multiClients), s.posted, s.taskInfo, s.connectEnabled,
        s.connectVisible, s.disconnectEnabled, s.disconnectVisible, s.quitEnabled, s.addressesEnabled, s.timers,
        s.closed⟩ : ConnectDialog).underWay = s.underWay := by
      unfold underWay
      rw [hwork]
    exact ⟨halone, hunder ▸ hi.single, fun h => hunder.trans (hi.idle h), hi.disconnect, hi.taskInfo⟩
  · exact hi

theorem Session.connect (hi : Session s) (h : s.inLoop = true) (henabled : s.connectEnabled = true)
    (check : ConnectCheck) : Session (s.connect check) := by
  have hidle := hi.idle (.inl henabled)
  unfold underWay at hidle
  have hposted : s.posted = [] := List.eq_nil_of_length_eq_zero (by omega)
  cases check with
  | invalidAddress => exact hi
  | missingFile => exact ⟨hi.alone, hi.single, hi.idle, hi.disconnect, fun _ => rfl⟩
  | passed =>
    exact hi.request h (by omega) .connect rfl hposted rfl rfl rfl

theorem Session.onDisconnect (hi : Session s) (h : s.inLoop = true) (hidle : s.controller.work = 0)
    (hposted : s.posted = []) (hconnect : s.connectEnabled = false) : Session s.disconnect :=
  hi.request h hidle .disconnect rfl hposted hconnect rfl (hi.taskInfo hconnect)

/-- An event is handled when nothing else is under way. -/
theorem Session.handled (hi : Session s) {event : PostedEvent} {posted : List PostedEvent}
    (hposted : s.posted = event :: posted) : s.controller.work = 0 ∧ posted = [] ∧ s.connectEnabled = false ∧
      s.disconnectEnabled = false := by
  have hunder : s.underWay = s.controller.work + (posted.length + 1) := by
    unfold underWay
    rw [hposted, List.length_cons]
  have hsingle := hi.single
  have hbusy : ¬ (s.connectEnabled = true ∨ s.disconnectEnabled = true) := fun h => by
    have := hi.idle h
    omega
  rw [not_or, Bool.not_eq_true, Bool.not_eq_true] at hbusy
  exact ⟨by omega, List.eq_nil_of_length_eq_zero (by omega), hbusy⟩

theorem Session.onEvent (hi : Session s) (h : s.inLoop = true) {event : PostedEvent} {posted : List PostedEvent}
    (hposted : s.posted = event :: posted) (started : Bool) : Session (onEvent c { s with posted } started event) := by
  obtain ⟨hwork, rfl, hconnect, hdisconnect⟩ := hi.handled hposted
  have hunder : ({ s with posted := [] } : ConnectDialog).underWay = 0 := by
    unfold underWay
    rw [hwork]
    rfl
  have hpopped : Session { s with posted := [] } :=
    ⟨hi.alone, Nat.le_trans (Nat.le_of_eq hunder) (Nat.zero_le 1), fun _ => hunder, hi.disconnect, hi.taskInfo⟩
  cases event with
  | connected success =>
    cases success with
    | true => exact hpopped.request h hwork .createTunnel rfl rfl hconnect hdisconnect (hi.taskInfo hconnect)
    | false => exact hpopped.onDisconnect h hwork rfl hconnect
  | disconnected success =>
    refine ⟨hi.alone, hpopped.single, fun _ => hunder, fun h => ?_, fun h => ?_⟩
    · cases h
    · cases h
  | tunnelListening success =>
    have hoffered : Session { s with posted := [], disconnectEnabled := true } :=
      ⟨hi.alone, hpopped.single, fun _ => hunder, hi.disconnect, hi.taskInfo⟩
    cases success with
    | true => exact hoffered.startTask h started
    | false => exact hoffered.onDisconnect h hwork rfl hconnect

theorem Session.afterPost (hi : Session s) {p : Procedure} (hctl : s.controller.ctl = .running p) (success : Bool)
    (he : s.controller.enabled (.finish true) = true) : Session (s.afterPost success) := by
  have halone := AsyncController.alone_step s.controller (.finish true) _ hi.alone rfl (if_pos he)
  have hwork := AsyncController.work_finish hctl true
  have hunder : (s.afterPost success).underWay = s.underWay := by
    unfold ConnectDialog.afterPost underWay
    rw [hctl]
    simp only [List.length_append, List.length_singleton]
    omega
  unfold ConnectDialog.afterPost at hunder ⊢
  rw [hctl] at hunder ⊢
  exact ⟨halone, hunder ▸ hi.single, fun h => hunder.trans (hi.idle h), hi.disconnect, hi.taskInfo⟩

theorem Session.afterHandshake (hi : Session s) {a : HandshakeAction} (hc : s.orderly (.handshake a) = true)
    (he : s.enabled c (.handshake a) = true) : Session (s.afterHandshake a) := by
  simp only [enabled, Bool.and_eq_true] at he
  have hcall : ∀ call, a ≠ .call call := by
    rintro call rfl
    exact absurd he.2 Bool.false_ne_true
  have hstores : s.controller.storesAlone a = true := by
    cases a with
    | store => exact hc
    | _ => rfl
  have hstep : handshake s.controller a = some (s.controller.next a) := if_pos he.1
  have halone := AsyncController.alone_step _ a _ hi.alone hstores hstep
  unfold ConnectDialog.afterHandshake
  by_cases hreceive : a = .receive ∧ s.controller.ctl = .sending .disconnectFromFirewall
  · obtain ⟨rfl, hctl⟩ := hreceive
    rw [if_pos ⟨rfl, hctl⟩]
    simp only [orderly, hctl, bne_self_eq_false, Bool.false_or, Bool.and_eq_true, Bool.not_eq_true'] at hc
    have hidle := hi.idle (.inr hc.1)
    have hnone : s.controller.call = none := by
      have := he.1
      simp only [AsyncController.enabled, Bool.and_eq_true, Option.isNone_iff_eq_none] at this
      exact this.1.1
    have hwork := AsyncController.work_onDisconnect hctl hnone
    have hunder : s.controller.work + 1 + s.posted.length ≤ 1 := by
      unfold underWay at hidle
      omega
    refine ⟨halone, ?_, ?_, hi.disconnect, hi.taskInfo⟩
    · unfold underWay
      simp only [hwork]
      exact hunder
    · rintro (h | h)
      · exact absurd (hc.2.symm.trans h) Bool.false_ne_true
      · cases h
  · rw [if_neg hreceive]
    have hwork := AsyncController.work_step hi.alone hstores hstep hcall fun ha hctl => hreceive ⟨ha, hctl⟩
    have hunder : ({ s with controller := s.controller.next a } : ConnectDialog).underWay ≤ s.underWay :=
      Nat.add_le_add_right hwork _
    refine ⟨halone, Nat.le_trans hunder hi.single, fun h => ?_, hi.disconnect, hi.taskInfo⟩
    have := hi.idle h
    omega

theorem open_of_inLoop (h : s.inLoop = true) : s.closed = false := by
  simp only [inLoop, Bool.and_eq_true, Bool.not_eq_true'] at h
  exact h.1.1

theorem inLoop_of_clickable (h : s.clickable = true) : s.inLoop = true := by
  simp only [clickable, Bool.and_eq_true] at h
  exact h.1

/-- A window that is gone does not come back. -/
theorem open_of_open (h : connectDialog c s a = some t) (hopen : t.closed = false) : s.closed = false := by
  obtain ⟨he, rfl⟩ := guarded_some h
  cases a with
  | connect check | disconnect =>
    simp only [enabled, Bool.and_eq_true] at he
    exact open_of_inLoop (inLoop_of_clickable he.1.1)
  | quit | close => exact absurd hopen.symm Bool.false_ne_true
  | launch started =>
    simp only [enabled, Bool.and_eq_true] at he
    exact open_of_inLoop he.1.1
  | handle started =>
    simp only [enabled, Bool.and_eq_true] at he
    exact open_of_inLoop he.1
  | destroy | lost => exact hopen
  | post success =>
    simp only [next, afterPost] at hopen
    split at hopen <;> exact hopen
  | handshake a =>
    simp only [next, afterHandshake] at hopen
    split at hopen <;> exact hopen

/-- A step keeps the session, as long as the window exists. -/
theorem session_step (s : ConnectDialog) (a : DialogAction) (t : ConnectDialog) (hi : s.closed = false → Session s)
    (hc : s.closed = false → s.orderly a = true) (h : connectDialog c s a = some t) : t.closed = false → Session t := by
  obtain ⟨he, rfl⟩ := guarded_some h
  cases a with
  | connect check =>
    simp only [enabled, Bool.and_eq_true] at he
    have hloop := inLoop_of_clickable he.1.1
    exact fun _ => (hi (open_of_inLoop hloop)).connect hloop he.1.2 check
  | disconnect =>
    simp only [enabled, Bool.and_eq_true] at he
    have hloop := inLoop_of_clickable he.1.1
    have hs := hi (open_of_inLoop hloop)
    have hidle := hs.idle (.inr he.1.2)
    unfold underWay at hidle
    exact fun _ => hs.onDisconnect hloop (by omega) (List.eq_nil_of_length_eq_zero (by omega)) (hs.disconnect he.2)
  | quit | close => exact fun hclosed => absurd hclosed.symm Bool.false_ne_true
  | launch started =>
    simp only [enabled, Bool.and_eq_true] at he
    exact fun _ => (hi (open_of_inLoop he.1.1)).startTask he.1.1 started
  | handle started =>
    simp only [enabled, Bool.and_eq_true] at he
    cases hposted : s.posted with
    | nil =>
      rw [hposted] at he
      cases he.2
    | cons event posted =>
      simp only [next, hposted]
      exact fun _ => (hi (open_of_inLoop he.1)).onEvent he.1 hposted started
  | destroy =>
    simp only [enabled, Bool.and_eq_true] at he
    exact fun hclosed => absurd (hclosed.symm.trans he.1.1) Bool.false_ne_true
  | post success =>
    have hctl : ∃ p, s.controller.ctl = .running p := by
      simp only [enabled, AsyncController.enabled, Bool.or_eq_true, beq_iff_eq] at he
      rcases he with (he | he) | he <;> exact ⟨_, he⟩
    obtain ⟨p, hctl⟩ := hctl
    have hclosed : (s.afterPost success).closed = s.closed := by rw [afterPost, hctl]
    exact fun hopen => (hi (hclosed.symm.trans hopen)).afterPost hctl success he
  | lost =>
    simp only [enabled, Bool.and_eq_true] at he
    exact fun hclosed => absurd (hclosed.symm.trans he.1.1) Bool.false_ne_true
  | handshake a =>
    have hclosed : (s.afterHandshake a).closed = s.closed := by
      unfold afterHandshake
      split <;> rfl
    exact fun hopen => (hi (hclosed.symm.trans hopen)).afterHandshake (hc (hclosed.symm.trans hopen)) he

/-! ## Runs without a monitored application -/

end ConnectDialog

namespace AsyncController

variable {s t : AsyncController} {a : HandshakeAction}

/-- The UI thread has taken the ready event. -/
def holding (s : AsyncController) : Bool := s.call.any (·.2 != .waitReady)

/-- The controller thread is in a pass of its loop. -/
def inPass : CtlPc → Bool
  | .waiting | .ended => false
  | .top | .woken | .running _ | .waitTask | .sending _ => true

/-- The passes that are begun: a ready event, a call that took it, a request event, or a controller in a pass. -/
def passes (s : AsyncController) : Nat :=
  s.readyEvent.toNat + s.holding.toNat + s.requestEvent.toNat + (inPass s.ctl).toNat

/-- No application is monitored, and one pass of the loop is begun at a time. -/
structure Unmonitored (s : AsyncController) : Prop where
  passes : s.passes ≤ 1
  action : s.action ≠ .monitorTask
  call : ∀ pc, s.call ≠ some (.monitorTask, pc)
  waitEot : s.waitEot = false
  waitTask : s.ctl ≠ .waitTask
  request : s.ctl ≠ .sending .disconnectFromFirewall

theorem unmonitored_init : Unmonitored .init := by
  refine ⟨Nat.le_refl 1, by decide, fun pc h => ?_, rfl, by decide, by decide⟩
  cases h

theorem Unmonitored.storesAlone (hi : Unmonitored s) (he : s.enabled a = true) : s.storesAlone a = true := by
  cases a with
  | store =>
    obtain ⟨x, hx⟩ := call_of_any he
    have hholding : s.holding = true := by rw [holding, hx]; rfl
    have hpasses := hi.passes
    rw [AsyncController.passes, hholding, Bool.toNat_true] at hpasses
    simp only [AsyncController.storesAlone, Bool.and_eq_true, Bool.not_eq_true', bne_iff_ne, ne_eq]
    refine ⟨?_, fun hctl => ?_⟩
    · cases hreq : s.requestEvent with
      | false => rfl
      | true =>
        rw [hreq, Bool.toNat_true] at hpasses
        omega
    · rw [hctl, inPass, Bool.toNat_true] at hpasses
      omega
  | _ => rfl

/-- A call that requests no monitoring. -/
theorem Unmonitored.called (hi : Unmonitored s) (hs : s.call = none) (c : UiCall)
    (hc : ∀ started, c ≠ .startTask started true) :
    Unmonitored (s.called c) := by
  obtain ⟨hready, hreq, hctl, -, hact, -⟩ := called_frame s c
  have hholding : (s.called c).holding = s.holding := by
    unfold holding
    rcases called_call hs c with h | ⟨x, h⟩
    · rw [h, hs]
    · rw [h, hs]
      rfl
  have heot : (s.called c).waitEot = s.waitEot ∧ ∀ pc, (s.called c).call ≠ some (.monitorTask, pc) := by
    cases c with
    | connect | disconnect | terminate => exact ⟨rfl, fun pc h => by cases h⟩
    | createTunnel =>
      simp only [AsyncController.called, createTunnel]
      split
      · exact ⟨rfl, fun pc h => by cases h⟩
      · exact ⟨rfl, hi.call⟩
    | startTask started monitor =>
      have hmonitor : monitor = false := by
        cases monitor with
        | false => rfl
        | true => exact absurd rfl (hc started)
      subst hmonitor
      simp only [AsyncController.called, AsyncController.startTask]
      split
      · cases started <;> exact ⟨rfl, hi.call⟩
      · exact ⟨rfl, hi.call⟩
  refine ⟨?_, hact ▸ hi.action, heot.2, heot.1.trans hi.waitEot, hctl ▸ hi.waitTask, hctl ▸ hi.request⟩
  rw [AsyncController.passes, hready, hholding, hreq, hctl]
  exact hi.passes

/-- The switch monitors no task. -/
theorem Unmonitored.dispatched (hi : Unmonitored s) (hctl : s.ctl = .woken) : Unmonitored (s.next .dispatch) := by
  have hpasses := hi.passes
  rw [AsyncController.passes, hctl, inPass, Bool.toNat_true] at hpasses
  obtain ⟨hready, hreq, hcall, -, hact, -, -⟩ := switch_frame { s with dispatched := s.dispatched ++ [s.action] }
  have heot : (s.next .dispatch).waitEot = s.waitEot := by
    simp only [next, AsyncController.switch]
    split
    case h_1 | h_2 | h_3 => split <;> rfl
    case h_4 ha => exact absurd ha hi.action
    case h_5 | h_6 => rfl
  have hplace := switch_ctl { s with dispatched := s.dispatched ++ [s.action] }
  refine ⟨?_, fun h => hi.action (hact.symm.trans h), fun pc h => hi.call pc (hcall.symm.trans h), heot.trans hi.waitEot,
    fun h => ?_, fun h => ?_⟩
  · have hholding : (s.next .dispatch).holding = s.holding := by
      unfold holding next
      rw [hcall]
    have hafter : (inPass (s.next .dispatch).ctl).toNat ≤ 1 := Bool.toNat_le _
    unfold AsyncController.passes
    rw [hholding, show (s.next .dispatch).readyEvent = s.readyEvent from hready,
      show (s.next .dispatch).requestEvent = s.requestEvent from hreq]
    omega
  · rcases hplace with hp | hp | ⟨p, hp⟩
    all_goals
      have := hp.symm.trans h
      cases this
  · rcases hplace with hp | hp | ⟨p, hp⟩
    all_goals
      have := hp.symm.trans h
      cases this

theorem unmonitored_step (hi : Unmonitored s) (hand : Handled s) (h : handshake s a = some t)
    (ha : ∀ started, a ≠ .call (.startTask started true)) : Unmonitored t := by
  obtain ⟨he, rfl⟩ := guarded_some h
  have hpasses := hi.passes
  unfold passes at hpasses
  cases a with
  | call c =>
    simp only [enabled, Bool.and_eq_true, Option.isNone_iff_eq_none] at he
    exact hi.called he.1 c fun started hstart => ha started (hstart ▸ rfl)
  | takeReady =>
    simp only [enabled, Bool.and_eq_true] at he
    obtain ⟨x, hx⟩ := call_of_any he.2
    have hafter : (s.next .takeReady).holding = true := by simp [holding, next, hx]
    refine ⟨?_, hi.action, fun pc hpc => ?_, hi.waitEot, hi.waitTask, hi.request⟩
    · rw [he.1, Bool.toNat_true] at hpasses
      show false.toNat + (s.next .takeReady).holding.toNat + s.requestEvent.toNat + (inPass s.ctl).toNat ≤ 1
      rw [hafter, Bool.toNat_true, Bool.toNat_false]
      omega
    · simp only [next, hx, Option.map_some, Option.some.injEq, Prod.mk.injEq] at hpc
      exact hi.call .waitReady (hpc.1 ▸ hx)
  | store =>
    obtain ⟨x, hx⟩ := call_of_any he
    have hbefore : s.holding = true := by rw [holding, hx]; rfl
    simp only [next, hx]
    refine ⟨?_, fun hact => hi.call .gotReady (hact ▸ hx), fun pc hpc => ?_, hi.waitEot, hi.waitTask, hi.request⟩
    · rw [hbefore] at hpasses
      exact hpasses
    · simp only [Option.some.injEq, Prod.mk.injEq] at hpc
      exact hi.call .gotReady (hpc.1 ▸ hx)
  | setRequest =>
    obtain ⟨x, hx⟩ := call_of_any he
    have hbefore : s.holding = true := by rw [holding, hx]; rfl
    refine ⟨?_, hi.action, fun pc hpc => ?_, hi.waitEot, hi.waitTask, hi.request⟩
    · rw [hbefore, Bool.toNat_true] at hpasses
      show s.readyEvent.toNat + false.toNat + true.toNat + (inPass s.ctl).toNat ≤ 1
      rw [Bool.toNat_true, Bool.toNat_false]
      omega
    · cases hpc
  | receive =>
    simp only [enabled, Bool.and_eq_true, Bool.or_eq_true, beq_iff_eq] at he
    have hctl := he.2.resolve_right hi.request
    rw [hctl] at hpasses
    simp only [next, hctl, onMessage]
    exact ⟨hpasses, hi.action, hi.call, hi.waitEot, by simp, by simp⟩
  | reply =>
    simp only [enabled, Bool.and_eq_true, Option.isSome_iff_exists] at he
    obtain ⟨-, m, hm⟩ := he
    have hctl := hand m hm
    cases m with
    | dialog =>
      rw [hctl] at hpasses
      simp only [next, onReply, hm]
      exact ⟨hpasses, hi.action, hi.call, hi.waitEot, by simp, by simp⟩
    | disconnectFromFirewall => exact absurd hctl hi.request
  | processEnds p => exact ⟨hi.passes, hi.action, hi.call, hi.waitEot, hi.waitTask, hi.request⟩
  | setReady =>
    have hctl : s.ctl = .top := by simpa [enabled] using he
    refine ⟨?_, hi.action, hi.call, hi.waitEot, by simp [next], by simp [next]⟩
    rw [hctl, inPass, Bool.toNat_true] at hpasses
    show true.toNat + s.holding.toNat + s.requestEvent.toNat + false.toNat ≤ 1
    rw [Bool.toNat_true, Bool.toNat_false]
    omega
  | wakeRequest =>
    simp only [enabled, Bool.and_eq_true, beq_iff_eq] at he
    refine ⟨?_, hi.action, hi.call, hi.waitEot, by simp [next], by simp [next]⟩
    rw [he.2, Bool.toNat_true] at hpasses
    show s.readyEvent.toNat + s.holding.toNat + false.toNat + true.toNat ≤ 1
    rw [Bool.toNat_true, Bool.toNat_false]
    omega
  | wakeTask | wakeFailed =>
    simp only [enabled, Bool.and_eq_true] at he
    rw [hi.waitEot] at he
    simp at he
  | dispatch =>
    have hctl : s.ctl = .woken := by simpa [enabled] using he
    exact hi.dispatched hctl
  | ask =>
    have hctl : s.ctl = .running .connect := by simpa [enabled] using he
    rw [hctl] at hpasses
    exact ⟨hpasses, hi.action, hi.call, hi.waitEot, by simp [next], by simp [next]⟩
  | finish ok =>
    have hctl : ∃ p, s.ctl = .running p := by
      simp only [enabled, Bool.or_eq_true, beq_iff_eq] at he
      rcases he with (he | he) | he <;> exact ⟨_, he⟩
    obtain ⟨p, hctl⟩ := hctl
    rw [hctl, inPass, Bool.toNat_true] at hpasses
    refine ⟨?_, hi.action, hi.call, hi.waitEot, by cases ok <;> simp [next], by cases ok <;> simp [next]⟩
    have hafter : (inPass (s.next (.finish ok)).ctl).toNat ≤ 1 := Bool.toNat_le _
    show s.readyEvent.toNat + s.holding.toNat + s.requestEvent.toNat + (inPass (s.next (.finish ok)).ctl).toNat ≤ 1
    omega
  | taskWaited =>
    have hctl : s.ctl = .waitTask := by simpa [enabled] using he
    exact absurd hctl hi.waitTask

end AsyncController

namespace ConnectDialog

variable {c : DialogParams} {s t : ConnectDialog} {a : DialogAction}

theorem unmonitored_orderly (hi : s.controller.Unmonitored) (he : s.enabled c a = true) : s.orderly a = true := by
  cases a with
  | handshake a =>
    simp only [enabled, Bool.and_eq_true] at he
    cases a with
    | store => exact hi.storesAlone he.1
    | receive =>
      simp only [orderly, Bool.or_eq_true, bne_iff_ne, ne_eq]
      exact .inl hi.request
    | _ => rfl
  | _ => rfl

theorem unmonitored_startTask (hm : c.monitors = false) (hi : s.controller.Unmonitored) (h : s.inLoop = true)
    (started : Bool) :
    (s.startTask c started).controller.Unmonitored := by
  unfold startTask
  split
  · rename_i happ
    have hsingle : (!c.multiClients) = false := by
      unfold DialogParams.monitors at hm
      rwa [happ, Bool.true_and] at hm
    refine hi.called (call_none h) (.startTask started (!c.multiClients)) fun b hb => ?_
    rw [hsingle] at hb
    cases hb
  · exact hi

theorem unmonitored_event (hm : c.monitors = false) (hi : s.controller.Unmonitored) (h : s.inLoop = true) (started : Bool)
    (event : PostedEvent) : (onEvent c s started event).controller.Unmonitored := by
  cases event with
  | connected success =>
    cases success with
    | true => exact hi.called (call_none h) .createTunnel fun b hb => by cases hb
    | false => exact hi.called (call_none h) .disconnect fun b hb => by cases hb
  | disconnected success => exact hi
  | tunnelListening success =>
    cases success with
    | true => exact unmonitored_startTask (s := { s with disconnectEnabled := true }) hm hi h started
    | false => exact hi.called (call_none h) .disconnect fun b hb => by cases hb

theorem dialog_unmonitored_step (hm : c.monitors = false) (hi : s.controller.Unmonitored)
    (hand : s.controller.Handled) (h : connectDialog c s a = some t) (hopen : t.closed = false) :
    t.controller.Unmonitored := by
  obtain ⟨he, rfl⟩ := guarded_some h
  cases a with
  | connect check =>
    simp only [enabled, Bool.and_eq_true] at he
    cases check with
    | invalidAddress | missingFile => exact hi
    | passed => exact hi.called (call_none (inLoop_of_clickable he.1.1)) .connect fun b hb => by cases hb
  | disconnect =>
    simp only [enabled, Bool.and_eq_true] at he
    exact hi.called (call_none (inLoop_of_clickable he.1.1)) .disconnect fun b hb => by cases hb
  | quit | close => exact absurd hopen.symm Bool.false_ne_true
  | launch started =>
    simp only [enabled, Bool.and_eq_true] at he
    exact unmonitored_startTask hm hi he.1.1 started
  | handle started =>
    simp only [enabled, Bool.and_eq_true] at he
    cases hposted : s.posted with
    | nil => simpa only [next, hposted] using hi
    | cons event posted =>
      simp only [next, hposted]
      exact unmonitored_event (s := { s with posted }) hm hi he.1 started event
  | destroy =>
    simp only [enabled, Bool.and_eq_true] at he
    exact absurd (hopen.symm.trans he.1.1) Bool.false_ne_true
  | post success =>
    have hctl : ∃ p, s.controller.ctl = .running p := by
      simp only [enabled, AsyncController.enabled, Bool.or_eq_true, beq_iff_eq] at he
      rcases he with (he | he) | he <;> exact ⟨_, he⟩
    obtain ⟨p, hctl⟩ := hctl
    simp only [next, afterPost, hctl]
    have hstep : handshake s.controller (.finish true) = some (s.controller.next (.finish true)) := if_pos he
    exact AsyncController.unmonitored_step hi hand hstep fun b hb => by cases hb
  | lost =>
    simp only [enabled, Bool.and_eq_true] at he
    exact absurd (hopen.symm.trans he.1.1) Bool.false_ne_true
  | handshake a =>
    simp only [enabled, Bool.and_eq_true] at he
    have hstep : (s.controller.next a).Unmonitored := by
      refine AsyncController.unmonitored_step hi hand (if_pos he.1) fun b hb => ?_
      subst hb
      exact absurd he.2 Bool.false_ne_true
    simp only [next, afterHandshake]
    split
    · exact hstep
    · exact hstep

/-! ## What a session destroys -/

/-- The place of the controller uses the portal client. -/
def usesClient : CtlPc → Bool
  | .running .connect | .running .disconnect | .sending .dialog => true
  | .top | .waiting | .woken | .running .waitTunnel | .waitTask | .sending .disconnectFromFirewall | .ended => false

/-- The place of the controller uses the tunnel. -/
def usesTunnel : CtlPc → Bool
  | .running .waitTunnel | .running .disconnect => true
  | .top | .waiting | .woken | .running .connect | .waitTask | .sending _ | .ended => false

/-- The step destroys an object that the controller uses: `connect` replaces the portal client, and `create_tunnel` the
tunnel. -/
def destroysInUse (s : ConnectDialog) : DialogAction → Bool
  | .connect .passed => s.controller.portalClient && usesClient s.controller.ctl
  | .handle _ => s.posted.head? == some (.connected true) && s.controller.tunnel && usesTunnel s.controller.ctl
  | _ => false

/-- The step starts a task without `_task_info`. -/
def derefsNull (s : ConnectDialog) : DialogAction → Bool
  | .launch _ => !s.taskInfo
  | .handle _ => s.posted.head? == some (.tunnelListening true) && !s.taskInfo
  | _ => false

/-- While the window exists: the session, and a handshake without monitoring where nothing is monitored. -/
def Sound (c : DialogParams) (s : ConnectDialog) : Prop :=
  s.closed = false → Session s ∧ (c.monitors = false → s.controller.Unmonitored)

/-- The condition on a step, where an application is monitored. -/
def Ordered (c : DialogParams) (s : ConnectDialog) (a : DialogAction) : Prop := c.monitors = true → s.orderly a = true

instance (c : DialogParams) (s : ConnectDialog) (a : DialogAction) : Decidable (Ordered c s a) :=
  inferInstanceAs (Decidable (_ → _))

theorem sound_step (s : ConnectDialog) (a : DialogAction) (t : ConnectDialog) (hi : Sound c s) (hc : Ordered c s a)
    (h : connectDialog c s a = some t) : Sound c t := by
  have horderly : s.closed = false → s.orderly a = true := fun hopen => by
    cases hm : c.monitors with
    | true => exact hc hm
    | false => exact unmonitored_orderly ((hi hopen).2 hm) (guarded_some h).1
  have hwasOpen : t.closed = false → s.closed = false := open_of_open h
  refine fun hopen => ⟨session_step s a t (fun hs => (hi hs).1) horderly h hopen, fun hm => ?_⟩
  obtain ⟨hsession, hunmonitored⟩ := hi (hwasOpen hopen)
  exact dialog_unmonitored_step hm (hunmonitored hm) hsession.alone.handled h hopen

theorem open_of_changes (he : s.enabled c a = true) (h : s.destroysInUse a = true ∨ s.derefsNull a = true) :
    s.closed = false := by
  cases a with
  | connect check =>
    simp only [enabled, Bool.and_eq_true] at he
    exact open_of_inLoop (inLoop_of_clickable he.1.1)
  | launch started =>
    simp only [enabled, Bool.and_eq_true] at he
    exact open_of_inLoop he.1.1
  | handle started =>
    simp only [enabled, Bool.and_eq_true] at he
    exact open_of_inLoop he.1
  | _ =>
    rcases h with h | h
    · cases h
    · cases h

theorem Session.destroys (hi : Session s) (he : s.enabled c a = true) : s.destroysInUse a = false := by
  have hidle : s.controller.work = 0 → usesClient s.controller.ctl = false ∧ usesTunnel s.controller.ctl = false := by
    intro hwork
    unfold AsyncController.work at hwork
    have hctl : AsyncController.working s.controller.ctl = false := by
      cases hw : AsyncController.working s.controller.ctl with
      | false => rfl
      | true =>
        rw [hw, if_pos rfl] at hwork
        omega
    cases hplace : s.controller.ctl with
    | running p =>
      rw [hplace] at hctl
      cases hctl
    | sending m =>
      cases m with
      | dialog =>
        rw [hplace] at hctl
        cases hctl
      | disconnectFromFirewall => exact ⟨rfl, rfl⟩
    | top | waiting | woken | waitTask | ended => exact ⟨rfl, rfl⟩
  cases a with
  | connect check =>
    simp only [enabled, Bool.and_eq_true] at he
    have hzero := hi.idle (.inl he.1.2)
    unfold underWay at hzero
    cases check with
    | invalidAddress | missingFile => rfl
    | passed =>
      simp only [destroysInUse]
      rw [(hidle (by omega)).1, Bool.and_false]
  | handle started =>
    simp only [destroysInUse]
    cases hposted : s.posted with
    | nil => rfl
    | cons event posted =>
      rw [(hidle (hi.handled hposted).1).2, Bool.and_false]
  | _ => rfl

theorem Session.derefs (hi : Session s) (h : s.derefsNull a = true) : ∃ started, a = .launch started := by
  cases a with
  | launch started => exact ⟨started, rfl⟩
  | handle started =>
    simp only [derefsNull] at h
    cases hposted : s.posted with
    | nil =>
      rw [hposted] at h
      cases h
    | cons event posted =>
      rw [hi.taskInfo (hi.handled hposted).2.2.1, Bool.not_true, Bool.and_false] at h
      cases h
  | _ => cases h

/-- A session up to the launch of the application, which is monitored. -/
def launchRun : List DialogAction :=
  let request : List DialogAction :=
    [.handshake .takeReady, .handshake .store, .handshake .setRequest, .handshake .wakeRequest, .handshake .dispatch]
  [.handshake .setReady, .connect .passed] ++ request ++ [.post true, .handshake .setReady, .handle false] ++ request ++
    [.post true, .handshake .setReady, .handle true] ++ request ++ [.handshake .setReady, .handshake (.processEnds 0)]

/-- The end of the application is reported. -/
def endRun : List DialogAction :=
  launchRun ++ [.handshake .wakeTask, .handshake .taskWaited, .handshake .receive, .handshake .takeReady,
    .handshake .store, .handshake .setRequest, .handshake .reply, .handshake .setReady, .handshake .wakeRequest,
    .handshake .dispatch, .post true, .handle false]

/-- The application ends while the dialog disconnects: the second request to disconnect still runs when the dialog
offers to connect again. -/
example : (exec (connectDialog ⟨false, true, true⟩) .init (launchRun ++ [.disconnect, .handshake .takeReady,
    .handshake .store, .handshake .setRequest, .handshake .wakeRequest, .handshake .dispatch, .post true,
    .handshake .setReady, .handshake .wakeTask, .handshake .taskWaited, .handshake .receive, .handshake .takeReady,
    .handshake .store, .handshake .setRequest, .handshake .reply, .handle false, .handshake .setReady,
    .handshake .wakeRequest, .handshake .dispatch])).any (fun s => s.destroysInUse (.connect .passed)) = true := by
  decide +kernel

end ConnectDialog

end FortiRdp.Ui
