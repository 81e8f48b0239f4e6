/-
The handle of the monitored task. `start_task` destroys the task before, and with it closes a handle that the
controller may still have in `hEvents`: nothing between the two threads keeps a task that is monitored.
-/
import FortiRdp.Ui.Handshake

namespace FortiRdp.Ui

open FortiRdp.Run

namespace AsyncController

variable {s t : AsyncController} {a : HandshakeAction}

/-- `hEvents[1]` is the handle of a task that still exists. -/
def handleOpen (s : AsyncController) : Bool := s.hEvent1.any s.isOpen

/-- What the controller waits for with `wait_eot` is the open handle of the monitored task. -/
def HandleValid (s : AsyncController) : Prop := s.ctl = .waiting → s.waitEot = true → s.handleOpen = true

instance (s : AsyncController) : Decidable s.HandleValid := inferInstanceAs (Decidable (_ → _ → _))

/-- Unless a procedure throws, the loop ends with the action to terminate. -/
def EndsOnTerminate (x : AsyncController × HandshakeAction × AsyncController) : Prop :=
  x.1.ctl ≠ .ended → x.2.2.ctl = .ended → x.2.1 = .finish false ∨ (x.2.1 = .dispatch ∧ x.1.action = .terminate)

instance (x : AsyncController × HandshakeAction × AsyncController) : Decidable (EndsOnTerminate x) :=
  inferInstanceAs (Decidable (_ → _ → _))

/-- A request to monitor a task is stored and not yet dispatched. -/
def monitorPending (s : AsyncController) : Bool :=
  (s.requestEvent || s.ctl == .woken || s.storing) && s.action == .monitorTask

/-- The controller is about to read the handle of the task anew. -/
def rereads (s : AsyncController) : Bool := s.ctl == .woken && s.action == .monitorTask

/-- A launch replaces no task that is monitored, and one that fails none that is to be monitored. A monitored
task may go when the loop has ended, or when the controller is about to read the handle of the new one; then
no other action is stored over the request. -/
def launchesFree (s : AsyncController) : HandshakeAction → Bool
  | .call (.startTask started _) =>
    !s.tunnel || s.ctl == .ended || ((!s.waitEot || (s.rereads && started)) && (started || !s.monitorPending))
  | .store => !(s.rereads && s.waitEot && !s.handleOpen) || s.call.any (·.1 == .monitorTask)
  | _ => true

/-- A monitored task exists, and so does one that is to be monitored. -/
structure Monitored (s : AsyncController) : Prop where
  handled : Handled s
  valid : s.waitEot = true → s.ctl = .ended ∨ s.rereads = true ∨ s.handleOpen = true
  pending : s.monitorPending = true → s.ctl = .ended ∨ s.taskHandle.isSome = true
  requesting : ∀ pc, s.call = some (.monitorTask, pc) → s.taskHandle.isSome = true

theorem monitored_init : Monitored .init := ⟨handled_of_none rfl, nofun, nofun, nofun⟩

theorem Monitored.handleValid (h : Monitored s) : s.HandleValid := by
  intro hctl heot
  obtain he | he | he := h.valid heot
  · rw [hctl] at he; cases he
  · simp [rereads, hctl] at he
  · exact he

/-- A step that leaves the task and its monitoring as they are. -/
theorem Monitored.frame (h : Monitored s) (hand : Handled t) (htask : t.task = s.task) (hev : t.hEvent1 = s.hEvent1)
    (heot : t.waitEot = true → s.waitEot = true) (hended : s.ctl = .ended → t.ctl = .ended)
    (hre : s.rereads = true → t.rereads = true ∨ t.waitEot = false)
    (hpend : t.monitorPending = true → s.monitorPending = true)
    (hcall : ∀ pc, t.call = some (.monitorTask, pc) → ∃ pc', s.call = some (.monitorTask, pc')) : Monitored t := by
  have hhandle : t.taskHandle = s.taskHandle := by rw [taskHandle, htask]; rfl
  refine ⟨hand, fun he => ?_, fun hp => ?_, fun pc hc => ?_⟩
  · obtain hv | hv | hv := h.valid (heot he)
    · exact .inl (hended hv)
    · obtain hr | hr := hre hv
      · exact .inr (.inl hr)
      · rw [hr] at he; cases he
    · refine .inr (.inr ?_)
      have hopen : t.isOpen = s.isOpen := funext fun x => by rw [isOpen, isOpen, hhandle]
      rwa [handleOpen, hev, hopen]
  · rw [hhandle]
    exact (h.pending (hpend hp)).imp_left hended
  · obtain ⟨pc', hc'⟩ := hcall pc hc
    rw [hhandle]
    exact h.requesting pc' hc'

/-- A call of another method than `start_task` leaves the task alone. -/
theorem called_task (c : UiCall) (hc : ∀ started monitor, c ≠ .startTask started monitor) :
    (s.called c).task = s.task ∧ (s.called c).hEvent1 = s.hEvent1 ∧ (s.called c).waitEot = s.waitEot ∧
      ∀ pc, (s.called c).call = some (.monitorTask, pc) → s.call = some (.monitorTask, pc) := by
  cases c with
  | connect | disconnect | terminate => exact ⟨rfl, rfl, rfl, fun pc hpc => by cases hpc⟩
  | createTunnel =>
    simp only [called, createTunnel]
    split
    · exact ⟨rfl, rfl, rfl, fun pc hpc => by cases hpc⟩
    · exact ⟨rfl, rfl, rfl, fun pc hpc => hpc⟩
  | startTask started monitor => exact absurd rfl (hc started monitor)

/-- A call of a method is no store: what was pending is still pending, and nothing else is. -/
theorem called_pending (hs : s.call = none) (c : UiCall) :
    (s.called c).monitorPending = s.monitorPending ∧ (s.called c).rereads = s.rereads := by
  obtain ⟨-, hreq, hctl, -, hact, -⟩ := called_frame s c
  have hsto : (s.called c).storing = s.storing := by
    rcases called_call hs c with hc | ⟨x, hc⟩ <;> simp [storing, hc, hs]
  exact ⟨by rw [monitorPending, hreq, hctl, hact, hsto]; rfl, by rw [rereads, hctl, hact]; rfl⟩

/-- A launch that meets the condition. -/
theorem Monitored.startTask (h : Monitored s) (hs : s.call = none) {started monitor : Bool}
    (hc : s.launchesFree (.call (.startTask started monitor)) = true) (hand : Handled (s.startTask started monitor)) :
    Monitored (s.startTask started monitor) := by
  obtain ⟨-, -, hctl, -⟩ := called_frame s (.startTask started monitor)
  obtain ⟨hpend, hre⟩ := called_pending hs (.startTask started monitor)
  simp only [called] at hctl hpend hre
  cases htun : s.tunnel with
  | false =>
    have hsame : s.startTask started monitor = s := by rw [AsyncController.startTask, htun]; rfl
    rwa [hsame]
  | true =>
    -- a launch leaves `wait_eot` as it is
    have heot : (s.startTask started monitor).waitEot = s.waitEot := by
      cases started <;> cases monitor <;> simp [AsyncController.startTask, htun, requestAction]
    simp only [launchesFree, htun, Bool.not_true, Bool.false_or, Bool.or_eq_true, Bool.and_eq_true, beq_iff_eq,
      Bool.not_eq_true'] at hc
    have hnew : started = true → (s.startTask started monitor).taskHandle.isSome = true := by
      rintro rfl
      cases monitor <;> simp [AsyncController.startTask, htun, requestAction, taskHandle]
    refine ⟨hand, fun he => ?_, fun hp => ?_, fun pc hcall => ?_⟩
    · rw [heot] at he
      rcases hc with hc | ⟨hc | hc, -⟩
      · exact .inl (hctl.trans hc)
      · rw [hc] at he; cases he
      · exact .inr (.inl (hre.trans hc.1))
    · rcases hc with hc | ⟨-, hc | hc⟩
      · exact .inl (hctl.trans hc)
      · exact .inr (hnew hc)
      · rw [hpend, hc] at hp; cases hp
    · refine hnew ?_
      cases started with
      | true => rfl
      | false => simp [AsyncController.startTask, htun, hs] at hcall

/-- The switch reads the handle of a task that exists. -/
theorem Monitored.switch (h : Monitored s) (hctl : s.ctl = .woken) (hand : Handled s.switch) : Monitored s.switch := by
  have hpend : s.action = .monitorTask → s.monitorPending = true := fun ha => by simp [monitorPending, hctl, ha]
  by_cases hact : s.action = .monitorTask
  · have hsome : s.taskHandle.isSome = true := (h.pending (hpend hact)).resolve_left (by rw [hctl]; nofun)
    obtain ⟨x, hx⟩ := Option.isSome_iff_exists.1 hsome
    -- `MONITOR_TASK` copies the handle of the task that is there now
    have hsw : s.switch = { s with waitEot := true, hEvent1 := s.taskHandle, ctl := .top } := by
      rw [AsyncController.switch, hact]
    rw [hsw] at hand ⊢
    refine ⟨hand, fun _ => .inr (.inr ?_), fun _ => .inr hsome, fun pc hc => h.requesting pc hc⟩
    change s.taskHandle.any (fun y => s.taskHandle == some y) = true
    rw [hx]
    simp
  · obtain ⟨-, hreq, hcall, -, hact', -⟩ := switch_frame s
    have hsame : s.switch.task = s.task ∧ s.switch.hEvent1 = s.hEvent1 ∧ s.switch.waitEot = s.waitEot := by
      unfold AsyncController.switch
      split
      case h_1 | h_2 | h_3 => split <;> exact ⟨rfl, rfl, rfl⟩
      case h_4 ha => exact absurd ha hact
      case h_5 | h_6 => exact ⟨rfl, rfl, rfl⟩
    refine h.frame hand hsame.1 hsame.2.1 (hsame.2.2 ▸ id) (by rw [hctl]; nofun) ?_ ?_ (fun pc hc => ⟨pc, hcall ▸ hc⟩)
    · simp [rereads, hact]
    · intro hp
      simp only [monitorPending, hact', Bool.and_eq_true, beq_iff_eq] at hp
      exact absurd hp.2 hact

theorem monitored_step (s : AsyncController) (a : HandshakeAction) (t : AsyncController) (hi : Monitored s)
    (hc : s.launchesFree a = true) (h : handshake s a = some t) : Monitored t := by
  have hand := handled_step hi.handled h
  obtain ⟨he, rfl⟩ := guarded_some h
  cases a with
  | call c =>
    simp only [enabled, Bool.and_eq_true, Option.isNone_iff_eq_none] at he
    -- only a launch replaces the task
    by_cases hlaunch : ∃ started monitor, c = .startTask started monitor
    · obtain ⟨started, monitor, rfl⟩ := hlaunch
      exact hi.startTask he.1 hc hand
    · simp only [not_exists] at hlaunch
      obtain ⟨htask, hev, heot, hcall⟩ := called_task (s := s) c hlaunch
      obtain ⟨hpend, hre⟩ := called_pending he.1 c
      obtain ⟨-, -, hctl, -⟩ := called_frame s c
      exact hi.frame hand htask hev (heot ▸ id) hctl.trans (fun hr => .inl (hre.trans hr)) (fun hp => hpend ▸ hp)
        (fun pc hpc => ⟨pc, hcall pc hpc⟩)
  | takeReady =>
    simp only [enabled, Bool.and_eq_true] at he
    obtain ⟨x, hcall⟩ := call_of_any he.2
    refine hi.frame hand rfl rfl id id .inl ?_ ?_
    · simp [next, monitorPending, storing, hcall]
    · intro pc hpc
      simp only [next, hcall, Option.map_some, Option.some.injEq, Prod.mk.injEq] at hpc
      exact ⟨.waitReady, by rw [hcall, hpc.1]⟩
  | store =>
    obtain ⟨x, hcall⟩ := call_of_any he
    have hsome : x = .monitorTask → s.taskHandle.isSome = true := fun hx => hi.requesting _ (hx ▸ hcall)
    simp only [next, hcall] at hand ⊢
    refine ⟨hand, fun heot => ?_, fun hp => ?_, fun pc hpc => ?_⟩
    · have heot : s.waitEot = true := heot
      obtain hv | hv | hv := hi.valid heot
      · exact .inl hv
      · by_cases hopen : s.handleOpen = true
        · exact .inr (.inr hopen)
        -- the handle is closed, so the action stored is again the one that reads it
        · simp only [launchesFree, hv, heot, hopen, hcall, Option.any_some, Bool.or_eq_true, Bool.not_eq_true',
            beq_iff_eq] at hc
          simp only [rereads, Bool.and_eq_true, beq_iff_eq] at hv
          refine .inr (.inl ?_)
          simp only [rereads, Bool.and_eq_true, beq_iff_eq]
          exact ⟨hv.1, by simpa using hc⟩
      · exact .inr (.inr hv)
    · simp only [monitorPending, Bool.and_eq_true, beq_iff_eq] at hp
      exact .inr (hsome hp.2)
    · simp only [Option.some.injEq, Prod.mk.injEq] at hpc
      exact hsome hpc.1
  | setRequest =>
    have hsto : s.storing = true := he
    refine hi.frame hand rfl rfl id id .inl ?_ (fun pc hpc => by cases hpc)
    simp [next, monitorPending, hsto]
  | receive =>
    simp only [enabled, Bool.and_eq_true, Option.isNone_iff_eq_none, Bool.or_eq_true, beq_iff_eq] at he
    obtain ⟨⟨hcall, hhand⟩, hctl | hctl⟩ := he
    all_goals
      simp only [next, hctl, onMessage] at hand ⊢
      refine hi.frame hand rfl rfl id (by simp [hctl]) (by simp [rereads, hctl]) ?_ ?_
      · intro hp
        simp_all [monitorPending, storing, disconnect, requestAction]
      · simp [hcall, disconnect, requestAction]
  | reply =>
    simp only [enabled, Bool.and_eq_true, Option.isSome_iff_exists] at he
    obtain ⟨-, m, hm⟩ := he
    have hctl := hi.handled m hm
    cases m <;> simp only [next, onReply, hm] at hand ⊢ <;>
      exact hi.frame hand rfl rfl id (by simp [hctl]) (by simp [rereads, hctl])
        (by simp [monitorPending, storing, hctl]) (fun pc hpc => ⟨pc, hpc⟩)
  | processEnds p => exact hi.frame hand rfl rfl id id .inl id (fun pc hpc => ⟨pc, hpc⟩)
  | setReady =>
    have hctl : s.ctl = .top := by simpa [enabled] using he
    exact hi.frame hand rfl rfl id (by simp [hctl]) (by simp [rereads, hctl])
      (by simp [next, monitorPending, storing, hctl]) (fun pc hpc => ⟨pc, hpc⟩)
  | wakeRequest =>
    simp only [enabled, Bool.and_eq_true, beq_iff_eq] at he
    exact hi.frame hand rfl rfl id (by simp [he.1]) (by simp [rereads, he.1])
      (by simp [next, monitorPending, storing, he]) (fun pc hpc => ⟨pc, hpc⟩)
  | wakeTask =>
    simp only [enabled, Bool.and_eq_true, beq_iff_eq] at he
    exact hi.frame hand rfl rfl (fun heot => by cases heot) (by simp [he]) (by simp [rereads, he])
      (by simp [next, monitorPending, storing, he]) (fun pc hpc => ⟨pc, hpc⟩)
  | wakeFailed =>
    simp only [enabled, Bool.and_eq_true, beq_iff_eq] at he
    exact hi.frame hand rfl rfl id (fun _ => rfl) (by simp [rereads, he])
      (by simp [next, monitorPending, storing, he]) (fun pc hpc => ⟨pc, hpc⟩)
  | dispatch =>
    have hctl : s.ctl = .woken := by simpa [enabled] using he
    have hi' : Monitored { s with dispatched := s.dispatched ++ [s.action] } :=
      hi.frame hi.handled rfl rfl id id .inl id (fun pc hpc => ⟨pc, hpc⟩)
    exact hi'.switch hctl hand
  | ask | taskWaited =>
    simp only [enabled, beq_iff_eq] at he
    exact hi.frame hand rfl rfl id (by simp [he]) (by simp [rereads, he])
      (by simp [next, monitorPending, storing, he]) (fun pc hpc => ⟨pc, hpc⟩)
  | finish ok =>
    have hctl : ∃ p, s.ctl = .running p := by
      simp only [enabled, Bool.or_eq_true, beq_iff_eq] at he
      rcases he with (he | he) | he <;> exact ⟨_, he⟩
    obtain ⟨p, hctl⟩ := hctl
    refine hi.frame hand rfl rfl id (by simp [hctl]) (by simp [rereads, hctl]) ?_ (fun pc hpc => ⟨pc, hpc⟩)
    cases ok <;> simp [next, monitorPending, storing, hctl]

/-- With a valid handle the wait does not fail, so the loop goes on until it is told to end. -/
theorem Monitored.endsOnTerminate (hi : Monitored s) (h : handshake s a = some t) : EndsOnTerminate (s, a, t) := by
  intro hs ht
  obtain ⟨he, rfl⟩ := guarded_some h
  cases a with
  | finish ok =>
    cases ok with
    | false => exact .inl rfl
    | true => cases ht
  | dispatch =>
    refine .inr ⟨rfl, ?_⟩
    have hsw : (AsyncController.switch { s with dispatched := s.dispatched ++ [s.action] }).ctl = .ended := ht
    unfold AsyncController.switch at hsw
    split at hsw
    case h_1 | h_2 | h_3 => split at hsw <;> cases hsw
    case h_4 | h_6 => cases hsw
    case h_5 ha => exact ha
  | wakeFailed =>
    simp only [enabled, Bool.and_eq_true, beq_iff_eq] at he
    obtain ⟨⟨hctl, heot⟩, hclosed⟩ := he
    -- the wait fails on a closed handle only
    have hopen := hi.handleValid hctl heot
    cases hev : s.hEvent1 <;> simp_all [handleOpen, handleClosed]
  | call c =>
    obtain ⟨-, -, hctl, -⟩ := called_frame s c
    exact absurd (hctl.symm.trans ht) hs
  | takeReady | setRequest | processEnds => exact absurd ht hs
  | store =>
    obtain ⟨x, hcall⟩ := call_of_any he
    simp only [next, hcall] at ht
    exact absurd ht hs
  | receive =>
    simp only [enabled, Bool.and_eq_true, Bool.or_eq_true, beq_iff_eq] at he
    obtain ⟨-, hctl | hctl⟩ := he <;> simp [next, onMessage, disconnect, requestAction, hctl] at ht
  | reply =>
    simp only [enabled, Bool.and_eq_true, Option.isSome_iff_exists] at he
    obtain ⟨-, m, hm⟩ := he
    cases m <;> simp [next, onReply, hm] at ht
  | setReady | wakeRequest | wakeTask | ask | taskWaited => cases ht

/-- In a run whose launches replace no monitored task, the controller waits for open handles only, and it ends
when it is told to. -/
theorem monitored_handle_open {as : List HandshakeAction}
    (hfree : Meets handshake (fun s a => s.launchesFree a = true) .init as) :
    ∀ x ∈ steps handshake .init as, x.2.2.HandleValid ∧ EndsOnTerminate x := by
  intro x hx
  obtain ⟨hi, -, hstep, ht⟩ := steps_inv_of_meets monitored_step monitored_init hfree x hx
  exact ⟨ht.handleValid, hi.endsOnTerminate hstep⟩

/-- The monitored task ends, and the loop terminates on request. -/
def terminateRun : List HandshakeAction :=
  taskEndRun ++ [.setReady] ++ requesting .terminate ++ [.wakeRequest, .dispatch]

theorem monitored_handle_open_terminate :
    (∃ t, exec handshake .init terminateRun = some t ∧ t.ctl = .ended) ∧
      ∀ x ∈ steps handshake .init terminateRun, x.2.2.HandleValid ∧ EndsOnTerminate x := by
  have hfree : Meets handshake (fun s a => s.launchesFree a = true) .init terminateRun := by decide +kernel
  exact ⟨⟨_, rfl, rfl⟩, monitored_handle_open hfree⟩

/-- The user disconnects and connects again, and the application of the first connection still runs when the
one of the second is launched, before the controller is back in its wait. -/
def relaunchRun : List HandshakeAction :=
  monitoringRun ++ requesting .disconnect ++ [.wakeRequest, .dispatch, .finish true, .setReady] ++
    requesting .connect ++ [.wakeRequest, .dispatch, .finish true, .setReady] ++
    requesting .createTunnel ++ [.wakeRequest, .dispatch, .finish true, .call (.startTask true true), .setReady]

/-- The wait is entered with a closed handle; it fails, and nobody has asked the loop to end. -/
theorem handle_closed_in_wait : ∃ t u, exec handshake .init relaunchRun = some t ∧ ¬ t.HandleValid ∧
    handshake t .wakeFailed = some u ∧ ¬ EndsOnTerminate (t, .wakeFailed, u) :=
  ⟨_, _, rfl, by decide +kernel, rfl, by decide +kernel⟩

end AsyncController

end FortiRdp.Ui
