/-
The handshake between the UI thread and the thread of `AsyncController`, as atomic steps of the two.
`request_action` takes the ready event, stores the action and sets the request event; the controller
sets the ready event at the top of each pass of its loop and is woken by the request event or by the
end of the monitored task. Both events are auto-reset. A procedure of the controller that sends a
message is blocked until the UI thread, back in its message loop, has handled it; a posted message
blocks nobody. Only the UI thread requests actions, so the mutex of `request_action` is always free.
-/
import FortiRdp.Run.Machine

namespace FortiRdp.Ui

open FortiRdp.Run

/-! ## The state -/

inductive ControllerAction
  | none | connect | tunnel | disconnect | monitorTask | terminate
  deriving DecidableEq, Repr

/-- How far a call of `request_action` got: before `_readyEvent.wait()` has returned, before `_action`
is stored, before `_requestEvent.set()`. -/
inductive CallPc
  | waitReady | gotReady | stored
  deriving DecidableEq, Repr

/-- The messages that are sent and not posted: the dialogs of `SyncConnect` and the request of
`SyncWaitTask` to disconnect. -/
inductive Sent
  | dialog | disconnectFromFirewall
  deriving DecidableEq, Repr

/-- The procedures whose last message is posted. -/
inductive Procedure
  | connect | waitTunnel | disconnect
  deriving DecidableEq, Repr

/-- The place of the controller thread in `AsyncController::run`. -/
inductive CtlPc
  /-- before `_readyEvent.set()` -/
  | top
  /-- in `WaitForMultipleObjects` -/
  | waiting
  /-- woken by the request event, `_action` not yet read -/
  | woken
  | running (p : Procedure)
  /-- in `SyncWaitTask::procedure` -/
  | waitTask
  /-- in `SendMessage` -/
  | sending (m : Sent)
  | ended
  deriving DecidableEq, Repr

/-- `utl::Task`; a process that was not created leaves `INVALID_HANDLE_VALUE`, here `none`. -/
structure Task where
  handle : Option Nat
  deriving DecidableEq, Repr

/-- The controller and its two threads. `requested` and `dispatched` are the histories of the stores of
`_action` and of its reads by the switch of `run`. -/
structure AsyncController where
  action : ControllerAction
  requestEvent : Bool
  readyEvent : Bool
  portalClient : Bool
  tunnel : Bool
  task : Option Task
  processes : Nat
  endedProcesses : List Nat
  waitEot : Bool
  hEvent1 : Option Nat
  ctl : CtlPc
  /-- The call of `request_action` that the UI thread is in. -/
  call : Option (ControllerAction × CallPc)
  /-- The sent message that the UI thread is handling. -/
  handling : Option Sent
  requested : List ControllerAction
  dispatched : List ControllerAction
  deriving DecidableEq, Repr

def AsyncController.init : AsyncController where
  action := .none
  requestEvent := false
  readyEvent := false
  portalClient := false
  tunnel := false
  task := none
  processes := 0
  endedProcesses := []
  waitEot := false
  hEvent1 := none
  ctl := .top
  call := none
  handling := none
  requested := []
  dispatched := []

/-! ## The methods called by the UI thread -/

/-- The public methods that request an action. `started` is what `CreateProcess` answers. -/
inductive UiCall
  | connect | createTunnel | startTask (started monitor : Bool) | disconnect | terminate
  deriving DecidableEq, Repr

namespace AsyncController

def requestAction (s : AsyncController) (a : ControllerAction) : AsyncController :=
  { s with call := some (a, .waitReady) }

def connect (s : AsyncController) : AsyncController :=
  requestAction { s with portalClient := true } .connect

def createTunnel (s : AsyncController) : AsyncController :=
  if s.portalClient then requestAction { s with tunnel := true } .tunnel else { s with tunnel := false }

/-- The assignment to `_task` destroys the task before, and with it closes the handle of its process. -/
def startTask (s : AsyncController) (started monitor : Bool) : AsyncController :=
  if s.tunnel then
    if started then
      let s := { s with task := some ⟨some s.processes⟩, processes := s.processes + 1 }
      if monitor then s.requestAction .monitorTask else s
    else { s with task := some ⟨none⟩ }
  else s

def disconnect (s : AsyncController) : AsyncController := s.requestAction .disconnect

def terminate (s : AsyncController) : AsyncController := s.requestAction .terminate

def called (s : AsyncController) : UiCall → AsyncController
  | .connect => s.connect
  | .createTunnel => s.createTunnel
  | .startTask started monitor => s.startTask started monitor
  | .disconnect => s.disconnect
  | .terminate => s.terminate

/-! ## The loop of the controller -/

/-- `_task->get_handle()`. -/
def taskHandle (s : AsyncController) : Option Nat := s.task.bind (·.handle)

/-- A process handle is open as long as the task that it belongs to exists. -/
def isOpen (s : AsyncController) (h : Nat) : Bool := s.taskHandle == some h

/-- `hEvents[1]` is signalled. -/
def taskEnded (s : AsyncController) : Bool :=
  s.hEvent1.any fun h => s.isOpen h && s.endedProcesses.contains h

/-- `hEvents[1]` is the handle of a task that no longer exists. -/
def handleClosed (s : AsyncController) : Bool := s.hEvent1.any fun h => !s.isOpen h

/-- The switch on `_action`. -/
def switch (s : AsyncController) : AsyncController :=
  match s.action with
  | .connect => if s.portalClient then { s with ctl := .running .connect } else { s with ctl := .top }
  | .tunnel => if s.tunnel then { s with ctl := .running .waitTunnel } else { s with ctl := .top }
  | .disconnect => if s.portalClient then { s with ctl := .running .disconnect } else { s with ctl := .top }
  | .monitorTask => { s with waitEot := true, hEvent1 := s.taskHandle, ctl := .top }
  | .terminate => { s with ctl := .ended }
  | .none => { s with ctl := .top }

/-- `onAsyncMessage`: the dialog of a connect procedure, or `disconnectFromFirewall`. -/
def onMessage (s : AsyncController) (m : Sent) : AsyncController :=
  let s := { s with handling := some m }
  match m with
  | .dialog => s
  | .disconnectFromFirewall => s.disconnect

/-- `SendMessage` returns to the procedure that called it. -/
def onReply (s : AsyncController) : AsyncController :=
  match s.handling with
  | some .dialog => { s with handling := none, ctl := .running .connect }
  | some .disconnectFromFirewall => { s with handling := none, ctl := .top }
  | none => s

end AsyncController

/-! ## The steps -/

/-- An atomic step of the UI thread, of the controller thread or of a launched process. -/
inductive HandshakeAction
  /-- The UI thread calls a public method. -/
  | call (c : UiCall)
  /-- `_readyEvent.wait()` returns. -/
  | takeReady
  /-- `_action = action` -/
  | store
  /-- `_requestEvent.set()`, and `request_action` returns. -/
  | setRequest
  /-- The message loop of the UI thread takes the sent message. -/
  | receive
  /-- The UI thread has handled the sent message. -/
  | reply
  | processEnds (h : Nat)
  /-- `_readyEvent.set()` -/
  | setReady
  | wakeRequest
  | wakeTask
  | wakeFailed
  /-- The controller reads `_action`. -/
  | dispatch
  /-- The connect procedure sends the request of a dialog. -/
  | ask
  /-- A procedure posts its last message (`ok`) or throws. -/
  | finish (ok : Bool)
  /-- `_task->wait` has returned and `SyncProc::run` sends its message. -/
  | taskWaited
  deriving DecidableEq, Repr

namespace AsyncController

/-- The step can be taken. Of two signalled handles `WaitForMultipleObjects` returns the first, so the
end of the task wakes the controller only when no request does. A dialog has a message loop of its own,
in which the UI thread can still call; `disconnectFromFirewall` has none. The process that
`SyncWaitTask` waits for has ended already. -/
def enabled (s : AsyncController) : HandshakeAction → Bool
  | .call _ => s.call.isNone && s.handling != some .disconnectFromFirewall
  | .takeReady => s.readyEvent && s.call.any (·.2 == .waitReady)
  | .store => s.call.any (·.2 == .gotReady)
  | .setRequest => s.call.any (·.2 == .stored)
  | .receive => s.call.isNone && s.handling.isNone &&
      (s.ctl == .sending .dialog || s.ctl == .sending .disconnectFromFirewall)
  | .reply => s.call.isNone && s.handling.isSome
  | .processEnds h => h < s.processes
  | .setReady => s.ctl == .top
  | .wakeRequest => s.ctl == .waiting && s.requestEvent
  | .wakeTask => s.ctl == .waiting && !s.requestEvent && s.waitEot && s.taskEnded
  | .wakeFailed => s.ctl == .waiting && s.waitEot && s.handleClosed
  | .dispatch => s.ctl == .woken
  | .ask => s.ctl == .running .connect
  | .finish _ => s.ctl == .running .connect || s.ctl == .running .waitTunnel || s.ctl == .running .disconnect
  | .taskWaited => s.ctl == .waitTask

/-- The state after the step. -/
def next (s : AsyncController) : HandshakeAction → AsyncController
  | .call c => s.called c
  | .takeReady => { s with readyEvent := false, call := s.call.map fun c => (c.1, .gotReady) }
  | .store =>
    match s.call with
    | some (a, _) => { s with action := a, call := some (a, .stored), requested := s.requested ++ [a] }
    | none => s
  | .setRequest => { s with requestEvent := true, call := none }
  | .receive =>
    match s.ctl with
    | .sending m => s.onMessage m
    | _ => s
  | .reply => s.onReply
  | .processEnds h => { s with endedProcesses := h :: s.endedProcesses }
  | .setReady => { s with readyEvent := true, ctl := .waiting }
  | .wakeRequest => { s with requestEvent := false, ctl := .woken }
  | .wakeTask => { s with waitEot := false, ctl := .waitTask }
  | .wakeFailed => { s with ctl := .ended }
  | .dispatch => switch { s with dispatched := s.dispatched ++ [s.action] }
  | .ask => { s with ctl := .sending .dialog }
  | .finish ok => { s with ctl := if ok then .top else .ended }
  | .taskWaited => { s with ctl := .sending .disconnectFromFirewall }

end AsyncController

/-- The two threads and the launched processes, in any interleaving. -/
def handshake : Machine AsyncController HandshakeAction :=
  guarded AsyncController.enabled AsyncController.next

end FortiRdp.Ui
