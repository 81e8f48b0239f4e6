/-
The main dialog over the controller: what its buttons, its hot key and the messages of the controller do. The messages
that the procedures post are taken in the order in which they were posted; a click reaches a control that is enabled
and visible, and no control while another dialog is open.
-/
import FortiRdp.Ui.Handshake

namespace FortiRdp.Ui

open FortiRdp.Run

/-- What the command line decides: whether many clients are allowed, whether an application is named and whether the
name of its program is not empty. -/
structure DialogParams where
  multiClients : Bool
  appname : Bool
  application : Bool

namespace DialogParams

/-- The end of the application is monitored. -/
def monitors (c : DialogParams) : Bool := c.application && !c.multiClients

end DialogParams

/-- The events that are posted to the dialog. -/
inductive PostedEvent
  | connected (success : Bool)
  | disconnected (success : Bool)
  | tunnelListening (success : Bool)
  deriving DecidableEq, Repr

/-- Whether `connect` comes to the controller: an address may be refused, or a file may be missing. -/
inductive ConnectCheck
  | invalidAddress
  | missingFile
  | passed
  deriving DecidableEq, Repr

/-- The state of the dialog. `taskInfo` says whether `_task_info` has been set. -/
structure ConnectDialog where
  controller : AsyncController
  posted : List PostedEvent
  taskInfo : Bool
  connectEnabled : Bool
  connectVisible : Bool
  disconnectEnabled : Bool
  disconnectVisible : Bool
  quitEnabled : Bool
  addressesEnabled : Bool
  timers : Bool
  closed : Bool
  deriving DecidableEq, Repr

def ConnectDialog.init : ConnectDialog where
  controller := .init
  posted := []
  taskInfo := false
  connectEnabled := true
  connectVisible := true
  disconnectEnabled := true
  disconnectVisible := false
  quitEnabled := true
  addressesEnabled := true
  timers := false
  closed := false

/-- A step of the UI thread in the dialog, or of the controller and the launched processes. -/
inductive DialogAction
  /-- The button `IDC_CONNECT`, or the command that is posted when both addresses are given. -/
  | connect (check : ConnectCheck)
  /-- The button `IDC_DISCONNECT`. -/
  | disconnect
  /-- The button `IDC_QUIT`. -/
  | quit
  /-- `WM_CLOSE` -/
  | close
  /-- The launch command of the menu or the hot key; `started` is what `CreateProcess` answers. -/
  | launch (started : Bool)
  /-- The event that was posted first is handled. -/
  | handle (started : Bool)
  /-- The message loop has ended, and the dialog is destroyed. -/
  | destroy
  /-- A procedure posts its last message. -/
  | post (success : Bool)
  /-- A message that is sent to a window that no longer exists. -/
  | lost
  /-- Another step of the handshake. -/
  | handshake (a : HandshakeAction)
  deriving DecidableEq, Repr

namespace ConnectDialog

/-! ## The handlers -/

/-- `connect`. -/
def connect (s : ConnectDialog) : ConnectCheck → ConnectDialog
  | .invalidAddress => s
  | .missingFile => { s with taskInfo := true }
  | .passed => { s with
    taskInfo := true
    connectEnabled := false
    disconnectEnabled := false
    quitEnabled := false
    addressesEnabled := false
    connectVisible := false
    disconnectVisible := true
    controller := s.controller.connect }

/-- `disconnect`. -/
def disconnect (s : ConnectDialog) : ConnectDialog :=
  { s with disconnectEnabled := false, controller := s.controller.disconnect }

/-- `startTask`: a single client is monitored. -/
def startTask (c : DialogParams) (s : ConnectDialog) (started : Bool) : ConnectDialog :=
  if c.application then { s with controller := s.controller.startTask started (!c.multiClients) } else s

/-- `onConnectedEvent`. -/
def onConnectedEvent (s : ConnectDialog) (success : Bool) : ConnectDialog :=
  if success then { s with controller := s.controller.createTunnel, timers := true } else s.disconnect

/-- `onDisconnectedEvent`. -/
def onDisconnectedEvent (s : ConnectDialog) : ConnectDialog :=
  { s with
    timers := false
    addressesEnabled := true
    connectEnabled := true
    disconnectEnabled := true
    quitEnabled := true
    connectVisible := true
    disconnectVisible := false }

/-- `onTunnelListeningEvent`. -/
def onTunnelListeningEvent (c : DialogParams) (s : ConnectDialog) (success started : Bool) : ConnectDialog :=
  let s := { s with disconnectEnabled := true }
  if success then s.startTask c started else s.disconnect

/-- `onAsyncMessage`, for the events that are posted. -/
def onEvent (c : DialogParams) (s : ConnectDialog) (started : Bool) : PostedEvent → ConnectDialog
  | .connected success => s.onConnectedEvent success
  | .disconnected _ => s.onDisconnectedEvent
  | .tunnelListening success => s.onTunnelListeningEvent c success started

/-- `onDestroyDialogMessage`. -/
def onDestroy (s : ConnectDialog) : ConnectDialog := { s.disconnect with closed := true }

/-- The event that a procedure posts. -/
def eventOf (success : Bool) : Procedure → PostedEvent
  | .connect => .connected success
  | .waitTunnel => .tunnelListening success
  | .disconnect => .disconnected success

/-! ## The steps -/

/-- The UI thread is in the message loop of the dialog, or of another dialog. -/
def inLoop (s : ConnectDialog) : Bool :=
  !s.closed && s.controller.call.isNone && s.controller.handling != some .disconnectFromFirewall

/-- No other dialog is open. -/
def clickable (s : ConnectDialog) : Bool := s.inLoop && s.controller.handling.isNone

def enabled (c : DialogParams) (s : ConnectDialog) : DialogAction → Bool
  | .connect _ => s.clickable && s.connectEnabled && s.connectVisible
  | .disconnect => s.clickable && s.disconnectEnabled && s.disconnectVisible
  | .quit => s.clickable && s.quitEnabled
  | .close => s.inLoop
  | .launch _ => s.inLoop && c.multiClients && c.appname
  | .handle _ => s.inLoop && !s.posted.isEmpty
  | .destroy => s.closed && s.controller.call.isNone && s.controller.handling.isNone
  | .post _ => s.controller.enabled (.finish true)
  | .lost => s.closed && s.controller.handling.isNone && s.controller.ctlSending
  | .handshake a =>
    s.controller.enabled a && match a with
      | .call _ => false
      | .finish ok => !ok
      | .receive => !s.closed
      | .takeReady | .store | .setRequest | .reply | .processEnds _ | .setReady | .wakeRequest | .wakeTask | .wakeFailed |
        .dispatch | .ask | .taskWaited => true

/-- What `SendMessage` of the controller thread goes on with. -/
def afterLost (s : AsyncController) : AsyncController :=
  { s with ctl := if s.ctl == .sending .dialog then .running .connect else .top }

/-- The procedure has posted its message. -/
def afterPost (s : ConnectDialog) (success : Bool) : ConnectDialog :=
  match s.controller.ctl with
  | .running p => { s with controller := s.controller.next (.finish true), posted := s.posted ++ [eventOf success p] }
  | .top | .waiting | .woken | .waitTask | .sending _ | .ended => s

/-- The handshake, with `disconnect` as the handler of the request to disconnect. -/
def afterHandshake (s : ConnectDialog) (a : HandshakeAction) : ConnectDialog :=
  let s' := { s with controller := s.controller.next a }
  if a = .receive ∧ s.controller.ctl = .sending .disconnectFromFirewall then { s' with disconnectEnabled := false } else s'

def next (c : DialogParams) (s : ConnectDialog) : DialogAction → ConnectDialog
  | .connect check => s.connect check
  | .disconnect => s.disconnect
  | .quit | .close => s.onDestroy
  | .launch started => s.startTask c started
  | .handle started =>
    match s.posted with
    | event :: posted => onEvent c { s with posted } started event
    | [] => s
  | .destroy => { s with controller := s.controller.terminate }
  | .post success => s.afterPost success
  | .lost => { s with controller := afterLost s.controller }
  | .handshake a => s.afterHandshake a

end ConnectDialog

/-- The dialog, the controller and the launched processes, in any interleaving. -/
def connectDialog (c : DialogParams) : Machine ConnectDialog DialogAction :=
  guarded (ConnectDialog.enabled c) (ConnectDialog.next c)

end FortiRdp.Ui
