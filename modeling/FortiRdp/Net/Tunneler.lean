/-
The main loop of the tunneler (`Tunneler::run`), one action at a time: the select, the passes over the
forwarders, the timers, the deletions and the state switch. Where lwIP runs (while data is received
from the tunnel, a connection is accepted, the timers are checked and the PPP interface is closed) it
may call back any number of times. Forwarders that were deleted stay in the list of the model, since
lwIP may still know them; the list of the code is that of the others.
-/
import FortiRdp.Net.ForwarderPhase

namespace FortiRdp.Net

open FortiRdp.Lwip FortiRdp.Util FortiRdp.Run

inductive TnState where
  | connecting
  | running
  | closing
  | disconnecting
  | stopped
  deriving DecidableEq, Repr

/-- The sockets that `select` reports; the forwarders are meant by their places in the list. -/
structure Ready where
  tunnelWrite : Bool
  tunnelRead : Bool
  listener : Bool
  pfRead : List Nat
  pfWrite : List Nat
  deriving DecidableEq, Repr

/-- Where the loop is. -/
inductive Pc where
  | top
  | send (r : Ready)
  | recv (r : Ready)
  | accept (r : Ready)
  | localIo (r : Ready) (i : Nat)
  | forward (i : Nat)
  | timers
  | purge
  | switch
  | pppClose
  | release
  | stopped
  deriving DecidableEq, Repr

/-- The members and the local variables of `run`. The timers are the numbers of entries of
`sys_timeout`. -/
structure Tunneler where
  state : TnState
  terminate : Bool
  tunnelConnected : Bool
  if4Up : Bool
  pppDead : Bool
  connecting : Bool
  abortTimeout : Bool
  abortTimer : Nat
  disconnectTimeout : Bool
  disconnectTimer : Nat
  maxClients : Nat
  clientsCount : Nat
  hostname : Bytes
  fwds : List Fwd
  pc : Pc
  deriving DecidableEq, Repr

namespace Tunneler

/-- Before the first pass of the loop, with the PPP interface opened. -/
def init (maxClients : Nat) (hostname : Bytes) : Tunneler :=
  { state := .connecting, terminate := false, tunnelConnected := true, if4Up := false, pppDead := false
    connecting := false, abortTimeout := false, abortTimer := 0, disconnectTimeout := false, disconnectTimer := 0
    maxClients := maxClients, clientsCount := 0, hostname := hostname, fwds := [], pc := .top }

end Tunneler

/-! ## The list of forwarders -/

def Fwd.connectedB (w : Fwd) : Bool := !w.deleted && w.pf.state == .connected

def Fwd.connectingB (w : Fwd) : Bool := !w.deleted && w.pf.state == .connecting

def connectedCount (fwds : List Fwd) : Nat := fwds.countP Fwd.connectedB

def hasConnectingForwarders (fwds : List Fwd) : Bool := fwds.any Fwd.connectingB

/-- `abort_all`: the number of forwarders aborted. -/
def abortAll (fwds : List Fwd) : Nat × List Fwd :=
  (connectedCount fwds, fwds.map fun w => if w.deleted then w else w.op .abortConnected)

/-- `delete_having_state`. -/
def deleteHavingState (check : PfState → Bool) (fwds : List Fwd) : List Fwd :=
  fwds.map fun w => if w.deleted = false ∧ check w.pf.state = true then w.op .delete else w

/-! ## The select -/

/-- The listener is in the read set. -/
def Tunneler.listenerSelected (t : Tunneler) : Bool :=
  t.if4Up && !t.connecting && decide (connectedCount t.fwds < t.maxClients)

def Fwd.readSelected (w : Fwd) : Bool := w.connectedB && !w.pf.forwardQueue.isFull

def Fwd.writeSelected (w : Fwd) : Bool :=
  !w.deleted && (w.pf.state == .connected && !w.pf.replyQueue.isEmpty ||
    w.pf.state == .disconnecting && w.pf.localServer)

/-- `select` reports only sockets that are in its sets. -/
def Tunneler.selectable (t : Tunneler) (r : Ready) : Bool :=
  (!r.listener || t.listenerSelected) && r.pfRead.all (fun i => t.fwds[i]?.any Fwd.readSelected) &&
    r.pfWrite.all (fun i => t.fwds[i]?.any Fwd.writeSelected)

/-! ## Actions -/

inductive TnAction where
  | terminate
  | lwip (i : Nat) (e : LwipEvent)
  | ppp (if4Up dead : Bool)
  | abortTimeout
  | disconnectTimeout
  | select (r : Ready)
  | selectTimeout
  | selectError
  | noSelect
  | send (ok : Bool)
  | recv (ok : Bool)
  | accept (rcAccept : Int) (rcQuery : Err) (newOk : Bool) (rcCon : Err)
  | localIo (rcv : RcvAnswer) (a : Alloc) (snd : List SndAnswer)
  | forward (sndbuf : Nat) (answers : List (Nat × Err)) (unsent : Bool) (output : Err)
  | timersDone
  | purge
  | switch
  | pppClosed
  | released

namespace Tunneler

/-- lwIP runs here. -/
def inLwip (t : Tunneler) : Bool :=
  match t.pc with
  | .recv r => r.tunnelRead && t.tunnelConnected
  | .accept _ | .timers | .pppClose | .release | .stopped => true
  | _ => false

/-- `shutdown_tunnel` and `terminate`. -/
def loseTunnel (t : Tunneler) : Tunneler := { t with tunnelConnected := false, terminate := true }

/-- One forwarder of the list, if it is there and not deleted. -/
def onFwd (t : Tunneler) (i : Nat) (o : PfOp) : Tunneler :=
  match t.fwds[i]? with
  | none => t
  | some w => if w.deleted then t else { t with fwds := t.fwds.set i (w.op o) }

/-- The accept of a connection that `select` reported. -/
def acceptConnection (t : Tunneler) (rcAccept : Int) (rcQuery : Err) (newOk : Bool) (rcCon : Err) : Tunneler :=
  let (ok, w) := Fwd.accept t.hostname rcAccept rcQuery newOk rcCon
  { t with fwds := t.fwds ++ [w], connecting := t.connecting || ok }

/-- The end of the loop body. -/
def endLoop (t : Tunneler) : Tunneler := { t with clientsCount := connectedCount t.fwds, pc := .top }

/-- The state switch. -/
def switch (t : Tunneler) : Tunneler :=
  match t.state with
  | .connecting =>
    if t.terminate then { t with state := .closing }.endLoop
    else if t.if4Up then { t with state := .running }.endLoop
    else t.endLoop
  | .running =>
    if t.terminate then
      let (count, fwds) := abortAll t.fwds
      { t with state := .closing, abortTimeout := false, fwds := fwds
               abortTimer := if 0 < count then t.abortTimer + 1 else t.abortTimer }.endLoop
    else { t with connecting := t.connecting && hasConnectingForwarders t.fwds }.endLoop
  | .closing =>
    if t.fwds.all Fwd.deleted = true ∨ t.abortTimeout = true then { t with state := .disconnecting, pc := .pppClose }
    else t.endLoop
  | .disconnecting =>
    if t.pppDead = true ∨ t.disconnectTimeout = true then { t.endLoop with pc := .release } else t.endLoop
  | .stopped => t.endLoop

/-- What follows the loop: the timers are removed, the tunnel is shut down, and the list deletes the
forwarders it still has. -/
def finish (t : Tunneler) : Tunneler :=
  { t with
    abortTimer := t.abortTimer - 1, disconnectTimer := t.disconnectTimer - 1, tunnelConnected := false
    state := .stopped, fwds := deleteHavingState (fun _ => true) t.fwds, pc := .stopped }

end Tunneler

/-- `Tunneler::run`. -/
def tunneler : Machine Tunneler TnAction
  | t, .terminate => some { t with terminate := true }
  | t, .lwip i e =>
    if t.inLwip then
      match t.fwds[i]? with
      | none => none
      | some w => (w.lwip e).map fun w => { t with fwds := t.fwds.set i w }
    else none
  | t, .ppp if4Up dead => if t.inLwip then some { t with if4Up := if4Up, pppDead := dead } else none
  | t, .abortTimeout =>
    if t.pc = .timers ∧ 0 < t.abortTimer then some { t with abortTimer := t.abortTimer - 1, abortTimeout := true }
    else none
  | t, .disconnectTimeout =>
    if t.pc = .timers ∧ 0 < t.disconnectTimer then
      some { t with disconnectTimer := t.disconnectTimer - 1, disconnectTimeout := true }
    else none
  | t, .select r =>
    if t.pc = .top ∧ t.tunnelConnected = true ∧ t.selectable r = true then some { t with pc := .send r } else none
  | t, .selectTimeout =>
    if t.pc = .top ∧ t.tunnelConnected = true then some { t with pc := .forward 0 } else none
  | t, .selectError =>
    if t.pc = .top ∧ t.tunnelConnected = true then some { t with terminate := true, pc := .forward 0 } else none
  | t, .noSelect =>
    if t.pc = .top ∧ t.tunnelConnected = false then some { t with pc := .forward 0 } else none
  | t, .send ok =>
    match t.pc with
    | .send r => some { (if r.tunnelWrite = true ∧ ok = false then t.loseTunnel else t) with pc := .recv r }
    | _ => none
  | t, .recv ok =>
    match t.pc with
    | .recv r =>
      some { (if r.tunnelRead = true ∧ t.tunnelConnected = true ∧ ok = false then t.loseTunnel else t) with
        pc := .accept r }
    | _ => none
  | t, .accept rcAccept rcQuery newOk rcCon =>
    match t.pc with
    | .accept r =>
      some { (if r.listener then t.acceptConnection rcAccept rcQuery newOk rcCon else t) with pc := .localIo r 0 }
    | _ => none
  | t, .localIo rcv a snd =>
    match t.pc with
    | .localIo r i =>
      if i < t.fwds.length then
        some { t.onFwd i (.localIo (r.pfRead.contains i) (r.pfWrite.contains i) rcv a snd) with pc := .localIo r (i + 1) }
      else some { t with pc := .forward 0 }
    | _ => none
  | t, .forward sndbuf answers unsent output =>
    match t.pc with
    | .forward i =>
      if i < t.fwds.length then
        some { t.onFwd i (.forwardPass sndbuf answers unsent output) with pc := .forward (i + 1) }
      else some { t with pc := .timers }
    | _ => none
  | t, .timersDone => if t.pc = .timers then some { t with pc := .purge } else none
  | t, .purge =>
    if t.pc = .purge then
      some { t with fwds := deleteHavingState (· == .disconnected) (deleteHavingState (· == .failed) t.fwds)
                    pc := .switch }
    else none
  | t, .switch => if t.pc = .switch then some t.switch else none
  | t, .pppClosed =>
    if t.pc = .pppClose then
      some { t with disconnectTimeout := false, disconnectTimer := t.disconnectTimer + 1 }.endLoop
    else none
  | t, .released => if t.pc = .release then some t.finish else none

end FortiRdp.Net
