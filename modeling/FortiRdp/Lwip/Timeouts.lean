/-
The timeouts of lwIP (`timeouts.c`): one list of entries from a pool, in the order of their times, which are taken
modulo 2^32 as `sys_now` is. `sys_check_timeouts` calls the handlers of the entries whose time has come; while a
handler runs, timeouts may be added and removed and time passes, so the check is taken in turns. Here the clock
runs on: what the code sees of it are its low 32 bits.
-/
import Mathlib
import FortiRdp.Run.Machine

namespace FortiRdp.Lwip

open FortiRdp.Run

def lwipMaxTimeout : UInt32 := 0x7fffffff

/-- `TIME_LESS_THAN`. -/
def timeLessThan (t compareTo : UInt32) : Bool := decide (lwipMaxTimeout < t - compareTo)

/-- `LWIP_UINT32_MAX / 4`, the longest timeout. -/
def maxMsecs : Nat := (2 ^ 32 - 1) / 4

def sysTimeoutsSleeptimeInfinite : UInt32 := 0xffffffff

inductive CyclicHandler where
  | tcpTmr
  | ipReassTmr
  | dnsTmr
  deriving DecidableEq, Repr

structure CyclicTimer where
  intervalMs : UInt32
  handler : CyclicHandler
  deriving DecidableEq, Repr

def tcpTmrInterval : UInt32 := 250

/-- `lwip_cyclic_timers`, with the options of `lwipopts.h`. -/
def lwipCyclicTimers : Vector CyclicTimer 3 :=
  #v[{ intervalMs := tcpTmrInterval, handler := .tcpTmr },
    { intervalMs := 1000, handler := .ipReassTmr },
    { intervalMs := 1000, handler := .dnsTmr }]

/-- The timers that `sys_timeouts_init` starts: that of TCP, the first of the table, is started on demand. -/
def startedTimers : List (Fin 3) := [1, 2]

/-- `MEMP_NUM_SYS_TIMEOUT`: one for TCP, one for the reassembly, `PPP_NUM_TIMEOUTS`, two for each of
`MEMP_NUM_TCP_PCB`. -/
def mempNumSysTimeout : Nat := 1 + 1 + 3 + 2 * 64

/-- A handler with its argument: the two of this file, which no other file can name, the cyclic one with an entry of
the table, and those of others. -/
inductive Callback (U : Type) where
  | tcpipTcpTimer
  | lwipCyclicTimer (cyclic : Fin 3)
  | other (u : U)
  deriving DecidableEq

/-- `struct sys_timeo`. -/
structure SysTimeo (U : Type) where
  time : UInt32
  callback : Callback U
  deriving DecidableEq

/-- Where `sys_check_timeouts` is, with the time at which it started. -/
inductive CheckPhase (U : Type) where
  | idle
  | loop (start : Nat)
  | handler (start : Nat) (callback : Callback U)
  deriving DecidableEq

/-- The variables of the file and the clock. `checked` is when the last complete check started; `calls` are the
handlers called so far, each with the time of its entry. -/
structure Timeouts (U : Type) where
  nextTimeout : List (SysTimeo U)
  currentTimeoutDueTime : UInt32
  tcpipTcpTimerActive : Bool
  phase : CheckPhase U
  clock : Nat
  checked : Nat
  calls : List (Callback U × UInt32)
  deriving DecidableEq

/-! ## The list -/

section List

variable {U : Type}

/-- The loop of `sys_timeout_abs`: behind `t` or further down. -/
def linkAfter (timeout t : SysTimeo U) : List (SysTimeo U) → List (SysTimeo U)
  | [] => [t, timeout]
  | next :: rest =>
    if timeLessThan timeout.time next.time then t :: timeout :: next :: rest else t :: linkAfter timeout next rest

/-- The new entry gets its place. -/
def link (timeout : SysTimeo U) : List (SysTimeo U) → List (SysTimeo U)
  | [] => [timeout]
  | next :: rest => if timeLessThan timeout.time next.time then timeout :: next :: rest else linkAfter timeout next rest

theorem linkAfter_eq (timeout : SysTimeo U) :
    ∀ (t : SysTimeo U) (l : List (SysTimeo U)), linkAfter timeout t l = t :: link timeout l
  | t, [] => rfl
  | t, next :: rest => by
    rw [linkAfter, link, linkAfter_eq timeout next rest]
    split <;> rfl

theorem link_eq (timeout : SysTimeo U) (l : List (SysTimeo U)) :
    link timeout l = l.orderedInsert (fun a b => timeLessThan a.time b.time = true) timeout := by
  induction l with
  | nil => rfl
  | cons next rest ih => rw [link, linkAfter_eq, List.orderedInsert_cons, ih]

end List

namespace Timeouts

variable {U : Type} (s : Timeouts U)

def sysNow : UInt32 := .ofNat s.clock

/-- `sys_timeout_abs`; without an entry in the pool the timeout is lost. -/
def sysTimeoutAbs (absTime : UInt32) (callback : Callback U) : Timeouts U :=
  if mempNumSysTimeout ≤ s.nextTimeout.length then s
  else { s with nextTimeout := link { time := absTime, callback := callback } s.nextTimeout }

/-- `sys_timeout`. -/
def sysTimeout (msecs : UInt32) (callback : Callback U) : Timeouts U := s.sysTimeoutAbs (s.sysNow + msecs) callback

/-- `sys_untimeout`: the first entry with the handler and the argument. -/
def sysUntimeout [DecidableEq U] (callback : Callback U) : Timeouts U :=
  { s with nextTimeout := s.nextTimeout.eraseP fun t => decide (t.callback = callback) }

/-- `tcp_timer_needed`; `pcbs` when there are active or time-wait pcbs. -/
def tcpTimerNeeded (pcbs : Bool) : Timeouts U :=
  if !s.tcpipTcpTimerActive && pcbs then
    { s with tcpipTcpTimerActive := true }.sysTimeout tcpTmrInterval .tcpipTcpTimer
  else s

/-- The end of `lwip_cyclic_timer`, when its handler is done. -/
def lwipCyclicTimer (cyclic : Fin 3) : Timeouts U :=
  let now := s.sysNow
  let intervalMs := (lwipCyclicTimers.get cyclic).intervalMs
  let nextTimeoutTime := s.currentTimeoutDueTime + intervalMs
  if timeLessThan nextTimeoutTime now then s.sysTimeoutAbs (now + intervalMs) (.lwipCyclicTimer cyclic)
  else s.sysTimeoutAbs nextTimeoutTime (.lwipCyclicTimer cyclic)

/-- The end of `tcpip_tcp_timer`, when `tcp_tmr` is done. -/
def tcpipTcpTimer (pcbs : Bool) : Timeouts U :=
  if pcbs then s.sysTimeout tcpTmrInterval .tcpipTcpTimer else { s with tcpipTcpTimerActive := false }

/-- What a handler of this file does last. -/
def handlerDone (pcbs : Bool) : Callback U → Timeouts U
  | .tcpipTcpTimer => s.tcpipTcpTimer pcbs
  | .lwipCyclicTimer cyclic => s.lwipCyclicTimer cyclic
  | .other _ => s

/-- One turn of the loop of `sys_check_timeouts`. -/
def turn (start : Nat) : Timeouts U :=
  match s.nextTimeout with
  | [] => { s with phase := .idle, checked := start }
  | t :: rest =>
    if timeLessThan (.ofNat start) t.time then { s with phase := .idle, checked := start }
    else
      { s with
        nextTimeout := rest, currentTimeoutDueTime := t.time, phase := .handler start t.callback
        calls := s.calls ++ [(t.callback, t.time)] }

/-- `sys_timeouts_sleeptime`. -/
def sysTimeoutsSleeptime : UInt32 :=
  match s.nextTimeout with
  | [] => sysTimeoutsSleeptimeInfinite
  | t :: _ => if timeLessThan t.time s.sysNow then 0 else t.time - s.sysNow

/-- Before `sys_timeouts_init`. -/
def zero (clock : Nat) : Timeouts U :=
  { nextTimeout := [], currentTimeoutDueTime := 0, tcpipTcpTimerActive := false, phase := .idle
    clock := clock, checked := clock, calls := [] }

def sysTimeoutsInit (clock : Nat) : Timeouts U :=
  startedTimers.foldl (fun s i => s.sysTimeout (lwipCyclicTimers.get i).intervalMs (.lwipCyclicTimer i)) (zero clock)

end Timeouts

/-! ## The machine -/

/-- What happens: time passes, any code of the program or a handler calls a function of the file, the check goes
on by a turn, a handler returns. -/
inductive TimeoutAction (U : Type) where
  | elapse (msecs : Nat)
  | sysTimeout (msecs : UInt32) (u : U)
  | sysUntimeout (u : U)
  | tcpTimerNeeded (pcbs : Bool)
  | sysCheckTimeouts
  | turn
  | handlerDone (pcbs : Bool)

def timeouts (U : Type) [DecidableEq U] : Machine (Timeouts U) (TimeoutAction U)
  | s, .elapse msecs => some { s with clock := s.clock + msecs }
  | s, .sysTimeout msecs u => some (s.sysTimeout msecs (.other u))
  | s, .sysUntimeout u => some (s.sysUntimeout (.other u))
  | s, .tcpTimerNeeded pcbs => some (s.tcpTimerNeeded pcbs)
  | s, .sysCheckTimeouts => if s.phase = .idle then some { s with phase := .loop s.clock } else none
  | s, .turn =>
    match s.phase with
    | .loop start => some (s.turn start)
    | .idle | .handler _ _ => none
  | s, .handlerDone pcbs =>
    match s.phase with
    | .handler start callback => some { s.handlerDone pcbs callback with phase := .loop start }
    | .idle | .loop _ => none

section Steps

variable {U : Type} [DecidableEq U] {s t : Timeouts U}

theorem check_some (h : timeouts U s .sysCheckTimeouts = some t) :
    s.phase = .idle ∧ t = { s with phase := .loop s.clock } := by
  simp only [timeouts] at h
  split at h
  · rename_i hphase
    exact ⟨hphase, (Option.some.inj h).symm⟩
  · cases h

theorem turn_some (h : timeouts U s .turn = some t) : ∃ start, s.phase = .loop start ∧ t = s.turn start := by
  simp only [timeouts] at h
  split at h
  · rename_i start hphase
    exact ⟨start, hphase, (Option.some.inj h).symm⟩
  · cases h
  · cases h

theorem handlerDone_some {pcbs : Bool} (h : timeouts U s (.handlerDone pcbs) = some t) :
    ∃ start c, s.phase = .handler start c ∧ t = { s.handlerDone pcbs c with phase := .loop start } := by
  simp only [timeouts] at h
  split at h
  · rename_i start c hphase
    exact ⟨start, c, hphase, (Option.some.inj h).symm⟩
  · cases h
  · cases h

end Steps

/-! ## Times modulo 2^32 -/

/-- Two times less than 2^31 apart are compared as they are. -/
theorem timeLessThan_ofNat {t u : Nat} (h : t < u + 2 ^ 31) (h' : u < t + 2 ^ 31) :
    timeLessThan (.ofNat t) (.ofNat u) = decide (t < u) := by
  unfold timeLessThan
  rw [decide_eq_decide, UInt32.lt_iff_toNat_lt, UInt32.toNat_sub, UInt32.toNat_ofNat', UInt32.toNat_ofNat']
  have hmax : lwipMaxTimeout.toNat = 2 ^ 31 - 1 := rfl
  omega

theorem ofNat_sub {t u : Nat} (h : u ≤ t) (h' : t < u + 2 ^ 31) : (UInt32.ofNat t - UInt32.ofNat u).toNat = t - u := by
  rw [UInt32.toNat_sub, UInt32.toNat_ofNat', UInt32.toNat_ofNat']
  omega

theorem ofNat_add (t : Nat) (d : UInt32) : UInt32.ofNat t + d = .ofNat (t + d.toNat) := by
  rw [UInt32.ofNat_add, UInt32.ofNat_toNat]

end FortiRdp.Lwip
