/-
What the code reads from the machine: the clocks, each with a value for every reading, and the date
functions of the C library.
-/
import FortiRdp.Run.Prog
import FortiRdp.Util.ObfString

namespace FortiRdp.Util

structure Env where
  clock : Nat → Nat
  tick : Nat → Nat
  now : Nat → Int
  reads : Nat

/-- A program that reads the machine and may throw. -/
abbrev EnvM := EStateM Exn Env

/-- `std::clock`. -/
def readClock : EnvM Nat := fun s => .ok (s.clock s.reads) { s with reads := s.reads + 1 }

/-- `GetTickCount64`, in milliseconds. -/
def readTick : EnvM Nat := fun s => .ok (s.tick s.reads) { s with reads := s.reads + 1 }

/-- `system_clock::now` as a `time_t`, in seconds. -/
def readNow : EnvM Int := fun s => .ok (s.now s.reads) { s with reads := s.reads + 1 }

/-- An obfuscated string built from a plain one takes its key from the clock. -/
def newObf (s : Bytes) : EnvM ObfString := do
  pure (ObfString.ofBytes (← readClock) s)

theorem newObf_hides (s : Bytes) (env : Env) : ∃ o env', newObf s env = .ok o env' ∧ o.Hides s :=
  ⟨_, _, rfl, ObfString.hides_ofBytes _ s⟩

/-- The fields of a `tm` that a date sets. -/
structure Tm where
  sec : Int
  min : Int
  hour : Int
  mday : Int
  mon : Int
  year : Int
  deriving DecidableEq, Repr

/-- `strptime`, on a text and a format, and `mktime`, for the time zone of the machine. -/
structure DateLib where
  strptime : Bytes → Bytes → Option Tm
  mktime : Tm → Int

/-- Date functions that know no format. -/
def noDates : DateLib := ⟨fun _ _ => none, fun _ => 0⟩

/-- A machine whose clocks stand still. -/
def Env.still : Env := { clock := fun _ => 0, tick := fun _ => 0, now := fun _ => 0, reads := 0 }

/-! ## Timers -/

/-- `Timer`, with the time it is due. -/
structure Timer where
  dueTime : Nat
  deriving DecidableEq, Repr

/-- `Timer::start`. -/
def Timer.start (duration : Nat) : EnvM Timer := do
  pure ⟨(← readTick) + duration⟩

/-- `Timer::is_elapsed`. -/
def Timer.isElapsed (t : Timer) : EnvM Bool := do
  pure (decide (t.dueTime < (← readTick)))

end FortiRdp.Util
