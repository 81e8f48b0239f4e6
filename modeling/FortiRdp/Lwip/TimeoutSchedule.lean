/-
The timeouts against an agenda, whose times are numbers without a bound. As long as no timeout is longer than
`sys_timeout` says and the checks are not too far apart, the list of lwIP is the list of the agenda modulo 2^32 at
any time, however often the clock has gone through zero: nothing is called before it is due, out of order, twice or
not at all, and the tunneler does not sleep beyond the first timeout.
-/
import FortiRdp.Lwip.Timeouts
import FortiRdp.Run.Agenda

namespace FortiRdp.Lwip

open FortiRdp.Run

/-! ## The schedule -/

inductive SchedulePhase (U : Type) where
  | idle
  | loop (start : Nat)
  | handler (start : Nat) (entry : Entry (Callback U))

/-- What the timeouts are meant to do. -/
structure Schedule (U : Type) where
  agenda : Agenda (Callback U)
  tcpActive : Bool
  phase : SchedulePhase U
  checked : Nat

namespace Schedule

variable {U : Type} (q : Schedule U)

/-- A new timeout, as long as there are entries. -/
def add (delay : Nat) (callback : Callback U) : Schedule U :=
  if mempNumSysTimeout ≤ q.agenda.pending.length then q else { q with agenda := q.agenda.add delay callback }

def tcpNeeded (pcbs : Bool) : Schedule U :=
  if !q.tcpActive && pcbs then { q with tcpActive := true }.add tcpTmrInterval.toNat .tcpipTcpTimer else q

/-- A cyclic timer goes on from its own time, or from now when its next time is over already. -/
def nextDelay (due interval : Nat) : Nat :=
  if due + interval < q.agenda.clock then interval else due + interval - q.agenda.clock

def handlerDone (pcbs : Bool) (e : Entry (Callback U)) : Schedule U :=
  match e.what with
  | .tcpipTcpTimer => if pcbs then q.add tcpTmrInterval.toNat .tcpipTcpTimer else { q with tcpActive := false }
  | .lwipCyclicTimer cyclic =>
    q.add (q.nextDelay e.due (lwipCyclicTimers.get cyclic).intervalMs.toNat) (.lwipCyclicTimer cyclic)
  | .other _ => q

def turn (start : Nat) : Schedule U :=
  match q.agenda.take start with
  | none => { q with phase := .idle, checked := start }
  | some (e, agenda) => { q with agenda := agenda, phase := .handler start e }

def zero (clock : Nat) : Schedule U := { agenda := .empty clock, tcpActive := false, phase := .idle, checked := clock }

def start (clock : Nat) : Schedule U :=
  startedTimers.foldl (fun q i => q.add (lwipCyclicTimers.get i).intervalMs.toNat (.lwipCyclicTimer i)) (zero clock)

end Schedule

def schedule (U : Type) [DecidableEq U] : Machine (Schedule U) (TimeoutAction U)
  | q, .elapse msecs => some { q with agenda := q.agenda.elapse msecs }
  | q, .sysTimeout msecs u => some (q.add msecs.toNat (.other u))
  | q, .sysUntimeout u => some { q with agenda := q.agenda.cancel fun c => decide (c = .other u) }
  | q, .tcpTimerNeeded pcbs => some (q.tcpNeeded pcbs)
  | q, .sysCheckTimeouts =>
    match q.phase with
    | .idle => some { q with phase := .loop q.agenda.clock }
    | .loop _ | .handler _ _ => none
  | q, .turn =>
    match q.phase with
    | .loop start => some (q.turn start)
    | .idle | .handler _ _ => none
  | q, .handlerDone pcbs =>
    match q.phase with
    | .handler start e => some { q.handlerDone pcbs e with phase := .loop start }
    | .idle | .loop _ => none

/-! ## The relation -/

/-- An entry as the list of lwIP has it. -/
def timeo {U : Type} (e : Entry (Callback U)) : SysTimeo U := { time := .ofNat e.due, callback := e.what }

def SchedulePhase.seen {U : Type} : SchedulePhase U → CheckPhase U
  | .idle => .idle
  | .loop start => .loop start
  | .handler start e => .handler start e.what

/-- The times of a phase: the check started after the last one, and what it calls was due by then. -/
def SchedulePhase.Timed {U : Type} (checked clock : Nat) : SchedulePhase U → Prop
  | .idle => True
  | .loop start => checked ≤ start ∧ start ≤ clock
  | .handler start e => checked ≤ start ∧ start ≤ clock ∧ checked ≤ e.due ∧ e.due ≤ start

/-- The times that matter lie together: nothing that is pending was due before the last check. -/
structure Timed {U : Type} (q : Schedule U) : Prop where
  recent : q.agenda.clock ≤ q.checked + 2 ^ 30
  passed : q.checked ≤ q.agenda.clock
  pending : ∀ e ∈ q.agenda.pending, q.checked ≤ e.due ∧ e.due ≤ q.agenda.clock + maxMsecs
  phase : q.phase.Timed q.checked q.agenda.clock

/-- The variables of lwIP say modulo 2^32 what the schedule says. -/
structure Follows {U : Type} (s : Timeouts U) (q : Schedule U) : Prop where
  clock : s.clock = q.agenda.clock
  checked : s.checked = q.checked
  active : s.tcpipTcpTimerActive = q.tcpActive
  phase : s.phase = q.phase.seen
  list : s.nextTimeout = q.agenda.pending.map timeo
  calls : s.calls = q.agenda.taken.map fun e => (e.what, .ofNat e.due)
  due : ∀ start e, q.phase = .handler start e → s.currentTimeoutDueTime = .ofNat e.due
  timed : Timed q

/-- No timeout is longer than `sys_timeout` asks for, and the last complete check started at most 2^30 milliseconds
ago, some twelve days. -/
def Punctual {U : Type} (s : Timeouts U) : TimeoutAction U → Prop
  | .elapse msecs => s.clock + msecs ≤ s.checked + 2 ^ 30
  | .sysTimeout msecs _ => msecs.toNat ≤ maxMsecs
  | _ => True

instance {U : Type} (s : Timeouts U) : ∀ a : TimeoutAction U, Decidable (Punctual s a)
  | .elapse _ | .sysTimeout _ _ => by unfold Punctual; infer_instance
  | .sysUntimeout _ | .tcpTimerNeeded _ | .sysCheckTimeouts | .turn | .handlerDone _ => by unfold Punctual; infer_instance

variable {U : Type} {s : Timeouts U} {q : Schedule U}

theorem maxMsecs_lt : maxMsecs < 2 ^ 30 := by decide

/-! ## Phases -/

theorem seen_idle {p : SchedulePhase U} (h : p.seen = .idle) : p = .idle := by
  cases p with
  | idle => rfl
  | loop _ => cases h
  | handler _ _ => cases h

theorem seen_loop {p : SchedulePhase U} {start : Nat} (h : p.seen = .loop start) : p = .loop start := by
  cases p with
  | idle => cases h
  | loop _ => cases h; rfl
  | handler _ _ => cases h

theorem seen_handler {p : SchedulePhase U} {start : Nat} {c : Callback U} (h : p.seen = .handler start c) :
    ∃ e, p = .handler start e ∧ e.what = c := by
  cases p with
  | idle => cases h
  | loop _ => cases h
  | handler start e => cases h; exact ⟨e, rfl, rfl⟩

/-! ## The list -/

/-- A new entry gets its place in the list of lwIP as it does in the agenda. -/
theorem link_timeo {l : List (Entry (Callback U))} {e : Entry (Callback U)}
    (h : ∀ x ∈ l, e.due < x.due + 2 ^ 31 ∧ x.due < e.due + 2 ^ 31) :
    (e.insert l).map timeo = link (timeo e) (l.map timeo) := by
  rw [link_eq]
  refine List.map_orderedInsert _ _ timeo l e (fun x hx => ?_) fun x hx => ?_
  · have hcmp := timeLessThan_ofNat (h x hx).2 (h x hx).1
    show x.due < e.due ↔ timeLessThan (.ofNat x.due) (.ofNat e.due) = true
    rw [hcmp, decide_eq_true_iff]
  · have hcmp := timeLessThan_ofNat (h x hx).1 (h x hx).2
    show e.due < x.due ↔ timeLessThan (.ofNat e.due) (.ofNat x.due) = true
    rw [hcmp, decide_eq_true_iff]

/-- Adding a timeout, whatever the phase. -/
theorem follows_add (h : Follows s q) {delay : Nat} (hd : delay ≤ maxMsecs) (callback : Callback U) :
    Follows (s.sysTimeoutAbs (.ofNat (q.agenda.clock + delay)) callback) (q.add delay callback) := by
  unfold Timeouts.sysTimeoutAbs Schedule.add
  rw [h.list, List.length_map]
  split
  · exact h
  · have hmax := maxMsecs_lt
    have hlist : (q.agenda.add delay callback).pending.map timeo =
        link { time := .ofNat (q.agenda.clock + delay), callback := callback } (q.agenda.pending.map timeo) :=
      link_timeo fun x hx => by
        obtain ⟨hlow, hhigh⟩ := h.timed.pending x hx
        have hrecent := h.timed.recent
        have hpassed := h.timed.passed
        show q.agenda.clock + delay < x.due + 2 ^ 31 ∧ x.due < q.agenda.clock + delay + 2 ^ 31
        omega
    refine ⟨h.clock, h.checked, h.active, h.phase, hlist.symm, h.calls, h.due,
      h.timed.recent, h.timed.passed, fun e he => ?_, h.timed.phase⟩
    rcases mem_insert.1 he with rfl | he
    · have hpassed := h.timed.passed
      show q.checked ≤ q.agenda.clock + delay ∧ q.agenda.clock + delay ≤ q.agenda.clock + maxMsecs
      omega
    · exact h.timed.pending e he

theorem follows_sysTimeout (h : Follows s q) {msecs : UInt32} (hd : msecs.toNat ≤ maxMsecs) (callback : Callback U) :
    Follows (s.sysTimeout msecs callback) (q.add msecs.toNat callback) := by
  unfold Timeouts.sysTimeout Timeouts.sysNow
  rw [ofNat_add, h.clock]
  exact follows_add h hd callback

theorem tcpTmrInterval_le : tcpTmrInterval.toNat ≤ maxMsecs := by decide

theorem follows_tcpTimerNeeded (h : Follows s q) (pcbs : Bool) : Follows (s.tcpTimerNeeded pcbs) (q.tcpNeeded pcbs) := by
  unfold Timeouts.tcpTimerNeeded Schedule.tcpNeeded
  rw [h.active]
  split
  · have hactive : Follows { s with tcpipTcpTimerActive := true } { q with tcpActive := true } :=
      ⟨h.clock, h.checked, rfl, h.phase, h.list, h.calls, h.due,
        ⟨h.timed.recent, h.timed.passed, h.timed.pending, h.timed.phase⟩⟩
    exact follows_sysTimeout hactive tcpTmrInterval_le .tcpipTcpTimer
  · exact h

/-! ## The check -/

@[simp] theorem add_checked (delay : Nat) (callback : Callback U) : (q.add delay callback).checked = q.checked := by
  unfold Schedule.add; split <;> rfl

@[simp] theorem add_clock (delay : Nat) (callback : Callback U) :
    (q.add delay callback).agenda.clock = q.agenda.clock := by
  unfold Schedule.add; split <;> rfl

theorem handlerDone_times (pcbs : Bool) (e : Entry (Callback U)) :
    (q.handlerDone pcbs e).checked = q.checked ∧ (q.handlerDone pcbs e).agenda.clock = q.agenda.clock := by
  unfold Schedule.handlerDone
  split
  · split
    · exact ⟨add_checked .., add_clock ..⟩
    · exact ⟨rfl, rfl⟩
  · exact ⟨add_checked .., add_clock ..⟩
  · exact ⟨rfl, rfl⟩

theorem follows_loop (h : Follows s q) {start : Nat} (hs : q.checked ≤ start) (hs' : start ≤ q.agenda.clock) :
    Follows { s with phase := .loop start } { q with phase := .loop start } :=
  ⟨h.clock, h.checked, h.active, rfl, h.list, h.calls, fun _ _ he => (by cases he),
    ⟨h.timed.recent, h.timed.passed, h.timed.pending, hs, hs'⟩⟩

theorem interval_le : ∀ cyclic : Fin 3, (lwipCyclicTimers.get cyclic).intervalMs.toNat ≤ 1000 := by decide

/-- A cyclic timer gets its next time. -/
theorem follows_lwipCyclicTimer (h : Follows s q) {start : Nat} {e : Entry (Callback U)}
    (hphase : q.phase = .handler start e)
    (cyclic : Fin 3) : Follows (s.lwipCyclicTimer cyclic)
      (q.add (q.nextDelay e.due (lwipCyclicTimers.get cyclic).intervalMs.toNat) (.lwipCyclicTimer cyclic)) := by
  have hinterval := interval_le cyclic
  have htimed := h.timed.phase
  rw [hphase] at htimed
  obtain ⟨hlow, hhigh, hdue, hdue'⟩ := htimed
  have hrecent := h.timed.recent
  unfold Timeouts.lwipCyclicTimer
  simp only [Timeouts.sysNow, h.clock, h.due start e hphase, ofNat_add]
  rw [timeLessThan_ofNat (by omega) (by omega)]
  unfold Schedule.nextDelay
  have hmax : 1000 ≤ maxMsecs := by decide
  by_cases hover : e.due + (lwipCyclicTimers.get cyclic).intervalMs.toNat < q.agenda.clock
  · rw [if_pos (decide_eq_true hover), if_pos hover]
    exact follows_add h (hinterval.trans hmax) _
  · rw [if_neg (by simpa using hover), if_neg hover]
    have hsum : e.due + (lwipCyclicTimers.get cyclic).intervalMs.toNat =
        q.agenda.clock + (e.due + (lwipCyclicTimers.get cyclic).intervalMs.toNat - q.agenda.clock) := by omega
    rw [hsum, Nat.add_sub_cancel_left]
    exact follows_add h (by omega) _

theorem follows_handlerDone (h : Follows s q) {start : Nat} {e : Entry (Callback U)} (hphase : q.phase = .handler start e)
    (pcbs : Bool) : Follows (s.handlerDone pcbs e.what) (q.handlerDone pcbs e) := by
  unfold Schedule.handlerDone
  cases he : e.what with
  | tcpipTcpTimer =>
    show Follows (s.tcpipTcpTimer pcbs) _
    unfold Timeouts.tcpipTcpTimer
    cases pcbs with
    | true => exact follows_sysTimeout h tcpTmrInterval_le .tcpipTcpTimer
    | false =>
      exact ⟨h.clock, h.checked, rfl, h.phase, h.list, h.calls, h.due,
        ⟨h.timed.recent, h.timed.passed, h.timed.pending, h.timed.phase⟩⟩
  | lwipCyclicTimer cyclic => exact follows_lwipCyclicTimer h hphase cyclic
  | other u => exact h

/-- A turn calls nobody when the first entry is not due. -/
theorem turn_idle {start : Nat} (h : ∀ t ∈ s.nextTimeout.head?, timeLessThan (.ofNat start) t.time = true) :
    s.turn start = { s with phase := .idle, checked := start } := by
  unfold Timeouts.turn
  split
  · rfl
  · rename_i t rest hlist
    rw [hlist] at h
    rw [if_pos (h t rfl)]

theorem turn_call {start : Nat} {t : SysTimeo U} {rest : List (SysTimeo U)} (hlist : s.nextTimeout = t :: rest)
    (h : timeLessThan (.ofNat start) t.time = false) : s.turn start =
      { s with
        nextTimeout := rest, currentTimeoutDueTime := t.time, phase := .handler start t.callback
        calls := s.calls ++ [(t.callback, t.time)] } := by
  unfold Timeouts.turn
  rw [hlist]
  simp only [h]
  rfl

theorem follows_turn (h : Follows s q) {start : Nat} (hphase : q.phase = .loop start) :
    Follows (s.turn start) (q.turn start) := by
  have hmax := maxMsecs_lt
  have hrecent := h.timed.recent
  have hpassed := h.timed.passed
  obtain ⟨hlow, hhigh⟩ : q.checked ≤ start ∧ start ≤ q.agenda.clock := by
    have htimed := h.timed.phase
    rw [hphase] at htimed
    exact htimed
  -- the first entry is compared with the start of the check as their times are
  have hcmp : ∀ e ∈ q.agenda.pending, timeLessThan (.ofNat start) (timeo e).time = decide (start < e.due) := by
    intro e he
    obtain ⟨hlow', hhigh'⟩ := h.timed.pending e he
    exact timeLessThan_ofNat (by omega) (by omega)
  unfold Schedule.turn
  cases htake : q.agenda.take start with
  | none =>
    have hnone := Agenda.take_none hhigh htake
    have hidle : s.turn start = { s with phase := .idle, checked := start } := by
      refine turn_idle fun t ht => ?_
      rw [h.list] at ht
      obtain ⟨e, he, rfl⟩ := List.mem_map.1 (List.mem_of_mem_head? ht)
      rw [hcmp e he, decide_eq_true_iff]
      exact hnone e he
    rw [hidle]
    refine ⟨h.clock, rfl, h.active, rfl, h.list, h.calls, fun _ _ he => (by cases he), ?_⟩
    exact ⟨hrecent.trans (Nat.add_le_add_right hlow _), hhigh,
      fun e he => ⟨(hnone e he).le, (h.timed.pending e he).2⟩, trivial⟩
  | some p =>
    obtain ⟨e, agenda⟩ := p
    obtain ⟨hpending, hdue, -, htaken, hclock, -, -⟩ := Agenda.take_some htake
    have he : e ∈ q.agenda.pending := by rw [hpending]; exact List.mem_cons_self ..
    have hlist : s.nextTimeout = timeo e :: agenda.pending.map timeo := by rw [h.list, hpending]; rfl
    have hless : timeLessThan (.ofNat start) (timeo e).time = false := by
      rw [hcmp e he]
      exact decide_eq_false (Nat.not_lt.2 hdue)
    rw [turn_call hlist hless]
    refine ⟨h.clock.trans hclock.symm, h.checked, h.active, rfl, rfl, ?_, fun _ _ heq => (by cases heq; rfl), ?_⟩
    · show s.calls ++ _ = agenda.taken.map _
      rw [htaken, List.map_append, h.calls]
      rfl
    · refine ⟨by rw [hclock]; exact hrecent, by rw [hclock]; exact hpassed, fun x hx => ?_, ?_⟩
      · rw [hclock]
        exact h.timed.pending x (by rw [hpending]; exact List.mem_cons_of_mem _ hx)
      · rw [hclock]
        exact ⟨hlow, hhigh, (h.timed.pending e he).1, hdue⟩

/-! ## Runs -/

theorem follows_elapse (h : Follows s q) {msecs : Nat} (hp : s.clock + msecs ≤ s.checked + 2 ^ 30) :
    Follows { s with clock := s.clock + msecs } { q with agenda := q.agenda.elapse msecs } := by
  have hclock : q.agenda.clock ≤ (q.agenda.elapse msecs).clock := Nat.le_add_right ..
  rw [h.clock, h.checked] at hp
  refine ⟨?_, h.checked, h.active, h.phase, h.list, h.calls, h.due, hp, h.timed.passed.trans hclock, fun e he => ?_, ?_⟩
  · show s.clock + msecs = q.agenda.clock + msecs
    rw [h.clock]
  · obtain ⟨hlow, hhigh⟩ := h.timed.pending e he
    exact ⟨hlow, hhigh.trans (Nat.add_le_add_right hclock _)⟩
  · have htimed := h.timed.phase
    show q.phase.Timed q.checked (q.agenda.elapse msecs).clock
    cases hq : q.phase with
    | idle => trivial
    | loop start =>
      rw [hq] at htimed
      exact ⟨htimed.1, htimed.2.trans hclock⟩
    | handler start e =>
      rw [hq] at htimed
      exact ⟨htimed.1, htimed.2.1.trans hclock, htimed.2.2⟩

theorem follows_start (clock : Nat) : Follows (.sysTimeoutsInit clock : Timeouts U) (.start clock) := by
  have hzero : Follows (.zero clock : Timeouts U) (.zero clock) :=
    ⟨rfl, rfl, rfl, rfl, rfl, rfl, fun _ _ he => (by cases he),
      ⟨Nat.le_add_right .., le_rfl, fun _ he => absurd he List.not_mem_nil, trivial⟩⟩
  have hle : ∀ cyclic : Fin 3, (lwipCyclicTimers.get cyclic).intervalMs.toNat ≤ maxMsecs := by decide
  exact follows_sysTimeout (follows_sysTimeout hzero (hle 1) (.lwipCyclicTimer 1)) (hle 2) (.lwipCyclicTimer 2)

variable [DecidableEq U]

theorem follows_sysUntimeout (h : Follows s q) (callback : Callback U) : Follows (s.sysUntimeout callback)
    { q with agenda := q.agenda.cancel fun c => decide (c = callback) } := by
  refine ⟨h.clock, h.checked, h.active, h.phase, ?_, h.calls, h.due,
    ⟨h.timed.recent, h.timed.passed, fun e he => ?_, h.timed.phase⟩⟩
  · show s.nextTimeout.eraseP _ = (q.agenda.pending.eraseP _).map timeo
    rw [h.list, List.eraseP_map]
    rfl
  · exact h.timed.pending e (List.mem_of_mem_eraseP he)

/-- Every step of the timeouts is a step of the schedule. -/
theorem follows_step (s : Timeouts U) (q : Schedule U) (a : TimeoutAction U) (t : Timeouts U) (h : Follows s q)
    (hp : Punctual s a) (hs : timeouts U s a = some t) : ∃ r, schedule U q a = some r ∧ Follows t r := by
  cases a with
  | elapse msecs =>
    cases hs
    exact ⟨_, rfl, follows_elapse h hp⟩
  | sysTimeout msecs u =>
    cases hs
    exact ⟨_, rfl, follows_sysTimeout h hp (.other u)⟩
  | sysUntimeout u =>
    cases hs
    exact ⟨_, rfl, follows_sysUntimeout h (.other u)⟩
  | tcpTimerNeeded pcbs =>
    cases hs
    exact ⟨_, rfl, follows_tcpTimerNeeded h pcbs⟩
  | sysCheckTimeouts =>
    obtain ⟨hphase, rfl⟩ := check_some hs
    have hq := seen_idle (h.phase.symm.trans hphase)
    refine ⟨{ q with phase := .loop q.agenda.clock }, by simp only [schedule, hq], ?_⟩
    have hloop : CheckPhase.loop (U := U) s.clock = .loop q.agenda.clock := congrArg _ h.clock
    rw [hloop]
    exact follows_loop h h.timed.passed le_rfl
  | turn =>
    obtain ⟨start, hphase, rfl⟩ := turn_some hs
    have hq := seen_loop (h.phase.symm.trans hphase)
    exact ⟨q.turn start, by simp only [schedule, hq], follows_turn h hq⟩
  | handlerDone pcbs =>
    obtain ⟨start, c, hphase, rfl⟩ := handlerDone_some hs
    obtain ⟨e, hq, rfl⟩ := seen_handler (h.phase.symm.trans hphase)
    refine ⟨{ q.handlerDone pcbs e with phase := .loop start }, by simp only [schedule, hq], ?_⟩
    obtain ⟨hchecked, hclock⟩ := handlerDone_times (q := q) pcbs e
    have htimed := h.timed.phase
    rw [hq] at htimed
    exact follows_loop (follows_handlerDone h hq pcbs) (by rw [hchecked]; exact htimed.1)
      (by rw [hclock]; exact htimed.2.1)

/-! ## Sleeping -/

end FortiRdp.Lwip

namespace FortiRdp.Net

/-- `Tunneler::compute_sleep_time`: `tv_usec`, with `tv_sec` zero. -/
def computeSleepTime {U : Type} (s : Lwip.Timeouts U) : UInt32 :=
  let sleepTime := s.sysTimeoutsSleeptime
  if sleepTime = Lwip.sysTimeoutsSleeptimeInfinite ∨ 500 < sleepTime then 500 * 1000 else sleepTime * 1000

end FortiRdp.Net

namespace FortiRdp.Lwip

open FortiRdp.Run

variable {U : Type} {s : Timeouts U} {q : Schedule U}

/-- The time to sleep is what is left until the first timeout. -/
theorem sleeptime_eq (h : Follows s q) {e : Entry (Callback U)} {rest : List (Entry (Callback U))}
    (hpending : q.agenda.pending = e :: rest) : s.sysTimeoutsSleeptime.toNat = e.due - q.agenda.clock := by
  have hmax := maxMsecs_lt
  have hrecent := h.timed.recent
  have hpassed := h.timed.passed
  obtain ⟨hlow, hhigh⟩ := h.timed.pending e (by rw [hpending]; exact List.mem_cons_self ..)
  have hlist : s.nextTimeout = timeo e :: rest.map timeo := by rw [h.list, hpending]; rfl
  unfold Timeouts.sysTimeoutsSleeptime Timeouts.sysNow
  rw [hlist, h.clock]
  show (if timeLessThan (.ofNat e.due) (.ofNat q.agenda.clock) = true then 0
    else UInt32.ofNat e.due - .ofNat q.agenda.clock).toNat = _
  rw [timeLessThan_ofNat (by omega) (by omega)]
  by_cases hdue : e.due < q.agenda.clock
  · rw [if_pos (decide_eq_true hdue), Nat.sub_eq_zero_of_le hdue.le]
    rfl
  · rw [if_neg (by simpa using hdue), ofNat_sub (Nat.le_of_not_lt hdue) (by omega)]

theorem computeSleepTime_le (s : Timeouts U) : (Net.computeSleepTime s).toNat ≤ 500000 ∧
    (Net.computeSleepTime s).toNat ≤ s.sysTimeoutsSleeptime.toNat * 1000 := by
  unfold Net.computeSleepTime
  generalize s.sysTimeoutsSleeptime = sleepTime
  have hinfinite : sysTimeoutsSleeptimeInfinite.toNat = 2 ^ 32 - 1 := rfl
  have hlimit : (500 : UInt32).toNat = 500 := rfl
  by_cases h : sleepTime = sysTimeoutsSleeptimeInfinite ∨ 500 < sleepTime
  · have hlong : 500 ≤ sleepTime.toNat := by
      rcases h with h | h
      · rw [h, hinfinite]; decide
      · exact (UInt32.lt_iff_toNat_lt.1 h).le
    simp only [if_pos h]
    exact ⟨le_rfl, Nat.mul_le_mul_right 1000 hlong⟩
  · obtain ⟨-, hshort⟩ := not_or.1 h
    have hle : sleepTime.toNat ≤ 500 := Nat.le_of_not_lt fun hlt => hshort (UInt32.lt_iff_toNat_lt.2 hlt)
    have hmul : (sleepTime * 1000).toNat = sleepTime.toNat * 1000 := by
      rw [UInt32.toNat_mul]
      exact Nat.mod_eq_of_lt (by show sleepTime.toNat * 1000 < 2 ^ 32; omega)
    simp only [if_neg h, hmul]
    exact ⟨Nat.mul_le_mul_right 1000 hle, le_rfl⟩

/-- In a punctual run the timeouts do what the schedule does, action by action: the list is that of the agenda modulo
2^32, and so are the handlers called and their order. What is left to sleep is the time up to the first of them, and
the tunneler waits no longer than half a second nor beyond any timeout. -/
theorem timeouts_follow_schedule [DecidableEq U] (clock : Nat) {as : List (TimeoutAction U)} {s : Timeouts U}
    (hp : Meets (timeouts U) Punctual (.sysTimeoutsInit clock) as)
    (h : exec (timeouts U) (.sysTimeoutsInit clock) as = some s) :
    ∃ q, exec (schedule U) (.start clock) as = some q ∧ Follows s q ∧
      (∀ e rest, q.agenda.pending = e :: rest → s.sysTimeoutsSleeptime.toNat = e.due - q.agenda.clock) ∧
      (Net.computeSleepTime s).toNat ≤ 500000 ∧
      ∀ e ∈ q.agenda.pending,
        q.agenda.clock * 1000 + (Net.computeSleepTime s).toNat ≤ max q.agenda.clock e.due * 1000 := by
  obtain ⟨q, hq, hfollows⟩ := exec_lockstep follows_step (follows_start clock) hp h
  obtain ⟨hhalf, hsleep⟩ := computeSleepTime_le s
  refine ⟨q, hq, hfollows, fun e rest => sleeptime_eq hfollows, hhalf, fun e he => ?_⟩
  cases hpending : q.agenda.pending with
  | nil => rw [hpending] at he; exact absurd he List.not_mem_nil
  | cons first rest =>
    have hfirst : first.due ≤ e.due := by
      have hin := q.agenda.pending_inOrder
      rw [hpending] at hin he
      rcases List.mem_cons.1 he with rfl | he
      · exact le_rfl
      · exact ((List.pairwise_cons.1 hin).1 e he).due_le
    rw [sleeptime_eq hfollows hpending] at hsleep
    omega

/-- The clock goes through zero; one of three timeouts is removed, and the other two are due. -/
def zeroRun : List (TimeoutAction Nat) :=
  [.sysTimeout 800 1, .sysTimeout 700 2, .sysTimeout 300 3, .sysUntimeout 1, .elapse 700, .sysCheckTimeouts, .turn,
    .handlerDone false, .turn]

theorem zeroRun_isSome : (exec (timeouts Nat) (.sysTimeoutsInit (2 ^ 32 - 500)) zeroRun).isSome = true := by decide +kernel

theorem timeouts_follow_schedule_zero : ∃ q, exec (schedule Nat) (.start (2 ^ 32 - 500)) zeroRun = some q ∧
    q.agenda.taken.map Entry.what = [.other 3, .other 2] := by
  obtain ⟨q, hq, hfollows, -⟩ :=
    timeouts_follow_schedule (2 ^ 32 - 500) (by decide +kernel : Meets (timeouts Nat) Punctual _ zeroRun)
      (Option.some_get zeroRun_isSome).symm
  have hcalls := congrArg (List.map Prod.fst) hfollows.calls
  rw [List.map_map] at hcalls
  exact ⟨q, hq, hcalls.symm.trans (by decide +kernel)⟩

end FortiRdp.Lwip
