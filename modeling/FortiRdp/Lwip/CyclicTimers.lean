/-
The timers of lwIP itself. The cyclic timers and the TCP timer share the pool with the timeouts of the program; as
long as these leave three entries, each cyclic timer is in the list or running at any time, exactly once, and the
TCP timer is so exactly while it is marked as active. A cyclic timer whose handler is done before its next time does
not drift: it is called for the multiples of its interval.
-/
import FortiRdp.Lwip.Timeouts
import FortiRdp.Run.Agenda

namespace FortiRdp.Lwip

open FortiRdp.Run

variable {U : Type}

def Callback.isOther : Callback U → Bool
  | .other _ => true
  | .tcpipTcpTimer | .lwipCyclicTimer _ => false

/-! ## Lists of entries -/

theorem link_perm (timeout : SysTimeo U) (l : List (SysTimeo U)) : (link timeout l).Perm (timeout :: l) := by
  rw [link_eq]
  exact List.perm_orderedInsert _ timeout l

theorem countP_link (p : SysTimeo U → Bool) (timeout : SysTimeo U) (l : List (SysTimeo U)) :
    (link timeout l).countP p = l.countP p + if p timeout then 1 else 0 := by
  rw [(link_perm timeout l).countP_eq, List.countP_cons]

/-- What does not meet a property stays when an entry that meets it is erased. -/
theorem countP_eraseP {p q : SysTimeo U → Bool} (h : ∀ t, p t = true → q t = false) (l : List (SysTimeo U)) :
    (l.eraseP p).countP q = l.countP q := by
  rw [← (eraseP_perm p l).countP_eq q, List.countP_append]
  cases hfind : l.find? p with
  | none => rw [Option.toList_none, List.countP_nil, Nat.zero_add]
  | some t =>
    have ht := h t (List.find?_some hfind)
    rw [Option.toList_some, List.countP_singleton, ht]
    exact (Nat.zero_add _).symm

/-! ## The timers of lwIP in the list -/

namespace Timeouts

variable [DecidableEq U] (s : Timeouts U)

/-- The entries of a handler. -/
def armed (c : Callback U) : Nat := s.nextTimeout.countP fun t => decide (t.callback = c)

/-- The handler runs. -/
def running (c : Callback U) : Nat :=
  match s.phase with
  | .handler _ c' => if c' = c then 1 else 0
  | .idle | .loop _ => 0

/-- The entries of the program. -/
def users : Nat := s.nextTimeout.countP fun t => t.callback.isOther

/-- The times for which a cyclic timer was called. -/
def times (cyclic : Fin 3) : List UInt32 :=
  (s.calls.filter fun c => decide (c.1 = .lwipCyclicTimer cyclic)).map Prod.snd

end Timeouts

section Adding

variable {s : Timeouts U}

theorem users_add (time : UInt32) {c : Callback U} (hc : c.isOther = false) : (s.sysTimeoutAbs time c).users = s.users := by
  unfold Timeouts.sysTimeoutAbs
  split
  · rfl
  · show (link _ s.nextTimeout).countP _ = _
    rw [countP_link, if_neg (by simp [hc])]
    rfl

theorem users_addOther (time : UInt32) (u : U) : (s.sysTimeoutAbs time (.other u)).users ≤ s.users + 1 := by
  unfold Timeouts.sysTimeoutAbs
  split
  · exact Nat.le_succ _
  · show (link _ s.nextTimeout).countP _ ≤ _
    rw [countP_link]
    exact Nat.add_le_add_left (by split <;> omega) _

@[simp] theorem sysTimeoutAbs_phase (time : UInt32) (c : Callback U) : (s.sysTimeoutAbs time c).phase = s.phase := by
  unfold Timeouts.sysTimeoutAbs; split <;> rfl

@[simp] theorem sysTimeoutAbs_active (time : UInt32) (c : Callback U) :
    (s.sysTimeoutAbs time c).tcpipTcpTimerActive = s.tcpipTcpTimerActive := by
  unfold Timeouts.sysTimeoutAbs; split <;> rfl

@[simp] theorem sysTimeoutAbs_calls (time : UInt32) (c : Callback U) : (s.sysTimeoutAbs time c).calls = s.calls := by
  unfold Timeouts.sysTimeoutAbs; split <;> rfl

@[simp] theorem sysTimeoutAbs_due (time : UInt32) (c : Callback U) :
    (s.sysTimeoutAbs time c).currentTimeoutDueTime = s.currentTimeoutDueTime := by
  unfold Timeouts.sysTimeoutAbs; split <;> rfl

theorem mem_sysTimeoutAbs {time : UInt32} {c : Callback U} {x : SysTimeo U}
    (h : x ∈ (s.sysTimeoutAbs time c).nextTimeout) : x = { time := time, callback := c } ∨ x ∈ s.nextTimeout := by
  unfold Timeouts.sysTimeoutAbs at h
  split at h
  · exact .inr h
  · exact List.mem_cons.1 ((link_perm _ _).mem_iff.1 h)

end Adding

section Timers

variable [DecidableEq U]

/-- What the timers of lwIP have in the list. -/
structure Steady (s : Timeouts U) : Prop where
  cyclic : ∀ i : Fin 3, s.armed (.lwipCyclicTimer i) + s.running (.lwipCyclicTimer i) = if i = 0 then 0 else 1
  tcp : s.armed .tcpipTcpTimer + s.running .tcpipTcpTimer = if s.tcpipTcpTimerActive then 1 else 0
  room : s.users + 3 ≤ mempNumSysTimeout

/-- The program leaves three entries of the pool when it adds a timeout. -/
def Room (s : Timeouts U) : TimeoutAction U → Prop
  | .sysTimeout _ _ => s.users + 3 < mempNumSysTimeout
  | _ => True

instance (s : Timeouts U) : ∀ a : TimeoutAction U, Decidable (Room s a)
  | .sysTimeout _ _ => by unfold Room; infer_instance
  | .elapse _ | .sysUntimeout _ | .tcpTimerNeeded _ | .sysCheckTimeouts | .turn | .handlerDone _ => by
    unfold Room; infer_instance

/-- The next time of the cyclic timer that runs is over. -/
def Timeouts.late (s : Timeouts U) : Bool :=
  match s.phase with
  | .handler _ (.lwipCyclicTimer i) => timeLessThan (s.currentTimeoutDueTime + (lwipCyclicTimers.get i).intervalMs) s.sysNow
  | _ => false

/-- A cyclic timer is done before its next time. -/
def OnTime (s : Timeouts U) : TimeoutAction U → Prop
  | .handlerDone _ => s.late = false
  | _ => True

instance (s : Timeouts U) : ∀ a : TimeoutAction U, Decidable (OnTime s a)
  | .handlerDone _ => by unfold OnTime; infer_instance
  | .elapse _ | .sysTimeout _ _ | .sysUntimeout _ | .tcpTimerNeeded _ | .sysCheckTimeouts | .turn => by
    unfold OnTime; infer_instance

/-! ## The entries -/

variable {s : Timeouts U}

/-- Every entry is of the program, of the TCP timer or of a cyclic timer. -/
theorem length_entries (s : Timeouts U) : s.nextTimeout.length = s.users + s.armed .tcpipTcpTimer +
    (s.armed (.lwipCyclicTimer 0) + s.armed (.lwipCyclicTimer 1) + s.armed (.lwipCyclicTimer 2)) := by
  unfold Timeouts.users Timeouts.armed
  induction s.nextTimeout with
  | nil => rfl
  | cons t l ih =>
    simp only [List.length_cons, List.countP_cons]
    rw [ih]
    cases t.callback with
    | tcpipTcpTimer => simp [Callback.isOther]; omega
    | other u => simp [Callback.isOther]; omega
    | lwipCyclicTimer i =>
      have hi : i = 0 ∨ i = 1 ∨ i = 2 := by omega
      rcases hi with rfl | rfl | rfl <;> simp [Callback.isOther] <;> omega

/-- A timer of lwIP that is not in the list itself finds an entry. -/
theorem Steady.hasEntry (h : Steady s) {c : Callback U} (hc : c.isOther = false) (harmed : s.armed c = 0)
    (hzero : c ≠ .lwipCyclicTimer 0) : s.nextTimeout.length < mempNumSysTimeout := by
  have hlength := length_entries s
  have h0 := h.cyclic 0
  have h1 := h.cyclic 1
  have h2 := h.cyclic 2
  have htcp := h.tcp
  have hroom := h.room
  simp only [if_true] at h0
  simp at h1 h2
  have htcp' : s.armed .tcpipTcpTimer ≤ 1 := by split at htcp <;> omega
  cases c with
  | other u => cases hc
  | tcpipTcpTimer => omega
  | lwipCyclicTimer i =>
    have hi : i = 0 ∨ i = 1 ∨ i = 2 := by omega
    rcases hi with rfl | rfl | rfl
    · exact absurd rfl hzero
    · omega
    · omega

theorem armed_add (hlen : s.nextTimeout.length < mempNumSysTimeout) (time : UInt32) (c d : Callback U) :
    (s.sysTimeoutAbs time c).armed d = s.armed d + if c = d then 1 else 0 := by
  unfold Timeouts.sysTimeoutAbs Timeouts.armed
  rw [if_neg (Nat.not_le.2 hlen)]
  show (link _ s.nextTimeout).countP _ = _
  rw [countP_link]
  simp only [decide_eq_true_eq]

/-- A timeout of the program, whether it found an entry or not. -/
theorem armed_addOther (time : UInt32) (u : U) {d : Callback U} (hd : d.isOther = false) :
    (s.sysTimeoutAbs time (.other u)).armed d = s.armed d := by
  unfold Timeouts.sysTimeoutAbs
  split
  · rfl
  · have hne : Callback.other u ≠ d := by rintro rfl; cases hd
    show (link _ s.nextTimeout).countP _ = _
    rw [countP_link, if_neg (by simpa using hne)]
    rfl

theorem running_eq {t : Timeouts U} (h : t.phase = s.phase) (c : Callback U) : t.running c = s.running c := by
  unfold Timeouts.running
  rw [h]

theorem running_handler {start : Nat} {c : Callback U} (h : s.phase = .handler start c) (d : Callback U) :
    s.running d = if c = d then 1 else 0 := by
  unfold Timeouts.running
  rw [h]

/-- The list does not change, and neither does it matter who runs. -/
theorem Steady.frame (h : Steady s) {t : Timeouts U} (hlist : t.nextTimeout = s.nextTimeout)
    (hactive : t.tcpipTcpTimerActive = s.tcpipTcpTimerActive)
    (hrun : ∀ c : Callback U, c.isOther = false → t.running c = s.running c) : Steady t := by
  have harmed : ∀ c, t.armed c = s.armed c := fun c => by
    unfold Timeouts.armed
    rw [hlist]
  refine ⟨fun i => ?_, ?_, ?_⟩
  · rw [harmed, hrun _ rfl]
    exact h.cyclic i
  · rw [harmed, hrun _ rfl, hactive]
    exact h.tcp
  · unfold Timeouts.users
    rw [hlist]
    exact h.room

/-! ## Steps -/

theorem steady_sysTimeout (h : Steady s) (hroom : s.users + 3 < mempNumSysTimeout) (msecs : UInt32) (u : U) :
    Steady (s.sysTimeout msecs (.other u)) := by
  refine ⟨fun i => ?_, ?_, ?_⟩
  · rw [Timeouts.sysTimeout, armed_addOther _ _ rfl, running_eq (sysTimeoutAbs_phase ..)]
    exact h.cyclic i
  · rw [Timeouts.sysTimeout, armed_addOther _ _ rfl, running_eq (sysTimeoutAbs_phase ..), sysTimeoutAbs_active]
    exact h.tcp
  · have husers := users_addOther (s := s) (s.sysNow + msecs) u
    show (s.sysTimeoutAbs _ _).users + 3 ≤ _
    omega

theorem steady_sysUntimeout (h : Steady s) (u : U) : Steady (s.sysUntimeout (.other u)) := by
  have harmed : ∀ d : Callback U, d.isOther = false → (s.sysUntimeout (.other u)).armed d = s.armed d := fun d hd =>
    countP_eraseP (fun t ht => by
      rw [of_decide_eq_true ht]
      exact decide_eq_false (by rintro rfl; cases hd)) s.nextTimeout
  refine ⟨fun i => ?_, ?_, ?_⟩
  · rw [harmed _ rfl]
    exact h.cyclic i
  · rw [harmed _ rfl]
    exact h.tcp
  · exact (Nat.add_le_add_right (List.eraseP_sublist.countP_le ..) 3).trans h.room

theorem steady_tcpTimerNeeded (h : Steady s) (pcbs : Bool) : Steady (s.tcpTimerNeeded pcbs) := by
  unfold Timeouts.tcpTimerNeeded
  split
  · rename_i hneeded
    have hactive : s.tcpipTcpTimerActive = false := by
      cases hs : s.tcpipTcpTimerActive with
      | true => rw [hs] at hneeded; cases hneeded
      | false => rfl
    have htcp := h.tcp
    rw [hactive] at htcp
    obtain ⟨harmed, hrunning⟩ : s.armed .tcpipTcpTimer = 0 ∧ s.running .tcpipTcpTimer = 0 :=
      Nat.add_eq_zero_iff.1 (htcp.trans (if_neg Bool.false_ne_true))
    have hlen : ({ s with tcpipTcpTimerActive := true } : Timeouts U).nextTimeout.length < mempNumSysTimeout :=
      h.hasEntry rfl harmed (by simp)
    refine ⟨fun i => ?_, ?_, ?_⟩
    · rw [Timeouts.sysTimeout, armed_add hlen, running_eq (sysTimeoutAbs_phase ..), if_neg (by simp)]
      exact h.cyclic i
    · rw [Timeouts.sysTimeout, armed_add hlen, running_eq (sysTimeoutAbs_phase ..), if_pos rfl, sysTimeoutAbs_active]
      show s.armed .tcpipTcpTimer + 1 + s.running .tcpipTcpTimer = 1
      omega
    · rw [Timeouts.sysTimeout, users_add _ rfl]
      exact h.room
  · exact h

/-- A timer of lwIP that was running is in the list again. -/
theorem steady_again (h : Steady s) {start : Nat} {c : Callback U} (hphase : s.phase = .handler start c)
    (hc : c.isOther = false) (time : UInt32) : Steady { s.sysTimeoutAbs time c with phase := .loop start } := by
  have hrun := running_handler hphase
  have harmed : s.armed c = 0 ∧ c ≠ .lwipCyclicTimer 0 ∧ (c = .tcpipTcpTimer → s.tcpipTcpTimerActive = true) := by
    cases c with
    | other u => cases hc
    | tcpipTcpTimer =>
      have htcp := h.tcp
      rw [hrun, if_pos rfl] at htcp
      split at htcp
      · rename_i hactive
        exact ⟨by omega, by simp, fun _ => hactive⟩
      · omega
    | lwipCyclicTimer i =>
      have hcyclic := h.cyclic i
      rw [hrun, if_pos rfl] at hcyclic
      split at hcyclic
      · omega
      · rename_i hi
        exact ⟨by omega, by simpa using hi, fun heq => by cases heq⟩
  have hlen := h.hasEntry hc harmed.1 harmed.2.1
  refine ⟨fun i => ?_, ?_, ?_⟩
  · show (s.sysTimeoutAbs time c).armed _ + 0 = _
    have hcyclic := h.cyclic i
    rw [hrun] at hcyclic
    rw [armed_add hlen]
    exact hcyclic
  · show (s.sysTimeoutAbs time c).armed _ + 0 = if (s.sysTimeoutAbs time c).tcpipTcpTimerActive = true then 1 else 0
    have htcp := h.tcp
    rw [hrun] at htcp
    rw [armed_add hlen, sysTimeoutAbs_active]
    exact htcp
  · show (s.sysTimeoutAbs time c).users + 3 ≤ _
    rw [users_add time hc]
    exact h.room

theorem steady_handlerDone (h : Steady s) {start : Nat} {c : Callback U} (hphase : s.phase = .handler start c)
    (pcbs : Bool) :
    Steady { s.handlerDone pcbs c with phase := .loop start } := by
  have hrun := running_handler hphase
  cases c with
  | other u =>
    refine h.frame rfl rfl fun c hc => ?_
    have hne : Callback.other u ≠ c := by rintro rfl; cases hc
    rw [hrun, if_neg hne]
    rfl
  | tcpipTcpTimer =>
    cases pcbs with
    | true => exact steady_again h hphase rfl _
    | false =>
      refine ⟨fun i => ?_, ?_, h.room⟩
      · have hcyclic := h.cyclic i
        rw [hrun, if_neg (by simp)] at hcyclic
        exact hcyclic
      · have htcp := h.tcp
        rw [hrun, if_pos rfl] at htcp
        show s.armed .tcpipTcpTimer + 0 = 0
        split at htcp <;> omega
  | lwipCyclicTimer i =>
    show Steady { s.lwipCyclicTimer i with phase := .loop start }
    unfold Timeouts.lwipCyclicTimer
    simp only
    split
    · exact steady_again h hphase rfl _
    · exact steady_again h hphase rfl _

theorem steady_turn (h : Steady s) {start : Nat} (hphase : s.phase = .loop start) : Steady (s.turn start) := by
  have hrun : ∀ c : Callback U, s.running c = 0 := fun c => by
    unfold Timeouts.running
    rw [hphase]
  have hidle : Steady { s with phase := .idle, checked := start } := h.frame rfl rfl fun c _ => (hrun c).symm
  unfold Timeouts.turn
  split
  · exact hidle
  · rename_i t rest hlist
    split
    · exact hidle
    · have harmed : ∀ c, s.armed c = rest.countP (fun t => decide (t.callback = c)) +
          if t.callback = c then 1 else 0 := fun c => by
        unfold Timeouts.armed
        rw [hlist, List.countP_cons]
        simp only [decide_eq_true_eq]
      refine ⟨fun i => ?_, ?_, ?_⟩
      · have hcyclic := h.cyclic i
        rw [hrun, harmed] at hcyclic
        exact hcyclic
      · have htcp := h.tcp
        rw [hrun, harmed] at htcp
        exact htcp
      · have hroom := h.room
        unfold Timeouts.users at hroom ⊢
        rw [hlist, List.countP_cons] at hroom
        show rest.countP _ + 3 ≤ _
        omega

theorem steady_step (s : Timeouts U) (a : TimeoutAction U) (t : Timeouts U) (h : Steady s) (hroom : Room s a)
    (hs : timeouts U s a = some t) : Steady t := by
  cases a with
  | elapse msecs =>
    cases hs
    exact h.frame rfl rfl fun _ _ => rfl
  | sysTimeout msecs u =>
    cases hs
    exact steady_sysTimeout h hroom msecs u
  | sysUntimeout u =>
    cases hs
    exact steady_sysUntimeout h u
  | tcpTimerNeeded pcbs =>
    cases hs
    exact steady_tcpTimerNeeded h pcbs
  | sysCheckTimeouts =>
    obtain ⟨hphase, rfl⟩ := check_some hs
    refine h.frame rfl rfl fun c _ => ?_
    unfold Timeouts.running
    rw [hphase]
  | turn =>
    obtain ⟨start, hphase, rfl⟩ := turn_some hs
    exact steady_turn h hphase
  | handlerDone pcbs =>
    obtain ⟨start, c, hphase, rfl⟩ := handlerDone_some hs
    exact steady_handlerDone h hphase pcbs

theorem steady_start (clock : Nat) : Steady (.sysTimeoutsInit clock : Timeouts U) := by
  let first : Timeouts U := (Timeouts.zero clock).sysTimeout (lwipCyclicTimers.get 1).intervalMs (.lwipCyclicTimer 1)
  have hzero : (Timeouts.zero clock : Timeouts U).nextTimeout.length < mempNumSysTimeout := by show 0 < 133; decide
  have hfirst : first.nextTimeout.length < mempNumSysTimeout := by show 1 < 133; decide
  have harmed : ∀ c, (Timeouts.sysTimeoutsInit clock : Timeouts U).armed c =
      (if Callback.lwipCyclicTimer 1 = c then 1 else 0) + if Callback.lwipCyclicTimer 2 = c then 1 else 0 := fun c => by
    have h1 : first.armed c = 0 + if Callback.lwipCyclicTimer 1 = c then 1 else 0 := armed_add hzero _ _ c
    have h2 := armed_add hfirst (first.sysNow + (lwipCyclicTimers.get 2).intervalMs) (.lwipCyclicTimer 2) c
    rw [h1, Nat.zero_add] at h2
    exact h2
  refine ⟨fun i => ?_, ?_, ?_⟩
  · show (Timeouts.sysTimeoutsInit clock : Timeouts U).armed _ + 0 = _
    rw [harmed]
    have hi : i = 0 ∨ i = 1 ∨ i = 2 := by omega
    rcases hi with rfl | rfl | rfl <;> simp
  · show (Timeouts.sysTimeoutsInit clock : Timeouts U).armed _ + 0 = 0
    rw [harmed]
    simp
  · have h1 : first.users = (Timeouts.zero clock : Timeouts U).users := users_add _ rfl
    have h2 : (Timeouts.sysTimeoutsInit clock : Timeouts U).users = first.users := users_add (s := first) _ rfl
    rw [h2, h1]
    show 0 + 3 ≤ 133
    decide

/-! ## The times of the cyclic timers -/

def interval (i : Fin 3) : UInt32 := (lwipCyclicTimers.get i).intervalMs

/-- A cyclic timer was called for the first multiples of its interval, and waits for the next one. -/
structure Cadent (clock : Nat) (i : Fin 3) (s : Timeouts U) : Prop where
  times : s.times i = (List.range (s.times i).length).map fun k => .ofNat (clock + (k + 1) * (interval i).toNat)
  next : ∀ t ∈ s.nextTimeout, t.callback = .lwipCyclicTimer i →
    t.time = .ofNat (clock + ((s.times i).length + 1) * (interval i).toNat)
  due : ∀ start, s.phase = .handler start (.lwipCyclicTimer i) →
    s.currentTimeoutDueTime = .ofNat (clock + (s.times i).length * (interval i).toNat)

variable {clock : Nat} {i : Fin 3}

/-- Whatever leaves the entries, the calls and the run of a timer alone. -/
theorem Cadent.frame (h : Cadent clock i s) {t : Timeouts U} (hcalls : t.calls = s.calls)
    (hlist : ∀ x ∈ t.nextTimeout, x.callback = .lwipCyclicTimer i → x ∈ s.nextTimeout)
    (hphase : ∀ start, t.phase = .handler start (.lwipCyclicTimer i) →
      s.phase = .handler start (.lwipCyclicTimer i) ∧
          t.currentTimeoutDueTime = s.currentTimeoutDueTime) : Cadent clock i t := by
  have htimes : t.times i = s.times i := by
    unfold Timeouts.times
    rw [hcalls]
  refine ⟨?_, fun x hx hc => ?_, fun start hs => ?_⟩
  · rw [htimes]
    exact h.times
  · rw [htimes]
    exact h.next x (hlist x hx hc) hc
  · obtain ⟨hs', hdue⟩ := hphase start hs
    rw [htimes, hdue]
    exact h.due start hs'

/-- A timeout for another handler. -/
theorem cadent_add (h : Cadent clock i s) {c : Callback U} (hc : c ≠ .lwipCyclicTimer i) (time : UInt32) :
    Cadent clock i (s.sysTimeoutAbs time c) := by
  refine h.frame (sysTimeoutAbs_calls ..) (fun x hx hxc => ?_) fun start hs => ?_
  · rcases mem_sysTimeoutAbs hx with rfl | hx
    · exact absurd hxc hc
    · exact hx
  · rw [sysTimeoutAbs_phase] at hs
    exact ⟨hs, sysTimeoutAbs_due ..⟩

theorem cadent_loop (h : Cadent clock i s) (start : Nat) : Cadent clock i { s with phase := .loop start } :=
  h.frame rfl (fun _ hx _ => hx) fun _ hs => by cases hs

theorem not_armed_mem {c : Callback U} (h : s.armed c = 0) {x : SysTimeo U}
    (hx : x ∈ s.nextTimeout) : x.callback ≠ c := by
  have hno := List.countP_eq_zero.1 h x hx
  simpa using hno

/-- The timer goes on from its own time. -/
theorem cadent_again (hsteady : Steady s) (h : Cadent clock i s) {start : Nat}
    (hphase : s.phase = .handler start (.lwipCyclicTimer i)) :
    Cadent clock i
      { s.sysTimeoutAbs (s.currentTimeoutDueTime + interval i) (.lwipCyclicTimer i) with
        phase := .loop start } := by
  have harmed : s.armed (.lwipCyclicTimer i) = 0 := by
    have hcyclic := hsteady.cyclic i
    rw [running_handler hphase, if_pos rfl] at hcyclic
    split at hcyclic <;> omega
  have hnew : Timeouts.times
      { s.sysTimeoutAbs (s.currentTimeoutDueTime + interval i) (.lwipCyclicTimer i) with phase := .loop start } i =
          s.times i := by
    show ((s.sysTimeoutAbs _ _).calls.filter _).map _ = _
    rw [sysTimeoutAbs_calls]
    rfl
  refine ⟨?_, fun x hx hc => ?_, fun _ hs => by cases hs⟩
  · rw [hnew]
    exact h.times
  · rw [hnew]
    rcases mem_sysTimeoutAbs hx with rfl | hx
    · show s.currentTimeoutDueTime + interval i = _
      rw [h.due start hphase, ofNat_add, Nat.add_assoc, Nat.succ_mul]
    · exact absurd hc (not_armed_mem harmed hx)

theorem cadent_handlerDone (hsteady : Steady s) (h : Cadent clock i s) {start : Nat} {c : Callback U}
    (hphase : s.phase = .handler start c) (pcbs : Bool)
    (hontime : ∀ j, c = .lwipCyclicTimer j → timeLessThan (s.currentTimeoutDueTime + interval j) s.sysNow = false) :
    Cadent clock i { s.handlerDone pcbs c with phase := .loop start } := by
  cases c with
  | other u => exact cadent_loop h start
  | tcpipTcpTimer =>
    cases pcbs with
    | true => exact cadent_loop (cadent_add h (by simp) _) start
    | false => exact h.frame rfl (fun _ hx _ => hx) fun _ hs => by cases hs
  | lwipCyclicTimer j =>
    have hlate := hontime j rfl
    have hdone : s.handlerDone pcbs (.lwipCyclicTimer j) =
        s.sysTimeoutAbs (s.currentTimeoutDueTime + interval j) (.lwipCyclicTimer j) :=
      if_neg (Bool.eq_false_iff.1 hlate)
    rw [hdone]
    by_cases hj : j = i
    · rw [hj] at hphase ⊢
      exact cadent_again hsteady h hphase
    · exact cadent_loop (cadent_add h (fun heq => hj (Callback.lwipCyclicTimer.inj heq)) _) start

theorem cadent_turn (hsteady : Steady s) (h : Cadent clock i s) {start : Nat} : Cadent clock i (s.turn start) := by
  have hidle : Cadent clock i { s with phase := .idle, checked := start } :=
    h.frame rfl (fun _ hx _ => hx) fun _ hs => by cases hs
  unfold Timeouts.turn
  split
  · exact hidle
  · rename_i t rest hlist
    split
    · exact hidle
    · have ht : t ∈ s.nextTimeout := by rw [hlist]; exact List.mem_cons_self ..
      by_cases hc : t.callback = .lwipCyclicTimer i
      · -- its entry was the only one
        have hrest : ∀ x ∈ rest, x.callback ≠ .lwipCyclicTimer i := by
          have hcyclic := hsteady.cyclic i
          unfold Timeouts.armed at hcyclic
          rw [hlist, List.countP_cons, if_pos (decide_eq_true hc)] at hcyclic
          have hnone : rest.countP (fun x => decide (x.callback = .lwipCyclicTimer i)) = 0 := by
            split at hcyclic <;> omega
          exact fun x hx => by simpa using List.countP_eq_zero.1 hnone x hx
        have htimes : (s.calls ++ [(t.callback, t.time)]).filter (fun c => decide (c.1 = .lwipCyclicTimer i)) =
            s.calls.filter (fun c => decide (c.1 = .lwipCyclicTimer i)) ++ [(t.callback, t.time)] := by
          rw [List.filter_append, List.filter_cons_of_pos (by simpa using hc), List.filter_nil]
        have hlength : ((s.times i) ++ [t.time]).length = (s.times i).length + 1 := List.length_append
        have hnext := h.next t ht hc
        have hnew : Timeouts.times { s with
            nextTimeout := rest, currentTimeoutDueTime := t.time, phase := .handler start t.callback
            calls := s.calls ++ [(t.callback, t.time)] } i = s.times i ++ [t.time] := by
          unfold Timeouts.times
          rw [htimes, List.map_append]
          rfl
        refine ⟨?_, fun x hx hxc => absurd hxc (hrest x hx), fun _ _ => ?_⟩
        · rw [hnew, hlength, List.range_succ, List.map_append, ← h.times, hnext]
          rfl
        · rw [hnew, hlength]
          exact hnext
      · have hcalls : (s.calls ++ [(t.callback, t.time)]).filter (fun c => decide (c.1 = .lwipCyclicTimer i)) =
            s.calls.filter (fun c => decide (c.1 = .lwipCyclicTimer i)) := by
          rw [List.filter_append, List.filter_cons_of_neg (by simpa using hc), List.filter_nil, List.append_nil]
        have hnew : Timeouts.times { s with
            nextTimeout := rest, currentTimeoutDueTime := t.time, phase := .handler start t.callback
            calls := s.calls ++ [(t.callback, t.time)] } i = s.times i := by
          unfold Timeouts.times
          rw [hcalls]
        refine ⟨?_, fun x hx hxc => ?_, fun _ hs => ?_⟩
        · rw [hnew]
          exact h.times
        · rw [hnew]
          exact h.next x (by rw [hlist]; exact List.mem_cons_of_mem _ hx) hxc
        · exact absurd (CheckPhase.handler.inj hs).2 hc

theorem cadent_step (hsteady : Steady s) (h : Cadent clock i s) {a : TimeoutAction U} {t : Timeouts U} (hontime : OnTime s a)
    (hs : timeouts U s a = some t) : Cadent clock i t := by
  cases a with
  | elapse msecs =>
    cases hs
    exact h.frame rfl (fun _ hx _ => hx) fun _ hphase => ⟨hphase, rfl⟩
  | sysTimeout msecs u =>
    cases hs
    exact cadent_add h (by simp) _
  | sysUntimeout u =>
    cases hs
    exact h.frame rfl (fun _ hx _ => List.mem_of_mem_eraseP hx) fun _ hphase => ⟨hphase, rfl⟩
  | tcpTimerNeeded pcbs =>
    cases hs
    unfold Timeouts.tcpTimerNeeded
    split
    · have hactive : Cadent clock i { s with tcpipTcpTimerActive := true } :=
        h.frame rfl (fun _ hx _ => hx) fun _ hphase => ⟨hphase, rfl⟩
      exact cadent_add hactive (by simp) _
    · exact h
  | sysCheckTimeouts =>
    obtain ⟨-, rfl⟩ := check_some hs
    exact cadent_loop h s.clock
  | turn =>
    obtain ⟨start, -, rfl⟩ := turn_some hs
    exact cadent_turn hsteady h
  | handlerDone pcbs =>
    obtain ⟨start, c, hphase, rfl⟩ := handlerDone_some hs
    refine cadent_handlerDone hsteady h hphase pcbs fun j hj => ?_
    have hlate : s.late = false := hontime
    unfold Timeouts.late at hlate
    rw [hphase, hj] at hlate
    exact hlate

theorem cadent_start (clock : Nat) (i : Fin 3) : Cadent clock i (.sysTimeoutsInit clock : Timeouts U) := by
  let first : Timeouts U := (Timeouts.zero clock).sysTimeout (lwipCyclicTimers.get 1).intervalMs (.lwipCyclicTimer 1)
  refine ⟨rfl, fun x hx hc => ?_, fun _ hs => by cases hs⟩
  have htime : ∀ j : Fin 3, UInt32.ofNat clock + interval j = .ofNat (clock + (0 + 1) * (interval j).toNat) := fun j => by
    rw [ofNat_add, Nat.zero_add, Nat.one_mul]
  show x.time = .ofNat (clock + (0 + 1) * (interval i).toNat)
  rcases mem_sysTimeoutAbs (s := first) hx with rfl | hx
  · rw [← Callback.lwipCyclicTimer.inj hc]
    exact htime 2
  · rw [List.mem_singleton.1 hx] at hc ⊢
    rw [← Callback.lwipCyclicTimer.inj hc]
    exact htime 1

/-- While the program leaves three entries of the pool, each cyclic timer of lwIP is in the list or running, once, and
the TCP timer is when it is marked as active. If no cyclic timer is done after its next time, each was called for the
first multiples of its interval. -/
theorem cyclic_timers_steady (clock : Nat) {as : List (TimeoutAction U)} {s : Timeouts U}
    (hroom : Meets (timeouts U) Room (.sysTimeoutsInit clock) as)
    (h : exec (timeouts U) (.sysTimeoutsInit clock) as = some s) :
    Steady s ∧ (Meets (timeouts U) OnTime (.sysTimeoutsInit clock) as → ∀ i : Fin 3,
      s.times i = (List.range (s.times i).length).map fun k => .ofNat (clock + (k + 1) * (interval i).toNat)) := by
  refine ⟨exec_inv_of_meets steady_step (steady_start clock) hroom h, fun hontime i => ?_⟩
  have hboth : Meets (timeouts U) (fun s a => Room s a ∧ OnTime s a) (.sysTimeoutsInit clock) as :=
    fun x hx => ⟨hroom x hx, hontime x hx⟩
  have hinv : Steady s ∧ Cadent clock i s := exec_inv_of_meets (I := fun s => Steady s ∧ Cadent clock i s)
    (fun s a t hs hc hstep => ⟨steady_step s a t hs.1 hc.1 hstep, cadent_step hs.1 hs.2 hc.2 hstep⟩)
    ⟨steady_start clock, cadent_start clock i⟩ hboth h
  exact hinv.2.times

end Timers

/-- The timers of the reassembly and of the DNS while the clock goes through zero, with a handler that takes its time. -/
def cyclicRun : List (TimeoutAction Nat) :=
  [.sysTimeout 5000 7, .elapse 1200, .sysCheckTimeouts, .turn, .elapse 300, .handlerDone false, .turn,
    .handlerDone false, .turn, .elapse 600, .sysCheckTimeouts, .turn]

theorem cyclicRun_isSome : (exec (timeouts Nat) (.sysTimeoutsInit (2 ^ 32 - 1500)) cyclicRun).isSome = true := by
  decide +kernel

theorem cyclic_timers_steady_zero : ∃ s,
    exec (timeouts Nat) (.sysTimeoutsInit (2 ^ 32 - 1500)) cyclicRun = some s ∧ Steady s ∧
    s.times 2 = (List.range (s.times 2).length).map fun k => .ofNat (2 ^ 32 - 1500 + (k + 1) * (interval 2).toNat) := by
  have hrun := (Option.some_get cyclicRun_isSome).symm
  obtain ⟨hsteady, htimes⟩ :=
    cyclic_timers_steady (2 ^ 32 - 1500) (by decide +kernel : Meets (timeouts Nat) Room _ cyclicRun) hrun
  exact ⟨_, hrun, hsteady, htimes (by decide +kernel) 2⟩

end FortiRdp.Lwip
