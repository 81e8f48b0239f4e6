/-
Cookies that expire at an instant. The expiry is off by the time zone of the machine, and a date that is before 1970
in local time makes a session cookie, which never expires.
-/
import FortiRdp.Fw.LoginOutcome
import FortiRdp.Http.CookieDate

namespace FortiRdp.Fw

open Util Net Http Run

/-! ## Expiring at an instant -/

/-- At the time `now`, the cookie is what one that expires at the instant is: it is expired when the instant is past,
and then it is no session cookie, and a request that is answered with it removes it from the jar. -/
structure ExpiresAt (c : Cookie) (instant now : Int) : Prop where
  expired : ∀ env : Env, env.now env.reads = now → ∃ env', c.isExpired env = .ok (decide (instant < now)) env'
  noSession : instant < now → c.isSession = false
  removed : instant < now → ∀ (p : Portal) (call : FirewallClient.Call) (s s₁ : FirewallClient) (answer : Answer) (hostname : Bytes),
    call.url.getHostname = .ok hostname → answered p call s = some (answer, s₁) → c ∈ answer.cookies.toList →
      SameHost (trimmed (lower hostname)) c → testedAt s₁ (trimmed (lower hostname)) answer.cookies.toList c.name = now →
        (endState (FirewallClient.doRequest p call s)).cookieJar.get c.name = none

theorem get_of_mem_toList {cookies : Cookies} {c : Cookie} (h : c ∈ cookies.toList) : cookies.get c.name = some c := by
  obtain ⟨e, he, rfl⟩ := List.mem_map.1 h
  rw [← cookies.named e he]
  exact SortedMap.get_of_mem he

theorem JarStep.get_expired {host : Bytes} {now : Int} {c : Cookie} {jar jar' : Cookies} (h : JarStep host now c jar jar')
    (hhost : SameHost host c) (hexp : c.ExpiredAt now) : jar'.get c.name = none := by
  cases h with
  | foreign h => exact absurd hhost h
  | insecure hfresh h => exact absurd hexp hfresh
  | removed _ _ => exact (SortedMap.get_erase _ _ _).trans (if_pos rfl)
  | stored _ hfresh _ _ => exact absurd hexp hfresh

/-- A cookie expires at the instant when the test of the code says so. -/
theorem expiresAt_iff (c : Cookie) (instant now : Int) : ExpiresAt c instant now ↔ (c.ExpiredAt now ↔ instant < now) := by
  constructor
  · intro h
    obtain ⟨env', hrun⟩ := h.expired { Env.still with now := fun _ => now } rfl
    obtain ⟨env'', hrun', -⟩ := c.isExpired_run { Env.still with now := fun _ => now }
    rw [hrun] at hrun'
    injection hrun' with hsame
    exact (decide_eq_decide.1 hsame).symm
  · intro h
    constructor
    · rintro env rfl
      obtain ⟨env', hrun, -⟩ := c.isExpired_run env
      have hsame : decide (c.isSession = false ∧ c.expires < env.now env.reads) = decide (instant < env.now env.reads) :=
        decide_eq_decide.2 h
      rw [hsame] at hrun
      exact ⟨env', hrun⟩
    · intro hpast
      exact (h.2 hpast).1
    · rintro hpast p call s s₁ answer hostname hname hanswered hmem hhost rfl
      obtain ⟨s', hrun, hget⟩ := doRequest_get hname hanswered c.name
      rw [get_of_mem_toList hmem] at hget
      obtain ⟨jar, jar', hstep, -, hafter⟩ := hget
      rw [hrun]
      exact hafter.trans (hstep.get_expired hhost (h.2 hpast))

/-! ## Dates in local time -/

/-- The instant is on the same side of the time in GMT as in local time, `offset` seconds ahead; before 1970 in local
time it is not past. -/
def Unshifted (instant offset now : Int) : Prop :=
  if instant - offset < 0 then now ≤ instant
  else now ≤ min instant (instant - offset) ∨ max instant (instant - offset) < now

theorem localExpires_expired {c : Cookie} {date : CalendarTime} {offset : Int} (h : c.expires = localExpires date offset) (now : Int) :
    c.ExpiredAt now ↔ 0 ≤ date.instant - offset ∧ date.instant - offset < now := by
  unfold Cookie.ExpiredAt Cookie.isSession
  rw [h]
  unfold localExpires expiresUnspecified
  rw [beq_eq_false_iff_ne]
  split <;> omega

theorem unshifted_iff (instant offset now : Int) :
    (0 ≤ instant - offset ∧ instant - offset < now ↔ instant < now) ↔ Unshifted instant offset now := by
  unfold Unshifted
  split
  · constructor
    · intro h
      by_contra hpast
      have := (h.2 (by omega)).1
      omega
    · intro hnow
      constructor <;> omega
  · constructor
    · intro h
      by_cases hpast : instant < now
      · exact .inr (max_lt hpast (h.2 hpast).2)
      · refine .inl (le_min (by omega) ?_)
        by_contra hlate
        exact hpast (h.1 ⟨by omega, by omega⟩)
    · rintro (hnow | hnow)
      · have hmin := le_min_iff.1 hnow
        constructor <;> omega
      · have hmax := max_lt_iff.1 hnow
        constructor <;> omega

/-- No time lies between the instant and itself in local time only where the two are the same, from 1970 on. -/
theorem unshifted_always (instant offset : Int) : (∀ now, Unshifted instant offset now) ↔ offset = 0 ∧ 0 ≤ instant := by
  constructor
  · intro h
    have hlate := h (max instant (instant - offset))
    have hnext := h (instant + 1)
    unfold Unshifted at hlate hnext
    split at hlate
    · rename_i hold
      rw [if_pos hold] at hnext
      omega
    · omega
  · rintro ⟨rfl, hinstant⟩ now
    unfold Unshifted
    split <;> omega

/-! ## Machines that know one date -/

/-- Date functions that know one date, in a zone `offset` seconds ahead of GMT. -/
def knowing (w : WrittenDate) (offset : Int) : DateLib where
  strptime text format := if text = w.text ∧ format = w.format then some w.date.tm else none
  mktime _ := if w.date.instant - offset < 0 then -1 else w.date.instant - offset

theorem knowing_reads (w : WrittenDate) (offset : Int) : ReadsAsWritten (knowing w offset) w := by
  constructor
  · unfold knowing
    simp only [and_self, if_true]
  · intro format _ tm htm
    unfold knowing at htm
    exact .inl (Option.some.inj (Option.ite_none_right_eq_some.1 htm).2).symm

theorem knowing_local (w : WrittenDate) (offset : Int) : LocalTime (knowing w offset) w.date offset := by
  unfold LocalTime knowing
  simp only

/-- Sunday, 6 November 1994. -/
def sunday : WrittenDate where
  date := ⟨1994, 10, 6, 8, 49, 37, by decide, by decide, by decide, by decide, by decide, by decide, by decide, by decide⟩
  weekday := ascii "Sun"
  weekday_mem := by decide
  month := ascii "Nov"
  month_mem := by decide
  hyphens := false
  short := false
  century := nofun

/-- Wednesday, 1 January 1969. -/
def wednesday : WrittenDate where
  date := ⟨1969, 0, 1, 0, 0, 0, by decide, by decide, by decide, by decide, by decide, by decide, by decide, by decide⟩
  weekday := ascii "Wednesday"
  weekday_mem := by decide
  month := ascii "Jan"
  month_mem := by decide
  hyphens := true
  short := false
  century := nofun

example : sunday.text = ascii "Sun, 06 Nov 1994 08:49:37 GMT" ∧ sunday.date.instant = 784111777 := by decide

/-- The attribute of the date. -/
def untilAttribute (w : WrittenDate) (h : 59 ∉ w.text ∧ 0 ∉ w.text) : AttributeText where
  kind := .expires w.text
  blanks := ascii " "
  spelling := ascii "Expires"
  blank := List.all_eq_true.1 rfl
  spelled := (by decide : lower (ascii "Expires") = ascii "expires")
  plain := by rintro _ ⟨⟩; exact h

/-! ## The expiry that is parsed -/

/-- A cookie with a date expires at the instant of the date exactly when the time zone does not matter at that time. -/
theorem parse_expiresAt {lib : DateLib} {w : WrittenDate} {offset : Int} {name value : Bytes} {attrs : List AttributeText}
    {o : ObfString} (hname : 59 ∉ name ∧ 61 ∉ name ∧ 0 ∉ name) (hvalue : 59 ∉ value ∧ 0 ∉ value)
    (h : o.Hides (definitionText name value attrs)) (hdate : lastDate attrs = some w.text) (hread : ReadsAsWritten lib w)
    (hlocal : LocalTime lib w.date offset) : ∃ c, Cookie.parse lib o = .ok c ∧
      (∀ now, ExpiresAt c w.date.instant now ↔ Unshifted w.date.instant offset now) ∧
      ((∀ now, ExpiresAt c w.date.instant now) ↔ offset = 0 ∧ 0 ≤ w.date.instant) := by
  obtain ⟨c, hparse, hexpires⟩ := parse_date hname hvalue h hdate hread hlocal
  have hiff (now : Int) : ExpiresAt c w.date.instant now ↔ Unshifted w.date.instant offset now := by
    rw [expiresAt_iff, localExpires_expired hexpires, unshifted_iff]
  refine ⟨c, hparse, hiff, ?_⟩
  rw [← unshifted_always]
  exact forall_congr' hiff

/-- The definition of a cookie that is there until a date. -/
def untilText (w : WrittenDate) (h : 59 ∉ w.text ∧ 0 ∉ w.text) : Bytes :=
  definitionText (ascii "SVPN") (ascii "x") [untilAttribute w h]

/-- An hour ahead of GMT. -/
theorem parse_expiresAt_ahead :
    ∃ c, Cookie.parse (knowing sunday 3600) (.ofBytes 3 (ascii "SVPN=x; Expires=Sun, 06 Nov 1994 08:49:37 GMT")) = .ok c ∧
      (∀ now, ExpiresAt c sunday.date.instant now ↔ Unshifted sunday.date.instant 3600 now) ∧
      ((∀ now, ExpiresAt c sunday.date.instant now) ↔ (3600 : Int) = 0 ∧ 0 ≤ sunday.date.instant) := by
  have hhides : (ObfString.ofBytes 3 (ascii "SVPN=x; Expires=Sun, 06 Nov 1994 08:49:37 GMT")).Hides (untilText sunday (by decide)) :=
    ObfString.hides_ofBytes 3 _
  exact parse_expiresAt (by decide) (by decide) hhides rfl (knowing_reads _ _) (knowing_local _ _)

/-- On a machine in GMT, a cookie that expired before 1970 is taken for one of the session. -/
theorem parse_sessionPast :
    ∃ c, Cookie.parse (knowing wednesday 0) (.ofBytes 3 (ascii "SVPN=x; Expires=Wednesday, 01-Jan-1969 00:00:00 GMT")) = .ok c ∧
      wednesday.date.instant < 0 ∧ c.isSession = true ∧ ¬ ExpiresAt c wednesday.date.instant 0 := by
  have hhides : (ObfString.ofBytes 3 (ascii "SVPN=x; Expires=Wednesday, 01-Jan-1969 00:00:00 GMT")).Hides
      (untilText wednesday (by decide)) := ObfString.hides_ofBytes 3 _
  obtain ⟨c, hparse, hexpires⟩ := parse_date (by decide) (by decide) hhides rfl (knowing_reads _ _) (knowing_local wednesday 0)
  have hinstant : wednesday.date.instant = -31536000 := by decide
  have hsession : c.isSession = true := by
    unfold Cookie.isSession
    rw [hexpires]
    decide
  refine ⟨c, hparse, by omega, hsession, ?_⟩
  intro h
  have hnot := h.noSession (by omega)
  rw [hsession] at hnot
  cases hnot

end FortiRdp.Fw
