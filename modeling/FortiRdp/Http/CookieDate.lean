/-
The date of expiry of a cookie. It names an instant in GMT; `mktime` takes its fields for local time, and says -1
for what is before 1970.
-/
import FortiRdp.Http.CookieText
import FortiRdp.Net.Endpoint

namespace FortiRdp.Http

open Util Net

/-! ## Calendar dates -/

def isLeap (year : Nat) : Bool := year % 4 == 0 && (year % 100 != 0 || year % 400 == 0)

def monthLengths (year : Nat) : List Nat := [31, if isLeap year then 29 else 28, 31, 30, 31, 30, 31, 31, 30, 31, 30, 31]

/-- A date and time of the calendar, in GMT; the months count from 0. -/
structure CalendarTime where
  year : Nat
  month : Nat
  day : Nat
  hour : Nat
  minute : Nat
  second : Nat
  year_ge : 1901 ≤ year
  year_le : year ≤ 9999
  month_lt : month < 12
  day_pos : 1 ≤ day
  day_le : day ≤ (monthLengths year).getD month 0
  hour_lt : hour < 24
  minute_lt : minute < 60
  second_lt : second < 60

namespace CalendarTime

/-- The days from the year 1 to the beginning of the year. -/
def daysBefore (year : Nat) : Int :=
  365 * (year - 1 : Int) + (((year - 1) / 4 : Nat) : Int) - (((year - 1) / 100 : Nat) : Int) + (((year - 1) / 400 : Nat) : Int)

/-- The seconds from the beginning of 1970 to the date. -/
def instant (d : CalendarTime) : Int :=
  86400 * (daysBefore d.year - daysBefore 1970 + (((monthLengths d.year).take d.month).sum : Int) + (d.day - 1 : Int)) +
    3600 * d.hour + 60 * d.minute + d.second

/-- The fields of the date. -/
def tm (d : CalendarTime) : Tm where
  sec := d.second
  min := d.minute
  hour := d.hour
  mday := d.day
  mon := d.month
  year := d.year - 1900

end CalendarTime

/-! ## Dates as they are written -/

def weekdays : List Bytes :=
  ["sunday", "monday", "tuesday", "wednesday", "thursday", "friday", "saturday", "sun", "mon", "tue", "wed", "thu", "fri", "sat"].map ascii

def months : List (List Bytes) := [
  [ascii "january", ascii "jan"], [ascii "february", ascii "feb"], [ascii "march", ascii "mar"],
  [ascii "april", ascii "apr"], [ascii "may"], [ascii "june", ascii "jun"],
  [ascii "july", ascii "jul"], [ascii "august", ascii "aug"], [ascii "september", ascii "sep"],
  [ascii "october", ascii "oct"], [ascii "november", ascii "nov"], [ascii "december", ascii "dec"]]

/-- Two digits. -/
def twoDigits (n : Nat) : Bytes := [(48 + n / 10 % 10).toUInt8, (48 + n % 10).toUInt8]

/-- A date in one of the formats: with blanks or hyphens in it, with all digits of the year or two. The names are
written in full or not, with letters of either case. -/
structure WrittenDate where
  date : CalendarTime
  weekday : Bytes
  weekday_mem : lower weekday ∈ weekdays
  month : Bytes
  month_mem : lower month ∈ months.getD date.month []
  hyphens : Bool
  short : Bool
  century : short = true → 1969 ≤ date.year ∧ date.year ≤ 2068

namespace WrittenDate

def text (w : WrittenDate) : Bytes :=
  let separator := if w.hyphens then ascii "-" else ascii " "
  let year := if w.short then twoDigits w.date.year else twoDigits (w.date.year / 100) ++ twoDigits w.date.year
  w.weekday ++ ascii ", " ++ twoDigits w.date.day ++ separator ++ w.month ++ separator ++ year ++ ascii " " ++
    twoDigits w.date.hour ++ ascii ":" ++ twoDigits w.date.minute ++ ascii ":" ++ twoDigits w.date.second ++ ascii " GMT"

/-- The format that the date is written in. -/
def format (w : WrittenDate) : Bytes :=
  if w.short then if w.hyphens then ascii "%a, %d-%b-%y %H:%M:%S %Z" else ascii "%a, %d %b %y %H:%M:%S %Z"
  else if w.hyphens then ascii "%a, %d-%b-%Y %H:%M:%S %Z" else ascii "%a, %d %b %Y %H:%M:%S %Z"

theorem format_mem (w : WrittenDate) : w.format ∈ Cookie.cookieDateFormats := by
  unfold format
  cases w.short <;> cases w.hyphens <;> decide

end WrittenDate

/-- `strptime` fills in the fields as they are written, whatever the zone. A year of two digits that is taken for the
year itself is before 1901. -/
structure ReadsAsWritten (lib : DateLib) (w : WrittenDate) : Prop where
  own : lib.strptime w.text w.format = some w.date.tm
  other : ∀ format ∈ Cookie.cookieDateFormats, ∀ tm, lib.strptime w.text format = some tm → tm = w.date.tm ∨ tm.year ≤ 0

/-- `mktime` takes the fields for local time, `offset` seconds ahead of GMT; it says -1 for what is before 1970. -/
def LocalTime (lib : DateLib) (date : CalendarTime) (offset : Int) : Prop :=
  lib.mktime date.tm = if date.instant - offset < 0 then -1 else date.instant - offset

/-- The first format that gives a year after 1900 gives the date. -/
theorem parseHttpDate_go {lib : DateLib} {text : Bytes} {tm : Tm} (hyear : 0 < tm.year) : ∀ {formats : List Bytes},
    (∃ format ∈ formats, lib.strptime (cStr text) format = some tm) →
      (∀ format ∈ formats, ∀ tm', lib.strptime (cStr text) format = some tm' → tm' = tm ∨ tm'.year ≤ 0) →
        Cookie.parseHttpDate.go lib text formats = lib.mktime tm
  | [], ⟨_, hmem, _⟩, _ => absurd hmem List.not_mem_nil
  | format :: formats, ⟨own, hmem, hown⟩, hother => by
    have hrest : ∀ f ∈ formats, ∀ tm', lib.strptime (cStr text) f = some tm' → tm' = tm ∨ tm'.year ≤ 0 :=
      fun f hf => hother f (List.mem_cons_of_mem _ hf)
    unfold Cookie.parseHttpDate.go
    cases hread : lib.strptime (cStr text) format with
    | none =>
      refine parseHttpDate_go hyear ⟨own, ?_, hown⟩ hrest
      rcases List.mem_cons.1 hmem with rfl | hmem
      · rw [hown] at hread
        cases hread
      · exact hmem
    | some tm' =>
      simp only
      by_cases hlate : 0 < tm'.year
      · rw [if_pos hlate]
        rcases hother format List.mem_cons_self tm' hread with rfl | hearly
        · rfl
        · omega
      · rw [if_neg hlate]
        refine parseHttpDate_go hyear ⟨own, ?_, hown⟩ hrest
        rcases List.mem_cons.1 hmem with rfl | hmem
        · rw [hown] at hread
          cases hread
          exact absurd hyear hlate
        · exact hmem

/-- The expiry that the code takes from a date. -/
def localExpires (date : CalendarTime) (offset : Int) : Int :=
  if date.instant - offset < 0 then expiresUnspecified else date.instant - offset

theorem parse_date {lib : DateLib} {w : WrittenDate} {offset : Int} {name value : Bytes} {attrs : List AttributeText}
    {o : ObfString} (hname : 59 ∉ name ∧ 61 ∉ name ∧ 0 ∉ name) (hvalue : 59 ∉ value ∧ 0 ∉ value)
    (h : o.Hides (definitionText name value attrs)) (hdate : lastDate attrs = some w.text) (hread : ReadsAsWritten lib w)
    (hlocal : LocalTime lib w.date offset) : ∃ c, Cookie.parse lib o = .ok c ∧ c.expires = localExpires w.date offset := by
  obtain ⟨hidden, -, hparse⟩ := parse_definition lib attrs hname hvalue h
  refine ⟨_, hparse, ?_⟩
  have hnul : 0 ∉ w.text := by
    unfold lastDate at hdate
    obtain ⟨a, ha, htext⟩ := List.mem_filterMap.1 (List.mem_of_getLast? hdate)
    obtain ⟨t, -, rfl⟩ := List.mem_map.1 ha
    refine (t.plain w.text ?_).2
    cases hkind : t.kind with
    | expires text =>
      rw [hkind] at htext
      exact htext
    | domain | path | secure | httpOnly | maxAge =>
      rw [hkind] at htext
      cases htext
  have hyear : 0 < w.date.tm.year := by
    have hge := w.date.year_ge
    show 0 < (w.date.year : Int) - 1900
    omega
  have hmktime : Cookie.parseHttpDate lib w.text = lib.mktime w.date.tm := by
    refine parseHttpDate_go hyear ⟨w.format, w.format_mem, ?_⟩ ?_
    · rw [cStr_eq hnul]
      exact hread.own
    · rw [cStr_eq hnul]
      exact hread.other
  show lastExpires lib attrs = _
  unfold lastExpires localExpires
  rw [hdate]
  simp only
  rw [hmktime, hlocal]
  by_cases hold : w.date.instant - offset < 0
  · rw [if_pos hold, if_pos (by decide : (-1 : Int) < 0), if_pos hold]
  · rw [if_neg hold, if_neg hold]

end FortiRdp.Http
