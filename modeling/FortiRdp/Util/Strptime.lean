/-
`strptime`, an interpreter of a format: it reads a text and fills in the fields of a date, also where it answers NULL.
A read behind the terminator of the text, or outside of a table, ends a call.
-/
import FortiRdp.Util.Str

namespace FortiRdp.Util

/-- The fields of a `struct tm`. -/
structure StructTm where
  sec : Int
  min : Int
  hour : Int
  mday : Int
  mon : Int
  year : Int
  wday : Int
  yday : Int
  isdst : Int
  deriving DecidableEq, Repr

def StructTm.zero : StructTm := ⟨0, 0, 0, 0, 0, 0, 0, 0, 0⟩

namespace Strptime

/-- How a call ends before the end of the format: `return NULL`, with the fields as they are, or a read outside of the
text or of a table. -/
inductive Failure where
  | null (tm : StructTm)
  | outside
  deriving DecidableEq, Repr

abbrev ScanM := Except Failure

/-- What the call takes from the machine: the names of the time zone, and the local time of a number of seconds. -/
structure Zone where
  tzname : List Bytes
  localtime : Nat → Option StructTm

/-- The modifiers in front of a conversion. -/
structure AltFormat where
  e : Bool
  o : Bool

/-- What the loop over the format keeps: the rest of the text, the fields, and which of them have been set. -/
structure Scanner where
  bp : Option Bytes
  tm : StructTm
  splitYear : Bool
  haveYear : Bool
  haveMon : Bool
  haveYday : Bool
  haveMday : Bool
  haveWday : Bool
  haveHour : Bool
  dayOffset : Int
  weekOffset : Int

def Scanner.start (buf : Bytes) (tm : StructTm) : Scanner :=
  ⟨some buf, tm, false, false, false, false, false, false, false, -1, 0⟩

/-- `LEGAL_ALT`. -/
def legalAlt (alt : AltFormat) (e o : Bool) (s : Scanner) : ScanM Scanner :=
  if (alt.e && !e) || (alt.o && !o) then .error (.null s.tm) else pure s

/-! ## Names and numbers -/

def weekdayName : List Bytes :=
  ["Sunday", "Monday", "Tuesday", "Wednesday", "Thursday", "Friday", "Saturday"].map ascii

def abWeekdayName : List Bytes := ["Sun", "Mon", "Tue", "Wed", "Thu", "Fri", "Sat"].map ascii

def monthName : List Bytes :=
  ["January", "February", "March", "April", "May", "June", "July", "August", "September", "October", "November",
    "December"].map ascii

def abMonthName : List Bytes :=
  ["Jan", "Feb", "Mar", "Apr", "May", "Jun", "Jul", "Aug", "Sep", "Oct", "Nov", "Dec"].map ascii

def amPm : List Bytes := ["AM", "PM"].map ascii

def nast : List Bytes := ["EST", "CST", "MST", "PST"].map ascii

def nadt : List Bytes := ["EDT", "CDT", "MDT", "PDT"].map ascii

/-- `strncasecmp` over the length of a name. -/
def startsWith (name bp : Bytes) : Bool := lower (bp.take name.length) == lower name

/-- The first of the names that the text begins with, and the text behind it. -/
def findName (names : List Bytes) (bp : Bytes) : Option (Nat × Bytes) :=
  (names.findIdx? fun name => startsWith name bp).map fun i => (i, bp.drop (names.getD i []).length)

/-- `find_string`: the full names first, then those that are cut short. Without a match the target stays. -/
def findString (bp : Bytes) (tgt : Int) (n1 n2 : List Bytes) : Int × Option Bytes :=
  match (findName n1 bp).or (findName n2 bp) with
  | some (i, rest) => (i, some rest)
  | none => (tgt, none)

/-- The loop of `conv_num`. -/
def convDigits (ulim : Nat) : Nat → Nat → Bytes → Nat × Bytes
  | result, rulim, ch :: buf =>
    let result := result * 10 + (ch.toNat - 48)
    let rulim := rulim / 10
    if result ≤ ulim ∧ rulim ≠ 0 ∧ isdigit (buf.headD 0) = true then convDigits ulim result rulim buf else (result, buf)
  | result, _, [] => (result, [])

/-- `conv_num`: the limit also determines the number of digits. -/
def convNum (buf : Bytes) (dest : Int) (llim ulim : Nat) : Int × Option Bytes :=
  if isdigit (buf.headD 0) then
    let (result, rest) := convDigits ulim 0 ulim buf
    if result < llim ∨ ulim < result then (dest, none) else (result, some rest)
  else (dest, none)

/-- The loop of `%s`: no more digits than a 64-bit number has. -/
def epochDigits : Nat → Nat → Bytes → Nat × Bytes
  | sse, rulim, ch :: buf =>
    let sse := sse * 10 + (ch.toNat - 48)
    let rulim := rulim / 10
    if rulim ≠ 0 ∧ isdigit (buf.headD 0) = true then epochDigits sse rulim buf else (sse, buf)
  | sse, _, [] => (sse, [])

/-! ## The calendar -/

/-- `isleap`, with the remainder of C. -/
def isLeap (y : Int) : Bool := y.tmod 4 == 0 && (y.tmod 100 != 0 || y.tmod 400 == 0)

/-- `isleap_sum` with the base of `tm_year`. -/
def isLeapYear (tmYear : Int) : Bool := isLeap (tmYear.tmod 400 + Int.tmod 1900 400)

def startOfMonth (leap : Bool) : List Int :=
  if leap then [0, 31, 60, 91, 121, 152, 182, 213, 244, 274, 305, 335, 366]
  else [0, 31, 59, 90, 120, 151, 181, 212, 243, 273, 304, 334, 365]

/-- An entry of the table. -/
def startOf (leap : Bool) (mon : Int) : ScanM Int :=
  if mon < 0 then .error .outside
  else match (startOfMonth leap)[mon.toNat]? with
    | some start => pure start
    | none => .error .outside

/-- `first_wday_of`. -/
def firstWdayOf (yr : Int) : Int :=
  (2 * (3 - (yr.tdiv 100).tmod 4) + yr.tmod 100 + (yr.tmod 100).tdiv 4 + (if isLeap yr then 6 else 0) + 1).tmod 7

/-! ## The time zone -/

/-- The end of a name. -/
def isDelim (c : UInt8) : Bool := c == 0 || isspace c

/-- A character of the text; behind the terminator there is none. -/
def charAt (bp : Bytes) (i : Nat) : ScanM UInt8 := if i ≤ bp.length then pure (bp.getD i 0) else .error .outside

/-- `fromzone`: any name will do. -/
def fromZone (bp : Bytes) (tm : StructTm) : Option (Bytes × StructTm) :=
  let buf := (bp.take 511).takeWhile fun c => !isDelim c
  if isalnum (buf.headD 0) then some (bp.drop buf.length, { tm with isdst := 0 }) else none

/-- The names of UTC, up to the end of the name: `none` for another name. -/
def utcZone (bp : Bytes) : Option Bytes :=
  let atZ (bp : Bytes) : Option Bytes := if isDelim (bp.headD 0) then some bp else none
  let atU (bp : Bytes) : Option Bytes :=
    if bp.headD 0 ≠ 84 then none
    else if isDelim ((bp.drop 1).headD 0) then atZ (bp.drop 1)
    else if (bp.drop 1).headD 0 ≠ 67 then none
    else atZ (bp.drop 2)
  match bp with
  | 71 :: bp => if bp.headD 0 ≠ 77 then none else atU (bp.drop 1)
  | 85 :: bp => atU bp
  | 90 :: bp => atZ bp
  | _ => none

/-- The first of the tables of names in which the zone is found. -/
def tableZone (zone : Zone) (bp : Bytes) (tm : StructTm) : Option (Bytes × StructTm) :=
  match findName nast bp with
  | some (_, ep) => some (ep, tm)
  | none =>
    match findName nadt bp with
    | some (_, ep) => some (ep, { tm with isdst := 1 })
    | none => (findName zone.tzname bp).map fun found => (found.2, { tm with isdst := found.1 })

/-- A zone with another name: of one letter, of three letters, or any name. -/
def namedZone (zone : Zone) (bp : Bytes) (tm : StructTm) : ScanM (Option (Bytes × StructTm)) := do
  let first := bp.headD 0
  if isDelim (← charAt bp 1) ∧ ((65 ≤ first ∧ first ≤ 73) ∨ (76 ≤ first ∧ first ≤ 89)) then pure (some (bp.drop 1, tm))
  else if isDelim (← charAt bp 1) ∧ first = 74 then pure (some (bp.drop 1, tm))
  else if isDelim first then pure (fromZone bp tm)
  else if isDelim (← charAt bp 1) then pure (fromZone bp tm)
  else if isDelim (← charAt bp 2) then pure (fromZone bp tm)
  else if !isDelim (← charAt bp 3) then pure (fromZone bp tm)
  else pure ((tableZone zone bp tm).or (fromZone bp tm))

/-- The digits of an offset, with a colon behind two of them. -/
def offsetDigits : Nat → Nat → Bytes → Nat × Nat × Bytes
  | i, offs, c :: bp =>
    if 4 ≤ i then (i, offs, c :: bp)
    else if isdigit c then offsetDigits (i + 1) (offs * 10 + (c.toNat - 48)) bp
    else if i = 2 ∧ c = 58 then offsetDigits i offs bp
    else (i, offs, c :: bp)
  | i, offs, [] => (i, offs, [])

/-- An offset: hours, or hours and minutes. -/
def offsetZone (bp : Bytes) (tm : StructTm) : Option (Bytes × StructTm) :=
  let (i, offs, bp) := offsetDigits 0 0 bp
  if isdigit (bp.headD 0) then none
  else
    let seconds : Option Nat :=
      if i = 2 then some (offs * 3600)
      else if i = 4 then if 60 ≤ offs % 100 then none else some (offs / 100 * 3600 + offs % 100 * 60)
      else none
    match seconds with
    | some offs => if 86400 ≤ offs then none else some (bp, { tm with isdst := 0 })
    | none => none

/-- `%Z` and `%z`: a zone that is not known is passed by, unless it is mandatory. -/
def readZone (zone : Zone) (mandatory : Bool) (bp : Bytes) (tm : StructTm) : ScanM (Bytes × StructTm) := do
  let zname := if mandatory then bp.dropWhile isspace else bp
  match utcZone zname with
  | some bp => pure (bp, { tm with isdst := 0 })
  | none => do
    let found ← (if zname.headD 0 = 43 ∨ zname.headD 0 = 45 then pure (offsetZone (zname.drop 1) tm)
      else namedZone zone zname tm : ScanM (Option (Bytes × StructTm)))
    match found with
    | some found => pure found
    | none => if mandatory then .error (.null tm) else pure (zname, tm)

/-! ## Conversions -/

/-- A character of the format that stands for itself. -/
def literal (alt : AltFormat) (c : UInt8) (bp : Bytes) (s : Scanner) : ScanM Scanner :=
  if c ≠ bp.headD 0 then .error (.null s.tm) else legalAlt alt false false { s with bp := some (bp.drop 1) }

/-- `recurse`: the format of another conversion. -/
def nested (recurse : Bytes → Bytes → StructTm → ScanM (Option Bytes × StructTm)) (alt : AltFormat) (format bp : Bytes)
    (s : Scanner) : ScanM Scanner := do
  let (bp, tm) ← recurse bp format s.tm
  legalAlt alt true false { s with bp, tm }

/-- `%D`: a year of two digits goes with the century in front of it. -/
def shortDate (recurse : Bytes → Bytes → StructTm → ScanM (Option Bytes × StructTm)) (alt : AltFormat) (bp : Bytes)
    (s : Scanner) : ScanM Scanner := do
  let s ← legalAlt alt false false s
  let year := if s.splitYear then s.tm.year else 0
  let s ← nested recurse alt (ascii "%y/%m/%d") bp { s with haveMon := true, haveMday := true, haveYear := true }
  let sum := s.tm.year + year
  let sum := if s.splitYear ∧ sum.tmod 100 ≤ 68 then sum - 100 else sum
  pure { s with tm := { s.tm with year := sum }, splitYear := true }

/-- `%C`. -/
def century (bp : Bytes) (s : Scanner) : Scanner :=
  let (i, bp) := convNum bp 20 0 99
  let year := i * 100 - 1900 + if s.splitYear then s.tm.year.tmod 100 else 0
  { s with bp, tm := { s.tm with year }, splitYear := true, haveYear := true }

/-- `%y`. -/
def yearOfCentury (bp : Bytes) (s : Scanner) : Scanner :=
  let (i, bp) := convNum bp 0 0 99
  let year := if s.splitYear then i + s.tm.year.tdiv 100 * 100 else if i ≤ 68 then i + 100 else i
  { s with bp, tm := { s.tm with year }, splitYear := true, haveYear := true }

/-- `%I`. -/
def halfDayHour (bp : Bytes) (s : Scanner) : Scanner :=
  let (hour, bp) := convNum bp s.tm.hour 1 12
  { s with bp, tm := { s.tm with hour := if hour = 12 then 0 else hour }, haveHour := true }

/-- `%p`. -/
def halfDay (alt : AltFormat) (bp : Bytes) (s : Scanner) : ScanM Scanner :=
  let (i, bp) := findString bp 0 amPm []
  if s.haveHour ∧ 11 < s.tm.hour then .error (.null s.tm)
  else legalAlt alt false false { s with bp, tm := { s.tm with hour := s.tm.hour + i * 12 } }

/-- `%s`: a number of 19 digits may not be one of 64 bits with a sign. -/
def secondsSinceEpoch (zone : Zone) (bp : Bytes) (s : Scanner) : Scanner :=
  if isdigit (bp.headD 0) then
    let (sse, rest) := epochDigits 0 (2 ^ 63 - 1) bp
    match if sse < 2 ^ 63 then zone.localtime sse else none with
    | some tm =>
      { s with bp := some rest, tm, haveYday := true, haveWday := true, haveMon := true, haveMday := true, haveYear := true }
    | none => { s with bp := none }
  else { s with bp := none }

/-- `%G` passes the character it is at, and the digits behind it. -/
def isoYear (bp : Bytes) (s : Scanner) : ScanM Scanner :=
  if bp = [] then .error .outside else pure { s with bp := some ((bp.drop 1).dropWhile isdigit) }

/-- `%U` and `%W`. -/
def weekOfYear (alt : AltFormat) (day : Int) (bp : Bytes) (s : Scanner) : ScanM Scanner := do
  let (i, bp) := convNum bp 0 0 53
  let s ← legalAlt alt false true { s with bp }
  pure { s with dayOffset := day, weekOffset := i }

/-- A conversion that reads a number for one of the fields. -/
def number (alt : AltFormat) (llim ulim : Nat) (dest : Int) (set : Scanner → Int → Scanner) (e o : Bool) (bp : Bytes)
    (s : Scanner) : ScanM Scanner :=
  let (i, bp) := convNum bp dest llim ulim
  legalAlt alt e o (set { s with bp } i)

/-- The conversion with the letter `c`, other than the modifiers. -/
def conversion (zone : Zone) (recurse : Bytes → Bytes → StructTm → ScanM (Option Bytes × StructTm)) (alt : AltFormat)
    (c : Char) (bp : Bytes) (s : Scanner) : ScanM Scanner := do
  match c with
  | '%' => literal alt 37 bp s
  | 'c' =>
    nested recurse alt (ascii "%a %b %e %H:%M:%S %Y") bp
      { s with haveWday := true, haveMon := true, haveMday := true, haveYear := true }
  | 'F' => do
    let s ← legalAlt alt false false { s with haveMon := true, haveMday := true, haveYear := true }
    nested recurse alt (ascii "%Y-%m-%d") bp s
  | 'R' => do nested recurse alt (ascii "%H:%M") bp (← legalAlt alt false false s)
  | 'r' => do nested recurse alt (ascii "%I:%M:%S %p") bp (← legalAlt alt false false s)
  | 'X' | 'T' => do nested recurse alt (ascii "%H:%M:%S") bp (← legalAlt alt false false s)
  | 'x' | 'D' => shortDate recurse alt bp s
  | 'A' | 'a' =>
    let (wday, bp) := findString bp s.tm.wday weekdayName abWeekdayName
    legalAlt alt false false { s with bp, tm := { s.tm with wday }, haveWday := true }
  | 'B' | 'b' | 'h' =>
    let (mon, bp) := findString bp s.tm.mon monthName abMonthName
    legalAlt alt false false { s with bp, tm := { s.tm with mon }, haveMon := true }
  | 'C' => legalAlt alt true false (century bp s)
  | 'd' | 'e' =>
    number alt 1 31 s.tm.mday (fun s mday => { s with tm := { s.tm with mday }, haveMday := true }) false true bp s
  | 'k' => do
    let s ← legalAlt alt false false s
    number alt 0 23 s.tm.hour (fun s hour => { s with tm := { s.tm with hour }, haveHour := true }) false true bp s
  | 'H' => number alt 0 23 s.tm.hour (fun s hour => { s with tm := { s.tm with hour }, haveHour := true }) false true bp s
  | 'l' => do legalAlt alt false true (halfDayHour bp (← legalAlt alt false false s))
  | 'I' => legalAlt alt false true (halfDayHour bp s)
  | 'j' => number alt 1 366 1 (fun s i => { s with tm := { s.tm with yday := i - 1 }, haveYday := true }) false false bp s
  | 'M' => number alt 0 59 s.tm.min (fun s min => { s with tm := { s.tm with min } }) false true bp s
  | 'm' => number alt 1 12 1 (fun s i => { s with tm := { s.tm with mon := i - 1 }, haveMon := true }) false true bp s
  | 'p' => halfDay alt bp s
  | 'S' => number alt 0 61 s.tm.sec (fun s sec => { s with tm := { s.tm with sec } }) false true bp s
  | 's' => pure (secondsSinceEpoch zone bp s)
  | 'U' => weekOfYear alt 0 bp s
  | 'W' => weekOfYear alt 1 bp s
  | 'w' => number alt 0 6 s.tm.wday (fun s wday => { s with tm := { s.tm with wday }, haveWday := true }) false true bp s
  | 'u' =>
    number alt 1 7 0 (fun s i => { s with tm := { s.tm with wday := i.tmod 7 }, haveWday := true }) false true bp s
  | 'g' => pure { s with bp := (convNum bp 0 0 99).2 }
  | 'G' => isoYear bp s
  | 'V' => pure { s with bp := (convNum bp 0 0 53).2 }
  | 'Y' =>
    number alt 0 9999 1900 (fun s i => { s with tm := { s.tm with year := i - 1900 }, haveYear := true }) true false bp s
  | 'y' => pure (yearOfCentury bp s)
  | 'Z' => do
    let (bp, tm) ← readZone zone false bp s.tm
    pure { s with bp := some bp, tm }
  | 'z' => do
    let (bp, tm) ← readZone zone true bp s.tm
    pure { s with bp := some bp, tm }
  | 'n' | 't' => legalAlt alt false false { s with bp := some (bp.dropWhile isspace) }
  | _ => .error (.null s.tm)

/-- The loop over the format. Behind `%` it stands in front of a conversion, with the modifiers that were there. -/
def run (zone : Zone) (recurse : Bytes → Bytes → StructTm → ScanM (Option Bytes × StructTm)) :
    Option AltFormat → Bytes → Scanner → ScanM Scanner
  | none, [], s => pure s
  | some _, [], s => .error (.null s.tm)
  | none, c :: fmt, s =>
    match s.bp with
    | none => pure s
    | some bp =>
      if isspace c then run zone recurse none fmt { s with bp := some (bp.dropWhile isspace) }
      else if c = 37 then run zone recurse (some ⟨false, false⟩) fmt s
      else do run zone recurse none fmt (← literal ⟨false, false⟩ c bp s)
  | some alt, c :: fmt, s =>
    match s.bp with
    | none => pure s
    | some bp =>
      if c = 69 then do run zone recurse (some { alt with e := true }) fmt (← legalAlt alt false false s)
      else if c = 79 then do run zone recurse (some { alt with o := true }) fmt (← legalAlt alt false false s)
      else do run zone recurse none fmt (← conversion zone recurse alt (Char.ofNat c.toNat) bp s)

/-! ## Behind the loop -/

/-- The day of the year, from the date or from the week. -/
def setYday (s : Scanner) : ScanM Scanner :=
  if !s.haveYday && s.haveYear then
    if s.haveMon && s.haveMday then do
      let start ← startOf (isLeapYear s.tm.year) s.tm.mon
      pure { s with tm := { s.tm with yday := start + (s.tm.mday - 1) }, haveYday := true }
    else if s.dayOffset ≠ -1 then
      let wday := if s.haveWday then s.tm.wday else s.dayOffset
      let yday := (7 - firstWdayOf (s.tm.year + 1900) + s.dayOffset).tmod 7 + (s.weekOffset - 1) * 7 + wday - s.dayOffset
      pure { s with tm := { s.tm with wday, yday }, haveWday := true, haveYday := true }
    else pure s
  else pure s

/-- The month of a day of the year. The search goes on behind the table when the year is shorter. -/
def setMon (s : Scanner) : ScanM Scanner :=
  if s.haveMon then pure s
  else match (startOfMonth (isLeapYear s.tm.year)).findIdx? fun start => s.tm.yday < start with
    | some i => pure { s with tm := { s.tm with mon := i - 1 }, haveMon := true }
    | none => .error .outside

/-- The day of the month of a day of the year. -/
def setMday (s : Scanner) : ScanM Scanner :=
  if s.haveMday then pure s
  else do
    let start ← startOf (isLeapYear s.tm.year) s.tm.mon
    pure { s with tm := { s.tm with mday := s.tm.yday - start + 1 }, haveMday := true }

/-- The day of the week of a day of the year; the year is counted from 1900 here. -/
def setWday (s : Scanner) : Scanner :=
  if s.haveWday then s
  else
    let wday := (fun w : Int => if 6 ≤ w then 0 else w + 1)^[(s.tm.yday + 1).toNat] (firstWdayOf s.tm.year)
    { s with tm := { s.tm with wday }, haveWday := true }

/-- The fields that follow from those that were read. -/
def finish (s : Scanner) : ScanM (Option Bytes × StructTm) := do
  let s ← setYday s
  if s.haveYday && s.haveYear then do
    let s ← setMday (← setMon s)
    let s := setWday s
    pure (s.bp, s.tm)
  else pure (s.bp, s.tm)

/-- A call in which the formats of other conversions are read by `recurse`. -/
def call (zone : Zone) (recurse : Bytes → Bytes → StructTm → ScanM (Option Bytes × StructTm)) (buf fmt : Bytes)
    (tm : StructTm) : ScanM (Option Bytes × StructTm) :=
  match run zone recurse none fmt (Scanner.start buf tm) with
  | .ok s => finish s
  | .error (.null tm) => pure (none, tm)
  | .error .outside => .error .outside

/-- Calls inside of one another. -/
def calls (zone : Zone) : Nat → Bytes → Bytes → StructTm → ScanM (Option Bytes × StructTm)
  | 0, _, _, _ => .error .outside
  | depth + 1, buf, fmt, tm => call zone (calls zone depth) buf fmt tm

end Strptime

/-- `strptime`: the formats of other conversions have no such conversions themselves. -/
def strptime (zone : Strptime.Zone) (buf fmt : Bytes) (tm : StructTm) : Strptime.ScanM (Option Bytes × StructTm) :=
  Strptime.calls zone 2 buf fmt tm

end FortiRdp.Util
