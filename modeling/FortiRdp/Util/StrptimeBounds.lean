/-
Where `strptime` reads: which conversions stay inside of the text and of the tables, and when the name of a zone at
the end of a format does not.
-/
import FortiRdp.Util.Strptime

namespace FortiRdp.Util.Strptime

/-! ## Calls that stay inside -/

/-- The month is one of the table. -/
def InYear (tm : StructTm) : Prop := 0 ≤ tm.mon ∧ tm.mon ≤ 11

/-- A result with the property, or NULL; nothing has been read outside. -/
def Stays {α : Type} (P : α → Prop) : ScanM α → Prop
  | .ok a => P a
  | .error (.null tm) => InYear tm
  | .error .outside => False

theorem Stays.bind {α β : Type} {P : α → Prop} {Q : β → Prop} {f : α → ScanM β} : ∀ {m : ScanM α}, Stays P m →
    (∀ a, P a → Stays Q (f a)) → Stays Q (m >>= f)
  | .ok a, h, hf => hf a h
  | .error (.null _), h, _ => h
  | .error .outside, h, _ => h.elim

theorem Stays.mono {α : Type} {P Q : α → Prop} (hPQ : ∀ a, P a → Q a) : ∀ {m : ScanM α}, Stays P m → Stays Q m
  | .ok a, h => hPQ a h
  | .error (.null _), h => h
  | .error .outside, h => h.elim

theorem findIdx?_lt {α : Type} {p : α → Bool} {l : List α} {i : Nat} (h : l.findIdx? p = some i) : i < l.length := by
  obtain ⟨hi, -⟩ := List.findIdx?_eq_some_iff_getElem.1 h
  exact hi

theorem findName_lt {names : List Bytes} {bp : Bytes} {found : Nat × Bytes} (h : findName names bp = some found) :
    found.1 < names.length := by
  unfold findName at h
  obtain ⟨j, hj, rfl⟩ := Option.map_eq_some_iff.1 h
  exact findIdx?_lt hj

/-- The target is a position in a table, or what it was. -/
theorem findString_fst (bp : Bytes) (tgt : Int) {n1 n2 : List Bytes} {n : Nat} (h1 : n1.length ≤ n) (h2 : n2.length ≤ n) :
    (findString bp tgt n1 n2).1 = tgt ∨ (0 ≤ (findString bp tgt n1 n2).1 ∧ (findString bp tgt n1 n2).1 < n) := by
  unfold findString
  cases hfirst : findName n1 bp with
  | some found =>
    right
    have := findName_lt hfirst
    simp only [Option.some_or]
    omega
  | none =>
    cases hsecond : findName n2 bp with
    | some found =>
      right
      have := findName_lt hsecond
      simp only [Option.none_or]
      omega
    | none => exact Or.inl rfl

/-- A number is between the limits, or what it was. -/
theorem convNum_fst {bp : Bytes} {dest : Int} {llim ulim : Nat} : (convNum bp dest llim ulim).1 = dest ∨
    (llim ≤ (convNum bp dest llim ulim).1 ∧ (convNum bp dest llim ulim).1 ≤ ulim) := by
  unfold convNum
  by_cases hdigit : isdigit (bp.headD 0) = true
  · rw [if_pos hdigit]
    simp only
    by_cases hlimits : (convDigits ulim 0 ulim bp).1 < llim ∨ ulim < (convDigits ulim 0 ulim bp).1
    · rw [if_pos hlimits]
      exact Or.inl rfl
    · rw [if_neg hlimits]
      right
      simp only
      omega
  · rw [if_neg hdigit]
    exact Or.inl rfl

theorem startOf_ok (leap : Bool) {tm : StructTm} (h : InYear tm) : ∃ start, startOf leap tm.mon = .ok start := by
  obtain ⟨hlow, hhigh⟩ := h
  unfold startOf
  rw [if_neg (by omega)]
  have hlt : tm.mon.toNat < (startOfMonth leap).length := by
    have : (startOfMonth leap).length = 13 := by cases leap <;> rfl
    omega
  rw [List.getElem?_eq_getElem hlt]
  exact ⟨_, rfl⟩

/-! ## One conversion -/

/-- What the loop keeps as long as no day or week of the year is read. -/
structure Kept (s : Scanner) : Prop where
  inYear : InYear s.tm
  dayOffset : s.dayOffset = -1
  haveYday : s.haveYday = true → s.haveMon = true ∧ s.haveMday = true ∧ s.haveWday = true

theorem legalAlt_stays {alt : AltFormat} {e o : Bool} {s : Scanner} (h : Kept s) : Stays Kept (legalAlt alt e o s) := by
  unfold legalAlt
  split
  · exact h.inYear
  · exact h

theorem literal_stays {alt : AltFormat} {c : UInt8} {bp : Bytes} {s : Scanner} (h : Kept s) :
    Stays Kept (literal alt c bp s) := by
  unfold literal
  split
  · exact h.inYear
  · exact legalAlt_stays ⟨h.inYear, h.dayOffset, h.haveYday⟩

theorem number_stays {alt : AltFormat} {llim ulim : Nat} {dest : Int} {set : Scanner → Int → Scanner} {e o : Bool}
    {bp : Bytes} {s : Scanner}
    (h : ∀ (i : Int) (bp : Option Bytes), i = dest ∨ (llim ≤ i ∧ i ≤ ulim) → Kept (set { s with bp } i)) :
    Stays Kept (number alt llim ulim dest set e o bp s) := legalAlt_stays (h _ _ convNum_fst)

/-- The formats of other conversions. -/
def innerFormats : List Bytes :=
  ["%a %b %e %H:%M:%S %Y", "%y/%m/%d", "%I:%M:%S %p", "%H:%M:%S", "%Y-%m-%d", "%H:%M"].map ascii

/-- The formats of other conversions stay inside. -/
def InnerStay (recurse : Bytes → Bytes → StructTm → ScanM (Option Bytes × StructTm)) : Prop :=
  ∀ format ∈ innerFormats, ∀ bp tm, InYear tm → Stays (fun r => InYear r.2) (recurse bp format tm)

theorem nested_stays {recurse : Bytes → Bytes → StructTm → ScanM (Option Bytes × StructTm)} (hrec : InnerStay recurse)
    {alt : AltFormat} {format bp : Bytes} (hformat : format ∈ innerFormats) {s : Scanner} (h : Kept s) :
    Stays Kept (nested recurse alt format bp s) :=
  (hrec format hformat bp s.tm h.inYear).bind fun _ hr => legalAlt_stays ⟨hr, h.dayOffset, h.haveYday⟩

theorem shortDate_stays {recurse : Bytes → Bytes → StructTm → ScanM (Option Bytes × StructTm)} (hrec : InnerStay recurse)
    {alt : AltFormat} {bp : Bytes} {s : Scanner} (h : Kept s) : Stays Kept (shortDate recurse alt bp s) := by
  unfold shortDate
  refine (legalAlt_stays h).bind fun s h => ?_
  have hset : Kept { s with haveMon := true, haveMday := true, haveYear := true } :=
    ⟨h.inYear, h.dayOffset, fun hy => ⟨rfl, rfl, (h.haveYday hy).2.2⟩⟩
  have hformat : ascii "%y/%m/%d" ∈ innerFormats := by decide
  refine (nested_stays hrec hformat hset).bind fun s h => ?_
  exact ⟨h.inYear, h.dayOffset, h.haveYday⟩

/-- The letters of the conversions in a format. -/
def letters : Bool → Bytes → List Char
  | _, [] => []
  | false, c :: fmt => letters (c == 37) fmt
  | true, c :: fmt => if c = 69 ∨ c = 79 then letters true fmt else Char.ofNat c.toNat :: letters false fmt

theorem letters_plain {c : UInt8} (hc : c ≠ 37) (fmt : Bytes) : letters false (c :: fmt) = letters false fmt := by
  show letters (c == 37) fmt = _
  rw [beq_false_of_ne hc]

theorem ne_percent_of_isspace {c : UInt8} (h : isspace c = true) : c ≠ 37 := by
  rintro rfl
  exact absurd h (by decide)

/-- The conversions that read the zone, the day or the week of the year, or the year that goes with the week. -/
def unbounded : List Char := ['Z', 'z', 'G', 'j', 'U', 'W']

/-- The conversions with a format of their own. -/
def composite : List Char := ['c', 'F', 'R', 'r', 'X', 'T', 'x', 'D']

theorem secondsSinceEpoch_stays {zone : Zone} (hzone : ∀ n tm, zone.localtime n = some tm → InYear tm) {bp : Bytes}
    {s : Scanner} (h : Kept s) : Kept (secondsSinceEpoch zone bp s) := by
  have hnull : Kept { s with bp := none } := ⟨h.inYear, h.dayOffset, h.haveYday⟩
  unfold secondsSinceEpoch
  split
  · simp only
    split
    · rename_i tm hlocal
      by_cases hlt : (epochDigits 0 (2 ^ 63 - 1) bp).1 < 2 ^ 63
      · rw [if_pos hlt] at hlocal
        exact ⟨hzone _ _ hlocal, h.dayOffset, fun _ => ⟨rfl, rfl, rfl⟩⟩
      · rw [if_neg hlt] at hlocal
        cases hlocal
    · exact hnull
  · exact hnull

theorem halfDayHour_stays {bp : Bytes} {s : Scanner} (h : Kept s) : Kept (halfDayHour bp s) :=
  ⟨h.inYear, h.dayOffset, h.haveYday⟩

theorem halfDay_stays {alt : AltFormat} {bp : Bytes} {s : Scanner} (h : Kept s) : Stays Kept (halfDay alt bp s) := by
  unfold halfDay
  simp only
  split
  · exact h.inYear
  · exact legalAlt_stays ⟨h.inYear, h.dayOffset, h.haveYday⟩

theorem weekday_stays {alt : AltFormat} {e o : Bool} {bp : Option Bytes} {wday : Int} {s : Scanner} (h : Kept s) :
    Stays Kept (legalAlt alt e o { s with bp, tm := { s.tm with wday }, haveWday := true }) :=
  legalAlt_stays ⟨h.inYear, h.dayOffset, fun hy => ⟨(h.haveYday hy).1, (h.haveYday hy).2.1, rfl⟩⟩

theorem month_stays {alt : AltFormat} {e o : Bool} {bp : Option Bytes} {mon : Int} {s : Scanner} (h : Kept s)
    (hmon : 0 ≤ mon ∧ mon ≤ 11) :
    Stays Kept (legalAlt alt e o { s with bp, tm := { s.tm with mon }, haveMon := true }) :=
  legalAlt_stays ⟨hmon, h.dayOffset, fun hy => ⟨rfl, (h.haveYday hy).2⟩⟩

theorem monthName_stays {alt : AltFormat} {e o : Bool} {bp : Bytes} {s : Scanner} (h : Kept s) :
    Stays Kept (legalAlt alt e o { s with
      bp := (findString bp s.tm.mon monthName abMonthName).2
      tm := { s.tm with mon := (findString bp s.tm.mon monthName abMonthName).1 }
      haveMon := true }) := by
  refine month_stays h ?_
  have hlength : monthName.length ≤ 12 := by decide
  have hlength' : abMonthName.length ≤ 12 := by decide
  rcases findString_fst bp s.tm.mon hlength hlength' with hstays | hfound
  · rw [hstays]
    exact h.inYear
  · omega

/-- A conversion that stays inside, with what it takes from the machine and from the formats of other conversions. -/
structure Inside (zone : Zone) (recurse : Bytes → Bytes → StructTm → ScanM (Option Bytes × StructTm)) (c : Char) :
    Prop where
  bounded : c ∉ unbounded
  inner : c ∈ composite → InnerStay recurse
  localtime : c = 's' → ∀ n tm, zone.localtime n = some tm → InYear tm

theorem conversion_stays {zone : Zone} {recurse : Bytes → Bytes → StructTm → ScanM (Option Bytes × StructTm)}
    {alt : AltFormat} {c : Char} (hin : Inside zone recurse c) {bp : Bytes} {s : Scanner} (h : Kept s) :
    Stays Kept (conversion zone recurse alt c bp s) := by
  obtain ⟨hc, hrec, hzone⟩ := hin
  have hinner {format : Bytes} (hcomposite : c ∈ composite) (hformat : format ∈ innerFormats) :
      Stays Kept ((legalAlt alt false false s).bind fun s => nested recurse alt format bp s) :=
    (legalAlt_stays h).bind fun s h => nested_stays (hrec hcomposite) hformat h
  have hmday : Stays Kept (number alt 1 31 s.tm.mday
      (fun s mday => { s with tm := { s.tm with mday }, haveMday := true }) false true bp s) :=
    number_stays fun _ _ _ => ⟨h.inYear, h.dayOffset, fun hy => ⟨(h.haveYday hy).1, rfl, (h.haveYday hy).2.2⟩⟩
  have hwday {llim ulim : Nat} {dest : Int} {f : Int → Int} : Stays Kept (number alt llim ulim dest
      (fun s i => { s with tm := { s.tm with wday := f i }, haveWday := true }) false true bp s) :=
    number_stays fun _ _ _ => ⟨h.inYear, h.dayOffset, fun hy => ⟨(h.haveYday hy).1, (h.haveYday hy).2.1, rfl⟩⟩
  unfold conversion
  split
  · exact literal_stays h
  · exact nested_stays (hrec (by decide)) (by decide) ⟨h.inYear, h.dayOffset, fun _ => ⟨rfl, rfl, rfl⟩⟩
  · have hset : Kept { s with haveMon := true, haveMday := true, haveYear := true } :=
      ⟨h.inYear, h.dayOffset, fun hy => ⟨rfl, rfl, (h.haveYday hy).2.2⟩⟩
    exact (legalAlt_stays hset).bind fun s h => nested_stays (hrec (by decide)) (by decide) h
  · exact hinner (by decide) (by decide)
  · exact hinner (by decide) (by decide)
  · exact hinner (by decide) (by decide)
  · exact hinner (by decide) (by decide)
  · exact shortDate_stays (hrec (by decide)) h
  · exact shortDate_stays (hrec (by decide)) h
  · exact weekday_stays h
  · exact weekday_stays h
  · exact monthName_stays h
  · exact monthName_stays h
  · exact monthName_stays h
  · exact legalAlt_stays ⟨h.inYear, h.dayOffset, h.haveYday⟩
  · exact hmday
  · exact hmday
  · exact (legalAlt_stays h).bind fun s h => number_stays fun _ _ _ => ⟨h.inYear, h.dayOffset, h.haveYday⟩
  · exact number_stays fun _ _ _ => ⟨h.inYear, h.dayOffset, h.haveYday⟩
  · exact (legalAlt_stays h).bind fun s h => legalAlt_stays (halfDayHour_stays h)
  · exact legalAlt_stays (halfDayHour_stays h)
  · exact absurd (by decide) hc
  · exact number_stays fun _ _ _ => ⟨h.inYear, h.dayOffset, h.haveYday⟩
  · refine number_stays fun i _ hi => ⟨?_, h.dayOffset, fun hy => ⟨rfl, (h.haveYday hy).2⟩⟩
    show 0 ≤ i - 1 ∧ i - 1 ≤ 11
    omega
  · exact halfDay_stays h
  · exact number_stays fun _ _ _ => ⟨h.inYear, h.dayOffset, h.haveYday⟩
  · exact secondsSinceEpoch_stays (hzone rfl) h
  · exact absurd (by decide) hc
  · exact absurd (by decide) hc
  · exact hwday
  · exact hwday
  · exact ⟨h.inYear, h.dayOffset, h.haveYday⟩
  · exact absurd (by decide) hc
  · exact ⟨h.inYear, h.dayOffset, h.haveYday⟩
  · exact number_stays fun _ _ _ => ⟨h.inYear, h.dayOffset, h.haveYday⟩
  · exact ⟨h.inYear, h.dayOffset, h.haveYday⟩
  · exact absurd (by decide) hc
  · exact absurd (by decide) hc
  · exact legalAlt_stays ⟨h.inYear, h.dayOffset, h.haveYday⟩
  · exact legalAlt_stays ⟨h.inYear, h.dayOffset, h.haveYday⟩
  · exact h.inYear

theorem run_stays {zone : Zone} {recurse : Bytes → Bytes → StructTm → ScanM (Option Bytes × StructTm)} :
    ∀ (fmt : Bytes) (behind : Option AltFormat) {s : Scanner}, (∀ c ∈ letters behind.isSome fmt, Inside zone recurse c) →
      Kept s → Stays Kept (run zone recurse behind fmt s)
  | [], none, _, _, h => h
  | [], some _, _, _, h => h.inYear
  | c :: fmt, none, s, hin, h => by
    unfold run
    cases hbp : s.bp with
    | none => exact h
    | some bp =>
      simp only
      by_cases hspace : isspace c = true
      · have hletters := letters_plain (ne_percent_of_isspace hspace) fmt
        rw [if_pos hspace]
        exact run_stays fmt none (hletters ▸ hin) ⟨h.inYear, h.dayOffset, h.haveYday⟩
      · rw [if_neg hspace]
        by_cases hc : c = 37
        · subst hc
          rw [if_pos rfl]
          exact run_stays fmt (some ⟨false, false⟩) hin h
        · have hletters := letters_plain hc fmt
          rw [if_neg hc]
          exact (literal_stays h).bind fun s h => run_stays fmt none (hletters ▸ hin) h
  | c :: fmt, some alt, s, hin, h => by
    unfold run
    cases hbp : s.bp with
    | none => exact h
    | some bp =>
      simp only
      by_cases hmod : c = 69 ∨ c = 79
      · have hletters : letters true (c :: fmt) = letters true fmt := if_pos hmod
        rcases hmod with rfl | rfl
        · rw [if_pos rfl]
          exact (legalAlt_stays h).bind fun s h => run_stays fmt (some _) hin h
        · rw [if_neg (by decide), if_pos rfl]
          exact (legalAlt_stays h).bind fun s h => run_stays fmt (some _) hin h
      · have hletters : letters true (c :: fmt) = Char.ofNat c.toNat :: letters false fmt := if_neg hmod
        have hthis : Char.ofNat c.toNat ∈ letters true (c :: fmt) := hletters ▸ List.mem_cons_self
        have hrest : ∀ d ∈ letters false fmt, d ∈ letters true (c :: fmt) := fun d hd =>
          hletters ▸ List.mem_cons_of_mem _ hd
        rw [if_neg fun heq => hmod (.inl heq), if_neg fun heq => hmod (.inr heq)]
        exact (conversion_stays (hin _ hthis) h).bind fun s h => run_stays fmt none (fun d hd => hin d (hrest d hd)) h

/-- The day of the year is read off the table; the month and the day of the month are there. -/
theorem setYday_ok {s : Scanner} (h : Kept s) : ∃ s', setYday s = .ok s' ∧ s'.bp = s.bp ∧ InYear s'.tm ∧
    (s'.haveYday = true → s'.haveMon = true ∧ s'.haveMday = true) := by
  have hsame : InYear s.tm ∧ (s.haveYday = true → s.haveMon = true ∧ s.haveMday = true) :=
    ⟨h.inYear, fun hy => ⟨(h.haveYday hy).1, (h.haveYday hy).2.1⟩⟩
  unfold setYday
  split
  · split
    · rename_i hboth
      rw [Bool.and_eq_true] at hboth
      obtain ⟨start, hstart⟩ := startOf_ok (isLeapYear s.tm.year) h.inYear
      rw [hstart]
      exact ⟨_, rfl, rfl, h.inYear, fun _ => hboth⟩
    · rw [if_neg (not_not_intro h.dayOffset)]
      exact ⟨s, rfl, rfl, hsame⟩
  · exact ⟨s, rfl, rfl, hsame⟩

/-- The other fields follow without the table; the rest of the text is what the loop has left. -/
theorem finish_ok {s : Scanner} (h : Kept s) : ∃ tm, finish s = .ok (s.bp, tm) ∧ InYear tm := by
  obtain ⟨s', hyday, hbp, hin, hset⟩ := setYday_ok h
  unfold finish
  rw [hyday, ← hbp]
  show ∃ tm, (if s'.haveYday && s'.haveYear then _ else _) = _ ∧ _
  split
  · rename_i hboth
    rw [Bool.and_eq_true] at hboth
    obtain ⟨hmon, hmday⟩ := hset hboth.1
    have hsetMon : setMon s' = pure s' := if_pos hmon
    have hsetMday : setMday s' = pure s' := if_pos hmday
    rw [hsetMon, pure_bind, hsetMday, pure_bind]
    unfold setWday
    split
    · exact ⟨_, rfl, hin⟩
    · exact ⟨_, rfl, hin⟩
  · exact ⟨_, rfl, hin⟩

/-! ## Calls -/

section Calls

variable {zone : Zone} {recurse : Bytes → Bytes → StructTm → ScanM (Option Bytes × StructTm)} {buf fmt : Bytes}
  {tm : StructTm}

theorem call_ok {s : Scanner} (h : run zone recurse none fmt (Scanner.start buf tm) = .ok s) :
    call zone recurse buf fmt tm = finish s := by
  unfold call
  rw [h]

theorem call_null {tm' : StructTm} (h : run zone recurse none fmt (Scanner.start buf tm) = .error (.null tm')) :
    call zone recurse buf fmt tm = .ok (none, tm') := by
  unfold call
  rw [h]
  rfl

theorem call_outside (h : run zone recurse none fmt (Scanner.start buf tm) = .error .outside) :
    call zone recurse buf fmt tm = .error .outside := by
  unfold call
  rw [h]

theorem start_kept (buf : Bytes) (htm : InYear tm) : Kept (Scanner.start buf tm) :=
    ⟨htm, rfl, fun h => absurd h Bool.false_ne_true⟩

theorem call_stays (hin : ∀ c ∈ letters false fmt, Inside zone recurse c) (htm : InYear tm) :
    Stays (fun r => InYear r.2) (call zone recurse buf fmt tm) := by
  have hrun := run_stays fmt none hin (start_kept buf htm)
  cases hend : run zone recurse none fmt (Scanner.start buf tm) with
  | ok s =>
    rw [hend] at hrun
    obtain ⟨tm', hfinish, hin⟩ := finish_ok hrun
    rw [call_ok hend, hfinish]
    exact hin
  | error failure =>
    rw [hend] at hrun
    cases failure with
    | null tm' =>
      rw [call_null hend]
      exact hrun
    | outside => exact hrun.elim

/-- The conversions in the formats of other conversions are bounded, and have no format of their own. -/
theorem innerFormats_letters : ∀ fmt ∈ innerFormats, ∀ c ∈ letters false fmt, c ∉ unbounded ∧ c ∉ composite ∧ c ≠ 's' := by
  have hall : (innerFormats.all fun fmt =>
      (letters false fmt).all fun c => decide (c ∉ unbounded ∧ c ∉ composite ∧ c ≠ 's')) = true := by decide
  exact fun fmt hfmt c hc => of_decide_eq_true (List.all_eq_true.1 (List.all_eq_true.1 hall fmt hfmt) c hc)

theorem innerStay_calls (zone : Zone) (depth : Nat) : InnerStay (calls zone (depth + 1)) := by
  intro format hformat bp tm htm
  refine call_stays (fun c hc => ?_) htm
  obtain ⟨hbound, hcomposite, hs⟩ := innerFormats_letters format hformat c hc
  exact ⟨hbound, fun h => absurd h hcomposite, fun h => absurd h hs⟩

theorem letters_inside (zone : Zone) (hbound : ∀ c ∈ letters false fmt, c ∉ unbounded)
    (hzone : 's' ∈ letters false fmt → ∀ n tm, zone.localtime n = some tm → InYear tm) :
    ∀ c ∈ letters false fmt, Inside zone (calls zone 1) c := fun c hc =>
  ⟨hbound c hc, fun _ => innerStay_calls zone 0, fun hs => hzone (hs ▸ hc)⟩

end Calls

/-! ## The name of a zone at the end -/

/-- The format ends inside of a conversion. -/
def endsInside : Bool → Bytes → Bool
  | behind, [] => behind
  | false, c :: fmt => endsInside (c == 37) fmt
  | true, c :: fmt => endsInside (c == 69 || c == 79) fmt

theorem endsInside_plain {c : UInt8} (hc : c ≠ 37) (fmt : Bytes) : endsInside false (c :: fmt) = endsInside false fmt := by
  show endsInside (c == 37) fmt = _
  rw [beq_false_of_ne hc]

theorem run_null (zone : Zone) (recurse : Bytes → Bytes → StructTm → ScanM (Option Bytes × StructTm)) {s : Scanner}
    (h : s.bp = none) (fmt : Bytes) : run zone recurse none fmt s = pure s := by
  cases fmt with
  | nil => rfl
  | cons c fmt =>
    unfold run
    rw [h]

/-- What stands behind a format is read when the format has been read. -/
theorem run_append (zone : Zone) (recurse : Bytes → Bytes → StructTm → ScanM (Option Bytes × StructTm)) (more : Bytes) :
    ∀ (fmt : Bytes) (behind : Option AltFormat) (s : Scanner), endsInside behind.isSome fmt = false →
      run zone recurse behind (fmt ++ more) s = run zone recurse behind fmt s >>= run zone recurse none more
  | [], none, s, _ => (pure_bind s _).symm
  | [], some _, _, h => absurd h.symm Bool.false_ne_true
  | c :: fmt, none, s, h => by
    rw [List.cons_append]
    unfold run
    cases hbp : s.bp with
    | none => exact (run_null zone recurse hbp more).symm
    | some bp =>
      simp only
      by_cases hspace : isspace c = true
      · rw [if_pos hspace, if_pos hspace]
        exact run_append zone recurse more fmt none _ (endsInside_plain (ne_percent_of_isspace hspace) fmt ▸ h)
      · rw [if_neg hspace, if_neg hspace]
        by_cases hc : c = 37
        · subst hc
          rw [if_pos rfl, if_pos rfl]
          exact run_append zone recurse more fmt (some ⟨false, false⟩) _ h
        · rw [if_neg hc, if_neg hc, bind_assoc]
          exact bind_congr fun s => run_append zone recurse more fmt none s (endsInside_plain hc fmt ▸ h)
  | c :: fmt, some alt, s, h => by
    rw [List.cons_append]
    unfold run
    cases hbp : s.bp with
    | none => exact (run_null zone recurse hbp more).symm
    | some bp =>
      simp only
      by_cases hE : c = 69
      · subst hE
        rw [if_pos rfl, if_pos rfl, bind_assoc]
        exact bind_congr fun s => run_append zone recurse more fmt (some _) s h
      · rw [if_neg hE, if_neg hE]
        by_cases hO : c = 79
        · subst hO
          rw [if_pos rfl, if_pos rfl, bind_assoc]
          exact bind_congr fun s => run_append zone recurse more fmt (some _) s h
        · have hfmt : endsInside (c == 69 || c == 79) fmt = false := h
          rw [beq_false_of_ne hE, beq_false_of_ne hO] at hfmt
          rw [if_neg hO, if_neg hO, bind_assoc]
          exact bind_congr fun s => run_append zone recurse more fmt none s hfmt

theorem charAt_ok {bp : Bytes} {i : Nat} (h : i ≤ bp.length) : charAt bp i = pure (bp.getD i 0) := if_pos h

theorem lt_of_not_delim {bp : Bytes} {i : Nat} (h : isDelim (bp.getD i 0) = false) : i < bp.length := by
  by_contra hge
  rw [List.getD_eq_getElem?_getD, List.getElem?_eq_none (not_lt.1 hge)] at h
  exact absurd h (by decide)

theorem offsetZone_mon {bp : Bytes} {tm : StructTm} : ∀ found ∈ offsetZone bp tm, found.2.mon = tm.mon := by
  intro found hfound
  unfold offsetZone at hfound
  simp only at hfound
  split at hfound
  · cases hfound
  · split at hfound
    · split at hfound
      · cases hfound
      · cases hfound
        rfl
    · cases hfound

theorem fromZone_mon (bp : Bytes) (tm : StructTm) : ∀ found ∈ fromZone bp tm, found.2.mon = tm.mon := by
  intro found hfound
  unfold fromZone at hfound
  simp only at hfound
  split at hfound
  · cases hfound
    rfl
  · cases hfound

theorem tableZone_mon {zone : Zone} {bp : Bytes} {tm : StructTm} : ∀ found ∈ tableZone zone bp tm,
    found.2.mon = tm.mon := by
  intro found hfound
  unfold tableZone at hfound
  split at hfound
  · cases hfound
    rfl
  · split at hfound
    · cases hfound
      rfl
    · obtain ⟨i, -, rfl⟩ := Option.map_eq_some_iff.1 hfound
      rfl

/-- The name of a zone is not read behind the terminator when there is a character. -/
theorem namedZone_stays {zone : Zone} {bp : Bytes} (hbp : bp ≠ []) {tm : StructTm} :
    ∃ r, namedZone zone bp tm = .ok r ∧ ∀ found ∈ r, found.2.mon = tm.mon := by
  have h1 : 1 ≤ bp.length := List.length_pos_iff.2 hbp
  have hfrom := fromZone_mon bp tm
  have hnext : ∀ found ∈ some (bp.drop 1, tm), found.2.mon = tm.mon := by
    rintro found hfound
    cases hfound
    rfl
  unfold namedZone
  simp only [charAt_ok h1, pure_bind]
  split
  · exact ⟨_, rfl, hnext⟩
  · split
    · exact ⟨_, rfl, hnext⟩
    · split
      · exact ⟨_, rfl, hfrom⟩
      · split
        · exact ⟨_, rfl, hfrom⟩
        · rename_i hdelim
          have h2 : 2 ≤ bp.length := lt_of_not_delim (Bool.not_eq_true _ ▸ hdelim)
          rw [charAt_ok h2, pure_bind]
          split
          · exact ⟨_, rfl, hfrom⟩
          · rename_i hdelim
            have h3 : 3 ≤ bp.length := lt_of_not_delim (Bool.not_eq_true _ ▸ hdelim)
            rw [charAt_ok h3, pure_bind]
            split
            · exact ⟨_, rfl, hfrom⟩
            · refine ⟨_, rfl, fun found hfound => ?_⟩
              rcases Option.or_eq_some_iff.1 hfound with htable | ⟨-, hfrom'⟩
              · exact tableZone_mon found htable
              · exact hfrom found hfrom'

theorem readZone_stays (zone : Zone) {bp : Bytes} (hbp : bp ≠ []) (tm : StructTm) :
    ∃ r, readZone zone false bp tm = .ok r ∧ r.2.mon = tm.mon := by
  unfold readZone
  simp only [Bool.false_eq_true, if_false]
  split
  · exact ⟨_, rfl, rfl⟩
  · have hfound : ∃ r, (if bp.headD 0 = 43 ∨ bp.headD 0 = 45 then pure (offsetZone (bp.drop 1) tm)
        else namedZone zone bp tm : ScanM (Option (Bytes × StructTm))) = .ok r ∧ ∀ found ∈ r, found.2.mon = tm.mon := by
      split
      · exact ⟨_, rfl, offsetZone_mon⟩
      · exact namedZone_stays hbp
    obtain ⟨r, hr, hmon⟩ := hfound
    rw [hr]
    cases r with
    | none => exact ⟨_, rfl, rfl⟩
    | some found => exact ⟨found, rfl, hmon found rfl⟩

theorem run_zone {zone : Zone} {recurse : Bytes → Bytes → StructTm → ScanM (Option Bytes × StructTm)} {bp : Bytes}
    {s : Scanner} (h : s.bp = some bp) : run zone recurse none (ascii "%Z") s =
      readZone zone false bp s.tm >>= fun r => pure { s with bp := some r.1, tm := r.2 } := by
  show run zone recurse none [37, 90] s = _
  unfold run
  rw [h]
  show (run zone recurse (some ⟨false, false⟩) [90] s : ScanM Scanner) = _
  unfold run
  rw [h]
  exact bind_pure (m := ScanM) (readZone zone false bp s.tm >>= fun r => pure { s with bp := some r.1, tm := r.2 })

end FortiRdp.Util.Strptime
