/-
The dates of cookies in the shipped `strptime`: every date that is written in one of the four formats is read as it is
written, and no other format takes it for a date after 1900.
-/
import FortiRdp.Http.AnswerRead
import FortiRdp.Http.CookieDate
import FortiRdp.Util.StrptimeBounds

namespace FortiRdp.Http.CookieDate

open Util Strptime

/-- The fields that `mktime` takes. -/
def fields (tm : StructTm) : Tm := ⟨tm.sec, tm.min, tm.hour, tm.mday, tm.mon, tm.year⟩

/-- The shipped `strptime`, called with fields that are all 0. -/
def shippedLib (zone : Zone) (mktime : Tm → Int) : DateLib where
  strptime text format :=
    match strptime zone text format StructTm.zero with
    | .ok (some _, tm) => some (fields tm)
    | .ok (none, _) => none
    | .error _ => none
  mktime := mktime

/-! ## Numbers -/

theorem isdigit_text {d : Nat} (h : d < 10) : isdigit (48 + d).toUInt8 = true := (digit_text d h).1

theorem convDigits_cons {ulim result rulim : Nat} {ch next : UInt8} {buf : Bytes} {d : Nat} (hd : ch.toNat - 48 = d)
    (hnext : isdigit next = true) (hle : result * 10 + d ≤ ulim) (hrulim : rulim / 10 ≠ 0) :
    convDigits ulim result rulim (ch :: next :: buf) = convDigits ulim (result * 10 + d) (rulim / 10) (next :: buf) := by
  subst hd
  exact if_pos ⟨hle, hrulim, hnext⟩

/-- The number ends with its digits, or with those of the limit. -/
theorem convDigits_last {ulim result rulim : Nat} {ch : UInt8} {buf : Bytes} {d : Nat} (hd : ch.toNat - 48 = d)
    (hlast : rulim / 10 = 0 ∨ isdigit (buf.headD 0) = false) :
    convDigits ulim result rulim (ch :: buf) = (result * 10 + d, buf) := by
  subst hd
  refine if_neg fun ⟨_, hrulim, hnext⟩ => ?_
  rcases hlast with hlast | hlast
  · exact hrulim hlast
  · rw [hlast] at hnext
    cases hnext

theorem convDigits_two {n ulim : Nat} {rest : Bytes} (h10 : 10 ≤ ulim)
    (hlast : ulim < 100 ∨ isdigit (rest.headD 0) = false) :
    convDigits ulim 0 ulim (twoDigits n ++ rest) = (n % 100, rest) := by
  obtain ⟨hdigit, hvalue⟩ := digit_text (n / 10 % 10) (Nat.mod_lt _ (by decide))
  obtain ⟨hdigit', hvalue'⟩ := digit_text (n % 10) (Nat.mod_lt _ (by decide))
  show convDigits ulim 0 ulim (_ :: _ :: rest) = _
  rw [convDigits_cons hvalue hdigit' (by omega) (by omega), convDigits_last hvalue' ?_]
  · congr 1
    omega
  · rcases hlast with h100 | hlast
    · left
      omega
    · exact Or.inr hlast

theorem convNum_digits {buf rest : Bytes} {dest : Int} {llim ulim n : Nat} (hdigit : isdigit (buf.headD 0) = true)
    (hdigits : convDigits ulim 0 ulim buf = (n, rest)) : convNum buf dest llim ulim =
      if n < llim ∨ ulim < n then (dest, none) else (((n : Nat) : Int), some rest) := by
  unfold convNum
  rw [if_pos hdigit, hdigits]

theorem headD_two (n : Nat) (rest : Bytes) : isdigit ((twoDigits n ++ rest).headD 0) = true :=
  isdigit_text (Nat.mod_lt _ (by decide))

/-- Two digits, in front of another character or under a limit of two digits. -/
theorem convNum_two {n llim ulim : Nat} {dest : Int} {rest : Bytes} (h10 : 10 ≤ ulim)
    (hlast : ulim < 100 ∨ isdigit (rest.headD 0) = false) : convNum (twoDigits n ++ rest) dest llim ulim =
      if n % 100 < llim ∨ ulim < n % 100 then (dest, none) else (((n % 100 : Nat) : Int), some rest) :=
  convNum_digits (headD_two n rest) (convDigits_two h10 hlast)

/-- A year of four digits. -/
theorem convNum_four {n : Nat} (hn : n ≤ 9999) {dest : Int} {rest : Bytes} :
    convNum (twoDigits (n / 100) ++ twoDigits n ++ rest) dest 0 9999 = ((n : Int), some rest) := by
  have hdigits : convDigits 9999 0 9999 (twoDigits (n / 100) ++ twoDigits n ++ rest) = (n, rest) := by
    obtain ⟨h1, v1⟩ := digit_text (n / 100 / 10 % 10) (Nat.mod_lt _ (by decide))
    obtain ⟨h2, v2⟩ := digit_text (n / 100 % 10) (Nat.mod_lt _ (by decide))
    obtain ⟨h3, v3⟩ := digit_text (n / 10 % 10) (Nat.mod_lt _ (by decide))
    obtain ⟨h4, v4⟩ := digit_text (n % 10) (Nat.mod_lt _ (by decide))
    show convDigits 9999 0 9999 (_ :: _ :: _ :: _ :: rest) = _
    rw [convDigits_cons v1 h2 (by omega) (by decide), convDigits_cons v2 h3 (by omega) (by decide),
      convDigits_cons v3 h4 (by omega) (by decide), convDigits_last v4 (Or.inl (by decide))]
    congr 1
    omega
  rw [List.append_assoc] at hdigits ⊢
  rw [convNum_digits (headD_two _ _) hdigits, if_neg (by omega)]

/-! ## Names -/

/-- A name is found in a word when it begins the word, whatever follows behind a character that is in no name. -/
theorem startsWith_word {name word rest : Bytes} {c : UInt8} (hc : tolower c ∉ lower name) :
    startsWith name (word ++ c :: rest) = (lower name).isPrefixOf (lower word) := by
  have htext : lower (word ++ c :: rest) = lower word ++ tolower c :: lower rest := by
    unfold lower
    rw [List.map_append, List.map_cons]
  rw [Bool.eq_iff_iff, List.isPrefixOf_iff_prefix]
  have hstarts : startsWith name (word ++ c :: rest) = true ↔ lower name <+: lower (word ++ c :: rest) := by
    unfold startsWith
    rw [beq_iff_eq, List.prefix_iff_eq_take]
    unfold lower
    rw [List.map_take, List.length_map]
    exact eq_comm
  rw [hstarts, htext]
  refine ⟨fun h => ?_, fun h => h.trans (List.prefix_append _ _)⟩
  refine List.prefix_of_prefix_length_le h (List.prefix_append _ _) (not_lt.1 fun hlt => hc ?_)
  have hget : (lower name)[(lower word).length] = tolower c := by
    rw [List.IsPrefix.getElem h hlt, List.getElem_append_right (le_refl _)]
    simp
  exact hget ▸ List.getElem_mem hlt

theorem findIdx?_congr {α : Type} {p q : α → Bool} : ∀ {l : List α}, (∀ a ∈ l, p a = q a) → l.findIdx? p = l.findIdx? q
  | [], _ => rfl
  | a :: l, h => by
    rw [List.findIdx?_cons, List.findIdx?_cons, h a List.mem_cons_self,
      findIdx?_congr fun b hb => h b (List.mem_cons_of_mem _ hb)]

/-- The first of the names that begins the word, and its length. -/
def nameIn (names : List Bytes) (word : Bytes) : Option (Nat × Nat) :=
  (names.findIdx? fun name => (lower name).isPrefixOf word).map fun i => (i, (names.getD i []).length)

theorem findName_word {names : List Bytes} {word rest : Bytes} {c : UInt8} (hc : ∀ name ∈ names, tolower c ∉ lower name) :
    findName names (word ++ c :: rest) =
      (nameIn names (lower word)).map fun found => (found.1, (word ++ c :: rest).drop found.2) := by
  unfold findName nameIn
  rw [Option.map_map]
  congr 1
  exact findIdx?_congr fun name hname => startsWith_word (hc name hname)

theorem findString_word {n1 n2 : List Bytes} {word rest : Bytes} {c : UInt8} {tgt : Int} {i : Nat}
    (hc : ∀ name ∈ n1 ++ n2, tolower c ∉ lower name)
    (hword : (nameIn n1 (lower word)).or (nameIn n2 (lower word)) = some (i, (lower word).length)) :
    findString (word ++ c :: rest) tgt n1 n2 = ((i : Int), some (c :: rest)) := by
  have hdrop : (word ++ c :: rest).drop (lower word).length = c :: rest := by
    unfold lower
    rw [List.length_map, List.drop_left]
  unfold findString
  rw [findName_word fun name hname => hc name (List.mem_append_left _ hname),
    findName_word fun name hname => hc name (List.mem_append_right _ hname)]
  rw [← Option.map_or, hword, Option.map_some, hdrop]

theorem findString_none {n1 n2 : List Bytes} {word rest : Bytes} {c : UInt8} {tgt : Int}
    (hc : ∀ name ∈ n1 ++ n2, tolower c ∉ lower name)
    (hword : (nameIn n1 (lower word)).or (nameIn n2 (lower word)) = none) :
    findString (word ++ c :: rest) tgt n1 n2 = (tgt, none) := by
  unfold findString
  rw [findName_word fun name hname => hc name (List.mem_append_left _ hname),
    findName_word fun name hname => hc name (List.mem_append_right _ hname)]
  rw [← Option.map_or, hword, Option.map_none]

theorem weekday_found : ∀ word ∈ weekdays, ∃ i < 7,
    (nameIn weekdayName word).or (nameIn abWeekdayName word) = some (i, word.length) := by decide

theorem month_found : ∀ m < 12, ∀ word ∈ months.getD m [],
    (nameIn monthName word).or (nameIn abMonthName word) = some (m, word.length) := by decide

theorem plain_names : ∀ c ∈ [32, 44, 45], ∀ name ∈ weekdayName ++ abWeekdayName ++ (monthName ++ abMonthName),
    tolower c ∉ lower name := by
  have hall : ([32, 44, 45].all fun c => (weekdayName ++ abWeekdayName ++ (monthName ++ abMonthName)).all fun name =>
      decide (tolower c ∉ lower name)) = true := by decide
  exact fun c hc name hname => of_decide_eq_true (List.all_eq_true.1 (List.all_eq_true.1 hall c hc) name hname)

theorem months_letters : ∀ m < 12, ∀ word ∈ months.getD m [], isalpha (word.headD 0) = true := by decide

/-- A word with a letter in front has none of the blanks there. -/
theorem word_head {word : Bytes} (h : isalpha ((lower word).headD 0) = true) (rest : Bytes) :
    isspace ((word ++ rest).headD 0) = false := by
  cases word with
  | nil => exact absurd h (by decide)
  | cons c word =>
    show isspace c = false
    by_contra hspace
    have hlower : tolower c = c := by
      unfold tolower
      rw [if_neg]
      simp only [isspace, Bool.not_eq_false, Bool.or_eq_true, Bool.and_eq_true, decide_eq_true_eq, beq_iff_eq] at hspace ⊢
      rintro ⟨h1, h2⟩
      rcases hspace with ⟨-, h3⟩ | rfl
      · exact absurd (UInt8.le_trans h1 h3) (by decide)
      · exact absurd h1 (by decide)
    have halpha : isalpha c = true := hlower ▸ h
    rw [isspace_of_alnum (by rw [isalnum, halpha, Bool.or_true])] at hspace
    exact hspace rfl

/-! ## Parts of a format -/

theorem dropWhile_head {bp : Bytes} (h : isspace (bp.headD 0) = false) : bp.dropWhile isspace = bp := by
  cases bp with
  | nil => rfl
  | cons c bp => exact List.dropWhile_cons_of_neg (by rw [show isspace c = false from h]; exact Bool.false_ne_true)

/-- The loop ends with NULL. -/
def Refused (m : ScanM Scanner) : Prop := (∃ tm, m = .error (.null tm)) ∨ ∃ s, m = .ok s ∧ s.bp = none

theorem isspace_two (n : Nat) (rest : Bytes) : isspace ((twoDigits n ++ rest).headD 0) = false :=
  isspace_of_alnum (by rw [isalnum, headD_two, Bool.true_or])

section Parts

variable {zone : Zone} {recurse : Bytes → Bytes → StructTm → ScanM (Option Bytes × StructTm)} {s : Scanner} {bp : Bytes}

theorem run_space (h : s.bp = some bp) (fmt : Bytes) :
    run zone recurse none (32 :: fmt) s = run zone recurse none fmt { s with bp := some (bp.dropWhile isspace) } := by
  conv_lhs => unfold run
  rw [h]
  rfl

theorem run_literal {c : UInt8} (h : s.bp = some (c :: bp)) (hspace : isspace c = false) (hc : c ≠ 37) (fmt : Bytes) :
    run zone recurse none (c :: fmt) s = run zone recurse none fmt { s with bp := some bp } := by
  conv_lhs => unfold run
  rw [h]
  simp only
  rw [if_neg (by rw [hspace]; exact Bool.false_ne_true), if_neg hc]
  unfold literal
  rw [if_neg (not_not_intro (by rfl))]
  rfl

theorem run_literal_ne {c : UInt8} (h : s.bp = some bp) (hspace : isspace c = false) (hc : c ≠ 37) (hne : c ≠ bp.headD 0)
    (fmt : Bytes) : run zone recurse none (c :: fmt) s = .error (.null s.tm) := by
  unfold run
  rw [h]
  simp only
  rw [if_neg (by rw [hspace]; exact Bool.false_ne_true), if_neg hc]
  unfold literal
  rw [if_pos hne]
  rfl

theorem run_conversion {c : UInt8} (h : s.bp = some bp) (hE : c ≠ 69) (hO : c ≠ 79) (fmt : Bytes) :
    run zone recurse none (37 :: c :: fmt) s =
      conversion zone recurse ⟨false, false⟩ (Char.ofNat c.toNat) bp s >>= run zone recurse none fmt := by
  unfold run
  rw [h]
  show (run zone recurse (some ⟨false, false⟩) (c :: fmt) s : ScanM Scanner) = _
  conv_lhs => unfold run
  rw [h]
  simp only
  rw [if_neg hE, if_neg hO]

/-- A blank or a hyphen in front of a character that is not a blank. -/
theorem run_separator {c : UInt8} (hc : c = 32 ∨ c = 45) (h : s.bp = some (c :: bp)) (hbp : isspace (bp.headD 0) = false)
    (fmt : Bytes) : run zone recurse none (c :: fmt) s = run zone recurse none fmt { s with bp := some bp } := by
  rcases hc with rfl | rfl
  · rw [run_space h, List.dropWhile_cons_of_pos (by decide), dropWhile_head hbp]
  · exact run_literal h (by decide) (by decide) fmt

theorem number_ok {llim ulim : Nat} {dest i : Int} {set : Scanner → Int → Scanner} {e o : Bool} {rest : Option Bytes}
    (h : convNum bp dest llim ulim = (i, rest)) :
    number ⟨false, false⟩ llim ulim dest set e o bp s = pure (set { s with bp := rest } i) := by
  unfold number
  rw [h]
  rfl

theorem conversion_weekday {wday : Int} {rest : Option Bytes}
    (h : findString bp s.tm.wday weekdayName abWeekdayName = (wday, rest)) :
    conversion zone recurse ⟨false, false⟩ 'a' bp s =
      pure { s with bp := rest, tm := { s.tm with wday }, haveWday := true } := by
  unfold conversion
  simp only
  rw [h]
  rfl

theorem conversion_month {mon : Int} {rest : Option Bytes}
    (h : findString bp s.tm.mon monthName abMonthName = (mon, rest)) :
    conversion zone recurse ⟨false, false⟩ 'b' bp s =
      pure { s with bp := rest, tm := { s.tm with mon }, haveMon := true } := by
  unfold conversion
  simp only
  rw [h]
  rfl

theorem conversion_day {mday : Int} {rest : Option Bytes} (h : convNum bp s.tm.mday 1 31 = (mday, rest)) :
    conversion zone recurse ⟨false, false⟩ 'd' bp s =
      pure { s with bp := rest, tm := { s.tm with mday }, haveMday := true } := by
  unfold conversion
  exact number_ok h

theorem conversion_hour {hour : Int} {rest : Option Bytes} (h : convNum bp s.tm.hour 0 23 = (hour, rest)) :
    conversion zone recurse ⟨false, false⟩ 'H' bp s =
      pure { s with bp := rest, tm := { s.tm with hour }, haveHour := true } := by
  unfold conversion
  exact number_ok h

theorem conversion_minute {min : Int} {rest : Option Bytes} (h : convNum bp s.tm.min 0 59 = (min, rest)) :
    conversion zone recurse ⟨false, false⟩ 'M' bp s = pure { s with bp := rest, tm := { s.tm with min } } := by
  unfold conversion
  exact number_ok h

theorem conversion_second {sec : Int} {rest : Option Bytes} (h : convNum bp s.tm.sec 0 61 = (sec, rest)) :
    conversion zone recurse ⟨false, false⟩ 'S' bp s = pure { s with bp := rest, tm := { s.tm with sec } } := by
  unfold conversion
  exact number_ok h

theorem conversion_year {year : Int} {rest : Option Bytes} (h : convNum bp 1900 0 9999 = (year, rest)) :
    conversion zone recurse ⟨false, false⟩ 'Y' bp s =
      pure { s with bp := rest, tm := { s.tm with year := year - 1900 }, haveYear := true } := by
  unfold conversion
  exact number_ok h

theorem run_weekday {word : Bytes} (hword : lower word ∈ weekdays) (h : s.bp = some (word ++ 44 :: 32 :: bp))
    (hbp : isspace (bp.headD 0) = false) (fmt : Bytes) :
    ∃ wday : Int, run zone recurse none (37 :: 97 :: 44 :: 32 :: fmt) s =
      run zone recurse none fmt { s with bp := some bp, tm := { s.tm with wday }, haveWday := true } := by
  obtain ⟨i, -, hfound⟩ := weekday_found _ hword
  refine ⟨i, ?_⟩
  have hfind : findString (word ++ 44 :: 32 :: bp) s.tm.wday weekdayName abWeekdayName =
      ((i : Int), some (44 :: 32 :: bp)) :=
    findString_word (fun name hname => plain_names 44 (by decide) name (List.mem_append_left _ hname)) hfound
  rw [run_conversion h (by decide) (by decide), show Char.ofNat (97 : UInt8).toNat = 'a' from rfl, conversion_weekday hfind,
    pure_bind, run_literal rfl (by decide) (by decide), run_separator (Or.inl rfl) rfl hbp]

theorem run_day {d : Nat} (hlow : 1 ≤ d) (hhigh : d ≤ 31) (h : s.bp = some (twoDigits d ++ bp)) (fmt : Bytes) :
    run zone recurse none (37 :: 100 :: fmt) s =
      run zone recurse none fmt { s with bp := some bp, tm := { s.tm with mday := d }, haveMday := true } := by
  have hread : convNum (twoDigits d ++ bp) s.tm.mday 1 31 = ((d : Int), some bp) := by
    rw [convNum_two (by decide) (Or.inl (by decide)), Nat.mod_eq_of_lt (by omega), if_neg (by omega)]
  rw [run_conversion h (by decide) (by decide), show Char.ofNat (100 : UInt8).toNat = 'd' from rfl, conversion_day hread,
    pure_bind]

theorem run_month {c : UInt8} (hc : c = 32 ∨ c = 45) {word : Bytes} {m : Nat} (hm : m < 12)
    (hword : lower word ∈ months.getD m []) (h : s.bp = some (c :: (word ++ c :: bp))) (hbp : isspace (bp.headD 0) = false)
    (fmt : Bytes) : run zone recurse none (c :: 37 :: 98 :: c :: fmt) s =
      run zone recurse none fmt { s with bp := some bp, tm := { s.tm with mon := m }, haveMon := true } := by
  have hplain : ∀ name ∈ monthName ++ abMonthName, tolower c ∉ lower name := fun name hname =>
    plain_names c (by rcases hc with rfl | rfl <;> decide) name (List.mem_append_right _ hname)
  have hfind : findString (word ++ c :: bp) s.tm.mon monthName abMonthName = ((m : Int), some (c :: bp)) :=
    findString_word hplain (month_found m hm _ hword)
  have hhead := word_head (months_letters m hm _ hword) (c :: bp)
  rw [run_separator hc h hhead, run_conversion rfl (by decide) (by decide),
    show Char.ofNat (98 : UInt8).toNat = 'b' from rfl,
    conversion_month (s := { s with bp := some (word ++ c :: bp) }) hfind, pure_bind, run_separator hc rfl hbp]

/-- The month is not found behind the other separator. -/
theorem run_month_refused {c d : UInt8} (hc : c = 32 ∨ c = 45) (hd : d = 32 ∨ d = 45) (hne : c ≠ d)
    (h : s.bp = some (c :: bp)) (fmt : Bytes) : Refused (run zone recurse none (d :: 37 :: 98 :: fmt) s) := by
  rcases hd with rfl | rfl
  · have hhyphen : c = 45 := hc.resolve_left hne
    subst hhyphen
    have hplain : ∀ name ∈ monthName ++ abMonthName, tolower 45 ∉ lower name := fun name hname =>
      plain_names 45 (by decide) name (List.mem_append_right _ hname)
    have hnone : (nameIn monthName (lower [])).or (nameIn abMonthName (lower [])) = none := by decide
    have hfind : findString (45 :: bp) s.tm.mon monthName abMonthName = (s.tm.mon, none) := findString_none hplain hnone
    right
    rw [run_space h, List.dropWhile_cons_of_neg (by decide), run_conversion rfl (by decide) (by decide),
      show Char.ofNat (98 : UInt8).toNat = 'b' from rfl,
      conversion_month (s := { s with bp := some (45 :: bp) }) hfind, pure_bind, run_null zone recurse rfl]
    exact ⟨_, rfl, rfl⟩
  · exact Or.inl ⟨_, run_literal_ne h (by decide) (by decide) hne.symm _⟩

theorem run_year {y : Nat} (hy : y ≤ 9999) (h : s.bp = some (twoDigits (y / 100) ++ twoDigits y ++ bp)) (fmt : Bytes) :
    run zone recurse none (37 :: 89 :: fmt) s =
      run zone recurse none fmt
        { s with bp := some bp, tm := { s.tm with year := (y : Int) - 1900 }, haveYear := true } := by
  rw [run_conversion h (by decide) (by decide), show Char.ofNat (89 : UInt8).toNat = 'Y' from rfl,
    conversion_year (convNum_four hy), pure_bind]

/-- Two digits are taken for the year itself. -/
theorem run_year_short {y : Nat} (h : s.bp = some (twoDigits y ++ bp)) (hbp : isdigit (bp.headD 0) = false) (fmt : Bytes) :
    run zone recurse none (37 :: 89 :: fmt) s = run zone recurse none fmt
      { s with bp := some bp, tm := { s.tm with year := (y % 100 : Nat) - 1900 }, haveYear := true } := by
  have hread : convNum (twoDigits y ++ bp) 1900 0 9999 = (((y % 100 : Nat) : Int), some bp) := by
    rw [convNum_two (by decide) (Or.inr hbp), if_neg (by omega)]
  rw [run_conversion h (by decide) (by decide), show Char.ofNat (89 : UInt8).toNat = 'Y' from rfl,
    conversion_year hread, pure_bind]

/-- The first two digits are the year of the century. -/
theorem run_yearOfCentury {y : Nat} (h : s.bp = some (twoDigits y ++ bp)) (fmt : Bytes) (hsplit : s.splitYear = false) :
    run zone recurse none (37 :: 121 :: fmt) s = run zone recurse none fmt { s with
      bp := some bp
      tm := { s.tm with year := if y % 100 ≤ 68 then ((y % 100 : Nat) : Int) + 100 else ((y % 100 : Nat) : Int) }
      splitYear := true
      haveYear := true } := by
  have hread : convNum (twoDigits y ++ bp) 0 0 99 = (((y % 100 : Nat) : Int), some bp) := by
    rw [convNum_two (by decide) (Or.inl (by decide)), if_neg (by omega)]
  have hconversion : conversion zone recurse ⟨false, false⟩ 'y' (twoDigits y ++ bp) s =
      pure (yearOfCentury (twoDigits y ++ bp) s) := rfl
  rw [run_conversion h (by decide) (by decide), show Char.ofNat (121 : UInt8).toNat = 'y' from rfl, hconversion, pure_bind]
  unfold yearOfCentury
  rw [hread, hsplit]
  simp only [Bool.false_eq_true, if_false, Nat.cast_le_ofNat]

theorem run_hour {n : Nat} (hn : n < 24) (h : s.bp = some (twoDigits n ++ bp)) (fmt : Bytes) :
    run zone recurse none (37 :: 72 :: fmt) s =
      run zone recurse none fmt { s with bp := some bp, tm := { s.tm with hour := n }, haveHour := true } := by
  have hread : convNum (twoDigits n ++ bp) s.tm.hour 0 23 = ((n : Int), some bp) := by
    rw [convNum_two (by decide) (Or.inl (by decide)), Nat.mod_eq_of_lt (by omega), if_neg (by omega)]
  rw [run_conversion h (by decide) (by decide), show Char.ofNat (72 : UInt8).toNat = 'H' from rfl, conversion_hour hread,
    pure_bind]

theorem run_minute {n : Nat} (hn : n < 60) (h : s.bp = some (twoDigits n ++ bp)) (fmt : Bytes) :
    run zone recurse none (37 :: 77 :: fmt) s =
      run zone recurse none fmt { s with bp := some bp, tm := { s.tm with min := n } } := by
  have hread : convNum (twoDigits n ++ bp) s.tm.min 0 59 = ((n : Int), some bp) := by
    rw [convNum_two (by decide) (Or.inl (by decide)), Nat.mod_eq_of_lt (by omega), if_neg (by omega)]
  rw [run_conversion h (by decide) (by decide), show Char.ofNat (77 : UInt8).toNat = 'M' from rfl, conversion_minute hread,
    pure_bind]

theorem run_second {n : Nat} (hn : n < 60) (h : s.bp = some (twoDigits n ++ bp)) (fmt : Bytes) :
    run zone recurse none (37 :: 83 :: fmt) s =
      run zone recurse none fmt { s with bp := some bp, tm := { s.tm with sec := n } } := by
  have hread : convNum (twoDigits n ++ bp) s.tm.sec 0 61 = ((n : Int), some bp) := by
    rw [convNum_two (by decide) (Or.inl (by decide)), Nat.mod_eq_of_lt (by omega), if_neg (by omega)]
  rw [run_conversion h (by decide) (by decide), show Char.ofNat (83 : UInt8).toNat = 'S' from rfl, conversion_second hread,
    pure_bind]

/-- The blank, the time and the blank behind it. -/
theorem run_time {hour minute second : Nat} (hhour : hour < 24) (hminute : minute < 60) (hsecond : second < 60)
    (h : s.bp = some (32 :: (twoDigits hour ++ 58 :: (twoDigits minute ++ 58 :: (twoDigits second ++ 32 :: bp)))))
    (hbp : isspace (bp.headD 0) = false) :
    run zone recurse none [32, 37, 72, 58, 37, 77, 58, 37, 83, 32] s = pure { s with
      bp := some bp, tm := { s.tm with hour := hour, min := minute, sec := second }, haveHour := true } := by
  rw [run_separator (Or.inl rfl) h (isspace_two hour _), run_hour hhour rfl, run_literal rfl (by decide) (by decide),
    run_minute hminute rfl, run_literal rfl (by decide) (by decide), run_second hsecond rfl,
    run_separator (Or.inl rfl) rfl hbp]
  rfl

/-- The time is not found behind two digits that are left of the year. -/
theorem run_time_refused {y : Nat} (h : s.bp = some (twoDigits y ++ 32 :: bp)) (fmt : Bytes) :
    Refused (run zone recurse none (32 :: 37 :: 72 :: 58 :: fmt) s) := by
  have hread : convNum (twoDigits y ++ 32 :: bp) s.tm.hour 0 23 = _ := convNum_two (by decide) (Or.inl (by decide))
  rw [run_space h, dropWhile_head (isspace_two y _), run_conversion rfl (by decide) (by decide),
    show Char.ofNat (72 : UInt8).toNat = 'H' from rfl]
  by_cases hlate : y % 100 < 0 ∨ 23 < y % 100
  · rw [if_pos hlate] at hread
    right
    rw [conversion_hour (s := { s with bp := some (twoDigits y ++ 32 :: bp) }) hread, pure_bind, run_null zone recurse rfl]
    exact ⟨_, rfl, rfl⟩
  · rw [if_neg hlate] at hread
    left
    rw [conversion_hour (s := { s with bp := some (twoDigits y ++ 32 :: bp) }) hread, pure_bind]
    exact ⟨_, run_literal_ne rfl (by decide) (by decide) (show (58 : UInt8) ≠ 32 by decide) _⟩

end Parts

/-! ## Dates -/

/-- What stands in front of the zone in a format, with the separator and the letter of the year. -/
def front (c y : UInt8) : Bytes :=
  [37, 97, 44, 32, 37, 100] ++ c :: 37 :: 98 :: c :: 37 :: y :: [32, 37, 72, 58, 37, 77, 58, 37, 83, 32]

theorem front_bounded {c y : UInt8} (hc : c = 32 ∨ c = 45) (hy : y = 89 ∨ y = 121) :
    (∀ d ∈ letters false (front c y), d ∉ unbounded ∧ d ≠ 's') ∧ endsInside false (front c y) = false := by
  have hall : ((letters false (front c y)).all fun d => decide (d ∉ unbounded ∧ d ≠ 's')) = true ∧
      endsInside false (front c y) = false := by
    rcases hc with rfl | rfl <;> rcases hy with rfl | rfl <;> decide
  exact ⟨fun d hd => of_decide_eq_true (List.all_eq_true.1 hall.1 d hd), hall.2⟩

theorem cookieDateFormats_eq {format : Bytes} (h : format ∈ Cookie.cookieDateFormats) :
    ∃ c y, (c = 32 ∨ c = 45) ∧ (y = 89 ∨ y = 121) ∧ format = front c y ++ ascii "%Z" := by
  simp only [Cookie.cookieDateFormats, List.mem_cons, List.not_mem_nil, or_false] at h
  rcases h with rfl | rfl | rfl | rfl
  · exact ⟨32, 89, Or.inl rfl, Or.inl rfl, rfl⟩
  · exact ⟨45, 89, Or.inr rfl, Or.inl rfl, rfl⟩
  · exact ⟨32, 121, Or.inl rfl, Or.inr rfl, rfl⟩
  · exact ⟨45, 121, Or.inr rfl, Or.inr rfl, rfl⟩

theorem inYear_zero : InYear StructTm.zero := ⟨by decide, by decide⟩

theorem strptime_refused {zone : Zone} {text : Bytes} {c y : UInt8} (hc : c = 32 ∨ c = 45) (hy : y = 89 ∨ y = 121)
    (h : Refused (run zone (calls zone 1) none (front c y) (Scanner.start text StructTm.zero))) :
    ∃ tm, strptime zone text (front c y ++ ascii "%Z") StructTm.zero = .ok (none, tm) := by
  obtain ⟨hletters, hfront⟩ := front_bounded hc hy
  have hin := letters_inside zone (fun d hd => (hletters d hd).1) fun hs => absurd rfl (hletters _ hs).2
  have happend := run_append zone (calls zone 1) (ascii "%Z") (front c y) none (Scanner.start text StructTm.zero) hfront
  rcases h with ⟨tm, hnull⟩ | ⟨s, hend, hbp⟩
  · rw [hnull] at happend
    exact ⟨tm, call_null happend⟩
  · have hkept := run_stays (front c y) none hin (start_kept text inYear_zero)
    rw [hend] at happend hkept
    obtain ⟨tm, hfinish, -⟩ := finish_ok hkept
    refine ⟨tm, (call_ok (happend.trans (run_null zone _ hbp _))).trans ?_⟩
    rw [hfinish, hbp]

/-- What the format in front of the zone leaves: the zone, and fields from which those that are left follow. -/
structure AtZone (s : Scanner) : Prop where
  bp : s.bp = some (ascii "GMT")
  inYear : InYear s.tm
  haveYear : s.haveYear = true
  haveMon : s.haveMon = true
  haveMday : s.haveMday = true
  haveWday : s.haveWday = true
  haveYday : s.haveYday = false

/-- Only the day of the year is left. -/
theorem finish_fields {s : Scanner} (hin : InYear s.tm) (hyear : s.haveYear = true) (hmon : s.haveMon = true)
    (hmday : s.haveMday = true) (hwday : s.haveWday = true) (hyday : s.haveYday = false) :
    ∃ yday, finish s = .ok (s.bp, { s.tm with yday }) := by
  obtain ⟨start, hstart⟩ := startOf_ok (isLeapYear s.tm.year) hin
  refine ⟨start + (s.tm.mday - 1), ?_⟩
  have hset : setYday s = .ok { s with tm := { s.tm with yday := start + (s.tm.mday - 1) }, haveYday := true } := by
    unfold setYday
    rw [hyday, hyear, hmon, hmday, hstart]
    rfl
  unfold finish setMon setMday setWday
  rw [hset]
  simp only [bind, Except.bind, pure, Except.pure, hyear, hmon, hmday, hwday, Bool.and_self, if_true]

theorem strptime_read {zone : Zone} {text : Bytes} {c y : UInt8} (hc : c = 32 ∨ c = 45) (hy : y = 89 ∨ y = 121)
    {s : Scanner} (h : run zone (calls zone 1) none (front c y) (Scanner.start text StructTm.zero) = .ok s) (hs : AtZone s) :
    ∃ tm, strptime zone text (front c y ++ ascii "%Z") StructTm.zero = .ok (some [], tm) ∧ fields tm = fields s.tm := by
  have happend := run_append zone (calls zone 1) (ascii "%Z") (front c y) none (Scanner.start text StructTm.zero)
    (front_bounded hc hy).2
  rw [h] at happend
  have hgmt : readZone zone false (ascii "GMT") s.tm = .ok ([], { s.tm with isdst := 0 }) := rfl
  have hzone : run zone (calls zone 1) none (front c y ++ ascii "%Z") (Scanner.start text StructTm.zero) =
      .ok { s with bp := some [], tm := { s.tm with isdst := 0 } } := by
    rw [happend]
    refine (run_zone hs.bp).trans ?_
    rw [hgmt]
    rfl
  obtain ⟨yday, hfinish⟩ := finish_fields (s := { s with bp := some [], tm := { s.tm with isdst := 0 } }) hs.inYear
    hs.haveYear hs.haveMon hs.haveMday hs.haveWday hs.haveYday
  exact ⟨_, (call_ok hzone).trans hfinish, rfl⟩

theorem monthLengths_le (year month : Nat) : (monthLengths year).getD month 0 ≤ 31 := by
  have hall : ∀ n ∈ monthLengths year, n ≤ 31 := by
    unfold monthLengths
    cases isLeap year <;> decide
  rw [List.getD_eq_getElem?_getD]
  cases hget : (monthLengths year)[month]? with
  | none => exact Nat.zero_le _
  | some n => exact hall n (List.mem_of_getElem? hget)

theorem shipped_some {zone : Zone} {mktime : Tm → Int} {text format bp : Bytes} {tm : StructTm}
    (h : strptime zone text format StructTm.zero = .ok (some bp, tm)) :
    (shippedLib zone mktime).strptime text format = some (fields tm) := by
  unfold shippedLib
  simp only
  rw [h]

theorem shipped_none {zone : Zone} {mktime : Tm → Int} {text format : Bytes} {tm : StructTm}
    (h : strptime zone text format StructTm.zero = .ok (none, tm)) :
    (shippedLib zone mktime).strptime text format = none := by
  unfold shippedLib
  simp only
  rw [h]

section Written

variable (w : WrittenDate)

def separator : UInt8 := if w.hyphens then 45 else 32

def yearLetter : UInt8 := if w.short then 121 else 89

def yearText : Bytes :=
  if w.short then twoDigits w.date.year else twoDigits (w.date.year / 100) ++ twoDigits w.date.year

/-- What stands behind the year. -/
def timeText : Bytes :=
  32 :: (twoDigits w.date.hour ++ 58 :: (twoDigits w.date.minute ++ 58 :: (twoDigits w.date.second ++ 32 :: ascii "GMT")))

theorem format_eq : w.format = front (separator w) (yearLetter w) ++ ascii "%Z" := by
  unfold WrittenDate.format separator yearLetter
  cases w.short <;> cases w.hyphens <;> rfl

theorem separator_eq : separator w = 32 ∨ separator w = 45 := by
  unfold separator
  cases w.hyphens
  · exact Or.inl rfl
  · exact Or.inr rfl

theorem yearLetter_eq : yearLetter w = 89 ∨ yearLetter w = 121 := by
  unfold yearLetter
  cases w.short
  · exact Or.inl rfl
  · exact Or.inr rfl

theorem text_eq : w.text = w.weekday ++ 44 :: 32 :: (twoDigits w.date.day ++
    separator w :: (w.month ++ separator w :: (yearText w ++ timeText w))) := by
  have hseparator : (if w.hyphens then ascii "-" else ascii " ") = [separator w] := by
    unfold separator
    cases w.hyphens <;> rfl
  unfold WrittenDate.text timeText
  rw [hseparator]
  simp only [List.append_assoc, List.cons_append, List.nil_append]
  rfl

/-- What every format leaves that has read the day of the week and of the month. -/
def dayRead (wday : Int) : Scanner :=
  { Scanner.start w.text StructTm.zero with
    bp := some (separator w :: (w.month ++ separator w :: (yearText w ++ timeText w)))
    tm := { StructTm.zero with wday, mday := w.date.day }
    haveWday := true
    haveMday := true }

/-- What a format with the separator of the date leaves in front of the year. -/
def monthRead (wday : Int) : Scanner :=
  { dayRead w wday with
    bp := some (yearText w ++ timeText w)
    tm := { StructTm.zero with wday, mday := w.date.day, mon := w.date.month }
    haveMon := true }

theorem yearText_head : isspace ((yearText w ++ timeText w).headD 0) = false := by
  unfold yearText
  cases w.short
  · rw [if_neg Bool.false_ne_true, List.append_assoc]
    exact isspace_two _ _
  · rw [if_pos rfl]
    exact isspace_two _ _

theorem run_start (zone : Zone) (fmt : Bytes) :
    ∃ wday, run zone (calls zone 1) none (37 :: 97 :: 44 :: 32 :: 37 :: 100 :: fmt)
    (Scanner.start w.text StructTm.zero) = run zone (calls zone 1) none fmt (dayRead w wday) := by
  have hday : w.date.day ≤ 31 := w.date.day_le.trans (monthLengths_le w.date.year w.date.month)
  obtain ⟨wday, hrun⟩ : ∃ wday, run zone (calls zone 1) none (37 :: 97 :: 44 :: 32 :: 37 :: 100 :: fmt)
      (Scanner.start w.text StructTm.zero) = _ :=
    run_weekday w.weekday_mem (congrArg some (text_eq w)) (isspace_two w.date.day _) (37 :: 100 :: fmt)
  exact ⟨wday, hrun.trans (run_day w.date.day_pos hday rfl fmt)⟩

theorem run_to_year (zone : Zone) (wday : Int) (fmt : Bytes) :
    run zone (calls zone 1) none (separator w :: 37 :: 98 :: separator w :: fmt) (dayRead w wday) =
      run zone (calls zone 1) none fmt (monthRead w wday) :=
  run_month (separator_eq w) w.date.month_lt w.month_mem rfl (yearText_head w) fmt

theorem run_to_zone {zone : Zone} {s : Scanner} (h : s.bp = some (timeText w)) :
    run zone (calls zone 1) none [32, 37, 72, 58, 37, 77, 58, 37, 83, 32] s = .ok { s with
      bp := some (ascii "GMT")
      tm := { s.tm with hour := w.date.hour, min := w.date.minute, sec := w.date.second }
      haveHour := true } :=
  run_time w.date.hour_lt w.date.minute_lt w.date.second_lt h (by decide)

theorem inYear_month {tm : StructTm} (h : tm.mon = w.date.month) : InYear tm := by
  have hlt := w.date.month_lt
  unfold InYear
  omega

theorem longYear (h : w.short = false) : yearLetter w = 89 ∧
    yearText w = twoDigits (w.date.year / 100) ++ twoDigits w.date.year := by
  unfold yearLetter yearText
  rw [h]
  exact ⟨rfl, rfl⟩

theorem shortYear (h : w.short = true) : yearLetter w = 121 ∧ yearText w = twoDigits w.date.year := by
  unfold yearLetter yearText
  rw [h]
  exact ⟨rfl, rfl⟩

/-- The format of the date reads it as it is written. -/
theorem run_own (zone : Zone) : ∃ s, run zone (calls zone 1) none (front (separator w) (yearLetter w))
    (Scanner.start w.text StructTm.zero) = .ok s ∧ AtZone s ∧ fields s.tm = w.date.tm := by
  obtain ⟨wday, hstart⟩ := run_start w zone (separator w :: 37 :: 98 :: separator w :: 37 :: yearLetter w ::
    [32, 37, 72, 58, 37, 77, 58, 37, 83, 32])
  have hyear := hstart.trans (run_to_year w zone wday _)
  cases hshort : w.short with
  | false =>
    obtain ⟨hletter, htext⟩ := longYear w hshort
    rw [hletter] at hyear ⊢
    have hrun := hyear.trans (run_year w.date.year_le (congrArg (fun text => some (text ++ timeText w)) htext) _)
    exact ⟨_, hrun.trans (run_to_zone w rfl), ⟨rfl, inYear_month w rfl, rfl, rfl, rfl, rfl, rfl⟩, rfl⟩
  | true =>
    obtain ⟨hletter, htext⟩ := shortYear w hshort
    obtain ⟨hge, hle⟩ := w.century hshort
    have hcentury : (if w.date.year % 100 ≤ 68 then ((w.date.year % 100 : Nat) : Int) + 100
        else ((w.date.year % 100 : Nat) : Int)) = (w.date.year : Int) - 1900 := by
      split <;> omega
    rw [hletter] at hyear ⊢
    have hrun := hyear.trans (run_yearOfCentury (congrArg (fun text => some (text ++ timeText w)) htext) _ rfl)
    rw [hcentury] at hrun
    exact ⟨_, hrun.trans (run_to_zone w rfl), ⟨rfl, inYear_month w rfl, rfl, rfl, rfl, rfl, rfl⟩, rfl⟩

/-- Another format refuses the date, or takes two digits for the year itself. -/
theorem run_other (zone : Zone) {c y : UInt8} (hc : c = 32 ∨ c = 45) (hy : y = 89 ∨ y = 121)
    (hne : c = separator w → y ≠ yearLetter w) :
    Refused (run zone (calls zone 1) none (front c y) (Scanner.start w.text StructTm.zero)) ∨
      ∃ s, run zone (calls zone 1) none (front c y) (Scanner.start w.text StructTm.zero) = .ok s ∧ AtZone s ∧
          s.tm.year ≤ 0 := by
  obtain ⟨wday, hstart⟩ := run_start w zone (c :: 37 :: 98 :: c :: 37 :: y :: [32, 37, 72, 58, 37, 77, 58, 37, 83, 32])
  by_cases hsep : c = separator w
  · subst hsep
    have hyear := hstart.trans (run_to_year w zone wday _)
    cases hshort : w.short with
    | false =>
      obtain ⟨hletter, htext⟩ := longYear w hshort
      have hother : y = 121 := hy.resolve_left (hletter ▸ hne rfl)
      subst hother
      left
      have hbp : (monthRead w wday).bp = some (twoDigits (w.date.year / 100) ++ (twoDigits w.date.year ++ timeText w)) := by
        rw [← List.append_assoc, ← htext]
        rfl
      have hrun := hyear.trans (run_yearOfCentury hbp _ rfl)
      refine (iff_of_eq (congrArg Refused hrun)).2 ?_
      exact run_time_refused rfl _
    | true =>
      obtain ⟨hletter, htext⟩ := shortYear w hshort
      have hother : y = 89 := hy.resolve_right (hletter ▸ hne rfl)
      subst hother
      right
      have hrun := hyear.trans (run_year_short (congrArg (fun text => some (text ++ timeText w)) htext) (by rfl) _)
      refine ⟨_, hrun.trans (run_to_zone w rfl), ⟨rfl, inYear_month w rfl, rfl, rfl, rfl, rfl, rfl⟩, ?_⟩
      show ((w.date.year % 100 : Nat) : Int) - 1900 ≤ 0
      omega
  · left
    refine (iff_of_eq (congrArg Refused hstart)).2 ?_
    exact run_month_refused (separator_eq w) hc (Ne.symm hsep) rfl _

/-- The shipped `strptime` reads the date as it is written. -/
theorem shipped_reads (zone : Zone) (mktime : Tm → Int) : ReadsAsWritten (shippedLib zone mktime) w := by
  refine ⟨?_, fun format hformat tm hread => ?_⟩
  · obtain ⟨s, hrun, hs, hfields⟩ := run_own w zone
    obtain ⟨tm, hcall, hsame⟩ := strptime_read (separator_eq w) (yearLetter_eq w) hrun hs
    rw [format_eq w, shipped_some hcall, hsame, hfields]
  · obtain ⟨c, y, hc, hy, rfl⟩ := cookieDateFormats_eq hformat
    by_cases hown : c = separator w ∧ y = yearLetter w
    · obtain ⟨rfl, rfl⟩ := hown
      obtain ⟨s, hrun, hs, hfields⟩ := run_own w zone
      obtain ⟨tm', hcall, hsame⟩ := strptime_read hc hy hrun hs
      rw [shipped_some hcall, hsame, hfields] at hread
      cases hread
      exact Or.inl rfl
    · rcases run_other w zone hc hy fun h1 h2 => hown ⟨h1, h2⟩ with hrefused | ⟨s, hrun, hs, hyear⟩
      · obtain ⟨tm', hcall⟩ := strptime_refused hc hy hrefused
        rw [shipped_none hcall] at hread
        cases hread
      · obtain ⟨tm', hcall, hsame⟩ := strptime_read hc hy hrun hs
        rw [shipped_some hcall, hsame] at hread
        cases hread
        exact Or.inr hyear

end Written

end FortiRdp.Http.CookieDate
