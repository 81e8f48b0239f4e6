/-
Strings (`StrUtil`): a `std::string` is its bytes. What the standard library answers with an exception
is an error here, and `strtol` works on a 32-bit `long`.
-/
import FortiRdp.Util.Bytes
import Mathlib.Data.List.DropRight

namespace FortiRdp.Util

/-- The text of a string literal, ASCII only. -/
def ascii (s : String) : Bytes := s.toList.map fun c => c.toNat.toUInt8

/-- What is thrown: the exceptions of the code, which are runtime errors, and those of the standard
library, which are logic errors. `exhausted` is none of them: it stands for a loop of the model that has
no fuel left, and every loop is given enough. -/
inductive Exn where
  | mbedError (errnum : Int)
  | httpError (message : Bytes)
  | cookieError (message : Bytes)
  | outOfRange
  | invalidArgument
  | exhausted
  deriving DecidableEq, Repr

/-- What `catch (const std::runtime_error&)` catches. -/
def Exn.isRuntimeError : Exn → Bool
  | .mbedError _ | .httpError _ | .cookieError _ => true
  | .outOfRange | .invalidArgument | .exhausted => false

/-! ## Characters -/

def isspace (c : UInt8) : Bool := (9 ≤ c && c ≤ 13) || c == 32

def isdigit (c : UInt8) : Bool := 48 ≤ c && c ≤ 57

def isalpha (c : UInt8) : Bool := (65 ≤ c && c ≤ 90) || (97 ≤ c && c ≤ 122)

def isalnum (c : UInt8) : Bool := isdigit c || isalpha c

def tolower (c : UInt8) : UInt8 := if 65 ≤ c && c ≤ 90 then c + 32 else c

/-- A blank of the `trim` functions. -/
def isBlank (c : UInt8) : Bool := c == 32 || c == 9

/-! ## Searching and cutting -/

/-- The text of `c_str`: it ends at the first NUL. -/
def cStr (s : Bytes) : Bytes := s.takeWhile (· != 0)

/-- `find(ch)`. -/
def find (ch : UInt8) (s : Bytes) : Option Nat := s.findIdx? (· == ch)

/-- `find_first_not_of`, for the set of the characters that are in `p`. -/
def findFirstNotOf (p : UInt8 → Bool) (s : Bytes) : Option Nat := s.findIdx? fun c => !p c

/-- `find_last_not_of`. -/
def findLastNotOf (p : UInt8 → Bool) (s : Bytes) : Option Nat :=
  (s.reverse.findIdx? fun c => !p c).map (s.length - 1 - ·)

/-- `substr`, with `none` for the length `npos`. -/
def substr (s : Bytes) (pos : Nat) (len : Option Nat) : Except Exn Bytes :=
  if s.length < pos then .error .outOfRange
  else .ok (match len with
    | none => s.drop pos
    | some n => (s.drop pos).take n)

/-- The position after `find_last_not_of`: `npos + 1` is 0. -/
def afterLast (p : UInt8 → Bool) (s : Bytes) : Nat :=
  match findLastNotOf p s with
  | none => 0
  | some i => i + 1

def trimright (s : Bytes) : Bytes := s.take (afterLast isBlank s)

/-- `trimleft`: a string of blanks has no first other character, and `substr` refuses `npos`. -/
def trimleft (s : Bytes) : Except Exn Bytes :=
  if s = [] then .ok s
  else match findFirstNotOf isBlank s with
    | none => .error .outOfRange
    | some i => substr s i none

def trim (s : Bytes) : Except Exn Bytes := if s = [] then .ok s else trimleft (trimright s)

def lower (s : Bytes) : Bytes := s.map tolower

/-- `iequal`. -/
def iequal (s1 s2 : Bytes) : Bool := lower s1 == lower s2

/-! ## Numbers -/

/-- The value of a digit, in any radix up to 36. -/
def digitValue (c : UInt8) : Option Nat :=
  if isdigit c then some (c.toNat - 48)
  else if isalpha c then some ((tolower c).toNat - 87)
  else none

/-- The digits that `strtol` reads, up to the first other character. -/
def readDigits (radix : Nat) : Nat → Bytes → Nat
  | acc, [] => acc
  | acc, c :: s =>
    match digitValue c with
    | some d => if d < radix then readDigits radix (acc * radix + d) s else acc
    | none => acc

/-- `0x` in front of hexadecimal digits. -/
def skipPrefix (radix : Nat) (s : Bytes) : Bytes :=
  match s with
  | 48 :: x :: s' => if radix = 16 ∧ tolower x = 120 then s' else s
  | _ => s

def longMax : Int := 2 ^ 31 - 1

/-- `INT_MAX`. -/
def intMax : Nat := 2 ^ 31 - 1

def longMin : Int := -2 ^ 31

/-- The sign. -/
def readSign : Bytes → Bool × Bytes
  | 45 :: s => (true, s)
  | 43 :: s => (false, s)
  | s => (false, s)

/-- `strtol` with `errno` cleared before: `none` when the value is out of range. -/
def strtol (s : Bytes) (radix : Nat) : Option Int :=
  let (neg, s) := readSign (s.dropWhile isspace)
  let n : Int := readDigits radix 0 (skipPrefix radix s)
  let l := if neg then -n else n
  if l < longMin ∨ longMax < l then none else some l

/-- `str2num`. -/
def str2num (numstr : Bytes) (radix : Nat) (minval maxval : Int) : Option Int :=
  if maxval < minval then none
  else match strtol (cStr numstr) radix with
    | none => none
    | some l => if l < minval ∨ maxval < l then none else some l

/-- `str2i`: an `int` has 32 bits. -/
def str2i (s : Bytes) : Option Int := str2num s 10 longMin longMax

/-- `split`, up to the first NUL. -/
def split (delim : UInt8) (s : Bytes) : List Bytes :=
  go [] s
where
  go (part : Bytes) : Bytes → List Bytes
    | [] => [part]
    | c :: s => if c ≠ delim ∧ c ≠ 0 then go (part ++ [c]) s else if c = 0 then [part] else part :: go [] s

theorem find_append {ch : UInt8} {a b : Bytes} (h : ch ∉ a) : find ch (a ++ ch :: b) = some a.length := by
  unfold find
  have hnone : a.findIdx? (· == ch) = none := by
    rw [List.findIdx?_eq_none_iff]
    intro c hc
    rw [beq_eq_false_iff_ne]
    rintro rfl
    exact h hc
  rw [List.findIdx?_append, hnone, List.findIdx?_cons]
  simp

theorem find_lt {ch : UInt8} {s : Bytes} {pos : Nat} (h : find ch s = some pos) : pos < s.length :=
  (List.findIdx?_eq_some_iff_findIdx_eq.1 h).1

theorem substr_ok {s : Bytes} {pos : Nat} (h : pos ≤ s.length) (len : Option Nat) : ∃ t, substr s pos len = .ok t := by
  unfold substr
  rw [if_neg (Nat.not_lt.2 h)]
  exact ⟨_, rfl⟩

/-! ## Trimming -/

theorem drop_findFirstNotOf {p : UInt8 → Bool} {s : Bytes} {i : Nat} (h : findFirstNotOf p s = some i) :
    s.drop i = s.dropWhile p ∧ s.dropWhile p ≠ [] := by
  unfold findFirstNotOf at h
  induction s generalizing i with
  | nil => cases h
  | cons c s ih =>
    rw [List.findIdx?_cons] at h
    by_cases hc : p c = true
    · simp only [hc, Bool.not_true, Bool.false_eq_true, if_false, Option.map_eq_some_iff] at h
      obtain ⟨j, hj, rfl⟩ := h
      obtain ⟨hdrop, hne⟩ := ih hj
      rw [List.dropWhile_cons_of_pos hc, List.drop_succ_cons]
      exact ⟨hdrop, hne⟩
    · simp only [hc, Bool.not_false, if_true, Option.some.injEq] at h
      subst h
      rw [List.dropWhile_cons_of_neg hc]
      exact ⟨rfl, List.cons_ne_nil _ _⟩

theorem findFirstNotOf_none {p : UInt8 → Bool} {s : Bytes} (h : findFirstNotOf p s = none) : s.dropWhile p = [] := by
  unfold findFirstNotOf at h
  rw [List.findIdx?_eq_none_iff] at h
  rw [List.dropWhile_eq_nil_iff]
  intro c hc
  simpa using h c hc

theorem take_afterLast (p : UInt8 → Bool) (s : Bytes) : s.take (afterLast p s) = s.rdropWhile p := by
  unfold afterLast findLastNotOf List.rdropWhile
  cases h : s.reverse.findIdx? fun c => !p c with
  | none =>
    have hnone := findFirstNotOf_none (p := p) h
    simp [hnone]
  | some i =>
    obtain ⟨hdrop, -⟩ := drop_findFirstNotOf (p := p) h
    have hi : i < s.length := by
      have := (List.findIdx?_eq_some_iff_findIdx_eq.1 h).1
      simpa using this
    simp only [Option.map_some]
    rw [← hdrop, List.drop_reverse, List.reverse_reverse]
    congr 1
    omega

theorem trimright_eq (s : Bytes) : trimright s = s.rdropWhile isBlank := take_afterLast isBlank s

/-- `trimleft` throws on a string that has only blanks. -/
theorem trimleft_eq (s : Bytes) :
    trimleft s = if s ≠ [] ∧ s.dropWhile isBlank = [] then .error .outOfRange else .ok (s.dropWhile isBlank) := by
  unfold trimleft
  by_cases hs : s = []
  · simp [hs]
  rw [if_neg hs]
  cases h : findFirstNotOf isBlank s with
  | none => simp [hs, findFirstNotOf_none h]
  | some i =>
    obtain ⟨hdrop, hne⟩ := drop_findFirstNotOf h
    have hi : ¬ s.length < i := by
      have := (List.findIdx?_eq_some_iff_findIdx_eq.1 h).1
      omega
    simp only [substr, if_neg hi, hdrop]
    rw [if_neg fun hc => hne hc.2]

/-- `trim` never throws: `trimright` leaves no string of blanks. -/
theorem trim_eq (s : Bytes) : trim s = .ok ((s.rdropWhile isBlank).dropWhile isBlank) := by
  unfold trim
  by_cases hs : s = []
  · simp [hs]
  rw [if_neg hs, trimleft_eq, trimright_eq, if_neg]
  rintro ⟨hne, hblank⟩
  rw [List.dropWhile_eq_nil_iff] at hblank
  exact List.rdropWhile_last_not isBlank s hne (hblank _ (List.getLast_mem hne))

/-- The text without the blanks at its ends. -/
def trimmed (s : Bytes) : Bytes := (s.rdropWhile isBlank).dropWhile isBlank

/-- A string of blanks, on which `trimleft` throws. -/
def onlyBlanks (s : Bytes) : Bool := decide (s ≠ [] ∧ s.dropWhile isBlank = [])

theorem trimleft_onlyBlanks {s : Bytes} (h : onlyBlanks s = true) : trimleft s = .error .outOfRange := by
  rw [trimleft_eq, if_pos (of_decide_eq_true h)]

theorem ok_bind {α β : Type} (a : α) (f : α → Except Exn β) : (Except.ok a >>= f) = f a := rfl

theorem trimleft_ok {s : Bytes} (h : onlyBlanks s = false) : trimleft s = .ok (s.dropWhile isBlank) := by
  rw [trimleft_eq, if_neg (of_decide_eq_false h)]

/-- No blank at either end. -/
structure Trimmed (s : Bytes) : Prop where
  left : s.dropWhile isBlank = s
  right : s.rdropWhile isBlank = s

theorem trim_trimmed {s : Bytes} (h : Trimmed s) : trim s = .ok s := by
  rw [trim_eq, h.right, h.left]

/-- The blank in front of a header value or of a reason phrase is cut. -/
theorem trim_blank_trimmed {s : Bytes} (h : Trimmed s) : trim (32 :: s) = .ok s := by
  rw [trim_eq]
  by_cases hs : s = []
  · subst hs
    rfl
  · have hr : (32 :: s).rdropWhile isBlank = 32 :: s := by
      rw [List.rdropWhile_eq_self_iff]
      intro hl
      rw [List.getLast_cons hs]
      exact List.rdropWhile_eq_self_iff.1 h.right hs
    rw [hr, List.dropWhile_cons_of_pos (by decide), h.left]

theorem cStr_nul (s : Bytes) : 0 ∉ cStr s := by
  intro h
  have hne := List.mem_takeWhile_imp h
  rw [bne_self_eq_false] at hne
  cases hne

theorem mem_of_mem_trimmed {c : UInt8} {s : Bytes} (h : c ∈ trimmed s) : c ∈ s :=
  (List.rdropWhile_prefix isBlank s).subset ((List.dropWhile_suffix isBlank).subset h)

theorem trimmed_nul {s : Bytes} (h : 0 ∉ s) : 0 ∉ trimmed s := fun h0 => h (mem_of_mem_trimmed h0)

theorem exists_trimmed (s : Bytes) : ∃ before after, s = before ++ (trimmed s ++ after) ∧
    (∀ c ∈ before, isBlank c = true) ∧ ∀ c ∈ after, isBlank c = true := by
  refine ⟨(s.rdropWhile isBlank).takeWhile isBlank, s.rtakeWhile isBlank, ?_, fun c hc => List.mem_takeWhile_imp hc,
    fun c hc => List.mem_rtakeWhile_imp hc⟩
  calc s = s.rdropWhile isBlank ++ s.rtakeWhile isBlank := List.rdropWhile_append_rtakeWhile.symm
    _ = (s.rdropWhile isBlank).takeWhile isBlank ++ trimmed s ++ s.rtakeWhile isBlank := by
      rw [trimmed, List.takeWhile_append_dropWhile]
    _ = _ := List.append_assoc _ _ _

/-- Only blanks are cut. -/
theorem mem_trimmed {c : UInt8} {s : Bytes} (h : c ∈ s) (hc : isBlank c = false) : c ∈ trimmed s := by
  obtain ⟨before, after, hs, hbefore, hafter⟩ := exists_trimmed s
  rw [hs, List.mem_append, List.mem_append] at h
  rcases h with h | h | h
  · rw [hbefore c h] at hc
    cases hc
  · exact h
  · rw [hafter c h] at hc
    cases hc

theorem trimmed_trimmed (s : Bytes) : Trimmed (trimmed s) := by
  constructor
  · exact List.dropWhile_idempotent isBlank (s.rdropWhile isBlank)
  · rw [List.rdropWhile_eq_self_iff]
    intro hne
    have hsuffix : trimmed s <:+ s.rdropWhile isBlank := List.dropWhile_suffix isBlank
    rw [hsuffix.getLast hne]
    exact List.rdropWhile_last_not isBlank s _

/-! ## Numerals -/

/-- The text is `n` in the radix, with any number of leading zeros and letters of either case. -/
structure Numeral (radix n : Nat) (text : Bytes) : Prop where
  ne : text ≠ []
  digits : ∀ c ∈ text, ∃ d, digitValue c = some d ∧ d < radix
  value : text.foldl (fun n c => n * radix + (digitValue c).getD 0) 0 = n

theorem numeral_iff {radix n : Nat} {text : Bytes} :
    Numeral radix n text ↔ text ≠ [] ∧ (text.all fun c => (digitValue c).any (· < radix)) = true ∧
      text.foldl (fun n c => n * radix + (digitValue c).getD 0) 0 = n := by
  have hdigits : (text.all fun c => (digitValue c).any (· < radix)) = true ↔
      ∀ c ∈ text, ∃ d, digitValue c = some d ∧ d < radix := by
    simp [List.all_eq_true, Option.any_eq_true]
  rw [hdigits]
  exact ⟨fun h => ⟨h.ne, h.digits, h.value⟩, fun ⟨hne, hd, hv⟩ => ⟨hne, hd, hv⟩⟩

instance (radix n : Nat) (text : Bytes) : Decidable (Numeral radix n text) := decidable_of_iff _ numeral_iff.symm

/-- The characters of a numeral are letters and digits. -/
theorem isalnum_of_digit {c : UInt8} {d : Nat} (h : digitValue c = some d) : isalnum c = true := by
  unfold digitValue at h
  unfold isalnum
  split at h
  · rename_i hd
    rw [hd, Bool.true_or]
  · split at h
    · rename_i ha
      rw [ha, Bool.or_true]
    · cases h

theorem isalnum_ne {c x : UInt8} (h : isalnum c = true) (hx : isalnum x = false) : c ≠ x := by
  rintro rfl
  rw [h] at hx
  cases hx

theorem cStr_eq {s : Bytes} (h : 0 ∉ s) : cStr s = s := by
  unfold cStr
  rw [List.takeWhile_eq_self_iff]
  intro c hc
  rw [bne_iff_ne]
  rintro rfl
  exact h hc

/-! ### The number at the beginning of a text -/

def isRadixDigit (radix : Nat) (c : UInt8) : Bool := (digitValue c).any (· < radix)

/-- The value of digits. -/
def digitsValue (radix : Nat) (digits : Bytes) : Nat := digits.foldl (fun n c => n * radix + (digitValue c).getD 0) 0

/-- The number that a text begins with, after blanks and a sign; 0 when there are no digits. -/
def leadingNumber (radix : Nat) (text : Bytes) : Int :=
  let signed := readSign ((cStr text).dropWhile isspace)
  let n : Int := digitsValue radix ((skipPrefix radix signed.2).takeWhile (isRadixDigit radix))
  if signed.1 then -n else n

theorem readDigits_takeWhile {radix : Nat} : ∀ (s : Bytes) (n : Nat), readDigits radix n s =
    (s.takeWhile (isRadixDigit radix)).foldl (fun n c => n * radix + (digitValue c).getD 0) n
  | [], _ => rfl
  | c :: s, n => by
    unfold readDigits
    cases hd : digitValue c with
    | none =>
      have hno : isRadixDigit radix c = false := by simp [isRadixDigit, hd]
      simp [hno]
    | some d =>
      by_cases hlt : d < radix
      · have hyes : isRadixDigit radix c = true := by simp [isRadixDigit, hd, hlt]
        simp only [hlt, if_true]
        rw [readDigits_takeWhile s, List.takeWhile_cons, hyes]
        simp [hd]
      · have hno : isRadixDigit radix c = false := by simp [isRadixDigit, hd, hlt]
        simp [hno, hlt]

/-- `str2num` accepts the number at the beginning when it is in range. -/
theorem str2num_leading (text : Bytes) (radix : Nat) {minval maxval : Int} (hmin : longMin ≤ minval) (hle : minval ≤ maxval)
    (hmax : maxval ≤ longMax) : str2num text radix minval maxval =
      if minval ≤ leadingNumber radix text ∧ leadingNumber radix text ≤ maxval then some (leadingNumber radix text)
      else none := by
  unfold str2num strtol
  rw [if_neg (by omega)]
  have hvalue : (if (readSign ((cStr text).dropWhile isspace)).1 then
      -(readDigits radix 0 (skipPrefix radix (readSign ((cStr text).dropWhile isspace)).2) : Int)
      else (readDigits radix 0 (skipPrefix radix (readSign ((cStr text).dropWhile isspace)).2) : Int)) =
      leadingNumber radix text := by
    rw [readDigits_takeWhile]
    rfl
  simp only [hvalue]
  generalize leadingNumber radix text = l
  by_cases hlong : l < longMin ∨ longMax < l
  · rw [if_pos hlong, if_neg (by omega)]
  · rw [if_neg hlong]
    simp only
    by_cases hrange : minval ≤ l ∧ l ≤ maxval
    · rw [if_neg (by omega), if_pos hrange]
    · rw [if_pos (by omega), if_neg hrange]

theorem isspace_of_alnum {c : UInt8} (h : isalnum c = true) : isspace c = false := by
  by_contra hs
  simp only [Bool.not_eq_false, isspace, Bool.or_eq_true, Bool.and_eq_true, decide_eq_true_eq, beq_iff_eq] at hs
  simp only [isalnum, isdigit, isalpha, Bool.or_eq_true, Bool.and_eq_true, decide_eq_true_eq] at h
  simp only [UInt8.le_iff_toNat_le, ← UInt8.toNat_inj, UInt8.reduceToNat] at hs h
  omega

theorem readSign_alnum {c : UInt8} (h : isalnum c = true) (s : Bytes) : readSign (c :: s) = (false, c :: s) := by
  unfold readSign
  split
  · rename_i hcons
    exact absurd (List.cons.inj hcons).1 (isalnum_ne h (by decide))
  · rename_i hcons
    exact absurd (List.cons.inj hcons).1 (isalnum_ne h (by decide))
  · rfl

/-- A letter that is no digit of the radix is not in the digits. -/
theorem skipPrefix_digits {radix n : Nat} {s rest : Bytes} (h : Numeral radix n s) (hr : radix ≤ 16)
    (hrest : ∀ c ∈ rest.head?, isalnum c = false) : skipPrefix radix (s ++ rest) = s ++ rest := by
  have hx : ∀ x, tolower x = 120 → isalnum x = true ∧ ∀ d, digitValue x = some d → ¬ d < radix := by
    intro x hlow
    have hcases : x = 88 ∨ x = 120 := by
      unfold tolower at hlow
      split at hlow
      · left
        rw [← UInt8.toNat_inj, UInt8.toNat_add] at hlow
        rw [← UInt8.toNat_inj]
        have hlt := x.toNat_lt
        simp only [UInt8.reduceToNat] at hlow ⊢
        omega
      · exact .inr hlow
    rcases hcases with rfl | rfl
    · refine ⟨by decide, ?_⟩
      rintro d ⟨⟩ hlt
      exact absurd (Nat.lt_of_lt_of_le hlt hr) (by decide)
    · refine ⟨by decide, ?_⟩
      rintro d ⟨⟩ hlt
      exact absurd (Nat.lt_of_lt_of_le hlt hr) (by decide)
  unfold skipPrefix
  split
  · rename_i x s' heq
    rw [if_neg]
    rintro ⟨-, hlow⟩
    obtain ⟨halnum, hno⟩ := hx x hlow
    match s, h.ne with
    | [c], _ =>
      obtain ⟨-, rfl⟩ := List.cons.inj heq
      have hnot := hrest x rfl
      rw [halnum] at hnot
      cases hnot
    | c :: y :: s, _ =>
      obtain ⟨-, heq⟩ := List.cons.inj heq
      obtain ⟨rfl, -⟩ := List.cons.inj heq
      obtain ⟨d, hd, hlt⟩ := h.digits y (by simp)
      exact hno d hd hlt
  · rfl

/-- Blanks, digits and something that is no letter or digit: the digits are the number. -/
theorem leadingNumber_digits {radix n : Nat} {digits : Bytes} (blanks rest : Bytes) (hblanks : ∀ c ∈ blanks, isspace c = true)
    (h : Numeral radix n digits) (hr : radix ≤ 16) (hrest : ∀ c ∈ rest.head?, isalnum c = false) :
    leadingNumber radix (blanks ++ (digits ++ rest)) = n := by
  have halnum : ∀ c ∈ digits, isalnum c = true := by
    intro c hc
    obtain ⟨d, hd, -⟩ := h.digits c hc
    exact isalnum_of_digit hd
  have hcut : ∀ c ∈ (cStr rest).head?, isalnum c = false := by
    cases rest with
    | nil => exact nofun
    | cons c rest =>
      unfold cStr
      rw [List.takeWhile_cons]
      split
      · exact hrest
      · exact nofun
  have htext : cStr (blanks ++ (digits ++ rest)) = blanks ++ (digits ++ cStr rest) := by
    unfold cStr
    rw [List.takeWhile_append_of_pos, List.takeWhile_append_of_pos]
    · intro c hc
      exact bne_iff_ne.2 (isalnum_ne (halnum c hc) (by decide))
    · intro c hc
      rw [bne_iff_ne]
      rintro rfl
      exact absurd (hblanks 0 hc) (by decide)
  have hskip : (blanks ++ (digits ++ cStr rest)).dropWhile isspace = digits ++ cStr rest := by
    rw [List.dropWhile_append_of_pos hblanks]
    obtain ⟨c, t, rfl⟩ := List.exists_cons_of_ne_nil h.ne
    have hc := isspace_of_alnum (halnum c (List.mem_cons_self ..))
    rw [List.cons_append, List.dropWhile_cons_of_neg (by simp [hc])]
  have hsign : readSign (digits ++ cStr rest) = (false, digits ++ cStr rest) := by
    obtain ⟨c, t, rfl⟩ := List.exists_cons_of_ne_nil h.ne
    exact readSign_alnum (halnum c (List.mem_cons_self ..)) _
  have hdigits : (digits ++ cStr rest).takeWhile (isRadixDigit radix) = digits := by
    rw [List.takeWhile_append_of_pos]
    · cases hcr : cStr rest with
      | nil => simp
      | cons c t =>
        have hno : isRadixDigit radix c = false := by
          rw [hcr] at hcut
          have hc := hcut c rfl
          unfold isRadixDigit
          cases hd : digitValue c with
          | none => rfl
          | some d =>
            rw [isalnum_of_digit hd] at hc
            cases hc
        simp [hno]
    · intro c hc
      obtain ⟨d, hd, hlt⟩ := h.digits c hc
      simp [isRadixDigit, hd, hlt]
  unfold leadingNumber
  rw [htext, hskip, hsign]
  simp only [Bool.false_eq_true, if_false]
  rw [skipPrefix_digits h hr hcut, hdigits]
  exact congrArg Int.ofNat h.value

/-- A numeral in range is read as its value. -/
theorem str2num_numeral {radix n : Nat} {s : Bytes} {maxval : Int} (h : Numeral radix n s) (hr : radix ≤ 16)
    (hn : n ≤ maxval) (hmax : maxval ≤ longMax) : str2num s radix 0 maxval = some (n : Int) := by
  have hpos : (0 : Int) ≤ n := Int.natCast_nonneg n
  have hlead := leadingNumber_digits [] [] (fun _ hc => nomatch hc) h hr (fun _ hc => nomatch hc)
  rw [List.nil_append, List.append_nil] at hlead
  rw [str2num_leading s radix (by decide) (by omega) hmax, hlead, if_pos ⟨hpos, hn⟩]

end FortiRdp.Util
