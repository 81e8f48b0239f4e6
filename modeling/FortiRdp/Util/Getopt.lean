/-
`getopt`: a call takes the next letter of the word that it reads, or the first letter of the next word. Between
two calls it remembers the index of the next word and where it is in the last one.
-/
import FortiRdp.Run.Argv
import FortiRdp.Run.Options
import FortiRdp.Run.Prog
import FortiRdp.Util.Str

namespace FortiRdp.Util

open Run Run.Options

/-- The code of a character. -/
def wchar (c : Char) : UInt16 := c.toNat.toUInt16

/-- The text of a wide string literal, ASCII only. -/
def wide (s : String) : WString := s.toList.map wchar

/-- `optind`, and the static `next`: what is left of the word that is read. -/
structure Getopt where
  optind : Nat
  next : Option WString
  deriving DecidableEq, Repr

abbrev GetoptM := EStateM Exn Getopt

namespace Getopt

variable (argv : List WString) (optstring : WString)

/-- The rest of `getopt`, with the letter that it has taken from the word. -/
def readLetter (c : UInt16) (next : WString) : GetoptM (Option UInt16 × Option WString) := do
  modify fun s => { s with next := some next }
  match optstring.dropWhile (· != c) with
  | [] => pure (some (wchar '?'), none)
  | _ :: cp =>
    if c = wchar ':' then pure (some (wchar '?'), none)
    else if cp.head? = some (wchar ':') then
      if next ≠ [] then
        modify fun s => { s with next := none }
        pure (some c, some next)
      else
        match argv[(← get).optind]? with
        | some arg =>
          modify fun s => { s with optind := s.optind + 1 }
          pure (some c, some arg)
        | none => pure (some (wchar '?'), none)
    else pure (some c, none)

/-- `getopt` where it has no letter left: `none` is `EOF`. -/
def readWord : GetoptM (Option UInt16 × Option WString) := do
  let s ← get
  match argv[s.optind]? with
  | some (dash :: c :: cs) =>
    if dash ≠ wchar '-' then pure (none, some (dash :: c :: cs))
    else if dash :: c :: cs = wide "--" then
      modify fun s => { s with optind := s.optind + 1 }
      pure (none, argv[s.optind + 1]?)
    else
      modify fun s => { s with optind := s.optind + 1 }
      readLetter argv optstring c cs
  | arg => pure (none, arg)

/-- `getopt`, with `optarg`. -/
def getopt : GetoptM (Option UInt16 × Option WString) := do
  if (← get).optind = 0 then modify fun s => { s with next := none }
  match (← get).next with
  | some (c :: next) => readLetter argv optstring c next
  | _ => readWord argv optstring

end Getopt

/-! ## The letters of an option string -/

/-- What an option string says of a letter. The answer for a letter that is not known cannot be an option. -/
def optionKind (optstring : WString) (c : UInt16) : Option Options.Kind :=
  if c = wchar ':' ∨ c = wchar '?' then none
  else match optstring.dropWhile (· != c) with
    | [] => none
    | _ :: cp => some (if cp.head? = some (wchar ':') then .valued else .flag)

namespace Getopt

/-- What is left of the word that is read. -/
def pending (s : Getopt) : WString := if s.optind = 0 then [] else s.next.getD []

/-- What a call of `getopt` does with what is left: it ends the options, takes one of them, or finds an error. -/
inductive Takes (optstring : WString) (argv : List WString) (cs : WString) (rest : List WString) :
    Option UInt16 × Option WString → Getopt → Prop
  | ended {s : Getopt} {optarg : Option WString} (h : Scan (wchar '-') (optionKind optstring) cs rest [] (argv.drop s.optind))
    (hoptarg : optarg = (argv.drop s.optind).head?) : Takes optstring argv cs rest (none, optarg) s
  | option {s : Getopt} {c : UInt16} {v : Option WString} (hc : c ≠ wchar '?') (hpos : s.optind ≠ 0)
    (h : ∀ opts operands, Scan (wchar '-') (optionKind optstring) cs rest opts operands ↔
      ∃ more, opts = (c, v) :: more ∧ Scan (wchar '-') (optionKind optstring) s.pending (argv.drop s.optind) more operands)
    (hless : s.pending.length + ((argv.drop s.optind).map fun w => w.length + 1).sum <
      cs.length + (rest.map fun w => w.length + 1).sum) : Takes optstring argv cs rest (some c, v) s
  | refused {s : Getopt} {v : Option WString} (h : ∀ opts operands,
    ¬ Scan (wchar '-') (optionKind optstring) cs rest opts operands) :
    Takes optstring argv cs rest (some (wchar '?'), v) s

variable {optstring : WString} {argv : List WString}

theorem pending_next {s : Getopt} (hpos : s.optind ≠ 0) : s.pending = s.next.getD [] := if_neg hpos

theorem optionKind_unknown {c : UInt16} (h : optstring.dropWhile (· != c) = [] ∨ c = wchar ':' ∨ c = wchar '?') :
    optionKind optstring c = none := by
  unfold optionKind
  split
  · rfl
  · rename_i hc
    rw [h.resolve_right hc]

theorem optionKind_known {c d : UInt16} {cp : WString} (hcolon : c ≠ wchar ':') (hmark : c ≠ wchar '?')
    (h : optstring.dropWhile (· != c) = d :: cp) :
    optionKind optstring c = some (if cp.head? = some (wchar ':') then .valued else .flag) := by
  unfold optionKind
  rw [if_neg (not_or.2 ⟨hcolon, hmark⟩), h]

/-- A letter that was found is an option, or it is the answer for a letter that is not known. -/
theorem takes_letter {c : UInt16} {cs : WString} {rest : List WString} {v : Option WString} {s : Getopt}
    (hpos : s.optind ≠ 0)
    (h : c ≠ wchar '?' → ∀ opts operands, Scan (wchar '-') (optionKind optstring) (c :: cs) rest opts operands ↔
      ∃ more, opts = (c, v) :: more ∧ Scan (wchar '-') (optionKind optstring) s.pending (argv.drop s.optind) more operands)
    (hless : s.pending.length + ((argv.drop s.optind).map fun w => w.length + 1).sum <
      (c :: cs).length + (rest.map fun w => w.length + 1).sum) : Takes optstring argv (c :: cs) rest (some c, v) s := by
  by_cases hmark : c = wchar '?'
  · subst hmark
    exact .refused fun _ _ => scan_unknown (optionKind_unknown (.inr (.inr rfl)))
  · exact .option hmark hpos (h hmark) hless

theorem readLetter_takes (c : UInt16) (cs : WString) {s : Getopt} (hpos : s.optind ≠ 0) : ∃ r s',
    readLetter argv optstring c cs s = .ok r s' ∧ Takes optstring argv (c :: cs) (argv.drop s.optind) r s' := by
  have hnext : (⟨s.optind, some cs⟩ : Getopt).pending = cs := pending_next hpos
  have hnone : (⟨s.optind, none⟩ : Getopt).pending = [] := pending_next hpos
  unfold readLetter
  cases hfound : optstring.dropWhile (· != c) with
  | nil => exact ⟨_, _, rfl, .refused fun _ _ => scan_unknown (optionKind_unknown (.inl hfound))⟩
  | cons d cp =>
    by_cases hcolon : c = wchar ':'
    · simp only [if_pos hcolon]
      exact ⟨_, _, rfl, .refused fun _ _ => scan_unknown (optionKind_unknown (.inr (.inl hcolon)))⟩
    simp only [if_neg hcolon]
    by_cases hvalued : cp.head? = some (wchar ':')
    swap
    · simp only [if_neg hvalued]
      refine ⟨(some c, none), ⟨s.optind, some cs⟩, rfl, takes_letter hpos (fun hmark opts operands => ?_) ?_⟩
      · rw [hnext]
        exact scan_flag ((optionKind_known hcolon hmark hfound).trans (by rw [if_neg hvalued]))
      · rw [hnext, List.length_cons]
        exact Nat.add_lt_add_right (Nat.lt_succ_self _) _
    simp only [if_pos hvalued]
    by_cases hcs : cs = []
    swap
    · simp only [ne_eq, hcs, not_false_eq_true, if_true]
      refine ⟨(some c, some cs), ⟨s.optind, none⟩, rfl, takes_letter hpos (fun hmark opts operands => ?_) ?_⟩
      · rw [hnone]
        exact scan_attached ((optionKind_known hcolon hmark hfound).trans (by rw [if_pos hvalued])) hcs
      · rw [hnone, List.length_cons, List.length_nil]
        exact Nat.add_lt_add_right (Nat.succ_pos _) _
    subst hcs
    have hmodify : (modify fun s => { s with next := some [] } : GetoptM PUnit) s =
        .ok ⟨⟩ ⟨s.optind, some []⟩ := rfl
    have hbind : (get : GetoptM Getopt) ⟨s.optind, some []⟩ = .ok ⟨s.optind, some []⟩ ⟨s.optind, some []⟩ := rfl
    cases harg : argv[s.optind]? with
    | none =>
      have hdrop : argv.drop s.optind = [] := List.drop_eq_nil_of_le (List.getElem?_eq_none_iff.1 harg)
      refine ⟨(some (wchar '?'), none), ⟨s.optind, some []⟩, ?_, .refused fun opts operands => ?_⟩
      · refine (Run.bind_ok hmodify).trans ?_
        simp only [ne_eq, not_true_eq_false, if_false]
        refine (Run.bind_ok hbind).trans ?_
        simp only [harg]
        rfl
      · rw [hdrop]
        by_cases hmark : c = wchar '?'
        · exact scan_unknown (optionKind_unknown (.inr (.inr hmark)))
        · exact scan_missing ((optionKind_known hcolon hmark hfound).trans (by rw [if_pos hvalued]))
    | some arg =>
      have hdrop : argv.drop s.optind = arg :: argv.drop (s.optind + 1) := by
        obtain ⟨hlt, rfl⟩ := List.getElem?_eq_some_iff.1 harg
        exact List.drop_eq_getElem_cons hlt
      have hpending : (⟨s.optind + 1, some []⟩ : Getopt).pending = [] := pending_next (Nat.succ_ne_zero _)
      refine ⟨(some c, some arg), ⟨s.optind + 1, some []⟩, ?_,
        takes_letter (Nat.succ_ne_zero _) (fun hmark opts operands => ?_) ?_⟩
      · refine (Run.bind_ok hmodify).trans ?_
        simp only [ne_eq, not_true_eq_false, if_false]
        refine (Run.bind_ok hbind).trans ?_
        simp only [harg]
        rfl
      · rw [hpending, hdrop]
        exact scan_separate ((optionKind_known hcolon hmark hfound).trans (by rw [if_pos hvalued]))
      · rw [hpending, hdrop, List.map_cons, List.sum_cons]
        simp only [List.length_cons, List.length_nil]
        omega

theorem Takes.word {c : UInt16} {cs : WString} {rest : List WString} {r : Option UInt16 × Option WString} {s : Getopt}
    (h : Takes optstring argv (c :: cs) rest r s) (hword : c :: cs ≠ [wchar '-']) :
    Takes optstring argv [] ((wchar '-' :: c :: cs) :: rest) r s := by
  cases h with
  | ended h hoptarg => exact .ended (.word hword h) hoptarg
  | option hc hpos h hless =>
    refine .option hc hpos (fun opts operands => (scan_word hword).trans (h opts operands)) ?_
    rw [List.map_cons, List.sum_cons, List.length_cons, List.length_nil]
    omega
  | refused h => exact .refused fun opts operands hscan => h opts operands ((scan_word hword).1 hscan)

theorem takes_stop {s : Getopt} (h : ∀ w, argv[s.optind]? = some w → ¬ IsWord (wchar '-') w) :
    Takes optstring argv [] (argv.drop s.optind) (none, argv[s.optind]?) s := by
  have hhead : (argv.drop s.optind).head? = argv[s.optind]? := List.head?_drop
  exact .ended (.stop fun w hw => h w (hhead ▸ hw)) hhead.symm

theorem readWord_takes (s : Getopt) : ∃ r s',
    readWord argv optstring s = .ok r s' ∧ Takes optstring argv [] (argv.drop s.optind) r s' := by
  have hread : readWord argv optstring s = _ := get_bind _ s
  have hstop {arg : Option WString} (harg : argv[s.optind]? = arg) (h : ∀ w, arg = some w → ¬ IsWord (wchar '-') w)
      (hend : readWord argv optstring s = .ok (none, arg) s) :
      ∃ r s', readWord argv optstring s = .ok r s' ∧ Takes optstring argv [] (argv.drop s.optind) r s' := by
    subst harg
    exact ⟨_, _, hend, takes_stop h⟩
  cases harg : argv[s.optind]? with
  | none =>
    rw [harg] at hread
    exact hstop harg (fun w hw => by cases hw) hread
  | some w =>
    rw [harg] at hread
    rcases w with _ | ⟨dash, _ | ⟨c, cs⟩⟩
    · exact hstop harg (by rintro _ ⟨⟩ ⟨_, _, h⟩; cases h) hread
    · exact hstop harg (by rintro _ ⟨⟩ ⟨_, _, h⟩; cases h) hread
    by_cases hdash : dash ≠ wchar '-'
    · simp only [if_pos hdash] at hread
      exact hstop harg (by rintro _ ⟨⟩ ⟨_, _, h⟩; exact hdash (List.cons.inj h).1) hread
    obtain rfl : dash = wchar '-' := not_not.1 hdash
    have hdrop : argv.drop s.optind = (wchar '-' :: c :: cs) :: argv.drop (s.optind + 1) := by
      obtain ⟨hlt, heq⟩ := List.getElem?_eq_some_iff.1 harg
      rw [← heq]
      exact List.drop_eq_getElem_cons hlt
    have hpos : (⟨s.optind + 1, s.next⟩ : Getopt).optind ≠ 0 := Nat.succ_ne_zero _
    simp only [if_neg hdash] at hread
    by_cases hend : wchar '-' :: c :: cs = wide "--"
    · simp only [if_pos hend] at hread
      obtain ⟨rfl, rfl⟩ : c = wchar '-' ∧ cs = [] := by
        obtain ⟨-, htail⟩ := List.cons.inj hend
        exact List.cons.inj htail
      refine ⟨_, _, hread, ?_⟩
      rw [hdrop]
      refine .ended (.dashes) ?_
      exact List.head?_drop.symm
    · simp only [if_neg hend] at hread
      obtain ⟨r, s', hrun, htakes⟩ := readLetter_takes c cs hpos
      refine ⟨r, s', hread.trans hrun, ?_⟩
      rw [hdrop]
      exact htakes.word fun heq => hend (congrArg _ heq)

/-- A call of `getopt` takes what the command line has next. -/
theorem getopt_takes (s : Getopt) : ∃ r s', getopt argv optstring s = .ok r s' ∧
    Takes optstring argv s.pending (argv.drop s.optind) r s' := by
  by_cases hpos : s.optind = 0
  · have hpending : s.pending = [] := if_pos hpos
    rw [hpending]
    have hrun : getopt argv optstring s = readWord argv optstring { s with next := none } := by
      refine (get_bind _ s).trans ?_
      simp only [if_pos hpos]
      rfl
    rw [hrun]
    exact readWord_takes { s with next := none }
  · have hpending := pending_next hpos
    have hget : getopt argv optstring s = _ := get_bind _ s
    simp only [if_neg hpos] at hget
    have hnext := hget.trans (get_bind _ s)
    cases hcs : s.next with
    | none =>
      rw [hpending, hcs]
      rw [hcs] at hnext
      obtain ⟨r, s', hrun, htakes⟩ := readWord_takes s
      exact ⟨r, s', hnext.trans hrun, htakes⟩
    | some cs =>
      rw [hpending, hcs]
      rw [hcs] at hnext
      cases cs with
      | nil =>
        obtain ⟨r, s', hrun, htakes⟩ := readWord_takes s
        exact ⟨r, s', hnext.trans hrun, htakes⟩
      | cons c cs =>
        obtain ⟨r, s', hrun, htakes⟩ := readLetter_takes c cs hpos
        exact ⟨r, s', hnext.trans hrun, htakes⟩

end Getopt

end FortiRdp.Util
