/-
The command line of a task (`quote`, `Task::Task`, `Task::add_parameter`), against the rules by which the launched
program splits it.
-/
import FortiRdp.Run.Argv
import Mathlib.Algebra.Order.BigOperators.Group.List
import Mathlib.Algebra.Order.Group.Nat

namespace FortiRdp.Util

open Run Run.Argv

/-- The loop of `quote`. -/
def escapeMarks (str : WString) : WString := str.flatMap fun c => if c = mark then [slash, c] else [c]

def quote (str : WString) : WString :=
  if 32 ∉ str ∧ 9 ∉ str then str else [mark] ++ escapeMarks str ++ [mark]

/-- The command line that `Task::Task` makes. -/
def taskInit (path : WString) : WString := quote path

/-- `Task::add_parameter`. -/
def addParameter (cmdline parameter : WString) : WString := cmdline ++ [32] ++ quote parameter

/-- The command line of a task. -/
def cmdline (path : WString) (parameters : List WString) : WString := parameters.foldl addParameter (taskInit path)

/-! ## What is quoted -/

/-- An argument that is read back: in quote marks it has no quote character behind a backslash and no backslash at its
end; without them it is not empty, and has no quote character at all. -/
def Quotable (a : WString) : Prop :=
  if ∃ c ∈ a, isSep c = true then (a.IsChain fun c d => c = slash → d ≠ mark) ∧ a.getLast? ≠ some slash
  else a ≠ [] ∧ mark ∉ a

instance (a : WString) : Decidable (Quotable a) := by
  unfold Quotable
  infer_instance

theorem isSep_iff (a : WString) : (∃ c ∈ a, isSep c = true) ↔ ¬ (32 ∉ a ∧ 9 ∉ a) := by
  unfold isSep
  rw [not_and_or, not_not, not_not]
  constructor
  · rintro ⟨c, hc, hsep⟩
    rcases of_decide_eq_true hsep with rfl | rfl
    · exact .inl hc
    · exact .inr hc
  · rintro (h | h)
    · exact ⟨32, h, rfl⟩
    · exact ⟨9, h, rfl⟩

theorem quote_plain {a : WString} (h : ¬ ∃ c ∈ a, isSep c = true) : quote a = a := by
  rw [isSep_iff, not_not] at h
  exact if_pos h

theorem quote_marks {a : WString} (h : ∃ c ∈ a, isSep c = true) : quote a = [mark] ++ escapeMarks a ++ [mark] := by
  rw [isSep_iff] at h
  exact if_neg h

theorem escapeMarks_plain {a : WString} (h : mark ∉ a) : escapeMarks a = a := by
  unfold escapeMarks
  induction a with
  | nil => rfl
  | cons c a ih =>
    have hc : c ≠ mark := fun heq => h (heq ▸ List.mem_cons_self ..)
    rw [List.flatMap_cons, if_neg hc, ih fun hin => h (List.mem_cons_of_mem _ hin)]
    rfl

theorem length_escapeMarks : ∀ a : WString, (escapeMarks a).length = a.length + a.count mark
  | [] => rfl
  | c :: a => by
    have ih := length_escapeMarks a
    unfold escapeMarks at *
    rw [List.flatMap_cons, List.length_append, ih, List.length_cons, List.count_cons]
    by_cases hmark : c = mark
    · rw [if_pos hmark, if_pos (beq_iff_eq.2 hmark)]
      simp only [List.length_cons, List.length_nil]
      omega
    · rw [if_neg hmark, if_neg (mt beq_iff_eq.1 hmark)]
      simp only [List.length_cons, List.length_nil]
      omega

theorem count_escapeMarks : ∀ a : WString, (escapeMarks a).count mark = a.count mark
  | [] => rfl
  | c :: a => by
    have ih := count_escapeMarks a
    unfold escapeMarks at *
    rw [List.flatMap_cons, List.count_append, ih, List.count_cons]
    by_cases hmark : c = mark
    · rw [if_pos hmark, if_pos (beq_iff_eq.2 hmark), hmark, Nat.add_comm]
      rfl
    · rw [if_neg hmark, if_neg (mt beq_iff_eq.1 hmark), List.count_singleton, if_neg (mt beq_iff_eq.1 hmark), Nat.zero_add, Nat.add_zero]

/-! ## Reading an argument -/

/-- An escaped text is read as the text when no quote character stands behind a backslash. -/
theorem readArgs_escapeMarks (quoted : Bool) : ∀ (a : WString) (arg : WString) (n : Nat) (rest : WString),
    (quoted = false → ∀ c ∈ a, ¬ isSep c = true) → (0 < n → a.head? ≠ some mark) → (a.IsChain fun c d => c = slash → d ≠ mark) →
      ∃ arg' n', readArgs quoted (some arg) n (escapeMarks a ++ rest) = readArgs quoted (some arg') n' rest ∧
        arg' ++ List.replicate n' slash = arg ++ List.replicate n slash ++ a ∧ endsSlash (decide (0 < n)) a = decide (0 < n')
  | [], arg, n, rest, _, _, _ => ⟨arg, n, rfl, (List.append_nil _).symm, rfl⟩
  | c :: a, arg, n, rest, hsep, hhead, hchain => by
    have hsep' : quoted = false → ∀ d ∈ a, ¬ isSep d = true := fun hq d hd => hsep hq d (List.mem_cons_of_mem _ hd)
    have hchain' := hchain.of_cons
    by_cases hslash : c = slash
    · subst hslash
      have hhead' : 0 < n + 1 → a.head? ≠ some mark := by
        intro _ heq
        cases a with
        | nil => cases heq
        | cons d a => exact (List.isChain_cons_cons.1 hchain).1 rfl (Option.some.inj heq)
      obtain ⟨arg', n', hread, htext, hends⟩ := readArgs_escapeMarks quoted a arg (n + 1) rest hsep' hhead' hchain'
      refine ⟨arg', n', hread ▸ readArgs_slash, ?_, ?_⟩
      · rw [htext, List.replicate_succ', List.append_assoc, List.append_assoc, List.append_assoc, List.singleton_append]
      · rw [← hends]
        rfl
    by_cases hmark : c = mark
    · subst hmark
      obtain rfl : n = 0 := by
        by_contra hne
        exact hhead (Nat.pos_of_ne_zero hne) rfl
      obtain ⟨arg', n', hread, htext, hends⟩ := readArgs_escapeMarks quoted a (arg ++ [mark]) 0 rest hsep' nofun hchain'
      refine ⟨arg', n', ?_, ?_, ?_⟩
      · rw [← hread]
        show readArgs quoted (some arg) 0 (slash :: mark :: (escapeMarks a ++ rest)) = _
        rw [readArgs_slash, readArgs_mark_odd (by decide)]
        simp
      · rw [htext]
        simp
      · rw [← hends]
        rfl
    · obtain ⟨arg', n', hread, htext, hends⟩ := readArgs_escapeMarks quoted a (arg ++ List.replicate n slash ++ [c]) 0 rest hsep' nofun hchain'
      refine ⟨arg', n', ?_, ?_, ?_⟩
      · rw [← hread]
        show readArgs quoted (some arg) n ((if c = mark then [slash, c] else [c]) ++ escapeMarks a ++ rest) = _
        rw [if_neg hmark]
        refine readArgs_other hslash hmark fun hs => ?_
        by_contra hq
        exact hsep (Bool.not_eq_true _ ▸ hq) c (List.mem_cons_self ..) hs
      · rw [htext]
        simp
      · rw [← hends]
        show endsSlash (c == slash) a = endsSlash false a
        rw [beq_eq_false_iff_ne.2 hslash]

/-- A character that is not a blank begins an argument. -/
theorem args_cons {c : UInt16} (h : ¬ isSep c = true) {s : WString} : args (c :: s) = readArgs false (some []) 0 (c :: s) := by
  unfold args
  by_cases hslash : c = slash
  · rw [hslash, readArgs_slash, readArgs_slash]
    rfl
  by_cases hmark : c = mark
  · rw [hmark, readArgs_mark_even rfl, readArgs_mark_even rfl]
    rfl
  · have hsep : isSep c = true → false = true := fun hs => absurd hs h
    rw [readArgs_other hslash hmark hsep, readArgs_other hslash hmark hsep]
    rfl

theorem isChain_plain {a : WString} (h : mark ∉ a) : a.IsChain fun c d => c = slash → d ≠ mark := by
  rw [List.isChain_iff_getElem]
  rintro i hi - heq
  exact h (heq ▸ List.getElem_mem hi)

/-- What comes behind an argument: nothing, or a blank. -/
def Ends (rest : WString) : Prop := rest = [] ∨ ∃ more, rest = 32 :: more

theorem readArgs_ends {rest : WString} (h : Ends rest) (arg : WString) (n : Nat) :
    readArgs false (some arg) n rest = (arg ++ List.replicate n slash) :: args rest := by
  rcases h with rfl | ⟨more, rfl⟩
  · rfl
  · unfold args
    rw [readArgs_sep rfl, readArgs_sep rfl]
    rfl

theorem endsSlash_iff : ∀ {a : WString}, a ≠ [] → ∀ before, endsSlash before a = true ↔ a.getLast? = some slash
  | [], h, _ => absurd rfl h
  | [c], _, _ => by
    rw [List.getLast?_singleton, Option.some_inj]
    exact beq_iff_eq
  | c :: d :: a, _, before => by
    rw [List.getLast?_cons_cons]
    exact endsSlash_iff (List.cons_ne_nil d a) (c == slash)

/-- An argument in quote marks, up to the mark that closes them. -/
theorem args_marks {a : WString} (h : ∃ c ∈ a, isSep c = true) (hchain : a.IsChain fun c d => c = slash → d ≠ mark) (rest : WString) :
    ∃ arg n, args (quote a ++ rest) = readArgs true (some arg) n (mark :: rest) ∧ arg ++ List.replicate n slash = a ∧
      (a.getLast? = some slash ↔ 0 < n) := by
  have hne : a ≠ [] := by
    rintro rfl
    obtain ⟨c, hc, -⟩ := h
    cases hc
  obtain ⟨arg, n, hread, htext, hends⟩ := readArgs_escapeMarks true a [] 0 (mark :: rest) nofun nofun hchain
  refine ⟨arg, n, ?_, htext, ?_⟩
  · rw [← hread, quote_marks h, List.append_assoc, List.append_assoc]
    unfold args
    exact readArgs_mark_even rfl
  · rw [← endsSlash_iff hne (decide (0 < 0)), hends, decide_eq_true_iff]

theorem args_quote {a rest : WString} (h : Quotable a) (hrest : Ends rest) : args (quote a ++ rest) = a :: args rest := by
  unfold Quotable at h
  split at h
  · rename_i hsep
    obtain ⟨arg, n, hread, htext, hends⟩ := args_marks hsep h.1 rest
    obtain rfl : n = 0 := by
      by_contra hne
      exact h.2 (hends.2 (Nat.pos_of_ne_zero hne))
    rw [List.replicate_zero, List.append_nil] at htext
    rw [hread, htext, readArgs_mark_even rfl, Bool.not_true, readArgs_ends hrest]
    simp
  · rename_i hsep
    have hchain := isChain_plain h.2
    obtain ⟨arg, n, hread, htext, -⟩ := readArgs_escapeMarks false a [] 0 rest (fun _ c hc hs => hsep ⟨c, hc, hs⟩) nofun hchain
    rw [quote_plain hsep]
    rw [escapeMarks_plain h.2, readArgs_ends hrest, htext] at hread
    cases a with
    | nil => exact absurd rfl h.1
    | cons c a => exact (args_cons fun hs => hsep ⟨c, List.mem_cons_self .., hs⟩).trans hread

/-- Backslashes at the end of an argument in quote marks: half of them are lost, and an odd one makes the closing mark a
character of the argument. -/
theorem args_endsSlash {a rest : WString} (h : ∃ c ∈ a, isSep c = true) (hchain : a.IsChain fun c d => c = slash → d ≠ mark)
    (hlast : a.getLast? = some slash) (hrest : Ends rest) : ∃ first others, args (quote a ++ rest) = first :: others ∧ first ≠ a := by
  obtain ⟨arg, n, hread, htext, hends⟩ := args_marks h hchain rest
  have hpos := hends.1 hlast
  rw [hread]
  by_cases heven : n % 2 = 0
  · rw [readArgs_mark_even heven, Bool.not_true, readArgs_ends hrest, Option.getD_some]
    refine ⟨_, _, rfl, fun heq => ?_⟩
    have hlen := congrArg List.length (heq.trans htext.symm)
    simp only [List.length_append, List.length_replicate] at hlen
    omega
  · rw [readArgs_mark_odd heven, Option.getD_some]
    obtain ⟨first, others, hfirst, hprefix⟩ := readArgs_some rest true (arg ++ List.replicate (n / 2) slash ++ [mark]) 0
    refine ⟨first, others, hfirst, ?_⟩
    rintro rfl
    rw [← htext, List.append_assoc, List.prefix_append_right_inj] at hprefix
    have hmark := hprefix.subset (List.mem_append_right _ (List.mem_singleton_self mark))
    exact absurd (List.mem_replicate.1 hmark).2 (by decide)

/-! ## The line -/

/-- What stands behind the first argument. -/
def behind (l : List WString) : WString := l.flatMap fun a => 32 :: quote a

theorem cmdline_eq (path : WString) (parameters : List WString) : cmdline path parameters = quote path ++ behind parameters := by
  have hfold : ∀ (l : List WString) (line : WString), l.foldl addParameter line = line ++ behind l := by
    intro l
    induction l with
    | nil => exact fun line => (List.append_nil line).symm
    | cons a l ih =>
      intro line
      rw [List.foldl_cons, ih]
      simp [addParameter, behind]
  exact hfold parameters (quote path)

theorem behind_ends : ∀ l : List WString, Ends (behind l)
  | [] => .inl rfl
  | a :: l => .inr ⟨quote a ++ behind l, rfl⟩

theorem args_behind (a : WString) (l : List WString) : args (behind (a :: l)) = args (quote a ++ behind l) := readArgs_sep rfl

theorem length_behind (a : WString) : ∀ l : List WString,
    (quote a ++ behind l).length + 1 = ((a :: l).map fun b => (quote b).length + 1).sum
  | [] => by simp [behind]
  | b :: l => by
    have ih := length_behind b l
    rw [List.map_cons, List.sum_cons, ← ih]
    simp only [behind, List.flatMap_cons, List.cons_append, List.length_append, List.length_cons]
    omega

/-- The marks that `quote` puts around an argument are two. -/
theorem count_quote (a : WString) : (quote a).count mark % 2 = a.count mark % 2 := by
  by_cases hsep : ∃ c ∈ a, isSep c = true
  · rw [quote_marks hsep, List.count_append, List.count_append, count_escapeMarks]
    simp only [List.count_singleton_self]
    omega
  · rw [quote_plain hsep]

theorem count_behind (a : WString) : ∀ l : List WString,
    (quote a ++ behind l).count mark % 2 = ((a :: l).map (List.count mark)).sum % 2
  | [] => by
    have ha := count_quote a
    simpa [behind] using ha
  | b :: l => by
    have ih := count_behind b l
    have ha := count_quote a
    have hline : (quote a ++ behind (b :: l)).count mark = (quote a).count mark + (quote b ++ behind l).count mark := by
      rw [List.count_append]
      rfl
    rw [hline, List.map_cons, List.sum_cons]
    omega

theorem length_quote_le (a : WString) : (quote a).length ≤ cost false a + if NeedsMarks a then 2 else 0 := by
  have hcost := length_le_cost false a
  by_cases hsep : ∃ c ∈ a, isSep c = true
  · rw [quote_marks hsep, if_pos (.inr hsep), List.length_append, List.length_append, length_escapeMarks]
    simp only [List.length_singleton]
    omega
  · rw [quote_plain hsep]
    omega

/-- An argument that is as long in the line as it costs. -/
theorem quote_exact {a : WString} (h : (cost false a + if NeedsMarks a then 2 else 0) ≤ (quote a).length) :
    if ∃ c ∈ a, isSep c = true then a.IsChain fun c d => c = slash → d ≠ mark else a ≠ [] ∧ mark ∉ a := by
  have hcost := length_le_cost false a
  split
  · rename_i hsep
    rw [quote_marks hsep, if_pos (.inr hsep), List.length_append, List.length_append, length_escapeMarks] at h
    simp only [List.length_singleton] at h
    have hle : cost false a ≤ a.length + a.count mark := by omega
    exact (chain_of_cost hle).2
  · rename_i hsep
    rw [quote_plain hsep] at h
    have hneeds : ¬ NeedsMarks a := by
      intro hneeds
      rw [if_pos hneeds] at h
      omega
    rw [if_neg hneeds] at h
    refine ⟨fun hnil => hneeds (.inl hnil), List.count_eq_zero.1 (by omega)⟩

/-- All arguments of a line that is read back are as long in it as they cost. -/
theorem exact_of_args {a : WString} {l : List WString} (h : args (quote a ++ behind l) = a :: l) :
    ∀ b ∈ a :: l, (cost false b + if NeedsMarks b then 2 else 0) ≤ (quote b).length := by
  have hweight := weight_args (quote a ++ behind l) (by rw [h]; exact count_behind a l)
  rw [h, length_behind] at hweight
  by_contra hne
  push Not at hne
  obtain ⟨b, hb, hlt⟩ := hne
  refine Nat.not_lt.2 hweight (List.sum_lt_sum _ _ (fun c _ => ?_) ⟨b, hb, ?_⟩)
  · have hle := length_quote_le c
    omega
  · omega

/-- An argument that is as long as it costs, and followed by the arguments that it should be followed by. -/
theorem quotable_first {a rest : WString} {others : List WString}
    (h : if ∃ c ∈ a, isSep c = true then a.IsChain fun c d => c = slash → d ≠ mark else a ≠ [] ∧ mark ∉ a) (hrest : Ends rest)
    (hargs : args (quote a ++ rest) = a :: others) : Quotable a := by
  unfold Quotable
  split at h
  · rename_i hsep
    rw [if_pos hsep]
    refine ⟨h, fun hlast => ?_⟩
    obtain ⟨first, others', hfirst, hne⟩ := args_endsSlash hsep h hlast hrest
    rw [hargs] at hfirst
    exact hne (List.cons.inj hfirst).1.symm
  · rename_i hsep
    rw [if_neg hsep]
    exact h

theorem quotable_of_args : ∀ {l : List WString} {a : WString},
    (∀ b ∈ a :: l, if ∃ c ∈ b, isSep c = true then b.IsChain fun c d => c = slash → d ≠ mark else b ≠ [] ∧ mark ∉ b) →
      args (quote a ++ behind l) = a :: l → ∀ b ∈ a :: l, Quotable b
  | [], a, h, hargs => by
    rw [List.forall_mem_singleton] at h ⊢
    exact quotable_first h (behind_ends []) hargs
  | b :: l, a, h, hargs => by
    rw [List.forall_mem_cons] at h ⊢
    have ha := quotable_first h.1 (behind_ends (b :: l)) hargs
    rw [args_quote ha (behind_ends _), args_behind] at hargs
    exact ⟨ha, quotable_of_args h.2 (List.cons.inj hargs).2⟩

/-- A command line is split into the path and the parameters that it was made of exactly when each of them can be quoted. -/
theorem args_cmdline_iff (path : WString) (parameters : List WString) :
    args (cmdline path parameters) = path :: parameters ↔ ∀ a ∈ path :: parameters, Quotable a := by
  rw [cmdline_eq]
  constructor
  · intro h
    exact quotable_of_args (fun b hb => quote_exact (exact_of_args h b hb)) h
  · intro h
    induction parameters generalizing path with
    | nil => exact args_quote (h path (List.mem_cons_self ..)) (.inl rfl)
    | cons b l ih =>
      obtain ⟨hpath, hrest⟩ := List.forall_mem_cons.1 h
      rw [args_quote hpath (behind_ends _), args_behind, ih b hrest]

/-- A quote character in a parameter without blanks is lost. -/
theorem args_cmdline_marks : args (cmdline [97] [[34, 98, 34]]) = [[97], [98]] ∧ [[97], [98]] ≠ [[97], [34, 98, 34]] := by
  constructor
  · decide
  · decide

end FortiRdp.Util
