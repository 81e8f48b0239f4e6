/-
Command lines as a program reads them: blanks outside of quote marks separate the arguments, backslashes in front of a
quote character are halved and tell whether it is literal, and all others are literal. A literal quote character, a
backslash in front of it and the blanks and the emptiness of an argument all have a price in characters of the line.
-/
import Mathlib.Algebra.GroupWithZero.Nat
import Mathlib.Data.List.Basic

namespace FortiRdp.Run

abbrev WString := List UInt16

namespace Argv

/-- The backslash. -/
def slash : UInt16 := 92

/-- The quote character. -/
def mark : UInt16 := 34

/-- A blank or a tab. -/
def isSep (c : UInt16) : Bool := c = 32 ∨ c = 9

/-- The arguments of the rest of a line, in or out of quote marks, with the argument that is being read, if there is
one, and the number of backslashes behind it. -/
def readArgs : Bool → Option WString → Nat → WString → List WString
  | quoted, arg, n, c :: s =>
    if c = slash then readArgs quoted (some (arg.getD [])) (n + 1) s
    else if c = mark then
      let arg := arg.getD [] ++ List.replicate (n / 2) slash
      if n % 2 = 0 then readArgs (!quoted) (some arg) 0 s else readArgs quoted (some (arg ++ [mark])) 0 s
    else if isSep c ∧ quoted = false then (arg.map (· ++ List.replicate n slash)).toList ++ readArgs false none 0 s
    else readArgs quoted (some (arg.getD [] ++ List.replicate n slash ++ [c])) 0 s
  | _, arg, n, [] => (arg.map (· ++ List.replicate n slash)).toList

/-- The arguments of a command line. -/
def args (line : WString) : List WString := readArgs false none 0 line

section

variable {quoted : Bool} {arg : Option WString} {n : Nat} {c : UInt16} {s : WString}

theorem readArgs_slash : readArgs quoted arg n (slash :: s) = readArgs quoted (some (arg.getD [])) (n + 1) s := by
  rw [readArgs, if_pos rfl]

theorem readArgs_mark_even (h : n % 2 = 0) :
    readArgs quoted arg n (mark :: s) = readArgs (!quoted) (some (arg.getD [] ++ List.replicate (n / 2) slash)) 0 s := by
  rw [readArgs, if_neg (by decide), if_pos rfl, if_pos h]

theorem readArgs_mark_odd (h : n % 2 ≠ 0) :
    readArgs quoted arg n (mark :: s) = readArgs quoted (some (arg.getD [] ++ List.replicate (n / 2) slash ++ [mark])) 0 s := by
  rw [readArgs, if_neg (by decide), if_pos rfl, if_neg h]

theorem isSep_ne (h : isSep c = true) : c ≠ slash ∧ c ≠ mark := by
  unfold isSep at h
  rw [decide_eq_true_eq] at h
  rcases h with rfl | rfl
  · decide
  · decide

theorem readArgs_sep (h : isSep c = true) :
    readArgs false arg n (c :: s) = (arg.map (· ++ List.replicate n slash)).toList ++ readArgs false none 0 s := by
  rw [readArgs, if_neg (isSep_ne h).1, if_neg (isSep_ne h).2, if_pos ⟨h, rfl⟩]

theorem readArgs_other (hs : c ≠ slash) (hm : c ≠ mark) (h : isSep c = true → quoted = true) :
    readArgs quoted arg n (c :: s) = readArgs quoted (some (arg.getD [] ++ List.replicate n slash ++ [c])) 0 s := by
  rw [readArgs, if_neg hs, if_neg hm, if_neg]
  rintro ⟨hsep, hquoted⟩
  rw [h hsep] at hquoted
  cases hquoted

/-- What has been read of an argument stays its beginning. -/
theorem readArgs_some : ∀ (s : WString) (quoted : Bool) (a : WString) (n : Nat),
    ∃ first rest, readArgs quoted (some a) n s = first :: rest ∧ a <+: first
  | [], quoted, a, n => ⟨_, [], rfl, List.prefix_append _ _⟩
  | c :: s, quoted, a, n => by
    by_cases hslash : c = slash
    · subst hslash
      rw [readArgs_slash]
      exact readArgs_some s quoted a (n + 1)
    by_cases hmark : c = mark
    · subst hmark
      by_cases heven : n % 2 = 0
      · rw [readArgs_mark_even heven]
        obtain ⟨first, rest, h, hp⟩ := readArgs_some s (!quoted) (a ++ List.replicate (n / 2) slash) 0
        exact ⟨first, rest, h, (List.prefix_append _ _).trans hp⟩
      · rw [readArgs_mark_odd heven]
        obtain ⟨first, rest, h, hp⟩ := readArgs_some s quoted (a ++ List.replicate (n / 2) slash ++ [mark]) 0
        rw [List.append_assoc] at hp
        exact ⟨first, rest, by rw [← h, Option.getD_some], (List.prefix_append _ _).trans hp⟩
    by_cases hsep : isSep c = true ∧ quoted = false
    · obtain ⟨hsep, rfl⟩ := hsep
      rw [readArgs_sep hsep]
      exact ⟨_, _, rfl, List.prefix_append _ _⟩
    · rw [readArgs_other hslash hmark fun hs => by cases quoted <;> simp_all]
      obtain ⟨first, rest, h, hp⟩ := readArgs_some s quoted (a ++ List.replicate n slash ++ [c]) 0
      rw [List.append_assoc] at hp
      exact ⟨first, rest, by rw [← h, Option.getD_some], (List.prefix_append _ _).trans hp⟩

end

/-! ## What an argument costs -/

/-- Whether a backslash stands behind a text, when one stands in front of it or not. -/
def endsSlash : Bool → WString → Bool
  | before, [] => before
  | _, c :: a => endsSlash (c == slash) a

/-- The characters of a line that a text needs: two for a quote character, and one more for a backslash in front of it. -/
def cost : Bool → WString → Nat
  | _, [] => 0
  | before, c :: a => (if c = mark then (if before then 3 else 2) else 1) + cost (c == slash) a

theorem endsSlash_append : ∀ (before : Bool) (a b : WString), endsSlash before (a ++ b) = endsSlash (endsSlash before a) b
  | _, [], _ => rfl
  | _, c :: a, b => endsSlash_append (c == slash) a b

theorem cost_append : ∀ (before : Bool) (a b : WString), cost before (a ++ b) = cost before a + cost (endsSlash before a) b
  | before, [], b => (Nat.zero_add (cost before b)).symm
  | before, c :: a, b => by
    rw [List.cons_append, cost, cost_append (c == slash) a b, ← Nat.add_assoc]
    rfl

theorem cost_replicate : ∀ (before : Bool) (n : Nat), cost before (List.replicate n slash) = n
  | _, 0 => rfl
  | _, n + 1 => by
    rw [List.replicate_succ, cost, cost_replicate _ n, if_neg (by decide), Nat.add_comm]

theorem endsSlash_replicate : ∀ (before : Bool) (n : Nat), endsSlash before (List.replicate n slash) = (before || decide (0 < n))
  | before, 0 => (Bool.or_false before).symm
  | before, n + 1 => by
    rw [List.replicate_succ, endsSlash, endsSlash_replicate _ n]
    simp

/-- A text costs its characters and one more for each quote character. -/
theorem length_le_cost : ∀ (before : Bool) (a : WString), a.length + a.count mark ≤ cost before a
  | _, [] => Nat.zero_le _
  | before, c :: a => by
    have ih := length_le_cost (c == slash) a
    rw [cost, List.length_cons, List.count_cons]
    by_cases hmark : c = mark
    · rw [if_pos hmark, if_pos (beq_iff_eq.2 hmark)]
      split <;> omega
    · rw [if_neg hmark, if_neg (mt beq_iff_eq.1 hmark)]
      omega

/-- It costs more when a quote character comes behind a backslash. -/
theorem chain_of_cost : ∀ {before : Bool} {a : WString}, cost before a ≤ a.length + a.count mark →
    (before = true → a.head? ≠ some mark) ∧ a.IsChain fun c d => c = slash → d ≠ mark
  | _, [], _ => ⟨nofun, .nil⟩
  | before, c :: a, h => by
    have hrest := length_le_cost (c == slash) a
    rw [cost, List.length_cons, List.count_cons] at h
    have hcost : (before = true → c ≠ mark) ∧ cost (c == slash) a ≤ a.length + a.count mark := by
      by_cases hmark : c = mark
      · rw [if_pos hmark, if_pos (beq_iff_eq.2 hmark)] at h
        cases before with
        | true => simp only [if_true] at h; omega
        | false => exact ⟨nofun, by simp only [Bool.false_eq_true, if_false] at h; omega⟩
      · rw [if_neg hmark, if_neg (mt beq_iff_eq.1 hmark)] at h
        exact ⟨fun _ => hmark, by omega⟩
    obtain ⟨hhead, hchain⟩ := chain_of_cost hcost.2
    refine ⟨fun hb heq => hcost.1 hb (Option.some.inj heq), ?_⟩
    cases a with
    | nil => exact .singleton c
    | cons d a => exact .cons_cons (fun hc hd => hhead (beq_iff_eq.2 hc) (congrArg some hd)) hchain

/-! ## What a line pays for -/

/-- An argument that needs quote marks: it is empty, or there are blanks in it. -/
def NeedsMarks (a : WString) : Prop := a = [] ∨ ∃ c ∈ a, isSep c = true

instance (a : WString) : Decidable (NeedsMarks a) := inferInstanceAs (Decidable (a = [] ∨ ∃ c ∈ a, isSep c = true))

/-- What the arguments cost, with a blank behind each. -/
def weight (l : List WString) : Nat := (l.map fun a => cost false a + 1 + if NeedsMarks a then 2 else 0).sum

/-- What has been paid for the argument that is being read: an opened quote mark is still to be closed. -/
def paid (quoted : Bool) (arg : Option WString) (n : Nat) : Nat :=
  match arg with
  | none => 1
  | some a => cost false a + (endsSlash false a).toNat + n + 1 +
      if quoted then 1 else if NeedsMarks (a ++ List.replicate n slash) then 2 else 0

/-- Whether the rest of a line ends in quote marks. -/
def endsQuoted : Bool → Nat → WString → Bool
  | quoted, _, [] => quoted
  | quoted, n, c :: s =>
    if c = slash then endsQuoted quoted (n + 1) s
    else if c = mark ∧ n % 2 = 0 then endsQuoted (!quoted) 0 s
    else endsQuoted quoted 0 s

theorem isSep_slashes (n : Nat) : ∀ c ∈ List.replicate n slash, ¬ isSep c = true := by
  intro c hc
  rw [(List.mem_replicate.1 hc).2]
  decide

/-- Characters that are not blanks do not make an argument need quote marks. -/
theorem needsMarks_append {a b : WString} (hb : ∀ c ∈ b, ¬ isSep c = true) (h : NeedsMarks (a ++ b)) (t : WString) (ht : b = [] → t = []) :
    NeedsMarks (a ++ t) := by
  rcases h with hnil | ⟨c, hc, hsep⟩
  · obtain ⟨rfl, hnil⟩ := List.append_eq_nil_iff.1 hnil
    exact .inl (ht hnil)
  · rcases List.mem_append.1 hc with hc | hc
    · exact .inr ⟨c, List.mem_append_left _ hc, hsep⟩
    · exact absurd hsep (hb c hc)

theorem cost_slashes (a : WString) (n : Nat) : cost false (a ++ List.replicate n slash) = cost false a + n := by
  rw [cost_append, cost_replicate]

theorem endsSlash_slashes (a : WString) (n : Nat) :
    endsSlash false (a ++ List.replicate n slash) = (endsSlash false a || decide (0 < n)) := by
  rw [endsSlash_append, endsSlash_replicate]

section

variable {quoted : Bool} {arg : Option WString} {n : Nat}

/-- An argument is paid for when it ends, but for a quote mark that is never closed. -/
theorem paid_end (quoted : Bool) (arg : Option WString) (n : Nat) :
    weight (arg.map (· ++ List.replicate n slash)).toList ≤ paid quoted arg n + quoted.toNat := by
  cases arg with
  | none => exact Nat.zero_le _
  | some a =>
    have hweight : weight (Option.map (· ++ List.replicate n slash) (some a)).toList =
        cost false a + n + 1 + if NeedsMarks (a ++ List.replicate n slash) then 2 else 0 := by
      rw [← cost_slashes]
      rfl
    rw [hweight, paid]
    cases quoted with
    | true =>
      simp only [if_true, Bool.toNat_true]
      split <;> omega
    | false =>
      simp only [Bool.false_eq_true, if_false, Bool.toNat_false]
      omega

theorem paid_slash (h : arg = none → quoted = false ∧ n = 0) : paid quoted (some (arg.getD [])) (n + 1) ≤ paid quoted arg n + 1 := by
  cases arg with
  | none =>
    obtain ⟨rfl, rfl⟩ := h rfl
    decide
  | some a =>
    have hmarks : NeedsMarks (a ++ List.replicate (n + 1) slash) → NeedsMarks (a ++ List.replicate n slash) :=
      fun hneeds => needsMarks_append (isSep_slashes _) hneeds _ nofun
    simp only [paid, Option.getD_some]
    cases quoted with
    | true => simp only [if_true]; omega
    | false =>
      simp only [Bool.false_eq_true, if_false]
      by_cases hneeds : NeedsMarks (a ++ List.replicate (n + 1) slash)
      · rw [if_pos hneeds, if_pos (hmarks hneeds)]
        omega
      · rw [if_neg hneeds]
        omega

theorem paid_mark_even (h : arg = none → quoted = false ∧ n = 0) (heven : n % 2 = 0) :
    paid (!quoted) (some (arg.getD [] ++ List.replicate (n / 2) slash)) 0 ≤ paid quoted arg n + 1 := by
  cases arg with
  | none =>
    obtain ⟨rfl, rfl⟩ := h rfl
    decide
  | some a =>
    -- half of the backslashes pay for one that comes to stand in front of a quote character
    have hcost : cost false (a ++ List.replicate (n / 2) slash) + (endsSlash false (a ++ List.replicate (n / 2) slash)).toNat ≤
        cost false a + (endsSlash false a).toNat + n := by
      rw [cost_slashes, endsSlash_slashes]
      by_cases hzero : 0 < n / 2
      · have hends := Bool.toNat_le (endsSlash false a || decide (0 < n / 2))
        omega
      · rw [decide_eq_false hzero, Bool.or_false]
        omega
    simp only [paid, Option.getD_some]
    cases quoted with
    | true =>
      simp only [Bool.not_true, Bool.false_eq_true, if_true, if_false]
      split <;> omega
    | false =>
      simp only [Bool.not_false, Bool.false_eq_true, if_true, if_false]
      omega

theorem paid_mark_odd (h : arg = none → quoted = false ∧ n = 0) (hodd : n % 2 ≠ 0) :
    paid quoted (some (arg.getD [] ++ List.replicate (n / 2) slash ++ [mark])) 0 ≤ paid quoted arg n + 1 := by
  cases arg with
  | none =>
    obtain ⟨-, rfl⟩ := h rfl
    exact absurd rfl hodd
  | some a =>
    have hcost : cost false (a ++ List.replicate (n / 2) slash ++ [mark]) ≤ cost false a + (endsSlash false a).toNat + n + 1 := by
      rw [cost_append, cost_slashes, endsSlash_slashes]
      cases hends : endsSlash false a with
      | true => simp only [cost, Bool.true_or, Bool.toNat_true, if_true]; omega
      | false =>
        by_cases hzero : 0 < n / 2
        · simp only [cost, hzero, decide_true, Bool.or_true, if_true]; omega
        · simp only [cost, hzero, decide_false, Bool.or_false, Bool.false_eq_true, if_true, if_false]; omega
    have hends : endsSlash false (a ++ List.replicate (n / 2) slash ++ [mark]) = false := by
      rw [endsSlash_append]
      rfl
    have hmarks : NeedsMarks (a ++ List.replicate (n / 2) slash ++ [mark] ++ []) → NeedsMarks (a ++ List.replicate n slash) := by
      intro hneeds
      rw [List.append_nil, List.append_assoc] at hneeds
      refine needsMarks_append ?_ hneeds _ fun hnil => absurd hnil (by simp)
      rw [List.forall_mem_append]
      exact ⟨isSep_slashes _, List.forall_mem_singleton.2 (by decide)⟩
    simp only [paid, Option.getD_some, hends, List.replicate_zero]
    cases quoted with
    | true => simp only [if_true, Bool.toNat_false]; omega
    | false =>
      simp only [Bool.false_eq_true, if_false, Bool.toNat_false]
      by_cases hneeds : NeedsMarks (a ++ List.replicate (n / 2) slash ++ [mark] ++ [])
      · rw [if_pos hneeds, if_pos (hmarks hneeds)]
        omega
      · rw [if_neg hneeds]
        omega

theorem paid_other {c : UInt16} (h : arg = none → quoted = false ∧ n = 0) (hslash : c ≠ slash) (hmark : c ≠ mark)
    (hsep : isSep c = true → quoted = true) :
    paid quoted (some (arg.getD [] ++ List.replicate n slash ++ [c])) 0 ≤ paid quoted arg n + 1 := by
  have hcost : ∀ a : WString, cost false (a ++ List.replicate n slash ++ [c]) = cost false a + n + 1 := by
    intro a
    rw [cost_append, cost_slashes, cost, if_neg hmark]
    rfl
  have hends : ∀ a : WString, endsSlash false (a ++ List.replicate n slash ++ [c]) = false := by
    intro a
    rw [endsSlash_append]
    exact beq_eq_false_iff_ne.2 hslash
  have hmarks : quoted = false → ∀ a : WString, NeedsMarks (a ++ List.replicate n slash ++ [c] ++ []) →
      NeedsMarks (a ++ List.replicate n slash) := by
    rintro rfl a hneeds
    rw [List.append_nil, List.append_assoc] at hneeds
    refine needsMarks_append ?_ hneeds _ fun hnil => absurd hnil (by simp)
    rw [List.forall_mem_append]
    refine ⟨isSep_slashes n, fun d hd hs => ?_⟩
    rw [List.mem_singleton.1 hd] at hs
    cases hsep hs
  cases arg with
  | none =>
    obtain ⟨rfl, rfl⟩ := h rfl
    have hneeds : ¬ NeedsMarks ([] ++ List.replicate 0 slash ++ [c] ++ List.replicate 0 slash) := by
      rintro (hnil | ⟨d, hd, hs⟩)
      · cases hnil
      · rw [List.mem_singleton.1 hd] at hs
        cases hsep hs
    simp only [paid, Option.getD_none, hcost, hends, Bool.false_eq_true, if_false, if_neg hneeds, Bool.toNat_false]
    exact Nat.le_refl 2
  | some a =>
    simp only [paid, Option.getD_some, hcost, hends, List.replicate_zero, Bool.toNat_false]
    cases quoted with
    | true => simp only [if_true]; omega
    | false =>
      simp only [Bool.false_eq_true, if_false]
      by_cases hneeds : NeedsMarks (a ++ List.replicate n slash ++ [c] ++ [])
      · rw [if_pos hneeds, if_pos (hmarks rfl a hneeds)]
        omega
      · rw [if_neg hneeds]
        omega

end

theorem weight_append (l l' : List WString) : weight (l ++ l') = weight l + weight l' := by
  rw [weight, List.map_append, List.sum_append]
  rfl

/-- The characters of a line pay for its arguments, but for a quote mark at the end that is missing. -/
theorem weight_readArgs (quoted : Bool) (arg : Option WString) (n : Nat) (s : WString) (h : arg = none → quoted = false ∧ n = 0) :
    weight (readArgs quoted arg n s) ≤ s.length + paid quoted arg n + (endsQuoted quoted n s).toNat := by
  fun_induction readArgs quoted arg n s with
  | case1 quoted arg n s ih =>
    have hpaid := paid_slash h
    have hrest := ih nofun
    rw [endsQuoted, if_pos rfl, List.length_cons]
    omega
  | case2 quoted arg n s half heven hslash ih =>
    have hpaid : paid (!quoted) (some half) 0 ≤ paid quoted arg n + 1 := paid_mark_even h heven
    have hrest := ih nofun
    rw [endsQuoted, if_neg hslash, if_pos ⟨rfl, heven⟩, List.length_cons]
    omega
  | case3 quoted arg n s half hodd hslash ih =>
    have hpaid : paid quoted (some (half ++ [mark])) 0 ≤ paid quoted arg n + 1 := paid_mark_odd h hodd
    have hrest := ih nofun
    rw [endsQuoted, if_neg hslash, if_neg (fun hm => hodd hm.2), List.length_cons]
    omega
  | case4 quoted arg n c s hslash hmark hsep ih =>
    obtain ⟨hsep, rfl⟩ := hsep
    have hpaid := paid_end false arg n
    have hrest := ih fun _ => ⟨rfl, rfl⟩
    rw [endsQuoted, if_neg hslash, if_neg (fun hm => hmark hm.1), List.length_cons, weight_append]
    rw [show paid false none 0 = 1 from rfl] at hrest
    rw [Bool.toNat_false] at hpaid
    omega
  | case5 quoted arg n c s hslash hmark hsep ih =>
    have hpaid := paid_other h hslash hmark fun hs => by
      by_contra hquoted
      exact hsep ⟨hs, Bool.not_eq_true _ ▸ hquoted⟩
    have hrest := ih nofun
    rw [endsQuoted, if_neg hslash, if_neg (fun hm => hmark hm.1), List.length_cons]
    omega
  | case6 quoted arg n =>
    have hpaid := paid_end quoted arg n
    rw [List.length_nil, Nat.zero_add]
    exact hpaid

/-- Every quote character of a line is a literal one of its arguments, or opens or closes quote marks. -/
theorem marks_readArgs (quoted : Bool) (arg : Option WString) (n : Nat) (s : WString) :
    (s.count mark + (arg.getD []).count mark + quoted.toNat) % 2 =
      (((readArgs quoted arg n s).map (List.count mark)).sum + (endsQuoted quoted n s).toNat) % 2 := by
  have hslashes : ∀ m, (List.replicate m slash).count mark = 0 := fun m => List.count_eq_zero.2 fun hin => by
    rw [List.mem_replicate] at hin
    exact absurd hin.2 (by decide)
  have hend : ∀ (arg : Option WString) (n : Nat),
      (((arg.map (· ++ List.replicate n slash)).toList).map (List.count mark)).sum = (arg.getD []).count mark := by
    rintro (_ | a) n
    · rfl
    · simp [List.count_append, hslashes]
  fun_induction readArgs quoted arg n s with
  | case1 quoted arg n s ih =>
    rw [endsQuoted, if_pos rfl, ← ih, Option.getD_some, List.count_cons_of_ne (by decide)]
  | case2 quoted arg n s half heven hslash ih =>
    have hhalf : half.count mark = (arg.getD []).count mark := by
      show (arg.getD [] ++ List.replicate (n / 2) slash).count mark = _
      rw [List.count_append, hslashes, Nat.add_zero]
    rw [endsQuoted, if_neg hslash, if_pos ⟨rfl, heven⟩, ← ih, Option.getD_some, List.count_cons_self, hhalf]
    cases quoted <;> simp <;> omega
  | case3 quoted arg n s half hodd hslash ih =>
    have hhalf : (half ++ [mark]).count mark = (arg.getD []).count mark + 1 := by
      show (arg.getD [] ++ List.replicate (n / 2) slash ++ [mark]).count mark = _
      rw [List.count_append, List.count_append, hslashes, Nat.add_zero]
      rfl
    rw [endsQuoted, if_neg hslash, if_neg (fun hm => hodd hm.2), ← ih, Option.getD_some, List.count_cons_self, hhalf]
    omega
  | case4 quoted arg n c s hslash hmark hsep ih =>
    obtain ⟨hsep, rfl⟩ := hsep
    rw [endsQuoted, if_neg hslash, if_neg (fun hm => hmark hm.1), List.map_append, List.sum_append, hend, List.count_cons_of_ne hmark]
    rw [Option.getD_none, List.count_nil] at ih
    omega
  | case5 quoted arg n c s hslash hmark hsep ih =>
    rw [endsQuoted, if_neg hslash, if_neg (fun hm => hmark hm.1), ← ih, Option.getD_some, List.count_append, List.count_append, hslashes,
      List.count_cons_of_ne hmark, List.count_cons_of_ne hmark]
    rfl
  | case6 quoted arg n =>
    rw [hend, List.count_nil, Nat.zero_add]
    rfl

/-- A line that closes its quote marks pays for its arguments. -/
theorem weight_args (line : WString) (h : line.count mark % 2 = ((args line).map (List.count mark)).sum % 2) :
    weight (args line) ≤ line.length + 1 := by
  have hmarks := marks_readArgs false none 0 line
  have hweight := weight_readArgs false none 0 line fun _ => ⟨rfl, rfl⟩
  have hclosed : (endsQuoted false 0 line).toNat = 0 := by
    rw [Option.getD_none, List.count_nil] at hmarks
    have hbit := Bool.toNat_le (endsQuoted false 0 line)
    unfold args at h
    rw [Bool.toNat_false] at hmarks
    omega
  rw [hclosed] at hweight
  exact hweight

end Argv

end FortiRdp.Run
