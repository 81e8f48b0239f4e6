/-
Options of a command line: the letters of a word behind a dash. A letter may take a value, which is the rest of its
word or the next word. The options end at a word of another form, or behind a double dash.
-/
import Mathlib.Data.List.Basic
import Mathlib.Tactic

namespace FortiRdp.Run.Options

variable {α : Type}

inductive Kind where
  | flag
  | valued
  deriving DecidableEq, Repr

section Scan

variable (dash : α) (kind : α → Option Kind)

/-- A word of options. -/
def IsWord (w : List α) : Prop := ∃ c cs, w = dash :: c :: cs

/-- The options in the rest of a word and in the words behind it, with their values, and the operands behind them. -/
inductive Scan : List α → List (List α) → List (α × Option (List α)) → List (List α) → Prop
  | stop {operands : List (List α)} (h : ∀ w ∈ operands.head?, ¬ IsWord dash w) : Scan [] operands [] operands
  | dashes {operands : List (List α)} : Scan [] ([dash, dash] :: operands) [] operands
  | word {c : α} {cs : List α} {rest : List (List α)} {opts : List (α × Option (List α))} {operands : List (List α)}
    (hword : c :: cs ≠ [dash]) (h : Scan (c :: cs) rest opts operands) : Scan [] ((dash :: c :: cs) :: rest) opts operands
  | flag {c : α} {cs : List α} {rest : List (List α)} {opts : List (α × Option (List α))} {operands : List (List α)}
    (hc : kind c = some .flag) (h : Scan cs rest opts operands) : Scan (c :: cs) rest ((c, none) :: opts) operands
  | attached {c : α} {v : List α} {rest : List (List α)} {opts : List (α × Option (List α))} {operands : List (List α)}
    (hc : kind c = some .valued) (hv : v ≠ []) (h : Scan [] rest opts operands) :
    Scan (c :: v) rest ((c, some v) :: opts) operands
  | separate {c : α} {v : List α} {rest : List (List α)} {opts : List (α × Option (List α))} {operands : List (List α)}
    (hc : kind c = some .valued) (h : Scan [] rest opts operands) : Scan [c] (v :: rest) ((c, some v) :: opts) operands

end Scan

section Cases

variable {dash : α} {kind : α → Option Kind} {c : α} {cs v : List α} {rest operands : List (List α)}
  {opts : List (α × Option (List α))}

theorem scan_stop (h : ∀ w ∈ rest.head?, ¬ IsWord dash w) :
    Scan dash kind [] rest opts operands ↔ opts = [] ∧ operands = rest := by
  constructor
  · intro hscan
    cases hscan with
    | stop => exact ⟨rfl, rfl⟩
    | dashes => exact absurd ⟨_, _, rfl⟩ (h _ rfl)
    | word => exact absurd ⟨_, _, rfl⟩ (h _ rfl)
  · rintro ⟨rfl, rfl⟩
    exact .stop h

theorem scan_dashes : Scan dash kind [] ([dash, dash] :: rest) opts operands ↔ opts = [] ∧ operands = rest := by
  constructor
  · intro hscan
    cases hscan with
    | stop h => exact absurd ⟨_, _, rfl⟩ (h _ rfl)
    | dashes => exact ⟨rfl, rfl⟩
    | word hword => exact absurd rfl hword
  · rintro ⟨rfl, rfl⟩
    exact .dashes

theorem scan_word (hword : c :: cs ≠ [dash]) :
    Scan dash kind [] ((dash :: c :: cs) :: rest) opts operands ↔ Scan dash kind (c :: cs) rest opts operands := by
  constructor
  · intro hscan
    cases hscan with
    | stop h => exact absurd ⟨_, _, rfl⟩ (h _ rfl)
    | dashes => exact absurd rfl hword
    | word _ h => exact h
  · exact .word hword

theorem scan_flag (hc : kind c = some .flag) :
    Scan dash kind (c :: cs) rest opts operands ↔ ∃ more,
        opts = (c, none) :: more ∧ Scan dash kind cs rest more operands := by
  constructor
  · intro hscan
    cases hscan with
    | flag _ h => exact ⟨_, rfl, h⟩
    | attached hvalued | separate hvalued =>
      rw [hc] at hvalued
      cases hvalued
  · rintro ⟨more, rfl, h⟩
    exact .flag hc h

theorem scan_attached (hc : kind c = some .valued) (hv : v ≠ []) :
    Scan dash kind (c :: v) rest opts operands ↔ ∃ more,
        opts = (c, some v) :: more ∧ Scan dash kind [] rest more operands := by
  constructor
  · intro hscan
    cases hscan with
    | flag hflag =>
      rw [hc] at hflag
      cases hflag
    | attached _ _ h => exact ⟨_, rfl, h⟩
    | separate => exact absurd rfl hv
  · rintro ⟨more, rfl, h⟩
    exact .attached hc hv h

theorem scan_separate (hc : kind c = some .valued) :
    Scan dash kind [c] (v :: rest) opts operands ↔ ∃ more,
        opts = (c, some v) :: more ∧ Scan dash kind [] rest more operands := by
  constructor
  · intro hscan
    cases hscan with
    | flag hflag =>
      rw [hc] at hflag
      cases hflag
    | attached _ hv => exact absurd rfl hv
    | separate _ h => exact ⟨_, rfl, h⟩
  · rintro ⟨more, rfl, h⟩
    exact .separate hc h

theorem scan_missing (hc : kind c = some .valued) : ¬ Scan dash kind [c] [] opts operands := by
  intro hscan
  cases hscan with
  | flag hflag =>
    rw [hc] at hflag
    cases hflag
  | attached _ hv => exact absurd rfl hv

theorem scan_unknown (hc : kind c = none) : ¬ Scan dash kind (c :: cs) rest opts operands := by
  intro hscan
  cases hscan with
  | flag h | attached h | separate h =>
    rw [hc] at h
    cases h

/-- A command line has one reading. -/
theorem Scan.unique {opts' : List (α × Option (List α))} {operands' : List (List α)}
    (h : Scan dash kind cs rest opts operands)
    (h' : Scan dash kind cs rest opts' operands') : opts' = opts ∧ operands' = operands := by
  induction h generalizing opts' with
  | stop hstop => exact (scan_stop hstop).1 h'
  | dashes => exact scan_dashes.1 h'
  | word hword _ ih => exact ih ((scan_word hword).1 h')
  | flag hc _ ih =>
    obtain ⟨more, rfl, hmore⟩ := (scan_flag hc).1 h'
    exact ⟨congrArg _ (ih hmore).1, (ih hmore).2⟩
  | attached hc hv _ ih =>
    obtain ⟨more, rfl, hmore⟩ := (scan_attached hc hv).1 h'
    exact ⟨congrArg _ (ih hmore).1, (ih hmore).2⟩
  | separate hc _ ih =>
    obtain ⟨more, rfl, hmore⟩ := (scan_separate hc).1 h'
    exact ⟨congrArg _ (ih hmore).1, (ih hmore).2⟩

/-- An option with the value that its kind asks for. -/
def WellFormed (kind : α → Option Kind) (o : α × Option (List α)) : Prop :=
  (kind o.1 = some .flag ∧ o.2 = none) ∨ (kind o.1 = some .valued ∧ o.2.isSome = true)

end Cases

/-! ## Writing -/

/-- Each option in a word of its own, its value in the next one, and a double dash in front of the operands. -/
def write (dash : α) (opts : List (α × Option (List α))) (operands : List (List α)) : List (List α) :=
  opts.flatMap (fun o => [dash, o.1] :: o.2.toList) ++ [dash, dash] :: operands

/-- Any options and operands can be given: values and operands may begin with a dash, or be empty. -/
theorem scan_write {dash : α} {kind : α → Option Kind} (operands : List (List α)) : ∀ {opts : List (α × Option (List α))},
    (∀ o ∈ opts, WellFormed kind o ∧ o.1 ≠ dash) → Scan dash kind [] (write dash opts operands) opts operands
  | [], _ => .dashes
  | (c, value) :: opts, h => by
    obtain ⟨⟨hform, hdash⟩, hopts⟩ := List.forall_mem_cons.1 h
    have ih := scan_write operands hopts
    have hword : [c] ≠ [dash] := fun heq => hdash (List.cons.inj heq).1
    rcases hform with ⟨hc, hnone⟩ | ⟨hc, hsome⟩
    · obtain rfl : value = none := hnone
      exact .word hword (.flag hc ih)
    · obtain ⟨v, rfl⟩ := Option.isSome_iff_exists.1 hsome
      exact .word hword (.separate hc ih)

/-! ## Settings -/

section Settings

variable [DecidableEq α]

/-- The last one of the options with a letter. -/
def last (c : α) (opts : List (α × Option (List α))) : Option (Option (List α)) :=
  (opts.reverse.find? fun o => decide (o.1 = c)).map Prod.snd

theorem last_append (c : α) (o : α × Option (List α)) (opts : List (α × Option (List α))) :
    last c (opts ++ [o]) = if o.1 = c then some o.2 else last c opts := by
  unfold last
  rw [List.reverse_append, List.reverse_singleton, List.singleton_append, List.find?_cons]
  split
  · rename_i h
    rw [if_pos (of_decide_eq_true h)]
    rfl
  · rename_i h
    rw [if_neg (of_decide_eq_false h)]

/-- A setting that the options with one letter set alone is what the last of them sets. -/
theorem foldl_last {σ β : Type} {step : σ → α × Option (List α) → σ} (get : σ → β) (c : α) (value : Option (List α) → β)
    {P : α × Option (List α) → Prop} (hset : ∀ s v, P (c, v) → get (step s (c, v)) = value v)
    (hkeep : ∀ s o, P o → o.1 ≠ c → get (step s o) = get s) (s : σ) {opts : List (α × Option (List α))}
    (h : ∀ o ∈ opts, P o) :
    get (opts.foldl step s) = ((last c opts).map value).getD (get s) := by
  induction opts using List.reverseRecOn with
  | nil => rfl
  | append_singleton opts o ih =>
    have ho : P o := h o (List.mem_append_right _ (List.mem_singleton_self o))
    rw [List.foldl_append, List.foldl_cons, List.foldl_nil, last_append]
    by_cases heq : o.1 = c
    · subst heq
      rw [if_pos rfl, hset _ _ ho]
      rfl
    · rw [if_neg heq, hkeep _ _ ho heq, ih fun o ho => h o (List.mem_append_left _ ho)]

end Settings

end FortiRdp.Run.Options
