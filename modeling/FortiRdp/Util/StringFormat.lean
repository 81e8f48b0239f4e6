/-
`string_format`: the buffer is doubled until `vsnprintf` says that the text is in it. The length of a text that fits is
compared with zero as well, so for the empty text the buffer is doubled until there can be no larger one.
-/
import FortiRdp.Run.Loop
import FortiRdp.Util.Str

namespace FortiRdp.Util

open Run

/-- A text that `vsnprintf` has rendered: its length is an `int`. -/
structure RenderedText where
  text : Bytes
  fits : text.length ≤ intMax

/-- What `vsnprintf` returns, and the buffer of `size` characters behind the call; `none` is an error in the format. -/
def vsnprintf (r : Option RenderedText) (size : Nat) : Int × Bytes :=
  match r with
  | none => (-1, List.replicate size 0)
  | some r => (r.text.length, r.text.take (size - 1) ++ 0 :: List.replicate (size - 1 - r.text.length) 0)

/-- The largest size of a vector of characters. -/
def vectorMaxSize : Nat := 2 ^ 63 - 1

/-- How a call of `string_format` ends: with a text, or as a vector of that size cannot be made. -/
inductive FormatResult
  | text (s : Bytes)
  | lengthError
  deriving DecidableEq, Repr

/-- One pass of the loop of `string_format`, with the size of the buffer. -/
def formatPass (r : Option RenderedText) (bufferSize : Nat) : Nat ⊕ FormatResult :=
  if vectorMaxSize < bufferSize then .inr .lengthError
  else
    let (n, buffer) := vsnprintf r bufferSize
    if n < 0 then .inr (.text (ascii "vsnprintf format error"))
    else if 0 < n ∧ n.toNat < bufferSize then .inr (.text (cStr buffer))
    else .inl (bufferSize * 2 % 2 ^ 64)

/-- `string_format`, with a bound on its passes. -/
def stringFormat (r : Option RenderedText) (passes : Nat) : Option FormatResult := Loop.run (formatPass r) passes 256

/-! ## The loop -/

theorem cStr_append_zero (t z : Bytes) : cStr (t ++ 0 :: z) = cStr t := by
  unfold cStr
  induction t with
  | nil => rfl
  | cons c t ih =>
    rw [List.cons_append, List.takeWhile_cons, List.takeWhile_cons, ih]

theorem formatPass_small {r : RenderedText} {size : Nat} (hsize : size ≤ vectorMaxSize) (h : r.text = [] ∨ size ≤ r.text.length) :
    formatPass (some r) size = .inl (size * 2) := by
  have hmod : size * 2 % 2 ^ 64 = size * 2 := Nat.mod_eq_of_lt (by unfold vectorMaxSize at hsize; omega)
  unfold formatPass vsnprintf
  rw [if_neg (Nat.not_lt.2 hsize)]
  dsimp only
  rw [if_neg (Int.not_lt.2 (Int.natCast_nonneg _)), if_neg, hmod]
  rintro ⟨hpos, hlt⟩
  rw [Int.toNat_natCast] at hlt
  rcases h with hnil | hle
  · rw [hnil] at hpos
    exact absurd hpos (by decide)
  · omega

theorem formatPass_large {r : RenderedText} {size : Nat} (hsize : size ≤ vectorMaxSize) (hne : r.text ≠ []) (h : r.text.length < size) :
    formatPass (some r) size = .inr (.text (cStr r.text)) := by
  unfold formatPass vsnprintf
  rw [if_neg (Nat.not_lt.2 hsize)]
  dsimp only
  have hpos := List.length_pos_of_ne_nil hne
  rw [if_neg (Int.not_lt.2 (Int.natCast_nonneg _)), if_pos ⟨by omega, by rw [Int.toNat_natCast]; exact h⟩,
    List.take_of_length_le (by omega), cStr_append_zero]

theorem formatPass_over (r : Option RenderedText) {size : Nat} (hsize : vectorMaxSize < size) :
    formatPass r size = .inr .lengthError := if_pos hsize

/-- The buffer size does not overflow. -/
theorem formatPass_doubles {r : Option RenderedText} {size next : Nat} (h : formatPass r size = .inl next) : next = size * 2 := by
  unfold formatPass at h
  split at h
  · cases h
  · rename_i hsize
    dsimp only at h
    split at h
    · cases h
    · split at h
      · cases h
      · cases h
        exact Nat.mod_eq_of_lt (by unfold vectorMaxSize at hsize; omega)

/-- The loop ends, at the latest when there is no larger buffer. -/
theorem run_formatPass (r : Option RenderedText) : ∀ k : Nat, k ≤ 55 → (Loop.run (formatPass r) (k + 1) (2 ^ (63 - k))).isSome = true
  | 0, _ => by
    rw [Loop.run, formatPass_over r (by decide)]
    rfl
  | k + 1, hk => by
    rw [Loop.run]
    cases hpass : formatPass r (2 ^ (63 - (k + 1))) with
    | inr a => rfl
    | inl next =>
      have hnext : next = 2 ^ (63 - k) := by
        rw [formatPass_doubles hpass, ← Nat.pow_succ]
        congr 1
        omega
      rw [hnext]
      exact run_formatPass r k (by omega)

/-- 56 passes are enough. -/
theorem stringFormat_isSome (r : Option RenderedText) : (stringFormat r 56).isSome = true := run_formatPass r 55 (Nat.le_refl 55)

theorem returns_text {r : RenderedText} (hne : r.text ≠ []) : Loop.Returns (formatPass (some r)) 256 (.text (cStr r.text)) := by
  have hfits := r.fits
  unfold intMax at hfits
  have hmax : ∀ {size : Nat}, size ≤ 2 ^ 32 → size ≤ vectorMaxSize := fun h => h.trans (by decide)
  -- the buffer stays below twice the length of the text
  have hpass : ∀ s t, (256 ≤ s ∧ s ≤ 2 ^ 32) → formatPass (some r) s = .inl t → (256 ≤ t ∧ t ≤ 2 ^ 32) ∧ 2 ^ 33 - t < 2 ^ 33 - s := by
    rintro s t ⟨hlow, hhigh⟩ h
    by_cases hlarge : r.text.length < s
    · rw [formatPass_large (hmax hhigh) hne hlarge] at h
      cases h
    · have ht := formatPass_doubles h
      omega
  obtain ⟨a, last, hreturns, ⟨-, hhigh⟩, hlast⟩ :=
    Loop.returns_of_measure (fun size => 256 ≤ size ∧ size ≤ 2 ^ 32) (fun size => 2 ^ 33 - size) hpass ⟨Nat.le_refl 256, by decide⟩
  by_cases hlarge : r.text.length < last
  · rw [formatPass_large (hmax hhigh) hne hlarge] at hlast
    cases hlast
    exact hreturns
  · rw [formatPass_small (hmax hhigh) (.inr (Nat.not_lt.1 hlarge))] at hlast
    cases hlast

theorem not_returns_text {r : RenderedText} (hnil : r.text = []) (s : Bytes) : ¬ Loop.Returns (formatPass (some r)) 256 (.text s) := by
  intro h
  obtain ⟨last, hlast⟩ := h.last
  by_cases hsize : last ≤ vectorMaxSize
  · rw [formatPass_small hsize (.inl hnil)] at hlast
    cases hlast
  · rw [formatPass_over _ (Nat.not_le.1 hsize)] at hlast
    cases hlast

/-- What is returned within the passes that are enough. -/
theorem stringFormat_text_iff (r : RenderedText) (s : Bytes) :
    stringFormat (some r) 56 = some (.text s) ↔ r.text ≠ [] ∧ s = cStr r.text := by
  constructor
  · intro h
    have hne : r.text ≠ [] := fun hnil => not_returns_text hnil s ⟨56, h⟩
    have hsame := Loop.Returns.unique ⟨56, h⟩ (returns_text hne)
    exact ⟨hne, FormatResult.text.inj hsame⟩
  · rintro ⟨hne, rfl⟩
    obtain ⟨a, ha⟩ := Option.isSome_iff_exists.1 (stringFormat_isSome (some r))
    rw [ha, Loop.Returns.unique ⟨56, ha⟩ (returns_text hne)]

/-- `string_format` returns the rendered text, without an overflow of the buffer size, exactly when the text is not
empty. -/
theorem stringFormat_iff (r : RenderedText) :
    ((∃ passes, stringFormat (some r) passes = some (.text (cStr r.text))) ∧
      ∀ size next, formatPass (some r) size = .inl next → next = size * 2) ↔ r.text ≠ [] := by
  constructor
  · rintro ⟨hreturns, -⟩ hnil
    exact not_returns_text hnil _ hreturns
  · intro hne
    exact ⟨returns_text hne, fun _ _ => formatPass_doubles⟩

/-- For the empty text the size of the buffer goes beyond what a vector can have. -/
theorem stringFormat_empty : stringFormat (some ⟨[], Nat.zero_le _⟩) 56 = some .lengthError ∧
    ¬ ∃ passes, stringFormat (some ⟨[], Nat.zero_le _⟩) passes = some (.text (cStr [])) := by
  constructor
  · decide
  · exact not_returns_text rfl _

end FortiRdp.Util
