/-
Loops that end with a value or go on with another state, with the states that they go through bounded by some fuel.
-/
import Mathlib.Data.Nat.Basic

namespace FortiRdp.Run.Loop

variable {σ α : Type*} {body : σ → σ ⊕ α}

/-- The loop, with at most `n` passes. -/
def run (body : σ → σ ⊕ α) : Nat → σ → Option α
  | 0, _ => none
  | n + 1, s =>
    match body s with
    | .inl t => run body n t
    | .inr a => some a

/-- The loop ends, and with this value. -/
def Returns (body : σ → σ ⊕ α) (s : σ) (a : α) : Prop := ∃ n, run body n s = some a

/-- More passes do not change what a loop returns. -/
theorem run_le {a : α} : ∀ {n m : Nat} {s : σ}, n ≤ m → run body n s = some a → run body m s = some a
  | 0, _, _, _, h => by cases h
  | n + 1, 0, _, hle, _ => absurd hle (Nat.not_succ_le_zero n)
  | n + 1, m + 1, s, hle, h => by
    unfold run at h ⊢
    cases hs : body s with
    | inl t =>
      rw [hs] at h
      exact run_le (Nat.le_of_succ_le_succ hle) h
    | inr b =>
      rw [hs] at h
      exact h

theorem Returns.unique {s : σ} {a b : α} (ha : Returns body s a) (hb : Returns body s b) : a = b := by
  obtain ⟨n, hn⟩ := ha
  obtain ⟨m, hm⟩ := hb
  have hleft := run_le (Nat.le_max_left n m) hn
  rw [run_le (Nat.le_max_right n m) hm] at hleft
  exact (Option.some.inj hleft).symm

theorem returns_done {s : σ} {a : α} (h : body s = .inr a) : Returns body s a := ⟨1, by rw [run, h]⟩

theorem returns_pass {s t : σ} {a : α} (h : body s = .inl t) : Returns body s a ↔ Returns body t a := by
  constructor
  · rintro ⟨n, hn⟩
    cases n with
    | zero => cases hn
    | succ n =>
      rw [run, h] at hn
      exact ⟨n, hn⟩
  · rintro ⟨n, hn⟩
    exact ⟨n + 1, by rw [run, h]; exact hn⟩

/-- What a loop returns is the value of its last pass. -/
theorem Returns.last {s : σ} {a : α} (h : Returns body s a) : ∃ t, body t = .inr a := by
  obtain ⟨n, hn⟩ := h
  induction n generalizing s with
  | zero => cases hn
  | succ n ih =>
    rw [run] at hn
    cases hs : body s with
    | inl t =>
      rw [hs] at hn
      exact ih hn
    | inr b =>
      rw [hs] at hn
      cases hn
      exact ⟨s, hs⟩

/-- A loop ends when every pass makes something smaller, and what holds of all its states holds of the last one. -/
theorem returns_of_measure (I : σ → Prop) (μ : σ → Nat) (hpass : ∀ s t, I s → body s = .inl t → I t ∧ μ t < μ s) {s : σ} (h : I s) :
    ∃ a t, Returns body s a ∧ I t ∧ body t = .inr a := by
  induction hn : μ s using Nat.strong_induction_on generalizing s with
  | _ n ih =>
    cases hs : body s with
    | inl t =>
      obtain ⟨ht, hlt⟩ := hpass s t h hs
      obtain ⟨a, u, ha, hu⟩ := ih (μ t) (hn ▸ hlt) ht rfl
      exact ⟨a, u, (returns_pass hs).2 ha, hu⟩
    | inr a => exact ⟨a, s, returns_done hs, h, hs⟩

end FortiRdp.Run.Loop
