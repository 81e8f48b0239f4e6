/-
Programs with a state and exceptions: `EStateM` without backtracking, so what a program did before it
threw stays done. The rules say how a run goes through a bind, which states a program keeps in an
invariant whatever its end, and what a loop with a measure does.
-/
import Mathlib.Data.List.Basic
import Mathlib.Tactic

namespace FortiRdp.Run

variable {ε σ τ α β : Type}

/-! ## Runs -/

theorem bind_ok {x : EStateM ε σ α} {f : α → EStateM ε σ β} {s s' : σ} {a : α} (h : x s = .ok a s') :
    (x >>= f) s = f a s' := by
  show EStateM.bind x f s = f a s'
  unfold EStateM.bind
  rw [h]

theorem bind_error {x : EStateM ε σ α} {f : α → EStateM ε σ β} {s s' : σ} {e : ε} (h : x s = .error e s') :
    (x >>= f) s = .error e s' := by
  show EStateM.bind x f s = .error e s'
  unfold EStateM.bind
  rw [h]

theorem bind_eq_ok {x : EStateM ε σ α} {f : α → EStateM ε σ β} {s s' : σ} {b : β} (h : (x >>= f) s = .ok b s') :
    ∃ a t, x s = .ok a t ∧ f a t = .ok b s' := by
  cases hr : x s with
  | ok a t =>
    rw [bind_ok hr] at h
    exact ⟨a, t, rfl, h⟩
  | error e t =>
    rw [bind_error hr] at h
    cases h

theorem bind_eq_error {x : EStateM ε σ α} {f : α → EStateM ε σ β} {s s' : σ} {e : ε}
    (h : (x >>= f) s = .error e s') : x s = .error e s' ∨ ∃ a t, x s = .ok a t ∧ f a t = .error e s' := by
  cases hr : x s with
  | ok a t =>
    rw [bind_ok hr] at h
    exact .inr ⟨a, t, rfl, h⟩
  | error d t =>
    rw [bind_error hr] at h
    cases h
    exact .inl rfl

theorem bind_congr {x y : EStateM ε σ α} {s t : σ} (h : x s = y t) {f : α → EStateM ε σ β} : (x >>= f) s = (y >>= f) t := by
  show EStateM.bind x f s = EStateM.bind y f t
  unfold EStateM.bind
  rw [h]

theorem get_bind (f : σ → EStateM ε σ α) (s : σ) : (MonadState.get >>= f) s = f s s := rfl

theorem except_bind {x : Except ε α} {a : α} (h : x = .ok a) (f : α → EStateM ε σ β) (s : σ) :
    (ofExcept x >>= f) s = f a s := by
  subst h
  rfl

theorem except_eq_ok {x : Except ε α} {s s' : σ} {a : α} (h : (ofExcept x : EStateM ε σ α) s = .ok a s') :
    x = .ok a ∧ s = s' := by
  cases x with
  | ok b =>
    cases h
    exact ⟨rfl, rfl⟩
  | error e => cases h

/-- The state a run ends in. -/
def endState : EStateM.Result ε σ α → σ
  | .ok _ s => s
  | .error _ s => s

/-! ## Part of the state -/

/-- A program on a part of the state. -/
def zoom (get : σ → τ) (set : τ → σ → σ) (x : EStateM ε τ α) : EStateM ε σ α := fun s =>
  match x (get s) with
  | .ok a t => .ok a (set t s)
  | .error e t => .error e (set t s)

theorem zoom_ok {get : σ → τ} {set : τ → σ → σ} {x : EStateM ε τ α} {s : σ} {a : α} {t : τ} (h : x (get s) = .ok a t) :
    zoom get set x s = .ok a (set t s) := by
  unfold zoom
  rw [h]

theorem zoom_error {get : σ → τ} {set : τ → σ → σ} {x : EStateM ε τ α} {s : σ} {e : ε} {t : τ}
    (h : x (get s) = .error e t) : zoom get set x s = .error e (set t s) := by
  unfold zoom
  rw [h]

theorem endState_zoom (get : σ → τ) (set : τ → σ → σ) (x : EStateM ε τ α) (s : σ) :
    endState (zoom get set x s) = set (endState (x (get s))) s := by
  unfold zoom
  cases x (get s) <;> rfl

/-! ## Invariants -/

/-- Started in `I`, the program ends in `J a` when it returns `a`, and in `K e` when it throws `e`. -/
def Spec (I : σ → Prop) (x : EStateM ε σ α) (J : α → σ → Prop) (K : ε → σ → Prop) : Prop :=
  ∀ s, I s → match x s with
    | .ok a s' => J a s'
    | .error e s' => K e s'

/-- The program keeps `I`, whether it returns or throws. -/
def Keeps (I : σ → Prop) (x : EStateM ε σ α) : Prop := Spec I x (fun _ => I) (fun _ => I)

section Rules

variable {I I' : σ → Prop} {J : α → σ → Prop} {K : ε → σ → Prop} {L : β → σ → Prop}

theorem Spec.pure (a : α) (h : ∀ s, I s → J a s) : Spec I (Pure.pure a : EStateM ε σ α) J K := h

theorem Spec.throw (e : ε) (h : ∀ s, I s → K e s) : Spec I (MonadExcept.throw e : EStateM ε σ α) J K := h

theorem Spec.bind {x : EStateM ε σ α} {f : α → EStateM ε σ β} (hx : Spec I x J K) (hf : ∀ a, Spec (J a) (f a) L K) :
    Spec I (x >>= f) L K := by
  intro s hs
  have h := hx s hs
  cases hr : x s with
  | ok a s' =>
    rw [hr] at h
    rw [bind_ok hr]
    exact hf a s' h
  | error e s' =>
    rw [hr] at h
    rw [bind_error hr]
    exact h

theorem Spec.modify {f : σ → σ} {J : PUnit → σ → Prop} (h : ∀ s, I s → J ⟨⟩ (f s)) :
    Spec I (modify f : EStateM ε σ PUnit) J K := h

/-- The state is read: what follows starts in it. -/
theorem Spec.get_bind {f : σ → EStateM ε σ β} (h : ∀ s₀, Spec (fun s => I s ∧ s = s₀) (f s₀) L K) :
    Spec I (MonadState.get >>= f) L K := fun s hs => h s s ⟨hs, rfl⟩

theorem Spec.consequence {x : EStateM ε σ α} {J' : α → σ → Prop} {K' : ε → σ → Prop} (h : Spec I x J K)
    (hpre : ∀ s, I' s → I s) (hpost : ∀ a s, J a s → J' a s) (hexn : ∀ e s, K e s → K' e s) : Spec I' x J' K' := by
  intro s hs
  have h := h s (hpre s hs)
  cases hr : x s with
  | ok a s' => rw [hr] at h; exact hpost a s' h
  | error e s' => rw [hr] at h; exact hexn e s' h

/-- What holds whatever the end of a program holds of the state it ends in. -/
theorem Spec.endState {x : EStateM ε σ α} {L : σ → Prop} (h : Spec I x (fun _ => L) (fun _ => L)) {s : σ} (hs : I s) :
    L (endState (x s)) := by
  have h := h s hs
  cases hr : x s with
  | ok a s' => rw [hr] at h; exact h
  | error e s' => rw [hr] at h; exact h

theorem Keeps.of_endState {x : EStateM ε σ α} (h : ∀ s, I s → I (endState (x s))) : Keeps I x := by
  intro s hs
  have hend := h s hs
  cases hr : x s with
  | ok a s' => rw [hr] at hend; exact hend
  | error e s' => rw [hr] at hend; exact hend

theorem Keeps.pure (a : α) : Keeps I (Pure.pure a : EStateM ε σ α) := fun _ h => h

theorem Keeps.throw (e : ε) : Keeps I (MonadExcept.throw e : EStateM ε σ α) := fun _ h => h

theorem Keeps.bind {x : EStateM ε σ α} {f : α → EStateM ε σ β} (hx : Keeps I x) (hf : ∀ a, Keeps I (f a)) :
    Keeps I (x >>= f) :=
  Spec.bind hx hf

theorem Keeps.ite {c : Prop} [Decidable c] {x y : EStateM ε σ α} (hx : Keeps I x) (hy : Keeps I y) :
    Keeps I (if c then x else y) := by
  split
  · exact hx
  · exact hy

theorem Keeps.get : Keeps I (MonadState.get : EStateM ε σ σ) := fun _ h => h

theorem Keeps.modify {f : σ → σ} (h : ∀ s, I s → I (f s)) : Keeps I (modify f : EStateM ε σ PUnit) := h

theorem Keeps.except (x : Except ε α) : Keeps I (ofExcept x : EStateM ε σ α) := by
  cases x with
  | ok a => exact Keeps.pure a
  | error e => exact Keeps.throw e

/-- A program on a part of the state keeps what it cannot reach. -/
theorem Keeps.zoom {get : σ → τ} {set : τ → σ → σ} {x : EStateM ε τ α} (h : ∀ s t, I s → I (set t s)) :
    Keeps I (zoom get set x) := by
  intro s hs
  unfold Run.zoom
  cases x (get s) with
  | ok a t => exact h s t hs
  | error e t => exact h s t hs

/-- What a program on a part of the state does is what it does to that part. -/
theorem Spec.zoom {get : σ → τ} {set : τ → σ → σ} {x : EStateM ε τ α} {A : τ → Prop} {B : α → τ → Prop}
    {C : ε → τ → Prop} (h : Spec A x B C) (hpre : ∀ s, I s → A (get s)) (hok : ∀ s a t, I s → B a t → J a (set t s))
    (hexn : ∀ s e t, I s → C e t → K e (set t s)) : Spec I (zoom get set x) J K := by
  intro s hs
  have hx := h (get s) (hpre s hs)
  unfold Run.zoom
  cases hr : x (get s) with
  | ok a t =>
    rw [hr] at hx
    exact hok s a t hs hx
  | error e t =>
    rw [hr] at hx
    exact hexn s e t hs hx

end Rules

/-! ## Loops -/

/-- A loop: `body` returns what to go on with, or the result. The fuel bounds the number of rounds; the
program that uses a loop gives a measure that makes it irrelevant (`iterate_fuel`). -/
def iterate (exhausted : ε) (body : β → EStateM ε σ (β ⊕ α)) : Nat → β → EStateM ε σ α
  | 0, _ => throw exhausted
  | n + 1, b => do
    match ← body b with
    | .inl b => iterate exhausted body n b
    | .inr a => pure a

theorem iterate_more {exhausted : ε} {body : β → EStateM ε σ (β ⊕ α)} {n : Nat} {b b' : β} {s s' : σ}
    (h : body b s = .ok (.inl b') s') :
    iterate exhausted body (n + 1) b s = iterate exhausted body n b' s' :=
  bind_ok h

theorem iterate_done {exhausted : ε} {body : β → EStateM ε σ (β ⊕ α)} {n : Nat} {b : β} {s s' : σ} {a : α}
    (h : body b s = .ok (.inr a) s') : iterate exhausted body (n + 1) b s = .ok a s' :=
  bind_ok h

theorem iterate_error {exhausted : ε} {body : β → EStateM ε σ (β ⊕ α)} {n : Nat} {b : β} {s s' : σ} {e : ε}
    (h : body b s = .error e s') : iterate exhausted body (n + 1) b s = .error e s' :=
  bind_error h

/-- The rounds of a loop: from `b` on `s` it goes on to `b'` on `s'`. -/
inductive Rounds (body : β → EStateM ε σ (β ⊕ α)) : β → σ → β → σ → Prop
  | refl (b : β) (s : σ) : Rounds body b s b s
  | round {b b' b'' : β} {s s' s'' : σ} (h : body b s = .ok (.inl b') s') (hrest : Rounds body b' s' b'' s'') :
      Rounds body b s b'' s''

theorem Keeps.iterate {I : σ → Prop} {exhausted : ε} {body : β → EStateM ε σ (β ⊕ α)} (h : ∀ b, Keeps I (body b)) :
    ∀ (n : Nat) (b : β), Keeps I (iterate exhausted body n b)
  | 0, _ => Keeps.throw exhausted
  | n + 1, b => by
    refine Keeps.bind (h b) fun r => ?_
    cases r with
    | inl b' => exact Keeps.iterate h n b'
    | inr a => exact Keeps.pure a

/-! ## Exceptions -/

/-- Whatever the program throws has `E`. -/
def Raises (E : ε → Prop) (x : EStateM ε σ α) : Prop := ∀ s e s', x s = .error e s' → E e

section Raises

variable {E : ε → Prop}

theorem Raises.pure (a : α) : Raises E (Pure.pure a : EStateM ε σ α) := by
  intro s e s' h
  cases h

theorem Raises.throw {e : ε} (h : E e) : Raises E (MonadExcept.throw e : EStateM ε σ α) := by
  intro s d s' hrun
  cases hrun
  exact h

theorem Raises.get : Raises E (MonadState.get : EStateM ε σ σ) := by
  intro s e s' h
  cases h

theorem Raises.modify (f : σ → σ) : Raises E (modify f : EStateM ε σ PUnit) := by
  intro s e s' h
  cases h

theorem Raises.bind {x : EStateM ε σ α} {f : α → EStateM ε σ β} (hx : Raises E x) (hf : ∀ a, Raises E (f a)) :
    Raises E (x >>= f) := by
  intro s e s' h
  rcases bind_eq_error h with h | ⟨a, t, -, h⟩
  · exact hx s e s' h
  · exact hf a t e s' h

theorem Raises.ite {c : Prop} [Decidable c] {x y : EStateM ε σ α} (hx : Raises E x) (hy : Raises E y) :
    Raises E (if c then x else y) := by
  split
  · exact hx
  · exact hy

theorem Raises.except_ok {x : Except ε α} {a : α} (h : x = .ok a) : Raises E (ofExcept x : EStateM ε σ α) := by
  subst h
  exact Raises.pure a

theorem Raises.foldlM {f : β → α → EStateM ε σ β} (h : ∀ b a, Raises E (f b a)) :
    ∀ (l : List α) (b : β), Raises E (l.foldlM f b)
  | [], b => Raises.pure b
  | a :: l, b => by
    rw [List.foldlM_cons]
    exact Raises.bind (h b a) fun b' => Raises.foldlM h l b'

/-- A program that throws nothing returns. -/
theorem Raises.returns {x : EStateM ε σ α} (h : Raises (fun _ => False) x) (s : σ) : ∃ a s', x s = .ok a s' := by
  cases hr : x s with
  | ok a s' => exact ⟨a, s', rfl⟩
  | error e s' => exact (h s e s' hr).elim

theorem Raises.zoom {get : σ → τ} {set : τ → σ → σ} {x : EStateM ε τ α} (h : Raises E x) :
    Raises E (zoom get set x) := by
  intro s e s' hrun
  unfold Run.zoom at hrun
  split at hrun
  · cases hrun
  · rename_i d t herr
    cases hrun
    exact h _ _ _ herr

/-- A loop with enough fuel for its measure throws what its rounds throw. -/
theorem Raises.iterate {exhausted : ε} {body : β → EStateM ε σ (β ⊕ α)} {m : β → σ → Nat}
    (hdec : ∀ b s b' s', body b s = .ok (.inl b') s' → m b' s' < m b s) (hbody : ∀ b, Raises E (body b)) :
    ∀ (n : Nat) (b : β) (s : σ) (e : ε) (s' : σ), m b s < n → iterate exhausted body n b s = .error e s' → E e
  | 0, _, _, _, _, hn, _ => absurd hn (Nat.not_lt_zero _)
  | n + 1, b, s, e, s', hn, h => by
    rcases bind_eq_error h with h | ⟨r, t, hr, h⟩
    · exact hbody b s e s' h
    · cases r with
      | inl b' =>
        have hlt := hdec b s b' t hr
        exact Raises.iterate hdec hbody n b' t e s' (by omega) h
      | inr a => cases h

/-- A loop with any fuel throws what its rounds throw, or that the fuel is exhausted. -/
theorem Raises.iterate_any {exhausted : ε} {body : β → EStateM ε σ (β ⊕ α)} (hex : E exhausted)
    (hbody : ∀ b, Raises E (body b)) : ∀ (n : Nat) (b : β), Raises E (Run.iterate exhausted body n b)
  | 0, _ => Raises.throw hex
  | n + 1, b => by
    refine Raises.bind (hbody b) fun r => ?_
    cases r with
    | inl b' => exact Raises.iterate_any hex hbody n b'
    | inr a => exact Raises.pure a

end Raises

/-! ## Agreement -/

/-- From the states in `I` the two programs do the same. -/
def Agree (I : σ → Prop) (x y : EStateM ε σ α) : Prop := ∀ s, I s → x s = y s

section Agree

variable {I : σ → Prop}

theorem Agree.refl (x : EStateM ε σ α) : Agree I x x := fun _ _ => rfl

theorem Agree.bind {x y : EStateM ε σ α} {f g : α → EStateM ε σ β} (hx : Agree I x y) (hy : Keeps I y)
    (hf : ∀ a, Agree I (f a) (g a)) : Agree I (x >>= f) (y >>= g) := by
  intro s hs
  have hxs := hx s hs
  have hkeep := hy s hs
  cases hr : y s with
  | ok a t =>
    rw [hr] at hxs hkeep
    rw [bind_ok hxs, bind_ok hr]
    exact hf a t hkeep
  | error e t =>
    rw [hr] at hxs
    rw [bind_error hxs, bind_error hr]

theorem Agree.ite {c : Prop} [Decidable c] {x y x' y' : EStateM ε σ α} (hx : Agree I x x') (hy : Agree I y y') :
    Agree I (if c then x else y) (if c then x' else y') := by
  split
  · exact hx
  · exact hy

theorem Agree.iterate {exhausted : ε} {body body' : β → EStateM ε σ (β ⊕ α)} (h : ∀ b, Agree I (body b) (body' b))
    (hkeep : ∀ b, Keeps I (body' b)) :
    ∀ (n : Nat) (b : β), Agree I (Run.iterate exhausted body n b) (Run.iterate exhausted body' n b)
  | 0, _ => Agree.refl _
  | n + 1, b => by
    refine Agree.bind (h b) (hkeep b) fun r => ?_
    cases r with
    | inl b' => exact Agree.iterate h hkeep n b'
    | inr a => exact Agree.refl _

end Agree

end FortiRdp.Run
