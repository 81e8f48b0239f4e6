/-
Logs of programs. A program emits a list of events when, from every state, it appends to the log what these
events stand for, whether it returns or throws; the rules put the events of a program together from those of
its parts.
-/
import FortiRdp.Run.Prog

namespace FortiRdp.Run

variable {ε σ α β γ δ : Type}

/-- What comes of the result of a program that returns. -/
def onReturn (r : EStateM.Result ε σ α) (f : α → σ → List γ) : List γ :=
  match r with
  | .ok a s => f a s
  | .error _ _ => []

theorem onReturn_nil (r : EStateM.Result ε σ α) : onReturn r (fun _ _ => ([] : List γ)) = [] := by
  cases r with
  | ok a s => rfl
  | error e s => rfl

theorem mem_onReturn {r : EStateM.Result ε σ α} {f : α → σ → List γ} {e : γ} (h : e ∈ onReturn r f) :
    ∃ a s, r = .ok a s ∧ e ∈ f a s := by
  cases r with
  | ok a s => exact ⟨a, s, rfl, h⟩
  | error d s => cases h

section Emits

variable {log : σ → List β} {g : γ → List β}

/-- The log grows by what the events stand for. -/
def Emits (log : σ → List β) (g : γ → List β) (x : EStateM ε σ α) (events : σ → List γ) : Prop :=
  ∀ s, log (endState (x s)) = log s ++ (events s).flatMap g

namespace Emits

theorem silent {x : EStateM ε σ α} (h : ∀ l, Keeps (fun s => log s = l) x) : Emits log g x fun _ => [] := by
  intro s
  rw [List.flatMap_nil, List.append_nil]
  exact (h (log s)).endState rfl

theorem bind {x : EStateM ε σ α} {f : α → EStateM ε σ δ} {events : σ → List γ} {eventsOf : α → σ → List γ}
    (hx : Emits log g x events) (hf : ∀ a, Emits log g (f a) (eventsOf a)) :
    Emits log g (x >>= f) fun s => events s ++ onReturn (x s) eventsOf := by
  intro s
  have h := hx s
  show _ = log s ++ (events s ++ onReturn (x s) eventsOf).flatMap g
  rw [List.flatMap_append, ← List.append_assoc, ← h]
  cases hrun : x s with
  | error e t =>
    rw [bind_error hrun]
    exact (List.append_nil _).symm
  | ok a t =>
    rw [bind_ok hrun]
    exact hf a t

/-- The first part emits nothing. -/
theorem after {x : EStateM ε σ α} {f : α → EStateM ε σ δ} {eventsOf : α → σ → List γ}
    (hx : Emits log g x fun _ => []) (hf : ∀ a, Emits log g (f a) (eventsOf a)) :
    Emits log g (x >>= f) fun s => onReturn (x s) eventsOf :=
  bind hx hf

/-- What follows emits nothing. -/
theorem before {x : EStateM ε σ α} {f : α → EStateM ε σ δ} {events : σ → List γ} (hx : Emits log g x events)
    (hf : ∀ a, Emits log g (f a) fun _ => []) : Emits log g (x >>= f) events := by
  intro s
  have h : log (endState ((x >>= f) s)) = log s ++ (events s ++ onReturn (x s) fun _ _ => []).flatMap g := bind hx hf s
  rw [onReturn_nil, List.append_nil] at h
  exact h

theorem get_bind {f : σ → EStateM ε σ δ} {eventsOf : σ → σ → List γ} (hf : ∀ s, Emits log g (f s) (eventsOf s)) :
    Emits log g (MonadState.get >>= f) fun s => eventsOf s s :=
  fun s => hf s s

theorem ite {c : Prop} [Decidable c] {x y : EStateM ε σ α} {events events' : σ → List γ} (hx : Emits log g x events)
    (hy : Emits log g y events') : Emits log g (if c then x else y) fun s => if c then events s else events' s := by
  by_cases hc : c
  · simp only [if_pos hc]
    exact hx
  · simp only [if_neg hc]
    exact hy

end Emits

/-- The events of a loop. -/
def roundEvents (body : δ → EStateM ε σ (δ ⊕ α)) (events : δ → σ → List γ) : Nat → δ → σ → List γ
  | 0, _, _ => []
  | n + 1, b, s => events b s ++ onReturn (body b s) fun r t =>
    match r with
    | .inl b => roundEvents body events n b t
    | .inr _ => []

theorem Emits.iterate {exhausted : ε} {body : δ → EStateM ε σ (δ ⊕ α)} {events : δ → σ → List γ}
    (h : ∀ b, Emits log g (body b) (events b)) :
    ∀ (n : Nat) (b : δ), Emits log g (Run.iterate exhausted body n b) (roundEvents body events n b)
  | 0, _ => Emits.silent fun _ => Keeps.throw exhausted
  | n + 1, b => by
    refine Emits.bind (h b) fun r => ?_
    cases r with
    | inl b' => exact Emits.iterate h n b'
    | inr a => exact Emits.silent fun _ => Keeps.pure a

/-- What holds of the events of the rounds holds of those of the loop. -/
theorem mem_roundEvents {body : δ → EStateM ε σ (δ ⊕ α)} {events : δ → σ → List γ} {P : γ → Prop}
    (h : ∀ b s, ∀ e ∈ events b s, P e) : ∀ (n : Nat) (b : δ) (s : σ), ∀ e ∈ roundEvents body events n b s, P e
  | 0, _, _, _, he => absurd he List.not_mem_nil
  | n + 1, b, s, e, he => by
    rcases List.mem_append.1 he with he | he
    · exact h b s e he
    · obtain ⟨r, t, -, he⟩ := mem_onReturn he
      cases r with
      | inl b' => exact mem_roundEvents h n b' t e he
      | inr a => cases he

/-- An event of a loop is one of a round, from which the loop goes on as from the start. -/
theorem roundEvents_reach {exhausted : ε} {body : δ → EStateM ε σ (δ ⊕ α)} {events : δ → σ → List γ} {e : γ} :
    ∀ {n : Nat} {b : δ} {s : σ}, e ∈ roundEvents body events n b s → ∃ m b' t, e ∈ events b' t ∧
      Run.iterate exhausted body n b s = Run.iterate exhausted body (m + 1) b' t
  | 0, _, _, he => absurd he List.not_mem_nil
  | n + 1, b, s, he => by
    rcases List.mem_append.1 he with he | he
    · exact ⟨n, b, s, he, rfl⟩
    · obtain ⟨r, t, hround, he⟩ := mem_onReturn he
      cases r with
      | inl b' =>
        obtain ⟨m, b'', u, hmem, heq⟩ := roundEvents_reach he
        exact ⟨m, b'', u, hmem, (iterate_more hround).trans heq⟩
      | inr a => cases he

/-- The round in which a loop ends. -/
theorem iterate_last {exhausted : ε} {body : δ → EStateM ε σ (δ ⊕ α)} {events : δ → σ → List γ} {a : α} {s' : σ} :
    ∀ {n : Nat} {b : δ} {s : σ}, Run.iterate exhausted body n b s = .ok a s' → ∃ b' t,
      body b' t = .ok (.inr a) s' ∧ ∀ e ∈ events b' t, e ∈ roundEvents body events n b s
  | 0, _, _, h => by cases h
  | n + 1, b, s, h => by
    obtain ⟨r, t, hround, h⟩ := bind_eq_ok h
    cases r with
    | inr a' =>
      cases h
      exact ⟨b, s, hround, fun e he => List.mem_append_left _ he⟩
    | inl b' =>
      obtain ⟨b'', u, hlast, hmem⟩ := iterate_last h
      refine ⟨b'', u, hlast, fun e he => List.mem_append_right _ ?_⟩
      rw [hround]
      exact hmem e he

end Emits

/-! ## Judging events -/

section Judged

variable {τ : Type} {step : τ → γ → τ}

/-- Every event is right for the ledger that the events before it have made. -/
def Judged (step : τ → γ → τ) (P : τ → γ → Prop) : τ → List γ → Prop
  | _, [] => True
  | t, e :: events => P t e ∧ Judged step P (step t e) events

instance Judged.decidable {P : τ → γ → Prop} [∀ t e, Decidable (P t e)] : ∀ (t : τ) (events : List γ),
    Decidable (Judged step P t events)
  | _, [] => isTrue trivial
  | t, e :: events => @instDecidableAnd (P t e) _ inferInstance (Judged.decidable (step t e) events)

theorem judged_append {P : τ → γ → Prop} : ∀ {t : τ} {a b : List γ},
    Judged step P t (a ++ b) ↔ Judged step P t a ∧ Judged step P (a.foldl step t) b
  | _, [], _ => (iff_of_eq (true_and _)).symm
  | t, e :: a, b => by
    show P t e ∧ Judged step P (step t e) (a ++ b) ↔ (P t e ∧ Judged step P (step t e) a) ∧ _
    rw [judged_append, and_assoc]
    rfl

end Judged

end FortiRdp.Run
