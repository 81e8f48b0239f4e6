/-
Machines given by an executable step function, and their runs. A run is the list of the actions
taken, so a run of a concrete machine can be evaluated; an invariant is proved for one step and
carried to every run, or to every run whose steps all meet a condition on the state before and
the action.
-/
import Mathlib.Data.List.Basic

namespace FortiRdp.Run

/-- One action on a state; `none` when the action is not enabled there. -/
abbrev Machine (σ α : Type*) := σ → α → Option σ

variable {σ α τ β : Type*}

/-- The state after a list of actions, `none` when one of them is not enabled. -/
def exec (m : Machine σ α) : σ → List α → Option σ
  | s, [] => some s
  | s, a :: as => (m s a).bind (exec m · as)

/-- The steps of a run: the state before, the action, the state after. -/
def steps (m : Machine σ α) : σ → List α → List (σ × α × σ)
  | _, [] => []
  | s, a :: as =>
    match m s a with
    | none => []
    | some t => (s, a, t) :: steps m t as

/-- Every step of the run meets `C`, a condition on the state before and the action. -/
def Meets (m : Machine σ α) (C : σ → α → Prop) (s : σ) (as : List α) : Prop :=
  ∀ x ∈ steps m s as, C x.1 x.2.1

instance (m : Machine σ α) (C : σ → α → Prop) [∀ s a, Decidable (C s a)] (s : σ) (as : List α) :
    Decidable (Meets m C s as) :=
  inferInstanceAs (Decidable (∀ x ∈ steps m s as, C x.1 x.2.1))

def Reachable (m : Machine σ α) (s t : σ) : Prop := ∃ as, exec m s as = some t

/-- The machine whose actions are enabled by a test on the state and then change it by `next`. -/
def guarded (enabled : σ → α → Bool) (next : σ → α → σ) : Machine σ α :=
  fun s a => if enabled s a then some (next s a) else none

theorem guarded_some {enabled : σ → α → Bool} {next : σ → α → σ} {s t : σ} {a : α}
    (h : guarded enabled next s a = some t) : enabled s a = true ∧ t = next s a := by
  unfold guarded at h
  split at h
  · rename_i he
    exact ⟨he, (Option.some.inj h).symm⟩
  · cases h

@[simp] theorem exec_nil (m : Machine σ α) (s : σ) : exec m s [] = some s := rfl

theorem exec_cons {m : Machine σ α} {s u : σ} {a : α} {as : List α} (h : exec m s (a :: as) = some u) :
    ∃ t, m s a = some t ∧ exec m t as = some u := by
  simpa [exec, Option.bind_eq_some_iff] using h

theorem exec_append (m : Machine σ α) (s : σ) (as bs : List α) :
    exec m s (as ++ bs) = (exec m s as).bind (exec m · bs) := by
  induction as generalizing s with
  | nil => rfl
  | cons a as ih =>
    simp only [List.cons_append, exec]
    cases m s a with
    | none => rfl
    | some t => exact ih t

/-! ## Invariants -/

section Invariant

variable {m : Machine σ α} {I : σ → Prop} {C : σ → α → Prop}

theorem meets_cons {s t : σ} {a : α} {as : List α} (h : Meets m C s (a :: as)) (hs : m s a = some t) :
    C s a ∧ Meets m C t as := by
  unfold Meets steps at h
  rw [hs] at h
  exact ⟨h _ (List.mem_cons_self ..), fun x hx => h x (List.mem_cons_of_mem _ hx)⟩

theorem meets_nil (s : σ) : Meets m C s [] := fun _ hx => nomatch hx

theorem meets_step {s t : σ} {a : α} {as : List α} (hs : m s a = some t) (hc : C s a) (h : Meets m C t as) :
    Meets m C s (a :: as) := by
  intro x hx
  unfold steps at hx
  rw [hs] at hx
  rcases List.mem_cons.1 hx with rfl | hx
  · exact hc
  · exact h x hx

/-- An invariant that every step meeting `C` preserves holds at the end of every run whose steps
all meet `C`. -/
theorem exec_inv_of_meets (hstep : ∀ s a t, I s → C s a → m s a = some t → I t) :
    ∀ {as : List α} {s t : σ}, I s → Meets m C s as → exec m s as = some t → I t
  | [], s, t, hs, _, h => by cases h; exact hs
  | a :: as, s, t, hs, hm, h => by
    obtain ⟨u, hu, h⟩ := exec_cons h
    obtain ⟨hc, hm⟩ := meets_cons hm hu
    exact exec_inv_of_meets hstep (hstep s a u hs hc hu) hm h

/-- An invariant that every step preserves holds in every reachable state. -/
theorem exec_inv (hstep : ∀ s a t, I s → m s a = some t → I t) {as : List α} {s t : σ} (hs : I s)
    (h : exec m s as = some t) : I t :=
  exec_inv_of_meets (C := fun _ _ => True) (fun s a t hi _ => hstep s a t hi) hs (fun _ _ => trivial) h

/-- Along a run whose steps all meet `C`, each step starts and ends in the invariant and is a step
of the machine. -/
theorem steps_inv_of_meets (hstep : ∀ s a t, I s → C s a → m s a = some t → I t) :
    ∀ {as : List α} {s : σ}, I s → Meets m C s as →
      ∀ x ∈ steps m s as, I x.1 ∧ C x.1 x.2.1 ∧ m x.1 x.2.1 = some x.2.2 ∧ I x.2.2
  | [], _, _, _, x, hx => by cases hx
  | a :: as, s, hs, hm, x, hx => by
    unfold steps at hx
    cases hu : m s a with
    | none => rw [hu] at hx; cases hx
    | some u =>
      rw [hu] at hx
      obtain ⟨hc, hm⟩ := meets_cons hm hu
      have hi := hstep s a u hs hc hu
      rcases List.mem_cons.1 hx with rfl | hx
      · exact ⟨hs, hc, hu, hi⟩
      · exact steps_inv_of_meets hstep hi hm x hx

/-- A run meets every condition that the states after its steps make necessary. -/
theorem meets_of_steps {P : σ → Prop} (hstep : ∀ s a t, I s → C s a → m s a = some t → I t)
    (hC : ∀ s a t, I s → m s a = some t → P t → C s a) :
    ∀ {as : List α} {s : σ}, I s → (∀ x ∈ steps m s as, P x.2.2) → Meets m C s as
  | [], s, _, _ => meets_nil s
  | a :: as, s, hs, hp => by
    unfold steps at hp
    cases hu : m s a with
    | none => unfold Meets steps; rw [hu]; exact fun _ hx => nomatch hx
    | some u =>
      rw [hu] at hp
      have hc := hC s a u hs hu (hp _ (List.mem_cons_self ..))
      exact meets_step hu hc (meets_of_steps hstep hC (hstep s a u hs hc hu) fun x hx => hp x (List.mem_cons_of_mem _ hx))

/-- Two conditions that say the same of every step from the invariant say the same of a run. -/
theorem meets_iff {D : σ → α → Prop} (hstep : ∀ s a t, I s → C s a → m s a = some t → I t)
    (hiff : ∀ s a t, I s → m s a = some t → (D s a ↔ C s a)) :
    ∀ {as : List α} {s : σ}, I s → (Meets m D s as ↔ Meets m C s as)
  | [], s, _ => ⟨fun _ => meets_nil s, fun _ => meets_nil s⟩
  | a :: as, s, hs => by
    cases hu : m s a with
    | none =>
      have hnone : steps m s (a :: as) = [] := by rw [steps, hu]
      unfold Meets
      rw [hnone]
      exact ⟨nofun, nofun⟩
    | some u =>
      have hd := hiff s a u hs hu
      constructor
      · intro h
        obtain ⟨hda, hrest⟩ := meets_cons h hu
        have hc := hd.1 hda
        exact meets_step hu hc ((meets_iff hstep hiff (hstep s a u hs hc hu)).1 hrest)
      · intro h
        obtain ⟨hc, hrest⟩ := meets_cons h hu
        exact meets_step hu (hd.2 hc) ((meets_iff hstep hiff (hstep s a u hs hc hu)).2 hrest)

end Invariant

/-! ## Simulation -/

/-- A run of `m` is followed by a run of `n` when every step of `m` is followed by some actions of
`n` that keep the states related. -/
theorem exec_simulates {m : Machine σ α} {n : Machine τ β} {R : σ → τ → Prop}
    (hstep : ∀ s u a t, R s u → m s a = some t → ∃ bs u', exec n u bs = some u' ∧ R t u') :
    ∀ {as : List α} {s t : σ} {u : τ}, R s u → exec m s as = some t → ∃ bs u', exec n u bs = some u' ∧ R t u'
  | [], s, t, u, hr, h => by cases h; exact ⟨[], u, rfl, hr⟩
  | a :: as, s, t, u, hr, h => by
    obtain ⟨s', hs', h⟩ := exec_cons h
    obtain ⟨bs, u', hb, hr'⟩ := hstep s u a s' hr hs'
    obtain ⟨cs, u'', hc, hr''⟩ := exec_simulates hstep hr' h
    exact ⟨bs ++ cs, u'', by rw [exec_append, hb]; exact hc, hr''⟩

/-- A run of `m` whose steps all meet `C` is also a run of `n` when every such step of `m` is one of `n` that keeps
the states related. -/
theorem exec_lockstep {m : Machine σ α} {n : Machine τ α} {R : σ → τ → Prop} {C : σ → α → Prop}
    (hstep : ∀ s u a t, R s u → C s a → m s a = some t → ∃ u', n u a = some u' ∧ R t u') :
    ∀ {as : List α} {s t : σ} {u : τ}, R s u → Meets m C s as → exec m s as = some t →
      ∃ u', exec n u as = some u' ∧ R t u'
  | [], s, t, u, hr, _, h => by cases h; exact ⟨u, rfl, hr⟩
  | a :: as, s, t, u, hr, hm, h => by
    obtain ⟨s', hs', h⟩ := exec_cons h
    obtain ⟨hc, hm⟩ := meets_cons hm hs'
    obtain ⟨u', hu', hr'⟩ := hstep s u a s' hr hc hs'
    obtain ⟨u'', hu'', hr''⟩ := exec_lockstep hstep hr' hm h
    refine ⟨u'', ?_, hr''⟩
    rw [exec, hu']
    exact hu''

end FortiRdp.Run
