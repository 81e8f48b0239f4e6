/-
Machines seen through a view of their states: when a run of the one machine is seen as the run of the other with
the same actions.
-/
import FortiRdp.Run.Machine

namespace FortiRdp.Run

variable {σ τ α : Type*}

theorem exec_one (m : Machine σ α) (s : σ) (a : α) : exec m s [a] = m s a := Option.bind_fun_some _

/-- The first parts of a list: none of it, or its head and a first part of the rest. -/
theorem forall_prefix_cons {P : List α → Prop} {a : α} {as : List α} :
    (∀ pre, pre <+: a :: as → P pre) ↔ P [] ∧ ∀ pre, pre <+: as → P (a :: pre) := by
  constructor
  · intro h
    exact ⟨h [] List.nil_prefix, fun pre hpre => h (a :: pre) (List.cons_prefix_cons.2 ⟨rfl, hpre⟩)⟩
  · rintro ⟨hnil, hcons⟩ pre hpre
    cases pre with
    | nil => exact hnil
    | cons b pre =>
      obtain ⟨rfl, hrest⟩ := List.cons_prefix_cons.1 hpre
      exact hcons pre hrest

/-- A view of the states of `m` follows a run of `n`, after any number of its actions, exactly when every step of
the run of `n` meets the condition under which a single step of `m` is seen as one of `n`. -/
theorem exec_view_iff {m : Machine σ α} {n : Machine τ α} {view : σ → τ} {C : τ → α → Prop}
    (hiff : ∀ s a, (m s a).map view = n (view s) a ↔ ∀ t, n (view s) a = some t → C (view s) a) :
    ∀ {as : List α} {s : σ}, (∀ pre, pre <+: as → (exec m s pre).map view = exec n (view s) pre) ↔ Meets n C (view s) as := by
  intro as
  induction as with
  | nil =>
    intro s
    constructor
    · exact fun _ => meets_nil _
    · rintro - pre hpre
      rw [List.prefix_nil.1 hpre]
      rfl
  | cons a as ih =>
    intro s
    have hnil : (exec m s []).map view = exec n (view s) [] := rfl
    rw [forall_prefix_cons, and_iff_right hnil]
    cases hn : n (view s) a with
    | none =>
      -- the action is enabled in neither
      have hnone : m s a = none := by
        have hsame := (hiff s a).2 fun t ht => by rw [hn] at ht; cases ht
        rw [hn] at hsame
        exact Option.map_eq_none_iff.1 hsame
      have hsteps : steps n (view s) (a :: as) = [] := by rw [steps, hn]
      refine iff_of_true (fun pre _ => ?_) (by unfold Meets; rw [hsteps]; exact fun q hq => by cases hq)
      rw [exec, exec, hn, hnone]
      rfl
    | some t' =>
      have hrun : ∀ t, m s a = some t → view t = t' → ((∀ pre, pre <+: as →
          (exec m s (a :: pre)).map view = exec n (view s) (a :: pre)) ↔ Meets n C t' as) := by
        rintro t ht rfl
        rw [← ih]
        refine forall₂_congr fun pre _ => ?_
        rw [exec, exec, hn, ht]
        rfl
      constructor
      · intro h
        have hone := h [] List.nil_prefix
        rw [exec_one, exec_one] at hone
        have hc := (hiff s a).1 hone t' hn
        rw [hn] at hone
        obtain ⟨t, ht, hview⟩ := Option.map_eq_some_iff.1 hone
        exact meets_step hn hc ((hrun t ht hview).1 h)
      · intro h
        obtain ⟨hc, hrest⟩ := meets_cons h hn
        have hone := (hiff s a).2 fun _ _ => hc
        rw [hn] at hone
        obtain ⟨t, ht, hview⟩ := Option.map_eq_some_iff.1 hone
        exact (hrun t ht hview).2 hrest

end FortiRdp.Run
