/-
An agenda: things to do, each with the time from which it is due, in the order in which they are taken, which is
that of their times and, at one time, that in which they were added. The values of the type keep their own
history: a thing that was added is pending, was taken or was cancelled, exactly once; nothing is taken before it is
due; and all that was taken comes before all that is pending.
-/
import Mathlib.Data.List.Sort
import Mathlib.Data.List.Perm.Basic

namespace FortiRdp.Run

structure Entry (α : Type*) where
  due : Nat
  serial : Nat
  what : α

variable {α : Type*}

def Entry.Before (a b : Entry α) : Prop := a.due < b.due ∨ a.due = b.due ∧ a.serial < b.serial

theorem Entry.Before.due_le {a b : Entry α} (h : a.Before b) : a.due ≤ b.due := by
  rcases h with h | ⟨h, _⟩
  · exact h.le
  · exact h.le

/-- The place of an entry: behind all that are due no later. -/
def Entry.insert (e : Entry α) (l : List (Entry α)) : List (Entry α) :=
  l.orderedInsert (fun a b => a.due < b.due) e

structure Agenda (α : Type*) where
  clock : Nat
  added : Nat
  pending : List (Entry α)
  taken : List (Entry α)
  cancelled : List (Entry α)
  once : ((taken ++ cancelled ++ pending).map Entry.serial).Perm (List.range added)
  inOrder : (taken ++ pending).Pairwise Entry.Before
  notEarly : ∀ e ∈ taken, e.due ≤ clock

/-! ## Lists of entries -/

theorem insert_perm (e : Entry α) (l : List (Entry α)) : (e.insert l).Perm (e :: l) := List.perm_orderedInsert _ e l

theorem mem_insert {e x : Entry α} {l : List (Entry α)} : x ∈ e.insert l ↔ x = e ∨ x ∈ l := List.mem_orderedInsert _

/-- An entry newer than all of a list in order is put in order. -/
theorem insert_pairwise {e : Entry α} :
    ∀ {l : List (Entry α)}, l.Pairwise Entry.Before → (∀ x ∈ l, x.serial < e.serial) →
      (e.insert l).Pairwise Entry.Before
  | [], _, _ => List.pairwise_singleton ..
  | x :: l, hl, hs => by
    obtain ⟨hx, hrest⟩ := List.pairwise_cons.1 hl
    unfold Entry.insert
    by_cases h : e.due < x.due
    · rw [List.orderedInsert_cons, if_pos h]
      refine List.pairwise_cons.2 ⟨fun y hy => ?_, hl⟩
      rcases List.mem_cons.1 hy with rfl | hy
      · exact .inl h
      · exact .inl (h.trans_le (hx y hy).due_le)
    · rw [List.orderedInsert_cons, if_neg h]
      refine List.pairwise_cons.2 ⟨fun y hy => ?_, insert_pairwise hrest fun y hy => hs y (List.mem_cons_of_mem _ hy)⟩
      rcases mem_insert.1 hy with rfl | hy
      · rcases (Nat.le_of_not_lt h).lt_or_eq with h | h
        · exact .inl h
        · exact .inr ⟨h, hs x (List.mem_cons_self ..)⟩
      · exact hx y hy

/-- What is erased is what is found. -/
theorem eraseP_perm {β : Type*} (p : β → Bool) : ∀ l : List β, ((l.find? p).toList ++ l.eraseP p).Perm l
  | [] => .refl _
  | x :: l => by
    cases h : p x with
    | true => simp [h]
    | false =>
      rw [List.find?_cons_of_neg (by simp [h]), List.eraseP_cons_of_neg (by simp [h])]
      exact List.perm_middle.trans ((eraseP_perm p l).cons x)

namespace Agenda

variable (a : Agenda α)

theorem serial_lt {e : Entry α} (h : e ∈ a.taken ++ a.cancelled ++ a.pending) : e.serial < a.added :=
  List.mem_range.1 (a.once.mem_iff.1 (List.mem_map.2 ⟨e, h, rfl⟩))

theorem pending_serial_lt {e : Entry α} (h : e ∈ a.pending) : e.serial < a.added :=
  a.serial_lt (List.mem_append_right _ h)

theorem pending_inOrder : a.pending.Pairwise Entry.Before := (List.pairwise_append.1 a.inOrder).2.1

/-! ## Operations -/

def empty (clock : Nat) : Agenda α :=
  { clock := clock
    added := 0
    pending := []
    taken := []
    cancelled := []
    once := .refl _
    inOrder := .nil
    notEarly := fun _ h => absurd h List.not_mem_nil }

def elapse (d : Nat) : Agenda α :=
  { a with clock := a.clock + d, notEarly := fun e h => (a.notEarly e h).trans (Nat.le_add_right ..) }

/-- The entry that `add` makes. -/
def entry (delay : Nat) (x : α) : Entry α := { due := a.clock + delay, serial := a.added, what := x }

theorem once_insert (e : Entry α) (h : e.serial = a.added) :
    ((a.taken ++ a.cancelled ++ e.insert a.pending).map Entry.serial).Perm (List.range (a.added + 1)) := by
  have hp : (a.taken ++ a.cancelled ++ e.insert a.pending).Perm (e :: (a.taken ++ a.cancelled ++ a.pending)) :=
    ((insert_perm e a.pending).append_left _).trans List.perm_middle
  rw [List.range_succ]
  calc ((a.taken ++ a.cancelled ++ e.insert a.pending).map Entry.serial)
      |>.Perm (a.added :: (a.taken ++ a.cancelled ++ a.pending).map Entry.serial) := by
        rw [← h]; exact hp.map _
    _ |>.Perm (a.added :: List.range a.added) := a.once.cons _
    _ |>.Perm (List.range a.added ++ [a.added]) := (List.perm_append_singleton ..).symm

theorem inOrder_insert (e : Entry α) (h : e.serial = a.added) (hd : a.clock ≤ e.due) :
    (a.taken ++ e.insert a.pending).Pairwise Entry.Before := by
  obtain ⟨htaken, hpending, hcross⟩ := List.pairwise_append.1 a.inOrder
  refine List.pairwise_append.2
    ⟨htaken, insert_pairwise hpending fun x hx => by rw [h]; exact a.pending_serial_lt hx, fun x hx y hy => ?_⟩
  rcases mem_insert.1 hy with rfl | hy
  · have hle : x.due ≤ y.due := (a.notEarly x hx).trans hd
    rcases hle.lt_or_eq with hlt | heq
    · exact .inl hlt
    · refine .inr ⟨heq, ?_⟩
      rw [h]
      exact a.serial_lt (List.mem_append_left _ (List.mem_append_left _ hx))
  · exact hcross x hx y hy

/-- A new thing, due after `delay`. -/
def add (delay : Nat) (x : α) : Agenda α :=
  { a with
    added := a.added + 1
    pending := (a.entry delay x).insert a.pending
    once := a.once_insert (a.entry delay x) rfl
    inOrder := a.inOrder_insert (a.entry delay x) rfl (Nat.le_add_right ..) }

/-- The first pending thing that meets `p` is cancelled. -/
def cancel (p : α → Bool) : Agenda α :=
  { a with
    pending := a.pending.eraseP fun e => p e.what
    cancelled := a.cancelled ++ (a.pending.find? fun e => p e.what).toList
    once := by
      refine List.Perm.trans (List.Perm.map _ ?_) a.once
      rw [← List.append_assoc, List.append_assoc]
      exact (eraseP_perm _ a.pending).append_left _
    inOrder := a.inOrder.sublist ((List.eraseP_sublist).append_left _) }

/-- The first pending thing is taken, if it was due at `time`, which has come. -/
def take (time : Nat) : Option (Entry α × Agenda α) :=
  match h : a.pending with
  | [] => none
  | e :: rest =>
    if hd : e.due ≤ time ∧ time ≤ a.clock then
      some (e,
        { a with
          pending := rest
          taken := a.taken ++ [e]
          once := by
            refine List.Perm.trans (List.Perm.map _ ?_) a.once
            rw [h, List.append_assoc, List.append_assoc, List.append_assoc]
            have hmid : (a.cancelled ++ e :: rest).Perm (e :: (a.cancelled ++ rest)) := List.perm_middle
            exact hmid.symm.append_left _
          inOrder := by
            have hin := a.inOrder
            rw [h] at hin
            rw [List.append_assoc]
            exact hin
          notEarly := fun x hx => by
            rcases List.mem_append.1 hx with hx | hx
            · exact a.notEarly x hx
            · rw [List.mem_singleton.1 hx]
              exact hd.1.trans hd.2 })
    else none

variable {a}

/-- What is taken was the first of the pending, and due. -/
theorem take_some {time : Nat} {e : Entry α} {b : Agenda α} (h : a.take time = some (e, b)) :
    a.pending = e :: b.pending ∧ e.due ≤ time ∧ time ≤ a.clock ∧ b.taken = a.taken ++ [e] ∧ b.clock = a.clock ∧
      b.added = a.added ∧ b.cancelled = a.cancelled := by
  unfold take at h
  split at h
  · cases h
  · rename_i x rest hp
    split at h
    · rename_i hd
      cases h
      exact ⟨hp, hd.1, hd.2, rfl, rfl, rfl, rfl⟩
    · cases h

/-- When nothing is taken, nothing was due. -/
theorem take_none {time : Nat} (ht : time ≤ a.clock) (h : a.take time = none) : ∀ e ∈ a.pending, time < e.due := by
  unfold take at h
  split at h
  · rename_i hp
    rw [hp]
    exact fun _ he => absurd he List.not_mem_nil
  · rename_i x rest hp
    split at h
    · cases h
    · rename_i hd
      have hx : time < x.due := Nat.lt_of_not_le fun hle => hd ⟨hle, ht⟩
      have hin := a.pending_inOrder
      rw [hp] at hin ⊢
      intro e he
      rcases List.mem_cons.1 he with rfl | he
      · exact hx
      · exact hx.trans_le ((List.pairwise_cons.1 hin).1 e he).due_le

end Agenda

end FortiRdp.Run
