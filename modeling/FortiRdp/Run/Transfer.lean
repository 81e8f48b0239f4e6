/-
Transfers in pieces: calls that are each made for all that is left of a region of a memory, and move a part of it,
perhaps nothing.
-/
import Mathlib.Algebra.Group.Nat.Defs
import Mathlib.Data.List.Basic

namespace FortiRdp.Run

variable {α ρ : Type*}

/-! ## Memory -/

/-- The memory with a list at a place. -/
def store (mem : Nat → α) (p : Nat) (data : List α) : Nat → α := fun a => if p ≤ a then data[a - p]?.getD (mem a) else mem a

/-- The list of some length at a place. -/
def load (mem : Nat → α) (p n : Nat) : List α := (List.range n).map fun i => mem (p + i)

@[simp] theorem store_nil (mem : Nat → α) (p : Nat) : store mem p [] = mem := by
  funext a
  unfold store
  split <;> rfl

theorem store_append (mem : Nat → α) (p : Nat) (data data' : List α) :
    store (store mem p data) (p + data.length) data' = store mem p (data ++ data') := by
  funext a
  unfold store
  by_cases hp : p ≤ a
  · by_cases hlen : a - p < data.length
    · rw [if_neg (by omega), if_pos hp, if_pos hp, List.getElem?_append_left hlen]
    · rw [if_pos (by omega), if_pos hp, if_pos hp, List.getElem?_append_right (by omega), Nat.sub_sub,
        List.getElem?_eq_none (Nat.not_lt.1 hlen), Option.getD_none]
  · rw [if_neg (by omega), if_neg hp, if_neg hp]

/-- Nothing changes outside of the place. -/
theorem store_outside {mem : Nat → α} {p a : Nat} {data : List α} (h : a < p ∨ p + data.length ≤ a) : store mem p data a = mem a := by
  unfold store
  split
  · rw [List.getElem?_eq_none (by omega), Option.getD_none]
  · rfl

@[simp] theorem length_load (mem : Nat → α) (p n : Nat) : (load mem p n).length = n := by
  rw [load, List.length_map, List.length_range]

theorem load_store (mem : Nat → α) (p : Nat) (data : List α) : load (store mem p data) p data.length = data := by
  apply List.ext_getElem
  · exact length_load _ _ _
  intro i _ hi
  simp only [load, List.getElem_map, List.getElem_range, store]
  rw [if_pos (Nat.le_add_right p i), Nat.add_sub_cancel_left, List.getElem?_eq_getElem hi, Option.getD_some]

theorem load_append (mem : Nat → α) (p m n : Nat) : load mem p m ++ load mem (p + m) n = load mem p (m + n) := by
  simp only [load, List.range_add, List.map_append, List.map_map]
  congr 2
  funext i
  simp only [Function.comp_apply]
  rw [Nat.add_assoc]

/-! ## Calls -/

/-- A call for a region of the memory, its answer, and what it moved. -/
structure PieceCall (ρ α : Type*) where
  buf : Nat
  len : Nat
  answer : ρ
  moved : List α

/-- What the calls have moved, one after the other. -/
def movedBy (calls : List (PieceCall ρ α)) : List α := calls.flatMap PieceCall.moved

@[simp] theorem movedBy_nil : movedBy ([] : List (PieceCall ρ α)) = [] := rfl

theorem movedBy_append (calls : List (PieceCall ρ α)) (c : PieceCall ρ α) : movedBy (calls ++ [c]) = movedBy calls ++ c.moved := by
  rw [movedBy, List.flatMap_append, List.flatMap_singleton]
  rfl

/-- Every call is made behind what the calls before it have moved, for all that is left of the region, and there is
something left; and what has been moved lies in the region. -/
structure Paced (buf len : Nat) (calls : List (PieceCall ρ α)) : Prop where
  args : ∀ pre c post, calls = pre ++ c :: post →
    c.buf = buf + (movedBy pre).length ∧ (movedBy pre).length + c.len = len ∧ 0 < c.len
  fits : (movedBy calls).length ≤ len

theorem Paced.nil (buf len : Nat) : Paced buf len ([] : List (PieceCall ρ α)) where
  args := by
    intro pre c post h
    exact absurd h.symm (List.append_ne_nil_of_right_ne_nil _ (List.cons_ne_nil _ _))
  fits := Nat.zero_le _

theorem Paced.call {buf len : Nat} {calls : List (PieceCall ρ α)} (h : Paced buf len calls) {c : PieceCall ρ α}
    (hbuf : c.buf = buf + (movedBy calls).length) (hlen : (movedBy calls).length + c.len = len) (hpos : 0 < c.len)
    (hmoved : c.moved.length ≤ c.len) : Paced buf len (calls ++ [c]) where
  args := by
    intro pre c' post heq
    rcases List.eq_nil_or_concat post with rfl | ⟨post, d, rfl⟩
    · obtain ⟨rfl, hc⟩ := List.append_inj' heq rfl
      cases hc
      exact ⟨hbuf, hlen, hpos⟩
    · rw [List.concat_eq_append, ← List.cons_append, ← List.append_assoc] at heq
      exact h.args pre c' post (List.append_inj' heq rfl).1
  fits := by
    rw [movedBy_append, List.length_append]
    omega

/-- What a transfer has done when it has made its calls: `keep` says that it goes on, `ok` and `failed` tell how it has
ended. -/
structure Transferred (goesOn isOk : ρ → Prop) (buf len total : Nat) (keep ok failed : Prop) (calls : List (PieceCall ρ α)) : Prop where
  paced : Paced buf len calls
  unmoved : ∀ c ∈ calls, ¬ isOk c.answer → c.moved = []
  count : total = (movedBy calls).length
  complete : (¬ keep ∧ ok) ↔ (movedBy calls).length = len
  incomplete : ¬ keep → ¬ ok → failed
  goes : keep ↔ (movedBy calls).length < len ∧ ∀ c ∈ calls, goesOn c.answer

/-- The variables of a transfer: the pointer, what is left and the total, and in which of three ways it stands. -/
structure Transferring (goesOn isOk : ρ → Prop) (buf len p left total : Nat) (keep ok failed : Prop)
    (calls : List (PieceCall ρ α)) : Prop where
  paced : Paced buf len calls
  unmoved : ∀ c ∈ calls, ¬ isOk c.answer → c.moved = []
  pointer : p = buf + (movedBy calls).length
  rest : (movedBy calls).length + left = len
  count : total = (movedBy calls).length
  phase : (keep ∧ 0 < left ∧ ∀ c ∈ calls, goesOn c.answer) ∨ (¬ keep ∧ left = 0 ∧ ok ∧ ∀ c ∈ calls, goesOn c.answer) ∨
    (¬ keep ∧ 0 < left ∧ ¬ ok ∧ failed ∧ ∃ c ∈ calls, ¬ goesOn c.answer)

section

variable {goesOn isOk : ρ → Prop} {buf len p left total : Nat} {keep ok failed keep' ok' failed' : Prop}
  {calls : List (PieceCall ρ α)} {answer : ρ} {moved : List α}

theorem Transferring.transferred (h : Transferring goesOn isOk buf len p left total keep ok failed calls) :
    Transferred goesOn isOk buf len total keep ok failed calls where
  paced := h.paced
  unmoved := h.unmoved
  count := h.count
  complete := by
    have hleft := h.rest
    rcases h.phase with ⟨hkeep, hpos, -⟩ | ⟨hkeep, hzero, hok, -⟩ | ⟨-, hpos, hok, -⟩
    · exact iff_of_false (fun h => h.1 hkeep) (by omega)
    · exact iff_of_true ⟨hkeep, hok⟩ (by omega)
    · exact iff_of_false (fun h => hok h.2) (by omega)
  incomplete := by
    intro hkeep hok
    rcases h.phase with ⟨hkeep', -⟩ | ⟨-, -, hok', -⟩ | ⟨-, -, -, hfailed, -⟩
    · exact absurd hkeep' hkeep
    · exact absurd hok' hok
    · exact hfailed
  goes := by
    have hleft := h.rest
    rcases h.phase with ⟨hkeep, hpos, hall⟩ | ⟨hkeep, hzero, -⟩ | ⟨hkeep, -, -, -, c, hc, hend⟩
    · exact iff_of_true hkeep ⟨by omega, hall⟩
    · exact iff_of_false hkeep fun h => by omega
    · exact iff_of_false hkeep fun h => hend (h.2 c hc)

theorem Transferring.init (buf len : Nat) (hkeep : keep ↔ 0 < len) (hok : ok) :
    Transferring goesOn isOk buf len buf len 0 keep ok failed ([] : List (PieceCall ρ α)) where
  paced := .nil buf len
  unmoved := nofun
  pointer := rfl
  rest := Nat.zero_add len
  count := rfl
  phase := by
    rcases Nat.eq_zero_or_pos len with hzero | hpos
    · exact .inr (.inl ⟨fun h => by have := hkeep.1 h; omega, hzero, hok, nofun⟩)
    · exact .inl ⟨hkeep.2 hpos, hpos, nofun⟩

/-- A transfer that goes on has something left, and no call has ended it. -/
theorem Transferring.going (h : Transferring goesOn isOk buf len p left total keep ok failed calls) (hkeep : keep) :
    0 < left ∧ ∀ c ∈ calls, goesOn c.answer := by
  rcases h.phase with ⟨-, hgoing⟩ | ⟨hend, -⟩ | ⟨hend, -⟩
  · exact hgoing
  · exact absurd hkeep hend
  · exact absurd hkeep hend

theorem Transferring.called (h : Transferring goesOn isOk buf len p left total keep ok failed calls) (hkeep : keep) (answer : ρ)
    {moved : List α} (hmoved : moved.length ≤ left) (hunmoved : ¬ isOk answer → moved = []) :
    Paced buf len (calls ++ [⟨p, left, answer, moved⟩]) ∧
      ∀ c ∈ calls ++ [⟨p, left, answer, moved⟩], ¬ isOk c.answer → c.moved = [] := by
  refine ⟨h.paced.call h.pointer h.rest (h.going hkeep).1 hmoved, ?_⟩
  rw [List.forall_mem_append]
  refine ⟨h.unmoved, ?_⟩
  rintro c hc
  obtain rfl := List.mem_singleton.1 hc
  exact hunmoved

/-- A call that moves something moves the pointer, and takes it from what is left. -/
theorem Transferring.advance (h : Transferring goesOn isOk buf len p left total keep ok failed calls) (hkeep : keep)
    (hlen : len < 2 ^ 64) {n : Nat} (hn : moved.length = n) (hfit : n ≤ left) (hisOk : isOk answer) (hgoes : goesOn answer)
    (hkeep' : keep' ↔ 0 < (left + 2 ^ 64 - n) % 2 ^ 64) (hok : ok') :
    Transferring goesOn isOk buf len (p + n) ((left + 2 ^ 64 - n) % 2 ^ 64) ((total + n) % 2 ^ 64) keep' ok' failed'
      (calls ++ [⟨p, left, answer, moved⟩]) := by
  have hrest := h.rest
  have hcount := h.count
  have hcalls := h.called hkeep answer (hn ▸ hfit) fun hno => absurd hisOk hno
  have hall : ∀ c ∈ calls ++ [⟨p, left, answer, moved⟩], goesOn c.answer := by
    rw [List.forall_mem_append]
    exact ⟨(h.going hkeep).2, fun c hc => by rw [List.mem_singleton.1 hc]; exact hgoes⟩
  have hmod : (left + 2 ^ 64 - n) % 2 ^ 64 = left - n := by
    rw [show left + 2 ^ 64 - n = left - n + 2 ^ 64 by omega, Nat.add_mod_right]
    exact Nat.mod_eq_of_lt (by omega)
  have hmoved : (movedBy (calls ++ [⟨p, left, answer, moved⟩])).length = (movedBy calls).length + n := by
    rw [movedBy_append, List.length_append, hn]
  rw [hmod] at hkeep' ⊢
  rw [Nat.mod_eq_of_lt (show total + n < 2 ^ 64 by omega)]
  constructor
  · exact hcalls.1
  · exact hcalls.2
  · rw [hmoved, h.pointer, Nat.add_assoc]
  · rw [hmoved]
    omega
  · rw [hmoved, hcount]
  · rcases Nat.eq_zero_or_pos (left - n) with hzero | hpos
    · exact .inr (.inl ⟨fun hk => by have := hkeep'.1 hk; omega, hzero, hok, hall⟩)
    · exact .inl ⟨hkeep'.2 hpos, hpos, hall⟩

/-- A call that moves nothing changes no variable; whether it ends the transfer is told by `goesOn`. -/
theorem Transferring.stay (h : Transferring goesOn isOk buf len p left total keep ok failed calls) (hkeep : keep)
    (hends : (keep' ∧ goesOn answer) ∨ (¬ keep' ∧ ¬ goesOn answer ∧ ¬ ok' ∧ failed')) :
    Transferring goesOn isOk buf len p left total keep' ok' failed' (calls ++ [⟨p, left, answer, []⟩]) := by
  have hcalls := h.called hkeep answer (show ([] : List α).length ≤ left from Nat.zero_le left) fun _ => rfl
  obtain ⟨hpos, hall⟩ := h.going hkeep
  constructor
  · exact hcalls.1
  · exact hcalls.2
  · rw [movedBy_append, List.append_nil, h.pointer]
  · rw [movedBy_append, List.append_nil, h.rest]
  · rw [movedBy_append, List.append_nil, h.count]
  · rcases hends with ⟨hkeep', hgoes⟩ | ⟨hkeep', hgoes, hok, hfailed⟩
    · refine .inl ⟨hkeep', hpos, ?_⟩
      rw [List.forall_mem_append]
      exact ⟨hall, fun c hc => by rw [List.mem_singleton.1 hc]; exact hgoes⟩
    · exact .inr (.inr ⟨hkeep', hpos, hok, hfailed, _, List.mem_append_right _ (List.mem_singleton_self _), hgoes⟩)

end

end FortiRdp.Run
