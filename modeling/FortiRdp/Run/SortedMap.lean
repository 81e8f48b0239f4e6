/-
Ordered maps (`std::map`): keys are compared by their images in a linear order, and the entries are
kept in that order, one for each image. Setting a key that is there under another spelling keeps the
spelling.
-/
import Mathlib.Order.Lattice
import Mathlib.Data.List.Lex

namespace FortiRdp.Run

variable {κ ω ν : Type} [LinearOrder ω]

structure SortedMap (ν : Type) (key : κ → ω) where
  entries : List (κ × ν)
  sorted : entries.Pairwise fun e e' => key e.1 < key e'.1

namespace SortedMap

variable {key : κ → ω}

def empty : SortedMap ν key := ⟨[], List.Pairwise.nil⟩

/-- The value of a key is replaced, or the key inserted at its place. -/
def setEntry (key : κ → ω) (k : κ) (v : ν) : List (κ × ν) → List (κ × ν)
  | [] => [(k, v)]
  | e :: l =>
    if key e.1 = key k then (e.1, v) :: l
    else if key k < key e.1 then (k, v) :: e :: l
    else e :: setEntry key k v l

theorem mem_setEntry {k : κ} {v : ν} : ∀ {l : List (κ × ν)}, ∀ e ∈ setEntry key k v l,
    (key e.1 = key k ∧ e.2 = v) ∨ e ∈ l
  | [], e, he => by
    rw [setEntry, List.mem_singleton] at he
    exact .inl (by rw [he]; exact ⟨rfl, rfl⟩)
  | d :: l, e, he => by
    unfold setEntry at he
    split at he
    · rename_i heq
      rcases List.mem_cons.1 he with rfl | he
      · exact .inl ⟨heq, rfl⟩
      · exact .inr (List.mem_cons_of_mem _ he)
    · split at he
      · rcases List.mem_cons.1 he with rfl | he
        · exact .inl ⟨rfl, rfl⟩
        · exact .inr he
      · rcases List.mem_cons.1 he with rfl | he
        · exact .inr (List.mem_cons_self ..)
        · exact (mem_setEntry e he).imp id (List.mem_cons_of_mem _)

theorem sorted_setEntry {k : κ} {v : ν} : ∀ {l : List (κ × ν)}, l.Pairwise (fun e e' => key e.1 < key e'.1) →
    (setEntry key k v l).Pairwise fun e e' => key e.1 < key e'.1
  | [], _ => List.pairwise_singleton _ _
  | d :: l, h => by
    obtain ⟨hd, hl⟩ := List.pairwise_cons.1 h
    unfold setEntry
    split
    · exact List.pairwise_cons.2 ⟨hd, hl⟩
    rename_i hne
    split
    · rename_i hlt
      refine List.pairwise_cons.2 ⟨fun e he => ?_, h⟩
      rcases List.mem_cons.1 he with rfl | he
      · exact hlt
      · exact hlt.trans (hd e he)
    · rename_i hge
      refine List.pairwise_cons.2 ⟨fun e he => ?_, sorted_setEntry hl⟩
      rcases mem_setEntry e he with ⟨heq, -⟩ | he
      · rw [heq]
        exact lt_of_le_of_ne (not_lt.1 hge) hne
      · exact hd e he

def set (m : SortedMap ν key) (k : κ) (v : ν) : SortedMap ν key :=
  ⟨setEntry key k v m.entries, sorted_setEntry m.sorted⟩

def get (m : SortedMap ν key) (k : κ) : Option ν := (m.entries.find? fun e => decide (key e.1 = key k)).map Prod.snd

def erase (m : SortedMap ν key) (k : κ) : SortedMap ν key :=
  ⟨m.entries.filter fun e => decide (key e.1 ≠ key k), m.sorted.filter _⟩

/-- The values set one after the other. -/
def setAll (m : SortedMap ν key) (l : List (κ × ν)) : SortedMap ν key := l.foldl (fun m e => m.set e.1 e.2) m

@[simp] theorem get_empty (k : κ) : (empty : SortedMap ν key).get k = none := rfl

theorem find_setEntry (k k' : κ) (v : ν) : ∀ l : List (κ × ν),
    ((setEntry key k v l).find? fun e => decide (key e.1 = key k')).map Prod.snd =
      if key k' = key k then some v else (l.find? fun e => decide (key e.1 = key k')).map Prod.snd
  | [] => by
    by_cases h : key k' = key k
    · simp [setEntry, h]
    · have hn : key k ≠ key k' := fun h' => h h'.symm
      simp [setEntry, h, hn]
  | d :: l => by
    have ih := find_setEntry k k' v l
    unfold setEntry
    by_cases h : key k' = key k
    · rw [if_pos h] at ih ⊢
      split
      · rename_i heq
        simp [heq, h]
      rename_i hne
      split
      · simp [h]
      · have hd : key d.1 ≠ key k' := fun h' => hne (h'.trans h)
        rw [List.find?_cons, decide_eq_false hd]
        exact ih
    · have hn : key k ≠ key k' := fun h' => h h'.symm
      rw [if_neg h] at ih ⊢
      split
      · rename_i heq
        have hd : key d.1 ≠ key k' := fun h' => h (h'.symm.trans heq)
        simp [hd]
      split
      · rw [List.find?_cons, decide_eq_false hn]
      · rw [List.find?_cons, List.find?_cons]
        split
        · rfl
        · exact ih

/-- The last value that was set is found, under any spelling of the key. -/
theorem get_set (m : SortedMap ν key) (k k' : κ) (v : ν) :
    (m.set k v).get k' = if key k' = key k then some v else m.get k' :=
  find_setEntry k k' v m.entries

theorem get_erase (m : SortedMap ν key) (k k' : κ) : (m.erase k).get k' = if key k' = key k then none else m.get k' := by
  unfold get erase
  rw [List.find?_filter]
  split
  · rename_i h
    rw [Option.map_eq_none_iff, List.find?_eq_none]
    simp [h]
  · rename_i h
    congr 2
    funext e
    by_cases he : key e.1 = key k'
    · simp [he, h]
    · simp [he]

/-- After several values were set, the last one for the key is found. -/
theorem get_setAll (k : κ) : ∀ (l : List (κ × ν)) (m : SortedMap ν key),
    (m.setAll l).get k = ((l.reverse.find? fun e => decide (key e.1 = key k)).map Prod.snd).or (m.get k)
  | [], m => rfl
  | e :: l, m => by
    have ih := get_setAll k l (m.set e.1 e.2)
    rw [get_set] at ih
    show ((m.set e.1 e.2).setAll l).get k = _
    rw [ih, List.reverse_cons, List.find?_append]
    cases List.find? (fun e => decide (key e.1 = key k)) l.reverse with
    | some d => rfl
    | none =>
      by_cases h : key e.1 = key k
      · simp [h]
      · have hn : key k ≠ key e.1 := fun h' => h h'.symm
        simp [h, hn]

/-! ### Entries -/

/-- An entry is what is found under its key. -/
theorem get_of_mem {m : SortedMap ν key} {e : κ × ν} (h : e ∈ m.entries) : m.get e.1 = some e.2 := by
  obtain ⟨l, sorted⟩ := m
  unfold get
  induction l with
  | nil => cases h
  | cons d l ih =>
    obtain ⟨hd, hl⟩ := List.pairwise_cons.1 sorted
    rcases List.mem_cons.1 h with rfl | h
    · simp
    · have hne : key d.1 ≠ key e.1 := ne_of_lt (hd e h)
      simp only [List.find?_cons, hne, decide_false]
      exact ih hl h

theorem mem_of_get {m : SortedMap ν key} {k : κ} {v : ν} (h : m.get k = some v) :
    ∃ e ∈ m.entries, key e.1 = key k ∧ e.2 = v := by
  obtain ⟨e, he, hv⟩ := Option.map_eq_some_iff.1 h
  exact ⟨e, List.mem_of_find?_eq_some he, by simpa using List.find?_some he, hv⟩

/-- The spelling of a key is the one it was first set with. -/
theorem key_setEntry {k : κ} {v : ν} : ∀ {l : List (κ × ν)}, ∀ e ∈ setEntry key k v l, e.1 = k ∨ ∃ d ∈ l, d.1 = e.1
  | [], e, he => by
    rw [setEntry, List.mem_singleton] at he
    exact .inl (by rw [he])
  | d :: l, e, he => by
    unfold setEntry at he
    split at he
    · rcases List.mem_cons.1 he with rfl | he
      · exact .inr ⟨d, List.mem_cons_self .., rfl⟩
      · exact .inr ⟨e, List.mem_cons_of_mem _ he, rfl⟩
    · split at he
      · rcases List.mem_cons.1 he with rfl | he
        · exact .inl rfl
        · exact .inr ⟨e, he, rfl⟩
      · rcases List.mem_cons.1 he with rfl | he
        · exact .inr ⟨e, List.mem_cons_self .., rfl⟩
        · rcases key_setEntry e he with h | ⟨d', hd', h⟩
          · exact .inl h
          · exact .inr ⟨d', List.mem_cons_of_mem _ hd', h⟩

/-! ### Building -/

theorem setEntry_last {k : κ} {v : ν} : ∀ {l : List (κ × ν)}, (∀ e ∈ l, key e.1 < key k) → setEntry key k v l = l ++ [(k, v)]
  | [], _ => rfl
  | e :: l, h => by
    have he := h e (List.mem_cons_self ..)
    unfold setEntry
    rw [if_neg (ne_of_lt he), if_neg (lt_asymm he), setEntry_last fun d hd => h d (List.mem_cons_of_mem _ hd)]
    rfl

theorem entries_setAll_append {l : List (κ × ν)} : ∀ {m : SortedMap ν key}, (m.entries ++ l).Pairwise (fun e e' => key e.1 < key e'.1) →
    (m.setAll l).entries = m.entries ++ l := by
  induction l with
  | nil =>
    intro m _
    exact (List.append_nil _).symm
  | cons e l ih =>
    intro m h
    have hset : (m.set e.1 e.2).entries = m.entries ++ [e] :=
      setEntry_last fun d hd => (List.pairwise_append.1 h).2.2 d hd e (List.mem_cons_self ..)
    show ((m.set e.1 e.2).setAll l).entries = _
    rw [ih (by rw [hset, List.append_assoc]; exact h), hset, List.append_assoc]
    rfl

/-- Entries in order, set one after the other, are the entries of the map. -/
theorem entries_setAll {l : List (κ × ν)} (h : l.Pairwise fun e e' => key e.1 < key e'.1) :
    ((empty : SortedMap ν key).setAll l).entries = l := entries_setAll_append h

end SortedMap

end FortiRdp.Run
