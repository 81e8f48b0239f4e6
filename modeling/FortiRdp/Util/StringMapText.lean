/-
String maps as texts: what `add` makes of a line, item by item, and that a map is read back from what `join` writes.
-/
import FortiRdp.Util.SplitText
import FortiRdp.Util.StringMap

namespace FortiRdp.Util.StringMap

open Run

/-! ## Items -/

/-- The text in front of the first `=`. -/
def nameOf (item : Bytes) : Bytes := item.takeWhile (· != 61)

/-- The text behind the first `=`. -/
def valueOf (item : Bytes) : Bytes := (item.dropWhile (· != 61)).drop 1

/-- What an item sets: an empty one nothing, and one without `=` its name. -/
def setItem (m : StringMap) (item : Bytes) : StringMap :=
  if item = [] then m
  else if 61 ∈ item then m.set (trimmed (nameOf item)) ((valueOf item).dropWhile isBlank)
  else m.set (trimmed item) []

/-- The items of a line, up to the first NUL. -/
def itemsOf (line : Bytes) (delim : UInt8) : List Bytes := (cStr line).splitOn delim

theorem nameOf_append {name : Bytes} (h : 61 ∉ name) (value : Bytes) : nameOf (name ++ 61 :: value) = name := by
  unfold nameOf
  rw [List.takeWhile_append_of_pos, List.takeWhile_cons_of_neg (by decide), List.append_nil]
  rintro c hc
  rw [bne_iff_ne]
  rintro rfl
  exact h hc

theorem valueOf_append {name : Bytes} (h : 61 ∉ name) (value : Bytes) : valueOf (name ++ 61 :: value) = value := by
  unfold valueOf
  rw [List.dropWhile_append_of_pos, List.dropWhile_cons_of_neg (by decide), List.drop_one, List.tail_cons]
  rintro c hc
  rw [bne_iff_ne]
  rintro rfl
  exact h hc

/-- What the code does with an item. -/
def addItem (m : StringMap) (item : Bytes) : Except Exn StringMap :=
  if item = [] then .ok m
  else match find 61 item with
    | some pos => do
      let name ← trim (item.take pos)
      let value ← trimleft (item.drop (pos + 1))
      pure (m.set name value)
    | none => do
      let name ← trim item
      pure (m.set name [])

theorem add_eq (m : StringMap) (line : Bytes) (delim : UInt8) : add m line delim = (itemsOf line delim).foldlM addItem m := by
  unfold add itemsOf
  rw [split_eq]
  rfl

/-- An item with a `=` and only blanks behind it, at least one, throws; every other item sets what it says. -/
theorem addItem_eq (m : StringMap) (item : Bytes) :
    addItem m item = if 61 ∈ item ∧ onlyBlanks (valueOf item) = true then .error .outOfRange else .ok (setItem m item) := by
  unfold addItem setItem
  by_cases hempty : item = []
  · subst hempty
    rw [if_pos rfl, if_pos rfl, if_neg (fun h => List.not_mem_nil h.1)]
  rw [if_neg hempty, if_neg hempty]
  by_cases heq : 61 ∈ item
  · obtain ⟨name, value, rfl, hname⟩ := List.eq_append_cons_of_mem heq
    rw [find_append hname, nameOf_append hname, valueOf_append hname, if_pos heq]
    simp only [List.take_left, List.drop_append, List.drop_eq_nil_of_le (Nat.le_succ name.length), Nat.add_sub_cancel_left,
      List.drop_succ_cons, List.drop_zero, List.nil_append]
    rw [set_trimmed]
    exact if_congr (and_iff_right heq).symm rfl rfl
  · have hnone : find 61 item = none := List.findIdx?_eq_none_iff.2 fun c hc => by
      rw [beq_eq_false_iff_ne]
      rintro rfl
      exact heq hc
    rw [hnone, if_neg heq, if_neg (fun h => heq h.1)]
    simp only [trim_eq]
    rfl

/-- A value that cutting its blanks does not throw on. -/
def PlainValue (value : Bytes) : Prop := value = [] ∨ ∃ c ∈ value, isBlank c = false

theorem plainValue_iff (value : Bytes) : PlainValue value ↔ onlyBlanks value = false := by
  unfold PlainValue onlyBlanks
  rw [decide_eq_false_iff_not, not_and_or, not_not, List.dropWhile_eq_nil_iff]
  simp

theorem foldlM_addItem_iff : ∀ (items : List Bytes) (m : StringMap),
    items.foldlM addItem m = .ok (items.foldl setItem m) ↔ ∀ item ∈ items, 61 ∈ item → PlainValue (valueOf item)
  | [], _ => iff_of_true rfl nofun
  | item :: items, m => by
    rw [List.foldlM_cons, List.foldl_cons, addItem_eq, List.forall_mem_cons]
    by_cases hbad : 61 ∈ item ∧ onlyBlanks (valueOf item) = true
    · rw [if_pos hbad]
      refine iff_of_false nofun fun h => ?_
      have hplain := (plainValue_iff _).1 (h.1 hbad.1)
      rw [hbad.2] at hplain
      cases hplain
    · rw [if_neg hbad]
      have hgood : 61 ∈ item → PlainValue (valueOf item) := by
        intro heq
        rw [plainValue_iff, ← Bool.not_eq_true]
        exact fun hblank => hbad ⟨heq, hblank⟩
      exact (foldlM_addItem_iff items (setItem m item)).trans (and_iff_right hgood).symm

/-- `add` sets what the items say, one after the other, exactly when every value is empty or has more than blanks. -/
theorem add_fold_iff (m : StringMap) (line : Bytes) (delim : UInt8) :
    add m line delim = .ok ((itemsOf line delim).foldl setItem m) ↔
      ∀ item ∈ itemsOf line delim, 61 ∈ item → PlainValue (valueOf item) := by
  rw [add_eq]
  exact foldlM_addItem_iff _ _

/-- A parameter with a blank for its value throws. -/
theorem add_blankValue : ¬ add .empty (ascii "ret=1&redir= ") 38 =
    .ok ((itemsOf (ascii "ret=1&redir= ") 38).foldl setItem .empty) := by
  intro h
  have hthrown : (add .empty (ascii "ret=1&redir= ") 38).toOption.isNone = true := by decide
  rw [h] at hthrown
  cases hthrown

/-! ## Reading a map back -/

/-- What is set behind all the others comes last. -/
theorem setEntry_last {k : Bytes} {v : Bytes} : ∀ {l : List (Bytes × Bytes)}, (∀ e ∈ l, foldName e.1 < foldName k) →
    SortedMap.setEntry foldName k v l = l ++ [(k, v)]
  | [], _ => rfl
  | e :: l, h => by
    have he := h e (List.mem_cons_self ..)
    rw [SortedMap.setEntry, if_neg (ne_of_lt he), if_neg (not_lt_of_gt he),
      setEntry_last fun d hd => h d (List.mem_cons_of_mem _ hd)]
    rfl

/-- The entries of a map, set in their order, make the map. -/
theorem setAll_entries : ∀ (l : List (Bytes × Bytes)) (m m' : StringMap), m'.entries = m.entries ++ l → m.setAll l = m'
  | [], m, m', h => by
    obtain ⟨entries, sorted⟩ := m
    obtain ⟨entries', sorted'⟩ := m'
    obtain rfl : entries' = entries := h.trans (List.append_nil _)
    rfl
  | e :: l, m, m', h => by
    have hsorted := m'.sorted
    rw [h, List.pairwise_append] at hsorted
    refine setAll_entries l (m.set e.1 e.2) m' ?_
    show _ = SortedMap.setEntry foldName e.1 e.2 m.entries ++ l
    rw [h, setEntry_last fun d hd => hsorted.2.2 d hd e (List.mem_cons_self ..), List.append_assoc]
    rfl

/-- The map can be written with the delimiter between its items. -/
structure Writable (m : StringMap) (delim : UInt8) : Prop where
  name : ∀ e ∈ m.entries, e.1 ≠ [] ∧ Trimmed e.1 ∧ ∀ c ∈ [61, delim, 0], c ∉ e.1
  value : ∀ e ∈ m.entries, (∀ c ∈ e.2.head?, isBlank c = false) ∧ ∀ c ∈ [delim, 0], c ∉ e.2

/-- An entry as it is written. -/
def itemText (e : Bytes × Bytes) : Bytes := e.1 ++ 61 :: e.2

theorem join_intercalate (m : StringMap) (delim : UInt8) : m.join [delim] = [delim].intercalate (m.entries.map itemText) := by
  have hbuffer : ∀ l : List (Bytes × Bytes), l ≠ [] → (l.flatMap fun e => e.1 ++ [61] ++ e.2 ++ [delim]) =
      [delim].intercalate (l.map itemText) ++ [delim] := by
    intro l hl
    induction l with
    | nil => exact absurd rfl hl
    | cons e l ih =>
      cases l with
      | nil => simp [itemText]
      | cons e' l =>
        rw [List.flatMap_cons, ih (List.cons_ne_nil _ _)]
        simp [itemText]
  unfold join
  by_cases hempty : m.entries = []
  · rw [hempty]
    rfl
  · simp only [hbuffer _ hempty, List.length_append, List.length_singleton, Nat.add_sub_cancel, List.take_left]

/-- A joined text has the delimiter and the characters of its items. -/
theorem mem_joined {delim c : UInt8} : ∀ {items : List Bytes}, c ∈ [delim].intercalate items →
    c = delim ∨ ∃ item ∈ items, c ∈ item
  | [], h => absurd h List.not_mem_nil
  | [item], h => by
    rw [List.intercalate_singleton] at h
    exact .inr ⟨item, List.mem_singleton_self _, h⟩
  | item :: item' :: items, h => by
    rw [List.intercalate_cons_cons, List.mem_append, List.mem_append, List.mem_singleton] at h
    rcases h with (h | h) | h
    · exact .inr ⟨item, List.mem_cons_self .., h⟩
    · exact .inl h
    · obtain hd | ⟨d, hd, hc⟩ := mem_joined h
      · exact .inl hd
      · exact .inr ⟨d, List.mem_cons_of_mem _ hd, hc⟩

section Writable

variable {m : StringMap} {delim : UInt8}

theorem leading_dropWhile {v : Bytes} (h : ∀ c ∈ v.head?, isBlank c = false) : v.dropWhile isBlank = v := by
  cases v with
  | nil => rfl
  | cons c v => rw [List.dropWhile_cons_of_neg (by rw [h c rfl]; exact Bool.false_ne_true)]

theorem setItem_itemText (h : m.Writable delim) {e : Bytes × Bytes} (he : e ∈ m.entries) (m' : StringMap) :
    setItem m' (itemText e) = m'.set e.1 e.2 := by
  obtain ⟨-, htrimmed, hplain⟩ := h.name e he
  have hname := hplain 61 (by simp)
  have hvalue := leading_dropWhile (h.value e he).1
  have hne : itemText e ≠ [] := List.append_ne_nil_of_right_ne_nil _ (List.cons_ne_nil _ _)
  have hmem : 61 ∈ itemText e := List.mem_append_right _ (List.mem_cons_self ..)
  unfold setItem
  rw [if_neg hne, if_pos hmem]
  unfold itemText
  rw [nameOf_append hname, valueOf_append hname, trimmed, htrimmed.right, htrimmed.left, hvalue]

theorem itemsOf_join (hdelim : delim ≠ 61 ∧ delim ≠ 0) (h : m.Writable delim) (hne : m.entries ≠ []) :
    itemsOf (m.join [delim]) delim = m.entries.map itemText := by
  have hfree : ∀ c, c ≠ 61 → c ∈ [delim, 0] → ∀ item ∈ m.entries.map itemText, c ∉ item := by
    rintro c hc hmem item hitem
    obtain ⟨e, he, rfl⟩ := List.mem_map.1 hitem
    have hname := (h.name e he).2.2 c (List.mem_cons_of_mem _ hmem)
    have hvalue := (h.value e he).2 c hmem
    unfold itemText
    rw [List.mem_append, List.mem_cons]
    rintro (hin | hin | hin)
    · exact hname hin
    · exact hc hin
    · exact hvalue hin
  have hnul : 0 ∉ m.join [delim] := by
    rw [join_intercalate]
    intro hin
    obtain hd | ⟨item, hitem, hc⟩ := mem_joined hin
    · exact hdelim.2 hd.symm
    · exact hfree 0 (by decide) (by simp) item hitem hc
  unfold itemsOf
  rw [cStr_eq hnul, join_intercalate, List.splitOn_intercalate delim (hfree delim hdelim.1 (by simp)) (by simpa using hne)]

/-- The value of a written entry is empty or begins with a character that is not blank. -/
theorem plainValue_itemText (h : m.Writable delim) : ∀ item ∈ m.entries.map itemText, 61 ∈ item → PlainValue (valueOf item) := by
  rintro item hitem -
  obtain ⟨e, he, rfl⟩ := List.mem_map.1 hitem
  unfold itemText
  rw [valueOf_append ((h.name e he).2.2 61 (by simp))]
  have hhead := (h.value e he).1
  cases hv : e.2 with
  | nil => exact .inl rfl
  | cons c v =>
    rw [hv] at hhead
    exact .inr ⟨c, List.mem_cons_self .., hhead c rfl⟩

theorem foldl_setItem_itemText (h : m.Writable delim) : ∀ (l : List (Bytes × Bytes)) (m' : StringMap), (∀ e ∈ l, e ∈ m.entries) →
    (l.map itemText).foldl setItem m' = m'.setAll l
  | [], _, _ => rfl
  | e :: l, m', hl => by
    obtain ⟨he, hl⟩ := List.forall_mem_cons.1 hl
    rw [List.map_cons, List.foldl_cons, setItem_itemText h he, foldl_setItem_itemText h l _ hl]
    rfl

/-- A map is read back from what it is written as. -/
theorem ofLine_join (hdelim : delim ≠ 61 ∧ delim ≠ 0) (h : m.Writable delim) : ofLine (m.join [delim]) delim = .ok m := by
  unfold ofLine
  rw [add_eq]
  by_cases hempty : m.entries = []
  · have hjoin : m.join [delim] = [] := by rw [join_intercalate, hempty]; rfl
    have hm : m = .empty := (setAll_entries [] .empty m hempty).symm
    rw [hjoin, hm]
    rfl
  · rw [itemsOf_join hdelim h hempty, (foldlM_addItem_iff _ _).2 (plainValue_itemText h),
      foldl_setItem_itemText h m.entries _ fun _ he => he, setAll_entries m.entries .empty m rfl]

/-- Three entries, one of them without a value and one with a `=` in it. -/
theorem ofLine_join_answer :
    ofLine (join (((SortedMap.empty.set (ascii "ret") (ascii "1")).set (ascii "Redir") (ascii "/a=b")).set (ascii "tok") []) [38]) 38 =
      .ok (((SortedMap.empty.set (ascii "ret") (ascii "1")).set (ascii "Redir") (ascii "/a=b")).set (ascii "tok") []) := by
  have hentries : (((SortedMap.empty.set (ascii "ret") (ascii "1")).set (ascii "Redir") (ascii "/a=b")).set (ascii "tok") [] :
      StringMap).entries = [(ascii "Redir", ascii "/a=b"), (ascii "ret", ascii "1"), (ascii "tok", [])] := by decide
  refine ofLine_join (by decide) ⟨?_, ?_⟩
  · rw [hentries]
    simp only [List.forall_mem_cons, List.not_mem_nil, false_imp_iff, implies_true, and_true]
    exact ⟨⟨by decide, ⟨by decide, by decide⟩, by decide⟩, ⟨by decide, ⟨by decide, by decide⟩, by decide⟩,
      ⟨by decide, ⟨by decide, by decide⟩, by decide⟩⟩
  · rw [hentries]
    simp only [List.forall_mem_cons, List.not_mem_nil, false_imp_iff, implies_true, and_true]
    refine ⟨⟨?_, by decide⟩, ⟨?_, by decide⟩, ⟨nofun, by decide⟩⟩
    · rintro _ ⟨⟩
      rfl
    · rintro _ ⟨⟩
      rfl

end Writable

end FortiRdp.Util.StringMap
