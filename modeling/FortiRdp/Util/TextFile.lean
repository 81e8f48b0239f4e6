/-
Files in text mode (`std::ofstream`, `std::ifstream`): the end of a line is written as CR LF and read back as LF, and a
Ctrl-Z ends the file. `std::getline` gives the lines.
-/
import FortiRdp.Util.Str

namespace FortiRdp.Util

/-- What a stream in text mode writes. -/
def textOut (s : Bytes) : Bytes := s.flatMap fun c => if c = 10 then [13, 10] else [c]

/-- What a stream in text mode reads. -/
def textIn : Bytes → Bytes
  | [] => []
  | c :: s => if c = 26 then [] else if c = 13 ∧ s.head? = some 10 then textIn s else c :: textIn s

/-- The lines that `std::getline` gives one after the other; the last one may be without its LF. -/
def getlines (s : Bytes) : List Bytes :=
  go [] s
where
  go (line : Bytes) : Bytes → List Bytes
    | [] => if line = [] then [] else [line]
    | c :: s => if c = 10 then line :: go [] s else go (line ++ [c]) s

theorem textOut_cons (c : UInt8) (s : Bytes) : textOut (c :: s) = (if c = 10 then [13, 10] else [c]) ++ textOut s :=
  List.flatMap_cons

/-- No LF is written without its CR. -/
theorem head?_textOut (s : Bytes) : (textOut s).head? ≠ some 10 := by
  cases s with
  | nil => nofun
  | cons c s =>
    rw [textOut_cons]
    split
    · nofun
    · rename_i hc
      exact fun h => hc (Option.some.inj h)

/-- What is written is read back up to the first Ctrl-Z. -/
theorem textIn_textOut (s : Bytes) : textIn (textOut s) = s.takeWhile (· ≠ 26) := by
  induction s with
  | nil => rfl
  | cons c s ih =>
    rw [textOut_cons]
    by_cases hlf : c = 10
    · subst hlf
      rw [if_pos rfl, List.cons_append, textIn, if_neg (by decide), if_pos ⟨rfl, rfl⟩, List.singleton_append, textIn,
        if_neg (by decide), if_neg (fun h => absurd h.1 (by decide)), ih, List.takeWhile_cons_of_pos (by decide)]
    · rw [if_neg hlf, List.singleton_append, textIn]
      by_cases hend : c = 26
      · rw [if_pos hend, List.takeWhile_cons_of_neg (by simpa using hend)]
      · rw [if_neg hend, if_neg (fun h => head?_textOut s h.2), ih, List.takeWhile_cons_of_pos (by simpa using hend)]

/-- There is no Ctrl-Z in what is read. -/
theorem ctrlZ_textIn (s : Bytes) : 26 ∉ textIn s := by
  induction s with
  | nil => exact List.not_mem_nil
  | cons c s ih =>
    rw [textIn]
    split
    · exact List.not_mem_nil
    rename_i hend
    split
    · exact ih
    · rw [List.mem_cons, not_or]
      exact ⟨Ne.symm hend, ih⟩

theorem getlines_go {line : Bytes} (h : 10 ∉ line) (before s : Bytes) :
    getlines.go before (line ++ 10 :: s) = (before ++ line) :: getlines s := by
  induction line generalizing before with
  | nil =>
    rw [List.nil_append, getlines.go, if_pos rfl, List.append_nil]
    rfl
  | cons c line ih =>
    obtain ⟨hc, hline⟩ := not_or.1 (mt List.mem_cons.2 h)
    rw [List.cons_append, getlines.go, if_neg (Ne.symm hc), ih hline, List.append_assoc]
    rfl

/-- A line in front of a text. -/
theorem getlines_cons {line : Bytes} (h : 10 ∉ line) (s : Bytes) : getlines (line ++ 10 :: s) = line :: getlines s :=
  getlines_go h [] s

/-- The characters of the lines are those of the text. -/
theorem mem_getlines {c : UInt8} {line s : Bytes} (hline : line ∈ getlines s) (hc : c ∈ line) : c ∈ s := by
  have hgo : ∀ (s before : Bytes), line ∈ getlines.go before s → c ∈ before ++ s := by
    intro s
    induction s with
    | nil =>
      intro before hl
      rw [getlines.go] at hl
      split at hl
      · cases hl
      · obtain rfl := List.mem_singleton.1 hl
        exact List.mem_append_left _ hc
    | cons d s ih =>
      intro before hl
      rw [getlines.go] at hl
      split at hl
      · rcases List.mem_cons.1 hl with rfl | hl
        · exact List.mem_append_left _ hc
        · exact List.mem_append_right _ (List.mem_cons_of_mem _ (ih [] hl))
      · have hmem := ih _ hl
        rwa [List.append_assoc] at hmem
  exact hgo s [] hline

end FortiRdp.Util
