/-
Splitting at a delimiter (`str::split`), of a plain text and of one that is hidden. The one walks to the NUL and so
past the last delimiter; the other stops with the index behind it, without a last empty part.
-/
import FortiRdp.Util.ObfStringView

namespace FortiRdp.Util

/-- The parts are those between the delimiters, in front of the first NUL. -/
theorem split_eq (delim : UInt8) (s : Bytes) : split delim s = (cStr s).splitOn delim := by
  have hgo : ∀ (s part : Bytes), split.go delim part s = ((cStr s).splitOn delim).modifyHead (part ++ ·) := by
    intro s
    induction s with
    | nil =>
      intro part
      rw [split.go, cStr, List.takeWhile_nil, List.splitOn_nil, List.modifyHead_cons, List.append_nil]
    | cons c s ih =>
      intro part
      by_cases hnul : c = 0
      · subst hnul
        rw [split.go, if_neg (fun h => h.2 rfl), if_pos rfl, cStr, List.takeWhile_cons_of_neg (by decide), List.splitOn_nil,
          List.modifyHead_cons, List.append_nil]
      have hcons : cStr (c :: s) = c :: cStr s := List.takeWhile_cons_of_pos (by simpa using hnul)
      rw [split.go, hcons, List.splitOn_cons_eq_if_modifyHead]
      by_cases hdelim : c = delim
      · rw [if_neg (fun h => h.1 hdelim), if_neg hnul, if_pos (beq_iff_eq.2 hdelim), ih, List.modifyHead_cons, List.append_nil]
        congr 1
        exact congrFun List.modifyHead_id _
      · rw [if_pos ⟨hdelim, hnul⟩, if_neg (by simpa using hdelim), ih, List.modifyHead_modifyHead]
        congr 1
        funext rest
        exact List.append_assoc part [c] rest
  rw [split, hgo]
  exact congrFun List.modifyHead_id _

/-- Joined by the delimiter, the parts are the text. -/
theorem intercalate_split {s : Bytes} (h : 0 ∉ s) (delim : UInt8) : [delim].intercalate (split delim s) = s := by
  rw [split_eq, cStr_eq h, List.intercalate_splitOn]

/-- A part has no delimiter and no NUL. -/
theorem mem_split {delim : UInt8} {s part : Bytes} (h : part ∈ split delim s) :
    delim ∉ part ∧ 0 ∉ part ∧ ∀ c ∈ part, c ∈ s := by
  have hgo : ∀ (s before : Bytes), delim ∉ before → 0 ∉ before → part ∈ split.go delim before s →
      delim ∉ part ∧ 0 ∉ part ∧ ∀ c ∈ part, c ∈ before ++ s := by
    intro s
    induction s with
    | nil =>
      intro before hdelim hnul hpart
      rw [split.go] at hpart
      obtain rfl := List.mem_singleton.1 hpart
      exact ⟨hdelim, hnul, fun c hc => List.mem_append_left _ hc⟩
    | cons d s ih =>
      intro before hdelim hnul hpart
      rw [split.go] at hpart
      split at hpart
      · rename_i hd
        have hback : ∀ c : UInt8, c ≠ d → c ∉ before → c ∉ before ++ [d] := by
          intro c hne hbefore hmem
          rcases List.mem_append.1 hmem with hmem | hmem
          · exact hbefore hmem
          · exact hne (List.mem_singleton.1 hmem)
        obtain ⟨hdelim', hnul', hmem⟩ := ih _ (hback _ (Ne.symm hd.1) hdelim) (hback _ (Ne.symm hd.2) hnul) hpart
        refine ⟨hdelim', hnul', fun c hc => ?_⟩
        have hc' := hmem c hc
        rwa [List.append_assoc] at hc'
      split at hpart
      · obtain rfl := List.mem_singleton.1 hpart
        exact ⟨hdelim, hnul, fun c hc => List.mem_append_left _ hc⟩
      · rcases List.mem_cons.1 hpart with rfl | hpart
        · exact ⟨hdelim, hnul, fun c hc => List.mem_append_left _ hc⟩
        · obtain ⟨hdelim', hnul', hmem⟩ := ih [] List.not_mem_nil List.not_mem_nil hpart
          exact ⟨hdelim', hnul', fun c hc => List.mem_append_right _ (List.mem_cons_of_mem _ (hmem c hc))⟩
  exact hgo s [] List.not_mem_nil List.not_mem_nil h

/-- Where there are three parts, two delimiters stand behind the first ones. -/
theorem eq_of_split {delim : UInt8} {s first second third : Bytes} {parts : List Bytes}
    (h : split delim s = first :: second :: third :: parts) : ∃ rest, s = first ++ delim :: (second ++ delim :: rest) := by
  have hjoin : [delim].intercalate ((cStr s).splitOn delim) = cStr s := List.intercalate_splitOn delim
  rw [← split_eq, h] at hjoin
  have hrest : cStr s ++ s.dropWhile (· != 0) = s := List.takeWhile_append_dropWhile
  rw [← hjoin] at hrest
  refine ⟨[delim].intercalate (third :: parts) ++ s.dropWhile (· != 0), ?_⟩
  simpa [List.intercalate, List.append_assoc] using hrest.symm

/-- `split` into a vector: the number of added parts, and the vector with them. -/
def splitInto (s : Bytes) (delim : UInt8) (parts : List Bytes) : Nat × List Bytes :=
  let parts' := parts ++ split delim s
  (parts'.length - parts.length, parts')

namespace ObfString

/-- `split` into a vector. -/
def splitInto (o : ObfString) (delim : UInt8) (parts : List ObfString) : Nat × List ObfString :=
  let parts' := parts ++ o.split delim
  (parts'.length - parts.length, parts')

/-- The plain text has one part more when a delimiter is at its end. -/
theorem split_parts {delim : UInt8} (hdelim : delim ≠ 0) : ∀ {s : Bytes}, 0 ∉ s → ∀ part : Bytes, Util.split.go delim part s =
    if s.getLast? = some delim then parts.go delim part s ++ [[]] else parts.go delim part s
  | [], _, part => by
    rw [List.getLast?_nil, if_neg nofun]
    rfl
  | c :: s, hnul, part => by
    obtain ⟨hc, hs⟩ := not_or.1 (mt List.mem_cons.2 hnul)
    rw [Util.split.go, parts.go]
    by_cases hne : c ≠ delim
    · have hlast : (c :: s).getLast? = some delim ↔ s.getLast? = some delim := by
        cases s with
        | nil => exact iff_of_false (fun h => hne (Option.some.inj h)) nofun
        | cons d s => rw [List.getLast?_cons_cons]
      rw [if_pos ⟨hne, Ne.symm hc⟩, if_pos hne, split_parts hdelim hs]
      simp only [hlast]
    · obtain rfl := not_not.1 hne
      rw [if_neg (fun h => h.1 rfl), if_neg (Ne.symm hc), if_neg hne, split_parts hdelim hs]
      cases s with
      | nil =>
        rw [List.getLast?_nil, if_neg nofun, List.getLast?_singleton, if_pos rfl, if_pos rfl]
        rfl
      | cons d s =>
        rw [List.getLast?_cons_cons, if_neg (List.cons_ne_nil d s)]
        split
        · rfl
        · rfl

theorem uncrypt_split (o : ObfString) (hnul : 0 ∉ o.uncrypt) (delim : UInt8) :
    (o.split delim).map uncrypt = parts delim o.uncrypt := by
  have hall := split_hides o.hides_uncrypt hnul delim
  generalize o.split delim = os at hall
  generalize parts delim o.uncrypt = ps at hall
  induction hall with
  | nil => rfl
  | cons h _ ih => rw [List.map_cons, uncrypt_hides h.1, ih]

/-- The parts that the two implementations add to their vectors are the same, and as many, and each of them can be
joined to the text. -/
structure SplitAlike (o : ObfString) (delim : UInt8) (before : List Bytes) (obfBefore : List ObfString) : Prop where
  parts : ((o.splitInto delim obfBefore).2.drop obfBefore.length).map uncrypt =
    (Util.splitInto o.uncrypt delim before).2.drop before.length
  count : (o.splitInto delim obfBefore).1 = (Util.splitInto o.uncrypt delim before).1
  joinsObf : [delim].intercalate (((o.splitInto delim obfBefore).2.drop obfBefore.length).map uncrypt) = o.uncrypt
  joins : [delim].intercalate ((Util.splitInto o.uncrypt delim before).2.drop before.length) = o.uncrypt

/-- The two implementations agree exactly when there is no delimiter at the end. -/
theorem splitAlike_iff (o : ObfString) {delim : UInt8} (hnul : 0 ∉ o.uncrypt) (hdelim : delim ≠ 0)
    (before : List Bytes) (obfBefore : List ObfString) : o.SplitAlike delim before obfBefore ↔ o.uncrypt.getLast? ≠ some delim := by
  have hadded : (Util.splitInto o.uncrypt delim before).2.drop before.length = Util.split delim o.uncrypt := List.drop_left
  have hobf : ((o.splitInto delim obfBefore).2.drop obfBefore.length).map uncrypt = ObfString.parts delim o.uncrypt := by
    rw [← uncrypt_split o hnul]
    exact congrArg (List.map uncrypt) List.drop_left
  have hsplit := split_parts hdelim hnul []
  constructor
  · intro h hlast
    have hparts := h.parts
    rw [hobf, hadded, Util.split, hsplit, if_pos hlast] at hparts
    exact List.cons_ne_nil _ _ (List.self_eq_append_right.1 hparts)
  · intro hlast
    rw [if_neg hlast] at hsplit
    have hsame : ObfString.parts delim o.uncrypt = Util.split delim o.uncrypt := hsplit.symm
    constructor
    · rw [hobf, hadded, hsame]
    · unfold ObfString.splitInto Util.splitInto
      simp only [List.length_append, Nat.add_sub_cancel_left]
      rw [← hsame, ← uncrypt_split o hnul, List.length_map]
    · rw [hobf, hsame, intercalate_split hnul]
    · rw [hadded, intercalate_split hnul]

/-- Parameters without a delimiter at their end. -/
theorem splitAlike_params : (ofBytes 4 (ascii "a=1&&b=2")).SplitAlike 38 [] [] :=
  (splitAlike_iff _ (by decide) (by decide) [] []).2 (by decide)

/-- A delimiter at the end begins an empty part of the plain text, and none of the hidden one. -/
theorem split_lastEmpty : (((ofBytes 4 (ascii "a;")).splitInto 59 []).2.map uncrypt = [ascii "a"] ∧
      (Util.splitInto (ascii "a;") 59 []).2 = [ascii "a", []]) ∧
    [59].intercalate (((ofBytes 4 (ascii "a;")).splitInto 59 []).2.map uncrypt) ≠ ascii "a;" := by
  refine ⟨⟨?_, ?_⟩, ?_⟩
  · decide
  · decide
  · decide

end ObfString

end FortiRdp.Util
