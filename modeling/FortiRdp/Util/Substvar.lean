/-
Variables in the parameters of a task (`substvar`): the text is rewritten at its first `${` and searched again from its
start, until there is none left.
-/
import FortiRdp.Run.Argv
import FortiRdp.Run.Loop
import FortiRdp.Util.StringMap

namespace FortiRdp.Util

open Run

/-! ## Finding -/

/-- `find` of a text, in a text. -/
def findText (pat : WString) : WString → Option Nat
  | [] => if pat = [] then some 0 else none
  | c :: s => if pat.isPrefixOf (c :: s) then some 0 else (findText pat s).map (· + 1)

theorem findText_none {pat : WString} : ∀ {s : WString}, findText pat s = none → ¬ pat <:+: s
  | [], h => by
    unfold findText at h
    split at h
    · cases h
    · rename_i hne
      rw [List.infix_nil]
      exact hne
  | c :: s, h => by
    unfold findText at h
    split at h
    · cases h
    · rename_i hne
      rw [List.infix_cons_iff, not_or]
      exact ⟨fun hp => hne (List.isPrefixOf_iff_prefix.2 hp), findText_none (Option.map_eq_none_iff.1 h)⟩

theorem findText_some {pat : WString} : ∀ {s : WString} {i : Nat}, findText pat s = some i → s = s.take i ++ pat ++ s.drop (i + pat.length)
  | [], i, h => by
    unfold findText at h
    split at h
    · rename_i heq
      cases h
      rw [heq]
      rfl
    · cases h
  | c :: s, i, h => by
    unfold findText at h
    split at h
    · rename_i hp
      cases h
      obtain ⟨rest, hrest⟩ := List.isPrefixOf_iff_prefix.1 hp
      rw [List.take_zero, List.nil_append, Nat.zero_add, ← hrest, List.drop_left]
    · obtain ⟨j, hj, rfl⟩ := Option.map_eq_some_iff.1 h
      have ih := findText_some hj
      rw [Nat.add_right_comm, List.take_succ_cons, List.drop_succ_cons, List.cons_append, List.cons_append, ← ih]

/-- A text is found where its first character is met for the first time. -/
theorem findText_first {d : UInt16} {pat rest : WString} : ∀ {s : WString}, d ∉ s → findText (d :: pat) (s ++ (d :: pat) ++ rest) = some s.length
  | [], _ => by
    show findText (d :: pat) (d :: (pat ++ rest)) = some 0
    have hp : (d :: pat).isPrefixOf (d :: (pat ++ rest)) = true := List.isPrefixOf_iff_prefix.2 ⟨rest, rfl⟩
    rw [findText, if_pos hp]
  | c :: s, h => by
    have hne : ¬ (d :: pat).isPrefixOf (c :: (s ++ (d :: pat) ++ rest)) = true := by
      rw [List.isPrefixOf_iff_prefix, List.cons_prefix_cons]
      rintro ⟨rfl, -⟩
      exact h (List.mem_cons_self ..)
    show findText (d :: pat) (c :: (s ++ (d :: pat) ++ rest)) = some (s.length + 1)
    rw [findText, if_neg hne, findText_first fun hin => h (List.mem_cons_of_mem _ hin)]
    rfl

/-! ## substvar -/

/-- The conversions between wide strings and UTF-8 (`wstr2str`, `str2wstr`). -/
structure WideConv where
  wstr2str : WString → Bytes
  str2wstr : Bytes → WString

/-- One pass of the loop: the text with its first variable replaced, or, if there is none, the result. -/
def substPass (conv : WideConv) (vars : StringMap) (res : WString) : WString ⊕ WString :=
  match findText [36, 123] res with
  | none => .inr res
  | some pos =>
    let sb := res.take pos
    let posVar := pos + 2
    match (findText [125] (res.drop posVar)).map (· + posVar) with
    | none => .inl sb
    | some endVar =>
      let var := conv.wstr2str ((res.drop posVar).take (endVar - posVar))
      let sb := sb ++ ((vars.get var).map conv.str2wstr).getD []
      if endVar + 1 < res.length then .inl (sb ++ res.drop (endVar + 1)) else .inl sb

/-- `substvar`, with a bound on its passes. -/
def substvar (conv : WideConv) (vars : StringMap) (passes : Nat) (str : WString) : Option WString :=
  if 0 < vars.entries.length then Loop.run (substPass conv vars) passes str else some str

/-! ## Templates -/

/-- A piece of a template: a literal text, or a variable. -/
inductive Piece
  | literal (text : WString)
  | placeholder (name : WString)
  deriving DecidableEq, Repr

namespace Piece

/-- A literal has no `$`, and a name no `}`. -/
def Plain : Piece → Prop
  | literal text => 36 ∉ text
  | placeholder name => 125 ∉ name

def text : Piece → WString
  | literal text => text
  | placeholder name => [36, 123] ++ name ++ [125]

/-- What a piece stands for; an unknown variable stands for nothing. -/
def value (conv : WideConv) (vars : StringMap) : Piece → WString
  | literal text => text
  | placeholder name => ((vars.get (conv.wstr2str name)).map conv.str2wstr).getD []

end Piece

/-- The values of the variables have no `$`, and neither have they as wide strings. -/
structure PlainVars (conv : WideConv) (vars : StringMap) : Prop where
  values : ∀ e ∈ vars.entries, 36 ∉ e.2
  conv : ∀ s : Bytes, 36 ∉ s → 36 ∉ conv.str2wstr s

section

variable {conv : WideConv} {vars : StringMap}

theorem PlainVars.value (h : PlainVars conv vars) (name : Bytes) : 36 ∉ ((vars.get name).map conv.str2wstr).getD [] := by
  cases hget : vars.get name with
  | none => exact List.not_mem_nil
  | some v =>
    obtain ⟨e, he, -, rfl⟩ := SortedMap.mem_of_get hget
    exact h.conv _ (h.values e he)

theorem substPass_found {res : WString} {pos e : Nat} (hpos : findText [36, 123] res = some pos)
    (hend : findText [125] (res.drop (pos + 2)) = some e) : substPass conv vars res =
      .inl (res.take pos ++ ((vars.get (conv.wstr2str ((res.drop (pos + 2)).take e))).map conv.str2wstr).getD [] ++
        res.drop (e + (pos + 2) + 1)) := by
  unfold substPass
  rw [hpos]
  dsimp only
  rw [hend, Option.map_some]
  dsimp only
  rw [Nat.add_sub_cancel]
  split
  · rfl
  · rename_i hlast
    rw [List.drop_eq_nil_of_le (Nat.not_lt.1 hlast), List.append_nil]

theorem substPass_unclosed {res : WString} {pos : Nat} (hpos : findText [36, 123] res = some pos)
    (hend : findText [125] (res.drop (pos + 2)) = none) : substPass conv vars res = .inl (res.take pos) := by
  unfold substPass
  rw [hpos]
  dsimp only
  rw [hend]
  rfl

/-- A pass takes the `$` of a variable away, and brings none. -/
theorem substPass_count (h : PlainVars conv vars) {res res' : WString} (hpass : substPass conv vars res = .inl res') :
    res'.count 36 < res.count 36 := by
  cases hpos : findText [36, 123] res with
  | none =>
    unfold substPass at hpass
    rw [hpos] at hpass
    cases hpass
  | some pos =>
    have hcount : (res.take pos).count 36 + 1 + (res.drop (pos + 2)).count 36 = res.count 36 := by
      rw [findText_some hpos, List.count_append, List.count_append, ← findText_some hpos]
      rfl
    cases hend : findText [125] (res.drop (pos + 2)) with
    | none =>
      rw [substPass_unclosed hpos hend] at hpass
      cases hpass
      omega
    | some e =>
      rw [substPass_found hpos hend] at hpass
      cases hpass
      have hdrop : (res.drop (e + (pos + 2) + 1)).count 36 ≤ (res.drop (pos + 2)).count 36 := by
        rw [show e + (pos + 2) + 1 = pos + 2 + (e + 1) by omega, ← List.drop_drop]
        exact (List.drop_sublist _ _).count_le 36
      rw [List.count_append, List.count_append, List.count_eq_zero.2 (h.value _)]
      omega

/-- The loop ends where there is no variable. -/
theorem substPass_done {res res' : WString} (hpass : substPass conv vars res = .inr res') : ¬ [36, 123] <:+: res' := by
  cases hpos : findText [36, 123] res with
  | none =>
    unfold substPass at hpass
    rw [hpos] at hpass
    cases hpass
    exact findText_none hpos
  | some pos =>
    cases hend : findText [125] (res.drop (pos + 2)) with
    | none =>
      rw [substPass_unclosed hpos hend] at hpass
      cases hpass
    | some e =>
      rw [substPass_found hpos hend] at hpass
      cases hpass

/-- The first variable of a text in front of which there is no `$`. -/
theorem substPass_variable {before : WString} (hbefore : 36 ∉ before) {name : WString} (hname : 125 ∉ name) (rest : WString) :
    substPass conv vars (before ++ (Piece.placeholder name).text ++ rest) = .inl (before ++ (Piece.placeholder name).value conv vars ++ rest) := by
  have hres : before ++ (Piece.placeholder name).text ++ rest = before ++ [36, 123] ++ (name ++ [125] ++ rest) := by
    simp [Piece.text]
  have hpos : findText [36, 123] (before ++ [36, 123] ++ (name ++ [125] ++ rest)) = some before.length := findText_first hbefore
  have hdrop : (before ++ [36, 123] ++ (name ++ [125] ++ rest)).drop (before.length + 2) = name ++ [125] ++ rest :=
    List.drop_left' (List.length_append)
  have hend : findText [125] (name ++ [125] ++ rest) = some name.length := findText_first hname
  have hrest : (before ++ [36, 123] ++ (name ++ [125] ++ rest)).drop (name.length + (before.length + 2) + 1) = rest := by
    rw [show name.length + (before.length + 2) + 1 = before.length + 2 + (name.length + 1) by omega, ← List.drop_drop, hdrop]
    exact List.drop_left' List.length_append
  rw [hres, substPass_found hpos (hdrop ▸ hend), hrest, hdrop]
  simp [Piece.value]

/-- What comes in front of a template without a `$` stays, and the pieces are replaced one after the other. -/
theorem returns_pieces (h : PlainVars conv vars) : ∀ (pieces : List Piece) {before : WString}, 36 ∉ before →
    (∀ p ∈ pieces, p.Plain) → Loop.Returns (substPass conv vars) (before ++ pieces.flatMap Piece.text)
      (before ++ pieces.flatMap (Piece.value conv vars))
  | [], before, hbefore, _ => by
    apply Loop.returns_done
    cases hpos : findText [36, 123] before with
    | none =>
      rw [List.flatMap_nil, List.flatMap_nil, List.append_nil]
      unfold substPass
      rw [hpos]
    | some pos =>
      refine absurd ?_ hbefore
      rw [findText_some hpos]
      simp
  | p :: pieces, before, hbefore, hplain => by
    obtain ⟨hp, hrest⟩ := List.forall_mem_cons.1 hplain
    rw [List.flatMap_cons, List.flatMap_cons, ← List.append_assoc, ← List.append_assoc]
    cases p with
    | literal text =>
      exact returns_pieces h pieces (by rw [List.mem_append]; exact not_or.2 ⟨hbefore, hp⟩) hrest
    | placeholder name =>
      rw [Loop.returns_pass (substPass_variable hbefore hp _)]
      exact returns_pieces h pieces (by rw [List.mem_append]; exact not_or.2 ⟨hbefore, h.value _⟩) hrest

end

/-- `substvar` ends with a text without variables; and of a template it makes the text in which every variable is
replaced at once. -/
theorem substvar_simultaneous {conv : WideConv} {vars : StringMap} (hvars : vars.entries ≠ []) (h : PlainVars conv vars) (str : WString) :
    ∃ res, (∃ passes, substvar conv vars passes str = some res) ∧ ¬ [36, 123] <:+: res ∧
      ∀ pieces : List Piece, (∀ p ∈ pieces, p.Plain) → str = pieces.flatMap Piece.text → res = pieces.flatMap (Piece.value conv vars) := by
  have hpass : ∀ s t, True → substPass conv vars s = .inl t → True ∧ t.count 36 < s.count 36 := by
    rintro s t - hs
    exact ⟨trivial, substPass_count h hs⟩
  obtain ⟨res, last, hres, -, hlast⟩ := Loop.returns_of_measure (fun _ => True) (List.count 36) hpass (trivial : (fun _ => True) str)
  have hsize : 0 < vars.entries.length := List.length_pos_of_ne_nil hvars
  refine ⟨res, ?_, substPass_done hlast, ?_⟩
  · obtain ⟨n, hn⟩ := hres
    exact ⟨n, (if_pos hsize).trans hn⟩
  · rintro pieces hplain rfl
    exact hres.unique (returns_pieces h pieces List.not_mem_nil hplain)

/-! ## ASCII -/

/-- The conversions, on texts of ASCII characters. -/
def asciiConv : WideConv where
  wstr2str w := w.map UInt16.toUInt8
  str2wstr s := s.map UInt8.toUInt16

theorem asciiConv_dollar : ∀ s : Bytes, 36 ∉ s → 36 ∉ asciiConv.str2wstr s := by
  intro s h hin
  obtain ⟨c, hc, heq⟩ := List.mem_map.1 hin
  have hnat := congrArg UInt16.toNat heq
  rw [UInt8.toNat_toUInt16] at hnat
  exact h ((UInt8.toNat_inj.1 hnat : c = 36) ▸ hc)

def asciiW (s : String) : WString := asciiConv.str2wstr (ascii s)

/-- A `$` in front of a variable joins what comes behind it. -/
example : substvar asciiConv ((SortedMap.empty.set (ascii "host") (ascii "fw")).set (ascii "port") (ascii "{}")) 4
    (asciiW "$${none}{HOST}:${port}") = some (asciiW "fw:{}") := by decide

theorem substvar_endpoint : ∃ res, (∃ passes, substvar asciiConv
        ((SortedMap.empty.set (ascii "host") (ascii "127.0.0.1")).set (ascii "port") (ascii "50000")) passes
        (asciiW "/v:${host}:${port}") = some res) ∧ ¬ [36, 123] <:+: res ∧
      ∀ pieces : List Piece, (∀ p ∈ pieces, p.Plain) → asciiW "/v:${host}:${port}" = pieces.flatMap Piece.text →
        res = pieces.flatMap (Piece.value asciiConv
          ((SortedMap.empty.set (ascii "host") (ascii "127.0.0.1")).set (ascii "port") (ascii "50000"))) := by
  have hentries : ((SortedMap.empty.set (ascii "host") (ascii "127.0.0.1")).set (ascii "port") (ascii "50000") : StringMap).entries =
      [(ascii "host", ascii "127.0.0.1"), (ascii "port", ascii "50000")] := by decide
  refine substvar_simultaneous ?_ ⟨?_, asciiConv_dollar⟩ (asciiW "/v:${host}:${port}")
  · rw [hentries]
    exact List.cons_ne_nil _ _
  · rw [hentries]
    simp only [List.forall_mem_cons]
    exact ⟨by decide, by decide, nofun⟩

end FortiRdp.Util
