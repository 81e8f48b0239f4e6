/-
The parts of a JSON text: what is passed over between its tokens, strings and numbers, each with what it stands for;
the reader passes over, and reads, exactly these.
-/
import FortiRdp.Util.JsonReader
import Mathlib.Data.List.Infix

namespace FortiRdp.Util

open Run

namespace JsonGrammar

/-! ## What is passed over -/

/-- White space and comments, which end before the text goes on. -/
inductive Garbage (strategy : JsonParse) : Bytes → Prop
  | nil : Garbage strategy []
  | white {c : UInt8} {g : Bytes} (hc : JsonParser.isWhite c = true) (hg : Garbage strategy g) : Garbage strategy (c :: g)
  | line {body g : Bytes} (hs : strategy = .comments) (hbody : 10 ∉ body) (hg : Garbage strategy g) :
    Garbage strategy (47 :: 47 :: (body ++ 10 :: g))
  | block {body g : Bytes} (hs : strategy = .comments) (hbody : ¬ [42, 47] <:+: body) (hg : Garbage strategy g) :
    Garbage strategy (47 :: 42 :: (body ++ 42 :: 47 :: g))

/-- What may follow the last value: the last comment may lack its end of line. -/
inductive Trailer (strategy : JsonParse) : Bytes → Prop
  | garbage {g : Bytes} (hg : Garbage strategy g) : Trailer strategy g
  | line {g body : Bytes} (hs : strategy = .comments) (hg : Garbage strategy g) (hbody : 10 ∉ body) :
    Trailer strategy (g ++ 47 :: 47 :: body)

/-- Nothing more is passed over here. -/
def Token (strategy : JsonParse) (k : Bytes) : Prop :=
  JsonParser.isWhite (k.headD 0) = false ∧ (strategy = .comments → k.headD 0 ≠ 47)

variable {strategy : JsonParse}

theorem Garbage.append {g g' : Bytes} (h : Garbage strategy g) (h' : Garbage strategy g') : Garbage strategy (g ++ g') := by
  induction h with
  | nil => exact h'
  | white hc _ ih => exact .white hc ih
  | line hs hbody _ ih =>
    rw [List.cons_append, List.cons_append, List.append_assoc, List.cons_append]
    exact .line hs hbody ih
  | block hs hbody _ ih =>
    rw [List.cons_append, List.cons_append, List.append_assoc, List.cons_append, List.cons_append]
    exact .block hs hbody ih

theorem Garbage.trailer {g g' : Bytes} (h : Garbage strategy g) (h' : Trailer strategy g') : Trailer strategy (g ++ g') := by
  cases h' with
  | garbage hg => exact .garbage (h.append hg)
  | line hs hg hbody =>
    rw [← List.append_assoc]
    exact .line hs (h.append hg) hbody

theorem garbage_white : ∀ {g : Bytes}, (∀ c ∈ g, JsonParser.isWhite c = true) → Garbage strategy g
  | [], _ => .nil
  | _ :: _, h => .white (h _ (List.mem_cons_self ..)) (garbage_white fun c hc => h c (List.mem_cons_of_mem _ hc))

/-! ### Comments -/

theorem closeComment_body {r : Bytes} : ∀ {body : Bytes}, ¬ [42, 47] <:+: body →
    JsonReader.closeComment (body ++ 42 :: 47 :: r) = .ok (true, r)
  | [], _ => rfl
  | [a], _ => by
    show (if a = 42 ∧ (42 : UInt8) = 47 then _ else _) = _
    rw [if_neg fun h => absurd h.2 (by decide)]
    rfl
  | a :: b :: body, h => by
    show (if a = 42 ∧ b = 47 then _ else JsonReader.closeComment (b :: body ++ 42 :: 47 :: r)) = _
    rw [if_neg, closeComment_body fun h' => h (h'.trans (List.suffix_cons a _).isInfix)]
    rintro ⟨rfl, rfl⟩
    exact h ⟨[], body, rfl⟩

theorem closeComment_ok {b : Bool} {r : Bytes} : ∀ {w : Bytes}, JsonReader.closeComment w = .ok (b, r) →
    b = true ∧ ∃ body, w = body ++ 42 :: 47 :: r ∧ ¬ [42, 47] <:+: body
  | [], h => by cases h
  | [_], h => by cases h
  | c :: d :: w, h => by
    change (if c = 42 ∧ d = 47 then .ok (true, w) else JsonReader.closeComment (d :: w)) = _ at h
    by_cases hclose : c = 42 ∧ d = 47
    · rw [if_pos hclose] at h
      cases h
      obtain ⟨rfl, rfl⟩ := hclose
      exact ⟨rfl, [], rfl, by decide⟩
    · rw [if_neg hclose] at h
      obtain ⟨rfl, body, hw, hbody⟩ := closeComment_ok h
      refine ⟨rfl, c :: body, by rw [hw]; rfl, fun hin => ?_⟩
      rcases List.infix_cons_iff.1 hin with hpre | hin
      · obtain ⟨tail, htail⟩ := hpre
        injection htail with hc hd
        rw [← hd] at hw
        injection hw with hd
        exact hclose ⟨hc.symm, hd⟩
      · exact hbody hin

theorem not_newline {body : Bytes} (h : 10 ∉ body) : ∀ c ∈ body, (c != 10) = true := by
  intro c hc
  rw [bne_iff_ne]
  rintro rfl
  exact h hc

theorem line_body {body : Bytes} (h : 10 ∉ body) (r : Bytes) : (body ++ 10 :: r).dropWhile (· != 10) = 10 :: r := by
  rw [List.dropWhile_append_of_pos (not_newline h)]
  rfl

theorem line_end {body : Bytes} (h : 10 ∉ body) : body.dropWhile (· != 10) = [] :=
    List.dropWhile_eq_nil_iff.2 (not_newline h)

/-- White space, then comments. -/
def skipAll (n : Nat) : JsonReader.ReadM Unit := JsonReader.white >>= fun _ => JsonReader.comments n

theorem skipAll_white {c : UInt8} (hc : JsonParser.isWhite c = true) (n : Nat) (r : Bytes) :
    skipAll n (c :: r) = skipAll n r := by
  show JsonReader.comments n ((c :: r).dropWhile _) = JsonReader.comments n (r.dropWhile _)
  rw [List.dropWhile_cons_of_pos hc]

theorem skipAll_comment {r r' : Bytes} (h : JsonReader.comment (47 :: r) = .ok (true, r')) (n : Nat) :
    skipAll (n + 1) (47 :: r) = skipAll n r' := by
  show (JsonReader.comment (47 :: r) >>= _) = _
  rw [h]
  rfl

theorem Token.white {k : Bytes} (h : Token strategy k) : k.dropWhile JsonParser.isWhite = k := by
  cases k with
  | nil => rfl
  | cons c k => exact List.dropWhile_cons_of_neg (by rw [show JsonParser.isWhite c = false from h.1]; decide)

theorem skipAll_token {k : Bytes} (h : Token .comments k) (n : Nat) : skipAll (n + 1) k = .ok ((), k) := by
  have hcomment : JsonReader.comment k = .ok (false, k) := if_neg fun h' => h.2 rfl (beq_iff_eq.1 h')
  show JsonReader.comments (n + 1) (k.dropWhile _) = _
  rw [h.white]
  show (JsonReader.comment k >>= _) = _
  rw [hcomment]
  show Except.ok ((), k.dropWhile _) = _
  rw [h.white]

theorem Garbage.skipAll {g : Bytes} (h : Garbage .comments g) (k : Bytes) : ∀ n, (g ++ k).length < n →
    ∃ m, k.length < m ∧ JsonGrammar.skipAll n (g ++ k) = JsonGrammar.skipAll m k := by
  induction h with
  | nil => exact fun n hn => ⟨n, hn, rfl⟩
  | white hc _ ih =>
    intro n hn
    rw [List.cons_append, skipAll_white hc]
    exact ih n (Nat.lt_of_succ_lt hn)
  | @line body g _ hbody _ ih =>
    intro n hn
    obtain ⟨n, rfl⟩ := Nat.exists_eq_succ_of_ne_zero (Nat.ne_zero_of_lt hn)
    have hcomment : JsonReader.comment (47 :: 47 :: (body ++ 10 :: (g ++ k))) = .ok (true, 10 :: (g ++ k)) := by
      show Except.ok (true, (body ++ 10 :: (g ++ k)).dropWhile (· != 10)) = _
      rw [line_body hbody]
    rw [List.cons_append, List.cons_append, List.append_assoc, List.cons_append] at hn ⊢
    rw [skipAll_comment hcomment, skipAll_white rfl]
    refine ih n ?_
    simp only [List.length_cons, List.length_append] at hn ⊢
    omega
  | @block body g _ hbody _ ih =>
    intro n hn
    obtain ⟨n, rfl⟩ := Nat.exists_eq_succ_of_ne_zero (Nat.ne_zero_of_lt hn)
    have hcomment : JsonReader.comment (47 :: 42 :: (body ++ 42 :: 47 :: (g ++ k))) = .ok (true, g ++ k) :=
      closeComment_body hbody
    rw [List.cons_append, List.cons_append, List.append_assoc, List.cons_append, List.cons_append] at hn ⊢
    rw [skipAll_comment hcomment]
    refine ih n ?_
    simp only [List.length_cons, List.length_append] at hn ⊢
    omega

/-- Without comments only white space is passed over. -/
theorem Garbage.standard {g : Bytes} (h : Garbage .standard g) : ∀ c ∈ g, JsonParser.isWhite c = true := by
  induction h with
  | nil => exact fun c hc => absurd hc List.not_mem_nil
  | white hc _ ih =>
    intro c hmem
    rcases List.mem_cons.1 hmem with rfl | hmem
    · exact hc
    · exact ih c hmem
  | line hs => cases hs
  | block hs => cases hs

/-- What may be passed over is passed over, up to a token. -/
theorem garbage_run {g k : Bytes} (hg : Garbage strategy g) (hk : Token strategy k) {n : Nat} (hn : (g ++ k).length < n) :
    JsonReader.garbage strategy n (g ++ k) = .ok ((), k) := by
  cases strategy with
  | standard =>
    show Except.ok ((), (g ++ k).dropWhile JsonParser.isWhite) = _
    rw [List.dropWhile_append_of_pos hg.standard, hk.white]
  | comments =>
    obtain ⟨m, hm, hskip⟩ := hg.skipAll k n hn
    obtain ⟨m, rfl⟩ := Nat.exists_eq_succ_of_ne_zero (Nat.ne_zero_of_lt hm)
    exact hskip.trans (skipAll_token hk m)

theorem trailer_run {g : Bytes} (hg : Trailer strategy g) {n : Nat} (hn : g.length < n) :
    JsonReader.garbage strategy n g = .ok ((), []) := by
  cases hg with
  | garbage hg =>
    have hrun := garbage_run hg (k := []) ⟨rfl, fun _ => by decide⟩ (by rw [List.append_nil]; exact hn)
    rw [List.append_nil] at hrun
    exact hrun
  | @line g body hs hg hbody =>
    subst hs
    obtain ⟨m, hm, hskip⟩ := hg.skipAll (47 :: 47 :: body) n hn
    rw [List.length_cons, List.length_cons] at hm
    obtain ⟨m, rfl⟩ : ∃ m', m = m' + 2 := ⟨m - 2, by omega⟩
    have hcomment : JsonReader.comment (47 :: 47 :: body) = .ok (true, []) := by
      show Except.ok (true, body.dropWhile (· != 10)) = _
      rw [line_end hbody]
    refine hskip.trans ((skipAll_comment hcomment (m + 1)).trans ?_)
    exact skipAll_token ⟨rfl, fun _ => by decide⟩ m

/-- What was passed over before `k`: a last comment without its end of line, only at the end of the text. -/
def Skipped (strategy : JsonParse) (g k : Bytes) : Prop := Garbage strategy g ∨ k = [] ∧ Trailer strategy g

theorem Skipped.trailer {g : Bytes} (h : Skipped strategy g []) : Trailer strategy g := h.elim .garbage And.right

theorem Skipped.garbage {g : Bytes} {c : UInt8} {k : Bytes} (h : Skipped strategy g (c :: k)) : Garbage strategy g :=
  h.elim id fun h => absurd h.1 (List.cons_ne_nil _ _)

theorem Skipped.append {g g' k : Bytes} (h : Garbage strategy g) (h' : Skipped strategy g' k) :
    Skipped strategy (g ++ g') k :=
  h'.imp h.append fun h' => ⟨h'.1, h.trailer h'.2⟩

theorem isWhite_dropWhile (rest : Bytes) : JsonParser.isWhite ((rest.dropWhile JsonParser.isWhite).headD 0) = false := by
  have h := List.head?_dropWhile_not JsonParser.isWhite rest
  rw [List.headD_eq_head?_getD]
  cases hd : (rest.dropWhile JsonParser.isWhite).head? with
  | none => rfl
  | some c =>
    rw [hd] at h
    exact h

theorem takeWhile_garbage (rest : Bytes) : Garbage strategy (rest.takeWhile JsonParser.isWhite) :=
  garbage_white fun _ hc => List.mem_takeWhile_imp hc

/-- A comment that was found, and what is passed over behind it. -/
theorem comment_ok {rest r : Bytes} (h : JsonReader.comment rest = .ok (true, r)) :
    ∃ w r', rest = w ++ r' ∧ (∀ n, skipAll n r = skipAll n r') ∧
      ∀ g k, r' = g ++ k → Skipped .comments g k → Skipped .comments (w ++ g) k := by
  unfold JsonReader.comment at h
  split at h
  · rename_i hslash
    cases rest with
    | nil => cases hslash
    | cons c rest =>
      cases beq_iff_eq.1 hslash
      unfold JsonReader.openComment at h
      cases rest with
      | nil => cases h
      | cons d rest =>
        change (if d == 47 then _ else if d == 42 then _ else _) = _ at h
        split at h
        · rename_i hline
          cases beq_iff_eq.1 hline
          have hr : rest.dropWhile (· != 10) = r := by
            injection h with h
            exact congrArg Prod.snd h
          have hbody : 10 ∉ rest.takeWhile (· != 10) := fun hmem => absurd (List.mem_takeWhile_imp hmem) (by decide)
          have hsplit : rest = rest.takeWhile (· != 10) ++ r := by rw [← hr, List.takeWhile_append_dropWhile]
          generalize rest.takeWhile (· != 10) = body at hbody hsplit
          have hhead := List.head?_dropWhile_not (· != (10 : UInt8)) rest
          rw [hr] at hhead
          subst hsplit
          cases r with
          | nil =>
            refine ⟨47 :: 47 :: body, [], by simp, fun _ => rfl, fun g k hk _ => ?_⟩
            obtain ⟨rfl, rfl⟩ := List.append_eq_nil_iff.1 hk.symm
            rw [List.append_nil]
            exact .inr ⟨rfl, .line rfl .nil hbody⟩
          | cons e r =>
            cases bne_eq_false_iff_eq.1 hhead
            refine ⟨47 :: 47 :: (body ++ [10]), r, by simp, fun n => skipAll_white rfl n r, fun g k _ hskip => ?_⟩
            exact hskip.append (.line rfl hbody .nil)
        · split at h
          · rename_i hblock
            cases beq_iff_eq.1 hblock
            obtain ⟨-, body, hrest, hbody⟩ := closeComment_ok h
            have hrest' : rest = body ++ 42 :: 47 :: r := hrest
            refine ⟨47 :: 42 :: (body ++ [42, 47]), r, by rw [hrest']; simp, fun _ => rfl, fun g k _ hskip => ?_⟩
            exact hskip.append (.block rfl hbody .nil)
          · cases h
  · cases h

theorem comment_none {rest r : Bytes} (h : JsonReader.comment rest = .ok (false, r)) : r = rest ∧ rest.headD 0 ≠ 47 := by
  unfold JsonReader.comment at h
  split at h
  · unfold JsonReader.openComment at h
    split at h
    · cases h
    · split at h
      · cases h
      · split at h
        · exact absurd (closeComment_ok h).1 Bool.false_ne_true
        · cases h
  · rename_i hne
    cases h
    exact ⟨rfl, fun h => hne (beq_iff_eq.2 h)⟩

theorem skipAll_ok : ∀ {n : Nat} {rest k : Bytes}, skipAll n rest = .ok ((), k) →
    ∃ g, rest = g ++ k ∧ Token .comments k ∧ Skipped .comments g k
  | 0, _, _, h => by cases h
  | n + 1, rest, k, h => by
    have hsplit : rest = rest.takeWhile JsonParser.isWhite ++ rest.dropWhile JsonParser.isWhite :=
      List.takeWhile_append_dropWhile.symm
    have htoken := isWhite_dropWhile rest
    have hgarbage : Garbage .comments _ := takeWhile_garbage rest
    change (JsonReader.comment (rest.dropWhile JsonParser.isWhite) >>= _) = _ at h
    generalize rest.dropWhile JsonParser.isWhite = r at h hsplit htoken
    cases hc : JsonReader.comment r with
    | error e =>
      rw [hc] at h
      cases h
    | ok p =>
      obtain ⟨found, r'⟩ := p
      rw [hc] at h
      cases found with
      | false =>
        obtain ⟨rfl, hne⟩ := comment_none hc
        have hk : Token .comments r' := ⟨htoken, fun _ => hne⟩
        change Except.ok ((), r'.dropWhile JsonParser.isWhite) = _ at h
        rw [hk.white] at h
        cases h
        exact ⟨_, hsplit, hk, .inl hgarbage⟩
      | true =>
        obtain ⟨w, r'', rfl, hskip, hsound⟩ := comment_ok hc
        have hrun : skipAll n r'' = .ok ((), k) := (hskip n).symm.trans h
        obtain ⟨g, rfl, hk, hg⟩ := skipAll_ok hrun
        exact ⟨rest.takeWhile JsonParser.isWhite ++ (w ++ g), by rw [List.append_assoc, List.append_assoc]; exact hsplit, hk,
          (hsound g k rfl hg).append hgarbage⟩

/-- What is passed over may be passed over. -/
theorem garbage_ok {n : Nat} {rest k : Bytes} (h : JsonReader.garbage strategy n rest = .ok ((), k)) :
    ∃ g, rest = g ++ k ∧ Token strategy k ∧ Skipped strategy g k := by
  cases strategy with
  | standard =>
    change Except.ok ((), rest.dropWhile JsonParser.isWhite) = _ at h
    cases h
    exact ⟨_, List.takeWhile_append_dropWhile.symm, ⟨isWhite_dropWhile rest, fun hs => by cases hs⟩,
      .inl (takeWhile_garbage rest)⟩
  | comments => exact skipAll_ok h

/-! ### Tokens -/

theorem token_run {g k : Bytes} {c : UInt8} (hg : Garbage strategy g) (hk : Token strategy (c :: k)) {n : Nat}
    (hn : (g ++ c :: k).length < n) :
    JsonReader.token strategy n (g ++ c :: k) = .ok (c, c :: k) := by
  show (JsonReader.garbage strategy n (g ++ c :: k) >>= _) = _
  rw [garbage_run hg hk hn]
  rfl

theorem token_ok {n : Nat} {rest r : Bytes} {c : UInt8} (h : JsonReader.token strategy n rest = .ok (c, r)) :
    ∃ g k, r = c :: k ∧ rest = g ++ c :: k ∧ Garbage strategy g ∧ Token strategy (c :: k) := by
  change (JsonReader.garbage strategy n rest >>= _) = _ at h
  cases hgarbage : JsonReader.garbage strategy n rest with
  | error e =>
    rw [hgarbage] at h
    cases h
  | ok p =>
    obtain ⟨u, k⟩ := p
    rw [hgarbage] at h
    obtain ⟨g, rfl, hk, hg⟩ := garbage_ok hgarbage
    cases k with
    | nil => cases h
    | cons d k =>
      cases h
      exact ⟨g, k, rfl, rfl, hg.garbage, hk⟩

/-! ## Strings -/

/-- A piece of a string: a character, or an escaped code point. -/
inductive Piece where
  | char (c : UInt8)
  | code (pt : Nat)

/-- The text of a piece. -/
inductive PieceText : Bytes → Piece → Prop
  | plain {c : UInt8} (hcontrol : ¬ c ≤ 0x1f) (hquote : c ≠ 34) (hescape : c ≠ 92) : PieceText [c] (.char c)
  | escape {e c : UInt8} (h : JsonParser.unescape e = some c) : PieceText [92, e] (.char c)
  | code {digits : Bytes} (hlen : digits.length = 4) (hhex : ∀ d ∈ digits, JsonParser.isHex d = true) :
    PieceText (92 :: 117 :: digits) (.code (readDigits 16 0 digits))

/-- What stands between the quotes. -/
inductive StringText : Bytes → List Piece → Prop
  | nil : StringText [] []
  | cons {t body : Bytes} {p : Piece} {ps : List Piece} (ht : PieceText t p) (hbody : StringText body ps) :
    StringText (t ++ body) (p :: ps)

/-- The string of the pieces: a lead surrogate and the trail surrogate after it are one code point. -/
def decode : List Piece → Bytes
  | [] => []
  | .char c :: ps => c :: decode ps
  | .code lead :: .code trail :: ps =>
    if JsonParser.isLead lead && JsonParser.isTrail trail then JsonParser.encodeUtf8 (JsonParser.astral lead trail) ++
      decode ps
    else JsonParser.encodeUtf8 lead ++ decode (.code trail :: ps)
  | .code pt :: ps => JsonParser.encodeUtf8 pt ++ decode ps

/-- The string of the pieces behind a code point that has not been written. -/
def decodeAfter (last : Option Nat) (ps : List Piece) : Bytes :=
  match last with
  | some pt => decode (.code pt :: ps)
  | none => decode ps

theorem decodeAfter_nil (last : Option Nat) : decodeAfter last [] = JsonParser.flush last := by
  cases last with
  | none => rfl
  | some pt => exact List.append_nil _

theorem decodeAfter_char (last : Option Nat) (c : UInt8) (ps : List Piece) :
    decodeAfter last (.char c :: ps) = JsonParser.flush last ++ [c] ++ decode ps := by
  cases last with
  | none => rfl
  | some pt =>
    show JsonParser.encodeUtf8 pt ++ c :: decode ps = JsonParser.encodeUtf8 pt ++ [c] ++ decode ps
    rw [List.append_assoc]
    rfl

theorem decodeAfter_code (last : Option Nat) (pt : Nat) (ps : List Piece) :
    decodeAfter last (.code pt :: ps) =
      (JsonParser.addCodepoint last pt).1 ++ decodeAfter (JsonParser.addCodepoint last pt).2 ps := by
  cases last with
  | none => rfl
  | some lead =>
    simp only [decodeAfter, decode, JsonParser.addCodepoint]
    split
    · dsimp only
    · dsimp only

theorem all_hex {digits : Bytes} (hlen : digits.length = 4) (hhex : ∀ d ∈ digits, JsonParser.isHex d = true) :
    ¬ (digits.length < 4 ∨ digits.any (fun c => !JsonParser.isHex c) = true) := by
  rintro (h | h)
  · omega
  · obtain ⟨d, hd, hnot⟩ := List.any_eq_true.1 h
    rw [hhex d hd] at hnot
    cases hnot

/-- A string is read up to its closing quote. -/
theorem string_run {body : Bytes} {ps : List Piece} (h : StringText body ps) :
    ∀ (n : Nat) (out : Bytes) (last : Option Nat) (k : Bytes),
    body.length < n → JsonReader.string n out last (body ++ 34 :: k) = .ok (out ++ decodeAfter last ps, k) := by
  induction h with
  | nil =>
    intro n out last k hn
    obtain ⟨n, rfl⟩ := Nat.exists_eq_succ_of_ne_zero (Nat.ne_zero_of_lt hn)
    show Except.ok (out ++ JsonParser.flush last, k) = _
    rw [decodeAfter_nil]
  | @cons t body p ps ht _ ih =>
    intro n out last k hn
    obtain ⟨n, rfl⟩ := Nat.exists_eq_succ_of_ne_zero (Nat.ne_zero_of_lt hn)
    rw [List.length_append] at hn
    cases ht with
    | @plain c hcontrol hquote hescape =>
      have hstep : JsonReader.string (n + 1) out last (c :: (body ++ 34 :: k)) =
          JsonReader.string n (out ++ JsonParser.flush last ++ [c]) none (body ++ 34 :: k) := by
        show (if c = 34 then _ else if c ≤ 0x1f then _ else if c ≠ 92 then _ else _ : JsonReader.ReadM Bytes) _ = _
        rw [if_neg hquote, if_neg hcontrol, if_pos hescape]
      rw [List.length_singleton] at hn
      refine hstep.trans ((ih n _ _ k (by omega)).trans ?_)
      rw [decodeAfter_char, ← List.append_assoc, ← List.append_assoc]
      rfl
    | @escape e c hc =>
      have hu : e ≠ 117 := by
        rintro rfl
        cases hc
      have hstep : JsonReader.string (n + 1) out last (92 :: e :: (body ++ 34 :: k)) =
          JsonReader.string n (out ++ JsonParser.flush last ++ [c]) none (body ++ 34 :: k) := by
        show (if e = 117 then _ else _ : JsonReader.ReadM Bytes) _ = _
        rw [if_neg hu, hc]
      rw [List.length_cons, List.length_singleton] at hn
      refine hstep.trans ((ih n _ _ k (by omega)).trans ?_)
      rw [decodeAfter_char, ← List.append_assoc, ← List.append_assoc]
      rfl
    | @code digits hlen hhex =>
      have htake : (digits ++ (body ++ 34 :: k)).take 4 = digits := by rw [← hlen, List.take_left]
      have hdrop : (digits ++ (body ++ 34 :: k)).drop 4 = body ++ 34 :: k := by rw [← hlen, List.drop_left]
      have hstep : JsonReader.string (n + 1) out last (92 :: 117 :: (digits ++ (body ++ 34 :: k))) =
          JsonReader.string n (out ++ (JsonParser.addCodepoint last (readDigits 16 0 digits)).1)
            (JsonParser.addCodepoint last (readDigits 16 0 digits)).2 (body ++ 34 :: k) := by
        show (if ((digits ++ (body ++ 34 :: k)).take 4).length < 4 ∨
          ((digits ++ (body ++ 34 :: k)).take 4).any (fun c => !JsonParser.isHex c) = true
          then _ else _) = _
        rw [htake, hdrop, if_neg (all_hex hlen hhex)]
      rw [List.length_cons, List.length_cons] at hn
      rw [List.cons_append, List.cons_append, List.append_assoc]
      refine hstep.trans ((ih n _ _ k (by omega)).trans ?_)
      rw [decodeAfter_code, List.append_assoc]

/-- What is read is a string. -/
theorem string_ok : ∀ {n : Nat} {out s rest k : Bytes} {last : Option Nat}, JsonReader.string n out last rest = .ok (s, k) →
    ∃ body ps, rest = body ++ 34 :: k ∧ StringText body ps ∧ s = out ++ decodeAfter last ps
  | 0, _, _, _, _, _, h => by cases h
  | n + 1, out, s, [], k, last, h => by cases h
  | n + 1, out, s, ch :: rest, k, last, h => by
    change (if ch = 34 then _ else if ch ≤ 0x1f then _ else if ch ≠ 92 then _ else _ : JsonReader.ReadM Bytes) rest = _ at h
    by_cases hquote : ch = 34
    · rw [if_pos hquote] at h
      cases h
      exact ⟨[], [], by rw [hquote]; rfl, .nil, by rw [decodeAfter_nil]⟩
    rw [if_neg hquote] at h
    by_cases hcontrol : ch ≤ 0x1f
    · rw [if_pos hcontrol] at h
      cases h
    rw [if_neg hcontrol] at h
    by_cases hescape : ch ≠ 92
    · rw [if_pos hescape] at h
      obtain ⟨body, ps, rfl, hbody, rfl⟩ := string_ok h
      refine ⟨[ch] ++ body, .char ch :: ps, rfl, .cons (.plain hcontrol hquote hescape) hbody, ?_⟩
      rw [decodeAfter_char, ← List.append_assoc, ← List.append_assoc]
      rfl
    rw [if_neg hescape] at h
    cases not_not.1 hescape
    cases rest with
    | nil => cases h
    | cons e rest =>
      change (if e = 117 then _ else _ : JsonReader.ReadM Bytes) rest = _ at h
      by_cases hu : e = 117
      · rw [if_pos hu] at h
        subst hu
        change (if (rest.take 4).length < 4 ∨ (rest.take 4).any (fun c => !JsonParser.isHex c) = true then _ else _) = _ at h
        by_cases hbad : (rest.take 4).length < 4 ∨ (rest.take 4).any (fun c => !JsonParser.isHex c) = true
        · rw [if_pos hbad] at h
          cases h
        rw [if_neg hbad] at h
        obtain ⟨hlen, hhex⟩ := not_or.1 hbad
        have hlen : (rest.take 4).length = 4 := Nat.le_antisymm (List.length_take_le 4 rest) (not_lt.1 hlen)
        obtain ⟨body, ps, hrest, hbody, rfl⟩ := string_ok h
        refine ⟨92 :: 117 :: rest.take 4 ++ body, .code (readDigits 16 0 (rest.take 4)) :: ps, ?_,
          .cons (.code hlen fun d hd => ?_) hbody, ?_⟩
        · rw [List.cons_append, List.cons_append, List.cons_append, List.cons_append, List.append_assoc, ← hrest,
            List.take_append_drop]
        · rw [List.any_eq_true] at hhex
          by_contra hd'
          exact hhex ⟨d, hd, by simpa using hd'⟩
        · rw [decodeAfter_code, List.append_assoc]
      · rw [if_neg hu] at h
        cases hc : JsonParser.unescape e with
        | none =>
          rw [hc] at h
          cases h
        | some c =>
          rw [hc] at h
          obtain ⟨body, ps, rfl, hbody, rfl⟩ := string_ok h
          refine ⟨[92, e] ++ body, .char c :: ps, rfl, .cons (.escape hc) hbody, ?_⟩
          rw [decodeAfter_char, ← List.append_assoc, ← List.append_assoc]
          rfl

/-! ## Numbers -/

def Digits (ds : Bytes) : Prop := ∀ c ∈ ds, isdigit c = true

/-- The parts of the text of a number. -/
structure NumberText (sign int frac exp : Bytes) : Prop where
  sign : sign = [] ∨ sign = [45]
  int : int = [48] ∨ ∃ d ds, int = d :: ds ∧ (49 ≤ d && d ≤ 57) = true ∧ Digits ds
  frac : frac = [] ∨ ∃ ds, frac = 46 :: ds ∧ ds ≠ [] ∧ Digits ds
  exp : exp = [] ∨ ∃ e s ds, exp = e :: (s ++ ds) ∧ (e = 101 ∨ e = 69) ∧ (s = [] ∨ s = [43] ∨ s = [45]) ∧ ds ≠ [] ∧ Digits ds

/-- The text that follows does not go on with the number. -/
structure Ends (frac exp k : Bytes) : Prop where
  digit : isdigit (k.headD 0) = false
  frac : frac = [] → exp = [] → k.headD 0 ≠ 46
  exp : exp = [] → k.headD 0 ≠ 101 ∧ k.headD 0 ≠ 69

/-- A number that is read as an `int`. -/
def Short (sign int frac exp : Bytes) : Prop := frac = [] ∧ exp = [] ∧ (sign ++ int).length ≤ 9

instance (sign int frac exp : Bytes) : Decidable (Short sign int frac exp) := inferInstanceAs (Decidable (_ ∧ _))

/-- The value of a number, read from the text where it begins. -/
def numberIn {F : Type} (lib : DoubleLib F) (sign int frac exp all : Bytes) : Json F :=
  if Short sign int frac exp then .int (JsonParser.atoi all) else .double (lib.strtod all)

variable {F : Type}

theorem Digits.run {ds k : Bytes} (h : Digits ds) (hk : isdigit (k.headD 0) = false) : (ds ++ k).dropWhile isdigit = k := by
  rw [List.dropWhile_append_of_pos h]
  cases k with
  | nil => rfl
  | cons c k => exact List.dropWhile_cons_of_neg (by rw [show isdigit c = false from hk]; decide)

theorem Digits.head {ds : Bytes} (h : Digits ds) (hne : ds ≠ []) (k : Bytes) : isdigit ((ds ++ k).headD 0) = true := by
  cases ds with
  | nil => exact absurd rfl hne
  | cons d ds => exact h d (List.mem_cons_self ..)

theorem digits_takeWhile (rest : Bytes) : Digits (rest.takeWhile isdigit) := fun _ hc => List.mem_takeWhile_imp hc

theorem isdigit_dropWhile (rest : Bytes) : isdigit ((rest.dropWhile isdigit).headD 0) = false := by
  have h := List.head?_dropWhile_not isdigit rest
  rw [List.headD_eq_head?_getD]
  cases hd : (rest.dropWhile isdigit).head? with
  | none => rfl
  | some c =>
    rw [hd] at h
    exact h

/-! ### The parts -/

theorem someDigits_run {message ds k : Bytes} {f : JsonReader.ReadM (Json F)} (hne : ds ≠ []) (hds : Digits ds)
    (hk : isdigit (k.headD 0) = false) : JsonReader.someDigits message f (ds ++ k) = f k := by
  unfold JsonReader.someDigits
  rw [if_pos (hds.head hne k), hds.run hk]

theorem someDigits_ok {message rest : Bytes} {f : JsonReader.ReadM (Json F)} {r : Json F × Bytes}
    (h : JsonReader.someDigits message f rest = .ok r) :
    ∃ ds k, rest = ds ++ k ∧ ds ≠ [] ∧ Digits ds ∧ isdigit (k.headD 0) = false ∧ f k = .ok r := by
  unfold JsonReader.someDigits at h
  split at h
  · rename_i hhead
    refine ⟨_, _, List.takeWhile_append_dropWhile.symm, fun hnil => ?_, digits_takeWhile rest, isdigit_dropWhile rest, h⟩
    cases rest with
    | nil => cases hhead
    | cons c rest =>
      rw [List.takeWhile_cons_of_pos (show isdigit c = true from hhead)] at hnil
      cases hnil
  · cases h

theorem integerPart_run {int k : Bytes} {f : JsonReader.ReadM (Json F)}
    (h : int = [48] ∨ ∃ d ds, int = d :: ds ∧ (49 ≤ d && d ≤ 57) = true ∧ Digits ds)
    (hk : isdigit (k.headD 0) = false) : JsonReader.integerPart f (int ++ k) = f k := by
  rcases h with rfl | ⟨d, ds, rfl, hd, hds⟩
  · show (if isdigit (k.headD 0) then _ else _) = _
    rw [if_neg (by rw [hk]; exact Bool.false_ne_true)]
    rfl
  · have hne : ¬ (d == 48) = true := by
      intro h
      cases beq_iff_eq.1 h
      cases hd
    show (if d == 48 then _ else if 49 ≤ d && d ≤ 57 then f ((ds ++ k).dropWhile isdigit) else _) = _
    rw [if_neg hne, if_pos hd, hds.run hk]

theorem integerPart_ok {rest : Bytes} {f : JsonReader.ReadM (Json F)} {r : Json F × Bytes}
    (h : JsonReader.integerPart f rest = .ok r) :
    ∃ int k, rest = int ++ k ∧ (int = [48] ∨ ∃ d ds, int = d :: ds ∧ (49 ≤ d && d ≤ 57) = true ∧ Digits ds) ∧
      isdigit (k.headD 0) = false ∧ f k = .ok r := by
  cases rest with
  | nil => cases h
  | cons d rest =>
    change (if d == 48 then _ else if 49 ≤ d && d ≤ 57 then _ else _) = _ at h
    split at h
    · rename_i hzero
      cases beq_iff_eq.1 hzero
      split at h
      · cases h
      · rename_i hk
        exact ⟨[48], rest, rfl, .inl rfl, Bool.eq_false_iff.2 hk, h⟩
    · split at h
      · rename_i hd
        refine ⟨d :: rest.takeWhile isdigit, rest.dropWhile isdigit, ?_, .inr ⟨d, _, rfl, hd, digits_takeWhile rest⟩,
          isdigit_dropWhile rest, h⟩
        rw [List.cons_append, List.takeWhile_append_dropWhile]
      · cases h

theorem decimalPart_run {frac k : Bytes} {f : JsonReader.ReadM (Json F)}
    (h : frac = [] ∨ ∃ ds, frac = 46 :: ds ∧ ds ≠ [] ∧ Digits ds)
    (hk : isdigit (k.headD 0) = false) (hnone : frac = [] → k.headD 0 ≠ 46) :
    JsonReader.decimalPart f (frac ++ k) = f k := by
  rcases h with rfl | ⟨ds, rfl, hne, hds⟩
  · exact if_neg fun h => hnone rfl (beq_iff_eq.1 h)
  · exact someDigits_run hne hds hk

theorem decimalPart_ok {rest : Bytes} {f : JsonReader.ReadM (Json F)} {r : Json F × Bytes}
    (h : JsonReader.decimalPart f rest = .ok r) :
    ∃ frac k, rest = frac ++ k ∧ (frac = [] ∨ ∃ ds, frac = 46 :: ds ∧ ds ≠ [] ∧ Digits ds) ∧
      (isdigit (rest.headD 0) = false → isdigit (k.headD 0) = false) ∧ (frac = [] → k.headD 0 ≠ 46) ∧ f k = .ok r := by
  unfold JsonReader.decimalPart at h
  split at h
  · rename_i hpoint
    cases rest with
    | nil => cases hpoint
    | cons c rest =>
      cases beq_iff_eq.1 hpoint
      obtain ⟨ds, k, hrest, hne, hds, hk, h⟩ := someDigits_ok h
      have hrest' : rest = ds ++ k := hrest
      exact ⟨46 :: ds, k, by rw [hrest']; rfl, .inr ⟨ds, rfl, hne, hds⟩, fun _ => hk, fun h => (by cases h), h⟩
  · rename_i hpoint
    exact ⟨[], rest, rfl, .inl rfl, id, fun _ h => hpoint (beq_iff_eq.2 h), h⟩

theorem exponentPart_run {exp k : Bytes} {f : JsonReader.ReadM (Json F)}
    (h : exp = [] ∨ ∃ e s ds, exp = e :: (s ++ ds) ∧ (e = 101 ∨ e = 69) ∧ (s = [] ∨ s = [43] ∨ s = [45]) ∧ ds ≠ [] ∧
    Digits ds)
    (hk : isdigit (k.headD 0) = false) (hnone : exp = [] → k.headD 0 ≠ 101 ∧ k.headD 0 ≠ 69) :
    JsonReader.exponentPart f (exp ++ k) = f k := by
  rcases h with rfl | ⟨e, s, ds, rfl, he, hs, hne, hds⟩
  · refine if_neg fun h => ?_
    rcases Bool.or_eq_true_iff.1 h with h | h
    · exact (hnone rfl).1 (beq_iff_eq.1 h)
    · exact (hnone rfl).2 (beq_iff_eq.1 h)
  · have he' : (e == 101 || e == 69) = true := by
      rw [Bool.or_eq_true_iff, beq_iff_eq, beq_iff_eq]
      exact he
    show (if e == 101 || e == 69 then JsonReader.optional _ _ (s ++ ds ++ k) else _) = _
    rw [if_pos he']
    rcases hs with rfl | rfl | rfl
    · have hsign : ¬ ((ds ++ k).headD 0 == 43 || (ds ++ k).headD 0 == 45) = true := by
        have hdigit := hds.head hne k
        intro h
        rcases Bool.or_eq_true_iff.1 h with h | h
        · rw [beq_iff_eq.1 h] at hdigit
          cases hdigit
        · rw [beq_iff_eq.1 h] at hdigit
          cases hdigit
      show (if (ds ++ k).headD 0 == 43 || (ds ++ k).headD 0 == 45 then _ else _) = _
      rw [if_neg hsign]
      exact someDigits_run hne hds hk
    · exact someDigits_run hne hds hk
    · exact someDigits_run hne hds hk

theorem exponentPart_ok {rest : Bytes} {f : JsonReader.ReadM (Json F)} {r : Json F × Bytes}
    (h : JsonReader.exponentPart f rest = .ok r) :
    ∃ exp k, rest = exp ++ k ∧
      (exp = [] ∨ ∃ e s ds, exp = e :: (s ++ ds) ∧ (e = 101 ∨ e = 69) ∧ (s = [] ∨ s = [43] ∨ s = [45]) ∧ ds ≠ [] ∧
        Digits ds) ∧
      (isdigit (rest.headD 0) = false → isdigit (k.headD 0) = false) ∧ (exp = [] → k.headD 0 ≠ 101 ∧ k.headD 0 ≠ 69) ∧
          f k = .ok r := by
  unfold JsonReader.exponentPart at h
  split at h
  · rename_i he
    cases rest with
    | nil => cases he
    | cons e rest =>
      have he' : e = 101 ∨ e = 69 := (Bool.or_eq_true_iff.1 he).imp beq_iff_eq.1 beq_iff_eq.1
      change (if rest.headD 0 == 43 || rest.headD 0 == 45 then _ else _) = _ at h
      split at h
      · rename_i hsign
        cases rest with
        | nil => cases hsign
        | cons c rest =>
          obtain ⟨ds, k, hrest, hne, hds, hk, h⟩ := someDigits_ok h
          have hrest' : rest = ds ++ k := hrest
          refine ⟨e :: ([c] ++ ds), k, by rw [hrest']; rfl, .inr ⟨e, [c], ds, rfl, he', .inr ?_, hne, hds⟩, fun _ => hk, fun h => (by cases h), h⟩
          exact (Bool.or_eq_true_iff.1 hsign).imp (fun h => congrArg (fun c => [c]) (beq_iff_eq.1 h : c = 43))
            fun h => congrArg (fun c => [c]) (beq_iff_eq.1 h : c = 45)
      · obtain ⟨ds, k, hrest, hne, hds, hk, h⟩ := someDigits_ok h
        have hrest' : rest = ds ++ k := hrest
        exact ⟨e :: ([] ++ ds), k, by rw [hrest']; rfl, .inr ⟨e, [], ds, rfl, he', .inl rfl, hne, hds⟩, fun _ => hk, fun h => (by cases h), h⟩
  · rename_i he
    rw [Bool.or_eq_true_iff, beq_iff_eq, beq_iff_eq, not_or] at he
    exact ⟨[], rest, rfl, .inl rfl, id, fun _ => he, h⟩

/-! ### The whole number -/

section Number

variable {sign int frac exp k : Bytes}

theorem NumberText.expHead (h : NumberText sign int frac exp) (hk : Ends frac exp k) :
    isdigit ((exp ++ k).headD 0) = false ∧ (frac = [] → (exp ++ k).headD 0 ≠ 46) := by
  rcases h.exp with rfl | ⟨e, s, ds, rfl, rfl | rfl, -⟩
  · exact ⟨hk.digit, fun hfrac => hk.frac hfrac rfl⟩
  · exact ⟨rfl, fun _ => by show (101 : UInt8) ≠ 46; decide⟩
  · exact ⟨rfl, fun _ => by show (69 : UInt8) ≠ 46; decide⟩

theorem NumberText.fracHead (h : NumberText sign int frac exp) (hk : Ends frac exp k) :
    isdigit ((frac ++ (exp ++ k)).headD 0) = false := by
  rcases h.frac with rfl | ⟨ds, rfl, -⟩
  · exact (h.expHead hk).1
  · rfl

theorem NumberText.intHead (h : NumberText sign int frac exp) (r : Bytes) : ((int ++ r).headD 0 == 45) = false := by
  rcases h.int with rfl | ⟨d, ds, rfl, hd, -⟩
  · rfl
  · refine beq_eq_false_iff_ne.2 fun h => ?_
    rw [show d = 45 from h] at hd
    cases hd

/-- The test for an `int`, behind the integer part. -/
theorem NumberText.short_iff (h : NumberText sign int frac exp) (hk : Ends frac exp k) :
    ((frac ++ (exp ++ k)).headD 0 ≠ 46 ∧ (frac ++ (exp ++ k)).headD 0 ≠ 101 ∧ (frac ++ (exp ++ k)).headD 0 ≠ 69 ∧
      (sign ++ (int ++ (frac ++ (exp ++ k)))).length - (frac ++ (exp ++ k)).length ≤ 9) ↔ Short sign int frac exp := by
  have hlen : (sign ++ (int ++ (frac ++ (exp ++ k)))).length - (frac ++ (exp ++ k)).length = (sign ++ int).length := by
    rw [List.length_append, List.length_append, @List.length_append _ sign int]
    omega
  rw [hlen]
  unfold Short
  rcases h.frac with rfl | ⟨ds, rfl, -⟩
  · rw [List.nil_append]
    rcases h.exp with rfl | ⟨e, s, ds, rfl, rfl | rfl, -⟩
    · rw [List.nil_append]
      exact ⟨fun hs => ⟨rfl, rfl, hs.2.2.2⟩, fun hs => ⟨hk.frac rfl rfl, (hk.exp rfl).1, (hk.exp rfl).2, hs.2.2⟩⟩
    · exact ⟨fun hs => absurd rfl hs.2.1, fun hs => by cases hs.2.1⟩
    · exact ⟨fun hs => absurd rfl hs.2.2.1, fun hs => by cases hs.2.1⟩
  · exact ⟨fun hs => absurd rfl hs.1, fun hs => by cases hs.1⟩

/-- A number is read up to the text that does not go on with it. -/
theorem number_run {lib : DoubleLib F} (h : NumberText sign int frac exp) (hk : Ends frac exp k) :
    JsonReader.number lib (sign ++ (int ++ (frac ++ (exp ++ k)))) =
      .ok (numberIn lib sign int frac exp (sign ++ (int ++ (frac ++ (exp ++ k)))), k) := by
  have hshort := h.short_iff hk
  have hsign (f : JsonReader.ReadM (Json F)) : JsonReader.optional (· == 45) f (sign ++ (int ++ (frac ++ (exp ++ k)))) =
      f (int ++ (frac ++ (exp ++ k))) := by
    rcases h.sign with rfl | rfl
    · exact if_neg (Bool.eq_false_iff.1 (h.intHead _))
    · rfl
  unfold JsonReader.number
  rw [hsign, integerPart_run h.int (h.fracHead hk)]
  generalize sign ++ (int ++ (frac ++ (exp ++ k))) = all at hshort ⊢
  unfold numberIn
  by_cases hs : Short sign int frac exp
  · rw [if_pos hs, if_pos (hshort.2 hs), hs.1, hs.2.1]
    rfl
  · rw [if_neg hs, if_neg (mt hshort.1 hs), decimalPart_run h.frac (h.expHead hk).1 (h.expHead hk).2,
      exponentPart_run h.exp hk.digit hk.exp]

end Number

theorem sign_ok {rest : Bytes} {f : JsonReader.ReadM (Json F)} {r : Json F × Bytes}
    (h : JsonReader.optional (· == 45) f rest = .ok r) :
    ∃ sign k, rest = sign ++ k ∧ (sign = [] ∨ sign = [45]) ∧ f k = .ok r := by
  unfold JsonReader.optional at h
  split at h
  · rename_i hminus
    cases rest with
    | nil => cases hminus
    | cons c rest =>
      have hc : c = 45 := beq_iff_eq.1 hminus
      exact ⟨[45], rest, by rw [hc]; rfl, .inr rfl, h⟩
  · exact ⟨[], rest, rfl, .inl rfl, h⟩

/-- What is read is a number, and the text behind it does not go on with it. -/
theorem number_ok {lib : DoubleLib F} {all k : Bytes} {v : Json F} (h : JsonReader.number lib all = .ok (v, k)) :
    ∃ sign int frac exp, all = sign ++ (int ++ (frac ++ (exp ++ k))) ∧ NumberText sign int frac exp ∧ Ends frac exp k ∧
      v = numberIn lib sign int frac exp all := by
  obtain ⟨sign, rest, hall, hsign, h⟩ := sign_ok h
  obtain ⟨int, r, rfl, hint, hdigit, h⟩ := integerPart_ok h
  by_cases hcond : r.headD 0 ≠ 46 ∧ r.headD 0 ≠ 101 ∧ r.headD 0 ≠ 69 ∧ all.length - r.length ≤ 9
  · rw [if_pos hcond] at h
    cases h
    have hends : Ends [] [] k := ⟨hdigit, fun _ _ => hcond.1, fun _ => ⟨hcond.2.1, hcond.2.2.1⟩⟩
    have htext : NumberText sign int [] [] := ⟨hsign, hint, .inl rfl, .inl rfl⟩
    refine ⟨sign, int, [], [], hall, htext, hends, ?_⟩
    rw [hall] at hcond
    unfold numberIn
    rw [if_pos ((htext.short_iff hends).1 hcond)]
  · rw [if_neg hcond] at h
    obtain ⟨frac, r, rfl, hfrac, hdigit', hpoint, h⟩ := decimalPart_ok h
    obtain ⟨exp, r, rfl, hexp, hdigit'', hnone, h⟩ := exponentPart_ok h
    cases h
    have hends : Ends frac exp k := ⟨hdigit'' (hdigit' hdigit), fun hf he => by rw [he] at hpoint; exact hpoint hf, hnone⟩
    have htext : NumberText sign int frac exp := ⟨hsign, hint, hfrac, hexp⟩
    refine ⟨sign, int, frac, exp, hall, htext, hends, ?_⟩
    rw [hall] at hcond
    unfold numberIn
    rw [if_neg fun hs => hcond ((htext.short_iff hends).2 hs)]

end JsonGrammar

end FortiRdp.Util
