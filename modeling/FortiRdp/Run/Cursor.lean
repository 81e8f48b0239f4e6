/-
Parsers that walk a text by position and go on after an error, of which they keep the first. Such a parser
reads as a function of what is left of the text does when it never looks behind the terminator, stops where
the function stops, and fails with its error.
-/
import Mathlib.Data.List.Basic

namespace FortiRdp.Run

variable {γ ε α β : Type}

/-- A position in a text, and the first error. -/
structure Cursor (ε : Type) where
  i : Nat
  err : ε
  failed : Bool

/-- A parser. It has no value when it reads behind the terminator of the text or steps back in front of it. -/
abbrev Scan (ε α : Type) := StateT (Cursor ε) Option α

/-- A function of what is left of the text. -/
abbrev Reader (γ ε α : Type) := StateT (List γ) (Except ε) α

namespace Scan

/-! ## Steps -/

/-- `str[i]`, the terminator included. -/
def cur [Zero γ] (str : List γ) : Scan ε γ := fun c => if c.i ≤ str.length then some (str.getD c.i 0, c) else none

/-- `str[i + 1]`. -/
def ahead [Zero γ] (str : List γ) : Scan ε γ :=
  fun c => if c.i + 1 ≤ str.length then some (str.getD (c.i + 1) 0, c) else none

/-- `i += n`. -/
def next (n : Nat) : Scan ε Unit := fun c => some ((), { c with i := c.i + n })

/-- `i--`. -/
def back : Scan ε Unit := fun c => if c.i = 0 then none else some ((), { c with i := c.i - 1 })

/-- The first error is kept. -/
def fail (e : ε) (ret : α) : Scan ε α := fun c => some (ret, if c.failed then c else { c with err := e, failed := true })

/-- `while (p(str[i])) i++`, for a property that the terminator does not have. -/
def skipWhile (str : List γ) (p : γ → Bool) : Scan ε Unit :=
  fun c => if c.i ≤ str.length then some ((), { c with i := c.i + ((str.drop c.i).takeWhile p).length }) else none

end Scan

/-! ## Reading -/

/-- Where a parser stands after the function came to its result. -/
def Agrees (str : List γ) (err : ε) : Except ε (α × List γ) → α → Cursor ε → Prop
  | .ok (b, rest), a, d => a = b ∧ d.failed = false ∧ d.err = err ∧ str.drop d.i = rest
  | .error e, _, d => d.failed = true ∧ d.err = e

/-- A function that takes the next character, if there is one. -/
def uncons (f : Reader γ ε α) (g : γ → Reader γ ε α) : Reader γ ε α
  | [] => f []
  | ch :: rest => g ch rest

/-- What a parser does after an error: it stays in the text and keeps the error. -/
def Moves (str : List γ) (k : Nat) (c : Cursor ε) (d : Cursor ε) : Prop :=
  c.i ≤ d.i + k ∧ d.i ≤ str.length ∧ (c.failed = true → d.failed = true ∧ d.err = c.err)

/-- From a position behind `k` characters that have been read, the parser goes at most back to these and stays in
the text; after an error the error is kept, and before one it does what the function does from these on. -/
def ReadsAt (str : List γ) (k : Nat) (c : Cursor ε) (x : Scan ε α) (f : Reader γ ε α) : Prop :=
  ∃ a d, x c = some (a, d) ∧ Moves str k c d ∧ (c.failed = false → Agrees str c.err (f (str.drop (c.i - k))) a d)

/-- The parser does so from any such position. -/
def Reads (str : List γ) (k : Nat) (x : Scan ε α) (f : Reader γ ε α) : Prop :=
  ∀ c : Cursor ε, k ≤ c.i → c.i ≤ str.length → ReadsAt str k c x f

theorem Moves.refl {str : List γ} {k : Nat} {c : Cursor ε} (h : c.i ≤ str.length) : Moves str k c c :=
  ⟨Nat.le_add_right _ _, h, fun h => ⟨h, rfl⟩⟩

theorem Moves.trans {str : List γ} {j k : Nat} {c d e : Cursor ε} (h : Moves str j c d) (h' : Moves str k d e) :
    Moves str (j + k) c e := by
  obtain ⟨h₁, -, h₂⟩ := h
  obtain ⟨h₃, h₄, h₅⟩ := h'
  refine ⟨by omega, h₄, fun hc => ?_⟩
  obtain ⟨hf, he⟩ := h₂ hc
  obtain ⟨hf', he'⟩ := h₅ hf
  exact ⟨hf', he'.trans he⟩

section Rules

variable {str : List γ} {k : Nat} {x : Scan ε α} {f : Reader γ ε α}

theorem ReadsAt.ite {c : Cursor ε} {p : Prop} [Decidable p] {y : Scan ε α} {g : Reader γ ε α} (hx : p → ReadsAt str k c x f)
    (hy : ¬ p → ReadsAt str k c y g) : ReadsAt str k c (if p then x else y) fun rest => if p then f rest else g rest := by
  by_cases h : p
  · simp only [if_pos h]
    exact hx h
  · simp only [if_neg h]
    exact hy h

namespace Reads

theorem pure (a : α) : Reads str 0 (Pure.pure a : Scan ε α) (Pure.pure a) :=
  fun c _ hc => ⟨a, c, rfl, .refl hc, fun h => ⟨rfl, h, rfl, rfl⟩⟩

theorem fail (e : ε) (ret : α) : Reads str 0 (Scan.fail e ret) fun _ => .error e := by
  intro c _ hc
  cases h : c.failed with
  | true => exact ⟨ret, c, by simp [Scan.fail, h], .refl hc, fun h' => absurd (h.symm.trans h') (by decide)⟩
  | false =>
    refine ⟨ret, { c with err := e, failed := true },
      by simp [Scan.fail, h], ⟨Nat.le_refl _, hc, fun h' => ?_⟩, fun _ => ⟨rfl, rfl⟩⟩
    rw [h] at h'
    cases h'

theorem bind {y : α → Scan ε β} {g : α → Reader γ ε β} (hx : Reads str k x f) (hy : ∀ a, Reads str 0 (y a) (g a)) :
    Reads str k (x >>= y) (f >>= g) := by
  intro c hk hc
  obtain ⟨a, d, hrun, hmoves, hok⟩ := hx c hk hc
  obtain ⟨b, e, hrun', hmoves', hok'⟩ := hy a d (Nat.zero_le _) hmoves.2.1
  refine ⟨b, e, ?_, hmoves.trans hmoves', fun h => ?_⟩
  · show (x c >>= fun p => y p.1 p.2) = _
    rw [hrun]
    exact hrun'
  · have hagrees := hok h
    show Agrees str c.err (f (str.drop (c.i - k)) >>= fun p => g p.1 p.2) b e
    cases hf : f (str.drop (c.i - k)) with
    | error err =>
      rw [hf] at hagrees
      obtain ⟨hd, he⟩ := hagrees
      obtain ⟨hd', he'⟩ := hmoves'.2.2 hd
      exact ⟨hd', he'.trans he⟩
    | ok p =>
      rw [hf] at hagrees
      obtain ⟨rfl, hd, he, hrest⟩ := hagrees
      have hagrees' := hok' hd
      rw [Nat.sub_zero, he, hrest] at hagrees'
      exact hagrees'

theorem ite {p : Prop} [Decidable p] {y : Scan ε α} {g : Reader γ ε α} (hx : p → Reads str k x f)
    (hy : ¬ p → Reads str k y g) :
    Reads str k (if p then x else y) (if p then f else g) := by
  by_cases h : p
  · rw [if_pos h, if_pos h]
    exact hx h
  · rw [if_neg h, if_neg h]
    exact hy h

theorem iteAt {p : Prop} [Decidable p] {y : Scan ε α} {g : Reader γ ε α} (hx : p → Reads str k x f)
    (hy : ¬ p → Reads str k y g) :
    Reads str k (if p then x else y) fun rest => if p then f rest else g rest :=
  fun c hk hc => ReadsAt.ite (fun h => hx h c hk hc) fun h => hy h c hk hc

theorem ifEnd {y : Scan ε α} {g : Reader γ ε α} (hx : Reads str 0 x f) (hy : Reads str 0 y g) :
    Reads str 0 (do if (← get).i = str.length then x else y) fun rest => if rest = [] then f rest else g rest := by
  intro c hk hc
  have hend : str.drop c.i = [] ↔ c.i = str.length :=
    List.drop_eq_nil_iff.trans ⟨fun h => Nat.le_antisymm hc h, Nat.le_of_eq ∘ Eq.symm⟩
  show ∃ a d, (if c.i = str.length then x else y) c = some (a, d) ∧ _ ∧
    (_ → Agrees str c.err (if str.drop c.i = [] then f (str.drop c.i) else g (str.drop c.i)) a d)
  by_cases h : c.i = str.length
  · rw [if_pos h, if_pos (hend.2 h)]
    exact hx c hk hc
  · rw [if_neg h, if_neg fun h' => h (hend.1 h')]
    exact hy c hk hc

/-- The function may be given by its values. -/
theorem congr {g : Reader γ ε α} (hx : Reads str k x f) (h : ∀ rest, f rest = g rest) : Reads str k x g :=
  (funext h : f = g) ▸ hx

/-- The characters before the position need not be looked at. -/
theorem forward (hx : Reads str 0 x f) : Reads str k x fun rest => f (rest.drop k) := by
  intro c hk hc
  obtain ⟨a, d, hrun, ⟨hle, hd, hkept⟩, hok⟩ := hx c (Nat.zero_le _) hc
  refine ⟨a, d, hrun, ⟨by omega, hd, hkept⟩, fun h => ?_⟩
  show Agrees str c.err (f ((str.drop (c.i - k)).drop k)) a d
  rw [List.drop_drop, Nat.sub_add_cancel hk]
  exact hok h

theorem back (hx : Reads str 0 x f) : Reads str 1 (Scan.back >>= fun _ => x) f := by
  intro c hk hc
  obtain ⟨a, d, hrun, ⟨hle, hd, hkept⟩, hok⟩ := hx { c with i := c.i - 1 } (Nat.zero_le _) (by show c.i - 1 ≤ _; omega)
  refine ⟨a, d, ?_, ⟨?_, hd, hkept⟩, hok⟩
  · show ((if c.i = 0 then none else some ((), { c with i := c.i - 1 })) >>= fun p : Unit × Cursor ε => x p.2) = _
    rw [if_neg (by omega)]
    exact hrun
  · have hle' : c.i - 1 ≤ d.i + 0 := hle
    omega

/-- What follows an error is not read. -/
theorem unlessFailed {ret : α} (hx : Reads str k x f) : Reads str k (do if (← get).failed then Pure.pure ret else x) f := by
  intro c hk hc
  show ∃ a d, (if c.failed = true then (Pure.pure ret : Scan ε α) else x) c = some (a, d) ∧ _
  cases h : c.failed with
  | true =>
    rw [if_pos rfl]
    exact ⟨ret, c, rfl, .refl hc, fun h' => by cases h'⟩
  | false =>
    rw [if_neg Bool.false_ne_true]
    obtain ⟨a, d, hrun, hmoves, hok⟩ := hx c hk hc
    exact ⟨a, d, hrun, hmoves, fun _ => hok h⟩

/-- The position where a parser begins. -/
theorem start {y : Nat → Scan ε α} {g : List γ → Reader γ ε α} (hy : ∀ i ≤ str.length, Reads str 0 (y i) (g (str.drop i))) :
    Reads str 0 (do y (← get).i) fun rest => g rest rest :=
  fun c hk hc => hy c.i hc c hk hc

theorem drop_takeWhile (p : γ → Bool) (l : List γ) : l.drop (l.takeWhile p).length = l.dropWhile p :=
  calc l.drop (l.takeWhile p).length
    _ = (l.takeWhile p ++ l.dropWhile p).drop (l.takeWhile p).length := by rw [List.takeWhile_append_dropWhile]
    _ = l.dropWhile p := List.drop_left

theorem skipWhile (p : γ → Bool) : Reads str 0 (Scan.skipWhile str p : Scan ε Unit) fun rest =>
    .ok ((), rest.dropWhile p) := by
  intro c _ hc
  have hlen : ((str.drop c.i).takeWhile p).length ≤ str.length - c.i := by
    rw [← List.length_drop]
    exact (List.takeWhile_prefix p).length_le
  refine ⟨(), { c with i := c.i + ((str.drop c.i).takeWhile p).length }, if_pos hc,
    ⟨Nat.le_add_right _ _, ?_, fun h => ⟨h, rfl⟩⟩,
    fun h => ⟨rfl, h, rfl, ?_⟩⟩
  · show c.i + _ ≤ _
    omega
  · show str.drop (c.i + _) = _
    rw [← List.drop_drop]
    exact drop_takeWhile p _

theorem next (hx : Reads str 0 x f) {c : Cursor ε} (hlt : c.i < str.length) :
    ReadsAt str 0 c (Scan.next 1 >>= fun _ => x) fun rest => f rest.tail := by
  obtain ⟨a, d, hrun, ⟨hle, hd, hkept⟩, hok⟩ := hx { c with i := c.i + 1 } (Nat.zero_le _) hlt
  refine ⟨a, d, hrun, ⟨Nat.le_of_succ_le hle, hd, hkept⟩, fun h => ?_⟩
  show Agrees str c.err (f (str.drop c.i).tail) a d
  rw [List.tail_drop]
  exact hok h

/-- The next `n` characters are looked at, and passed over when they are accepted. -/
theorem look (n : Nat) {p : List γ → Prop} [DecidablePred p] (hp : ∀ w, ¬ p w → n ≤ w.length) {x y : List γ → Scan ε α}
    {f g : List γ → Reader γ ε α} (hx : ∀ w, Reads str 0 (x w) (f w)) (hy : ∀ w, ¬ p w → Reads str 0 (y w) (g w)) :
    Reads str 0 (do
      let w := (str.drop (← get).i).take n
      if p w then x w
      else do
        Scan.next n
        y w) fun rest => if p (rest.take n) then f (rest.take n) rest else g (rest.take n) (rest.drop n) := by
  intro c hk hc
  show ∃ a d, (if p ((str.drop c.i).take n) then x ((str.drop c.i).take n)
    else Scan.next n >>= fun _ => y ((str.drop c.i).take n)) c = some (a, d) ∧ _ ∧ (_ → Agrees str c.err
      (if p ((str.drop c.i).take n) then f ((str.drop c.i).take n) (str.drop c.i)
        else g ((str.drop c.i).take n) ((str.drop c.i).drop n)) a d)
  by_cases hw : p ((str.drop c.i).take n)
  · rw [if_pos hw, if_pos hw]
    exact hx _ c hk hc
  · rw [if_neg hw, if_neg hw]
    have hlen := hp _ hw
    rw [List.length_take, List.length_drop] at hlen
    obtain ⟨a, d, hrun, ⟨hle, hd, hkept⟩, hok⟩ :=
      hy _ hw { c with i := c.i + n } (Nat.zero_le _) (by show c.i + n ≤ _; omega)
    have hle' : c.i + n ≤ d.i + 0 := hle
    refine ⟨a, d, hrun, ⟨by omega, hd, hkept⟩, fun h => ?_⟩
    rw [List.drop_drop]
    exact hok h

/-! ### Characters -/

section Characters

variable [Zero γ]

theorem getD_eq_headD (str : List γ) (i : Nat) : str.getD i 0 = (str.drop i).headD 0 := by
  rw [List.headD_eq_head?_getD, List.head?_drop, List.getD_eq_getElem?_getD]

theorem cur_bind {c : Cursor ε} (hc : c.i ≤ str.length) (w : γ → Scan ε α) :
    (Scan.cur str >>= w) c = w ((str.drop c.i).headD 0) c := by
  rw [← getD_eq_headD]
  show ((if c.i ≤ str.length then some (str.getD c.i 0, c) else none) >>= fun q => w q.1 q.2) = _
  rw [if_pos hc]
  rfl

theorem ahead_bind {c : Cursor ε} (hc : c.i + 1 ≤ str.length) (w : γ → Scan ε α) :
    (Scan.ahead str >>= w) c = w ((str.drop (c.i + 1)).headD 0) c := by
  rw [← getD_eq_headD]
  show ((if c.i + 1 ≤ str.length then some (str.getD (c.i + 1) 0, c) else none) >>= fun q => w q.1 q.2) = _
  rw [if_pos hc]
  rfl

/-- A character that is not the terminator is there. -/
theorem lt_of_head {i : Nat} (hi : i ≤ str.length) (h : (str.drop i).headD 0 ≠ 0) : i < str.length := by
  refine Nat.lt_of_le_of_ne hi fun heq => h ?_
  rw [List.drop_eq_nil_of_le (Nat.le_of_eq heq.symm)]
  rfl

/-- A look at the next character, which is the terminator at the end. -/
theorem curAt {y : γ → Scan ε α} {g : γ → Reader γ ε α}
    (hy : ∀ c : Cursor ε, c.i ≤ str.length → ∀ ch, (ch ≠ 0 → c.i < str.length) → ReadsAt str 0 c (y ch) (g ch)) :
    Reads str 0 (Scan.cur str >>= y) fun rest => g (rest.headD 0) rest := by
  intro c _ hc
  show ∃ a d, (Scan.cur str >>= y) c = some (a, d) ∧ _
  rw [cur_bind hc]
  exact hy c hc _ (lt_of_head hc)

theorem cur {y : γ → Scan ε α} {g : γ → Reader γ ε α} (hy : ∀ ch, Reads str 0 (y ch) (g ch)) :
    Reads str 0 (Scan.cur str >>= y) fun rest => g (rest.headD 0) rest :=
  curAt fun c hc ch _ => hy ch c (Nat.zero_le _) hc

/-- A character is taken when it satisfies what the terminator does not. -/
theorem curIf {p : γ → Bool} (hp : p 0 = false) {y z : γ → Scan ε α} {g h : γ → Reader γ ε α}
    (hy : ∀ ch, p ch = true → Reads str 0 (y ch) (g ch)) (hz : ∀ ch, p ch = false → Reads str 0 (z ch) (h ch)) :
    Reads str 0 (do
      let ch ← Scan.cur str
      if p ch then do
        Scan.next 1
        y ch
      else z ch) fun rest => if p (rest.headD 0) then g (rest.headD 0) rest.tail else h (rest.headD 0) rest := by
  refine curAt (g := fun ch rest => if p ch then g ch rest.tail else h ch rest) fun c hc ch hlt =>
    ReadsAt.ite (fun hch => ?_) fun hch => ?_
  · refine next (hy ch hch) (hlt ?_)
    rintro rfl
    rw [hp] at hch
    cases hch
  · exact hz ch (Bool.eq_false_iff.2 hch) c (Nat.zero_le _) hc

/-- The next character is taken, unless the text ends here. -/
theorem take {y : γ → Scan ε α} {g : γ → Reader γ ε α} (hx : Reads str 0 x f) (hy : ∀ ch, Reads str 0 (y ch) (g ch)) :
    Reads str 0 (do
      if (← get).i = str.length then x
      else do
        let ch ← Scan.cur str
        Scan.next 1
        y ch) (uncons f g) := by
  intro c hk hc
  show ∃ a d, (if c.i = str.length then x else (Scan.cur str >>= fun ch => Scan.next 1 >>= fun _ => y ch)) c =
    some (a, d) ∧ _
  by_cases h : c.i = str.length
  · rw [if_pos h]
    have hnil : str.drop (c.i - 0) = [] := List.drop_eq_nil_of_le (Nat.le_of_eq h.symm)
    obtain ⟨a, d, hrun, hmoves, hok⟩ := hx c hk hc
    refine ⟨a, d, hrun, hmoves, fun h => ?_⟩
    have hagrees := hok h
    rw [hnil] at hagrees ⊢
    exact hagrees
  · rw [if_neg h, cur_bind hc]
    have hlt : c.i < str.length := Nat.lt_of_le_of_ne hc h
    have hcons : str.drop c.i = str[c.i] :: str.drop (c.i + 1) := List.drop_eq_getElem_cons hlt
    obtain ⟨a, d, hrun, hmoves, hok⟩ := next (hy str[c.i]) hlt
    rw [hcons, Nat.sub_zero, hcons]
    refine ⟨a, d, hrun, hmoves, fun h => ?_⟩
    have hagrees : Agrees str c.err (g str[c.i] (str.drop c.i).tail) a d := hok h
    rw [hcons] at hagrees
    exact hagrees

end Characters

end Reads

end Rules

/-! ### Tokens -/

/-- A parser that takes a character, which the function leaves where it is: behind the character the parser may go back
to it. After an error it returns the terminator. -/
def Takes [Zero γ] (str : List γ) (t : Scan ε γ) (f : Reader γ ε γ) : Prop :=
  ∀ c : Cursor ε, c.i ≤ str.length → ∃ a d, t c = some (a, d) ∧ Moves str 0 c d ∧ (d.failed = true → a = 0) ∧
    (c.failed = false → Agrees str c.err (f (str.drop c.i)) a { d with i := d.i - 1 } ∧ (d.failed = false → c.i < d.i))

/-- After an error a parser stays in the text. -/
def Passes (str : List γ) (k : Nat) (x : Scan ε α) : Prop :=
  ∀ c : Cursor ε, c.failed = true → k ≤ c.i → c.i ≤ str.length → ∃ a d, x c = some (a, d) ∧ Moves str k c d

theorem Passes.unlessFailed {str : List γ} {x : Scan ε α} {ret : α} :
    Passes str 0 (do if (← get).failed then Pure.pure ret else x) := by
  intro c h _ hc
  refine ⟨ret, c, ?_, .refl hc⟩
  show (if c.failed = true then (Pure.pure ret : Scan ε α) else x) c = _
  rw [if_pos h]
  rfl

theorem Reads.passes {str : List γ} {k : Nat} {x : Scan ε α} {f : Reader γ ε α} (hx : Reads str k x f) : Passes str k x := by
  intro c _ hk hc
  obtain ⟨a, d, hrun, hmoves, -⟩ := hx c hk hc
  exact ⟨a, d, hrun, hmoves⟩

section Tokens

variable [Zero γ] {str : List γ} {k : Nat} {t : Scan ε γ} {f : Reader γ ε γ}

/-- The character behind what another parser passes over. -/
theorem Takes.after {x : Scan ε Unit} {f : Reader γ ε Unit} {e : ε} (hx : Reads str 0 x f) :
    Takes str (do
      x
      if (← get).failed then Pure.pure 0
      else if (← get).i = str.length then Scan.fail e 0
      else do
        let ch ← Scan.cur str
        Scan.next 1
        Pure.pure ch) (f >>= fun _ => uncons (fun _ => .error e) fun ch rest => .ok (ch, ch :: rest)) := by
  intro c hc
  obtain ⟨u, d, hrun, hmoves, hok⟩ := hx c (Nat.zero_le _) hc
  have hbind (y : Scan ε γ) : (x >>= fun _ => y) c = y d := by
    show (x c >>= fun p => y p.2) = _
    rw [hrun]
    rfl
  rw [hbind]
  show ∃ a e', (if d.failed = true then (Pure.pure 0 : Scan ε γ) else _) d = some (a, e') ∧ _
  have hread (h : c.failed = false) : (f >>= fun _ => uncons (fun _ => .error e) fun ch rest =>
    .ok (ch, ch :: rest)) (str.drop c.i) =
      (f (str.drop c.i) >>= fun p => uncons (fun _ => .error e) (fun ch rest =>
        .ok (ch, ch :: rest)) p.2 : Except ε (γ × List γ)) := rfl
  cases hd : d.failed with
  | true =>
    rw [if_pos rfl]
    refine ⟨0, d, rfl, hmoves, fun _ => rfl, fun h => ⟨?_, fun h' => ?_⟩⟩
    · have hagrees := hok h
      rw [hread h]
      cases hf : f (str.drop c.i) with
      | error err =>
        rw [Nat.sub_zero, hf] at hagrees
        exact hagrees
      | ok p =>
        rw [Nat.sub_zero, hf] at hagrees
        rw [hagrees.2.1] at hd
        cases hd
    · rw [hd] at h'
      cases h'
  | false =>
    rw [if_neg Bool.false_ne_true]
    have hc' : c.failed = false := by
      cases h : c.failed with
      | false => rfl
      | true =>
        rw [(hmoves.2.2 h).1] at hd
        cases hd
    have hagrees := hok hc'
    obtain ⟨p, hf⟩ : ∃ p, f (str.drop c.i) = .ok p := by
      cases hf : f (str.drop c.i) with
      | ok p => exact ⟨p, rfl⟩
      | error err =>
        rw [Nat.sub_zero, hf] at hagrees
        rw [hagrees.1] at hd
        cases hd
    rw [Nat.sub_zero, hf] at hagrees
    obtain ⟨-, -, herr, hrest⟩ := hagrees
    have hle := hmoves.1
    have hstop : (f >>= fun _ => uncons (fun _ => .error e) fun ch rest => .ok (ch, ch :: rest)) (str.drop c.i) =
        uncons (fun _ => .error e) (fun ch rest => .ok (ch, ch :: rest)) p.2 := by
      rw [hread hc', hf]
      rfl
    show ∃ a e', (if d.i = str.length then Scan.fail e (0 : γ)
      else (Scan.cur str >>= fun ch => Scan.next 1 >>= fun _ => Pure.pure ch)) d = some (a, e') ∧ _
    rw [hstop, ← hrest]
    by_cases hend : d.i = str.length
    · rw [if_pos hend]
      rw [List.drop_eq_nil_of_le (Nat.le_of_eq hend.symm)]
      refine ⟨0, { d with err := e, failed := true }, by simp [Scan.fail, hd], ⟨hle, hmoves.2.1, fun h => ?_⟩, fun _ => rfl,
        fun _ => ⟨⟨rfl, rfl⟩, fun h => ?_⟩⟩
      · rw [hc'] at h
        cases h
      · cases h
    · have hlt : d.i < str.length := Nat.lt_of_le_of_ne hmoves.2.1 hend
      have hcons : str.drop d.i = str[d.i] :: str.drop (d.i + 1) := List.drop_eq_getElem_cons hlt
      rw [if_neg hend, Reads.cur_bind hmoves.2.1]
      refine ⟨(str.drop d.i).headD 0, { d with i := d.i + 1 }, rfl, ⟨Nat.le_succ_of_le hle, hlt, fun h => ?_⟩,
        fun h => ?_, fun _ => ⟨?_, fun _ => ?_⟩⟩
      · rw [hc'] at h
        cases h
      · rw [show d.failed = true from h] at hd
        cases hd
      · rw [hcons]
        exact ⟨rfl, hd, herr, hcons⟩
      · exact Nat.lt_succ_of_le hle

/-- Behind a token the parser may go back to it, or go on after the error that there was none. -/
theorem Reads.token {y : γ → Scan ε α} {g : γ → Reader γ ε α} (ht : Takes str t f) (hy : ∀ ch, Reads str 1 (y ch) (g ch))
    (hfail : Passes str k (y 0)) : Reads str k (t >>= y) fun rest => (f >>= g) (rest.drop k) := by
  intro c hk hc
  obtain ⟨a, d, hrun, hmoves, hzero, hok⟩ := ht c hc
  have hbind : (t >>= y) c = y a d := by
    show (t c >>= fun p => y p.1 p.2) = _
    rw [hrun]
    rfl
  have hfailed (hd : d.failed = true) : ∃ b e, y a d = some (b, e) ∧ Moves str k c e ∧ e.failed = true ∧ e.err = d.err := by
    rw [hzero hd]
    obtain ⟨b, e, hrun', hmoves'⟩ := hfail d hd (Nat.le_trans hk hmoves.1) hmoves.2.1
    exact ⟨b, e, hrun', Nat.zero_add k ▸ hmoves.trans hmoves', hmoves'.2.2 hd⟩
  unfold ReadsAt
  rw [hbind]
  cases hc' : c.failed with
  | true =>
    obtain ⟨b, e, hrun', hmoves', -⟩ := hfailed (hmoves.2.2 hc').1
    exact ⟨b, e, hrun', hmoves', fun h => by cases h⟩
  | false =>
    obtain ⟨hagrees, hlt⟩ := hok hc'
    have hdrop : (str.drop (c.i - k)).drop k = str.drop c.i := by rw [List.drop_drop, Nat.sub_add_cancel hk]
    show ∃ b e, _ ∧ _ ∧ (_ → Agrees str c.err (f ((str.drop (c.i - k)).drop k) >>= fun p => g p.1 p.2) b e)
    rw [hdrop]
    cases hf : f (str.drop c.i) with
    | error err =>
      rw [hf] at hagrees
      obtain ⟨hd, he⟩ := hagrees
      obtain ⟨b, e, hrun', hmoves', hf', he'⟩ := hfailed hd
      exact ⟨b, e, hrun', hmoves', fun _ => ⟨hf', he'.trans he⟩⟩
    | ok p =>
      rw [hf] at hagrees
      obtain ⟨rfl, hd, he, hrest⟩ := hagrees
      obtain ⟨b, e, hrun', ⟨hle, hlen, hkept⟩, hok'⟩ := hy p.1 d (Nat.one_le_of_lt (hlt hd)) hmoves.2.1
      refine ⟨b, e, hrun', ⟨?_, hlen, fun h => by rw [hc'] at h; cases h⟩, fun _ => ?_⟩
      · have := hlt hd
        omega
      · have hagrees' := hok' hd
        have hrest' : str.drop (d.i - 1) = p.2 := hrest
        rw [hrest', show d.err = c.err from he] at hagrees'
        exact hagrees'

/-- Behind a token the parser goes on. -/
theorem Takes.reads {y : γ → Scan ε α} {g : γ → Reader γ ε α} (ht : Takes str t f) (hy : ∀ ch, Reads str 0 (y ch) (g ch)) :
    Reads str 0 (t >>= y) (f >>= fun ch rest => g ch (rest.drop 1)) :=
  (Reads.token ht (fun ch => (hy ch).forward) (hy 0).passes).congr fun _ => rfl

end Tokens

end FortiRdp.Run
