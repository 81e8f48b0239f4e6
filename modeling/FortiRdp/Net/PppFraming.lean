/-
The framing of PPP over SSL: what the parser holds between two bytes, that cutting the stream into
chunks does not matter, and that the parser reads back the packets that were written.
-/
import FortiRdp.Net.Pppossl

namespace FortiRdp.Net

open FortiRdp.Lwip

/-! ## The frame of a packet -/

/-- The header in front of `n` bytes, as it is in memory. -/
def headerBytes (n : Nat) : Bytes := [hi8 (n + 6), lo8 (n + 6), 0x50, 0x50, hi8 n, lo8 n]

theorem gather_eq : ∀ {c : List Pbuf} {m : Bytes} {off : Nat}, off + (content c).length ≤ m.length →
    gather m off c = overwrite m off (content c)
  | [], m, off, _ => by simp [gather]
  | p :: c, m, off, h => by
    rw [content_cons, List.length_append] at h
    have hrest : off + p.len + (content c).length ≤ (overwrite m off p.payload).length := by
      rw [length_overwrite, Pbuf.len]; omega
    rw [gather, gather_eq hrest, content_cons]
    exact overwrite_overwrite rfl (by omega)

theorem pppFrame_eq {a : Alloc} {pbuf : List Pbuf} {frame : Pbuf} (ht : TotOk pbuf)
    (hb : (content pbuf).length + 6 < 65536) (h : pppFrame a pbuf = some frame) :
    frame = { payload := headerBytes (content pbuf).length ++ content pbuf,
              totLen := (content pbuf).length + 6, flags := 0 } := by
  obtain ⟨f, hf, rfl⟩ := Option.map_eq_some_iff.1 h
  obtain ⟨junk, -, rfl⟩ := Option.map_eq_some_iff.1 hf
  rw [totLen_eq ht]
  have hmod : (sizeofPppHeader + (content pbuf).length) % 65536 = (content pbuf).length + 6 := by
    unfold sizeofPppHeader; omega
  simp only [hmod, Pbuf.mk.injEq, and_true]
  generalize hm : (List.range ((content pbuf).length + 6)).map junk = m
  have hlen : m.length = (content pbuf).length + 6 := by rw [← hm]; simp
  rw [gather_eq (by simp [hlen, sizeofPppHeader]; omega)]
  -- the four copies lie one behind the other and cover the whole buffer
  unfold store16
  unfold sizeofPppHeader
  rw [overwrite_overwrite, overwrite_overwrite, overwrite_overwrite, overwrite_all]
  · simp only [headerBytes, lo8_htons, hi8_htons, List.cons_append, List.nil_append]
    rfl
  all_goals simp [hlen]
  all_goals omega

/-! ## Between two bytes -/

/-- Either some of the six header bytes and no pbuf, or a header that passed the checks and one
pbuf of the announced size that is not full. -/
inductive InOk : In → Prop
  | header {i : In} (state : i.state = .ppHeader) (counter : i.counter < 6) (len : i.header.length = 6)
      (data : i.data = none) : InOk i
  | data {i : In} {id : Nat} {p : Pbuf} (state : i.state = .ppData) (len : i.header.length = 6)
      (data : i.data = some (id, [p])) (tot : p.totLen = p.len) (size : p.len = load16 i.header 2)
      (max : p.len ≤ 16384) (counter : i.counter < p.len ∨ i.counter = 0 ∧ p.len = 0) : InOk i

theorem InOk.zero : InOk In.zero := .header rfl (by decide) rfl rfl

theorem drop_inp (err : PppErr) (w : Input) : (drop err w).2.inp = In.zero := by
  unfold drop; split <;> rfl

theorem drop_err (err : PppErr) (w : Input) : (drop err w).1 = err := by
  unfold drop; split <;> rfl

theorem headerStep_ok {alloc : Nat → Alloc} {w w' : Input} {b : UInt8} (hs : w.inp.state = .ppHeader)
    (hc : w.inp.counter < 6) (hl : w.inp.header.length = 6) (hd : w.inp.data = none)
    (h : headerStep alloc w b = .ok w') : InOk w'.inp := by
  have hmod : (w.inp.counter + 1) % 65536 = w.inp.counter + 1 := by omega
  unfold headerStep at h
  simp only [hmod, sizeofPppHeader] at h
  split at h
  · split at h
    · cases h
    split at h
    · cases h
    rename_i hmax
    split at h
    · cases h
    rename_i p hp
    obtain ⟨junk, -, rfl⟩ := Option.map_eq_some_iff.1 hp
    cases h
    have hlen : (ntohsHeader (w.inp.header.set w.inp.counter b)).length = 6 := by simp [ntohsHeader, hl]
    generalize ntohsHeader _ = hdr at hmax hlen ⊢
    have hsize : load16 hdr 2 % 65536 = load16 hdr 2 := by omega
    refine .data rfl hlen rfl ?_ ?_ ?_ ?_
    · simp [Pbuf.len]
    · simp [Pbuf.len, hsize]
    · simp only [Pbuf.len, List.length_map, List.length_range]; omega
    · exact (Nat.eq_zero_or_pos _).symm.imp_right fun h => ⟨rfl, h⟩
  · cases h
    exact .header hs (by simp only; omega) (by simpa using hl) hd

theorem headerStep_error {alloc : Nat → Alloc} {w : Input} {b : UInt8} {r : PppErr × Input}
    (h : headerStep alloc w b = .error r) : r.1 ≠ .pppErrNone ∧ r.2.inp = .zero := by
  have hdrop : ∀ {err : PppErr} {v : Input}, err ≠ .pppErrNone → drop err v = r →
      r.1 ≠ .pppErrNone ∧ r.2.inp = .zero := by
    rintro err v hne rfl
    exact ⟨by rwa [drop_err], drop_inp err v⟩
  unfold headerStep at h
  simp only at h
  split at h
  · split at h
    · exact hdrop (by decide) (Except.error.inj h)
    split at h
    · exact hdrop (by decide) (Except.error.inj h)
    split at h
    · exact hdrop (by decide) (Except.error.inj h)
    · cases h
  · cases h

/-- What one pass does to a payload that is not full. -/
def dataNext (w : Input) (id : Nat) (p : Pbuf) (s : Bytes) : Input :=
  let k := min (p.len - w.inp.counter) s.length
  let p' := { p with payload := overwrite p.payload w.inp.counter (s.take k) }
  if w.inp.counter + k = p.len then { w with inp := .zero, log := w.log ++ [.pppInput id [p']] }
  else { w with inp := { w.inp with counter := w.inp.counter + k, data := some (id, [p']) } }

theorem dataStep_eq {w : Input} {id : Nat} {p : Pbuf} (hd : w.inp.data = some (id, [p])) (ht : p.totLen = p.len)
    (hn : p.len = load16 w.inp.header 2) (hmax : p.len ≤ 16384) (hc : w.inp.counter < p.len) (s : Bytes) :
    dataStep w s = .ok (dataNext w id p s, s.drop (min (p.len - w.inp.counter) s.length)) := by
  have hlen : copyLen w.inp s.length = min (p.len - w.inp.counter) s.length := by
    unfold copyLen; rw [← hn, if_neg (by omega)]
  unfold dataStep dataNext
  rw [hlen, hd]
  generalize hk : min (p.len - w.inp.counter) s.length = k
  have hmod : k % 65536 = k := by omega
  have htake : (s.take k).length = k := by rw [List.length_take]; omega
  simp only [Option.map_some, Option.getD_some, hmod]
  rw [pbufTakeAt_single ht hc (by rw [htake]; omega)]
  have hmod' : (w.inp.counter + k) % 65536 = w.inp.counter + k := by omega
  simp only [hmod', ← hn, reduceCtorEq, if_false, Option.toList_some]
  split <;> rfl

/-- A payload of no bytes is never complete: the copy is refused and the frame is dropped. -/
theorem dataStep_empty {w : Input} {id : Nat} {p : Pbuf} (hd : w.inp.data = some (id, [p])) (h0 : p.len = 0)
    (s : Bytes) : dataStep w s = .error (drop .pppErrAlloc w) := by
  unfold dataStep
  simp only [hd, Option.map_some, Option.getD_some]
  rw [pbufTakeAt_end (by omega)]
  simp only [if_true]
  rw [← hd]

/-! ## One call -/

section

variable {alloc : Nat → Alloc}

theorem inputStep_ok {w w' : Input} {s s' : Bytes} (hw : InOk w.inp) (hs : s ≠ [])
    (h : inputStep alloc w s = .ok (w', s')) : InOk w'.inp ∧ s'.length < s.length := by
  cases s with
  | nil => exact absurd rfl hs
  | cons b s =>
    unfold inputStep at h
    cases hw with
    | header state counter len data =>
      simp only [state] at h
      cases hh : headerStep alloc w b with
      | error r => rw [hh] at h; cases h
      | ok v =>
        rw [hh] at h
        cases h
        exact ⟨headerStep_ok state counter len data hh, by simp⟩
    | @data id p state len data tot size max counter =>
      simp only [state] at h
      rcases counter with counter | ⟨-, h0⟩
      · rw [dataStep_eq data tot size max counter] at h
        cases h
        refine ⟨?_, by simp; omega⟩
        unfold dataNext
        simp only
        split
        · exact .zero
        · exact .data state len rfl (by simpa [Pbuf.len] using tot) (by simpa [Pbuf.len] using size)
            (by simpa [Pbuf.len] using max) (.inl (by simp [Pbuf.len] at *; omega))
      · rw [dataStep_empty data h0] at h
        cases h

theorem inputStep_error {w : Input} {s : Bytes} {r : PppErr × Input} (hw : InOk w.inp)
    (h : inputStep alloc w s = .error r) : r.1 ≠ .pppErrNone ∧ r.2.inp = .zero := by
  cases s with
  | nil => cases h
  | cons b s =>
    unfold inputStep at h
    cases hw with
    | header state counter len data =>
      simp only [state] at h
      cases hh : headerStep alloc w b with
      | error e => rw [hh] at h; cases h; exact headerStep_error hh
      | ok v => rw [hh] at h; cases h
    | data state len data tot size max counter =>
      simp only [state] at h
      rcases counter with counter | ⟨-, h0⟩
      · rw [dataStep_eq data tot size max counter] at h
        cases h
      · rw [dataStep_empty data h0] at h
        cases h
        exact ⟨by rw [drop_err]; decide, drop_inp _ _⟩

/-- More passes than bytes change nothing. -/
theorem inputLoop_fuel : ∀ {n m : Nat} {w : Input} {s : Bytes}, InOk w.inp → s.length ≤ n → s.length ≤ m →
    inputLoop alloc n w s = inputLoop alloc m w s
  | 0, 0, w, [], _, _, _ => rfl
  | 0, _ + 1, w, [], _, _, _ => rfl
  | _ + 1, 0, w, [], _, _, _ => rfl
  | _ + 1, _ + 1, w, [], _, _, _ => rfl
  | n + 1, m + 1, w, b :: s, hw, hn, hm => by
    rw [inputLoop, inputLoop]
    cases hstep : inputStep alloc w (b :: s) with
    | error r => rfl
    | ok r =>
      obtain ⟨hok, hlt⟩ := inputStep_ok hw (List.cons_ne_nil b s) hstep
      simp only [List.length_cons] at hlt hn hm
      exact inputLoop_fuel hok (by omega) (by omega)

theorem ppposslInput_cons {w : Input} (hw : InOk w.inp) (b : UInt8) (s : Bytes) :
    ppposslInput alloc w (b :: s) = match inputStep alloc w (b :: s) with
      | .error r => some r
      | .ok (w', s') => ppposslInput alloc w' s' := by
  unfold ppposslInput
  rw [List.length_cons, inputLoop]
  cases hstep : inputStep alloc w (b :: s) with
  | error r => rfl
  | ok r =>
    obtain ⟨hok, hlt⟩ := inputStep_ok hw (List.cons_ne_nil b s) hstep
    simp only [List.length_cons] at hlt
    exact inputLoop_fuel hok (by omega) le_rfl

/-- Induction over the passes of a call that starts between two bytes. -/
theorem input_induction (alloc : Nat → Alloc) {P : Input → Bytes → Prop} (nil : ∀ w, InOk w.inp → P w [])
    (error : ∀ w b s r, InOk w.inp → inputStep alloc w (b :: s) = .error r → P w (b :: s))
    (ok : ∀ w b s w' s', InOk w.inp → inputStep alloc w (b :: s) = .ok (w', s') → InOk w'.inp →
      P w' s' → P w (b :: s)) {w : Input} {s : Bytes} (hw : InOk w.inp) : P w s := by
  induction hn : s.length using Nat.strong_induction_on generalizing w s with
  | _ n ih =>
    cases s with
    | nil => exact nil w hw
    | cons b s =>
      cases hstep : inputStep alloc w (b :: s) with
      | error r => exact error w b s r hw hstep
      | ok r =>
        obtain ⟨hok, hlt⟩ := inputStep_ok hw (List.cons_ne_nil b s) hstep
        exact ok w b s r.1 r.2 hw hstep hok (ih _ (hn ▸ hlt) hok rfl)

/-- A call always ends; it returns an error only with the parser back in its initial state, and
otherwise leaves it between two bytes. -/
theorem ppposslInput_ok (alloc : Nat → Alloc) {w : Input} (hw : InOk w.inp) (s : Bytes) :
    ∃ err w', ppposslInput alloc w s = some (err, w') ∧ InOk w'.inp ∧ (err = .pppErrNone ∨ w'.inp = .zero) := by
  refine input_induction alloc (P := fun w s => ∃ err w', ppposslInput alloc w s = some (err, w') ∧
    InOk w'.inp ∧ (err = .pppErrNone ∨ w'.inp = .zero)) ?_ ?_ ?_ hw
  · intro w hw
    exact ⟨_, w, rfl, hw, .inl rfl⟩
  · intro w b s r hw hstep
    obtain ⟨-, h0⟩ := inputStep_error hw hstep
    exact ⟨r.1, r.2, by rw [ppposslInput_cons hw, hstep], h0 ▸ .zero, .inr h0⟩
  · intro w b s w' s' hw hstep _ ih
    rw [ppposslInput_cons hw, hstep]
    exact ih

/-! ## Chunks -/

theorem dataNext_short {w : Input} {id : Nat} {p : Pbuf} {a : Bytes} (ha : a.length < p.len - w.inp.counter) :
    dataNext w id p a = { w with inp := { w.inp with
      counter := w.inp.counter + a.length,
      data := some (id, [{ p with payload := overwrite p.payload w.inp.counter a }]) } } := by
  have hka : min (p.len - w.inp.counter) a.length = a.length := by omega
  unfold dataNext
  simp only [hka, List.take_length]
  rw [if_neg (by omega)]

/-- A payload that is still not full after `a` goes on as if `a` and `b` had come together. -/
theorem dataNext_append {w : Input} {id : Nat} {p : Pbuf} {a b : Bytes} (hp : w.inp.counter < p.len)
    (ha : a.length < p.len - w.inp.counter) :
    dataNext w id p (a ++ b) =
      dataNext (dataNext w id p a) id { p with payload := overwrite p.payload w.inp.counter a } b := by
  rw [dataNext_short ha]
  unfold dataNext
  simp only [Pbuf.len, length_overwrite, List.length_append]
  rw [Pbuf.len] at hp ha
  generalize hk : min (p.payload.length - (w.inp.counter + a.length)) b.length = k
  have hk' : min (p.payload.length - w.inp.counter) (a.length + b.length) = a.length + k := by omega
  have htake : (a ++ b).take (a.length + k) = a ++ b.take k := by
    rw [List.take_append, List.take_of_length_le (by omega), Nat.add_sub_cancel_left]
  rw [hk', htake, overwrite_overwrite rfl (by rw [List.length_take]; omega), Nat.add_assoc]

/-- A payload that is full before the end of `a` does not see what comes behind. -/
theorem dataNext_prefix {w : Input} {id : Nat} {p : Pbuf} {a : Bytes} (ha : p.len - w.inp.counter ≤ a.length)
    (b : Bytes) : dataNext w id p (a ++ b) = dataNext w id p a := by
  have hka : min (p.len - w.inp.counter) a.length = p.len - w.inp.counter := by omega
  have hkab : min (p.len - w.inp.counter) (a ++ b).length = p.len - w.inp.counter := by
    rw [List.length_append]; omega
  unfold dataNext
  simp only [hka, hkab, List.take_append_of_le_length ha]

theorem inputStep_append_error {w : Input} {x : UInt8} {a : Bytes} {r : PppErr × Input} (hw : InOk w.inp)
    (h : inputStep alloc w (x :: a) = .error r) (b : Bytes) : inputStep alloc w (x :: (a ++ b)) = .error r := by
  unfold inputStep at *
  cases hw with
  | header state counter len data =>
    simp only [state] at *
    cases hh : headerStep alloc w x with
    | error e => rw [hh] at h; cases h; rfl
    | ok v => rw [hh] at h; cases h
  | data state len data tot size max counter =>
    simp only [state] at *
    rcases counter with counter | ⟨-, h0⟩
    · rw [dataStep_eq data tot size max counter] at h
      cases h
    · rw [dataStep_empty data h0] at *
      exact h

/-- A pass on a longer input takes the same bytes, or it goes on where the pass on the shorter one
had to stop. -/
theorem inputStep_append {w w' : Input} {x : UInt8} {a a' : Bytes} (hw : InOk w.inp)
    (h : inputStep alloc w (x :: a) = .ok (w', a')) (b : Bytes) :
    inputStep alloc w (x :: (a ++ b)) = .ok (w', a' ++ b) ∨
      a' = [] ∧ (b ≠ [] → inputStep alloc w (x :: (a ++ b)) = inputStep alloc w' b) := by
  unfold inputStep at h
  cases hw with
  | header state counter len data =>
    left
    simp only [state] at h
    simp only [inputStep, state]
    cases hh : headerStep alloc w x with
    | error e => rw [hh] at h; cases h
    | ok v => rw [hh] at h; cases h; rfl
  | @data id p state len data tot size max counter =>
    simp only [state] at h
    rcases counter with counter | ⟨-, h0⟩
    · rw [dataStep_eq data tot size max counter] at h
      cases h
      by_cases hfull : p.len - w.inp.counter ≤ (x :: a).length
      · left
        simp only [inputStep, state]
        rw [dataStep_eq data tot size max counter, ← List.cons_append, dataNext_prefix hfull,
          List.length_append, min_eq_left hfull, min_eq_left (by omega), List.drop_append_of_le_length hfull]
      · right
        have hlt : (x :: a).length < p.len - w.inp.counter := by omega
        have hmin : min (p.len - w.inp.counter) (x :: a).length = (x :: a).length := by omega
        refine ⟨by rw [hmin, List.drop_length], fun hb => ?_⟩
        obtain ⟨y, b, rfl⟩ := List.exists_cons_of_ne_nil hb
        rw [dataNext_short hlt]
        simp only [inputStep, state]
        rw [dataStep_eq data tot size max counter, dataStep_eq rfl (by simpa [Pbuf.len] using tot)
          (by simpa [Pbuf.len] using size) (by simpa [Pbuf.len] using max) (by simp [Pbuf.len] at *; omega),
          ← List.cons_append, dataNext_append counter hlt, dataNext_short hlt]
        have hdrop : (x :: a ++ y :: b).drop (min (p.len - w.inp.counter) (x :: a ++ y :: b).length) =
            (y :: b).drop (min (p.len - (w.inp.counter + (x :: a).length)) (y :: b).length) := by
          rw [List.length_append, List.drop_append, List.drop_eq_nil_of_le (by omega), List.nil_append]
          congr 1
          omega
        rw [hdrop]
        simp only [Pbuf.len, length_overwrite, state]
    · rw [dataStep_empty data h0] at h
      cases h

/-- The bytes of two chunks give what they give as one chunk, unless the first one ends in an error. -/
theorem ppposslInput_append {w : Input} (hw : InOk w.inp) (a b : Bytes) :
    ppposslInput alloc w (a ++ b) = (ppposslInput alloc w a).bind fun r =>
      if r.1 = .pppErrNone then ppposslInput alloc r.2 b else some r := by
  refine input_induction alloc (P := fun w a => ppposslInput alloc w (a ++ b) =
    (ppposslInput alloc w a).bind fun r => if r.1 = .pppErrNone then ppposslInput alloc r.2 b else some r)
    ?_ ?_ ?_ hw
  · intro w _
    rfl
  · intro w x a r hw hstep
    obtain ⟨hne, -⟩ := inputStep_error hw hstep
    rw [ppposslInput_cons hw, hstep, List.cons_append, ppposslInput_cons hw, inputStep_append_error hw hstep]
    simp only [Option.bind_some, if_neg hne]
  · intro w x a w' a' hw hstep hok ih
    rw [ppposslInput_cons hw, hstep, List.cons_append, ppposslInput_cons hw]
    rcases inputStep_append hw hstep b with h | ⟨rfl, h⟩
    · rw [h]
      exact ih
    · cases b with
      | nil =>
        rw [List.append_nil, hstep]
        rfl
      | cons y b =>
        rw [h (List.cons_ne_nil y b), ← ppposslInput_cons hok]
        rfl

/-- Feeding chunks one after the other is one call on all their bytes, as long as it returns no error. -/
theorem feed_flatten : ∀ {chunks : List Bytes} {w w' : Input}, InOk w.inp →
    ppposslInput alloc w chunks.flatten = some (.pppErrNone, w') →
      feed alloc w chunks = some (List.replicate chunks.length .pppErrNone, w')
  | [], w, w', _, h => by cases h; rfl
  | s :: chunks, w, w', hw, h => by
    rw [List.flatten_cons, ppposslInput_append hw] at h
    obtain ⟨err, v, hv, hok, -⟩ := ppposslInput_ok alloc hw s
    rw [hv, Option.bind_some] at h
    split at h
    · rename_i herr
      have herr : err = .pppErrNone := herr
      subst herr
      simp only [feed, hv, feed_flatten hok h, Option.bind_eq_bind, Option.bind_some, List.length_cons,
        List.replicate_succ, pure]
    · rename_i hne
      cases h
      exact absurd rfl hne

/-! ## One frame -/

theorem lo8_word (x y : UInt8) : lo8 (x.toNat + 256 * y.toNat) = x := by
  apply UInt8.toNat_inj.1
  have hx := x.toNat_lt
  rw [toNat_lo8]
  omega

theorem hi8_word (x y : UInt8) : hi8 (x.toNat + 256 * y.toNat) = y := by
  apply UInt8.toNat_inj.1
  have hx := x.toNat_lt
  have hy := y.toNat_lt
  rw [toNat_hi8]
  omega

theorem load16_six (a b c d e f : UInt8) : load16 [a, b, c, d, e, f] 0 = a.toNat + 256 * b.toNat ∧
    load16 [a, b, c, d, e, f] 1 = c.toNat + 256 * d.toNat ∧ load16 [a, b, c, d, e, f] 2 = e.toNat + 256 * f.toNat :=
  ⟨rfl, rfl, rfl⟩

theorem ntohsHeader_six (a b c d e f : UInt8) : ntohsHeader [a, b, c, d, e, f] = [b, a, c, d, f, e] := by
  obtain ⟨h0, -, -⟩ := load16_six a b c d e f
  obtain ⟨-, -, h2⟩ := load16_six b a c d e f
  have s0 : ∀ x y, overwrite [a, b, c, d, e, f] 0 [x, y] = [x, y, c, d, e, f] := fun _ _ => rfl
  have s2 : ∀ x y, overwrite [b, a, c, d, e, f] 4 [x, y] = [b, a, c, d, x, y] := fun _ _ => rfl
  simp only [ntohsHeader, store16, h0, lo8_htons, hi8_htons, lo8_word, hi8_word, Nat.mul_zero, s0, h2]
  exact s2 f e

/-- One of the first five bytes of a header. -/
theorem ppposslInput_head {counter : Nat} {header : Bytes} (hc : counter < 5) (hl : header.length = 6)
    (allocs : Nat) (log : List PbufEvent) (b : UInt8) (s : Bytes) :
    ppposslInput alloc ⟨⟨.ppHeader, counter, header, none⟩, allocs, log⟩ (b :: s) =
      ppposslInput alloc ⟨⟨.ppHeader, counter + 1, header.set counter b, none⟩, allocs, log⟩ s := by
  have hmod : (counter + 1) % 65536 = counter + 1 := by omega
  have hne : counter + 1 ≠ 6 := by omega
  rw [ppposslInput_cons (.header rfl (by simp only; omega) hl rfl)]
  simp only [inputStep, headerStep, hmod, sizeofPppHeader, if_neg hne, Except.map]

/-- A header received in the initial state, byte by byte. -/
theorem ppposslInput_six (allocs : Nat) (log : List PbufEvent) (a b c d e f : UInt8) :
    ppposslInput alloc ⟨.zero, allocs, log⟩ [a, b, c, d, e, f] =
      match headerStep alloc ⟨⟨.ppHeader, 5, [a, b, c, d, e, 0], none⟩, allocs, log⟩ f with
      | .error r => some r
      | .ok w' => some (.pppErrNone, w') := by
  unfold In.zero
  rw [ppposslInput_head (by decide) rfl, ppposslInput_head (by decide) rfl, ppposslInput_head (by decide) rfl,
    ppposslInput_head (by decide) rfl, ppposslInput_head (by decide) rfl]
  show ppposslInput alloc ⟨⟨.ppHeader, 5, [a, b, c, d, e, 0], none⟩, allocs, log⟩ [f] = _
  rw [ppposslInput_cons (.header rfl (show 5 < 6 by decide) rfl rfl)]
  simp only [inputStep]
  cases headerStep alloc _ f with
  | error r => rfl
  | ok w' => rfl

/-- A good header received in the initial state gives a buffer of the announced size. -/
theorem ppposslInput_header {w : Input} (h0 : w.inp = .zero) (ha : ∀ i, (alloc i).isSome) {n : Nat}
    (hn : n ≤ 16384) :
    ∃ hdr p, p.len = n ∧ p.totLen = n ∧ p.flags = 0 ∧ hdr.length = 6 ∧ load16 hdr 2 = n ∧
      ppposslInput alloc w (headerBytes n) = some (.pppErrNone, { w with
        inp := { state := .ppData, counter := 0, header := hdr, data := some (w.allocs, [p]) },
        allocs := w.allocs + 1 }) := by
  obtain ⟨junk, hj⟩ := Option.isSome_iff_exists.1 (ha w.allocs)
  have hmod : n % 65536 = n := by omega
  have word : ∀ m, m < 65536 → (lo8 m).toNat + 256 * (hi8 m).toNat = m := by
    intro m hm; rw [toNat_lo8, toNat_hi8]; omega
  obtain ⟨l0, l1, l2⟩ := load16_six (lo8 (n + 6)) (hi8 (n + 6)) 0x50 0x50 (lo8 n) (hi8 n)
  rw [word _ (by omega)] at l0 l2
  refine ⟨[lo8 (n + 6), hi8 (n + 6), 0x50, 0x50, lo8 n, hi8 n], ⟨(List.range n).map junk, n, 0⟩,
    by simp [Pbuf.len], rfl, rfl, rfl, l2, ?_⟩
  obtain ⟨inp, allocs, log⟩ := w
  subst h0
  rw [headerBytes, ppposslInput_six]
  unfold headerStep
  have hset : [hi8 (n + 6), lo8 (n + 6), 0x50, 0x50, hi8 n, 0].set 5 (lo8 n) =
      [hi8 (n + 6), lo8 (n + 6), 0x50, 0x50, hi8 n, lo8 n] := rfl
  simp only [hset, ntohsHeader_six, l0, l1, l2, sizeofPppHeader, pbufAlloc, hj, hmod, Option.map_some]
  rw [if_pos (by decide), if_neg (by simp), if_neg (by omega)]

/-- A frame with a payload, received in the initial state, is given to `ppp_input` and leaves the
parser in the initial state. -/
theorem ppposslInput_frame {w : Input} (h0 : w.inp = .zero) (ha : ∀ i, (alloc i).isSome) {d : Bytes} (hne : d ≠ [])
    (hn : d.length ≤ 16384) (rest : Bytes) :
    ppposslInput alloc w (headerBytes d.length ++ d ++ rest) = ppposslInput alloc { w with
      allocs := w.allocs + 1,
      log := w.log ++ [.pppInput w.allocs [{ payload := d, totLen := d.length, flags := 0 }]] } rest := by
  have hw : InOk w.inp := h0 ▸ .zero
  have hpos : 0 < d.length := List.length_pos_iff.2 hne
  obtain ⟨hdr, p, hlen, htot, hflags, hhdr, hsize, hhead⟩ := ppposslInput_header h0 ha hn
  rw [List.append_assoc, ppposslInput_append hw, hhead, Option.bind_some, if_pos rfl]
  generalize hv : ({ w with inp := _, allocs := _ } : Input) = v
  have hdata : v.inp.data = some (w.allocs, [p]) := by rw [← hv]
  have hok : InOk v.inp := by
    rw [← hv]
    exact .data rfl hhdr rfl (htot.trans hlen.symm) (hlen.trans hsize.symm) (hlen ▸ hn) (.inl (hlen ▸ hpos))
  have hstep : ppposslInput alloc v (d ++ rest) = match dataStep v (d ++ rest) with
      | .error r => some r
      | .ok (w', s') => ppposslInput alloc w' s' := by
    obtain ⟨b, d, rfl⟩ := List.exists_cons_of_ne_nil hne
    rw [List.cons_append, ppposslInput_cons hok]
    unfold inputStep
    rw [← hv]
  have hc : v.inp.counter = 0 := by rw [← hv]
  have hmin : min (d.length - 0) (d ++ rest).length = d.length := by
    rw [List.length_append]; omega
  rw [hstep, dataStep_eq hdata (htot.trans hlen.symm) (by rw [← hv]; exact hlen.trans hsize.symm) (hlen ▸ hn)
    (by rw [hc, hlen]; exact hpos)]
  unfold dataNext
  simp only [hc, hlen, hmin, Nat.zero_add, if_true, List.drop_left, List.take_left]
  rw [overwrite_all hlen.symm, ← hv, htot, hflags, h0]

/-! ## Packets written and read back -/

/-- The bytes on the wire for one packet. -/
def frameBytes (pbuf : List Pbuf) : Bytes := headerBytes (content pbuf).length ++ content pbuf

/-- A packet that fits a frame the parser accepts. -/
structure PacketOk (pbuf : List Pbuf) : Prop where
  tot : TotOk pbuf
  lo : 1 ≤ (content pbuf).length
  hi : (content pbuf).length ≤ 16384

theorem ppposslWrite_takeFrame {a : Alloc} (ha : a.isSome) {pbuf : List Pbuf} (hp : PacketOk pbuf) (sysNow : Nat)
    (o : Output Bytes) : ppposslWrite takeFrame a sysNow pbuf o =
      (.errOk, { lastXmit := sysNow, ctxCb := o.ctxCb ++ frameBytes pbuf }) := by
  have hlo := hp.lo
  have hhi := hp.hi
  obtain ⟨frame, hf⟩ : ∃ frame, pppFrame a pbuf = some frame := by
    obtain ⟨junk, rfl⟩ := Option.isSome_iff_exists.1 ha
    exact ⟨_, rfl⟩
  have heq := pppFrame_eq hp.tot (by omega) hf
  have hnil : pbuf ≠ [] := by
    rintro rfl
    exact absurd hlo (by decide)
  have htot : totLen pbuf = (content pbuf).length := totLen_eq hp.tot
  unfold ppposslWrite
  rw [if_neg hnil, if_pos (by omega), hf]
  simp only [takeFrame, totLen_cons, content_cons, content_nil, List.append_nil, heq, htot, sizeofPppHeader, ne_eq,
    not_true_eq_false, if_false]
  rfl

theorem writeAll_eq {walloc : Nat → Alloc} (ha : ∀ i, (walloc i).isSome) (sysNow : Nat → Nat) :
    ∀ (packets : List (List Pbuf)) (i : Nat) (o : Output Bytes), (∀ c ∈ packets, PacketOk c) →
      (writeAll walloc sysNow i packets o).ctxCb = o.ctxCb ++ packets.flatMap frameBytes
  | [], i, o, _ => by simp [writeAll]
  | c :: packets, i, o, hp => by
    rw [writeAll, ppposslWrite_takeFrame (ha i) (hp c (List.mem_cons_self ..)),
      writeAll_eq ha sysNow packets _ _ fun d hd => hp d (List.mem_cons_of_mem _ hd)]
    simp

/-- The frames of good packets, received in the initial state by one call, are given to `ppp_input`
one by one. -/
theorem ppposslInput_frames (ha : ∀ i, (alloc i).isSome) : ∀ (packets : List (List Pbuf)) {w : Input}, w.inp = .zero →
    (∀ c ∈ packets, PacketOk c) →
      ∃ w', ppposslInput alloc w (packets.flatMap frameBytes) = some (.pppErrNone, w') ∧ w'.inp = .zero ∧
        (passed w').map content = (passed w).map content ++ packets.map content ∧
        w'.log.length = w.log.length + packets.length
  | [], w, h0, _ => ⟨w, rfl, h0, by simp, rfl⟩
  | c :: packets, w, h0, hp => by
    have hc := hp c (List.mem_cons_self ..)
    have hne : content c ≠ [] := List.length_pos_iff.1 hc.lo
    rw [List.flatMap_cons, frameBytes, ppposslInput_frame h0 ha hne hc.hi]
    obtain ⟨w', hrun, h0', hpass, hlog⟩ := ppposslInput_frames ha packets (w := { w with
      allocs := w.allocs + 1,
      log := w.log ++ [.pppInput w.allocs [{ payload := content c, totLen := (content c).length, flags := 0 }]] })
      h0 fun d hd => hp d (List.mem_cons_of_mem _ hd)
    refine ⟨w', hrun, h0', ?_, ?_⟩
    · rw [hpass]
      simp [passed]
    · rw [hlog]
      simp only [List.length_append, List.length_cons, List.length_nil]
      omega

/-- Packets written as frames and cut into chunks anywhere are read back: no call returns an error,
every packet is given to `ppp_input` once and in order, and the parser is in its initial state. After
any of the chunks the parser is where one call on the bytes so far would have left it. -/
theorem pppossl_round_trip (walloc alloc : Nat → Alloc) (hw : ∀ i, (walloc i).isSome)
    (ha : ∀ i, (alloc i).isSome) (sysNow : Nat → Nat) (packets : List (List Pbuf)) (hp : ∀ c ∈ packets, PacketOk c) (chunks : List Bytes)
    (hcut : chunks.flatten = (writeAll walloc sysNow 0 packets { lastXmit := 0, ctxCb := [] }).ctxCb) :
    (∃ w, feed alloc .zero chunks = some (List.replicate chunks.length .pppErrNone, w) ∧
      (passed w).map content = packets.map content ∧ w.log.length = packets.length ∧ w.inp = .zero) ∧
    ∀ before after, chunks = before ++ after →
      ∃ w, feed alloc .zero before = some (List.replicate before.length .pppErrNone, w) ∧
        ppposslInput alloc .zero before.flatten = some (.pppErrNone, w) := by
  rw [writeAll_eq hw sysNow packets 0 _ hp, List.nil_append] at hcut
  obtain ⟨w, hrun, h0, hpass, hlog⟩ := ppposslInput_frames ha packets (w := .zero) rfl hp
  rw [← hcut] at hrun
  refine ⟨⟨w, feed_flatten .zero hrun, by simpa [passed, Input.zero] using hpass, by simpa [Input.zero] using hlog,
    h0⟩, ?_⟩
  rintro before after rfl
  rw [List.flatten_append, ppposslInput_append .zero] at hrun
  obtain ⟨err, v, hv, -, -⟩ := ppposslInput_ok alloc (w := .zero) .zero before.flatten
  rw [hv, Option.bind_some] at hrun
  split at hrun
  · rename_i herr
    have herr : err = .pppErrNone := herr
    subst herr
    exact ⟨v, feed_flatten .zero hv, hv⟩
  · rename_i hne
    cases hrun
    exact absurd rfl hne

/-- A packet of two pbufs, received in three chunks. -/
theorem pppossl_round_trip_two :
    let alloc : Nat → Alloc := fun _ => some fun _ => 0xaa
    let packets : List (List Pbuf) := [[⟨[1], 2, 0⟩, ⟨[2], 1, 0⟩]]
    let chunks : List Bytes := [[0, 8, 0x50], [0x50, 0, 2, 1], [2]]
    (∃ w, feed alloc .zero chunks = some (List.replicate chunks.length .pppErrNone, w) ∧
      (passed w).map content = packets.map content ∧ w.log.length = packets.length ∧ w.inp = .zero) ∧
    ∀ before after, chunks = before ++ after →
      ∃ w, feed alloc .zero before = some (List.replicate before.length .pppErrNone, w) ∧
        ppposslInput alloc .zero before.flatten = some (.pppErrNone, w) :=
  pppossl_round_trip (fun _ => some fun _ => 0x55) _ (fun _ => rfl) (fun _ => rfl) (fun _ => 0) _
    (by
      intro c hc
      obtain rfl := List.mem_singleton.1 hc
      exact ⟨⟨rfl, rfl, trivial⟩, by decide, by decide⟩)
    _ (by decide)

end

end FortiRdp.Net
