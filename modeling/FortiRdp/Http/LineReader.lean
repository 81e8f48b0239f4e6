/-
The automaton of `read_line`. Its second state keeps the CR that it has seen: it does not go back to
the first one, so after a lone CR the line goes on to the next LF, with a CR stored in front of every
byte. A line is split at its CR LF, and stays within its buffer, as far as no lone CR gets in the way.
-/
import FortiRdp.Http.AnswerRead
import FortiRdp.Run.Machine

namespace FortiRdp.Http

open Util Net
open Answer (Line)

/-! ## The first CR LF -/

/-- What is in front of the first CR LF, and what comes after it. -/
def splitCrlf : Bytes → Option (Bytes × Bytes)
  | [] => none
  | c :: bytes =>
    if c = 13 ∧ bytes.head? = some 10 then some ([], bytes.tail)
    else (splitCrlf bytes).map fun r => (c :: r.1, r.2)

theorem splitCrlf_eq : ∀ {bytes line rest : Bytes}, splitCrlf bytes = some (line, rest) → bytes = line ++ 13 :: 10 :: rest
  | c :: bytes, line, rest, h => by
    unfold splitCrlf at h
    split at h
    · rename_i hcrlf
      obtain ⟨rfl, hhead⟩ := hcrlf
      cases h
      cases bytes with
      | nil => cases hhead
      | cons d bytes =>
        cases hhead
        rfl
    · obtain ⟨r, hr, heq⟩ := Option.map_eq_some_iff.1 h
      cases heq
      rw [splitCrlf_eq hr, List.cons_append]

/-! ## The line after a lone CR -/

/-- In the second state the line goes on to an LF, and every byte for which there is room is stored with a
CR in front of it. -/
theorem lineBytes_cr : ∀ {bytes rest : Bytes} {l : Line} {buffer : ByteBuffer}, l.state = .cr →
    lineBytes l bytes = some (buffer, rest) →
      ∃ a, bytes = a ++ 10 :: rest ∧
        (l.bytesReceived + a.length ≤ l.buffer.capacity →
          buffer.bytes.length = l.buffer.bytes.length + 2 * a.length)
  | c :: bytes, rest, l, buffer, hcr, h => by
    unfold lineBytes Line.next at h
    rw [hcr] at h
    by_cases hlf : c = 10
    · simp only [hlf, if_true] at h
      cases h
      exact ⟨[], by rw [hlf, List.nil_append], fun _ => rfl⟩
    · by_cases hroom : l.bytesReceived < l.buffer.capacity
      · simp only [hlf, hroom, if_false, if_true] at h
        obtain ⟨a, rfl, hlen⟩ := lineBytes_cr (by exact rfl) h
        refine ⟨c :: a, rfl, fun hfit => ?_⟩
        -- the capacity may have grown, but not shrunk
        have hgrown := ByteBuffer.le_capacity_append (l.buffer.append [13]) [c]
        have hgrown' := ByteBuffer.le_capacity_append l.buffer [13]
        rw [List.length_cons] at hfit
        rw [hlen (by simp only; omega)]
        simp
        omega
      · simp only [hlf, hroom, if_false] at h
        obtain ⟨a, rfl, hlen⟩ := lineBytes_cr (by exact rfl) h
        refine ⟨c :: a, rfl, fun hfit => ?_⟩
        rw [List.length_cons] at hfit
        omega

/-- A CR within the line: what is stored is not the line, or what is left is not what comes after it. -/
theorem lineBytes_lone_cr {buffer b : ByteBuffer} {bytes line rest : Bytes} (h : splitCrlf bytes = some (line, rest))
    (hfit : line.length < buffer.capacity) (hcr : 13 ∈ line)
    (hline : lineBytes (.start buffer) bytes = some (b, rest)) : b.bytes ≠ line := by
  obtain ⟨d, g, rfl, hd⟩ := List.eq_append_cons_of_mem hcr
  have hbytes : bytes = d ++ 13 :: (g ++ [13] ++ 10 :: rest) := by
    rw [splitCrlf_eq h]
    simp
  rw [List.length_append, List.length_cons] at hfit
  -- up to the CR nothing is lost
  have htext : lineBytes (.start buffer) (d ++ 13 :: (g ++ [13] ++ 10 :: rest)) = _ :=
    lineBytes_text (13 :: (g ++ [13] ++ 10 :: rest)) d [] hd (Nat.zero_le _) (show d.length ≤ buffer.capacity by omega)
  rw [hbytes, htext, lineBytes] at hline
  simp only [Line.next, if_true, List.nil_append] at hline
  obtain ⟨a, ha, hlen⟩ := lineBytes_cr rfl hline
  obtain rfl : a = g ++ [13] := (List.append_cancel_right ha).symm
  simp only [List.length_append, List.length_cons, List.length_nil] at hlen
  have hstored := hlen (show d.length + 1 + (g.length + 1) ≤ buffer.capacity by omega)
  intro heq
  rw [heq] at hstored
  simp only [filled, List.length_append, List.length_cons] at hstored
  omega

/-- `read_line` splits at the first CR LF exactly when no CR is in front of it. -/
theorem readLine_split_iff {buffer : ByteBuffer} {s : Receiver} {line rest : Bytes}
    (h : splitCrlf (available s.incoming) = some (line, rest)) (hfit : line.length < buffer.capacity) :
    (∃ b s', Answer.readLine buffer s = .ok (.errNone, b) s' ∧ b.bytes = line ∧ available s'.incoming = rest) ↔
      13 ∉ line := by
  constructor
  · rintro ⟨b, s', hrun, hb, rfl⟩ hcr
    exact lineBytes_lone_cr h hfit hcr (readLine_ok hrun).1 hb
  · intro hcr
    have hline := lineBytes_filled rest hcr (Nat.le_of_lt hfit)
    rw [← splitCrlf_eq h] at hline
    obtain ⟨s', hrun, -, hav⟩ := readLine_exists hline
    exact ⟨filled buffer line (Nat.le_of_lt hfit), s', hrun, rfl, hav⟩

/-- A stream of these bytes, in one piece, and then its end. -/
def Receiver.of (bytes : Bytes) : Receiver := { answer := .new, incoming := keepData bytes [.eof], env := .still }

theorem available_of (bytes : Bytes) : available (Receiver.of bytes).incoming = bytes := by
  cases bytes with
  | nil => rfl
  | cons c bytes => exact List.append_nil (c :: bytes)

/-- A reason phrase, read whole. -/
theorem readLine_split_reason :
    (∃ b s', Answer.readLine (.ofCapacity 1024) (.of [79, 75, 13, 10, 13, 10]) = .ok (.errNone, b) s' ∧
      b.bytes = [79, 75] ∧ available s'.incoming = [13, 10]) ↔ 13 ∉ ([79, 75] : Bytes) :=
  readLine_split_iff (by rfl) (by decide)

/-- With a CR in it, the line is stored with one CR too many. -/
theorem readLine_split_lone_cr :
    splitCrlf (available (Receiver.of [97, 13, 98, 13, 10]).incoming) = some ([97, 13, 98], []) ∧
      ¬ ∃ b s', Answer.readLine (.ofCapacity 1024) (.of [97, 13, 98, 13, 10]) = .ok (.errNone, b) s' ∧
        b.bytes = [97, 13, 98] ∧ available s'.incoming = [] := by
  have hsplit : splitCrlf (available (Receiver.of [97, 13, 98, 13, 10]).incoming) = some ([97, 13, 98], []) := by rfl
  constructor
  · exact hsplit
  · rintro ⟨b, s', hrun, hb, hav⟩
    refine lineBytes_lone_cr hsplit ?_ (by decide) (hav ▸ (readLine_ok hrun).1) hb
    show 3 < 1024
    decide

/-! ## The states of the loop -/

/-- Started in `l` on `s`, the loop of `read_line` gets to `l'`, with `s'` left. -/
abbrev LoopReaches : Line → Receiver → Line → Receiver → Prop := Run.Rounds Answer.readLineStep

/-- The states of the loop on the bytes, until the line or the bytes end. -/
def lineStates : Line → Bytes → List Line
  | l, [] => [l]
  | l, c :: bytes =>
    l :: match l.next c with
      | .inl l' => lineStates l' bytes
      | .inr _ => []

theorem mem_lineStates_self (l : Line) (bytes : Bytes) : l ∈ lineStates l bytes := by
  cases bytes with
  | nil => exact List.mem_singleton_self l
  | cons c bytes => exact List.mem_cons_self ..

theorem loopReaches_mem {l l' : Line} {s s' : Receiver} (h : LoopReaches l s l' s') :
    l' ∈ lineStates l (available s.incoming) := by
  induction h with
  | refl l s => exact mem_lineStates_self l _
  | round h hrest ih =>
    obtain ⟨c, hav, hnext⟩ := readLineStep_inl h
    rw [hav, lineStates, hnext]
    exact List.mem_cons_of_mem _ ih

theorem mem_loopReaches : ∀ {bytes : Bytes} {l l' : Line} {s : Receiver}, available s.incoming = bytes →
    l' ∈ lineStates l bytes → ∃ s', LoopReaches l s l' s'
  | [], l, l', s, _, h => by
    obtain rfl := List.mem_singleton.1 h
    exact ⟨s, .refl _ _⟩
  | c :: bytes, l, l', s, hav, h => by
    rcases List.mem_cons.1 h with rfl | h
    · exact ⟨s, .refl _ _⟩
    · cases hnext : l.next c with
      | inr buffer =>
        rw [hnext] at h
        cases h
      | inl m =>
        rw [hnext] at h
        have hround := readLineStep_consumes (fun _ => True) l c
        rw [hnext] at hround
        obtain ⟨v, t, hrun, ⟨rfl, -⟩, hav'⟩ := hround.exists_ok trivial hav
        obtain ⟨s', hreach⟩ := mem_loopReaches hav' h
        exact ⟨s', .round hrun hreach⟩

theorem next_inr {l : Line} {c : UInt8} {buffer : ByteBuffer} (h : l.next c = .inr buffer) : buffer = l.buffer := by
  obtain ⟨state, bytesReceived, b⟩ := l
  unfold Line.next at h
  cases state with
  | text =>
    simp only at h
    repeat' split at h
    all_goals cases h
  | cr =>
    simp only at h
    repeat' split at h
    all_goals cases h
    rfl

/-- The buffer that `read_line` returns is that of the last state of its loop. -/
theorem iterate_loopReaches : ∀ {n : Nat} {l : Line} {s s' : Receiver} {v : AnswerStatus × ByteBuffer},
    Run.iterate .exhausted Answer.readLineStep n l s = .ok v s' → ∃ l' t, LoopReaches l s l' t ∧ l'.buffer = v.2
  | n + 1, l, s, s', v, h => by
    obtain ⟨r, t, hr, h⟩ := Run.bind_eq_ok h
    cases r with
    | inl m =>
      obtain ⟨l', u, hreach, hbuf⟩ := iterate_loopReaches h
      exact ⟨l', u, .round hr hreach, hbuf⟩
    | inr w =>
      cases h
      refine ⟨l, s, .refl _ _, ?_⟩
      obtain ⟨c, u, -, hc⟩ := Run.bind_eq_ok hr
      cases c with
      | none =>
        cases hc
        rfl
      | some c =>
        simp only at hc
        cases hnext : l.next c with
        | inl m =>
          rw [hnext] at hc
          cases hc
        | inr buffer =>
          rw [hnext] at hc
          cases hc
          exact (next_inr hnext).symm

/-! ## The room of a line -/

/-- The bytes after the first CR and in front of the next LF: each takes the room of two. -/
def afterCr (bytes : Bytes) : Bytes := (bytes.dropWhile (· ≠ 13)).tail.takeWhile (· ≠ 10)

/-- What comes after a lone CR fits in the room that is left, or there is hardly any left. -/
def LineFits (capacity : Nat) (bytes : Bytes) : Prop :=
  let before := (bytes.takeWhile (· ≠ 13)).length
  capacity ≤ before + 2 ∨ before + 2 * (afterCr bytes).length ≤ capacity

instance (capacity : Nat) (bytes : Bytes) : Decidable (LineFits capacity bytes) :=
  inferInstanceAs (Decidable (_ ∨ _))

/-- In the second state, with the room of the buffer left: two bytes are stored for each until the LF. -/
theorem states_cr {capacity : Nat} : ∀ {bytes : Bytes} {r : Nat} {buffer : ByteBuffer}, buffer.capacity = capacity →
    ((∀ l ∈ lineStates { state := .cr, bytesReceived := r, buffer } bytes, l.buffer.bytes.length ≤ capacity) ↔
      capacity ≤ r ∨ buffer.bytes.length + 2 * min (bytes.takeWhile (· ≠ 10)).length (capacity - r) ≤ capacity)
  | [], r, buffer, hcap => by
    have hlen := buffer.fits
    simp only [lineStates, List.mem_singleton, forall_eq, List.takeWhile_nil, List.length_nil]
    omega
  | c :: bytes, r, buffer, hcap => by
    have hlen := buffer.fits
    rw [lineStates, List.forall_mem_cons]
    by_cases hlf : c = 10
    · simp only [Line.next, hlf, if_true, List.not_mem_nil]
      simp
      omega
    · have htake : (c :: bytes).takeWhile (· ≠ 10) = c :: bytes.takeWhile (· ≠ 10) := by simp [hlf]
      rw [htake, List.length_cons]
      by_cases hroom : r < buffer.capacity
      · simp only [Line.next, hlf, hroom, if_false, if_true]
        by_cases hfit : buffer.bytes.length + 2 ≤ capacity
        · have hfirst : (buffer.append [13]).capacity = capacity :=
            (ByteBuffer.capacity_append (by simp; omega)).trans hcap
          have hgrow : ((buffer.append [13]).append [c]).capacity = capacity :=
            (ByteBuffer.capacity_append (by rw [hfirst]; simp; omega)).trans hfirst
          rw [states_cr hgrow]
          simp
          omega
        · constructor
          · rintro ⟨-, h⟩
            have hself := h _ (mem_lineStates_self _ _)
            simp at hself
            omega
          · rintro h
            omega
      · simp only [Line.next, hlf, hroom, if_false]
        rw [states_cr hcap]
        omega

/-- In the first state, with all that there was room for stored. -/
theorem states_text {capacity : Nat} : ∀ {bytes : Bytes} {r : Nat} {buffer : ByteBuffer}, buffer.capacity = capacity →
    buffer.bytes.length = min r capacity →
      ((∀ l ∈ lineStates { state := .text, bytesReceived := r, buffer } bytes, l.buffer.bytes.length ≤ capacity) ↔
        capacity ≤ r + (bytes.takeWhile (· ≠ 13)).length + 2 ∨
          r + (bytes.takeWhile (· ≠ 13)).length + 2 * (afterCr bytes).length ≤ capacity)
  | [], r, buffer, hcap, hstored => by
    simp only [lineStates, List.mem_singleton, forall_eq, afterCr, List.takeWhile_nil, List.dropWhile_nil, List.tail_nil,
      List.length_nil]
    omega
  | c :: bytes, r, buffer, hcap, hstored => by
    have hlen := buffer.fits
    rw [lineStates, List.forall_mem_cons]
    by_cases hcr : c = 13
    · have hafter : afterCr (c :: bytes) = bytes.takeWhile (· ≠ 10) := by simp [afterCr, hcr]
      have hbefore : (c :: bytes).takeWhile (· ≠ 13) = [] := by simp [hcr]
      rw [hafter, hbefore]
      simp only [Line.next, hcr, if_true]
      rw [states_cr hcap, List.length_nil]
      omega
    · have hafter : afterCr (c :: bytes) = afterCr bytes := by simp [afterCr, hcr]
      have hbefore : (c :: bytes).takeWhile (· ≠ 13) = c :: bytes.takeWhile (· ≠ 13) := by simp [hcr]
      rw [hafter, hbefore, List.length_cons]
      by_cases hroom : r < buffer.capacity
      · have hgrow : (buffer.append [c]).capacity = capacity :=
          (ByteBuffer.capacity_append (by simp; omega)).trans hcap
        have hmore : (buffer.append [c]).bytes.length = min (r + 1) capacity := by
          simp
          omega
        simp only [Line.next, hcr, hroom, if_false, if_true]
        rw [states_text hgrow hmore]
        omega
      · simp only [Line.next, hcr, hroom, if_false]
        rw [states_text hcap (by omega)]
        omega

/-- The states of the loop of one `read_line` stay within the capacity. -/
def Within (capacity : Nat) (buffer : ByteBuffer) (s : Receiver) : Prop :=
  ∀ l s', LoopReaches (.start buffer) s l s' → l.buffer.bytes.length ≤ capacity

theorem within_states {capacity : Nat} {buffer : ByteBuffer} {s : Receiver} : Within capacity buffer s ↔
    ∀ l ∈ lineStates (.start buffer) (available s.incoming), l.buffer.bytes.length ≤ capacity := by
  constructor
  · intro h l hl
    obtain ⟨s', hreach⟩ := mem_loopReaches rfl hl
    exact h l s' hreach
  · intro h l s' hreach
    exact h l (loopReaches_mem hreach)

theorem within_iff {capacity : Nat} {buffer : ByteBuffer} (s : Receiver) (hcap : buffer.capacity = capacity) :
    Within capacity buffer s ↔ LineFits capacity (available s.incoming) := by
  have htext : (∀ l ∈ lineStates (.start buffer) (available s.incoming), l.buffer.bytes.length ≤ capacity) ↔ _ :=
    states_text hcap (Nat.zero_min _).symm
  rw [Nat.zero_add] at htext
  exact within_states.trans htext

theorem next_capacity {capacity : Nat} {l m : Line} {c : UInt8} (hcap : l.buffer.capacity = capacity)
    (hnext : l.next c = .inl m) (hfit : m.buffer.bytes.length ≤ capacity) : m.buffer.capacity = capacity := by
  obtain ⟨state, r, buffer⟩ := l
  have hcap : buffer.capacity = capacity := hcap
  unfold Line.next at hnext
  cases state with
  | text =>
    simp only at hnext
    split at hnext
    · cases hnext
      exact hcap
    · split at hnext
      · cases hnext
        simp at hfit
        exact (ByteBuffer.capacity_append (by simp; omega)).trans hcap
      · cases hnext
        exact hcap
  | cr =>
    simp only at hnext
    split at hnext
    · cases hnext
    · split at hnext
      · cases hnext
        simp at hfit
        have hfirst : (buffer.append [13]).capacity = capacity :=
          (ByteBuffer.capacity_append (by simp; omega)).trans hcap
        exact (ByteBuffer.capacity_append (by rw [hfirst]; simp; omega)).trans hfirst
      · cases hnext
        exact hcap

/-- A line that stays within the capacity leaves it. -/
theorem states_capacity {capacity : Nat} : ∀ {bytes : Bytes} {l : Line}, l.buffer.capacity = capacity →
    (∀ l' ∈ lineStates l bytes, l'.buffer.bytes.length ≤ capacity) → ∀ l' ∈ lineStates l bytes, l'.buffer.capacity = capacity
  | [], l, hcap, _, l', hl' => by
    obtain rfl := List.mem_singleton.1 hl'
    exact hcap
  | c :: bytes, l, hcap, h, l', hl' => by
    rcases List.mem_cons.1 hl' with rfl | hl'
    · exact hcap
    · cases hnext : l.next c with
      | inr buffer =>
        rw [hnext] at hl'
        cases hl'
      | inl m =>
        rw [hnext] at hl'
        rw [lineStates, hnext, List.forall_mem_cons] at h
        exact states_capacity (next_capacity hcap hnext (h.2 m (mem_lineStates_self m bytes))) h.2 l' hl'

/-- The calls of `read_line` on one buffer, each on what there is to read at that moment; a call that
throws is the last one. -/
def lineCalls : Run.Machine (Option ByteBuffer) Receiver
  | none, _ => none
  | some buffer, s =>
    match Answer.readLine buffer s with
    | .ok v _ => some (some v.2)
    | .error _ _ => some none

theorem lineCalls_capacity {capacity : Nat} {buffer : ByteBuffer} {s : Receiver} {b : Option ByteBuffer}
    (hcap : buffer.capacity = capacity) (hfits : LineFits capacity (available s.incoming))
    (hstep : lineCalls (some buffer) s = some b) : ∀ buffer' ∈ b, buffer'.capacity = capacity := by
  intro buffer' hmem
  unfold lineCalls at hstep
  simp only at hstep
  split at hstep
  · rename_i v s' hrun
    cases hstep
    cases hmem
    obtain ⟨l, t, hreach, hbuf⟩ := iterate_loopReaches hrun
    rw [← hbuf]
    exact states_capacity hcap (within_states.1 ((within_iff s hcap).2 hfits)) l (loopReaches_mem hreach)
  · cases hstep
    cases hmem

/-- On a buffer made with a capacity, all lines stay within it exactly when each fits. -/
theorem lineCalls_within_iff (capacity : Nat) (calls : List Receiver) :
    Run.Meets lineCalls (fun b s => ∀ buffer ∈ b, Within capacity buffer s) (some (.ofCapacity capacity)) calls ↔
      Run.Meets lineCalls (fun _ s => LineFits capacity (available s.incoming)) (some (.ofCapacity capacity)) calls := by
  refine Run.meets_iff (I := fun b => ∀ buffer ∈ b, buffer.capacity = capacity) ?_ ?_ ?_
  · intro b s b' hcap hfits hstep
    cases b with
    | none => cases hstep
    | some buffer => exact lineCalls_capacity (hcap buffer rfl) hfits hstep
  · intro b s b' hcap hstep
    cases b with
    | none => cases hstep
    | some buffer =>
      have hiff := within_iff s (hcap buffer rfl)
      constructor
      · intro h
        exact hiff.1 (h buffer rfl)
      · rintro h _ ⟨⟩
        exact hiff.2 h
  · rintro buffer ⟨⟩
    rfl

/-- A first line that does not fit outgrows its buffer. -/
theorem lineCalls_first {capacity : Nat} {s : Receiver} (h : ¬ LineFits capacity (available s.incoming)) :
    ¬ Run.Meets lineCalls (fun b s => ∀ buffer ∈ b, Within capacity buffer s) (some (.ofCapacity capacity)) [s] := by
  intro hmeets
  have hcall : ∃ b, lineCalls (some (.ofCapacity capacity)) s = some b := by
    unfold lineCalls
    simp only
    cases Answer.readLine (.ofCapacity capacity) s with
    | ok v s' => exact ⟨some v.2, rfl⟩
    | error e s' => exact ⟨none, rfl⟩
  obtain ⟨b, hb⟩ := hcall
  have hwithin : Within capacity (.ofCapacity capacity) s := (Run.meets_cons hmeets hb).1 _ rfl
  exact h ((within_iff s rfl).1 hwithin)

/-- A CR and half the room of bytes after it outgrow the buffer of the reason phrase. -/
theorem lineCalls_outgrow : ¬ Run.Meets lineCalls (fun b s => ∀ buffer ∈ b, Within 1024 buffer s)
    (some (.ofCapacity 1024)) [.of (13 :: List.replicate 513 97)] := by
  apply lineCalls_first
  rw [available_of]
  simp [LineFits, afterCr, -List.reduceReplicate]

end FortiRdp.Http
