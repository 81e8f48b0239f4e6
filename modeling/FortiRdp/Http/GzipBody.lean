/-
Compressed bodies, over a decompressor that is a deterministic transducer. `read_gzip_body` looks at the
result of `inflate` only for the three errors: a stream that has not come to its end when the bytes are used
up is taken for complete, and what has no room in the body is cut off.
-/
import FortiRdp.Http.BodyOutcome
import FortiRdp.Http.LineReader
import FortiRdp.Run.Transducer

namespace FortiRdp.Http

open Util Net
open Run (Transducer)

/-- The errors that `inflate` finds in a stream. -/
inductive ZFault where
  | needDict
  | dataError
  | memError
  deriving DecidableEq, Repr

abbrev Decompressor := Transducer UInt8 UInt8 ZFault

def ZFault.code : ZFault → ZCode
  | .needDict => .needDict
  | .dataError => .dataError
  | .memError => .memError

/-- The result of `inflate`; without progress there was no room or no input for it. -/
def inflateCode (stop : Transducer.Stop ZFault) (progress : Bool) : ZCode :=
  match stop with
  | .ended => .streamEnd
  | .failed e => e.code
  | .full | .starved => if progress then .ok else .bufError

/-- `inflate` over a decompressor: the stream is the output that has had no room yet, and the state. -/
def Zlib.of (t : Decompressor) (init : Option t.State) : Zlib where
  Stream := Bytes × t.State
  inflateInit2 := init.map fun s => ([], s)
  inflate strm input room :=
    let r := t.pull strm.1 strm.2 input room
    { code := inflateCode r.stop (!r.output.isEmpty || r.input.length < input.length)
      output := r.output
      stream := (r.pending, r.state)
      input := r.input }
  left strm input := (strm.1 ++ t.output strm.2 input).length
  output_le strm input room := (Transducer.pull_spec input strm.1 strm.2 room).le_room
  left_le strm input room := by
    have hlength := congrArg List.length (Transducer.pull_spec input strm.1 strm.2 room).output
    rw [List.length_append] at hlength
    exact Nat.le_of_eq hlength

theorem inflateCode_error (stop : Transducer.Stop ZFault) (progress : Bool) :
    (inflateCode stop progress = .needDict ∨ inflateCode stop progress = .dataError ∨
      inflateCode stop progress = .memError) ↔ ∃ e, stop = .failed e := by
  constructor
  · intro h
    cases stop with
    | failed e => exact ⟨e, rfl⟩
    | ended =>
      rcases h with h | h | h <;> cases h
    | full =>
      cases progress <;> rcases h with h | h | h <;> cases h
    | starved =>
      cases progress <;> rcases h with h | h | h <;> cases h
  · rintro ⟨e, rfl⟩
    cases e with
    | needDict => exact .inl rfl
    | dataError => exact .inr (.inl rfl)
    | memError => exact .inr (.inr rfl)

/-! ## The loops -/

/-- The body takes what it has room for. -/
theorem appendBody_body (data : Bytes) {maxSize : Nat} {s : Receiver} (hmax : maxSize < 2 ^ 64)
    (hbody : s.answer.body.bytes.length ≤ maxSize) :
    ∃ s', Answer.appendBody data maxSize s = .ok () s' ∧ s'.incoming = s.incoming ∧
      s'.answer.body.bytes = (s.answer.body.bytes ++ data).take maxSize := by
  obtain ⟨s', hrun, hincoming, -⟩ := appendBody_ok data maxSize s
  obtain ⟨⟨hbytes, -⟩, -⟩ := (appendBody_consumes hmax hbody).of_ok (bodyIs_self s.answer) (List.nil_append _).symm hrun
  exact ⟨s', hrun, hincoming, hbytes⟩

section Loops

variable {t : Decompressor} (init : Option t.State) {maxSize : Nat}

/-- The stream that the inner loop leaves, `none` when the input is refused. -/
def leaves (t : Decompressor) (s : t.State) : Option (Bytes × t.State) :=
  match t.condition s with
  | .failed _ => none
  | .running | .ended => some ([], s)

/-- The inner loop takes all the output of its input, unless the input is refused. -/
theorem inflate_rounds (hmax : maxSize < 2 ^ 64) : ∀ (n : Nat) (strm : Bytes × t.State) (input : Bytes) (s : Receiver),
    (strm.1 ++ t.output strm.2 input).length < n → s.answer.body.bytes.length ≤ maxSize →
      ∃ s', Run.iterate .exhausted (Answer.inflateStep (Zlib.of t init) maxSize) n (strm, input) s =
          .ok (leaves t (t.after strm.2 input)) s' ∧
        s'.incoming = s.incoming ∧ (leaves t (t.after strm.2 input) ≠ none →
          s'.answer.body.bytes = (s.answer.body.bytes ++ (strm.1 ++ t.output strm.2 input)).take maxSize)
  | 0, _, _, _, hn, _ => absurd hn (Nat.not_lt_zero _)
  | n + 1, strm, input, s, hn, hbody => by
    have hspec := Transducer.pull_spec input strm.1 strm.2 1024
    generalize hpull : t.pull strm.1 strm.2 input 1024 = r at hspec
    have hinflate : (Zlib.of t init).inflate strm input 1024 =
        { code := inflateCode r.stop (!r.output.isEmpty || r.input.length < input.length), output := r.output,
          stream := (r.pending, r.state), input := r.input } := by
      rw [← hpull]
      rfl
    have hcode := inflateCode_error r.stop (!r.output.isEmpty || r.input.length < input.length)
    by_cases hbad : ∃ e, r.stop = .failed e
    · -- refused: the state is the last one
      obtain ⟨e, he⟩ := hbad
      have hcond := ((hspec.failed e).1 he).2
      have hafter := hspec.after
      rw [Transducer.after_stopped (by rw [hcond]; nofun)] at hafter
      have hnone : leaves t (t.after strm.2 input) = none := by
        rw [← hafter, leaves, hcond]
      refine ⟨s, ?_, rfl, fun h => absurd hnone h⟩
      rw [hnone]
      apply Run.iterate_done
      unfold Answer.inflateStep
      simp only [hinflate, hcode.2 ⟨e, he⟩, if_true]
      rfl
    · obtain ⟨u, happend, hincoming, hbytes⟩ := appendBody_body r.output hmax hbody
      have hstep : Answer.inflateStep (Zlib.of t init) maxSize (strm, input) s =
          (if r.output.length = 1024 then pure (.inl ((r.pending, r.state), r.input))
          else pure (.inr (some (r.pending, r.state))) : AnswerM _) u := by
        unfold Answer.inflateStep
        simp only [hinflate]
        rw [if_neg fun h => hbad (hcode.1 h), Run.bind_ok happend]
      have hlength := congrArg List.length hspec.output
      rw [List.length_append] at hlength
      have hubody : u.answer.body.bytes.length ≤ maxSize := by
        rw [hbytes]
        exact List.length_take_le ..
      by_cases hfull : r.output.length = 1024
      · -- the buffer is full, and there may be more
        rw [if_pos hfull] at hstep
        have hleft : (r.pending ++ t.output r.state r.input).length < n := by omega
        obtain ⟨s', hrun, hin, hall⟩ := inflate_rounds hmax n (r.pending, r.state) r.input u hleft hubody
        rw [hspec.after] at hrun hall
        refine ⟨s', (Run.iterate_more hstep).trans hrun, hin.trans hincoming, fun h => ?_⟩
        rw [hall h, hbytes, take_take_append, List.append_assoc, hspec.output]
      · -- there is nothing left in this input
        rw [if_neg hfull] at hstep
        obtain ⟨hpending, hout, hstate⟩ := hspec.drained (by have := hspec.le_room; omega)
        have hleaves : leaves t (t.after strm.2 input) = some (r.pending, r.state) := by
          rw [← hstate, hpending]
          unfold leaves
          cases hcond : t.condition r.state with
          | failed e =>
            refine absurd ⟨e, (hspec.failed e).2 ⟨fun h => hfull (hspec.full h), hcond⟩⟩ hbad
          | running => rfl
          | ended => rfl
        have hwhole := hspec.output
        rw [hpending, hout, List.append_nil, List.append_nil] at hwhole
        refine ⟨u, ?_, hincoming, fun _ => ?_⟩
        · rw [hleaves]
          exact Run.iterate_done hstep
        · rw [hbytes, hwhole]

/-- The outer loop does the same with all the bytes. -/
theorem gzip_rounds (hmax : maxSize < 2 ^ 64) : ∀ (n : Nat) (strm : t.State) (size : Nat) (s : Receiver), size < n →
    s.answer.body.bytes.length ≤ maxSize → size ≤ (available s.incoming).length →
      ∃ s', Run.iterate .exhausted (Answer.readGzipBodyStep (Zlib.of t init) maxSize) n (([], strm), size) s =
          .ok (leaves t (t.after strm ((available s.incoming).take size))).isSome s' ∧
        (leaves t (t.after strm ((available s.incoming).take size)) ≠ none → s'.answer.body.bytes =
          (s.answer.body.bytes ++ t.output strm ((available s.incoming).take size)).take maxSize)
  | 0, _, _, _, hn, _, _ => absurd hn (Nat.not_lt_zero _)
  | n + 1, strm, size, s, hn, hbody, hsize => by
    have hlen : min size 1024 ≤ (available s.incoming).length := by omega
    obtain ⟨u, hread, hans, hav⟩ := readBuffer_exists hlen
    obtain ⟨v, hloop, hincoming, hbytes⟩ := inflate_rounds init hmax
      ((Zlib.of t init).left ([], strm) ((available s.incoming).take (min size 1024)) + 1) ([], strm) _ u
      (Nat.lt_succ_self _) (by rw [hans]; exact hbody)
    have hstep : Answer.readGzipBodyStep (Zlib.of t init) maxSize (([], strm), size) s = _ := Run.bind_ok hread
    simp only at hstep
    rw [Run.bind_ok hloop] at hstep
    simp only [List.nil_append] at hstep hbytes
    -- this piece and the ones after it
    have hsplit : (available s.incoming).take size = (available s.incoming).take (min size 1024) ++
        ((available s.incoming).drop (min size 1024)).take (size - min size 1024) := by
      rw [← List.take_add]
      congr 1
      omega
    rw [hsplit, Transducer.after_append, Transducer.output_append]
    generalize (available s.incoming).take (min size 1024) = data at hloop hbytes hstep ⊢
    cases hcond : t.condition (t.after strm data) with
    | failed e =>
      have hnone : leaves t (t.after strm data) = none := by rw [leaves, hcond]
      rw [Transducer.after_stopped (by rw [hcond]; nofun), hnone]
      rw [hnone] at hstep
      exact ⟨v, Run.iterate_done hstep, fun h => absurd rfl h⟩
    | running | ended =>
      have hsome : leaves t (t.after strm data) = some ([], t.after strm data) := by rw [leaves, hcond]
      rw [hsome] at hstep hbytes
      have hvbytes := hbytes nofun
      have hvbody : v.answer.body.bytes.length ≤ maxSize := by
        rw [hvbytes]
        exact List.length_take_le ..
      simp only at hstep
      by_cases hmore : 0 < size - min size 1024
      · rw [if_pos hmore] at hstep
        have hvav : available v.incoming = (available s.incoming).drop (min size 1024) := by rw [hincoming, hav]
        obtain ⟨s', hrun, hall⟩ := gzip_rounds hmax n (t.after strm data) (size - min size 1024) v (by omega) hvbody
          (by rw [hvav, List.length_drop]; omega)
        rw [hvav] at hrun hall
        refine ⟨s', (Run.iterate_more hstep).trans hrun, fun h => ?_⟩
        rw [hall h, hvbytes, take_take_append, hans, List.append_assoc]
      · rw [if_neg hmore] at hstep
        have hzero : size - min size 1024 = 0 := by omega
        rw [hzero, List.take_zero]
        refine ⟨v, ?_, fun _ => ?_⟩
        · rw [Transducer.after, hsome]
          exact Run.iterate_done hstep
        · rw [Transducer.output, List.append_nil, hvbytes, hans]

end Loops

/-! ## Whole bodies -/

/-- A compressed body is complete or refused: what is accepted is the whole output of a stream that has come
to its end, and a stream that has not, or an output that does not fit, is not accepted. -/
structure CompleteOrRefused (t : Decompressor) (init : Option t.State) (size maxSize : Nat) (s : Receiver) : Prop where
  accepted : ∀ s', Answer.readGzipBody (Zlib.of t init) size maxSize s = .ok true s' →
    ∃ strm, init = some strm ∧ size ≤ (available s.incoming).length ∧
      t.condition (t.after strm ((available s.incoming).take size)) = .ended ∧
      s'.answer.body.bytes = s.answer.body.bytes ++ t.output strm ((available s.incoming).take size) ∧
      s'.answer.body.bytes.length ≤ maxSize
  refused : ∀ strm, init = some strm → size ≤ (available s.incoming).length →
    t.condition (t.after strm ((available s.incoming).take size)) ≠ .ended ∨
      maxSize < (s.answer.body.bytes ++ t.output strm ((available s.incoming).take size)).length →
    ∃ s', Answer.readGzipBody (Zlib.of t init) size maxSize s = .ok false s'

/-- When all the bytes arrive, they are no cut off stream, and the output of a whole one fits. -/
def WholeStream (t : Decompressor) (init : Option t.State) (size maxSize : Nat) (s : Receiver) : Prop :=
  ∀ strm, init = some strm → size ≤ (available s.incoming).length →
    match t.condition (t.after strm ((available s.incoming).take size)) with
    | .failed _ => True
    | .running => False
    | .ended => (s.answer.body.bytes ++ t.output strm ((available s.incoming).take size)).length ≤ maxSize

section Whole

variable {t : Decompressor} {init : Option t.State} {size maxSize : Nat} {s : Receiver}

theorem inflates_short {zlib : Zlib} : ∀ (n : Nat) (strm : zlib.Stream) (size : Nat) (bytes : Bytes), bytes.length < size →
    inflates zlib n strm size bytes = false
  | 0, _, _, _, _ => rfl
  | n + 1, strm, size, bytes, h => by
    unfold inflates
    simp only
    split
    · rfl
    · rename_i hlen
      split
      · rfl
      · rw [if_pos (by omega)]
        exact inflates_short n _ _ _ (by rw [List.length_drop]; omega)

/-- When not all the bytes arrive, the body is not accepted. -/
theorem readGzipBody_short (zlib : Zlib) (h : (available s.incoming).length < size) (s' : Receiver) :
    Answer.readGzipBody zlib size maxSize s ≠ .ok true s' := by
  intro hrun
  have hend : BodyEnd false s.answer.headers (Answer.readGzipBody zlib size maxSize s) := by
    have hout := readGzipBody_outcome zlib size maxSize s
    cases hinit : zlib.inflateInit2 with
    | none =>
      rw [hinit] at hout
      exact hout
    | some strm =>
      rw [hinit] at hout
      simp only [inflates_short _ strm size _ h] at hout
      exact hout
  rw [hrun] at hend
  rcases hend with ⟨t, ht⟩ | ⟨e, t, ht, -⟩
  · cases ht
  · cases ht

theorem readGzipBody_run (hmax : maxSize < 2 ^ 64) (hbody : s.answer.body.bytes.length ≤ maxSize) {strm : t.State}
    (hinit : init = some strm) (hsize : size ≤ (available s.incoming).length) :
    ∃ s', Answer.readGzipBody (Zlib.of t init) size maxSize s =
        .ok (leaves t (t.after strm ((available s.incoming).take size))).isSome s' ∧
      (leaves t (t.after strm ((available s.incoming).take size)) ≠ none → s'.answer.body.bytes =
        (s.answer.body.bytes ++ t.output strm ((available s.incoming).take size)).take maxSize) := by
  subst hinit
  exact gzip_rounds (some strm) hmax (size + 1) strm size s (Nat.lt_succ_self _) hbody hsize

theorem completeOrRefused_iff (hmax : maxSize < 2 ^ 64) (hbody : s.answer.body.bytes.length ≤ maxSize) :
    CompleteOrRefused t init size maxSize s ↔ WholeStream t init size maxSize s := by
  constructor
  · intro h strm hinit hsize
    obtain ⟨s', hrun, -⟩ := readGzipBody_run hmax hbody hinit hsize
    cases hcond : t.condition (t.after strm ((available s.incoming).take size)) with
    | failed e => trivial
    | running =>
      rw [leaves, hcond] at hrun
      obtain ⟨strm', hinit', -, hended, -, -⟩ := h.accepted s' hrun
      obtain rfl : strm = strm' := Option.some.inj (hinit.symm.trans hinit')
      rw [hcond] at hended
      cases hended
    | ended =>
      rw [leaves, hcond] at hrun
      obtain ⟨strm', hinit', -, -, hbytes, hfits⟩ := h.accepted s' hrun
      obtain rfl : strm = strm' := Option.some.inj (hinit.symm.trans hinit')
      rw [hbytes] at hfits
      exact hfits
  · intro h
    constructor
    · intro s' hrun
      cases hinit : init with
      | none =>
        subst hinit
        cases hrun
      | some strm =>
        have hsize : size ≤ (available s.incoming).length := by
          by_contra hshort
          exact readGzipBody_short _ (Nat.lt_of_not_le hshort) s' hrun
        obtain ⟨s'', hrun', hbytes⟩ := readGzipBody_run hmax hbody hinit hsize
        have hwhole := h strm hinit hsize
        rw [hrun] at hrun'
        cases hcond : t.condition (t.after strm ((available s.incoming).take size)) with
        | failed e =>
          rw [leaves, hcond] at hrun'
          cases hrun'
        | running =>
          rw [hcond] at hwhole
          exact hwhole.elim
        | ended =>
          rw [hcond] at hwhole
          obtain rfl : s' = s'' := by
            injection hrun'
          have hall := hbytes (by rw [leaves, hcond]; nofun)
          rw [List.take_of_length_le hwhole] at hall
          exact ⟨strm, rfl, hsize, hcond, hall, by rw [hall]; exact hwhole⟩
    · intro strm hinit hsize hbad
      obtain ⟨s', hrun, -⟩ := readGzipBody_run hmax hbody hinit hsize
      have hwhole := h strm hinit hsize
      cases hcond : t.condition (t.after strm ((available s.incoming).take size)) with
      | failed e =>
        rw [leaves, hcond] at hrun
        exact ⟨s', hrun⟩
      | running =>
        rw [hcond] at hwhole
        exact hwhole.elim
      | ended =>
        rw [hcond] at hwhole hbad
        rcases hbad with hbad | hbad
        · exact absurd rfl hbad
        · exact absurd hwhole (Nat.not_le.2 hbad)

end Whole

/-! ## A header that is cut off -/

/-- The first two bytes of a gzip stream; what comes after them is still its header. -/
def magic : Decompressor where
  State := Option Nat
  feed
    | some 0, c => ([], if c = 0x1F then some 1 else none)
    | some 1, c => ([], if c = 0x8B then some 2 else none)
    | s, _ => ([], s)
  condition
    | some _ => .running
    | none => .failed .dataError

/-- A stream that ends within its header is refused only when the bytes are not those of a header. -/
theorem completeOrRefused_magic :
    CompleteOrRefused magic (some (some 0)) 2 maxBodySize (.of [0x1F, 0x8C]) ↔
      WholeStream magic (some (some 0)) 2 maxBodySize (.of [0x1F, 0x8C]) :=
  completeOrRefused_iff maxBodySize_lt (Nat.zero_le _)

/-- Two bytes of a header are accepted as a complete body. -/
theorem readGzipBody_cut_off : ¬ CompleteOrRefused magic (some (some 0)) 2 maxBodySize (.of [0x1F, 0x8B]) := by
  intro h
  have hrun : ∃ s', Answer.readGzipBody (Zlib.of magic (some (some 0))) 2 maxBodySize (.of [0x1F, 0x8B]) = .ok true s' ∧ _ :=
    readGzipBody_run maxBodySize_lt (Nat.zero_le _) rfl (Nat.le_refl 2)
  obtain ⟨s', hrun, -⟩ := hrun
  obtain ⟨strm, hinit, -, hended, -⟩ := h.accepted s' hrun
  cases hinit
  cases hended

end FortiRdp.Http
