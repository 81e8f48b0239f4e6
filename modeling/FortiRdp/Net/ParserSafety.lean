/-
The parser of `pppossl_input` on any bytes: what it holds between two passes of its loop, that each
pbuf is given away or freed once, and which bytes of the stream a payload is made of. A frame without a
payload passes the checks of the header, but the next byte behind it ends the call with an error.
-/
import FortiRdp.Net.PppFraming
import FortiRdp.Run.Machine

namespace FortiRdp.Net

open FortiRdp.Lwip FortiRdp.Run

/-! ## The passes of the loop -/

/-- The parser inside a call: the bytes of the chunk that are left, and all the bytes of the chunks so far. -/
structure Parser where
  input : Input
  rest : Bytes
  fed : Bytes
  deriving DecidableEq, Repr

def Parser.zero : Parser := { input := .zero, rest := [], fed := [] }

inductive ParserAction
  | call (s : Bytes)
  | pass

/-- `pppossl_input` pass by pass. An error ends the call, the rest of the chunk is not read. -/
def parser (alloc : Nat → Alloc) : Machine Parser ParserAction
  | ps, .call s => if ps.rest = [] then some { ps with rest := s, fed := ps.fed ++ s } else none
  | ps, .pass =>
    if ps.rest = [] then none
    else
      match inputStep alloc ps.input ps.rest with
      | .ok (w, s) => some { ps with input := w, rest := s }
      | .error (_, w) => some { ps with input := w, rest := [] }

def PbufEvent.id : PbufEvent → Nat
  | .pppInput id _ => id
  | .pbufFree id => id

/-- The pbufs that the parser got: the one it holds, and those it gave away or freed. -/
def Input.pbufs (w : Input) : List Nat := (w.inp.data.map (·.1)).toList ++ w.log.map PbufEvent.id

/-- The bytes of the frame that is being read. -/
def In.underWay (i : In) : Bytes :=
  match i.data with
  | none => i.header.take i.counter
  | some (_, c) => headerBytes (content c).length ++ (content c).take i.counter

/-- A frame behind bytes that were not read. -/
def skippedFrame (x : Bytes × Bytes) : Bytes := x.1 ++ (headerBytes x.2.length ++ x.2)

/-- The pbufs are accounted for up to the given call of the allocator: each is held, given to `ppp_input`
once or freed once. -/
def Accounted (alloc : Nat → Alloc) (w : Input) : Prop :=
  ∀ id, w.pbufs.count id = if id < w.allocs ∧ (alloc id).isSome then 1 else 0

/-- What the parser passed on and what it reads make up the bytes, up to some that it skipped. -/
def Streamed (w : Input) (consumed : Bytes) : Prop :=
  ∃ (frames : List (Bytes × Bytes)) (skipped : Bytes),
    consumed = frames.flatMap skippedFrame ++ skipped ++ w.inp.underWay ∧
      (passed w).map content = frames.map Prod.snd ∧ ∀ x ∈ frames, x.2.length ≤ 16384

/-- What holds between two passes. -/
structure ParserSafe (alloc : Nat → Alloc) (ps : Parser) : Prop where
  between : InOk ps.input.inp
  accounted : Accounted alloc ps.input
  streamed : ∃ consumed, ps.fed = consumed ++ ps.rest ∧ Streamed ps.input consumed

/-! ## The pass of a header byte -/

/-- The six bytes of a header that passes the checks. -/
theorem header_checked {header : Bytes} (hl : header.length = 6)
    (h0 : load16 (ntohsHeader header) 0 = load16 (ntohsHeader header) 2 + sizeofPppHeader)
    (h1 : load16 (ntohsHeader header) 1 = 0x5050) : header = headerBytes (load16 (ntohsHeader header) 2) := by
  obtain ⟨a, b, c, d, e, f, rfl⟩ : ∃ a b c d e f, header = [a, b, c, d, e, f] := by
    match header, hl with
    | [a, b, c, d, e, f], _ => exact ⟨a, b, c, d, e, f, rfl⟩
  obtain ⟨l0, l1, l2⟩ := load16_six b a c d f e
  rw [ntohsHeader_six, l2, l0, sizeofPppHeader] at h0
  rw [ntohsHeader_six, l1] at h1
  rw [ntohsHeader_six, l2]
  unfold headerBytes
  rw [← h0, lo8_word, hi8_word, lo8_word, hi8_word]
  have hc := c.toNat_lt
  have hd := d.toNat_lt
  obtain rfl : c = 0x50 := by
    apply UInt8.toNat_inj.1
    show c.toNat = 80
    omega
  obtain rfl : d = 0x50 := by
    apply UInt8.toNat_inj.1
    show d.toNat = 80
    omega
  rfl

/-- A pass of the header stores a byte, refuses the frame, or gets the buffer of a frame whose header is in
order. -/
inductive HeaderPass (alloc : Nat → Alloc) (w : Input) (b : UInt8) : Except (PppErr × Input) Input → Prop
  | byte : w.inp.counter + 1 < 6 →
      HeaderPass alloc w b (.ok { w with inp := { w.inp with
        counter := w.inp.counter + 1, header := w.inp.header.set w.inp.counter b } })
  | refused (err : PppErr) (i : In) : i.data = none → HeaderPass alloc w b (.error (drop err { w with inp := i }))
  | noMemory (err : PppErr) (i : In) : i.data = none → alloc w.allocs = none →
      HeaderPass alloc w b (.error (drop err { w with inp := i, allocs := w.allocs + 1 }))
  | frame (i : In) (p : Pbuf) : w.inp.header.set w.inp.counter b = headerBytes p.len → w.inp.counter + 1 = 6 →
      i.data = some (w.allocs, [p]) → i.counter = 0 → (alloc w.allocs).isSome →
      HeaderPass alloc w b (.ok { w with inp := i, allocs := w.allocs + 1 })

theorem headerStep_pass {alloc : Nat → Alloc} {w : Input} (hc : w.inp.counter < 6) (hl : w.inp.header.length = 6)
    (hd : w.inp.data = none) (b : UInt8) : HeaderPass alloc w b (headerStep alloc w b) := by
  have hmod : (w.inp.counter + 1) % 65536 = w.inp.counter + 1 := by omega
  unfold headerStep
  simp only [hmod]
  split
  · rename_i hlast
    split
    · exact .refused _ _ hd
    rename_i hcheck
    rw [not_or, not_not, not_not] at hcheck
    split
    · exact .refused _ _ hd
    rename_i hmax
    -- the checks that are passed fix all six bytes of the header
    have hsize := header_checked (by simpa using hl) hcheck.1 hcheck.2
    cases ha : alloc w.allocs with
    | none => exact .noMemory _ _ hd ha
    | some junk =>
      refine .frame _ _ (hsize.trans ?_) hlast rfl rfl (by rw [ha]; rfl)
      congr 1
      simp only [Pbuf.len, List.length_map, List.length_range]
      omega
  · rename_i hmore
    exact .byte (by rw [sizeofPppHeader] at hmore; omega)

/-! ## The pbufs -/

section

variable {alloc : Nat → Alloc}

theorem drop_pbufs (err : PppErr) (w : Input) : (drop err w).2.pbufs.Perm w.pbufs := by
  unfold drop Input.pbufs
  cases hd : w.inp.data with
  | none => simp [In.zero]
  | some d =>
    obtain ⟨id, c⟩ := d
    simp only [In.zero, Option.map_none, Option.toList_none, List.nil_append, List.map_append, List.map_cons,
      List.map_nil, PbufEvent.id, Option.map_some, Option.toList_some]
    exact List.perm_append_comm

theorem drop_allocs (err : PppErr) (w : Input) : (drop err w).2.allocs = w.allocs := by
  unfold drop
  split <;> rfl

theorem drop_accounted {w : Input} (h : Accounted alloc w) (err : PppErr) : Accounted alloc (drop err w).2 := by
  intro id
  rw [(drop_pbufs err w).count_eq, drop_allocs]
  exact h id

/-- A call of the allocator that fails leaves no pbuf behind. -/
theorem accounted_none {w : Input} (h : Accounted alloc w) (hnone : alloc w.allocs = none) :
    Accounted alloc { w with allocs := w.allocs + 1 } := by
  intro id
  refine (h id).trans ?_
  by_cases hid : id = w.allocs
  · subst hid
    simp [hnone]
  · have hlt : id < w.allocs + 1 ↔ id < w.allocs := by omega
    simp only [hlt]

theorem accounted_some {w : Input} {p : List Pbuf} {i : In} (h : Accounted alloc w) (hd : w.inp.data = none)
    (hsome : (alloc w.allocs).isSome) (hi : i.data = some (w.allocs, p)) :
    Accounted alloc { w with inp := i, allocs := w.allocs + 1 } := by
  intro id
  have hcount := h id
  unfold Input.pbufs at hcount ⊢
  simp only [hd, hi, Option.map_none, Option.toList_none, List.nil_append, Option.map_some, Option.toList_some,
    List.singleton_append] at hcount ⊢
  -- the new pbuf is the only one whose count changes
  by_cases hid : id = w.allocs
  · subst hid
    rw [if_neg (by omega)] at hcount
    rw [List.count_cons_self, hcount, if_pos ⟨by omega, hsome⟩]
  · rw [List.count_cons_of_ne (Ne.symm hid), hcount]
    have hlt : id < w.allocs + 1 ↔ id < w.allocs := by omega
    simp only [hlt]

/-- As long as the same pbuf is held, the rest of the parser does not matter. -/
theorem accounted_keep {w : Input} {i : In} (h : Accounted alloc w) (hi : i.data.map (·.1) = w.inp.data.map (·.1)) :
    Accounted alloc { w with inp := i } := by
  intro id
  refine Eq.trans ?_ (h id)
  unfold Input.pbufs
  rw [hi]

theorem dataNext_accounted {w : Input} {id : Nat} {p : Pbuf} (hd : w.inp.data = some (id, [p])) (h : Accounted alloc w)
    (s : Bytes) : Accounted alloc (dataNext w id p s) := by
  unfold dataNext
  simp only
  split
  · intro j
    refine Eq.trans (List.Perm.count_eq ?_ j) (h j)
    unfold Input.pbufs
    simp only [hd, In.zero, Option.map_none, Option.toList_none, List.nil_append, List.map_append, List.map_cons,
      List.map_nil, PbufEvent.id, Option.map_some, Option.toList_some]
    exact List.perm_append_comm
  · exact accounted_keep h (by simp [hd])

theorem inputStep_accounted {w : Input} (hw : InOk w.inp) (h : Accounted alloc w) (s : Bytes) :
    match inputStep alloc w s with
    | .ok r => Accounted alloc r.1
    | .error r => Accounted alloc r.2 := by
  cases s with
  | nil => exact h
  | cons b s =>
    unfold inputStep
    cases hw with
    | header state counter len data =>
      simp only [state]
      have hpass : HeaderPass alloc w b (headerStep alloc w b) := headerStep_pass counter len data b
      generalize headerStep alloc w b = r at hpass
      cases hpass with
      | byte _ => exact accounted_keep h rfl
      | refused err i hd => exact drop_accounted (accounted_keep h (by rw [hd, data])) err
      | noMemory err i hd ha =>
        exact drop_accounted (accounted_none (accounted_keep (i := i) h (by rw [hd, data])) ha) err
      | frame i p _ _ hd _ ha => exact accounted_some h data ha hd
    | data state len data tot size max counter =>
      simp only [state]
      -- a pbuf that is held has room, or it is the one of an empty frame
      rcases counter with counter | ⟨-, h0⟩
      · rw [dataStep_eq data tot size max counter]
        exact dataNext_accounted data h _
      · rw [dataStep_empty data h0]
        exact drop_accounted h _

/-! ## The bytes -/

theorem take_overwrite {m d : Bytes} {off : Nat} (h : off + d.length ≤ m.length) :
    (overwrite m off d).take (off + d.length) = m.take off ++ d := by
  rw [overwrite_eq h]
  apply List.take_left'
  rw [List.length_append, List.length_take]
  omega

theorem drop_passed (err : PppErr) (w : Input) : passed (drop err w).2 = passed w := by
  unfold drop passed
  split
  · rfl
  · simp

/-- A parser that drops its frame skips what it has of it. -/
theorem streamed_drop {w v : Input} {consumed : Bytes} (h : Streamed w consumed) (err : PppErr)
    (hv : passed v = passed w) (rest : Bytes) : Streamed (drop err v).2 (consumed ++ rest) := by
  obtain ⟨frames, skipped, rfl, hpassed, hmax⟩ := h
  refine ⟨frames, skipped ++ w.inp.underWay ++ rest, ?_, ?_, hmax⟩
  · rw [drop_inp]
    simp [In.underWay, In.zero]
  · rw [drop_passed, hv]
    exact hpassed

/-- A parser that goes on has the bytes of the pass behind what it had. -/
theorem streamed_more {w w' : Input} {consumed d : Bytes} (h : Streamed w consumed)
    (hi : w'.inp.underWay = w.inp.underWay ++ d) (hp : passed w' = passed w) : Streamed w' (consumed ++ d) := by
  obtain ⟨frames, skipped, rfl, hpassed, hmax⟩ := h
  exact ⟨frames, skipped, by rw [hi]; simp, by rw [hp]; exact hpassed, hmax⟩

theorem underWay_held {i : In} {id : Nat} {p : Pbuf} (hd : i.data = some (id, [p])) :
    i.underWay = headerBytes p.len ++ p.payload.take i.counter := by
  unfold In.underWay
  simp only [hd, content_cons, content_nil, List.append_nil]
  rfl

theorem dataNext_streamed {w : Input} {id : Nat} {p : Pbuf} (hd : w.inp.data = some (id, [p]))
    (hc : w.inp.counter < p.len) (hp : p.len ≤ 16384) {consumed : Bytes} (h : Streamed w consumed) (s : Bytes) :
    Streamed (dataNext w id p s) (consumed ++ s.take (min (p.len - w.inp.counter) s.length)) := by
  have hheld := underWay_held hd
  unfold dataNext
  simp only
  generalize hk : min (p.len - w.inp.counter) s.length = k
  have hlen : (s.take k).length = k := by rw [List.length_take]; omega
  have hin : w.inp.counter + (s.take k).length ≤ p.payload.length := by
    rw [hlen, ← Pbuf.len]
    omega
  -- the bytes of the chunk stand behind those copied before
  have htake := take_overwrite hin
  rw [hlen] at htake
  split
  · rename_i hfull
    -- the frame is complete: it moves to the frames, with the bytes skipped in front of it
    obtain ⟨frames, skipped, rfl, hpassed, hmax⟩ := h
    have hpayload : overwrite p.payload w.inp.counter (s.take k) = p.payload.take w.inp.counter ++ s.take k :=
      (List.take_of_length_le (by rw [length_overwrite, hfull, Pbuf.len])).symm.trans htake
    have hsize : (overwrite p.payload w.inp.counter (s.take k)).length = p.len := length_overwrite _ _ _
    refine ⟨frames ++ [(skipped, overwrite p.payload w.inp.counter (s.take k))], [], ?_, ?_, ?_⟩
    · simp only [List.flatMap_append, List.flatMap_cons, List.flatMap_nil, skippedFrame, hsize, List.append_nil]
      rw [hheld, hpayload]
      simp [In.underWay, In.zero]
    · unfold passed at hpassed ⊢
      rw [List.filterMap_append, List.map_append, hpassed, List.map_append]
      simp
    · intro x hx
      rcases List.mem_append.1 hx with hx | hx
      · exact hmax x hx
      · obtain rfl := List.mem_singleton.1 hx
        exact hsize.trans_le hp
  · refine streamed_more h ?_ rfl
    rw [hheld, underWay_held rfl]
    simp only [Pbuf.len, length_overwrite, List.append_assoc]
    rw [htake]

/-- A pass reads bytes from the front of the chunk, or it ends the call. -/
theorem inputStep_streamed {w : Input} (hw : InOk w.inp) {consumed : Bytes} (h : Streamed w consumed) (s : Bytes) :
    match inputStep alloc w s with
    | .ok r => ∃ d, s = d ++ r.2 ∧ Streamed r.1 (consumed ++ d)
    | .error r => Streamed r.2 (consumed ++ s) := by
  cases s with
  | nil => exact ⟨[], rfl, by simpa using h⟩
  | cons b s =>
    unfold inputStep
    cases hw with
    | header state counter len data =>
      simp only [state]
      have hnone : w.inp.underWay = w.inp.header.take w.inp.counter := by unfold In.underWay; rw [data]
      -- the byte of this pass is the last one of the header so far
      have hset : (w.inp.header.set w.inp.counter b).take (w.inp.counter + 1) = w.inp.header.take w.inp.counter ++ [b] := by
        have hlt : w.inp.counter < (w.inp.header.set w.inp.counter b).length := by rw [List.length_set]; omega
        rw [List.take_succ_eq_append_getElem hlt, List.getElem_set_self, List.take_set_of_le le_rfl]
      have hpass : HeaderPass alloc w b (headerStep alloc w b) := headerStep_pass counter len data b
      generalize headerStep alloc w b = r at hpass
      cases hpass with
      | byte _ =>
        refine ⟨[b], rfl, streamed_more h ?_ rfl⟩
        rw [hnone, ← hset]
        unfold In.underWay
        simp only [data]
      | refused err i _ => exact streamed_drop (v := { w with inp := i }) h err rfl _
      | noMemory err i _ _ => exact streamed_drop (v := { w with inp := i, allocs := w.allocs + 1 }) h err rfl _
      | frame i p hheader hlast hd hc _ =>
        refine ⟨[b], rfl, streamed_more h ?_ rfl⟩
        rw [underWay_held hd, hc, List.take_zero, List.append_nil, ← hheader, hnone, ← hset, hlast,
          List.take_of_length_le (by rw [List.length_set, len])]
    | data state len data tot size max counter =>
      simp only [state]
      rcases counter with counter | ⟨-, h0⟩
      · rw [dataStep_eq data tot size max counter]
        exact ⟨_, (List.take_append_drop _ _).symm, dataNext_streamed data counter max h _⟩
      · rw [dataStep_empty data h0]
        exact streamed_drop h .pppErrAlloc rfl _

/-! ## Every call -/

theorem parserSafe_zero : ParserSafe alloc .zero where
  between := .zero
  accounted := by
    intro id
    rw [if_neg (fun h => absurd h.1 (Nat.not_lt_zero id))]
    rfl
  streamed := ⟨[], rfl, [], [], rfl, rfl, fun _ hx => nomatch hx⟩

theorem parserSafe_step (ps : Parser) (a : ParserAction) (ps' : Parser) (h : ParserSafe alloc ps)
    (hs : parser alloc ps a = some ps') : ParserSafe alloc ps' := by
  obtain ⟨consumed, hfed, hstreamed⟩ := h.streamed
  cases a with
  | call s =>
    simp only [parser] at hs
    split at hs
    · rename_i hrest
      cases hs
      exact ⟨h.between, h.accounted, consumed, by rw [hfed, hrest]; simp, hstreamed⟩
    · cases hs
  | pass =>
    simp only [parser] at hs
    split at hs
    · cases hs
    rename_i hne
    have hacc := inputStep_accounted h.between h.accounted ps.rest
    have hstr : match inputStep alloc ps.input ps.rest with
        | .ok r => ∃ d, ps.rest = d ++ r.2 ∧ Streamed r.1 (consumed ++ d)
        | .error r => Streamed r.2 (consumed ++ ps.rest) := inputStep_streamed h.between hstreamed ps.rest
    cases hstep : inputStep alloc ps.input ps.rest with
    | ok r =>
      rw [hstep] at hs hacc hstr
      obtain ⟨d, hd, hstr⟩ := hstr
      cases hs
      exact ⟨(inputStep_ok h.between hne hstep).1, hacc, consumed ++ d, by rw [hfed, hd]; simp, hstr⟩
    | error r =>
      rw [hstep] at hs hacc hstr
      cases hs
      exact ⟨(inputStep_error h.between hstep).2 ▸ .zero, hacc, consumed ++ ps.rest, by rw [hfed]; simp, hstr⟩

/-- A call runs passes until the chunk is read or dropped. -/
theorem ppposslInput_passes {w : Input} (hw : InOk w.inp) (s fed : Bytes) :
    ∃ n err w', ppposslInput alloc w s = some (err, w') ∧
      exec (parser alloc) ⟨w, s, fed⟩ (List.replicate n .pass) = some ⟨w', [], fed⟩ := by
  refine input_induction alloc (P := fun w s => ∃ n err w', ppposslInput alloc w s = some (err, w') ∧
    exec (parser alloc) ⟨w, s, fed⟩ (List.replicate n .pass) = some ⟨w', [], fed⟩) ?_ ?_ ?_ hw
  · intro w _
    exact ⟨0, _, w, rfl, rfl⟩
  · intro w b s r hw hstep
    -- an error ends the call in this pass
    refine ⟨1, r.1, r.2, by rw [ppposslInput_cons hw, hstep], ?_⟩
    simp [exec, parser, hstep]
  · intro w b s w' s' hw hstep _ ih
    obtain ⟨n, err, v, hcall, hrun⟩ := ih
    refine ⟨n + 1, err, v, by rw [ppposslInput_cons hw, hstep]; exact hcall, ?_⟩
    rw [List.replicate_succ, exec]
    simp only [parser, hstep, reduceCtorEq, if_false, Option.bind_some]
    exact hrun

/-- What a pass copies stays inside the pbuf; nothing is copied when the pbuf has no room at all. -/
theorem copy_inside {w : Input} (hw : InOk w.inp) {id : Nat} {c : List Pbuf} (hd : w.inp.data = some (id, c)) (s : Bytes) :
    pbufTakeAt c (s.take (copyLen w.inp s.length % 65536)) w.inp.counter = (.errMem, c) ∨
      w.inp.counter + copyLen w.inp s.length ≤ (content c).length := by
  cases hw with
  | header _ _ _ data => rw [data] at hd; cases hd
  | data state len data tot size max counter =>
    rw [data] at hd
    cases hd
    rcases counter with counter | ⟨-, h0⟩
    · right
      unfold copyLen
      rw [← size, if_neg (by omega)]
      simp only [content_cons, content_nil, List.append_nil]
      rw [← Pbuf.len]
      omega
    · exact .inl (pbufTakeAt_end (by omega))

/-! ## Frames without a payload -/

/-- The frames of the given payloads, one behind the other. -/
def frames (payloads : List Bytes) : Bytes := payloads.flatMap fun d => headerBytes d.length ++ d

/-- No call returns an error and every payload that is not empty is passed on, in order. -/
def AllAccepted (alloc : Nat → Alloc) (payloads chunks : List Bytes) : Prop :=
  ∃ w, feed alloc .zero chunks = some (List.replicate chunks.length .pppErrNone, w) ∧
    (passed w).map content = payloads.filter (· ≠ [])

/-- Calls without an error are one call without an error. -/
theorem feed_none : ∀ {chunks : List Bytes} {w w' : Input}, InOk w.inp →
    feed alloc w chunks = some (List.replicate chunks.length .pppErrNone, w') →
      ppposslInput alloc w chunks.flatten = some (.pppErrNone, w')
  | [], w, w', _, h => by cases h; rfl
  | s :: chunks, w, w', hw, h => by
    obtain ⟨err, v, hv, hok, -⟩ := ppposslInput_ok alloc hw s
    simp only [feed, hv, Option.bind_eq_bind, Option.bind_some, Option.bind_eq_some_iff, List.length_cons,
      List.replicate_succ, pure, Option.some.injEq, Prod.mk.injEq, List.cons.injEq] at h
    obtain ⟨⟨errs, u⟩, hrest, ⟨rfl, rfl⟩, rfl⟩ := h
    rw [List.flatten_cons, ppposslInput_append hw, hv, Option.bind_some, if_pos rfl]
    exact feed_none hok hrest

theorem frames_cons (d : Bytes) (payloads : List Bytes) :
    frames (d :: payloads) = headerBytes d.length ++ d ++ frames payloads := rfl

theorem headerBytes_ne (n : Nat) : headerBytes n ≠ [] := List.cons_ne_nil _ _

/-- An empty frame at the end of the bytes is taken. -/
theorem input_empty (ha : ∀ i, (alloc i).isSome) {w : Input} (h0 : w.inp = .zero) :
    ∃ v, ppposslInput alloc w (frames [[]]) = some (.pppErrNone, v) ∧ passed v = passed w := by
  obtain ⟨hdr, p, -, -, -, -, -, hrun⟩ := ppposslInput_header h0 ha (n := 0) (Nat.zero_le _)
  have hbytes : frames [[]] = headerBytes 0 := rfl
  rw [hbytes]
  exact ⟨_, hrun, rfl⟩

/-- The byte behind an empty frame ends the call with an error. -/
theorem input_behind_empty (ha : ∀ i, (alloc i).isSome) {w : Input} (h0 : w.inp = .zero) {rest : Bytes}
    (hne : rest ≠ []) : ∃ v, ppposslInput alloc w (headerBytes 0 ++ rest) = some (.pppErrAlloc, v) := by
  obtain ⟨hdr, p, hlen, htot, -, hhdr, hsize, hrun⟩ := ppposslInput_header h0 ha (n := 0) (Nat.zero_le _)
  obtain ⟨b, s, rfl⟩ := List.exists_cons_of_ne_nil hne
  rw [ppposslInput_append (h0 ▸ .zero), hrun, Option.bind_some, if_pos rfl,
    ppposslInput_cons (.data rfl hhdr rfl (htot.trans hlen.symm) (hlen.trans hsize.symm) (by omega) (.inr ⟨rfl, hlen⟩))]
  simp only [inputStep]
  rw [dataStep_empty rfl hlen]
  exact ⟨_, congrArg some (Prod.ext (drop_err _ _) rfl)⟩

theorem input_frames (ha : ∀ i, (alloc i).isSome) : ∀ (payloads : List Bytes) {w : Input}, w.inp = .zero →
    (∀ d ∈ payloads, d.length ≤ 16384) → (∀ d ∈ payloads.dropLast, d ≠ []) →
      ∃ w', ppposslInput alloc w (frames payloads) = some (.pppErrNone, w') ∧
        (passed w').map content = (passed w).map content ++ payloads.filter (· ≠ [])
  | [], w, _, _, _ => ⟨w, rfl, by simp⟩
  | d :: payloads, w, h0, hmax, hne => by
    by_cases hd : d = []
    · -- only the last frame may be empty
      subst hd
      cases payloads with
      | nil =>
        obtain ⟨v, hrun, hpassed⟩ := input_empty ha h0
        exact ⟨v, hrun, by simp [hpassed]⟩
      | cons e payloads => exact absurd rfl (hne [] (List.mem_cons_self ..))
    · rw [frames_cons, ppposslInput_frame h0 ha hd (hmax d (List.mem_cons_self ..))]
      obtain ⟨w', hrun, hpassed⟩ := input_frames ha payloads (w := { w with
        allocs := w.allocs + 1,
        log := w.log ++ [.pppInput w.allocs [{ payload := d, totLen := d.length, flags := 0 }]] }) h0
        (fun e he => hmax e (List.mem_cons_of_mem _ he)) fun e he => hne e (by
          cases payloads with
          | nil => cases he
          | cons f payloads => exact List.mem_cons_of_mem _ he)
      refine ⟨w', hrun, ?_⟩
      rw [hpassed, List.filter_cons_of_pos (by simpa using hd)]
      simp [passed]

theorem input_frames_empty (ha : ∀ i, (alloc i).isSome) : ∀ (payloads : List Bytes) {w : Input}, w.inp = .zero →
    (∀ d ∈ payloads, d.length ≤ 16384) → [] ∈ payloads.dropLast →
      ∃ w', ppposslInput alloc w (frames payloads) = some (.pppErrAlloc, w')
  | [], _, _, _, h => by cases h
  | [_], _, _, _, h => by cases h
  | d :: e :: payloads, w, h0, hmax, h => by
    by_cases hd : d = []
    · subst hd
      have hrest : frames (e :: payloads) ≠ [] := by
        rw [frames_cons, List.append_assoc]
        exact fun hnil => headerBytes_ne _ (List.append_eq_nil_iff.1 hnil).1
      -- another frame follows, so there is a byte behind the empty one
      exact input_behind_empty ha h0 hrest
    · have hlater : [] ∈ (e :: payloads).dropLast := by
        rcases List.mem_cons.1 h with heq | hmem
        · exact absurd heq.symm hd
        · exact hmem
      rw [frames_cons, ppposslInput_frame h0 ha hd (hmax d (List.mem_cons_self ..))]
      exact input_frames_empty ha (e :: payloads) h0 (fun f hf => hmax f (List.mem_cons_of_mem _ hf)) hlater

/-- Frames with headers in order, cut anywhere, are all accepted exactly when no frame but the last one is
empty. -/
theorem all_accepted_iff (alloc : Nat → Alloc) (ha : ∀ i, (alloc i).isSome) (payloads : List Bytes)
    (hmax : ∀ d ∈ payloads, d.length ≤ 16384) (chunks : List Bytes) (hcut : chunks.flatten = frames payloads) :
    AllAccepted alloc payloads chunks ↔ ∀ d ∈ payloads.dropLast, d ≠ [] := by
  constructor
  · rintro ⟨w, hfeed, -⟩ d hd rfl
    have hcall := feed_none .zero hfeed
    rw [hcut] at hcall
    obtain ⟨w', herr⟩ := input_frames_empty ha payloads (w := .zero) rfl hmax hd
    rw [hcall] at herr
    cases herr
  · intro hne
    obtain ⟨w, hrun, hpassed⟩ := input_frames ha payloads (w := .zero) rfl hmax hne
    rw [← hcut] at hrun
    exact ⟨w, feed_flatten .zero hrun, by simpa [passed, Input.zero] using hpassed⟩

/-- Two frames in one chunk, of which the second is empty. -/
theorem all_accepted_iff_last :
    AllAccepted (fun _ => some fun _ => 0) [[1], []] [[0, 7, 0x50, 0x50, 0, 1, 1, 0, 6, 0x50, 0x50, 0, 0]] ↔
      ∀ d ∈ [[1], ([] : Bytes)].dropLast, d ≠ [] :=
  all_accepted_iff _ (fun _ => rfl) _ (by decide) _ (by decide)

/-- An empty frame with a frame of one byte behind it, in two chunks. -/
theorem empty_frame_refused :
    let alloc : Nat → Alloc := fun _ => some fun _ => 0
    let payloads : List Bytes := [[], [1]]
    let chunks : List Bytes := [[0, 6, 0x50, 0x50], [0, 0, 0, 7, 0x50, 0x50, 0, 1, 1]]
    (∀ i, (alloc i).isSome) ∧ (∀ d ∈ payloads, d.length ≤ 16384) ∧ chunks.flatten = frames payloads ∧
      ¬ AllAccepted alloc payloads chunks := by
  refine ⟨fun _ => rfl, by decide, by decide, ?_⟩
  rintro ⟨w, hfeed, -⟩
  have herrs : (feed (fun _ => some fun _ => 0) .zero [[0, 6, 0x50, 0x50], [0, 0, 0, 7, 0x50, 0x50, 0, 1, 1]]).map
      (·.1) = some [.pppErrNone, .pppErrAlloc] := by decide
  rw [hfeed, Option.map_some] at herrs
  have hlist : [PppErr.pppErrNone, .pppErrNone] = [.pppErrNone, .pppErrAlloc] := Option.some.inj herrs
  exact absurd hlist (by decide)

end

end FortiRdp.Net
