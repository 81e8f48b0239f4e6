/-
The sending side of the PPP interface (`PPInterface`): frames go into the output queue through
`ppp_output_cb` and out of it through `send`. Whatever the tunnel socket answers, the interface is a
byte channel: the bytes sent are the beginning of the accepted frames, the queue holds the rest.
-/
import FortiRdp.Net.OutputQueue
import FortiRdp.Net.PppFraming
import FortiRdp.Run.Fifo

namespace FortiRdp.Net

open FortiRdp.Lwip FortiRdp.Util FortiRdp.Run

structure PPInterface where
  outputQueue : PBufQueue
  lastXmit : Nat
  countersSent : Nat

def PPInterface.init : PPInterface := { outputQueue := .init (32 * 1024), lastXmit := 0, countersSent := 0 }

/-- `ppp_output_cb`. -/
def pppOutputCb (pbuf : List Pbuf) (outputQueue : PBufQueue) : Nat × PBufQueue :=
  let (rc, outputQueue) := outputQueue.push pbuf
  (if rc then totLen pbuf else 0, outputQueue)

/-- `PPInterface::send`, with the bytes that went to the tunnel. -/
def PPInterface.send (pp : PPInterface) (answers : List SndAnswer) : Bool × PPInterface × Bytes :=
  if pp.outputQueue.isEmpty then (true, pp, [])
  else
    let (rc, queue, sent) := writeSocket pp.outputQueue answers
    let counter := if rc = 0 then pp.countersSent + sent.length else pp.countersSent
    (rc == 0, { pp with outputQueue := queue, countersSent := counter }, sent)

/-! ## Runs of the interface -/

/-- The interface with the frames its queue accepted and the bytes its tunnel took. -/
structure Transmit where
  pp : PPInterface
  accepted : List Bytes
  sent : Bytes

def Transmit.init : Transmit := { pp := .init, accepted := [], sent := [] }

inductive TransmitOp where
  | write (a : Alloc) (sysNow : Nat) (pbuf : List Pbuf)
  | send (answers : List SndAnswer)

/-- `ppp_output_cb`, keeping a list of the frames that the queue accepted. -/
def logOutputCb (pbuf : List Pbuf) (c : PBufQueue × List Bytes) : Nat × PBufQueue × List Bytes :=
  let (lp, queue) := pppOutputCb pbuf c.1
  (lp, queue, if (c.1.push pbuf).1 then c.2 ++ [content pbuf] else c.2)

/-- One `pppossl_write` or one `send`. -/
def transmit : Machine Transmit TransmitOp
  | t, .write a sysNow pbuf =>
    let out := (ppposslWrite logOutputCb a sysNow pbuf ⟨t.pp.lastXmit, t.pp.outputQueue, t.accepted⟩).2
    some { pp := { t.pp with outputQueue := out.ctxCb.1, lastXmit := out.lastXmit }, accepted := out.ctxCb.2,
           sent := t.sent }
  | t, .send answers =>
    let (_, pp, sent) := t.pp.send answers
    some { t with pp := pp, sent := t.sent ++ sent }

/-- The list of accepted frames is only a witness: without it the interface does the same. -/
theorem ppposslWrite_log (a : Alloc) (sysNow lastXmit : Nat) (pbuf : List Pbuf) (queue : PBufQueue)
    (accepted : List Bytes) :
    let r := ppposslWrite logOutputCb a sysNow pbuf ⟨lastXmit, queue, accepted⟩
    ppposslWrite pppOutputCb a sysNow pbuf ⟨lastXmit, queue⟩ = (r.1, ⟨r.2.lastXmit, r.2.ctxCb.1⟩) := by
  unfold ppposslWrite
  split
  · rfl
  split
  · cases pppFrame a pbuf with
    | none => rfl
    | some frame =>
      simp only [logOutputCb]
      split <;> rfl
  · rfl

/-- A `pppossl_write` either leaves the queue as it was or puts one whole frame behind it. -/
theorem write_cases (a : Alloc) (sysNow lastXmit : Nat) (pbuf : List Pbuf) (queue : PBufQueue)
    (accepted : List Bytes) :
    let out := (ppposslWrite logOutputCb a sysNow pbuf ⟨lastXmit, queue, accepted⟩).2.ctxCb
    out = (queue, accepted) ∨
      ∃ frame, pppFrame a pbuf = some frame ∧ queue.push [frame] = (true, out.1) ∧ out.2 = accepted ++ [frame.payload] := by
  unfold ppposslWrite
  split
  · exact .inl rfl
  split
  · cases hf : pppFrame a pbuf with
    | none => exact .inl rfl
    | some frame =>
      have hctx : (logOutputCb [frame] (queue, accepted)).2 = (queue, accepted) ∨
          queue.push [frame] = (true, (logOutputCb [frame] (queue, accepted)).2.1) ∧
            (logOutputCb [frame] (queue, accepted)).2.2 = accepted ++ [frame.payload] := by
        unfold logOutputCb pppOutputCb
        cases hpush : queue.push [frame] with
        | mk rc q =>
          cases rc with
          | false =>
            have := PBufQueue.push_refused (q := queue) (c := [frame]) (by rw [hpush])
            rw [hpush] at this
            subst this
            exact .inl rfl
          | true => exact .inr ⟨rfl, by simp⟩
      simp only
      split <;> exact hctx.imp_right fun h => ⟨frame, rfl, h⟩
  · exact .inl rfl

/-- The frame is one pbuf, of less than 64 KiB. -/
theorem pppFrame_wf {a : Alloc} {pbuf : List Pbuf} {frame : Pbuf} (h : pppFrame a pbuf = some frame) :
    TotOk [frame] ∧ frame.len < 65536 := by
  have hgather : ∀ (c : List Pbuf) (m : Bytes) (off : Nat), (gather m off c).length = m.length := by
    intro c
    induction c with
    | nil => exact fun _ _ => rfl
    | cons p c ih => exact fun m off => by rw [gather, ih, length_overwrite]
  obtain ⟨f, hf, rfl⟩ := Option.map_eq_some_iff.1 h
  obtain ⟨junk, -, rfl⟩ := Option.map_eq_some_iff.1 hf
  have hlen : (sizeofPppHeader + totLen pbuf) % 65536 < 65536 := Nat.mod_lt _ (by decide)
  simp only [TotOk, Pbuf.len, hgather, length_store16, List.length_map, List.length_range, content_nil, List.length_nil,
    Nat.add_zero, and_true, true_and]
  exact hlen

theorem send_spec {pp : PPInterface} (h : pp.outputQueue.WF) (answers : List SndAnswer) :
    Drained pp.outputQueue (pp.send answers).2.2 (pp.send answers).2.1.outputQueue := by
  unfold PPInterface.send
  split
  · exact .refl h
  · exact writeSocket_spec h answers

/-! ## The interface is a byte channel -/

/-- The queue is in order and holds what the channel holds. -/
structure Channel (t : Transmit) (f : Fifo UInt8) : Prop where
  wf : t.pp.outputQueue.WF
  capacity : t.pp.outputQueue.capacity = 32 * 1024
  accepted : f.accepted = t.accepted.flatten
  taken : f.taken = t.sent
  held : f.held = t.pp.outputQueue.content

theorem channel_init : Channel .init .empty :=
  ⟨PBufQueue.init_wf _, rfl, rfl, rfl, rfl⟩

/-- An accepted frame is put into the channel, a refused one is no step of it, and a `send` gets the
bytes that the tunnel took. -/
theorem channel_step (t : Transmit) (f : Fifo UInt8) (op : TransmitOp) (t' : Transmit) (h : Channel t f)
    (hstep : transmit t op = some t') : ∃ ops f', exec fifo f ops = some f' ∧ Channel t' f' := by
  cases op with
  | write a sysNow pbuf =>
    cases hstep
    rcases write_cases a sysNow t.pp.lastXmit pbuf t.pp.outputQueue t.accepted with hout | ⟨frame, hf, hpush, hout⟩
    · exact ⟨[], f, rfl, by rw [hout]; exact h.wf, by rw [hout]; exact h.capacity, by rw [hout]; exact h.accepted,
        h.taken, by rw [hout]; exact h.held⟩
    · obtain ⟨htot, hlt⟩ := pppFrame_wf hf
      have hpos : 0 < frame.len := by
        by_contra h0
        have hzero : totLen [frame] = 0 := by rw [totLen_cons, htot.1, content_nil]; simp; omega
        simp [PBufQueue.push, hzero] at hpush
      obtain ⟨hwf, hcontent, hcap⟩ := PBufQueue.push_accepted h.wf htot (by simpa using hpos)
        (by simpa [Pbuf.len] using hlt) (by rw [h.capacity]; decide) hpush
      refine ⟨[.put frame.payload], _, fifo_put f _, hwf, hcap.trans h.capacity, ?_, h.taken, ?_⟩
      · show f.accepted ++ frame.payload = (Prod.snd _ : List Bytes).flatten
        rw [hout, h.accepted]
        simp
      · show f.held ++ frame.payload = _
        rw [hcontent, h.held]
        simp
  | send answers =>
    obtain rfl : { t with pp := (t.pp.send answers).2.1, sent := t.sent ++ (t.pp.send answers).2.2 } = t' :=
      Option.some.inj hstep
    have hd := send_spec h.wf answers
    generalize t.pp.send answers = r at hd
    have hheld : f.held = r.2.2 ++ r.2.1.outputQueue.content := h.held.trans hd.content
    refine ⟨[.get r.2.2.length], _, fifo_get (by rw [hheld, List.length_append]; omega), hd.wf,
      hd.capacity.trans h.capacity, h.accepted, ?_, ?_⟩
    · show f.taken ++ f.held.take r.2.2.length = t.sent ++ r.2.2
      rw [hheld, List.take_left, h.taken]
    · show f.held.drop r.2.2.length = r.2.1.outputQueue.content
      rw [hheld, List.drop_left]

/-- In every run the bytes that the tunnel took are the beginning of the accepted frames, in the order
of their acceptance, and the output queue holds the rest. A write appends the whole frame built for
its packet to the accepted ones or, when it is refused, leaves the queue as it was. -/
theorem transmit_stream {ops : List TransmitOp} {t : Transmit} (h : exec transmit .init ops = some t) :
    t.sent ++ t.pp.outputQueue.content = t.accepted.flatten ∧
    ∀ (a : Alloc) (sysNow : Nat) (pbuf : List Pbuf) (t' : Transmit), transmit t (.write a sysNow pbuf) = some t' →
      t'.sent = t.sent ∧
      (t'.accepted = t.accepted ∧ t'.pp.outputQueue = t.pp.outputQueue ∨
        ∃ frame, pppFrame a pbuf = some frame ∧ t'.accepted = t.accepted ++ [frame.payload]) := by
  constructor
  · obtain ⟨_, f, -, hc⟩ := exec_simulates channel_step channel_init h
    rw [← hc.taken, ← hc.held, ← hc.accepted]
    exact f.conserved
  · rintro a sysNow pbuf t' ⟨⟩
    refine ⟨rfl, ?_⟩
    rcases write_cases a sysNow t.pp.lastXmit pbuf t.pp.outputQueue t.accepted with hout | ⟨frame, hf, -, hout⟩
    · exact .inl ⟨by rw [hout], by rw [hout]⟩
    · exact .inr ⟨frame, hf, hout⟩

/-- A frame of seven bytes of which the tunnel takes four. -/
theorem transmit_stream_partial :
    ∃ t, exec transmit .init [.write (some fun _ => 0) 0 [⟨[1], 1, 0⟩], .send [.taken 3, .retry 2]] = some t ∧
      t.sent = [0, 7, 0x50, 0x50] ∧ t.sent ++ t.pp.outputQueue.content = t.accepted.flatten := by
  obtain ⟨t, ht⟩ : ∃ t, exec transmit .init
      [.write (some fun _ => 0) 0 [⟨[1], 1, 0⟩], .send [.taken 3, .retry 2]] = some t := ⟨_, rfl⟩
  refine ⟨t, ht, ?_, (transmit_stream ht).1⟩
  cases ht
  decide

end FortiRdp.Net
