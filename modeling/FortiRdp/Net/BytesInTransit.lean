/-
The count of bytes in transit (`_forwarded_bytes`): what `forward` adds to it and `tcp_sent_cb` takes from it,
against the bytes that `tcp_write` accepted and those that were reported. A pass that fails and the flush add
nothing.
-/
import FortiRdp.Net.ForwardPath

namespace FortiRdp.Net

open FortiRdp.Lwip FortiRdp.Util FortiRdp.Run

/-! ## The ledger -/

/-- The bytes that an action reports to `tcp_sent_cb`. -/
def Fwd.reported (w : Fwd) : PfAction → Nat
  | .lwip (.tcpSent len) => if w.pcb.any TcpPcb.sentCb = true then len else 0
  | _ => 0

/-- A forwarder with the bytes that `tcp_write` accepted on its control block and those reported to `tcp_sent_cb`. -/
structure Transit where
  w : Fwd
  accepted : Nat
  reported : Nat
  deriving DecidableEq, Repr

def Transit.accept (hostname : Bytes) (rcAccept : Int) (rcQuery : Err) (newOk : Bool) (rcCon : Err) : Transit :=
  { w := (Fwd.accept hostname rcAccept rcQuery newOk rcCon).2, accepted := 0, reported := 0 }

/-- The life of a forwarder up to its deletion. -/
def transit : Machine Transit PfAction
  | l, a =>
    if l.w.deleted then none
    else (forwarder l.w a).map fun w =>
      { w := w, accepted := l.accepted + (l.w.written a).length, reported := l.reported + l.w.reported a }

/-- While the control block is alive the count is what was accepted and not reported. -/
def Transit.Exact (l : Transit) : Prop := l.w.pcb.isSome = true → l.w.pf.forwardedBytes + l.reported = l.accepted

/-! ## The condition -/

/-- The number of bytes that `tcp_write` accepts of blocks of the given lengths. -/
def accepts : List (Nat × Err) → List Nat → Nat
  | _, [] => 0
  | [], _ :: _ => 0
  | (sndbuf, rc) :: answers, n :: ns =>
    if sndbuf = 0 then 0
    else if rc = .errOk then
      if sndbuf < n then sndbuf + accepts answers ((n - sndbuf) :: ns) else n + accepts answers ns
    else 0

/-- The answer of the first `tcp_write` that fails, for blocks of the given lengths. -/
def firstFailure : List (Nat × Err) → List Nat → Err
  | _, [] => .errOk
  | [], _ :: _ => .errOk
  | (sndbuf, rc) :: answers, n :: ns =>
    if sndbuf = 0 then .errOk
    else if rc = .errOk then
      if sndbuf < n then firstFailure answers ((n - sndbuf) :: ns) else firstFailure answers ns
    else rc

/-- Neither `tcp_write` nor `tcp_output` fails; a full output queue of the PPP interface is not a failure. -/
def Succeeds (answers : List (Nat × Err)) (output : Err) (q : PBufQueue) : Prop :=
  firstFailure answers (blocks q) = .errIf ∨
    firstFailure answers (blocks q) = .errOk ∧ (output = .errOk ∨ output = .errIf)

/-- Where `tcp_write` accepts something, the forwarder is CONNECTED and the pass succeeds, and the count is not at the end
of a `size_t`. -/
def Fwd.Accounted (w : Fwd) : PfAction → Prop
  | .op (.forwardPass sndbuf answers unsent output) =>
    let v := w.abortTimedOut
    let q := v.pf.forwardQueue
    (v.pf.state = .connected → v.hasDataToForward unsent sndbuf = true → accepts answers (blocks q) ≠ 0 →
      Succeeds answers output q ∧ v.pf.forwardedBytes + accepts answers (blocks q) < 2 ^ 64) ∧
    (v.pf.state = .disconnecting → v.pf.localClient = true → accepts answers (blocks q) = 0)
  | _ => True

/-! ## What a write accepts -/

/-- The code of the loop and the number of bytes it writes. -/
theorem tcpLoop_eval : ∀ (answers : List (Nat × Err)) {q : PBufQueue} (bs : List Cblock), q.WF →
    (tcpLoop answers q bs).1 = firstFailure answers (blocks q) ∧
      ((tcpLoop answers q bs).2.2.flatMap Cblock.data).length =
        (bs.flatMap Cblock.data).length + accepts answers (blocks q)
  | [], q, bs, _ => by
    unfold tcpLoop
    cases blocks q <;> exact ⟨rfl, rfl⟩
  | (sndbuf, rc) :: answers, q, bs, hq => by
    unfold tcpLoop
    split
    · rename_i hend
      rcases hend with hempty | rfl
      · rw [blocks_nil (PBufQueue.isEmpty_iff.1 hempty)]
        exact ⟨rfl, rfl⟩
      · cases blocks q with
        | nil => exact ⟨rfl, rfl⟩
        | cons n ns =>
          rw [firstFailure, accepts, if_pos rfl, if_pos rfl]
          exact ⟨rfl, rfl⟩
    rename_i hne
    rw [PBufQueue.isEmpty_iff, not_or] at hne
    obtain ⟨p, c, hc⟩ := List.exists_cons_of_ne_nil hne.1
    have hblocks : blocks q = (p.len - q.offset) :: c.map Pbuf.len := by simp only [blocks, hc]
    rw [hblocks, firstFailure, accepts, if_neg hne.2, if_neg hne.2]
    dsimp only
    by_cases hrc : rc = .errOk
    · obtain ⟨q', hmove, hd⟩ := drained_cblock hq hne.1 sndbuf
      have hlen := getCblock_length hq hc sndbuf
      have hrest := blocks_move hq hc (by omega) hmove
      obtain ⟨hcode, hbytes⟩ := tcpLoop_eval answers (bs ++ [q.getCblock sndbuf]) hd.wf
      rw [List.flatMap_append, List.flatMap_singleton, List.length_append, hrest, hlen] at hbytes
      rw [hrest, hlen] at hcode
      rw [if_pos hrc, if_pos hrc, if_pos hrc, hmove]
      dsimp only
      by_cases hlt : sndbuf < p.len - q.offset
      · -- the send buffer takes a part of the block
        rw [if_pos (by omega), min_eq_left (by omega)] at hcode hbytes
        rw [if_pos hlt, if_pos hlt]
        exact ⟨hcode, by omega⟩
      · rw [if_neg (by omega)] at hcode hbytes
        rw [if_neg hlt, if_neg hlt]
        exact ⟨hcode, by omega⟩
    · rw [if_neg hrc, if_neg hrc, if_neg hrc]
      exact ⟨rfl, rfl⟩

theorem writeTcp_length {q : PBufQueue} (hq : q.WF) (answers : List (Nat × Err)) (unsent : Bool) (output : Err) :
    ((writeTcp q answers unsent output).2.2.flatMap Cblock.data).length = accepts answers (blocks q) := by
  have hbytes := (tcpLoop_eval answers [] hq).2
  rw [List.flatMap_nil, List.length_nil, Nat.zero_add] at hbytes
  exact hbytes

/-- A write that accepted something comes back with `ERR_OK` when nothing failed. -/
theorem writeTcp_succeeds {q : PBufQueue} (hq : q.WF) {answers : List (Nat × Err)} (unsent : Bool) {output : Err}
    (htakes : accepts answers (blocks q) ≠ 0) :
    (writeTcp q answers unsent output).1 = .errOk ↔ Succeeds answers output q := by
  have htaken : (writeTcp q answers unsent output).2.2 ≠ [] := by
    intro hnil
    have hlen := writeTcp_length hq answers unsent output
    rw [hnil] at hlen
    exact htakes hlen.symm
  have hfailure := (tcpLoop_eval answers [] hq).1
  unfold Succeeds
  rw [← hfailure]
  unfold writeTcp at htaken ⊢
  generalize tcpLoop answers q [] = r at htaken ⊢
  obtain ⟨rc, queue, bs⟩ := r
  dsimp only at htaken ⊢
  have hne : bs ≠ [] ∨ unsent = true := .inl htaken
  by_cases hrc : rc = .errOk
  · have hcode : (if rc = .errOk ∧ (bs ≠ [] ∨ unsent = true) then output else rc) = output := if_pos ⟨hrc, hne⟩
    rw [hcode, hrc]
    by_cases hif : output = .errIf
    · rw [if_pos hif, hif]
      exact iff_of_true rfl (.inr ⟨rfl, .inr rfl⟩)
    · rw [if_neg hif]
      constructor
      · exact fun hout => .inr ⟨rfl, .inl hout⟩
      · rintro (h | ⟨-, hout | hout⟩)
        · cases h
        · exact hout
        · exact absurd hout hif
  · have hcode : (if rc = .errOk ∧ (bs ≠ [] ∨ unsent = true) then output else rc) = rc := if_neg fun h => hrc h.1
    rw [hcode]
    by_cases hif : rc = .errIf
    · rw [if_pos hif]
      exact iff_of_true rfl (.inl hif)
    · rw [if_neg hif]
      refine iff_of_false hrc ?_
      rintro (h | ⟨h, -⟩)
      · exact hif h
      · exact hrc h

/-! ## Steps that do not write -/

/-- A block that has a connection has the sent callback. -/
def SentWired (p : TcpPcb) : Prop := p.state ≠ .closed → p.sentCb = true

/-- The block in `w'` is the one in `w`, with as many bytes that wait for their acknowledgement. -/
def SameBlock (w w' : Fwd) : Prop :=
  ∀ p', w'.pcb = some p' → ∃ p, w.pcb = some p ∧ p'.unacked = p.unacked ∧ (SentWired p → SentWired p')

/-- Neither the count nor what it counts is changed. -/
structure Uncounted (w w' : Fwd) : Prop where
  bytes : w'.pf.forwardedBytes = w.pf.forwardedBytes
  block : SameBlock w w'

theorem SameBlock.of_eq {w w' : Fwd} (h : w'.pcb = w.pcb) : SameBlock w w' := fun p' hp => ⟨p', h ▸ hp, rfl, id⟩

theorem SameBlock.gone {w w' : Fwd} (h : w'.pcb = none) : SameBlock w w' := by
  rintro p' hp
  rw [h] at hp
  cases hp

theorem SameBlock.trans {u v w : Fwd} (h : SameBlock u v) (h' : SameBlock v w) : SameBlock u w := by
  rintro p'' hp''
  obtain ⟨p', hp', hacked', hwired'⟩ := h' p'' hp''
  obtain ⟨p, hp, hacked, hwired⟩ := h p' hp'
  exact ⟨p, hp, hacked'.trans hacked, hwired' ∘ hwired⟩

theorem Uncounted.refl (w : Fwd) : Uncounted w w := ⟨rfl, .of_eq rfl⟩

theorem Uncounted.trans {u v w : Fwd} (h : Uncounted u v) (h' : Uncounted v w) : Uncounted u w :=
  ⟨h'.bytes.trans h.bytes, h.block.trans h'.block⟩

theorem Uncounted.ite {w v v' : Fwd} {c : Prop} [Decidable c] (h : Uncounted w v) (h' : Uncounted w v') :
    Uncounted w (if c then v else v') := by
  split
  · exact h
  · exact h'

/-- `tcp_close` leaves a block with its acknowledgements, or none. -/
theorem tcpClose_unacked {p p' : TcpPcb} (h : tcpClose p = some p') :
    p'.unacked = p.unacked ∧ p'.sentCb = p.sentCb ∧ p.state ≠ .closed := by
  unfold tcpClose at h
  split at h
  · cases h
  · cases h
  · rename_i hstate
    cases h
    exact ⟨rfl, rfl, by rw [hstate]; nofun⟩
  · rename_i hstate
    cases h
    exact ⟨rfl, rfl, by rw [hstate]; nofun⟩

/-- Closing the block, with the error and receive callbacks removed or not. -/
theorem SameBlock.closed {w w' : Fwd} {f : TcpPcb → TcpPcb}
    (hf : ∀ p, (f p).unacked = p.unacked ∧ (f p).sentCb = p.sentCb ∧ (f p).state = p.state)
    (h : w'.pcb = w.pcb.bind fun p => tcpClose (f p)) : SameBlock w w' := by
  rintro p' hp'
  rw [h] at hp'
  obtain ⟨p, hp, hclose⟩ := Option.bind_eq_some_iff.1 hp'
  obtain ⟨hacked, hsent, hopen⟩ := tcpClose_unacked hclose
  obtain ⟨hfacked, hfsent, hfstate⟩ := hf p
  rw [hfstate] at hopen
  exact ⟨p, hp, hacked.trans hfacked, fun hwired _ => (hsent.trans hfsent).trans (hwired hopen)⟩

theorem dnsFoundCb_uncounted (w : Fwd) (name : Bytes) (ipaddr : Bool) (rcCon : Err) :
    Uncounted w (w.dnsFoundCb name ipaddr rcCon) := by
  unfold Fwd.dnsFoundCb
  split
  · exact ⟨rfl, .of_eq rfl⟩
  split
  · exact ⟨rfl, .of_eq rfl⟩
  split
  · refine ⟨rfl, ?_⟩
    rintro p' hp'
    obtain ⟨p, hp, rfl⟩ := Option.map_eq_some_iff.1 hp'
    exact ⟨p, hp, rfl, fun _ _ => rfl⟩
  · exact ⟨rfl, .closed (f := id) (fun _ => ⟨rfl, rfl, rfl⟩) rfl⟩

theorem tcpRecvCb_uncounted (w : Fwd) (c : List Pbuf) (err : Err) : Uncounted w (w.tcpRecvCb c err).2 := by
  unfold Fwd.tcpRecvCb
  split
  · split
    · exact ⟨rfl, .of_eq rfl⟩
    · dsimp only
      split
      · exact .refl w
      · exact ⟨rfl, .of_eq rfl⟩
  · split
    · exact ⟨rfl, .closed (f := fun p => { p with errCb := false, recvCb := false }) (fun _ => ⟨rfl, rfl, rfl⟩) rfl⟩
    · exact .refl w

theorem disconnect_uncounted (w : Fwd) : Uncounted w w.disconnect := by
  unfold Fwd.disconnect
  split
  · exact .refl w
  · exact ⟨rfl, .of_eq rfl⟩

theorem abort_uncounted (w : Fwd) : Uncounted w w.abort := by
  unfold Fwd.abort Fwd.tcpAbort
  split
  · dsimp only
    split
    · exact ⟨rfl, .gone rfl⟩
    · exact ⟨rfl, .gone rfl⟩
  · exact .refl w

/-- A method that failed is followed by `disconnect`. -/
theorem orDisconnect_uncounted {w : Fwd} {r : Bool × Fwd} (h : Uncounted w r.2) :
    Uncounted w (.orDisconnect r) :=
  .ite h (h.trans (disconnect_uncounted r.2))

theorem recv_uncounted (w : Fwd) (rcv : RcvAnswer) (a : Alloc) : Uncounted w (w.recv rcv a).2 := by
  obtain ⟨queue, hq⟩ := recv_eq w rcv a
  rw [hq]
  exact ⟨rfl, .of_eq rfl⟩

theorem reply_uncounted (w : Fwd) (snd : List SndAnswer) : Uncounted w (w.reply snd).2 := by
  unfold Fwd.reply
  split
  · exact .refl w
  · exact ⟨rfl, .of_eq rfl⟩

theorem localIo_uncounted (w : Fwd) (readable writable : Bool) (rcv : RcvAnswer) (a : Alloc) (snd : List SndAnswer) :
    Uncounted w (w.localIo readable writable rcv a snd) := by
  by_cases hc : w.pf.state = .connected
  · have hread : Uncounted w (w.afterRecv readable rcv a) :=
      .ite (orDisconnect_uncounted (recv_uncounted w rcv a)) (.refl w)
    rw [localIo_connected hc]
    exact .ite (hread.trans (orDisconnect_uncounted (reply_uncounted _ snd))) hread
  · unfold Fwd.localIo
    rw [if_neg hc]
    refine .ite ?_ (.refl w)
    unfold Fwd.flushReplyQueue
    split
    · exact .refl w
    · exact .ite ⟨rfl, .of_eq rfl⟩ ⟨rfl, .of_eq rfl⟩

theorem abortTimedOut_uncounted (w : Fwd) : Uncounted w w.abortTimedOut := .ite (abort_uncounted w) (.refl w)

/-- The events but the acknowledgement. -/
theorem lwip_uncounted {w w' : Fwd} (alive : w.deleted = false) {e : LwipEvent} (hs : w.lwip e = some w')
    (he : ∀ len, e ≠ .tcpSent len) : Uncounted w w' := by
  -- lwIP moves a block on and leaves what waits for its acknowledgement
  have hset : ∀ {v : Fwd} {p p' : TcpPcb}, v.pf.forwardedBytes = w.pf.forwardedBytes → w.pcb = some p → v.pcb = some p' →
      p'.unacked = p.unacked → (SentWired p → SentWired p') → Uncounted w v := by
    intro v p p' hbytes hp hv hacked hwired
    refine ⟨hbytes, fun q hq => ⟨p, hp, ?_⟩⟩
    obtain rfl := Option.some.inj (hv.symm.trans hq)
    exact ⟨hacked, hwired⟩
  cases lwip_step alive hs with
  | tcpSent | tcpSentSilent => exact absurd rfl (he _)
  | dnsFound =>
    have hanswered : Uncounted w { w with dnsPending := false } := ⟨rfl, .of_eq rfl⟩
    exact hanswered.trans (dnsFoundCb_uncounted _ _ _ _)
  | tcpConnected hp hsyn =>
    exact hset rfl hp rfl rfl fun hwired _ => hwired (by rw [hsyn]; exact fun hclosed => by cases hclosed)
  | tcpErr | tcpErrSilent | pcbFreed => exact ⟨rfl, .gone rfl⟩
  | @tcpRecv _ c =>
    refine (tcpRecvCb_uncounted w c.pbufs .errOk).trans ⟨rfl, ?_⟩
    rintro p' hp'
    obtain ⟨q, hq, rfl⟩ := Option.map_eq_some_iff.1 hp'
    exact ⟨q, hq, rfl, id⟩
  | tcpRecvSilent => exact .refl w
  | @tcpFin p hp =>
    have hfin := hset (v := { w with pcb := some { p with finReceived := true } }) rfl hp rfl rfl id
    exact hfin.trans (tcpRecvCb_uncounted _ [] .errOk)
  | tcpFinSilent hp => exact hset rfl hp rfl rfl id
  | connectTimeout | fflushTimeout | rflushTimeout => exact ⟨rfl, .of_eq rfl⟩

/-! ## Steps -/

/-- What a step does to the count and to what it counts: nothing, an acknowledgement, or a write, which adds to the count or
not. -/
inductive Counts (w : Fwd) (a : PfAction) (w' : Fwd) : Prop
  | quiet (same : Uncounted w w') (written : w.written a = []) (reported : w.reported a = 0) (accounted : w.Accounted a)
  | acked {len : Nat} {p : TcpPcb} (action : a = .lwip (.tcpSent len)) (block : w.pcb = some p)
      (connection : p.state ≠ .closed) (bound : len ≤ p.unacked) (block' : w'.pcb = some { p with unacked := p.unacked - len })
      (bytes : p.sentCb = true → w'.pf.forwardedBytes = (w.pf.forwardedBytes + 2 ^ 64 - len) % 2 ^ 64)
  | wrote {p p' : TcpPcb} (credited : Bool) (block : w.pcb = some p) (block' : w'.pcb = some p')
      (unacked : p'.unacked = p.unacked + (w.written a).length) (wired : SentWired p → SentWired p')
      (reported : w.reported a = 0)
      (bytes : w'.pf.forwardedBytes =
        if credited then (w.pf.forwardedBytes + (w.written a).length) % 2 ^ 64 else w.pf.forwardedBytes)
      (accounted : w.Accounted a ↔
        (w.written a).length = 0 ∨ credited = true ∧ w.pf.forwardedBytes + (w.written a).length < 2 ^ 64)

theorem tcpSent_counts {w w' : Fwd} (alive : w.deleted = false) {len : Nat} (hs : w.lwip (.tcpSent len) = some w') :
    Counts w (.lwip (.tcpSent len)) w' := by
  have hopen : ∀ {p : TcpPcb}, p.state = .established ∨ p.state = .closing → p.state ≠ .closed := by
    rintro p hst hclosed
    rcases hst with h | h <;> rw [hclosed] at h <;> cases h
  cases lwip_step alive hs with
  | tcpSent hp hst hbound => exact .acked rfl hp (hopen hst) hbound.2 rfl fun _ => rfl
  | tcpSentSilent hp hst hbound hcb =>
    exact .acked rfl hp (hopen hst) hbound.2 rfl fun h => by rw [hcb] at h; cases h

/-- A forwarder that writes passes on what `tcp_write` accepts. -/
theorem written_eq {w : Fwd} (hidle : w.abortTimedOut = w) (sndbuf : Nat) (answers : List (Nat × Err)) (unsent : Bool)
    (output : Err) (hwrites : w.pf.state = .connected ∧ w.hasDataToForward unsent sndbuf = true ∨
      w.pf.state = .disconnecting ∧ w.pf.localClient = true) :
    w.written (.op (.forwardPass sndbuf answers unsent output)) =
      (writeTcp w.pf.forwardQueue answers unsent output).2.2.flatMap Cblock.data := by
  unfold Fwd.written
  dsimp only
  rw [hidle]
  exact if_pos hwrites

/-- A connected forwarder that has data adds what it writes, when the write succeeds. -/
theorem forward_counts {w : Fwd} (h : Phase w .connected) (hq : w.pf.forwardQueue.WF) {sndbuf : Nat}
    (answers : List (Nat × Err)) {unsent : Bool} (output : Err) (hdata : w.hasDataToForward unsent sndbuf = true) :
    Counts w (.op (.forwardPass sndbuf answers unsent output)) (w.forwardPass sndbuf answers unsent output) := by
  have hc : w.pf.state = .connected := h.state_eq
  have hidle : w.abortTimedOut = w := if_neg (by rw [hc]; rintro ⟨⟨⟩, -⟩)
  have hwritten := written_eq hidle sndbuf answers unsent output (.inl ⟨hc, hdata⟩)
  have hlength := writeTcp_length hq answers unsent output
  rw [← hwritten] at hlength
  have haccounted : w.Accounted (.op (.forwardPass sndbuf answers unsent output)) ↔
      (w.written (.op (.forwardPass sndbuf answers unsent output))).length = 0 ∨
        decide ((writeTcp w.pf.forwardQueue answers unsent output).1 = .errOk) = true ∧
          w.pf.forwardedBytes + (w.written (.op (.forwardPass sndbuf answers unsent output))).length < 2 ^ 64 := by
    unfold Fwd.Accounted
    dsimp only
    rw [hidle, decide_eq_true_iff, hlength]
    constructor
    · rintro ⟨hwrite, -⟩
      by_cases hnone : accepts answers (blocks w.pf.forwardQueue) = 0
      · exact .inl hnone
      · obtain ⟨hsucceeds, hroom⟩ := hwrite hc hdata hnone
        exact .inr ⟨(writeTcp_succeeds hq unsent hnone).2 hsucceeds, hroom⟩
    · intro hor
      refine ⟨fun _ _ hsome => ?_, fun hdis => ?_⟩
      · obtain ⟨hok, hroom⟩ := hor.resolve_left hsome
        exact ⟨(writeTcp_succeeds hq unsent hsome).1 hok, hroom⟩
      · rw [hc] at hdis
        cases hdis
  cases h with
  | @connected p _ _ _ pcb wired =>
    have hforward : w.forward answers unsent output =
        (decide ((writeTcp w.pf.forwardQueue answers unsent output).1 = .errOk), { w with
          pf := { w.pf with
            forwardQueue := (writeTcp w.pf.forwardQueue answers unsent output).2.1
            forwardedBytes := if decide ((writeTcp w.pf.forwardQueue answers unsent output).1 = .errOk) then
              (w.pf.forwardedBytes + (w.written (.op (.forwardPass sndbuf answers unsent output))).length) % 2 ^ 64
              else w.pf.forwardedBytes }
          pcb := some { p with
            unacked := p.unacked + (w.written (.op (.forwardPass sndbuf answers unsent output))).length } }) := by
      unfold Fwd.forward Fwd.tcpWritten
      rw [if_neg (not_not.2 hc), hwritten, pcb]
      simp only [decide_eq_true_eq, Option.map_some]
    rw [forwardPass_connected hc hdata, hforward]
    generalize decide ((writeTcp w.pf.forwardQueue answers unsent output).1 = .errOk) = ok at haccounted
    cases ok with
    | true => exact .wrote true pcb rfl rfl id rfl rfl haccounted
    | false =>
      refine .wrote false pcb ((disconnect_pcb _).trans rfl) rfl id rfl ?_ haccounted
      exact (disconnect_uncounted _).bytes

/-- The flush adds nothing, whatever it writes. -/
theorem flush_counts {w : Fwd} (h : Phase w .flushForward) (hq : w.pf.forwardQueue.WF) (sndbuf : Nat)
    (answers : List (Nat × Err)) (unsent : Bool) (output : Err) :
    Counts w (.op (.forwardPass sndbuf answers unsent output)) (w.forwardPass sndbuf answers unsent output) := by
  cases h with
  | @flushForward p hdis _ hclient pcb wired =>
    have hidle : w.abortTimedOut = w := if_neg (by rw [hdis]; rintro ⟨⟨⟩, -⟩)
    have hwritten := written_eq hidle sndbuf answers unsent output (.inr ⟨hdis, hclient⟩)
    have hlength := writeTcp_length hq answers unsent output
    rw [← hwritten] at hlength
    have haccounted : w.Accounted (.op (.forwardPass sndbuf answers unsent output)) ↔
        (w.written (.op (.forwardPass sndbuf answers unsent output))).length = 0 ∨
          false = true ∧
            w.pf.forwardedBytes + (w.written (.op (.forwardPass sndbuf answers unsent output))).length < 2 ^ 64 := by
      unfold Fwd.Accounted
      dsimp only
      rw [hidle, hlength]
      constructor
      · rintro ⟨-, hflush⟩
        exact .inl (hflush hdis hclient)
      · rintro (hnone | ⟨hfalse, -⟩)
        · refine ⟨fun hc => ?_, fun _ _ => hnone⟩
          rw [hdis] at hc
          cases hc
        · cases hfalse
    have hpass : w.forwardPass sndbuf answers unsent output = w.flushForwardQueue answers unsent output := by
      unfold Fwd.forwardPass
      dsimp only
      rw [hidle, if_neg (by rw [hdis]; exact fun hc => by cases hc), if_pos ⟨hdis, hclient⟩]
    rw [hpass]
    unfold Fwd.flushForwardQueue Fwd.tcpWritten
    rw [if_neg (not_not.2 hdis), pcb]
    dsimp only
    rw [← hwritten]
    split
    · have hclose : (some { p with
            unacked := p.unacked + (w.written (.op (.forwardPass sndbuf answers unsent output))).length }).bind
          (fun p => tcpClose { p with errCb := false, recvCb := false }) = some { p with
            unacked := p.unacked + (w.written (.op (.forwardPass sndbuf answers unsent output))).length
            errCb := false, recvCb := false, state := .closing } := by
        simp only [Option.bind_some, tcpClose, wired.state]
      refine .wrote false pcb hclose rfl ?_ rfl rfl haccounted
      exact fun hsent _ => hsent (by rw [wired.state]; exact fun hclosed => by cases hclosed)
    · exact .wrote false pcb rfl rfl id rfl rfl haccounted

/-- A pass that does not write. -/
theorem idle_counts {w : Fwd} {sndbuf : Nat} (answers : List (Nat × Err)) {unsent : Bool} (output : Err)
    (hc : w.abortTimedOut.pf.state = .connected → w.abortTimedOut.hasDataToForward unsent sndbuf = false)
    (hdis : w.abortTimedOut.pf.state = .disconnecting → w.abortTimedOut.pf.localClient = false) :
    Counts w (.op (.forwardPass sndbuf answers unsent output)) (w.forwardPass sndbuf answers unsent output) := by
  have hpass : w.forwardPass sndbuf answers unsent output = w.abortTimedOut := by
    unfold Fwd.forwardPass
    dsimp only
    split
    · rename_i hcon
      rw [if_neg (by rw [hc hcon]; nofun)]
    · refine if_neg ?_
      rintro ⟨hd, hclient⟩
      rw [hdis hd] at hclient
      cases hclient
  refine .quiet ?_ ?_ rfl ⟨fun hcon hdata => ?_, fun hd hclient => ?_⟩
  · rw [hpass]
    exact abortTimedOut_uncounted w
  · refine if_neg ?_
    rintro (⟨hcon, hdata⟩ | ⟨hd, hclient⟩)
    · rw [hc hcon] at hdata
      cases hdata
    · rw [hdis hd] at hclient
      cases hclient
  · rw [hc hcon] at hdata
    cases hdata
  · rw [hdis hd] at hclient
    cases hclient

theorem forwardPass_counts {w : Fwd} {s : Stage} (h : Phase w s) (hq : w.pf.forwardQueue.WF) (sndbuf : Nat)
    (answers : List (Nat × Err)) (unsent : Bool) (output : Err) :
    Counts w (.op (.forwardPass sndbuf answers unsent output)) (w.forwardPass sndbuf answers unsent output) := by
  by_cases htimed : w.pf.state = .connecting ∧ w.pf.connectTimeout = true
  · obtain rfl := h.of_timedOut htimed.1 htimed.2
    have habort : w.abortTimedOut.pf.state = .disconnected := by
      rw [show w.abortTimedOut = w.abort from if_pos htimed]
      exact (abort_phase h (.inl rfl)).state_eq
    refine idle_counts answers output (fun hc => ?_) fun hdis => ?_
    · rw [habort] at hc
      cases hc
    · rw [habort] at hdis
      cases hdis
  have hidle : w.abortTimedOut = w := if_neg htimed
  by_cases hc : w.pf.state = .connected
  · obtain rfl := h.of_connected hc
    by_cases hdata : w.hasDataToForward unsent sndbuf = true
    · exact forward_counts h hq answers output hdata
    · refine idle_counts answers output (fun _ => ?_) fun hdis => ?_
      · rw [hidle]
        exact Bool.eq_false_iff.2 hdata
      · rw [hidle, hc] at hdis
        cases hdis
  by_cases hflush : w.pf.state = .disconnecting ∧ w.pf.localClient = true
  · obtain rfl := h.of_flushForward hflush.1 hflush.2
    exact flush_counts h hq sndbuf answers unsent output
  · refine idle_counts answers output (fun hcon => ?_) fun hdis => ?_
    · rw [hidle] at hcon
      exact absurd hcon hc
    · rw [hidle] at hdis ⊢
      exact Bool.eq_false_iff.2 fun hclient => hflush ⟨hdis, hclient⟩

theorem step_counts {w w' : Fwd} {s : Stage} {a : PfAction} (h : Phase w s) (alive : w.deleted = false)
    (hq : w.pf.forwardQueue.WF) (hs : forwarder w a = some w') : Counts w a w' := by
  cases a with
  | lwip e =>
    have he : w.lwip e = some w' := hs
    cases e with
    | tcpSent len => exact tcpSent_counts alive he
    | dnsFound | tcpConnected | tcpErr | tcpRecv | tcpFin | pcbFreed | timeout =>
      exact .quiet (lwip_uncounted alive he nofun) rfl rfl trivial
  | op o =>
    simp only [forwarder, alive, Bool.false_eq_true, if_false, Option.some.injEq] at hs
    subst hs
    cases o with
    | localIo readable writable rcv a snd =>
      exact .quiet (localIo_uncounted w readable writable rcv a snd) rfl rfl trivial
    | forwardPass sndbuf answers unsent output => exact forwardPass_counts h hq sndbuf answers unsent output
    | abortConnected => exact .quiet (.ite (abort_uncounted w) (.refl w)) rfl rfl trivial
    | delete => exact .quiet ⟨rfl, .of_eq rfl⟩ rfl rfl trivial

/-! ## Runs -/

/-- What is accepted was reported or waits for its acknowledgement, and the sent callback of a connection is registered. -/
structure Transit.Sound (l : Transit) : Prop where
  staged : l.w.Staged
  fits : l.w.pf.forwardQueue.Fits
  small : l.w.pf.forwardedBytes < 2 ^ 64
  block : ∀ p, l.w.pcb = some p → p.unacked + l.reported = l.accepted ∧ SentWired p

theorem accept_uncounted (hostname : Bytes) (rcAccept : Int) (rcQuery : Err) (newOk : Bool) (rcCon : Err) :
    (Fwd.accept hostname rcAccept rcQuery newOk rcCon).2.pf.forwardedBytes = 0 ∧
      ∀ p, (Fwd.accept hostname rcAccept rcQuery newOk rcCon).2.pcb = some p → p.unacked = 0 ∧ SentWired p := by
  have hconnect : ((Fwd.new hostname).connect rcAccept rcQuery newOk rcCon).2.pf.forwardedBytes = 0 ∧
      ∀ p, ((Fwd.new hostname).connect rcAccept rcQuery newOk rcCon).2.pcb = some p →
        p.unacked = 0 ∧ SentWired p := by
    unfold Fwd.connect
    split
    · exact ⟨rfl, nofun⟩
    split
    · exact ⟨rfl, nofun⟩
    dsimp only
    split
    · split
      · split
        · refine ⟨(dnsFoundCb_uncounted _ _ true rcCon).bytes, fun p hp => ?_⟩
          obtain ⟨_, ⟨⟩, hacked, hwired⟩ := (dnsFoundCb_uncounted _ _ true rcCon).block p hp
          exact ⟨hacked, hwired fun hopen => absurd rfl hopen⟩
        · refine ⟨rfl, ?_⟩
          rintro _ ⟨⟩
          exact ⟨rfl, fun hopen => absurd rfl hopen⟩
      · exact ⟨rfl, nofun⟩
    · exact ⟨rfl, nofun⟩
  unfold Fwd.accept
  generalize (Fwd.new hostname).connect rcAccept rcQuery newOk rcCon = r at hconnect
  obtain ⟨ok, w⟩ := r
  cases ok <;> exact hconnect

theorem transit_accept (hostname : Bytes) (rcAccept : Int) (rcQuery : Err) (newOk : Bool) (rcCon : Err) :
    (Transit.accept hostname rcAccept rcQuery newOk rcCon).Sound ∧
      (Transit.accept hostname rcAccept rcQuery newOk rcCon).Exact := by
  obtain ⟨hbytes, hblock⟩ := accept_uncounted hostname rcAccept rcQuery newOk rcCon
  refine ⟨⟨staged_accept hostname rcAccept rcQuery newOk rcCon, ?_, ?_, hblock⟩, fun _ => hbytes⟩
  · show (Fwd.accept hostname rcAccept rcQuery newOk rcCon).2.pf.forwardQueue.Fits
    rw [accept_forwardQueue]
    exact PBufQueue.init_fits (by decide)
  · show (Fwd.accept hostname rcAccept rcQuery newOk rcCon).2.pf.forwardedBytes < 2 ^ 64
    rw [hbytes]
    exact Nat.two_pow_pos 64

theorem transit_cases {l l' : Transit} {a : PfAction} (hs : transit l a = some l') :
    l.w.deleted = false ∧ ∃ w, forwarder l.w a = some w ∧ l' =
      { w := w, accepted := l.accepted + (l.w.written a).length, reported := l.reported + l.w.reported a } := by
  simp only [transit] at hs
  split at hs
  · cases hs
  rename_i hdel
  obtain ⟨w, hw, rfl⟩ := Option.map_eq_some_iff.1 hs
  exact ⟨Bool.eq_false_iff.2 hdel, w, hw, rfl⟩

/-- What the sent callback is told is what is acknowledged. -/
theorem reported_sent {w : Fwd} {p : TcpPcb} (hp : w.pcb = some p) (hopen : p.state ≠ .closed) (hwired : SentWired p)
    (len : Nat) : w.reported (.lwip (.tcpSent len)) = len := by
  refine if_pos ?_
  rw [hp]
  exact hwired hopen

theorem transit_step (l : Transit) (a : PfAction) (l' : Transit) (h : l.Sound) (hs : transit l a = some l') : l'.Sound := by
  obtain ⟨alive, w, hw, rfl⟩ := transit_cases hs
  obtain ⟨s, hphase⟩ := h.staged alive
  obtain ⟨lost, ht⟩ := transfer_step hphase alive h.fits hw
  have hstaged := staged_step l.w a w h.staged hw
  cases step_counts hphase alive h.fits.wf hw with
  | quiet same written reported =>
    refine ⟨hstaged, ht.fits, same.bytes ▸ h.small, fun p' hp' => ?_⟩
    obtain ⟨p, hp, hacked, hwired⟩ := same.block p' hp'
    obtain ⟨hsum, hsent⟩ := h.block p hp
    dsimp only
    rw [written, reported, hacked]
    exact ⟨hsum, hwired hsent⟩
  | @acked len p action block connection bound block' bytes =>
    obtain ⟨hsum, hsent⟩ := h.block p block
    have hreported := reported_sent block connection hsent len
    subst action
    refine ⟨hstaged, ht.fits, ?_, fun p' hp' => ?_⟩
    · dsimp only
      rw [bytes (hsent connection)]
      exact Nat.mod_lt _ (Nat.two_pow_pos 64)
    · dsimp only at hp' ⊢
      rw [block'] at hp'
      cases hp'
      rw [hreported]
      refine ⟨?_, hsent⟩
      show p.unacked - len + (l.reported + len) = l.accepted + 0
      omega
  | @wrote p p' credited block block' unacked wired reported bytes =>
    obtain ⟨hsum, hsent⟩ := h.block p block
    refine ⟨hstaged, ht.fits, ?_, fun q hq => ?_⟩
    · dsimp only
      rw [bytes]
      split
      · exact Nat.mod_lt _ (Nat.two_pow_pos 64)
      · exact h.small
    · dsimp only at hq ⊢
      rw [block'] at hq
      cases hq
      rw [reported, unacked]
      exact ⟨by omega, wired hsent⟩

/-- From an exact count a step counts right exactly when it is accounted. -/
theorem exact_step {l l' : Transit} {a : PfAction} (h : l.Sound) (hexact : l.Exact) (hs : transit l a = some l') :
    l'.Exact ↔ l.w.Accounted a := by
  obtain ⟨alive, w, hw, rfl⟩ := transit_cases hs
  obtain ⟨s, hphase⟩ := h.staged alive
  have hsmall := h.small
  unfold Transit.Exact at hexact ⊢
  cases step_counts hphase alive h.fits.wf hw with
  | quiet same written reported accounted =>
    refine iff_of_true (fun hsome => ?_) accounted
    obtain ⟨p', hp'⟩ := Option.isSome_iff_exists.1 hsome
    obtain ⟨p, hp, -⟩ := same.block p' hp'
    dsimp only
    rw [written, reported, same.bytes]
    exact hexact (Option.isSome_iff_exists.2 ⟨p, hp⟩)
  | @acked len p action block connection bound block' bytes =>
    obtain ⟨hsum, hsent⟩ := h.block p block
    have hreported := reported_sent block connection hsent len
    have hbefore := hexact (Option.isSome_iff_exists.2 ⟨p, block⟩)
    subst action
    refine iff_of_true (fun _ => ?_) trivial
    dsimp only
    rw [hreported, bytes (hsent connection)]
    show (l.w.pf.forwardedBytes + 2 ^ 64 - len) % 2 ^ 64 + (l.reported + len) = l.accepted + 0
    omega
  | @wrote p p' credited block block' unacked wired reported bytes accounted =>
    have hbefore := hexact (Option.isSome_iff_exists.2 ⟨p, block⟩)
    have hsome : w.pcb.isSome = true := Option.isSome_iff_exists.2 ⟨p', block'⟩
    rw [accounted]
    dsimp only
    rw [reported, bytes]
    generalize (l.w.written a).length = n
    cases credited with
    | true =>
      rw [if_pos rfl]
      constructor
      · intro hafter
        have := hafter hsome
        exact .inr ⟨rfl, by omega⟩
      · rintro (hzero | ⟨-, hroom⟩) _
        · omega
        · omega
    | false =>
      rw [if_neg nofun]
      constructor
      · intro hafter
        have := hafter hsome
        exact .inl (by omega)
      · rintro (hzero | ⟨hfalse, -⟩) _
        · omega
        · cases hfalse

/-- An exact count is at least what is reported. -/
theorem Transit.Exact.reported_le {l l' : Transit} (h : l.Sound) (hexact : l.Exact) {len : Nat}
    (hs : transit l (.lwip (.tcpSent len)) = some l') : len ≤ l.w.pf.forwardedBytes := by
  obtain ⟨-, w, hw, -⟩ := transit_cases hs
  obtain ⟨p, hp, hsent⟩ := Option.bind_eq_some_iff.1 hw
  split at hsent
  · rename_i hst
    obtain ⟨hsum, -⟩ := h.block p hp
    have hbefore := hexact (Option.isSome_iff_exists.2 ⟨p, hp⟩)
    exact le_of_le_of_eq hst.2.2 (by omega)
  · cases hsent

/-- The count is exact after every step of a run, and no report is larger than the count, exactly when all steps are
accounted: nothing is written by a flush, or by a pass that fails. -/
theorem bytes_in_transit_iff (hostname : Bytes) (rcAccept : Int) (rcQuery : Err) (newOk : Bool) (rcCon : Err)
    (as : List PfAction) :
    (∀ x ∈ steps transit (.accept hostname rcAccept rcQuery newOk rcCon) as,
      x.2.2.Exact ∧ ∀ len, x.2.1 = .lwip (.tcpSent len) → len ≤ x.1.w.pf.forwardedBytes) ↔
    Meets transit (fun l a => l.w.Accounted a) (.accept hostname rcAccept rcQuery newOk rcCon) as := by
  have hstep : ∀ l a l', l.Sound ∧ l.Exact → l.w.Accounted a → transit l a = some l' → l'.Sound ∧ l'.Exact :=
    fun l a l' h haccounted hs => ⟨transit_step l a l' h.1 hs, (exact_step h.1 h.2 hs).2 haccounted⟩
  have haccept := transit_accept hostname rcAccept rcQuery newOk rcCon
  constructor
  · intro hexact
    exact meets_of_steps hstep (fun l a l' h hs => (exact_step h.1 h.2 hs).1) haccept fun x hx => (hexact x hx).1
  · rintro hmeets ⟨l, a, l'⟩ hx
    obtain ⟨⟨hsound, hbefore⟩, -, hs, -, hafter⟩ := steps_inv_of_meets hstep haccept hmeets _ hx
    refine ⟨hafter, ?_⟩
    rintro len rfl
    exact hbefore.reported_le hsound hs

/-- Two bytes are written while the connection is open and the third one by the flush: when all are acknowledged the count
has wrapped below zero. -/
theorem flush_not_counted :
    let as : List PfAction := [.lwip .tcpConnected, .op (.localIo true false (.data [1, 2, 3]) (some fun _ => 0) []),
      .op (.forwardPass 2 [(2, .errOk), (0, .errOk)] false .errOk), .op (.localIo true false .eof none []),
      .op (.forwardPass 9 [(9, .errOk)] false .errOk), .lwip (.tcpSent 3)]
    (exec transit (.accept [] 0 .errOk true .errOk) as).map
        (fun l => (l.w.pcb.isSome, l.accepted, l.reported, l.w.pf.forwardedBytes)) = some (true, 3, 3, 2 ^ 64 - 1) ∧
      ¬ ∀ x ∈ steps transit (.accept [] 0 .errOk true .errOk) as,
        x.2.2.Exact ∧ ∀ len, x.2.1 = .lwip (.tcpSent len) → len ≤ x.1.w.pf.forwardedBytes := by
  intro as
  obtain ⟨l, hrun, hend⟩ : ∃ l, (steps transit (.accept [] 0 .errOk true .errOk) as).getLast? = some l ∧
      (l.2.2.w.pcb.isSome = true ∧ l.2.2.w.pf.forwardedBytes + l.2.2.reported ≠ l.2.2.accepted) :=
    ⟨_, rfl, by decide⟩
  refine ⟨by decide, fun hall => ?_⟩
  exact hend.2 ((hall l (List.mem_of_getLast? hrun)).1 hend.1)

end FortiRdp.Net
