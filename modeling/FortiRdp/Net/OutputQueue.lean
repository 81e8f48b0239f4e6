/-
The queue of data on its way out (`OutputQueue`): a pbuf queue written to a socket of the machine or
to a TCP control block of the lwIP stack.
-/
import FortiRdp.Net.Socket
import FortiRdp.Util.PBufQueue

namespace FortiRdp.Net

open FortiRdp.Lwip FortiRdp.Util

/-! ## To a socket -/

/-- The loop of `OutputQueue::write(net::Socket&)`, with the bytes that `send_data` took. A socket
that is asked more often than the list has answers is busy. -/
def sendLoop : List SndAnswer → PBufQueue → Bytes → SndStatus × PBufQueue × Bytes
  | [], q, sent =>
    if q.isEmpty then ({ code := .netctxSndOk, rc := 0, sbytes := 0 }, q, sent)
    else (sendData (.retry 0) q.getHead.data.length, q, sent)
  | a :: answers, q, sent =>
    if q.isEmpty then ({ code := .netctxSndOk, rc := 0, sbytes := 0 }, q, sent)
    else
      let block := q.getHead
      let status := sendData a block.data.length
      if status.code = .netctxSndOk then
        match q.move status.sbytes with
        | none => ({ status with code := .netctxSndError, rc := mbedtlsErrNetSocketFailed }, q, sent)
        | some q => sendLoop answers q (sent ++ block.data.take status.sbytes)
      else (status, q, sent)

/-- `OutputQueue::write(net::Socket&)`: its code, the queue after it, and the bytes sent; `written`
is their number. -/
def writeSocket (q : PBufQueue) (answers : List SndAnswer) : Int × PBufQueue × Bytes :=
  let (status, q, sent) := sendLoop answers q []
  (if status.code = .netctxSndRetry then 0 else status.rc, q, sent)

/-! ## To a TCP control block -/

/-- The loop of `OutputQueue::write(tcp_pcb*)`, with the blocks that `tcp_write` took. Each answer is
the space of the send buffer and the code of `tcp_write`; the buffer has no space when the list is
at its end. -/
def tcpLoop : List (Nat × Err) → PBufQueue → List Cblock → Err × PBufQueue × List Cblock
  | [], q, blocks => (.errOk, q, blocks)
  | (sndbuf, rc) :: answers, q, blocks =>
    if q.isEmpty = true ∨ sndbuf = 0 then (.errOk, q, blocks)
    else
      let block := q.getCblock sndbuf
      if rc = .errOk then
        match q.move block.data.length with
        | none => (.errVal, q, blocks)
        | some q => tcpLoop answers q (blocks ++ [block])
      else (rc, q, blocks)

/-- `OutputQueue::write(tcp_pcb*)`. `unsent` says whether the control block has segments to send,
`output` is the code of `tcp_output`. -/
def writeTcp (q : PBufQueue) (answers : List (Nat × Err)) (unsent : Bool) (output : Err) :
    Err × PBufQueue × List Cblock :=
  let (rc, q, blocks) := tcpLoop answers q []
  let rc := if rc = .errOk ∧ (blocks ≠ [] ∨ unsent = true) then output else rc
  (if rc = .errIf then .errOk else rc, q, blocks)

/-! ## What leaves the queue -/

/-- `q'` is what is left of `q` after the bytes `d` left it. -/
structure Drained (q : PBufQueue) (d : Bytes) (q' : PBufQueue) : Prop where
  wf : q'.WF
  content : q.content = d ++ q'.content
  capacity : q'.capacity = q.capacity

theorem Drained.refl {q : PBufQueue} (hq : q.WF) : Drained q [] q := ⟨hq, rfl, rfl⟩

theorem Drained.trans {q q' q'' : PBufQueue} {d d' : Bytes} (h : Drained q d q') (h' : Drained q' d' q'') :
    Drained q (d ++ d') q'' :=
  ⟨h'.wf, by rw [h.content, h'.content, List.append_assoc], h'.capacity.trans h.capacity⟩

/-- A move over a prefix of the head takes it out of the queue. -/
theorem drained_move {q : PBufQueue} (hq : q.WF) {p : Pbuf} {c : List Pbuf} (hc : q.chain = p :: c) {n : Nat}
    (hn : n ≤ p.len - q.offset) : ∃ q', q.move n = some q' ∧ Drained q ((p.payload.drop q.offset).take n) q' := by
  obtain ⟨q', hmove, hwf, hcontent, hcap⟩ := PBufQueue.move_spec hq hc hn
  refine ⟨q', hmove, hwf, ?_, hcap⟩
  have hhead : (p.payload.drop q.offset).take n = q.content.take n := by
    rw [PBufQueue.content, hc, content_cons, List.drop_append, List.take_append_of_le_length]
    rw [List.length_drop]
    exact hn
  rw [hhead, hcontent, List.take_append_drop]

theorem drained_head {q : PBufQueue} (hq : q.WF) (hne : q.chain ≠ []) {n : Nat} (hn : n ≤ q.getHead.data.length) :
    ∃ q', q.move n = some q' ∧ Drained q (q.getHead.data.take n) q' := by
  obtain ⟨p, c, hc⟩ := List.exists_cons_of_ne_nil hne
  rw [PBufQueue.getHead_data hq hc] at *
  rw [List.length_drop] at hn
  exact drained_move hq hc hn

theorem drained_cblock {q : PBufQueue} (hq : q.WF) (hne : q.chain ≠ []) (len : Nat) :
    ∃ q', q.move (q.getCblock len).data.length = some q' ∧ Drained q (q.getCblock len).data q' := by
  obtain ⟨p, c, hc⟩ := List.exists_cons_of_ne_nil hne
  have hdata : (q.getCblock len).data = (p.payload.drop q.offset).take (min len (p.len - q.offset) % 65536) := by
    unfold PBufQueue.getCblock
    rw [hc]
  have hle : min len (p.len - q.offset) % 65536 ≤ p.len - q.offset :=
    le_trans (Nat.mod_le _ _) (Nat.min_le_right _ _)
  have hlen : (q.getCblock len).data.length = min len (p.len - q.offset) % 65536 := by
    rw [hdata, List.length_take, List.length_drop, ← Pbuf.len]
    exact min_eq_left hle
  rw [hlen, hdata]
  exact drained_move hq hc hle

/-- What `send_data` took is what left the queue. -/
theorem sendLoop_spec : ∀ (answers : List SndAnswer) {q : PBufQueue} (sent : Bytes), q.WF →
    ∃ d, (sendLoop answers q sent).2.2 = sent ++ d ∧ Drained q d (sendLoop answers q sent).2.1
  | [], q, sent, hq => by
    unfold sendLoop
    split <;> exact ⟨[], (List.append_nil sent).symm, .refl hq⟩
  | a :: answers, q, sent, hq => by
    unfold sendLoop
    split
    · exact ⟨[], (List.append_nil sent).symm, .refl hq⟩
    rename_i hne
    simp only [PBufQueue.isEmpty_iff] at hne
    simp only
    split
    · rename_i hok
      obtain ⟨q', hmove, hd⟩ := drained_head hq hne (sendData_ok hok).2
      rw [hmove]
      obtain ⟨d, hsent, hdrain⟩ := sendLoop_spec answers (sent ++ q.getHead.data.take _) hd.wf
      exact ⟨_, by rw [hsent, List.append_assoc], hd.trans hdrain⟩
    · exact ⟨[], (List.append_nil sent).symm, .refl hq⟩

theorem writeSocket_spec {q : PBufQueue} (hq : q.WF) (answers : List SndAnswer) :
    Drained q (writeSocket q answers).2.2 (writeSocket q answers).2.1 := by
  obtain ⟨d, hsent, hd⟩ := sendLoop_spec answers [] hq
  unfold writeSocket
  rw [hsent, List.nil_append]
  exact hd

/-- What `tcp_write` took is what left the queue. -/
theorem tcpLoop_spec : ∀ (answers : List (Nat × Err)) {q : PBufQueue} (blocks : List Cblock), q.WF →
    ∃ bs, (tcpLoop answers q blocks).2.2 = blocks ++ bs ∧
      Drained q (bs.flatMap Cblock.data) (tcpLoop answers q blocks).2.1
  | [], q, blocks, hq => ⟨[], (List.append_nil blocks).symm, .refl hq⟩
  | (sndbuf, rc) :: answers, q, blocks, hq => by
    unfold tcpLoop
    split
    · exact ⟨[], (List.append_nil blocks).symm, .refl hq⟩
    rename_i hne
    simp only [PBufQueue.isEmpty_iff, not_or] at hne
    simp only
    split
    · obtain ⟨q', hmove, hd⟩ := drained_cblock hq hne.1 sndbuf
      rw [hmove]
      obtain ⟨bs, hblocks, hdrain⟩ := tcpLoop_spec answers (blocks ++ [q.getCblock sndbuf]) hd.wf
      refine ⟨q.getCblock sndbuf :: bs, by rw [hblocks, List.append_assoc]; rfl, ?_⟩
      rw [List.flatMap_cons]
      exact hd.trans hdrain
    · exact ⟨[], (List.append_nil blocks).symm, .refl hq⟩

theorem writeTcp_spec {q : PBufQueue} (hq : q.WF) (answers : List (Nat × Err)) (unsent : Bool) (output : Err) :
    Drained q ((writeTcp q answers unsent output).2.2.flatMap Cblock.data)
      (writeTcp q answers unsent output).2.1 := by
  obtain ⟨bs, hblocks, hd⟩ := tcpLoop_spec answers [] hq
  unfold writeTcp
  rw [hblocks, List.nil_append]
  exact hd

theorem tcpLoop_size : ∀ (answers : List (Nat × Err)) {q : PBufQueue} (blocks : List Cblock), q.WF →
    (tcpLoop answers q blocks).2.1.size ≤ q.size
  | [], q, blocks, _ => le_rfl
  | (sndbuf, rc) :: answers, q, blocks, hq => by
    unfold tcpLoop
    split
    · exact le_rfl
    rename_i hne
    simp only [PBufQueue.isEmpty_iff, not_or] at hne
    simp only
    split
    · obtain ⟨q', hmove, hd⟩ := drained_cblock hq hne.1 sndbuf
      rw [hmove]
      exact le_trans (tcpLoop_size answers _ hd.wf) (PBufQueue.move_size hq hmove)
    · exact le_rfl

theorem writeTcp_fits {q : PBufQueue} (hq : q.Fits) (answers : List (Nat × Err)) (unsent : Bool) (output : Err) :
    (writeTcp q answers unsent output).2.1.Fits := by
  have hd := writeTcp_spec hq.wf answers unsent output
  refine ⟨hd.wf, ?_, hd.capacity ▸ hq.capacity⟩
  rw [hd.capacity]
  exact le_trans (tcpLoop_size answers [] hq.wf) hq.size

/-- The loop succeeds as long as `tcp_write` does. -/
theorem tcpLoop_ok : ∀ (answers : List (Nat × Err)) {q : PBufQueue} (blocks : List Cblock), q.WF →
    (∀ x ∈ answers, x.2 = .errOk) → (tcpLoop answers q blocks).1 = .errOk
  | [], _, _, _, _ => rfl
  | (sndbuf, rc) :: answers, q, blocks, hq, hok => by
    obtain rfl : rc = .errOk := hok (sndbuf, rc) (List.mem_cons_self ..)
    unfold tcpLoop
    split
    · rfl
    rename_i hne
    simp only [PBufQueue.isEmpty_iff, not_or] at hne
    simp only [if_true]
    obtain ⟨q', hmove, hd⟩ := drained_cblock hq hne.1 sndbuf
    rw [hmove]
    exact tcpLoop_ok answers _ hd.wf fun x hx => hok x (List.mem_cons_of_mem _ hx)

/-- A full output queue of the PPP interface (`ERR_IF`) is not an error. -/
theorem writeTcp_ok {q : PBufQueue} (hq : q.WF) {answers : List (Nat × Err)} (unsent : Bool) {output : Err}
    (hok : ∀ x ∈ answers, x.2 = .errOk) (hout : output = .errOk ∨ output = .errIf) :
    (writeTcp q answers unsent output).1 = .errOk := by
  have hloop := tcpLoop_ok answers [] hq hok
  unfold writeTcp
  generalize tcpLoop answers q [] = r at hloop
  obtain ⟨rc, queue, blocks⟩ := r
  obtain rfl : rc = .errOk := hloop
  simp only [true_and]
  rcases hout with rfl | rfl <;> split <;> rfl

/-! ## When everything leaves the queue -/

/-- The lengths of the blocks that the queue offers one after the other. -/
def blocks (q : PBufQueue) : List Nat :=
  match q.chain with
  | [] => []
  | p :: c => (p.len - q.offset) :: c.map Pbuf.len

/-- The socket is not busy before it has taken blocks of the given lengths, or it fails. -/
def NeverBusy : List SndAnswer → List Nat → Prop
  | _, [] => True
  | [], _ :: _ => False
  | .taken room :: answers, n :: ns =>
    if room + 1 < n then NeverBusy answers ((n - (room + 1)) :: ns) else NeverBusy answers ns
  | .retry _ :: _, _ :: _ => False
  | .error _ :: _, _ :: _ => True

theorem blocks_move {q q' : PBufQueue} (hq : q.WF) {p : Pbuf} {c : List Pbuf} (hc : q.chain = p :: c) {n : Nat}
    (hn : n ≤ p.len - q.offset) (h : q.move n = some q') :
    blocks q' = if n < p.len - q.offset then (p.len - q.offset - n) :: c.map Pbuf.len else c.map Pbuf.len := by
  have hoff := hq.offset p (by simp [hc])
  have hlen := PBufQueue.len_lt hq hc
  rw [PBufQueue.move_eq hc (by omega)] at h
  split at h
  · split at h
    · rename_i hend
      cases h
      rw [if_neg (by omega)]
      simp only [blocks]
      cases c with
      | nil => rfl
      | cons r c => rfl
    · rename_i hmid
      cases h
      rw [if_pos (by omega)]
      simp only [blocks, hc, Nat.sub_sub]
  · cases h

/-- A socket that is never busy empties the queue, or fails. -/
theorem sendLoop_neverBusy : ∀ (answers : List SndAnswer) {q : PBufQueue} (sent : Bytes), q.WF →
    NeverBusy answers (blocks q) →
      (sendLoop answers q sent).1.code = .netctxSndError ∨ (sendLoop answers q sent).2.1.chain = []
  | [], q, sent, hq, hroom => by
    have hc : q.chain = [] := by
      cases hc : q.chain with
      | nil => rfl
      | cons p c => simp only [blocks, hc, NeverBusy] at hroom
    unfold sendLoop
    rw [if_pos (by simpa using hc)]
    exact .inr hc
  | a :: answers, q, sent, hq, hroom => by
    unfold sendLoop
    split
    · rename_i hempty
      exact .inr (by simpa using hempty)
    rename_i hne
    simp only [PBufQueue.isEmpty_iff] at hne
    obtain ⟨p, c, hc⟩ := List.exists_cons_of_ne_nil hne
    have hoff : q.offset < p.len := hq.offset p (by simp [hc])
    have hlen : q.getHead.data.length = p.len - q.offset := by
      rw [PBufQueue.getHead_data hq hc, List.length_drop, Pbuf.len]
    simp only [blocks, hc] at hroom
    simp only
    cases a with
    | retry rw => exact absurd hroom (by simp [NeverBusy])
    | error rc => exact .inl rfl
    | taken room =>
      have hstatus : sendData (.taken room) q.getHead.data.length =
          { code := .netctxSndOk, rc := 0, sbytes := min (room + 1) (p.len - q.offset) } := by
        unfold sendData
        simp only [hlen]
        rw [if_neg (by omega)]
      rw [hstatus]
      simp only [if_true]
      obtain ⟨q', hmove, hd⟩ := drained_head hq hne (n := min (room + 1) (p.len - q.offset)) (by rw [hlen]; omega)
      rw [hmove]
      refine sendLoop_neverBusy answers _ hd.wf ?_
      rw [blocks_move hq hc (by omega) hmove]
      unfold NeverBusy at hroom
      split at hroom
      · rename_i hlt
        rw [if_pos (by omega), min_eq_left (by omega)]
        exact hroom
      · rename_i hge
        rw [if_neg (by omega)]
        exact hroom

/-! ## When `tcp_write` has no memory -/

/-- `tcp_write` is called for one of the blocks of the given lengths, and answers `ERR_MEM`. Each answer
comes with the space of the send buffer, which may cut a block. -/
def OutOfMemory : List (Nat × Err) → List Nat → Prop
  | _, [] => False
  | [], _ :: _ => False
  | (sndbuf, rc) :: answers, n :: ns =>
    sndbuf ≠ 0 ∧
      (rc = .errMem ∨ if sndbuf < n then OutOfMemory answers ((n - sndbuf) :: ns) else OutOfMemory answers ns)

theorem outOfMemory_ok {sndbuf n : Nat} {answers : List (Nat × Err)} {ns : List Nat} (h : sndbuf ≠ 0) :
    OutOfMemory ((sndbuf, .errOk) :: answers) (n :: ns) ↔
      if sndbuf < n then OutOfMemory answers ((n - sndbuf) :: ns) else OutOfMemory answers ns := by
  rw [OutOfMemory]
  simp [h]

theorem blocks_nil {q : PBufQueue} (hc : q.chain = []) : blocks q = [] := by
  unfold blocks
  rw [hc]

theorem push_blocks {q q' : PBufQueue} {c : List Pbuf} (h : q.push c = (true, q')) :
    blocks q' = blocks q ++ c.map Pbuf.len := by
  unfold PBufQueue.push at h
  split at h
  · split at h
    · rename_i hne
      split at h
      · cases h
        obtain ⟨p, d, hc⟩ := List.exists_cons_of_ne_nil hne
        simp only [blocks, hc, pbufCat, List.map_cons, List.cons_append, List.map_append, List.map_map]
        rfl
      · cases h
    · rename_i hbuf hnil
      cases h
      obtain ⟨p, d, rfl⟩ := List.exists_cons_of_ne_nil hbuf.1
      rw [blocks_nil (not_not.1 hnil)]
      simp [blocks]
  · cases h

/-- A block is as long as the rest of the head and the request allow. -/
theorem getCblock_length {q : PBufQueue} (hq : q.WF) {p : Pbuf} {c : List Pbuf} (hc : q.chain = p :: c) (len : Nat) :
    (q.getCblock len).data.length = min len (p.len - q.offset) := by
  have hbound := hq.bound
  simp only [hc, content_cons, List.length_append] at hbound
  unfold PBufQueue.getCblock
  simp only [hc, List.length_take, List.length_drop]
  unfold Pbuf.len at *
  omega

/-- A loop in which `tcp_write` succeeds or has no memory fails exactly when it has no memory for a block. -/
theorem tcpLoop_outOfMemory : ∀ (answers : List (Nat × Err)) {q : PBufQueue} (bs : List Cblock), q.WF →
    (∀ x ∈ answers, x.2 = .errOk ∨ x.2 = .errMem) →
      OutOfMemory answers (blocks q) ∧ (tcpLoop answers q bs).1 = .errMem ∨
        ¬ OutOfMemory answers (blocks q) ∧ (tcpLoop answers q bs).1 = .errOk
  | [], q, bs, _, _ => by
    refine .inr ⟨?_, rfl⟩
    cases blocks q <;> exact id
  | (sndbuf, rc) :: answers, q, bs, hq, hmem => by
    have hrc : rc = .errOk ∨ rc = .errMem := hmem (sndbuf, rc) (List.mem_cons_self ..)
    unfold tcpLoop
    split
    · rename_i hend
      refine .inr ⟨?_, rfl⟩
      rcases hend with hempty | rfl
      · rw [blocks_nil (PBufQueue.isEmpty_iff.1 hempty)]
        exact id
      · cases blocks q with
        | nil => exact id
        | cons n ns => exact fun h => h.1 rfl
    rename_i hne
    simp only [PBufQueue.isEmpty_iff, not_or] at hne
    obtain ⟨p, c, hc⟩ := List.exists_cons_of_ne_nil hne.1
    have hblocks : blocks q = (p.len - q.offset) :: c.map Pbuf.len := by simp only [blocks, hc]
    rw [hblocks]
    simp only
    rcases hrc with rfl | rfl
    · obtain ⟨q', hmove, hd⟩ := drained_cblock hq hne.1 sndbuf
      have hlen := getCblock_length hq hc sndbuf
      have hrest := blocks_move hq hc (by omega) hmove
      rw [if_pos rfl, hmove]
      have hask : OutOfMemory ((sndbuf, .errOk) :: answers) ((p.len - q.offset) :: c.map Pbuf.len) ↔
          OutOfMemory answers (blocks q') := by
        rw [outOfMemory_ok hne.2, hrest, hlen]
        by_cases hlt : sndbuf < p.len - q.offset
        · rw [if_pos hlt, if_pos (by omega), min_eq_left (by omega)]
        · rw [if_neg hlt, if_neg (by omega)]
      rw [hask]
      exact tcpLoop_outOfMemory answers _ hd.wf fun x hx => hmem x (List.mem_cons_of_mem _ hx)
    · exact .inl ⟨⟨hne.2, .inl rfl⟩, rfl⟩

end FortiRdp.Net
