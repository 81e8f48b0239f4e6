/-
The bytes of `PBufQueue`, in memory: a push puts the bytes of its chain behind those of the queue, and what is
read, moved over or popped are the first ones. The sum in `move` is a `size_t`, so the statements about it hold
for moves whose sum is not cut short.
-/
import FortiRdp.Net.PbufCounts

namespace FortiRdp.Net.Mem

open FortiRdp.Lwip FortiRdp.Lwip.Mem FortiRdp.Util FortiRdp.Util.HeapQueue FortiRdp.Run FortiRdp.Run.Heap

/-- The pbufs from a pointer on, along the links. -/
def chainFrom (q : HeapQueue) (p : Option Nat) : List Pbuf := (q.heap.values q.heap.length p).getD []

/-- The bytes of the queue: those of its chain without the first `offset` ones. -/
def bytes (q : HeapQueue) : Bytes := (content (chainFrom q q.chain)).drop q.offset

/-- What is left of the head, 0 when there is none. -/
def headRest (q : HeapQueue) : Nat := ((chainFrom q q.chain).head?.map Pbuf.len).getD 0 - q.offset

/-- The links end, the offset points into the head, every total is the length from its pbuf to the end, and the
size counts the bytes of the head that were moved over. -/
structure InOrder (q : HeapQueue) : Prop where
  ends : (q.heap.values q.heap.length q.chain).isSome
  tot : TotOk (chainFrom q q.chain)
  offset : ∀ p ∈ (chainFrom q q.chain).head?, q.offset < p.len
  size : q.size = some ((bytes q).length + q.offset)

/-- What an operation does to the bytes of the queue. -/
def Faithful (s : Counts) : Op → Prop
  | .push a => (.owner, a) ∈ s.held → ∃ ok q, s.queue.push (some a) = some (ok, q) ∧
      if ok then bytes q = bytes s.queue ++ content (chainFrom s.queue (some a)) else q = s.queue
  | .getCblock n => s.queue.chain ≠ none → ∃ blk, s.queue.getCblock n.toNat = some blk ∧
      blk.len = min n.toNat (headRest s.queue) ∧ blk.data.length = blk.len ∧ blk.data <+: bytes s.queue
  | .getHead => s.queue.chain ≠ none → ∃ blk, s.queue.getHead = some blk ∧
      blk.len = headRest s.queue ∧ blk.data.length = blk.len ∧ blk.data <+: bytes s.queue
  | .move n => ∃ ok q, s.queue.move n.toNat = some (ok, q) ∧
      (ok = true ↔ s.queue.chain ≠ none ∧ n.toNat ≤ headRest s.queue) ∧
      if ok then ∃ d, d.length = n.toNat ∧ bytes s.queue = d ++ bytes q else q = s.queue
  | .pop => ∃ q, s.queue.pop = some (s.queue.chain, q) ∧
      ∃ d, d.length = headRest s.queue ∧ bytes s.queue = d ++ bytes q
  | .clear => ∃ q, s.queue.clear = some q ∧ q.chain = none ∧ bytes q = []
  | op => ∀ s', step s op = some s' → bytes s.queue <+: bytes s'.queue

/-- The sum of a move that is not refused is not cut short. -/
def InRange (s : Counts) : Op → Prop
  | .move n => s.queue.chain ≠ none → s.queue.offset + n.toNat < 2 ^ 64
  | _ => True

/-! ## The queue of values -/

variable {s s' : Counts} {q q' : HeapQueue} {l l' : List (Nat × Pbuf)} {p : Option Nat}

theorem chainFrom_eq (hl : Chain q.heap p l) : chainFrom q p = pbufs l := by
  rw [chainFrom, hl.values hl.length_le]
  rfl

theorem bytes_eq (hl : Chain q.heap q.chain l) : bytes q = (q.view l).content := by
  rw [bytes, chainFrom_eq hl]
  rfl

theorem headRest_eq {a : Nat} {v : Pbuf} (hl : Chain q.heap q.chain ((a, v) :: l)) :
    headRest q = v.len - q.offset := by
  rw [headRest, chainFrom_eq hl]
  rfl

theorem chain_ne {d : Nat × Pbuf} (hl : Chain q.heap q.chain (d :: l)) : q.chain ≠ none := by
  rw [hl.1]
  exact Option.some_ne_none d.1

theorem Sound.inOrder (h : Sound s l) : InOrder s.queue := by
  refine ⟨?_, ?_, ?_, ?_⟩
  · rw [h.chain.values h.chain.length_le]
    rfl
  · rw [chainFrom_eq h.chain]
    exact h.wf.tot
  · rw [chainFrom_eq h.chain]
    exact h.wf.offset
  · rw [bytes_eq h.chain, size_eq h.chain, ← PBufQueue.content_length h.wf]
    rfl

/-! ## Each operation -/

theorem push_faithful (h : Sound s l) (a : Nat) : Faithful s (.push a) := by
  intro ha
  have hun := h.roots.owner a ha
  obtain ⟨c, lb, hlb, hpb⟩ := hun.shape
  obtain ⟨r, q', l', hrun, hp⟩ := push_spec h.owned h.chain h.wf.tot (heldBy_pos ha) hlb
    (h.roots.disjoint h.chain hun hlb) (h.refs_lt a)
  refine ⟨r, q', hrun, ?_⟩
  cases r with
  | false => exact (hp.refused rfl).1
  | true =>
    have hpush := hp.view
    rw [hpb] at hpush
    obtain ⟨-, hcontent, -⟩ := PBufQueue.push_accepted h.wf c.tot c.pos c.bound h.capacity hpush
    show bytes q' = _
    rw [bytes_eq hp.chain, bytes_eq h.chain, chainFrom_eq hlb, hpb]
    exact hcontent

/-- A block of the head is as long as the request and the head allow, and holds the first bytes. -/
theorem block_faithful {a n : Nat} {v : Pbuf} (h : Sound s ((a, v) :: l)) :
    ∃ blk, s.queue.getCblock n = some blk ∧ blk.len = min n (headRest s.queue) ∧ blk.data.length = blk.len ∧
      blk.data <+: bytes s.queue := by
  obtain ⟨blk, hblk, -, hlen, hdata, -⟩ := getCblock_spec h.chain n
  have hv : v.len < 65536 := PBufQueue.len_lt h.wf rfl
  -- a length of a pbuf is 16 bits wide, so the cast of the block length loses nothing
  have hmin : min n (v.len - s.queue.offset) % 65536 = min n (v.len - s.queue.offset) := by omega
  have htake := PBufQueue.getCblock_data (q := s.queue.view ((a, v) :: l)) (p := v) rfl n
  have hcontent := PBufQueue.content_length h.wf
  have htot : (s.queue.view ((a, v) :: l)).size = v.len + (content (pbufs l)).length := h.wf.tot.1
  have hoff : s.queue.offset < v.len := h.wf.offset v rfl
  have hview : (s.queue.view ((a, v) :: l)).offset = s.queue.offset := rfl
  rw [hview] at htake hcontent
  refine ⟨blk, hblk, ?_, ?_, ?_⟩
  · rw [hlen, hmin, headRest_eq h.chain]
  · rw [hdata, htake, hlen, hmin, List.length_take]
    omega
  · rw [hdata, htake, bytes_eq h.chain]
    exact List.take_prefix _ _

theorem getCblock_faithful (h : Sound s l) (n : UInt64) : Faithful s (.getCblock n) := by
  intro hne
  cases l with
  | nil => exact absurd h.chain hne
  | cons d l => exact block_faithful h

theorem getHead_faithful (h : Sound s l) : Faithful s .getHead := by
  intro hne
  cases l with
  | nil => exact absurd h.chain hne
  | cons d l =>
    obtain ⟨a, v⟩ := d
    obtain ⟨o, hp, ho, rfl, -⟩ := chain_cons h.chain
    obtain ⟨blk, hblk, hlen, hdata, hpre⟩ := block_faithful (n := o.val.len - s.queue.offset) h
    rw [headRest_eq h.chain, Nat.min_self] at hlen
    refine ⟨blk, ?_, hlen.trans (headRest_eq h.chain).symm, hdata, hpre⟩
    rw [HeapQueue.getHead, hp]
    simp only [ho, Option.bind_eq_bind, Option.bind_some]
    exact hblk

theorem pop_faithful (h : Sound s l) : Faithful s .pop := by
  cases l with
  | nil =>
    have hc : s.queue.chain = none := h.chain
    refine ⟨s.queue, by rw [HeapQueue.pop, hc], [], ?_, rfl⟩
    rw [headRest, chainFrom_eq h.chain]
    exact (Nat.zero_sub _).symm
  | cons d l =>
    obtain ⟨a, v⟩ := d
    obtain ⟨q', hrun, ht, hv, -⟩ := pop_spec h.owned h.chain
    have hoff : s.queue.offset < v.len := h.wf.offset v rfl
    refine ⟨q', hrun.trans (by rw [h.chain.1]), v.payload.drop s.queue.offset, ?_, ?_⟩
    · rw [headRest_eq h.chain, List.length_drop]
      rfl
    · have hq' : q'.view l = { s.queue.view l with offset := 0 } := (Prod.mk.inj hv).2.symm
      rw [bytes_eq h.chain, bytes_eq ht.chain, hq']
      show (v.payload ++ content (pbufs l)).drop s.queue.offset = _ ++ (content (pbufs l)).drop 0
      rw [List.drop_append_of_le_length (show s.queue.offset ≤ v.payload.length from hoff.le), List.drop_zero]

theorem clear_faithful (h : Sound s l) : Faithful s .clear := by
  obtain ⟨q', hrun, -, hl', -⟩ := clear_spec h.owned h.chain
  refine ⟨q', hrun, hl', ?_⟩
  rw [bytes_eq hl']
  exact List.drop_nil

/-- A move whose sum is cut short goes back, and succeeds. -/
theorem move_faithful_iff (h : Sound s l) (n : UInt64) : Faithful s (.move n) ↔ InRange s (.move n) := by
  cases l with
  | nil =>
    have hc : s.queue.chain = none := h.chain
    obtain ⟨hrun, -⟩ := move_empty h.chain n.toNat
    constructor
    · exact fun _ hne => absurd hc hne
    · exact fun _ => ⟨false, s.queue, hrun, ⟨nofun, fun hne => absurd hc hne.1⟩, rfl⟩
  | cons d l =>
    obtain ⟨a, v⟩ := d
    have hoff : s.queue.offset < v.len := h.wf.offset v rfl
    have hlen : v.len < 65536 := PBufQueue.len_lt h.wf rfl
    have hn := n.toNat_lt
    have hne := chain_ne h.chain
    have hrest := headRest_eq h.chain
    have hmove : (s.queue.view ((a, v) :: l)).move n.toNat =
        if (s.queue.offset + n.toNat) % 2 ^ 64 ≤ v.len then
          if v.len - (s.queue.offset + n.toNat) % 2 ^ 64 = 0 then some { s.queue.view l with offset := 0 }
          else some { s.queue.view ((a, v) :: l) with offset := (s.queue.offset + n.toNat) % 2 ^ 64 }
        else none := rfl
    constructor
    · rintro ⟨ok, q', hrun, hok, -⟩ -
      by_contra hwrap
      -- wrapped around, the sum is less than the offset, so it is inside the head
      have hin : (s.queue.offset + n.toNat) % 2 ^ 64 ≤ v.len := by omega
      rcases HeapQueue.move_spec h.owned h.chain n.toNat with ⟨-, hv⟩ | ⟨q₁, l₁, hrun₁, -⟩
      · rw [hmove, if_pos hin] at hv
        split at hv <;> cases hv
      · rw [hrun₁] at hrun
        cases hrun
        have := (hok.1 rfl).2
        omega
    · intro hrange
      have hrange := hrange hne
      -- without the wrap the code compares the sum itself
      have hmod : (s.queue.offset + n.toNat) % 2 ^ 64 = s.queue.offset + n.toNat := Nat.mod_eq_of_lt hrange
      rcases HeapQueue.move_spec h.owned h.chain n.toNat with ⟨hrun, hv⟩ | ⟨q', l', hrun, hv, ht, -⟩
      · refine ⟨false, s.queue, hrun, ⟨nofun, fun hfits => ?_⟩, rfl⟩
        have := hfits.2
        rw [hmove, hmod, if_pos (by omega)] at hv
        split at hv <;> cases hv
      · have hfits : n.toNat ≤ v.len - s.queue.offset := by
          rw [hmove, hmod] at hv
          split at hv
          · omega
          · cases hv
        obtain ⟨q₁, hmoved, -, hcontent, -⟩ := PBufQueue.move_spec h.wf (p := v) rfl hfits
        rw [hv] at hmoved
        cases hmoved
        have hsize := PBufQueue.content_length h.wf
        have htot : (s.queue.view ((a, v) :: l)).size = v.len + (content (pbufs l)).length := h.wf.tot.1
        have hview : (s.queue.view ((a, v) :: l)).offset = s.queue.offset := rfl
        refine ⟨true, q', hrun, ⟨fun _ => ⟨hne, hrest ▸ hfits⟩, fun _ => rfl⟩,
          (s.queue.view ((a, v) :: l)).content.take n.toNat, ?_, ?_⟩
        · rw [List.length_take]
          omega
        · rw [bytes_eq h.chain, bytes_eq ht.chain, hcontent, List.take_append_drop]

theorem other_faithful (h : Sound s l) {op : Op} (hop : takes op = false) (hs : step s op = some s') :
    bytes s.queue <+: bytes s'.queue := by
  obtain ⟨s₁, l', hrun, h', hfront⟩ := step_sound h op
  rw [hrun] at hs
  cases hs
  rw [bytes_eq h.chain, bytes_eq h'.sound.chain]
  exact (hfront hop).2

theorem faithful_iff (h : Sound s l) (op : Op) : Faithful s op ↔ InRange s op := by
  cases op with
  | push a => exact ⟨fun _ => trivial, fun _ => push_faithful h a⟩
  | getCblock n => exact ⟨fun _ => trivial, fun _ => getCblock_faithful h n⟩
  | getHead => exact ⟨fun _ => trivial, fun _ => getHead_faithful h⟩
  | move n => exact move_faithful_iff h n
  | pop => exact ⟨fun _ => trivial, fun _ => pop_faithful h⟩
  | clear => exact ⟨fun _ => trivial, fun _ => clear_faithful h⟩
  | alloc c => exact ⟨fun _ => trivial, fun _ _ => other_faithful h rfl⟩
  | release k a => exact ⟨fun _ => trivial, fun _ _ => other_faithful h rfl⟩
  | write k a al => exact ⟨fun _ => trivial, fun _ _ => other_faithful h rfl⟩
  | netifOutput k a protocol al al' => exact ⟨fun _ => trivial, fun _ _ => other_faithful h rfl⟩
  | sendKa opened id magic al al' al'' => exact ⟨fun _ => trivial, fun _ _ => other_faithful h rfl⟩

/-! ## Runs -/

/-- The states of a run before and after each of its steps are in order. -/
theorem steps_sound (ops : List Op) (h : Sound s l) :
    ∀ x ∈ steps step s ops, (∃ l, Sound x.1 l) ∧ ∃ l, Sound x.2.2 l := by
  intro x hx
  have hstep : ∀ s op t, (∃ l, Sound s l) → True → step s op = some t → ∃ l, Sound t l := by
    rintro s op t ⟨l, hs⟩ - ht
    obtain ⟨s', l', hrun, hs', -⟩ := step_sound hs op
    rw [hrun] at ht
    cases ht
    exact ⟨l', hs'.sound⟩
  obtain ⟨hs, -, -, ht⟩ := steps_inv_of_meets (C := fun _ _ => True) hstep ⟨l, h⟩ (fun _ _ => trivial) x hx
  exact ⟨hs, ht⟩

/-- No run ends in a fault, and in a run every operation treats the queue as a byte FIFO and leaves it in order
exactly when no move has a sum that is cut short. -/
theorem fifo_iff (capacity : UInt16) (ops : List Op) :
    (exec step (.init capacity) ops).isSome ∧
      ((∀ x ∈ steps step (.init capacity) ops, Faithful x.1 x.2.1 ∧ InOrder x.2.2.queue) ↔
        Meets step InRange (.init capacity) ops) := by
  constructor
  · obtain ⟨s, l, hrun, -⟩ := exec_sound ops (init_sound capacity)
    rw [hrun]
    rfl
  constructor
  · intro hall x hx
    obtain ⟨⟨l, hs⟩, -⟩ := steps_sound ops (init_sound capacity) x hx
    exact (faithful_iff hs _).1 (hall x hx).1
  · intro hmeets x hx
    obtain ⟨⟨l, hs⟩, l', ht⟩ := steps_sound ops (init_sound capacity) x hx
    exact ⟨(faithful_iff hs _).2 (hmeets x hx), ht.inOrder⟩

/-- A chain of one pbuf with two bytes. -/
def twoBytes : PbufChain :=
  { pbufs := [{ payload := [1, 2], totLen := 2, flags := 0 }]
    ne := PbufChain.two.ne
    tot := PbufChain.two.tot
    pos := PbufChain.two.pos
    bound := PbufChain.two.bound }

/-- With one byte left, a move over `SIZE_MAX` bytes succeeds: it goes back to the start of the head. -/
theorem moved_back : ∃ s, exec step (.init 16) [.alloc twoBytes, .push 0, .move 1] = some s ∧
    ¬ Faithful s (.move 0xFFFFFFFFFFFFFFFF) := by
  refine ⟨⟨⟨[some ⟨none, 2, ⟨[1, 2], 2, 0⟩⟩], 16, some 0, 1⟩, [(.producer, 0)]⟩, by decide, ?_⟩
  rintro ⟨ok, q, hrun, hok, -⟩
  have hmove : HeapQueue.move ⟨[some ⟨none, 2, ⟨[1, 2], 2, 0⟩⟩], 16, some 0, 1⟩ (0xFFFFFFFFFFFFFFFF : UInt64).toNat =
      some (true, ⟨[some ⟨none, 2, ⟨[1, 2], 2, 0⟩⟩], 16, some 0, 0⟩) := by decide
  rw [hmove] at hrun
  cases hrun
  exact absurd (hok.1 rfl).2 (by decide)

end FortiRdp.Net.Mem
