/-
The capacity of `PBufQueue`: it is checked when a chain is pushed behind another one, and not when it is pushed
on an empty queue.
-/
import FortiRdp.Run.Machine
import FortiRdp.Util.PBufQueue

namespace FortiRdp.Util

open FortiRdp.Lwip FortiRdp.Run

/-- A chain with at least one byte; some of its pbufs may be empty. -/
structure Buffer where
  pbufs : List Pbuf
  ne : pbufs ≠ []
  tot : TotOk pbufs
  pos : 0 < (content pbufs).length
  bound : (content pbufs).length < 65536

namespace PBufQueue

inductive QueueOp where
  | push (buffer : Buffer)
  | pop
  | move (len : UInt64)
  | clear

/-- One operation; a move that is refused leaves the queue. -/
def queueStep : Machine PBufQueue QueueOp
  | q, .push buffer => some (q.push buffer.pbufs).2
  | q, .pop => some q.pop.2
  | q, .move len => some ((q.move len.toNat).getD q)
  | q, .clear => some q.clear

/-- `push` refuses a chain that would exceed the capacity. -/
def Refuses (q : PBufQueue) : QueueOp → Prop
  | .push buffer => q.capacity < q.size + totLen buffer.pbufs → (q.push buffer.pbufs).1 = false
  | _ => True

/-- The size stays in the capacity, so the space is what is left of it, and the queue is full exactly when it
takes no chain. -/
structure Bounded (q : PBufQueue) : Prop where
  size : q.size ≤ q.capacity
  space : q.remainingSpace = q.capacity - q.size
  full : q.isFull = true ↔ ∀ buffer : Buffer, (q.push buffer.pbufs).1 = false

/-- A chain that is pushed on an empty queue fits into it. -/
def FitsEmpty (q : PBufQueue) : QueueOp → Prop
  | .push buffer => q.chain = [] → q.capacity ≠ 0 → totLen buffer.pbufs ≤ q.capacity
  | _ => True

variable {q q' : PBufQueue}

/-- What every run keeps: totals that are right, and a chain and a capacity of 16 bits. -/
structure Totals (q : PBufQueue) : Prop where
  tot : TotOk q.chain
  bound : (Lwip.content q.chain).length < 65536
  capacity : q.capacity < 65536

theorem init_totals (capacity : UInt16) : (init capacity.toNat).Totals :=
  ⟨trivial, Nat.zero_lt_succ _, capacity.toNat_lt⟩

/-- A push that is not refused, on an empty queue or behind the chain that is there. -/
theorem push_cases (q : PBufQueue) (buffer : Buffer) :
    q.push buffer.pbufs = (false, q) ∨
      q.isFull = false ∧ q.chain = [] ∧ q.push buffer.pbufs = (true, { q with chain := buffer.pbufs, offset := 0 }) ∨
      q.chain ≠ [] ∧ q.size + totLen buffer.pbufs ≤ q.capacity ∧
        q.push buffer.pbufs = (true, { q with chain := pbufCat q.chain buffer.pbufs }) := by
  unfold push
  split
  · rename_i hbuf
    split
    · rename_i hne
      split
      · rename_i hfit
        exact .inr (.inr ⟨hne, hfit, rfl⟩)
      · exact .inl rfl
    · rename_i hnil
      exact .inr (.inl ⟨hbuf.2.2, not_not.1 hnil, rfl⟩)
  · exact .inl rfl

/-- What is left after a pop or a move is a part of the chain. -/
theorem pop_part (hq : q.Totals) : q.pop.2.Totals ∧ q.pop.2.size ≤ q.size ∧ q.pop.2.capacity = q.capacity := by
  unfold pop
  cases hc : q.chain with
  | nil => exact ⟨hq, le_rfl, rfl⟩
  | cons p c =>
    have htot := hq.tot
    have hbound := hq.bound
    rw [hc] at htot hbound
    rw [content_cons, List.length_append] at hbound
    refine ⟨⟨htot.2, by simp only; omega, hq.capacity⟩, ?_, rfl⟩
    -- the total of the head is its length and the total of the rest
    have hhead := htot.1
    have hrest := totLen_eq htot.2
    simp only [size, hc, totLen_cons]
    omega

theorem move_part (hq : q.Totals) {n : Nat} (h : q.move n = some q') :
    q'.Totals ∧ q'.size ≤ q.size ∧ q'.capacity = q.capacity := by
  unfold move at h
  split at h
  · cases h
  · split at h
    · simp only at h
      split at h
      · cases h
        exact pop_part (q := { q with offset := (q.offset + n) % 2 ^ 64 }) ⟨hq.tot, hq.bound, hq.capacity⟩
      · cases h
        exact ⟨⟨hq.tot, hq.bound, hq.capacity⟩, le_rfl, rfl⟩
    · cases h

theorem push_totals (hq : q.Totals) (buffer : Buffer) : (q.push buffer.pbufs).2.Totals := by
  rcases push_cases q buffer with hr | ⟨-, -, hr⟩ | ⟨-, hfit, hr⟩
  · rw [hr]
    exact hq
  · rw [hr]
    exact ⟨buffer.tot, buffer.bound, hq.capacity⟩
  · have hcap := hq.capacity
    rw [size, totLen_eq hq.tot, totLen_eq buffer.tot] at hfit
    rw [hr]
    refine ⟨totOk_pbufCat hq.tot buffer.tot (by omega), ?_, hq.capacity⟩
    rw [content_pbufCat, List.length_append]
    omega

theorem queueStep_totals (hq : q.Totals) {op : QueueOp} (hs : queueStep q op = some q') : q'.Totals := by
  cases op with
  | push buffer =>
    cases hs
    exact push_totals hq buffer
  | pop =>
    cases hs
    exact (pop_part hq).1
  | move len =>
    cases hs
    cases hm : q.move len.toNat with
    | none => exact hq
    | some q' => exact (move_part hq hm).1
  | clear =>
    cases hs
    exact ⟨by rw [clear_chain]; trivial, by rw [clear_chain]; decide, by rw [clear_capacity]; exact hq.capacity⟩

theorem push_size (hsize : q.size ≤ q.capacity) {buffer : Buffer} (hfit : FitsEmpty q (.push buffer)) :
    (q.push buffer.pbufs).2.size ≤ (q.push buffer.pbufs).2.capacity := by
  rcases push_cases q buffer with hr | ⟨hfull, hnil, hr⟩ | ⟨hne, hroom, hr⟩
  · rw [hr]
    exact hsize
  · rw [hr]
    -- a queue without capacity is full, also when it is empty
    refine hfit hnil fun hzero => ?_
    rw [isFull, remainingSpace, size, hnil, hzero] at hfull
    cases hfull
  · rw [hr]
    obtain ⟨p, c, hc⟩ := List.exists_cons_of_ne_nil hne
    rw [size, hc, totLen_cons] at hroom
    simp only [size, hc, pbufCat, List.map_cons, List.cons_append, totLen_cons]
    exact (Nat.mod_le _ _).trans hroom

theorem queueStep_size (hq : q.Totals) (hsize : q.size ≤ q.capacity) {op : QueueOp} (hfit : FitsEmpty q op)
    (hs : queueStep q op = some q') : q'.size ≤ q'.capacity := by
  cases op with
  | push buffer =>
    cases hs
    exact push_size hsize hfit
  | pop =>
    cases hs
    obtain ⟨-, hle, hcap⟩ := pop_part hq
    omega
  | move len =>
    cases hs
    cases hm : q.move len.toNat with
    | none => exact hsize
    | some q' =>
      obtain ⟨-, hle, hcap⟩ := move_part hq hm
      exact hle.trans (hsize.trans hcap.ge)
  | clear =>
    cases hs
    rw [size, clear_chain]
    exact Nat.zero_le _

/-- The smallest chain: one byte. -/
def oneByte : Buffer :=
  { pbufs := [{ payload := [0], totLen := 1, flags := 0 }]
    ne := by decide
    tot := ⟨rfl, trivial⟩
    pos := by decide
    bound := by decide }

/-- With its size in the capacity, a queue takes a byte as long as it is not full. -/
theorem bounded_of_size (hq : q.Totals) (hsize : q.size ≤ q.capacity) : Bounded q := by
  have hcap := hq.capacity
  have hspace : q.remainingSpace = q.capacity - q.size := by
    unfold remainingSpace
    omega
  refine ⟨hsize, hspace, ?_⟩
  constructor
  · intro hfull buffer
    unfold push
    rw [if_neg fun hbuf => by rw [hfull] at hbuf; exact nomatch hbuf.2.2]
  · intro hrefused
    by_contra hfull
    rw [Bool.not_eq_true] at hfull
    have hroom : q.size + 1 ≤ q.capacity := by
      simp only [isFull, hspace, beq_eq_false_iff_ne] at hfull
      omega
    -- there is room for one byte, although every chain is refused
    have hbyte := hrefused oneByte
    unfold push at hbyte
    rw [if_pos ⟨oneByte.ne, by decide, hfull⟩] at hbyte
    split at hbyte
    · rw [if_pos (show q.size + totLen oneByte.pbufs ≤ q.capacity from hroom)] at hbyte
      cases hbyte
    · cases hbyte

/-- A queue that is empty and has some capacity takes any chain, so it refuses what would exceed the capacity only
when it is not given such a chain. -/
theorem refuses_iff (hq : q.Totals) (op : QueueOp) : Refuses q op ↔ FitsEmpty q op := by
  cases op with
  | push buffer =>
    have hcap := hq.capacity
    have htot : 0 < totLen buffer.pbufs := totLen_eq buffer.tot ▸ buffer.pos
    constructor
    · intro hrefuses hnil hne
      by_contra hlarge
      have hzero : q.size = 0 := by rw [size, hnil]; rfl
      have hfull : q.isFull = false := by
        simp only [isFull, remainingSpace, hzero, beq_eq_false_iff_ne]
        omega
      -- the branch for an empty queue does not look at the capacity
      have hrefused := hrefuses (by omega)
      unfold push at hrefused
      rw [if_pos ⟨buffer.ne, htot, hfull⟩, if_neg (fun hchain => hchain hnil)] at hrefused
      cases hrefused
    · intro hfit hlarge
      rcases push_cases q buffer with hr | ⟨hfull, hnil, -⟩ | ⟨-, hroom, -⟩
      · rw [hr]
      · have hzero : q.size = 0 := by rw [size, hnil]; rfl
        have hne : q.capacity ≠ 0 := fun hc => by
          rw [isFull, remainingSpace, hzero, hc] at hfull
          cases hfull
        have := hfit hnil hne
        omega
      · omega
  | pop | move _ | clear => exact ⟨fun _ => trivial, fun _ => trivial⟩

/-- In a run the queue refuses what exceeds its capacity, and stays in it, exactly when every chain that is pushed
on the empty queue fits. -/
theorem capacity_iff (capacity : UInt16) (ops : List QueueOp) :
    (∀ x ∈ steps queueStep (init capacity.toNat) ops, Refuses x.1 x.2.1 ∧ Bounded x.2.2) ↔
      Meets queueStep FitsEmpty (init capacity.toNat) ops := by
  have htotals : ∀ x ∈ steps queueStep (init capacity.toNat) ops, x.1.Totals := fun x hx =>
    (steps_inv_of_meets (I := Totals) (C := fun _ _ => True) (fun _ _ _ hq _ hs => queueStep_totals hq hs)
      (init_totals capacity) (fun _ _ => trivial) x hx).1
  constructor
  · intro hall x hx
    exact (refuses_iff (htotals x hx) _).1 (hall x hx).1
  · intro hmeets x hx
    have hsize := steps_inv_of_meets (m := queueStep) (I := fun q => q.Totals ∧ q.size ≤ q.capacity)
      (fun _ _ _ hq hfit hs => ⟨queueStep_totals hq.1 hs, queueStep_size hq.1 hq.2 hfit hs⟩)
      ⟨init_totals capacity, Nat.zero_le _⟩ hmeets x hx
    obtain ⟨hq, hfit, -, hq', hsize'⟩ := hsize
    exact ⟨(refuses_iff hq.1 _).2 hfit, bounded_of_size hq' hsize'⟩

/-- Two bytes in one pbuf. -/
def twoBytes : Buffer :=
  { pbufs := [{ payload := [1, 2], totLen := 2, flags := 0 }]
    ne := PbufChain.two.ne
    tot := PbufChain.two.tot
    pos := by decide
    bound := PbufChain.two.bound }

/-- An empty queue of capacity 1 takes two bytes; its space is then `SIZE_MAX`, and it is not full although it
refuses every byte. -/
theorem overfull : ∃ q, exec queueStep (init (1 : UInt16).toNat) [.push twoBytes] = some q ∧ q.size = 2 ∧
    q.remainingSpace = 2 ^ 64 - 1 ∧ ¬ Refuses (init (1 : UInt16).toNat) (.push twoBytes) ∧ ¬ Bounded q := by
  refine ⟨_, rfl, by decide, by decide, fun hrefuses => ?_, fun hbounded => ?_⟩
  · exact absurd (hrefuses (by decide)) (by decide)
  · exact absurd hbounded.size (by decide)

end PBufQueue

end FortiRdp.Util
