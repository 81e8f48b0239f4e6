/-
The queue of pbufs (`PBufQueue`): a chain and an offset into its head. The bytes of the queue are
those of the chain without the first `offset` ones.
-/
import FortiRdp.Lwip.Pbuf

namespace FortiRdp.Util

open FortiRdp.Lwip

structure PBufQueue where
  capacity : Nat
  chain : List Pbuf
  offset : Nat
  deriving DecidableEq, Repr

/-- A contiguous block of data of the queue. -/
structure Cblock where
  data : Bytes
  more : Bool
  deriving DecidableEq, Repr

namespace PBufQueue

def init (capacity : Nat) : PBufQueue := { capacity := capacity, chain := [], offset := 0 }

def clear (q : PBufQueue) : PBufQueue := if q.chain = [] then q else { q with chain := [], offset := 0 }

def size (q : PBufQueue) : Nat := totLen q.chain

/-- `size_t` arithmetic: a queue longer than its capacity has a huge space. -/
def remainingSpace (q : PBufQueue) : Nat := (q.capacity + 2 ^ 64 - q.size) % 2 ^ 64

def isEmpty (q : PBufQueue) : Bool := q.chain.isEmpty

def isFull (q : PBufQueue) : Bool := q.remainingSpace == 0

/-- `push`: a chain that is refused leaves the queue as it was. -/
def push (q : PBufQueue) (buffer : List Pbuf) : Bool × PBufQueue :=
  if buffer ≠ [] ∧ 0 < totLen buffer ∧ q.isFull = false then
    if q.chain ≠ [] then
      if q.size + totLen buffer ≤ q.capacity then (true, { q with chain := pbufCat q.chain buffer }) else (false, q)
    else (true, { q with chain := buffer, offset := 0 })
  else (false, q)

/-- `pop`: the head, cut off from the rest of the chain. -/
def pop (q : PBufQueue) : Option Pbuf × PBufQueue :=
  match q.chain with
  | [] => (none, q)
  | p :: c => (some { p with totLen := p.len }, { q with chain := c, offset := 0 })

/-- `flags && PBUF_FLAG_PUSH`, a logical and of two numbers. -/
def anyFlag (p : Pbuf) : Bool := p.flags != 0 && pbufFlagPush != 0

/-- `get_cblock(len)`. -/
def getCblock (q : PBufQueue) (len : Nat) : Cblock :=
  match q.chain with
  | [] => { data := [], more := false }
  | p :: c =>
    let available := p.len - q.offset
    let more := decide (len < available) || (anyFlag p == false && (c.head?.map fun n => anyFlag n == false).getD false)
    { data := (p.payload.drop q.offset).take (min len available % 65536), more := more }

/-- `get_cblock()`: the rest of the head. -/
def getHead (q : PBufQueue) : Cblock := q.getCblock ((q.chain.head?.map Pbuf.len).getD 0 - q.offset)

/-- `move`, `none` when it is refused. The sum is a `size_t`. -/
def move (q : PBufQueue) (len : Nat) : Option PBufQueue :=
  match q.chain with
  | [] => none
  | p :: _ =>
    if (q.offset + len) % 2 ^ 64 ≤ p.len then
      let q := { q with offset := (q.offset + len) % 2 ^ 64 }
      if p.len - q.offset = 0 then some q.pop.2 else some q
    else none

def content (q : PBufQueue) : Bytes := (Lwip.content q.chain).drop q.offset

/-- The chain is well formed and the offset points into its head. -/
structure WF (q : PBufQueue) : Prop where
  tot : TotOk q.chain
  pos : ∀ p ∈ q.chain, 0 < p.len
  bound : (Lwip.content q.chain).length < 65536
  offset : ∀ p ∈ q.chain.head?, q.offset < p.len
  empty : q.chain = [] → q.offset = 0

/-! ## What the operations do to the bytes -/

variable {q q' : PBufQueue} {c : List Pbuf}

theorem init_wf (capacity : Nat) : (init capacity).WF :=
  ⟨trivial, by simp [init], by simp [init], by simp [init], fun _ => rfl⟩

@[simp] theorem init_content (capacity : Nat) : (init capacity).content = [] := rfl

@[simp] theorem clear_chain (q : PBufQueue) : q.clear.chain = [] := by
  unfold clear
  split
  · assumption
  · rfl

@[simp] theorem clear_capacity (q : PBufQueue) : q.clear.capacity = q.capacity := by
  unfold clear
  split <;> rfl

theorem clear_wf (h : q.WF) : q.clear.WF := by
  unfold clear
  split
  · exact h
  · exact ⟨trivial, by simp, by simp, by simp, fun _ => rfl⟩

@[simp] theorem clear_content (q : PBufQueue) : q.clear.content = [] := by
  simp [content]

@[simp] theorem isEmpty_iff : q.isEmpty = true ↔ q.chain = [] := by
  simp [isEmpty]

theorem content_length (h : q.WF) : q.content.length + q.offset = q.size := by
  unfold content size
  rw [List.length_drop, totLen_eq h.tot]
  cases hc : q.chain with
  | nil => simp [h.empty hc]
  | cons p c =>
    have := h.offset p (by simp [hc])
    simp only [content_cons, List.length_append, Pbuf.len] at *
    omega

/-- A queue in order is empty when it has no byte left. -/
theorem content_eq_nil (h : q.WF) : q.content = [] ↔ q.chain = [] := by
  constructor
  · intro hnil
    cases hc : q.chain with
    | nil => rfl
    | cons p c =>
      have hoff := h.offset p (by simp [hc])
      have hlen := congrArg List.length hnil
      simp only [content, hc, content_cons, List.length_drop, List.length_append, List.length_nil, Pbuf.len] at *
      omega
  · intro hc
    simp [content, hc]

theorem push_refused (h : (q.push c).1 = false) : (q.push c).2 = q := by
  unfold push at *
  split at h
  · rename_i hbuf
    rw [if_pos hbuf]
    split at h
    · rename_i hne
      rw [if_pos hne]
      split at h
      · cases h
      · rename_i hfull
        rw [if_neg hfull]
    · cases h
  · rename_i hbuf
    rw [if_neg hbuf]

/-- A chain that is accepted comes behind what the queue holds. -/
theorem push_accepted (hq : q.WF) (ht : TotOk c) (hpos : ∀ p ∈ c, 0 < p.len) (hb : (Lwip.content c).length < 65536)
    (hcap : q.capacity < 65536) (h : q.push c = (true, q')) :
    q'.WF ∧ q'.content = q.content ++ Lwip.content c ∧ q'.capacity = q.capacity := by
  unfold push at h
  split at h
  · rename_i hbuf
    split at h
    · rename_i hne
      split at h
      · rename_i hfit
        cases h
        rw [size, totLen_eq hq.tot, totLen_eq ht] at hfit
        obtain ⟨p, d, hchain⟩ := List.exists_cons_of_ne_nil hne
        have hoff : q.offset < p.len := hq.offset p (by simp [hchain])
        have hlt : (Lwip.content q.chain).length + (Lwip.content c).length < 65536 := by omega
        refine ⟨⟨totOk_pbufCat hq.tot ht hlt, pos_pbufCat hq.pos hpos, ?_, ?_, ?_⟩, ?_, rfl⟩
        · rw [content_pbufCat, List.length_append]; exact hlt
        · rw [hchain]
          simp only [pbufCat, List.map_cons, List.cons_append, List.head?_cons]
          rintro _ ⟨⟩
          exact hoff
        · rw [hchain]
          intro hnil
          simp [pbufCat] at hnil
        · unfold content
          rw [content_pbufCat, List.drop_append_of_le_length]
          rw [hchain, content_cons, List.length_append]
          unfold Pbuf.len at hoff
          show q.offset ≤ _
          omega
      · cases h
    · rename_i hnil
      cases h
      obtain ⟨p, d, rfl⟩ := List.exists_cons_of_ne_nil hbuf.1
      have hnil : q.chain = [] := not_not.1 hnil
      refine ⟨⟨ht, hpos, hb, ?_, fun h => absurd h (List.cons_ne_nil p d)⟩, ?_, rfl⟩
      · rintro _ ⟨⟩
        exact hpos p (List.mem_cons_self ..)
      · simp [content, hnil]
  · cases h

theorem getHead_data (hq : q.WF) {p : Pbuf} {d : List Pbuf} (hc : q.chain = p :: d) :
    q.getHead.data = p.payload.drop q.offset := by
  have hb := hq.bound
  simp only [hc, content_cons, List.length_append] at hb
  unfold getHead getCblock
  simp only [hc, List.head?_cons, Option.map_some, Option.getD_some, Nat.min_self]
  apply List.take_of_length_le
  rw [List.length_drop, Pbuf.len]
  omega

/-- A block is the beginning of the queue, as long as the request, the head and 16 bits allow. -/
theorem getCblock_data {p : Pbuf} {d : List Pbuf} (hc : q.chain = p :: d) (len : Nat) :
    (q.getCblock len).data = q.content.take (min len (p.len - q.offset) % 65536) := by
  unfold getCblock content
  simp only [hc, content_cons]
  rw [List.drop_append, List.take_append_of_le_length]
  rw [List.length_drop, Pbuf.len]
  exact le_trans (Nat.mod_le _ _) (Nat.min_le_right _ _)

theorem pop_wf (hq : q.WF) : q.pop.2.WF := by
  unfold pop
  cases hc : q.chain with
  | nil => exact hq
  | cons p d =>
    have htot := hq.tot
    have hpos := hq.pos
    have hb := hq.bound
    rw [hc] at htot hpos hb
    rw [content_cons, List.length_append] at hb
    refine ⟨htot.2, fun p hp => hpos p (List.mem_cons_of_mem _ hp), by simp only; omega, ?_, fun _ => rfl⟩
    intro n hn
    exact hpos n (List.mem_cons_of_mem _ (List.mem_of_mem_head? hn))

theorem len_lt (hq : q.WF) {p : Pbuf} {d : List Pbuf} (hc : q.chain = p :: d) : p.len < 65536 := by
  have hb := hq.bound
  simp only [hc, content_cons, List.length_append] at hb
  unfold Pbuf.len
  omega

/-- A move whose sum is not cut short. -/
theorem move_eq {p : Pbuf} {d : List Pbuf} (hc : q.chain = p :: d) {n : Nat} (hn : q.offset + n < 2 ^ 64) :
    q.move n = if q.offset + n ≤ p.len then
        if p.len - (q.offset + n) = 0 then some { q with chain := d, offset := 0 }
        else some { q with offset := q.offset + n }
      else none := by
  unfold move pop
  simp only [hc, Nat.mod_eq_of_lt hn]

/-- Moving inside the head drops as many bytes from the front. -/
theorem move_spec (hq : q.WF) {p : Pbuf} {d : List Pbuf} (hc : q.chain = p :: d) {n : Nat}
    (hn : n ≤ p.len - q.offset) :
    ∃ q', q.move n = some q' ∧ q'.WF ∧ q'.content = q.content.drop n ∧ q'.capacity = q.capacity := by
  have hoff := hq.offset p (by simp [hc])
  have hlen := len_lt hq hc
  rw [move_eq hc (by omega), if_pos (by omega)]
  split
  · rename_i hend
    refine ⟨_, rfl, ?_, ?_, rfl⟩
    · have h := pop_wf hq
      unfold pop at h
      simp only [hc] at h
      exact h
    · unfold content
      simp only [hc, List.drop_zero, content_cons, List.drop_drop]
      rw [show q.offset + n = p.payload.length by rw [Pbuf.len] at *; omega, List.drop_left]
  · rename_i hmid
    refine ⟨_, rfl, ⟨hq.tot, hq.pos, hq.bound, ?_, fun h => absurd (hc.symm.trans h) (by simp)⟩, ?_, rfl⟩
    · simp only [hc, List.head?_cons]
      rintro _ ⟨⟩
      omega
    · simp only [content, List.drop_drop]

/-- Any move that succeeds keeps the queue in order, also one whose sum is cut short. -/
theorem move_wf (hq : q.WF) {n : Nat} (h : q.move n = some q') : q'.WF ∧ q'.capacity = q.capacity := by
  unfold move at h
  cases hc : q.chain with
  | nil =>
    rw [hc] at h
    cases h
  | cons p d =>
    rw [hc] at h
    simp only at h
    split at h
    · rename_i hin
      split at h
      · cases h
        have hpop := pop_wf hq
        unfold pop at hpop
        rw [hc] at hpop
        exact ⟨hpop, rfl⟩
      · rename_i hmid
        cases h
        refine ⟨⟨hc ▸ hq.tot, hc ▸ hq.pos, hc ▸ hq.bound, ?_, fun hnil => absurd hnil (List.cons_ne_nil p d)⟩, rfl⟩
        rintro r hr
        cases hr
        show (q.offset + n) % 2 ^ 64 < p.len
        omega
    · cases h

/-! ## The capacity -/

/-- A queue in order that holds at most its capacity, which is a 16-bit number. -/
structure Fits (q : PBufQueue) : Prop where
  wf : q.WF
  size : q.size ≤ q.capacity
  capacity : q.capacity < 65536

theorem init_fits {capacity : Nat} (h : capacity < 65536) : (init capacity).Fits := ⟨init_wf _, Nat.zero_le _, h⟩

theorem clear_fits (h : q.Fits) : q.clear.Fits :=
  ⟨clear_wf h.wf, by simp [size, totLen], by simpa using h.capacity⟩

theorem Fits.remainingSpace (h : q.Fits) : q.remainingSpace = q.capacity - q.size := by
  have hsize := h.size
  have hcap := h.capacity
  unfold PBufQueue.remainingSpace
  omega

theorem move_size (hq : q.WF) {n : Nat} (h : q.move n = some q') : q'.size ≤ q.size := by
  unfold move at h
  split at h
  · cases h
  rename_i p c hc
  have htot := hq.tot
  rw [hc] at htot
  split at h
  · simp only at h
    split at h
    · -- the head is used up: the total of the rest is a part of its own
      cases h
      have hrest := totLen_eq htot.2
      have hhead := htot.1
      simp only [size, pop, hc, totLen_cons]
      omega
    · cases h
      exact le_rfl
  · cases h

/-- A chain that is not longer than the remaining space is accepted. -/
theorem push_fits (hq : q.Fits) (ht : TotOk c) (hpos : ∀ p ∈ c, 0 < p.len) (hne : c ≠ [])
    (hspace : (Lwip.content c).length ≤ q.remainingSpace) :
    ∃ q', q.push c = (true, q') ∧ q'.Fits ∧ q'.content = q.content ++ Lwip.content c := by
  have hlen := content_pos hne hpos
  have hcap := hq.capacity
  have hb : (Lwip.content c).length < 65536 := by
    rw [hq.remainingSpace] at hspace
    omega
  have hfull : q.isFull = false := by simp only [isFull, beq_eq_false_iff_ne]; omega
  rw [hq.remainingSpace] at hspace
  have hbuf : c ≠ [] ∧ 0 < totLen c ∧ q.isFull = false := ⟨hne, by rw [totLen_eq ht]; omega, hfull⟩
  have hpush : ∃ q', q.push c = (true, q') ∧ q'.size ≤ q'.capacity := by
    unfold push
    rw [if_pos hbuf]
    split
    · rename_i hchain
      obtain ⟨p, d, hc⟩ := List.exists_cons_of_ne_nil hchain
      have hfit : q.size + totLen c ≤ q.capacity := by
        have := hq.size
        rw [totLen_eq ht]
        omega
      refine ⟨_, if_pos hfit, ?_⟩
      simp only [size, hc, pbufCat, List.map_cons, List.cons_append, totLen_cons] at hfit ⊢
      exact le_trans (Nat.mod_le _ _) hfit
    · refine ⟨_, rfl, ?_⟩
      simp only [size, totLen_eq ht]
      omega
  obtain ⟨q', hpush, hsize⟩ := hpush
  obtain ⟨hwf, hcontent, hcapacity⟩ := push_accepted hq.wf ht hpos hb hcap hpush
  exact ⟨q', hpush, ⟨hwf, hsize, hcapacity ▸ hcap⟩, hcontent⟩

end PBufQueue

end FortiRdp.Util
