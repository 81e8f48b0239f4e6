/-
`PBufQueue` on pbufs in memory: the queue is a pointer to the head of a chain, and an offset into it. Each
operation changes the chain as the one on values does, and the counts as its documentation says.
-/
import FortiRdp.Lwip.PbufHeap
import FortiRdp.Util.PBufQueue

namespace FortiRdp.Util

open FortiRdp.Lwip FortiRdp.Lwip.Mem FortiRdp.Run FortiRdp.Run.Heap

/-- The queue, and the memory with all pbufs. -/
structure HeapQueue where
  heap : Heap Pbuf
  capacity : Nat
  chain : Option Nat
  offset : Nat
  deriving DecidableEq, Repr

/-- A `cblock`: a pbuf and a place in its payload, the length, and the bytes there. -/
structure Block where
  pdata : Option (Nat × Nat)
  len : Nat
  more : Bool
  data : Bytes
  deriving DecidableEq, Repr

namespace HeapQueue

def size (q : HeapQueue) : Option Nat :=
  match q.chain with
  | none => some 0
  | some a => (q.heap.get a).map fun o => o.val.totLen

def remainingSpace (q : HeapQueue) : Option Nat := q.size.map fun size => (q.capacity + 2 ^ 64 - size) % 2 ^ 64

def isFull (q : HeapQueue) : Option Bool := q.remainingSpace.map (· == 0)

def isEmpty (q : HeapQueue) : Bool := q.chain.isNone

/-- `push`; the null pointer is refused. -/
def push (q : HeapQueue) (buffer : Option Nat) : Option (Bool × HeapQueue) :=
  match buffer with
  | none => some (false, q)
  | some b => do
    let ob ← q.heap.get b
    if 0 < ob.val.totLen ∧ (← q.isFull) = false then
      match q.chain with
      | some a =>
        if (← q.size) + ob.val.totLen ≤ q.capacity then do
          let heap ← pbufChain q.heap a b
          some (true, { q with heap })
        else some (false, q)
      | none => do
        let heap ← pbufRef q.heap b
        some (true, { q with heap, chain := some b, offset := 0 })
    else some (false, q)

def pop (q : HeapQueue) : Option (Option Nat × HeapQueue) :=
  match q.chain with
  | none => some (none, q)
  | some a => do
    let o ← q.heap.get a
    let heap ← q.heap.put a none { o.val with totLen := o.val.len }
    some (some a, { q with heap, chain := o.next, offset := 0 })

/-- The pbuf that a pointer leads to, when it leads to one. -/
def deref (q : HeapQueue) : Option Nat → Option (Option Pbuf)
  | none => some none
  | some n => (q.heap.get n).map fun o => some o.val

/-- `get_cblock(len)`. -/
def getCblock (q : HeapQueue) (len : Nat) : Option Block :=
  match q.chain with
  | none => some { pdata := none, len := 0, more := false, data := [] }
  | some a => do
    let o ← q.heap.get a
    let next ← q.deref o.next
    let available := o.val.len - q.offset
    let more := decide (len < available) ||
      (PBufQueue.anyFlag o.val == false && (next.map fun n => PBufQueue.anyFlag n == false).getD false)
    let cblockLen := min len available % 65536
    some {
      pdata := some (a, q.offset)
      len := cblockLen
      more := more
      data := (o.val.payload.drop q.offset).take cblockLen }

/-- `get_cblock()`, which reads the length of the head and so needs one. -/
def getHead (q : HeapQueue) : Option Block := do
  let a ← q.chain
  let o ← q.heap.get a
  q.getCblock (o.val.len - q.offset)

/-- `move`; the sum is a `size_t`. -/
def move (q : HeapQueue) (len : Nat) : Option (Bool × HeapQueue) :=
  match q.chain with
  | none => some (false, q)
  | some a => do
    let o ← q.heap.get a
    if (q.offset + len) % 2 ^ 64 ≤ o.val.len then
      let q := { q with offset := (q.offset + len) % 2 ^ 64 }
      if o.val.len - q.offset = 0 then do
        let (_, q) ← q.pop
        let heap ← pbufFree q.heap a
        some (true, { q with heap })
      else some (true, q)
    else some (false, q)

def clear (q : HeapQueue) : Option HeapQueue :=
  match q.chain with
  | none => some q
  | some a => do
    let heap ← pbufFree q.heap a
    some { q with heap, chain := none, offset := 0 }

/-! ## The queue of values -/

variable {q q' : HeapQueue} {held : Nat → Nat} {l lb : List (Nat × Pbuf)} {a b : Nat} {v : Pbuf}

/-- The queue whose chain is `l`. -/
def view (q : HeapQueue) (l : List (Nat × Pbuf)) : PBufQueue :=
  { capacity := q.capacity, chain := pbufs l, offset := q.offset }

/-- Besides the references of `held`, the queue has one to the head of its chain. -/
def Owned (q : HeapQueue) (held : Nat → Nat) : Prop := Counted q.heap fun x => held x + toward q.chain x

theorem chain_cons (hl : Chain q.heap q.chain ((a, v) :: l)) :
    ∃ o, q.chain = some a ∧ q.heap.get a = some o ∧ o.val = v ∧ Chain q.heap o.next l := by
  obtain ⟨hp, n, hlook, htail⟩ := hl
  obtain ⟨o, ho, rfl, rfl⟩ := get_of_look hlook
  exact ⟨o, hp, ho, rfl, htail⟩

theorem size_eq (hl : Chain q.heap q.chain l) : q.size = some (q.view l).size := by
  unfold size
  cases l with
  | nil => rw [show q.chain = none from hl]; rfl
  | cons d l =>
    obtain ⟨o, hp, ho, hv, -⟩ := chain_cons hl
    rw [hp]
    simp only [ho, Option.map_some, hv]
    rfl

theorem isFull_eq (hl : Chain q.heap q.chain l) : q.isFull = some (q.view l).isFull := by
  rw [isFull, remainingSpace, size_eq hl]
  rfl

/-- Bytes may have come behind those of the queue, but a queue that was not empty has the same head, with the
same payload, at the same offset. -/
def SameFront (q : HeapQueue) (l : List (Nat × Pbuf)) (q' : HeapQueue) (l' : List (Nat × Pbuf)) : Prop :=
  (∀ a v, l.head? = some (a, v) → q'.offset = q.offset ∧ ∃ v', l'.head? = some (a, v') ∧ v'.payload = v.payload) ∧
    (q.view l).content <+: (q'.view l').content

theorem SameFront.of_eq (hoff : q'.offset = q.offset) : SameFront q l q' l :=
  ⟨fun _ v h => ⟨hoff, v, h, rfl⟩, by simp only [PBufQueue.content, view, hoff, List.prefix_refl]⟩

theorem SameFront.refl (q : HeapQueue) (l : List (Nat × Pbuf)) : SameFront q l q l := .of_eq rfl

/-- What `push` does to the memory, for the chain `lb` of the buffer `b`. -/
structure Pushed (q : HeapQueue) (held : Nat → Nat) (l : List (Nat × Pbuf)) (b : Nat) (lb : List (Nat × Pbuf)) (r : Bool)
    (q' : HeapQueue) (l' : List (Nat × Pbuf)) : Prop where
  chain : Chain q'.heap q'.chain l'
  addrs : addrs l' = if r then addrs l ++ addrs lb else addrs l
  view : (q.view l).push (pbufs lb) = (r, q'.view l')
  owned : q'.Owned held
  refused : r = false → q' = q ∧ l' = l
  length : q'.heap.length = q.heap.length
  look : ∀ x, x ∉ Mem.addrs l → q'.heap.look x = q.heap.look x
  refs : ∀ x, q'.heap.refs x = q.heap.refs x + if r then toward (some b) x else 0
  links : ∀ x, q'.heap.links x = q.heap.links x + if r = true ∧ l ≠ [] then toward (some b) x else 0
  front : SameFront q l q' l'

theorem push_spec (ho : q.Owned held) (hl : Chain q.heap q.chain l) (htot : TotOk (pbufs l)) (hb : 0 < held b)
    (hlb : Chain q.heap (some b) lb) (hdis : ∀ x ∈ addrs l, x ∉ addrs lb) (href : q.heap.refs b + 1 < 256) :
    ∃ r q' l', q.push (some b) = some (r, q') ∧ Pushed q held l b lb r q' l' := by
  obtain ⟨vb, ltail, rfl⟩ : ∃ vb ltail, lb = (b, vb) :: ltail := by
    cases lb with
    | nil => cases hlb
    | cons d l' => cases hlb.1; exact ⟨_, _, rfl⟩
  obtain ⟨-, nb, hlookb, -⟩ := id hlb
  obtain ⟨ob, hob, -, rfl⟩ := get_of_look hlookb
  have htotb : totLen (pbufs ((b, ob.val) :: ltail)) = ob.val.totLen := rfl
  have hrefused : (q.view l).push (pbufs ((b, ob.val) :: ltail)) = (false, q.view l) →
      Pushed q held l b ((b, ob.val) :: ltail) false q l := fun hv =>
    ⟨hl, rfl, hv, ho, fun _ => ⟨rfl, rfl⟩, rfl, fun _ _ => rfl, fun _ => rfl, fun _ => rfl, .refl q l⟩
  simp only [push, hob, isFull_eq hl, size_eq hl, Option.bind_eq_bind, Option.bind_some]
  -- the three tests of `push`: the total, the space, and on a queue with a chain the capacity
  by_cases hgo : 0 < ob.val.totLen ∧ (q.view l).isFull = false
  · rw [if_pos hgo]
    have hbuf : pbufs ((b, ob.val) :: ltail) ≠ [] ∧ 0 < totLen (pbufs ((b, ob.val) :: ltail)) ∧
        (q.view l).isFull = false := ⟨List.cons_ne_nil _ _, hgo⟩
    cases l with
    | nil =>
      have hchain : q.chain = none := hl
      obtain ⟨h', hret, hsame, hrefs, hc'⟩ := Counted.retain 256 ho (a := b) (by omega) href
      rw [hchain]
      simp only [pbufRef, hret, Option.bind_some]
      refine ⟨true, _, (b, ob.val) :: ltail, rfl, hlb.congr fun y _ => hsame.look y, rfl, ?_, ?_, nofun, hsame.length,
        fun x _ => hsame.look x, hrefs, fun x => hsame.links x, nofun, by simp [PBufQueue.content, view, pbufs]⟩
      · rw [PBufQueue.push, if_pos hbuf, if_neg (fun hne => hne rfl)]
        rfl
      · refine hc'.of_eq fun x => ?_
        rw [hchain, toward_none, Nat.add_zero]
    | cons d l =>
      obtain ⟨o, hp, -, -, -⟩ := chain_cons hl
      have hne : (q.view (d :: l)).chain ≠ [] := List.cons_ne_nil _ _
      simp only [hp]
      by_cases hfit : (q.view (d :: l)).size + ob.val.totLen ≤ q.capacity
      · rw [if_pos hfit]
        rw [hp] at hl
        obtain ⟨h', hch, hl', hlk, hrefs, hc'⟩ := pbufChain_spec ho (by omega) hl hlb hdis htot href
        rw [hp] at hc'
        refine ⟨true, ⟨h', q.capacity, some d.1, q.offset⟩, _, ?_, hl', by rw [addrs_append, addrs_grow]; rfl, ?_, hc',
          nofun, hlk.length, hlk.look, hrefs, fun x => ?_, ?_⟩
        · rw [hch]
          rfl
        · have hfit' : (q.view (d :: l)).size + totLen (pbufs ((b, ob.val) :: ltail)) ≤ (q.view (d :: l)).capacity := hfit
          rw [PBufQueue.push, if_pos hbuf, if_pos hne, if_pos hfit']
          simp only [view, pbufs_grow]
        · rw [if_pos ⟨rfl, List.cons_ne_nil _ _⟩]
          exact hlk.links x
        · constructor
          · rintro _ _ ⟨⟩
            exact ⟨rfl, _, rfl, rfl⟩
          · simp only [PBufQueue.content, view, pbufs_grow, content_pbufCat, List.drop_append]
            exact List.prefix_append _ _
      · rw [if_neg hfit]
        refine ⟨false, q, d :: l, rfl, hrefused ?_⟩
        have hfit' : ¬ (q.view (d :: l)).size + totLen (pbufs ((b, ob.val) :: ltail)) ≤ (q.view (d :: l)).capacity := hfit
        rw [PBufQueue.push, if_pos hbuf, if_pos hne, if_neg hfit']
  · rw [if_neg hgo]
    refine ⟨false, q, l, rfl, hrefused ?_⟩
    rw [PBufQueue.push, if_neg (fun hbuf => hgo hbuf.2)]

/-- What an operation that takes pbufs from the queue does to the memory: only the head may change, and a new
head is the one that the old one linked to. -/
structure Taken (q : HeapQueue) (l : List (Nat × Pbuf)) (q' : HeapQueue) (l' : List (Nat × Pbuf)) : Prop where
  chain : Chain q'.heap q'.chain l'
  suffix : addrs l' <:+ addrs l
  length : q'.heap.length = q.heap.length
  look : ∀ x, (∀ d ∈ l.head?, x ≠ d.1) → q'.heap.get x = none ∨ q'.heap.look x = q.heap.look x
  links : ∀ x, q'.heap.links x ≤ q.heap.links x
  head : ∀ c, q'.chain = some c → q.chain = some c ∨ q'.heap.links c < q.heap.links c

/-- `pop` gives the reference to the head away and takes over the one of its link. -/
theorem pop_spec (ho : q.Owned held) (hl : Chain q.heap q.chain ((a, v) :: l)) :
    ∃ q', q.pop = some (some a, q') ∧ Taken q ((a, v) :: l) q' l ∧
      (q.view ((a, v) :: l)).pop = (some { v with totLen := v.len }, q'.view l) ∧
      q'.Owned (fun x => held x + toward (some a) x) ∧ q'.heap.look a = some (none, { v with totLen := v.len }) ∧
      (∀ x, q'.heap.refs x = q.heap.refs x) ∧ ∀ x, q'.heap.links x + toward q'.chain x = q.heap.links x := by
  obtain ⟨o, hp, ho', rfl, htail⟩ := chain_cons hl
  have hnodup := hl.nodup
  rw [List.map_cons, List.nodup_cons] at hnodup
  -- the link of the head is cut, and the reference it stood for goes to the queue
  obtain ⟨h', hput, hlen, hlook, hrefs, hlinks, hc'⟩ := Counted.put
    (u := fun x => held x + toward (some a) x + toward o.next x) none ho (look_of_get ho')
    { o.val with totLen := o.val.len } (fun x => by rw [hp, toward_none, Nat.add_zero]) ⟨[], rfl, by simp⟩
  refine ⟨{ q with heap := h', chain := o.next, offset := 0 }, ?_, ⟨?_, List.suffix_cons _ _, hlen, fun x hx => ?_,
    fun x => ?_, fun c hc => ?_⟩, rfl, hc', by rw [hlook, if_pos rfl], hrefs, fun x => ?_⟩
  · simp only [pop, hp, ho', hput, Option.bind_eq_bind, Option.bind_some]
  · exact htail.congr fun y hy => by rw [hlook, if_neg (fun hya : y = a => hnodup.1 (hya ▸ hy))]
  · rw [hlook, if_neg (hx (a, o.val) rfl)]
    exact .inr rfl
  · have := hlinks x
    rw [toward_none] at this
    show h'.links x ≤ _
    omega
  · have := hlinks c
    rw [show o.next = some c from hc, toward_self, toward_none] at this
    refine .inr ?_
    show h'.links c < _
    omega
  · have := hlinks x
    rwa [toward_none, Nat.add_zero] at this

/-- `move` inside the head changes the offset; at its end it drops the reference of the queue to it. -/
theorem move_spec (ho : q.Owned held) (hl : Chain q.heap q.chain ((a, v) :: l)) (n : Nat) :
    (q.move n = some (false, q) ∧ (q.view ((a, v) :: l)).move n = none) ∨
    ∃ q' l', q.move n = some (true, q') ∧ (q.view ((a, v) :: l)).move n = some (q'.view l') ∧
      Taken q ((a, v) :: l) q' l' ∧ q'.Owned held := by
  obtain ⟨o, hp, ho', rfl, htail⟩ := chain_cons hl
  have hview : (q.view ((a, o.val) :: l)).move n = if (q.offset + n) % 2 ^ 64 ≤ o.val.len then
      if o.val.len - (q.offset + n) % 2 ^ 64 = 0 then some { q.view l with offset := 0 }
      else some { q.view ((a, o.val) :: l) with offset := (q.offset + n) % 2 ^ 64 }
      else none := rfl
  have hmove : q.move n = if (q.offset + n) % 2 ^ 64 ≤ o.val.len then
      if o.val.len - (q.offset + n) % 2 ^ 64 = 0 then do
        let (_, q) ← pop { q with offset := (q.offset + n) % 2 ^ 64 }
        let heap ← pbufFree q.heap a
        some (true, { q with heap })
      else some (true, { q with offset := (q.offset + n) % 2 ^ 64 })
      else some (false, q) := by
    unfold move
    rw [hp]
    simp only [ho', Option.bind_eq_bind, Option.bind_some]
  rw [hview, hmove]
  by_cases hin : (q.offset + n) % 2 ^ 64 ≤ o.val.len
  · rw [if_pos hin, if_pos hin]
    right
    -- at the end of the head it is popped and freed
    by_cases hend : o.val.len - (q.offset + n) % 2 ^ 64 = 0
    · rw [if_pos hend, if_pos hend]
      obtain ⟨q₁, hpop, htaken, hv, ho₁, hlook, -, -⟩ :=
        pop_spec (q := { q with offset := (q.offset + n) % 2 ^ 64 }) ho hl
      obtain ⟨h', hfree, hc', hshr, -⟩ := pbufFree_spec (p := a) ho₁
        (u := fun x => held x + toward q₁.chain x) (fun x => Nat.add_right_comm _ _ _)
      have hv' : { q.view l with offset := 0 } = ({ q₁ with heap := h' } : HeapQueue).view l := (Prod.mk.inj hv).2
      refine ⟨{ q₁ with heap := h' }, l, ?_, congrArg some hv', ⟨?_, htaken.suffix, hshr.length.trans htaken.length,
        fun x hx => ?_, fun x => (hshr.links x).trans (htaken.links x),
        fun c hc => (htaken.head c hc).imp_right (hshr.links c).trans_lt⟩, hc'⟩
      · simp only [hpop, Option.bind_eq_bind, Option.bind_some, hfree]
      · exact hc'.chain_kept htaken.chain (fun y _ => hshr.look y)
          fun x hx => by rw [show q₁.chain = some x from hx, toward_self]; omega
      · rcases hshr.look x with hgone | hsame
        · exact .inl hgone
        · rcases htaken.look x hx with hgone | hsame'
          · exact .inl (gone_of_look hsame hgone)
          · exact .inr (hsame.trans hsame')
    · rw [if_neg hend, if_neg hend]
      exact ⟨_, (a, o.val) :: l, rfl, rfl, ⟨hl, List.suffix_refl _, rfl, fun _ _ => .inr rfl, fun _ => le_rfl,
        fun _ hc => .inl hc⟩, ho⟩
  · rw [if_neg hin, if_neg hin]
    exact .inl ⟨rfl, rfl⟩

theorem move_empty (hl : Chain q.heap q.chain []) (n : Nat) :
    q.move n = some (false, q) ∧ (q.view []).move n = none := by
  unfold move
  rw [show q.chain = none from hl]
  exact ⟨rfl, rfl⟩

/-- `clear` drops the reference of the queue to the whole chain. -/
theorem clear_spec (ho : q.Owned held) (hl : Chain q.heap q.chain l) :
    ∃ q', q.clear = some q' ∧ (q.view l).clear = q'.view [] ∧ Chain q'.heap q'.chain [] ∧ q'.Owned held ∧
      Shrinks q.heap q'.heap := by
  unfold clear
  cases l with
  | nil =>
    rw [show q.chain = none from hl]
    exact ⟨q, rfl, rfl, hl, ho, ⟨rfl, fun _ => .inr rfl, fun _ => le_rfl⟩⟩
  | cons d l =>
    obtain ⟨o, hp, -, -, -⟩ := chain_cons hl
    rw [HeapQueue.Owned, hp] at ho
    obtain ⟨h', hfree, hc', hshr, -⟩ := pbufFree_spec (p := d.1) (u := held) ho fun x => rfl
    rw [hp]
    refine ⟨⟨h', q.capacity, none, 0⟩, ?_, rfl, rfl, hc'.of_eq fun x => ?_, hshr⟩
    · simp only [hfree, Option.bind_eq_bind, Option.bind_some]
    · rw [toward_none, Nat.add_zero]

/-- `get_cblock(len)` reads what the one on values reads, at the head and the offset. -/
theorem getCblock_spec (hl : Chain q.heap q.chain ((a, v) :: l)) (n : Nat) :
    ∃ blk, q.getCblock n = some blk ∧ blk.pdata = some (a, q.offset) ∧ blk.len = min n (v.len - q.offset) % 65536 ∧
      blk.data = ((q.view ((a, v) :: l)).getCblock n).data ∧ blk.more = ((q.view ((a, v) :: l)).getCblock n).more := by
  obtain ⟨o, hp, ho, rfl, htail⟩ := chain_cons hl
  have hnext : q.deref o.next = some (l.head?.map Prod.snd) := by
    cases l with
    | nil => rw [show o.next = none from htail]; rfl
    | cons d l =>
      obtain ⟨hn, m, hlook, -⟩ := htail
      obtain ⟨od, hod, -, hval⟩ := get_of_look hlook
      rw [hn]
      simp only [deref, hod, Option.map_some, List.head?_cons, hval]
  have hblk : q.getCblock n = some {
      pdata := some (a, q.offset)
      len := min n (o.val.len - q.offset) % 65536
      more := ((q.view ((a, o.val) :: l)).getCblock n).more
      data := ((q.view ((a, o.val) :: l)).getCblock n).data } := by
    unfold getCblock
    rw [hp]
    simp only [ho, hnext, Option.bind_eq_bind, Option.bind_some]
    cases l <;> rfl
  exact ⟨_, hblk, rfl, rfl, rfl, rfl⟩

theorem getHead_spec (hl : Chain q.heap q.chain ((a, v) :: l)) :
    ∃ blk, q.getHead = some blk ∧ blk.pdata = some (a, q.offset) ∧ blk.len = (v.len - q.offset) % 65536 ∧
      blk.data = (q.view ((a, v) :: l)).getHead.data := by
  obtain ⟨o, hp, ho, rfl, htail⟩ := chain_cons hl
  obtain ⟨blk, hblk, hptr, hlen, hdata, -⟩ := getCblock_spec hl (o.val.len - q.offset)
  refine ⟨blk, ?_, hptr, by rw [hlen, Nat.min_self], hdata⟩
  unfold getHead
  rw [hp]
  simp only [ho, Option.bind_eq_bind, Option.bind_some]
  exact hblk

end HeapQueue

end FortiRdp.Util
