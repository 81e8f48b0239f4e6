/-
Every pbuf of the queue and of the transmit path, through any sequence of their operations: each reference is
held by an owner, a producer, a consumer, the queue or a link, no operation uses a freed pbuf, and what nobody
holds is freed.
-/
import FortiRdp.Net.PppHeap
import FortiRdp.Run.Machine

namespace FortiRdp.Net.Mem

open FortiRdp.Lwip FortiRdp.Lwip.Mem FortiRdp.Util FortiRdp.Util.HeapQueue FortiRdp.Run FortiRdp.Run.Heap

/-- Who may hold a reference to a pbuf besides the queue: the owner of a chain that is not yet pushed, the
producer of one that the queue has accepted, and the consumer of a pbuf that was popped. -/
inductive Holder where
  | owner
  | producer
  | consumer
  deriving DecidableEq, Repr

/-- The queue with the memory, and the references held outside of it. -/
structure Counts where
  queue : HeapQueue
  held : List (Holder × Nat)
  deriving DecidableEq, Repr

def Counts.init (capacity : UInt16) : Counts :=
  { queue := { heap := [], capacity := capacity.toNat, chain := none, offset := 0 }, held := [] }

/-- A chain that is allocated from its end on, with a pointer to its head. -/
def allocChain (h : Heap Pbuf) : List Pbuf → Heap Pbuf × Option Nat
  | [] => (h, none)
  | p :: c =>
    let (h, next) := allocChain h c
    (h.alloc next p, some h.length)

inductive Op where
  | alloc (c : PbufChain)
  | push (a : Nat)
  | release (h : Holder) (a : Nat)
  | pop
  | getCblock (len : UInt64)
  | getHead
  | move (len : UInt64)
  | clear
  | write (h : Holder) (pbuf : Nat) (a : Alloc)
  | netifOutput (h : Holder) (pb : Nat) (protocol : UInt16) (a a' : Alloc)
  | sendKa (opened : Bool) (id : UInt8) (magic : Bytes) (a a' a'' : Alloc)

/-- A pbuf is only given to an operation by someone who holds it, and pushed by its owner. -/
def enabled (s : Counts) : Op → Bool
  | .push a => (Holder.owner, a) ∈ s.held
  | .release h a | .write h a _ | .netifOutput h a .. => (h, a) ∈ s.held
  | .getHead => !s.queue.isEmpty
  | _ => true

/-- The state after an operation, `none` when it touches memory that is freed. -/
def next (s : Counts) : Op → Option Counts
  | .alloc c =>
    let (heap, p) := allocChain s.queue.heap c.pbufs
    some { queue := { s.queue with heap }, held := (p.toList.map fun a => (.owner, a)) ++ s.held }
  | .push a => do
    let (ok, queue) ← s.queue.push (some a)
    some { queue, held := if ok then (.producer, a) :: s.held.erase (.owner, a) else s.held }
  | .release h a => do
    let heap ← pbufFree s.queue.heap a
    some { queue := { s.queue with heap }, held := s.held.erase (h, a) }
  | .pop => do
    let (p, queue) ← s.queue.pop
    some { queue, held := (p.toList.map fun a => (.consumer, a)) ++ s.held }
  | .getCblock len => (s.queue.getCblock len.toNat).map fun _ => s
  | .getHead => s.queue.getHead.map fun _ => s
  | .move len => do
    let (_, queue) ← s.queue.move len.toNat
    some { s with queue }
  | .clear => do
    let queue ← s.queue.clear
    some { s with queue }
  | .write h pbuf a => do
    let (_, queue) ← ppposslWrite s.queue a (some pbuf)
    some { queue, held := s.held.erase (h, pbuf) }
  | .netifOutput _ pb protocol a a' => do
    let (_, queue) ← ppposslNetifOutput s.queue a a' pb protocol.toNat
    some { s with queue }
  | .sendKa opened id magic a a' a'' => do
    let (_, queue) ← ppposslSendKa s.queue opened id magic a a' a''
    some { s with queue }

/-- An operation that is not enabled is not called; one that is and faults ends the run. -/
def step : Machine Counts Op := fun s op => if enabled s op then next s op else some s

/-- How many references to `x` are held outside of the queue and the links. -/
def heldBy (held : List (Holder × Nat)) (x : Nat) : Nat := held.countP fun d => d.2 == x

theorem heldBy_cons (h : Holder) (a : Nat) (held : List (Holder × Nat)) (x : Nat) :
    heldBy ((h, a) :: held) x = heldBy held x + toward (some a) x := by
  unfold heldBy toward
  rw [List.countP_cons]
  simp

theorem heldBy_erase {d : Holder × Nat} {held : List (Holder × Nat)} (hd : d ∈ held) (x : Nat) :
    heldBy held x = heldBy (held.erase d) x + toward (some d.2) x := by
  have hperm := (List.perm_cons_erase hd).countP_eq fun e => e.2 == x
  rw [← heldBy_cons d.1 d.2]
  exact hperm

theorem heldBy_pos {d : Holder × Nat} {held : List (Holder × Nat)} (hd : d ∈ held) : 0 < heldBy held d.2 := by
  rw [heldBy_erase hd, toward_self]
  omega

/-! ## The places that references start from -/

variable {q q' : HeapQueue} {held held' : List (Holder × Nat)} {own : Nat → Nat} {l l' : List (Nat × Pbuf)}
  {a b : Nat} {joined : Option Nat}

/-- What is pushed or written: a chain in order that nothing refers to but its owner. -/
structure Unoffered (q : HeapQueue) (held : List (Holder × Nat)) (a : Nat) : Prop where
  links : q.heap.links a = 0
  off : q.chain ≠ some a
  alone : ∀ h, (h, a) ∈ held → h = .owner
  shape : ∃ (c : PbufChain) (lb : List (Nat × Pbuf)), Chain q.heap (some a) lb ∧ pbufs lb = c.pbufs

/-- No two links meet, and nothing links to the head of the queue, to a chain that is not yet pushed, or to a
pbuf that was popped. -/
structure Roots (q : HeapQueue) (held : List (Holder × Nat)) : Prop where
  linear : ∀ x, q.heap.links x ≤ 1
  head : ∀ a, q.chain = some a → q.heap.links a = 0
  nodup : held.Nodup
  owner : ∀ a, (.owner, a) ∈ held → Unoffered q held a
  consumer : ∀ a, (.consumer, a) ∈ held → q.heap.links a = 0 ∧ q.chain ≠ some a

/-- What one operation does to the links: the only address that may gain one is `joined`, and a head of the queue
that is new was linked to, was just allocated, or is `joined`. -/
structure Effect (q : HeapQueue) (l : List (Nat × Pbuf)) (q' : HeapQueue) (joined : Option Nat) : Prop where
  length : q.heap.length ≤ q'.heap.length
  look : ∀ x, x < q.heap.length → x ∉ addrs l → q'.heap.get x = none ∨ q'.heap.look x = q.heap.look x
  links : ∀ x, x < q.heap.length → q'.heap.links x ≤ q.heap.links x + toward joined x
  new : ∀ x, q.heap.length ≤ x → q'.heap.links x ≤ 1
  head : ∀ c, q'.chain = some c → q'.heap.links c = 0 ∧
    (q.chain = some c ∨ 0 < q.heap.links c ∨ q.heap.length ≤ c ∨ joined = some c)

/-- The chain of a pbuf that is not yet pushed and the one of the queue have nothing in common. -/
theorem Roots.disjoint (hr : Roots q held) (hl : Chain q.heap q.chain l) (ha : Unoffered q held a)
    {lb : List (Nat × Pbuf)} (hlb : Chain q.heap (some a) lb) : ∀ x ∈ addrs l, x ∉ addrs lb := by
  intro x hx hxb
  cases hc : q.chain with
  | none =>
    rw [hc] at hl
    rw [chain_nil.1 hl] at hx
    cases hx
  | some c =>
    rw [hc] at hl
    have hca := Chain.meet hr.linear hl hlb (hr.head c hc) ha.links hx hxb
    exact ha.off (hca ▸ hc)

/-- The chain of an owner stays as it is, as long as its head is held. -/
theorem Roots.owner_kept (hr : Roots q held) (hl : Chain q.heap q.chain l) (he : Effect q l q' joined)
    (hc : Counted q'.heap own) (ha : Unoffered q held a) {lb : List (Nat × Pbuf)} (hlb : Chain q.heap (some a) lb)
    (hown : 0 < own a) : Chain q'.heap (some a) lb := by
  refine hc.chain_kept hlb (fun y hy => ?_) fun x hx => by cases hx; omega
  exact he.look y (hlb.lt hy) fun hm => hr.disjoint hl ha hlb y hm hy

theorem Roots.kept (hr : Roots q held) (hl : Chain q.heap q.chain l) (he : Effect q l q' joined)
    (hc : Counted q'.heap own) (hlt : ∀ d ∈ held, d.2 < q.heap.length) (hsub : held'.Sublist held)
    (hjoin : ∀ a, joined = some a → q.heap.links a = 0)
    (howner : ∀ a, (.owner, a) ∈ held' → 0 < own a ∧ joined ≠ some a)
    (hconsumer : ∀ a, (.consumer, a) ∈ held' → joined ≠ some a) : Roots q' held' := by
  -- no address that is held gains a link, unless it is the one that was pushed
  have hlinks : ∀ a, a < q.heap.length → joined ≠ some a → q.heap.links a = 0 → q'.heap.links a = 0 := by
    intro a ha hne hzero
    have := he.links a ha
    rw [toward, if_neg hne, hzero] at this
    omega
  -- nor does it become the head of the queue
  have hoff : ∀ a, a < q.heap.length → joined ≠ some a → q.heap.links a = 0 → q.chain ≠ some a → q'.chain ≠ some a := by
    intro a ha hne hzero hoff hnow
    rcases (he.head a hnow).2 with hold | hlinked | hnew | hjoined
    · exact hoff hold
    · omega
    · omega
    · exact hne hjoined
  refine ⟨fun x => ?_, fun a ha => (he.head a ha).1, hr.nodup.sublist hsub, fun a ha => ?_, fun a ha => ?_⟩
  · by_cases hx : x < q.heap.length
    · have := he.links x hx
      have hle := toward_le joined x
      have hlin := hr.linear x
      by_cases hjx : joined = some x
      · have := hjoin x hjx
        omega
      · rw [toward, if_neg hjx] at this
        omega
    · exact he.new x (by omega)
  · obtain ⟨hown, hne⟩ := howner a ha
    have hold := hr.owner a (hsub.subset ha)
    have hin := hlt _ (hsub.subset ha)
    obtain ⟨c, lb, hlb, hpb⟩ := hold.shape
    refine ⟨hlinks a hin hne hold.links, hoff a hin hne hold.links hold.off,
      fun h hh => hold.alone h (hsub.subset hh), c, lb, hr.owner_kept hl he hc hold hlb hown, hpb⟩
  · obtain ⟨hzero, hold⟩ := hr.consumer a (hsub.subset ha)
    have hin := hlt _ (hsub.subset ha)
    have hne := hconsumer a ha
    exact ⟨hlinks a hin hne hzero, hoff a hin hne hzero hold⟩

/-- One more reference from outside. -/
theorem Roots.cons {h : Holder} (hr : Roots q held) (hout : (h, a) ∉ held) (hother : h ≠ .owner → (.owner, a) ∉ held)
    (howner : h = .owner → Unoffered q ((h, a) :: held) a)
    (hconsumer : h = .consumer → q.heap.links a = 0 ∧ q.chain ≠ some a) : Roots q ((h, a) :: held) := by
  refine ⟨hr.linear, hr.head, List.nodup_cons.2 ⟨hout, hr.nodup⟩, fun b hb => ?_, fun b hb => ?_⟩
  · rcases List.mem_cons.1 hb with heq | hb
    · cases heq
      exact howner rfl
    · have hold := hr.owner b hb
      refine ⟨hold.links, hold.off, fun k hk => ?_, hold.shape⟩
      rcases List.mem_cons.1 hk with heq | hk
      · cases heq
        by_contra hne
        exact hother hne hb
      · exact hold.alone k hk
  · rcases List.mem_cons.1 hb with heq | hb
    · cases heq
      exact hconsumer rfl
    · exact hr.consumer b hb

/-! ## The effect of each operation -/

theorem effect_of_shrinks {h' : Heap Pbuf} (hr : Roots q held) (hs : Shrinks q.heap h') :
    Effect q l { q with heap := h' } none := by
  refine ⟨hs.length.ge, fun x _ _ => hs.look x, fun x _ => hs.links x, fun x _ => (hs.links x).trans (hr.linear x),
    fun c hc => ⟨?_, .inl hc⟩⟩
  have := hs.links c
  rw [hr.head c hc] at this
  exact Nat.le_zero.1 this

theorem effect_of_taken (hr : Roots q held) (ht : Taken q l q' l') : Effect q l q' none := by
  refine ⟨ht.length.ge, fun x _ hx => ht.look x fun d hd hxd => hx ?_, fun x _ => ht.links x,
    fun x _ => (ht.links x).trans (hr.linear x), fun c hc => ?_⟩
  · rw [hxd]
    exact List.mem_map_of_mem (List.mem_of_mem_head? hd)
  · rcases ht.head c hc with hold | hless
    · have := ht.links c
      rw [hr.head c hold] at this
      exact ⟨Nat.le_zero.1 this, .inl hold⟩
    · have := hr.linear c
      exact ⟨by omega, .inr (.inl (by omega))⟩

theorem effect_of_sent {own : Nat → Nat} (hr : Roots q held) (hl : Chain q.heap q.chain l) (hs : Sent q l q' own l') :
    Effect q l q' none := by
  refine ⟨hs.length, hs.look, hs.links, fun x hx => ?_, fun c hc => ?_⟩
  · rcases hs.frames x hx with hgone | ⟨-, hone, -⟩
    · rw [Counted.links_dead hs.owned hgone]
      exact Nat.zero_le 1
    · exact hone
  · rcases hs.head c hc with hold | ⟨hnew, hzero⟩
    · have hlt : c < q.heap.length := by
        rw [hold] at hl
        exact hl.lt hl.head_mem
      have := hs.links c hlt
      rw [hr.head c hold] at this
      exact ⟨Nat.le_zero.1 this, .inl hold⟩
    · exact ⟨hzero, .inr (.inr (.inl hnew))⟩

theorem effect_of_pushed {own : Nat → Nat} (hr : Roots q held) (hl : Chain q.heap q.chain l) (ha : Unoffered q held a)
    {lb : List (Nat × Pbuf)} (hlb : Chain q.heap (some a) lb) (hp : Pushed q own l a lb true q' l') :
    Effect q l q' (some a) := by
  have hlinks := hp.links
  refine ⟨hp.length.ge, fun x _ hx => .inr (hp.look x hx), fun x _ => ?_, fun x _ => ?_, fun c hc => ?_⟩
  · have := hlinks x
    split at this <;> omega
  · have hx := hlinks x
    have hlin := hr.linear x
    have hone := toward_le (some a) x
    by_cases hxa : x = a
    · have := ha.links
      rw [← hxa] at this
      split at hx <;> omega
    · rw [toward_ne hxa] at hx
      split at hx <;> omega
  · have haddrs := hp.addrs
    have hhead := hp.chain
    rw [hc] at hhead
    -- pushed on an empty queue the buffer is the new head, else it is linked by the last pbuf
    cases l with
    | nil =>
      have hca : c = a := by
        cases l' with
        | nil => cases hhead
        | cons d l' =>
          cases lb with
          | nil => cases hlb
          | cons e lb =>
            have hde : d.1 = e.1 := (List.cons.inj haddrs).1
            rw [Option.some.inj hhead.1, hde, ← Option.some.inj hlb.1]
      have := hlinks c
      rw [if_neg (fun hne => hne.2 rfl), hca, ha.links] at this
      exact ⟨hca ▸ this, .inr (.inr (.inr (congrArg some hca.symm)))⟩
    | cons d l =>
      have hcd : q.chain = some c := by
        cases l' with
        | nil => cases hhead
        | cons d' l' =>
          have hde : d'.1 = d.1 := (List.cons.inj haddrs).1
          rw [hl.1, Option.some.inj hhead.1, hde]
      have hca : c ≠ a := fun hca => ha.off (hca ▸ hcd)
      have := hlinks c
      rw [if_pos ⟨rfl, List.cons_ne_nil _ _⟩, toward_ne hca, hr.head c hcd] at this
      exact ⟨this, .inl hcd⟩

/-- A chain that is allocated is held by its head alone, behind everything that was there. -/
theorem allocChain_spec {h : Heap Pbuf} (hc : Counted h own) (c : List Pbuf) :
    ∃ h' p l, allocChain h c = (h', p) ∧ Chain h' p l ∧ pbufs l = c ∧ Counted h' (fun x => own x + toward p x) ∧
      h.length ≤ h'.length ∧ (∀ x, x < h.length → h'.look x = h.look x ∧ h'.links x = h.links x) ∧
      (∀ x, h.length ≤ x → h'.links x ≤ 1) ∧ (∀ a, p = some a → h'.links a = 0) ∧ ∀ x ∈ addrs l, h.length ≤ x := by
  induction c with
  | nil =>
    refine ⟨h, none, [], rfl, rfl, rfl, hc, le_rfl, fun _ _ => ⟨rfl, rfl⟩, fun x hx => ?_, nofun, nofun⟩
    rw [hc.links_dead (get_of_le hx)]
    exact Nat.zero_le 1
  | cons v c ih =>
    obtain ⟨h₁, p, l, hrun, hl, hv, hc₁, hlen, hold, hnew, hhead, hlate⟩ := ih
    have hp : ∀ x, p = some x → x < h₁.length := by
      rintro x rfl
      exact hl.lt hl.head_mem
    have hlook : ∀ y, y ≠ h₁.length → (h₁.alloc p v).look y = h₁.look y := fun y hy => by rw [look_alloc, if_neg hy]
    have hl' : Chain (h₁.alloc p v) p l := hl.congr fun y hy => hlook y (hl.lt hy).ne
    refine ⟨h₁.alloc p v, some h₁.length, (h₁.length, v) :: l, ?_, ⟨rfl, p, by rw [look_alloc, if_pos rfl], hl'⟩, ?_, ?_,
      ?_, fun x hx => ⟨?_, ?_⟩, fun x hx => ?_, fun a ha => ?_, fun x hx => ?_⟩
    · simp only [allocChain, hrun]
    · exact congrArg (v :: ·) hv
    · exact hc₁.alloc p v (fun x => Nat.add_right_comm _ _ _) ⟨l, hl⟩
    · rw [length_alloc]
      omega
    · rw [hlook x (by omega)]
      exact (hold x hx).1
    · have hne : p ≠ some x := fun hpx => by
        subst hpx
        have := hlate x hl.head_mem
        omega
      rw [links_alloc, (hold x hx).2, toward, if_neg hne, Nat.add_zero]
    · rw [links_alloc, toward]
      split
      · rename_i hpx
        rw [hhead x hpx]
      · exact hnew x hx
    · cases ha
      have hne : p ≠ some h₁.length := fun hpx => Nat.lt_irrefl _ (hp _ hpx)
      rw [links_alloc, hc₁.links_dead (get_of_le le_rfl), toward, if_neg hne]
    · rcases List.mem_cons.1 hx with rfl | hx
      · exact hlen
      · exact hlate x hx

/-! ## One operation -/

/-- The memory and the queue are in order, with `l` as the chain of the queue. -/
structure Sound (s : Counts) (l : List (Nat × Pbuf)) : Prop where
  chain : Chain s.queue.heap s.queue.chain l
  owned : s.queue.Owned (heldBy s.held)
  wf : (s.queue.view l).WF
  capacity : s.queue.capacity < 65536
  roots : Roots s.queue s.held

variable {s s' : Counts}

theorem init_sound (capacity : UInt16) : Sound (.init capacity) [] :=
  ⟨rfl, counted_nil, PBufQueue.init_wf _, UInt16.toNat_lt capacity,
    ⟨fun _ => Nat.zero_le 1, nofun, List.nodup_nil, nofun, nofun⟩⟩

theorem Sound.lt (h : Sound s l) : ∀ d ∈ s.held, d.2 < s.queue.heap.length := by
  intro d hd
  have hpos := heldBy_pos hd
  obtain ⟨o, ho, -⟩ := Counted.alive h.owned (x := d.2) (by omega)
  exact lt_of_get ho

theorem heldBy_eq (held : List (Holder × Nat)) (x : Nat) :
    heldBy held x = held.count (.owner, x) + held.count (.producer, x) + held.count (.consumer, x) := by
  induction held with
  | nil => rfl
  | cons d held ih =>
    obtain ⟨h, a⟩ := d
    rw [heldBy_cons, ih]
    by_cases hxa : a = x
    · subst hxa
      cases h <;> simp <;> omega
    · rw [toward_ne fun hx => hxa hx.symm]
      cases h <;> simp [hxa]

/-- Nobody holds more than one reference, so the count is far from its limit. -/
theorem Sound.refs_lt (h : Sound s l) (x : Nat) : s.queue.heap.refs x + 1 < 256 := by
  have hcount := List.nodup_iff_count_le_one.1 h.roots.nodup
  have howner := hcount (.owner, x)
  have hproducer := hcount (.producer, x)
  have hconsumer := hcount (.consumer, x)
  have hlin := h.roots.linear x
  have hhead := toward_le s.queue.chain x
  have := Counted.count h.owned x
  rw [heldBy_eq] at this
  omega

/-- `x` is in a chain that is not yet pushed. -/
def InOwned (s : Counts) (x : Nat) : Prop :=
  ∃ a lb, (Holder.owner, a) ∈ s.held ∧ Chain s.queue.heap (some a) lb ∧ x ∈ addrs lb

/-- What comes into the queue is new or was in the chain of an owner, and the chains of owners are new or were
there before. -/
structure Later (s : Counts) (l : List (Nat × Pbuf)) (s' : Counts) (l' : List (Nat × Pbuf)) : Prop where
  length : s.queue.heap.length ≤ s'.queue.heap.length
  queue : ∀ x ∈ addrs l', x ∈ addrs l ∨ s.queue.heap.length ≤ x ∨ InOwned s x
  owner : ∀ x, InOwned s' x → s.queue.heap.length ≤ x ∨ InOwned s x

/-- A step from a state in order to another one. -/
structure Passes (s : Counts) (l : List (Nat × Pbuf)) (s' : Counts) (l' : List (Nat × Pbuf)) : Prop where
  sound : Sound s' l'
  later : Later s l s' l'

theorem Passes.refl (h : Sound s l) : Passes s l s l := ⟨h, le_rfl, fun _ hx => .inl hx, fun _ hx => .inr hx⟩

theorem Sound.inOwned (h : Sound s l) (he : Effect s.queue l q' joined) (hc : Counted q'.heap own) {a x : Nat}
    {lb : List (Nat × Pbuf)} (ha : (.owner, a) ∈ s.held) (hown : 0 < own a) (hlb : Chain q'.heap (some a) lb)
    (hx : x ∈ addrs lb) : InOwned s x := by
  have hun := h.roots.owner a ha
  obtain ⟨-, lb', hlb', -⟩ := hun.shape
  have hkept := h.roots.owner_kept h.chain he hc hun hlb' hown
  exact ⟨a, lb', ha, hlb', hlb.unique hkept ▸ hx⟩

theorem Sound.later (h : Sound s l) (he : Effect s.queue l q' joined) (hc : Counted q'.heap own)
    (hheld : ∀ a, (.owner, a) ∈ held' → (.owner, a) ∈ s.held ∧ 0 < own a)
    (hqueue : ∀ x ∈ addrs l', x ∈ addrs l ∨ s.queue.heap.length ≤ x ∨ InOwned s x) : Later s l ⟨q', held'⟩ l' := by
  refine ⟨he.length, hqueue, ?_⟩
  rintro x ⟨a, lb, ha, hlb, hx⟩
  exact .inr (h.inOwned he hc (hheld a ha).1 (hheld a ha).2 hlb hx)

/-- An operation that adds no reference of an owner, a producer or a consumer, and pushes no chain. -/
theorem Sound.keep (h : Sound s l) (hl' : Chain q'.heap q'.chain l') (ho : q'.Owned (heldBy held'))
    (hwf : (q'.view l').WF) (hcap : q'.capacity = s.queue.capacity) (he : Effect s.queue l q' none)
    (hsub : held'.Sublist s.held) (hmem : ∀ x ∈ addrs l', x ∈ addrs l ∨ s.queue.heap.length ≤ x) :
    Passes s l ⟨q', held'⟩ l' := by
  have hpos : ∀ a, (.owner, a) ∈ held' → 0 < heldBy held' a + toward q'.chain a := fun a ha =>
    Nat.add_pos_left (heldBy_pos ha) _
  refine ⟨⟨hl', ho, hwf, hcap ▸ h.capacity, h.roots.kept h.chain he ho h.lt hsub nofun
    (fun a ha => ⟨hpos a ha, nofun⟩) fun _ _ => nofun⟩, h.later he ho (fun a ha => ⟨hsub.subset ha, hpos a ha⟩)
    fun x hx => ?_⟩
  rcases hmem x hx with hold | hnew
  · exact .inl hold
  · exact .inr (.inl hnew)

theorem alloc_sound (h : Sound s l) (c : PbufChain) :
    ∃ s' l', next s (.alloc c) = some s' ∧ Passes s l s' l' ∧ SameFront s.queue l s'.queue l' := by
  obtain ⟨h', p, lc, hrun, hlc, hpb, hc', hlen, hold, hnew, hhead, hlate⟩ := allocChain_spec h.owned c.pbufs
  obtain ⟨a, rfl⟩ : ∃ a, p = some a := by
    cases p with
    | none =>
      rw [chain_nil.1 hlc] at hpb
      exact absurd hpb.symm c.ne
    | some a => exact ⟨a, rfl⟩
  -- the addresses of the new chain lie behind all that were in use
  have hage := hlate a hlc.head_mem
  have hl' : Chain h' s.queue.chain l := h.chain.congr fun y hy => (hold y (h.chain.lt hy)).1
  have he : Effect s.queue l { s.queue with heap := h' } none := by
    refine ⟨hlen, fun x hx _ => .inr (hold x hx).1, fun x hx => (hold x hx).2.le, hnew, fun b hb => ⟨?_, .inl hb⟩⟩
    have hchain := h.chain
    rw [show s.queue.chain = some b from hb] at hchain
    show h'.links b = 0
    rw [(hold b (hchain.lt hchain.head_mem)).2]
    exact h.roots.head b hb
  have hown : ({ s.queue with heap := h' } : HeapQueue).Owned (heldBy ((.owner, a) :: s.held)) := by
    refine hc'.of_eq fun x => ?_
    rw [heldBy_cons]
    exact Nat.add_right_comm _ _ _
  have hroots := h.roots.kept h.chain he hown h.lt (List.Sublist.refl _) nofun
    (fun b hb => ⟨Nat.add_pos_left (heldBy_pos (List.mem_cons_of_mem _ hb)) _, nofun⟩) fun _ _ => nofun
  have hout : ∀ h, (h, a) ∉ s.held := fun k hk => by
    have := h.lt _ hk
    omega
  have hoff : s.queue.chain ≠ some a := fun hq => by
    have hchain := h.chain
    rw [hq] at hchain
    have := hchain.lt hchain.head_mem
    omega
  refine ⟨⟨{ s.queue with heap := h' }, (.owner, a) :: s.held⟩, l, by simp only [next, hrun]; rfl,
    ⟨⟨hl', hown, h.wf, h.capacity, hroots.cons (hout _) (fun hne => absurd rfl hne) (fun _ => ?_) nofun⟩,
      hlen, fun _ hx => .inl hx, ?_⟩, .of_eq rfl⟩
  · refine ⟨hhead a rfl, hoff, fun k hk => ?_, c, lc, hlc, hpb⟩
    rcases List.mem_cons.1 hk with heq | hmem
    · exact (Prod.mk.inj heq).1
    · exact absurd hmem (hout k)
  · rintro x ⟨b, lb, hb, hlb, hx⟩
    rcases List.mem_cons.1 hb with heq | hb
    · cases heq
      exact .inl (hlate x (hlc.unique hlb ▸ hx))
    · exact .inr (h.inOwned he hown hb (Nat.add_pos_left (heldBy_pos (List.mem_cons_of_mem _ hb)) _) hlb hx)

/-- A chain that the queue accepts has the queue and its producer to refer to it, one that it refuses its owner. -/
theorem push_sound (h : Sound s l) {a : Nat} (ha : (.owner, a) ∈ s.held) :
    ∃ s' l', next s (.push a) = some s' ∧ Passes s l s' l' ∧ SameFront s.queue l s'.queue l' := by
  have hun := h.roots.owner a ha
  obtain ⟨c, lb, hlb, hpb⟩ := hun.shape
  obtain ⟨r, q', l', hrun, hp⟩ := push_spec h.owned h.chain h.wf.tot (heldBy_pos ha) hlb
    (h.roots.disjoint h.chain hun hlb) (h.refs_lt a)
  cases r with
  | false =>
    obtain ⟨rfl, rfl⟩ := hp.refused rfl
    exact ⟨s, l', by simp only [next, hrun]; rfl, .refl h, .refl _ _⟩
  | true =>
    have hpush := hp.view
    rw [hpb] at hpush
    obtain ⟨hwf, -, hcap⟩ := PBufQueue.push_accepted h.wf c.tot c.pos c.bound h.capacity hpush
    have hmem := fun {d} => h.roots.nodup.mem_erase_iff (a := d) (b := (Holder.owner, a))
    -- the reference passes from the owner to the producer, the count stays
    have hheld : ∀ x, heldBy ((.producer, a) :: s.held.erase (.owner, a)) x = heldBy s.held x := fun x => by
      rw [heldBy_cons, heldBy_erase ha]
    have hown : q'.Owned (heldBy ((.producer, a) :: s.held.erase (.owner, a))) :=
      Counted.of_eq hp.owned fun x => by rw [hheld]
    have he := effect_of_pushed h.roots h.chain hun hlb hp
    have hpos : ∀ b, (.owner, b) ∈ s.held.erase (.owner, a) →
        0 < heldBy ((.producer, a) :: s.held.erase (.owner, a)) b + toward q'.chain b := fun b hb =>
      Nat.add_pos_left (heldBy_pos (List.mem_cons_of_mem _ hb)) _
    have hroots := h.roots.kept h.chain he hown h.lt List.erase_sublist
      (fun b hb => by cases hb; exact hun.links)
      (fun b hb => ⟨hpos b hb, fun hab => by
        cases hab
        exact (hmem.1 hb).1 rfl⟩)
      fun b hb hab => by
        cases hab
        exact nomatch hun.alone _ (hmem.1 hb).2
    refine ⟨⟨q', (.producer, a) :: s.held.erase (.owner, a)⟩, l', by simp only [next, hrun]; rfl,
      ⟨⟨hp.chain, hown, hwf, hcap.trans_lt h.capacity, hroots.cons (fun hin => ?_) (fun _ hin => (hmem.1 hin).1 rfl)
        nofun nofun⟩, h.later he hown (fun b hb => ?_) fun x hx => ?_⟩, hp.front⟩
    · exact nomatch hun.alone _ (hmem.1 hin).2
    · rcases List.mem_cons.1 hb with heq | hb
      · cases heq
      · exact ⟨(hmem.1 hb).2, hpos b hb⟩
    · rw [hp.addrs, if_pos rfl] at hx
      rcases List.mem_append.1 hx with hold | hpushed
      · exact .inl hold
      · exact .inr (.inr ⟨a, lb, ha, hlb, hpushed⟩)

theorem release_sound (h : Sound s l) {d : Holder × Nat} (hd : d ∈ s.held) :
    ∃ s', next s (.release d.1 d.2) = some s' ∧ Passes s l s' l ∧ s'.queue.offset = s.queue.offset := by
  obtain ⟨h', hfree, hc', hshr, -⟩ := pbufFree_spec (p := d.2) (u := fun x => heldBy (s.held.erase d) x + toward s.queue.chain x)
    h.owned (fun x => by rw [heldBy_erase hd]; exact Nat.add_right_comm _ _ _)
  have hchain : Chain h' s.queue.chain l :=
    hc'.chain_kept h.chain (fun y _ => hshr.look y) fun x hx => by rw [hx, toward_self]; omega
  exact ⟨⟨{ s.queue with heap := h' }, s.held.erase d⟩, by simp only [next, hfree]; rfl,
    h.keep hchain hc' h.wf rfl (effect_of_shrinks h.roots hshr) List.erase_sublist fun _ hx => .inl hx, rfl⟩

/-- A pbuf that is popped has passed from the queue to its consumer. -/
theorem pop_sound (h : Sound s l) : ∃ s' l', next s .pop = some s' ∧ Passes s l s' l' := by
  cases l with
  | nil =>
    have hpop : s.queue.pop = some (none, s.queue) := by rw [HeapQueue.pop, show s.queue.chain = none from h.chain]
    exact ⟨s, [], by simp only [next, hpop]; rfl, .refl h⟩
  | cons d l =>
    obtain ⟨a, v⟩ := d
    obtain ⟨q', hrun, ht, hv, hown, -, -, hlinks⟩ := pop_spec h.owned h.chain
    obtain ⟨o, hp, -⟩ := chain_cons h.chain
    have hwf : (q'.view l).WF := by
      have := PBufQueue.pop_wf h.wf
      rw [hv] at this
      exact this
    have hown' : q'.Owned (heldBy ((.consumer, a) :: s.held)) := Counted.of_eq hown fun x => by rw [heldBy_cons]
    have hcap : q'.capacity = s.queue.capacity :=
      congrArg (fun r => r.2.capacity) hv.symm
    have he := effect_of_taken h.roots ht
    have hpos : ∀ b, (.owner, b) ∈ s.held → 0 < heldBy ((.consumer, a) :: s.held) b + toward q'.chain b := fun b hb =>
      Nat.add_pos_left (heldBy_pos (List.mem_cons_of_mem _ hb)) _
    have hroots := h.roots.kept h.chain he hown' h.lt (List.Sublist.refl _) (fun _ h => by cases h)
      (fun b hb => ⟨hpos b hb, fun h => by cases h⟩) fun _ _ h => by cases h
    -- nothing linked to the head, and a pop adds no link
    have hzero : q'.heap.links a = 0 := by
      have := ht.links a
      rw [h.roots.head a hp] at this
      exact Nat.le_zero.1 this
    have hoff : q'.chain ≠ some a := fun hc => by
      have hold := h.roots.head a hp
      have := hlinks a
      rw [hc, toward_self] at this
      omega
    refine ⟨⟨q', (.consumer, a) :: s.held⟩, l, by simp only [next, hrun]; rfl, ⟨ht.chain, hown', hwf, hcap ▸ h.capacity,
      hroots.cons (fun hin => (h.roots.consumer a hin).2 hp) (fun _ hin => (h.roots.owner a hin).off hp)
        (fun h => by cases h) fun _ => ⟨hzero, hoff⟩⟩, h.later he hown' (fun b hb => ?_) fun x hx => .inl (ht.suffix.subset hx)⟩
    rcases List.mem_cons.1 hb with heq | hb
    · cases heq
    · exact ⟨hb, hpos b hb⟩

theorem getCblock_sound (h : Sound s l) (n : Nat) : ∃ blk, s.queue.getCblock n = some blk := by
  cases l with
  | nil =>
    refine ⟨{ pdata := none, len := 0, more := false, data := [] }, ?_⟩
    rw [HeapQueue.getCblock, show s.queue.chain = none from h.chain]
  | cons d l =>
    obtain ⟨blk, hblk, -⟩ := getCblock_spec h.chain n
    exact ⟨blk, hblk⟩

theorem move_sound (h : Sound s l) (n : Nat) :
    ∃ ok q' l', s.queue.move n = some (ok, q') ∧ Passes s l ⟨q', s.held⟩ l' := by
  cases l with
  | nil => exact ⟨false, s.queue, [], (move_empty h.chain n).1, .refl h⟩
  | cons d l =>
    rcases HeapQueue.move_spec h.owned h.chain n with ⟨hrun, -⟩ | ⟨q', l', hrun, hv, ht, hown⟩
    · exact ⟨false, s.queue, d :: l, hrun, .refl h⟩
    · obtain ⟨hwf, hcap⟩ := PBufQueue.move_wf h.wf hv
      exact ⟨true, q', l', hrun, h.keep ht.chain hown hwf hcap (effect_of_taken h.roots ht) (List.Sublist.refl _)
        fun x hx => .inl (ht.suffix.subset hx)⟩

theorem clear_sound (h : Sound s l) : ∃ s', next s .clear = some s' ∧ Passes s l s' [] := by
  obtain ⟨q', hrun, hv, hl', hown, hshr⟩ := clear_spec h.owned h.chain
  have hwf : (q'.view []).WF := hv ▸ PBufQueue.clear_wf h.wf
  have hcap : q'.capacity = s.queue.capacity := by
    have := PBufQueue.clear_capacity (s.queue.view l)
    rw [hv] at this
    exact this
  have he : Effect s.queue l q' none := by
    refine ⟨hshr.length.ge, fun x _ _ => hshr.look x, fun x _ => hshr.links x,
      fun x _ => (hshr.links x).trans (h.roots.linear x), fun c hc => ?_⟩
    rw [show q'.chain = none from hl'] at hc
    cases hc
  exact ⟨⟨q', s.held⟩, by simp only [next, hrun]; rfl, h.keep hl' hown hwf hcap he (List.Sublist.refl _) nofun⟩

theorem Sound.sent {q' : HeapQueue} (h : Sound s l) (hs : Sent s.queue l q' (heldBy held') l')
    (hsub : held'.Sublist s.held) : Passes s l ⟨q', held'⟩ l' :=
  h.keep hs.chain hs.owned hs.wf hs.capacity (effect_of_sent h.roots h.chain hs) hsub hs.mem

theorem write_sound (h : Sound s l) {d : Holder × Nat} (hd : d ∈ s.held) (a : Alloc) :
    ∃ w q' l', ppposslWrite s.queue a (some d.2) = some (w, q') ∧ Passes s l ⟨q', s.held.erase d⟩ l' ∧
      SameFront s.queue l q' l' ∧ q'.heap.refs d.2 = s.queue.heap.refs d.2 - 1 ∧
      ∀ f acc, w.frame = some (f, acc) → if acc then q'.heap.refs f = 1 ∧ f ∈ addrs l' else q'.heap.get f = none := by
  obtain ⟨w, q', l', hrun, hsent, hrefs, hframe⟩ := write_spec h.owned h.chain h.wf h.capacity (heldBy_erase hd) a
  exact ⟨w, q', l', hrun, h.sent hsent List.erase_sublist, hsent.front, hrefs, hframe⟩

theorem netifOutput_sound (h : Sound s l) {d : Holder × Nat} (hd : d ∈ s.held) (protocol : Nat) (a a' : Alloc) :
    ∃ w q' l', ppposslNetifOutput s.queue a a' d.2 protocol = some (w, q') ∧ Passes s l ⟨q', s.held⟩ l' ∧
      SameFront s.queue l q' l' ∧ ∀ x, x < s.queue.heap.length → q'.heap.refs x = s.queue.heap.refs x := by
  obtain ⟨w, q', l', hrun, hsent, hrefs⟩ := netifOutput_spec h.owned h.chain h.wf h.capacity (heldBy_pos hd)
    (h.refs_lt d.2) a a' protocol
  exact ⟨w, q', l', hrun, h.sent hsent (List.Sublist.refl _), hsent.front, hrefs⟩

theorem sendKa_sound (h : Sound s l) (opened : Bool) (id : UInt8) (magic : Bytes) (a a' a'' : Alloc) :
    ∃ r q' l', ppposslSendKa s.queue opened id magic a a' a'' = some (r, q') ∧ Passes s l ⟨q', s.held⟩ l' ∧
      SameFront s.queue l q' l' ∧ ∀ x, x < s.queue.heap.length → q'.heap.refs x = s.queue.heap.refs x := by
  obtain ⟨r, q', l', hrun, hsent, hrefs⟩ := sendKa_spec h.owned h.chain h.wf h.capacity opened id magic a a' a''
  exact ⟨r, q', l', hrun, h.sent hsent (List.Sublist.refl _), hsent.front, hrefs⟩

/-! ## Runs -/

/-- The operations that take bytes or pbufs from the queue. -/
def takes : Op → Bool
  | .pop | .move _ | .clear => true
  | _ => false

/-- One operation, whoever calls it. -/
theorem step_sound (h : Sound s l) (op : Op) :
    ∃ s' l', step s op = some s' ∧ Passes s l s' l' ∧ (takes op = false → SameFront s.queue l s'.queue l') := by
  by_cases hen : enabled s op = true
  case neg => exact ⟨s, l, if_neg hen, .refl h, fun _ => .refl _ _⟩
  rw [step, if_pos hen]
  cases op with
  | alloc c =>
    obtain ⟨s', l', hrun, hs, hf⟩ := alloc_sound h c
    exact ⟨s', l', hrun, hs, fun _ => hf⟩
  | push a =>
    obtain ⟨s', l', hrun, hs, hf⟩ := push_sound h (of_decide_eq_true hen)
    exact ⟨s', l', hrun, hs, fun _ => hf⟩
  | release k a =>
    obtain ⟨s', hrun, hs, hoff⟩ := release_sound h (d := (k, a)) (of_decide_eq_true hen)
    exact ⟨s', l, hrun, hs, fun _ => .of_eq hoff⟩
  | pop =>
    obtain ⟨s', l', hrun, hs⟩ := pop_sound h
    exact ⟨s', l', hrun, hs, nofun⟩
  | getCblock n =>
    obtain ⟨blk, hrun⟩ := getCblock_sound h n.toNat
    exact ⟨s, l, by rw [next, hrun]; rfl, .refl h, fun _ => .refl _ _⟩
  | getHead =>
    cases l with
    | nil => rw [enabled, HeapQueue.isEmpty, show s.queue.chain = none from h.chain] at hen; cases hen
    | cons d l =>
      obtain ⟨blk, hrun, -⟩ := getHead_spec h.chain
      exact ⟨s, d :: l, by rw [next, hrun]; rfl, .refl h, fun _ => .refl _ _⟩
  | move n =>
    obtain ⟨ok, q', l', hrun, hs⟩ := move_sound h n.toNat
    exact ⟨_, l', by simp only [next, hrun]; rfl, hs, nofun⟩
  | clear =>
    obtain ⟨s', hrun, hs⟩ := clear_sound h
    exact ⟨s', [], hrun, hs, nofun⟩
  | write k a al =>
    obtain ⟨w, q', l', hrun, hs, hf, -⟩ := write_sound h (d := (k, a)) (of_decide_eq_true hen) al
    exact ⟨_, l', by simp only [next, hrun]; rfl, hs, fun _ => hf⟩
  | netifOutput k a protocol al al' =>
    obtain ⟨w, q', l', hrun, hs, hf, -⟩ := netifOutput_sound h (d := (k, a)) (of_decide_eq_true hen) protocol.toNat al al'
    exact ⟨_, l', by simp only [next, hrun]; rfl, hs, fun _ => hf⟩
  | sendKa opened id magic al al' al'' =>
    obtain ⟨r, q', l', hrun, hs, hf, -⟩ := sendKa_sound h opened id magic al al' al''
    exact ⟨_, l', by simp only [next, hrun]; rfl, hs, fun _ => hf⟩

theorem exec_sound : ∀ (ops : List Op) {s : Counts} {l : List (Nat × Pbuf)}, Sound s l →
    ∃ s' l', exec step s ops = some s' ∧ Sound s' l'
  | [], s, l, h => ⟨s, l, rfl, h⟩
  | op :: ops, s, l, h => by
    obtain ⟨s₁, l₁, hstep, h₁, -⟩ := step_sound h op
    obtain ⟨s', l', hrun, h'⟩ := exec_sound ops h₁.sound
    exact ⟨s', l', by rw [exec, hstep]; exact hrun, h'⟩

/-! ## The counts of every state -/

/-- `x` is one of the pbufs of the queue. -/
def InQueue (q : HeapQueue) (x : Nat) : Prop := ∃ l, Chain q.heap q.chain l ∧ x ∈ addrs l

/-- The references that there are: those of the holders, of the queue and of the links, and no pbuf is left
that none of them leads to. -/
structure Exact (s : Counts) : Prop where
  count : ∀ x, s.queue.heap.refs x = heldBy s.held x + toward s.queue.chain x + s.queue.heap.links x
  queued : ∀ x, InQueue s.queue x → s.queue.heap.refs x = heldBy s.held x + 1
  reached : ∀ x o, s.queue.heap.get x = some o →
    ∃ y l, (s.queue.chain = some y ∨ ∃ h, (h, y) ∈ s.held) ∧ Chain s.queue.heap (some y) l ∧ x ∈ addrs l

/-- The queue drops the last reference to what nobody else holds: `move` at the end of a pbuf, `pbuf_free` after
`pop`, and `clear`. -/
structure Drops (s : Counts) : Prop where
  move : ∀ a n q', s.queue.chain = some a → heldBy s.held a = 0 → s.queue.move n = some (true, q') →
    q'.chain ≠ some a → q'.heap.get a = none
  pop : ∀ a q', s.queue.pop = some (some a, q') → heldBy s.held a = 0 →
    ∃ h, pbufFree q'.heap a = some h ∧ h.get a = none
  clear : (∀ x, InQueue s.queue x → heldBy s.held x = 0) →
    ∃ q', s.queue.clear = some q' ∧ ∀ x, InQueue s.queue x → q'.heap.get x = none

/-- What the transmit operations do to the counts: `pppossl_write` consumes one reference of its packet, its
frame has the reference of the queue or is freed, and the others leave every count. -/
structure Consumes (s : Counts) : Prop where
  write : ∀ h pbuf a, (h, pbuf) ∈ s.held → ∃ w q', ppposslWrite s.queue a (some pbuf) = some (w, q') ∧
    q'.heap.refs pbuf = s.queue.heap.refs pbuf - 1 ∧
    ∀ f acc, w.frame = some (f, acc) → if acc then InQueue q' f ∧ q'.heap.refs f = 1 else q'.heap.get f = none
  netifOutput : ∀ h pb protocol a a', (h, pb) ∈ s.held →
    ∃ w q', ppposslNetifOutput s.queue a a' pb protocol = some (w, q') ∧
      ∀ x, x < s.queue.heap.length → q'.heap.refs x = s.queue.heap.refs x
  sendKa : ∀ opened id magic a a' a'', ∃ w q', ppposslSendKa s.queue opened id magic a a' a'' = some (w, q') ∧
    ∀ x, x < s.queue.heap.length → q'.heap.refs x = s.queue.heap.refs x

theorem Sound.inQueue (h : Sound s l) {x : Nat} (hx : InQueue s.queue x) : x ∈ addrs l := by
  obtain ⟨l', hl', hx⟩ := hx
  rwa [h.chain.unique hl']

theorem Sound.exact (h : Sound s l) : Exact s := by
  refine ⟨h.owned.count, fun x hx => ?_, fun x o ho => ?_⟩
  · have hmem := h.inQueue hx
    have hcount := Counted.count h.owned x
    cases hc : s.queue.chain with
    | none =>
      have hchain := h.chain
      rw [hc] at hchain
      rw [chain_nil.1 hchain] at hmem
      cases hmem
    | some a =>
      have hchain := h.chain
      rw [hc] at hchain hcount
      have hlin := h.roots.linear x
      -- the queue refers to its head, a link to each of the others
      by_cases hxa : x = a
      · have := h.roots.head a hc
        rw [hxa, toward_self] at hcount
        rw [hxa]
        omega
      · have hlinked := (hchain.linked hmem).resolve_left hxa
        rw [toward_ne hxa] at hcount
        omega
  · obtain ⟨y, l', hown, hl', hx⟩ := h.owned.reached ho
    refine ⟨y, l', ?_, hl', hx⟩
    by_cases hc : s.queue.chain = some y
    · exact .inl hc
    · rw [toward, if_neg hc] at hown
      obtain ⟨d, hd, hdy⟩ := List.countP_pos_iff.1 (show 0 < List.countP _ s.held from hown)
      exact .inr ⟨d.1, by rwa [← beq_iff_eq.1 hdy]⟩

theorem Sound.drops (h : Sound s l) : Drops s := by
  refine ⟨fun a n q' hc hzero hmove hoff => ?_, fun a q' hpop hzero => ?_, fun hzero => ?_⟩
  · cases l with
    | nil =>
      rw [show s.queue.chain = none from h.chain] at hc
      cases hc
    | cons d l =>
      obtain ⟨a', v⟩ := d
      obtain rfl : a = a' := Option.some.inj (hc.symm.trans h.chain.1)
      rcases HeapQueue.move_spec h.owned h.chain n with ⟨hrun, -⟩ | ⟨q₁, l₁, hrun, -, ht, hown⟩
      · rw [hrun] at hmove
        cases hmove
      · rw [hrun] at hmove
        cases hmove
        -- what is left of the head would be reached without a link to it
        by_contra halive
        obtain ⟨o, ho⟩ := Option.ne_none_iff_exists'.1 halive
        obtain ⟨y, l₂, hpos, hl₂, hmem⟩ := hown.reached ho
        rcases hl₂.linked hmem with rfl | hlinked
        · rw [hzero, toward, if_neg hoff] at hpos
          cases hpos
        · have := ht.links a
          rw [h.roots.head a hc] at this
          omega
  · cases l with
    | nil =>
      rw [HeapQueue.pop, show s.queue.chain = none from h.chain] at hpop
      cases hpop
    | cons d l =>
      obtain ⟨a', v⟩ := d
      obtain ⟨q₁, hrun, -, -, hown, -, hrefs, -⟩ := pop_spec h.owned h.chain
      rw [hrun] at hpop
      cases hpop
      obtain ⟨h', hfree, -, -, -, hlast⟩ := pbufFree_spec (p := a) (u := fun x => heldBy s.held x + toward q'.chain x)
        hown fun x => Nat.add_right_comm _ _ _
      refine ⟨h', hfree, hlast ?_⟩
      rw [hrefs, h.exact.queued a ⟨_, h.chain, List.mem_cons_self ..⟩, hzero]
  · -- each pbuf of the chain has one reference, so the release runs to its end
    have hone : ∀ d ∈ l, s.queue.heap.refs d.1 = 1 := fun d hd => by
      have hin : InQueue s.queue d.1 := ⟨l, h.chain, List.mem_map_of_mem hd⟩
      rw [h.exact.queued _ hin, hzero _ hin]
    obtain ⟨h', hrun, hdead, -⟩ := release_chain h.chain hone h.chain.length_le
    cases hc : s.queue.chain with
    | none =>
      refine ⟨s.queue, by rw [HeapQueue.clear, hc], fun x hx => ?_⟩
      have hmem := h.inQueue hx
      have hchain := h.chain
      rw [hc] at hchain
      rw [chain_nil.1 hchain] at hmem
      cases hmem
    | some a =>
      rw [hc] at hrun
      refine ⟨{ s.queue with heap := h', chain := none, offset := 0 }, ?_, fun x hx => ?_⟩
      · simp only [HeapQueue.clear, hc, pbufFree, hrun, Option.bind_eq_bind, Option.bind_some]
      · obtain ⟨d, hd, rfl⟩ := List.mem_map.1 (h.inQueue hx)
        exact hdead d hd

theorem Sound.consumes (h : Sound s l) : Consumes s := by
  refine ⟨fun k pbuf a hd => ?_, fun k pb protocol a a' hd => ?_, fun opened id magic a a' a'' => ?_⟩
  · obtain ⟨w, q', l', hrun, hs, -, hrefs, hframe⟩ := write_sound h hd a
    refine ⟨w, q', hrun, hrefs, fun f acc hf => ?_⟩
    have hone := hframe f acc hf
    cases acc with
    | false => exact hone
    | true => exact ⟨⟨l', hs.sound.chain, hone.2⟩, hone.1⟩
  · obtain ⟨w, q', l', hrun, -, -, hrefs⟩ := netifOutput_sound h hd protocol a a'
    exact ⟨w, q', hrun, hrefs⟩
  · obtain ⟨r, q', l', hrun, -, -, hrefs⟩ := sendKa_sound h opened id magic a a' a''
    exact ⟨r, q', hrun, hrefs⟩

/-! ## What has left the queue -/

/-- `x` is not in the queue, and nothing that is still to be pushed has it. -/
structure Gone (s : Counts) (x : Nat) : Prop where
  lt : x < s.queue.heap.length
  queue : ¬ InQueue s.queue x
  owner : ¬ InOwned s x

theorem Passes.gone (h : Sound s l) (hp : Passes s l s' l') {x : Nat} (hg : Gone s x) : Gone s' x := by
  have hlt := hg.lt
  refine ⟨by have := hp.later.length; omega, fun hin => ?_, fun hin => ?_⟩
  · rcases hp.later.queue x (hp.sound.inQueue hin) with hold | hnew | howned
    · exact hg.queue ⟨l, h.chain, hold⟩
    · omega
    · exact hg.owner howned
  · rcases hp.later.owner x hin with hnew | howned
    · omega
    · exact hg.owner howned

/-- The chains of owners have no pbuf of the queue, so what leaves the queue is gone. -/
theorem Passes.left (h : Sound s l) (hp : Passes s l s' l') {x : Nat} (hin : InQueue s.queue x)
    (hout : ¬ InQueue s'.queue x) : Gone s' x := by
  have hmem := h.inQueue hin
  have hlt := h.chain.lt hmem
  refine ⟨by have := hp.later.length; omega, hout, fun howned => ?_⟩
  rcases hp.later.owner x howned with hnew | ⟨a, lb, ha, hlb, hx⟩
  · omega
  · exact h.roots.disjoint h.chain (h.roots.owner a ha) hlb x hmem hx

/-- A pbuf that has left the queue in one step is in the queue in no later state. -/
theorem steps_left (ops : List Op) {s : Counts} {l : List (Nat × Pbuf)} (h : Sound s l) (x : Nat) :
    (steps step s ops).Pairwise fun st st' => InQueue st.1.queue x → ¬ InQueue st.2.2.queue x →
      ¬ InQueue st'.1.queue x ∧ ¬ InQueue st'.2.2.queue x := by
  induction ops generalizing s l with
  | nil => exact .nil
  | cons op ops ih =>
    obtain ⟨t, lt, hstep, hp, -⟩ := step_sound h op
    unfold steps
    rw [hstep]
    refine List.pairwise_cons.2 ⟨fun st hst hin hout => ?_, ih hp.sound⟩
    -- gone is an invariant of what follows
    have hgone := steps_inv_of_meets (I := fun s => (∃ l, Sound s l) ∧ Gone s x) (C := fun _ _ => True)
      (by
        rintro s op t ⟨⟨l, hs⟩, hg⟩ - ht
        obtain ⟨s', l', hrun, hp', -⟩ := step_sound hs op
        rw [hrun] at ht
        cases ht
        exact ⟨⟨l', hp'.sound⟩, hp'.gone hs hg⟩)
      ⟨⟨lt, hp.sound⟩, hp.left h hin hout⟩ (fun _ _ => trivial) st hst
    exact ⟨hgone.1.2.queue, hgone.2.2.2.2.queue⟩

/-- In every run no operation uses a pbuf that is freed or fails an assertion; in every state the counts are
exact, the queue drops what nobody else holds, and the transmit operations keep to their contract; and a pbuf
leaves the queue at most once. -/
theorem counts_exact (capacity : UInt16) (ops : List Op) :
    (∃ s, exec step (.init capacity) ops = some s ∧ Exact s ∧ Drops s ∧ Consumes s) ∧
      ∀ x, (steps step (.init capacity) ops).Pairwise fun st st' => InQueue st.1.queue x → ¬ InQueue st.2.2.queue x →
        ¬ InQueue st'.1.queue x ∧ ¬ InQueue st'.2.2.queue x := by
  constructor
  · obtain ⟨s, l, hrun, h⟩ := exec_sound ops (init_sound capacity)
    exact ⟨s, hrun, h.exact, h.drops, h.consumes⟩
  · exact steps_left ops (init_sound capacity)

end FortiRdp.Net.Mem
