/-
The transmit path of `pppossl.c` on pbufs in memory: who holds a reference to the packet, to its frame and to
the header in front of it. The output callback is `ppp_output_cb`, which pushes the frame on the output queue.
-/
import FortiRdp.Net.PPInterface
import FortiRdp.Util.HeapQueue

namespace FortiRdp.Net.Mem

open FortiRdp.Lwip FortiRdp.Lwip.Mem FortiRdp.Util FortiRdp.Util.HeapQueue FortiRdp.Run FortiRdp.Run.Heap

/-- `ppp_output_cb`: the total of the frame when the queue takes it. -/
def pppOutputCb (q : HeapQueue) (pbuf : Nat) : Option (Nat × HeapQueue) := do
  let (ok, q) ← q.push (some pbuf)
  if ok then do
    let o ← q.heap.get pbuf
    some (o.val.totLen, q)
  else some (0, q)

/-- What `pppossl_write` answers, with the frame it has built and whether the queue has taken it. -/
structure Written where
  err : Err
  frame : Option (Nat × Bool)
  deriving DecidableEq, Repr

/-- `pppossl_write` up to its last `pbuf_free(pbuf)`, which every path reaches. -/
def writeFrame (q : HeapQueue) (a : Alloc) (b : Nat) : Option (Written × HeapQueue) := do
  let ob ← q.heap.get b
  if 0 < ob.val.totLen then do
    let packet ← q.heap.values q.heap.length (some b)
    match pppFrame a packet with
    | none => some (⟨.errMem, none⟩, q)
    | some frame => do
      let nf := q.heap.length
      let (lp, q) ← pppOutputCb { q with heap := q.heap.alloc none frame } nf
      let heap ← pbufFree q.heap nf
      let ob ← heap.get b
      let err := if lp ≠ ob.val.totLen + sizeofPppHeader then Err.errIf else Err.errOk
      some (⟨err, some (nf, decide (0 < lp))⟩, { q with heap })
  else some (⟨.errOk, none⟩, q)

/-- `pppossl_write`. -/
def ppposslWrite (q : HeapQueue) (a : Alloc) (pbuf : Option Nat) : Option (Written × HeapQueue) :=
  match pbuf with
  | none => some (⟨.errBuf, none⟩, q)
  | some b => do
    let (w, q) ← writeFrame q a b
    let heap ← pbufFree q.heap b
    some (w, { q with heap })

/-- `pppossl_netif_output`, with the two answers of the allocator. -/
def ppposslNetifOutput (q : HeapQueue) (a a' : Alloc) (pb : Nat) (protocol : Nat) : Option (Written × HeapQueue) :=
  match pbufAlloc a 4 with
  | none => some (⟨.errMem, none⟩, q)
  | some nb => do
    let header : Bytes := [0xFF, 0x03, hi8 protocol, lo8 protocol]
    let n := q.heap.length
    let heap ← pbufChain (q.heap.alloc none { nb with payload := overwrite nb.payload 0 header }) n pb
    ppposslWrite { q with heap } a' (some n)

/-- `ppossl_send_ka`, in the state of the link and with the three answers of the allocator. -/
def ppposslSendKa (q : HeapQueue) (opened : Bool) (id : UInt8) (magic : Bytes) (a a' a'' : Alloc) :
    Option (Option Written × HeapQueue) :=
  if opened = false then some (none, q)
  else
    match pbufAlloc a 8 with
    | none => some (none, q)
    | some pbuf => do
      let request : Bytes := [11, id + 1, 0, 8] ++ magic.take 4
      let n := q.heap.length
      let heap := q.heap.alloc none { pbuf with payload := overwrite pbuf.payload 0 request }
      let (w, q) ← ppposslNetifOutput { q with heap } a' a'' n 0xC021
      let heap ← pbufFree q.heap n
      some (some w, { q with heap })

variable {q : HeapQueue} {held held' : Nat → Nat} {l lb : List (Nat × Pbuf)} {a : Alloc} {b : Nat}

/-- What is left of the memory and the queue when the packet is about to be freed: the old pbufs are as they
were, but for the links and totals of the queue, and the frame has the reference of the queue or is gone. -/
structure FrameSent (q : HeapQueue) (held : Nat → Nat) (l : List (Nat × Pbuf)) (w : Written) (q₁ : HeapQueue)
    (l₁ : List (Nat × Pbuf)) : Prop where
  chain : Chain q₁.heap q₁.chain l₁
  owned : q₁.Owned held
  wf : (q₁.view l₁).WF
  capacity : q₁.capacity = q.capacity
  look : ∀ x, x < q.heap.length → x ∉ addrs l → q₁.heap.look x = q.heap.look x
  refs : ∀ x, x < q.heap.length → q₁.heap.refs x = q.heap.refs x
  links : ∀ x, x < q.heap.length → q₁.heap.links x = q.heap.links x
  front : SameFront q l q₁ l₁
  noFrame : w.frame = none → q₁ = q ∧ l₁ = l
  newFrame : ∀ f acc, w.frame = some (f, acc) → f = q.heap.length ∧ q₁.heap.length = q.heap.length + 1 ∧
    if acc then q₁.heap.refs f = 1 ∧ addrs l₁ = addrs l ++ [f] ∧ q₁.heap.links f = if l = [] then 0 else 1
    else q₁.heap.get f = none ∧ addrs l₁ = addrs l ∧ q₁.heap.links f = 0

/-- A pbuf that is just allocated is in no chain, and the caller holds it. -/
theorem alloc_single (ho : q.Owned held) (hl : Chain q.heap q.chain l) (v : Pbuf) :
    HeapQueue.Owned { q with heap := q.heap.alloc none v } (fun x => held x + toward (some q.heap.length) x) ∧
      Chain (q.heap.alloc none v) q.chain l ∧ Chain (q.heap.alloc none v) (some q.heap.length) [(q.heap.length, v)] ∧
      q.heap.length ∉ addrs l := by
  have hout : q.heap.length ∉ addrs l := fun hm => Nat.lt_irrefl _ (hl.lt hm)
  refine ⟨ho.alloc none v (fun x => ?_) ⟨[], rfl⟩, hl.congr fun y hy => ?_, ?_, hout⟩
  · show held x + toward (some q.heap.length) x + toward q.chain x + 0 = _
    omega
  · have := hl.lt hy
    rw [look_alloc, if_neg (by omega)]
  · exact ⟨rfl, none, by rw [look_alloc, if_pos rfl], rfl⟩

/-- A frame that the queue takes has bytes. -/
theorem pos_of_push {q q' : PBufQueue} {c : List Pbuf} (h : q.push c = (true, q')) : 0 < totLen c := by
  unfold PBufQueue.push at h
  split at h
  · rename_i hbuf
    exact hbuf.2.1
  · cases h

theorem writeFrame_spec (ho : q.Owned held) (hl : Chain q.heap q.chain l) (hwf : (q.view l).WF)
    (hcap : q.capacity < 65536) (hb : 0 < held b) (a : Alloc) :
    ∃ w q₁ l₁, writeFrame q a b = some (w, q₁) ∧ FrameSent q held l w q₁ l₁ := by
  obtain ⟨lb, hlb⟩ := ho.chain (x := b) (by omega)
  obtain ⟨ob, hob, -⟩ := ho.alive (x := b) (by omega)
  have hstay : ∀ err, FrameSent q held l ⟨err, none⟩ q l := fun err =>
    ⟨hl, ho, hwf, rfl, fun _ _ _ => rfl, fun _ _ => rfl, fun _ _ => rfl, .refl q l, fun _ => ⟨rfl, rfl⟩,
      fun f acc hf => by cases hf⟩
  simp only [writeFrame, hob, hlb.values hlb.length_le, Option.bind_eq_bind, Option.bind_some]
  by_cases htot : 0 < ob.val.totLen
  · rw [if_pos htot]
    cases hframe : pppFrame a (lb.map Prod.snd) with
    | none => exact ⟨_, q, l, rfl, hstay .errMem⟩
    | some frame =>
      obtain ⟨hok, hlen⟩ := pppFrame_wf hframe
      obtain ⟨ho₀, hl₀, hlf, hout⟩ := alloc_single ho hl frame
      have hnew : q.heap.links q.heap.length = 0 := Counted.links_dead ho (get_of_le le_rfl)
      have hrefs₀ : (q.heap.alloc none frame).refs q.heap.length = 1 := by rw [refs_alloc, if_pos rfl]
      have hlook₀ : (q.heap.alloc none frame).look q.heap.length = some (none, frame) := by rw [look_alloc, if_pos rfl]
      obtain ⟨r, q₂, l₂, hpush, hpushed⟩ := HeapQueue.push_spec (b := q.heap.length) ho₀ hl₀ hwf.tot
        (by rw [toward_self]; omega) hlf (fun x hx hxn => hout ((List.mem_singleton.1 hxn : x = q.heap.length) ▸ hx))
        (by rw [hrefs₀]; decide)
      simp only [pppOutputCb, hpush, Option.bind_eq_bind, Option.bind_some]
      cases r with
      | false =>
        -- refused: the only reference to the frame is given up
        obtain ⟨rfl, rfl⟩ := hpushed.refused rfl
        have hget₀ : (q.heap.alloc none frame).get q.heap.length = some ⟨none, 1, frame⟩ := by rw [get_alloc, if_pos rfl]
        have hlt := lt_of_get hget₀
        have hfree := pbufFree_single hget₀ rfl rfl
        have hlook : ∀ x, x < q.heap.length → look ((q.heap.alloc none frame).set q.heap.length none) x = q.heap.look x :=
          fun x hx => by rw [look_set hlt, if_neg (by omega), look_alloc, if_neg (by omega)]
        have hlinks : ∀ x, links ((q.heap.alloc none frame).set q.heap.length none) x = q.heap.links x := by
          intro x
          have := links_set hlt none x
          rw [hget₀, links_alloc] at this
          exact this
        obtain ⟨ob', hob', -⟩ := get_of_look ((hlook b (lt_of_get hob)).trans (look_of_get hob))
        simp only [Bool.false_eq_true, if_false, Option.bind_some, hfree, hob']
        refine ⟨_, _, l₂, rfl, hl.congr fun y hy => hlook y (hl.lt hy), ?_, hwf, rfl, fun x hx _ => hlook x hx,
          fun x hx => ?_, fun x _ => hlinks x, .of_eq rfl, (fun h => by cases h), ?_⟩
        · exact (ho₀.free (u := fun x => held x + toward q.chain x) hget₀ rfl fun x => Nat.add_right_comm _ _ _).of_eq
            fun x => rfl
        · show refs ((q.heap.alloc none frame).set q.heap.length none) x = _
          rw [refs_set hlt, if_neg (by omega), refs_alloc, if_neg (by omega)]
        · rintro f acc hf
          cases hf
          refine ⟨rfl, by simp, ?_⟩
          simp only [Nat.lt_irrefl, decide_false, Bool.false_eq_true, if_false, hlinks, hnew, and_true]
          rw [get_set hlt, if_pos rfl]
      | true =>
        -- taken: of the two references to the frame the one of the queue is left
        have hpos : 0 < frame.totLen := pos_of_push hpushed.view
        have hflen : frame.totLen = frame.len := hok.1
        obtain ⟨hwf₂, -, hcap₂⟩ := PBufQueue.push_accepted hwf hok
          (fun p hp => by rw [List.mem_singleton.1 hp, ← hflen]; exact hpos)
          (by simpa [content, Pbuf.len] using hlen) hcap hpushed.view
        obtain ⟨of, hof, -, hval⟩ := get_of_look ((hpushed.look _ hout).trans hlook₀)
        have hrefs₂ : q₂.heap.refs q.heap.length = 2 := by rw [hpushed.refs, if_pos rfl, toward_self, hrefs₀]
        obtain ⟨h', hfree, hc', -, hkeep, -⟩ := pbufFree_spec (p := q.heap.length) hpushed.owned
          (u := fun x => held x + toward q₂.chain x) (fun x => Nat.add_right_comm _ _ _)
        obtain ⟨hsame, hrefs'⟩ := hkeep (by rw [hrefs₂]; decide)
        obtain ⟨ob', hob', -⟩ := hc'.alive (x := b) (by omega)
        simp only [if_true, hof, hval, Option.bind_some, hfree, hob']
        refine ⟨_, _, l₂, rfl, hpushed.chain.congr fun y _ => hsame.look y, hc', hwf₂, hcap₂, fun x hx hxl => ?_,
          fun x hx => ?_, fun x hx => ?_, hpushed.front, (fun h => by cases h), ?_⟩
        · show h'.look x = _
          rw [hsame.look, hpushed.look x hxl, look_alloc, if_neg (by omega)]
        · have := hrefs' x
          rw [hpushed.refs, if_pos rfl, toward_ne (by omega), refs_alloc, if_neg (by omega)] at this
          exact this
        · show h'.links x = _
          rw [hsame.links, hpushed.links, links_alloc, toward_none, toward_ne (by omega)]
          simp
        · rintro f acc hf
          cases hf
          have hone := hrefs' q.heap.length
          rw [toward_self, hrefs₂] at hone
          have hlinks : h'.links q.heap.length = if l = [] then 0 else 1 := by
            rw [hsame.links, hpushed.links, links_alloc, hnew, toward_none, toward_self]
            by_cases hnil : l = [] <;> simp [hnil]
          refine ⟨rfl, ?_, ?_⟩
          · rw [hsame.length, hpushed.length, length_alloc]
          · simp only [hpos, decide_true, if_true]
            exact ⟨by omega, by rw [hpushed.addrs, if_pos rfl]; rfl, hlinks⟩
  · rw [if_neg htot]
    exact ⟨_, q, l, rfl, hstay .errOk⟩

/-- A new pbuf that is still there after an operation is a frame, and the queue has the reference to it. -/
def OnlyFrames (q q' : HeapQueue) (l' : List (Nat × Pbuf)) : Prop :=
  ∀ x, q.heap.length ≤ x → q'.heap.get x = none ∨ (q'.heap.refs x = 1 ∧ q'.heap.links x ≤ 1 ∧ x ∈ addrs l')

/-- The head of the queue is the old one, or a new pbuf that nothing links to. -/
def HeadKept (q q' : HeapQueue) : Prop :=
  ∀ c, q'.chain = some c → q.chain = some c ∨ (q.heap.length ≤ c ∧ q'.heap.links c = 0)

theorem FrameSent.onlyFrames {w : Written} {q₁ : HeapQueue} {l₁ : List (Nat × Pbuf)} (h : FrameSent q held l w q₁ l₁) :
    OnlyFrames q q₁ l₁ := by
  intro x hx
  cases hw : w.frame with
  | none =>
    obtain ⟨rfl, -⟩ := h.noFrame hw
    exact .inl (get_of_le hx)
  | some d =>
    obtain ⟨f, acc⟩ := d
    obtain ⟨rfl, hlen, hacc⟩ := h.newFrame f acc hw
    by_cases hxf : x = q.heap.length
    · subst hxf
      cases acc with
      | false => exact .inl hacc.1
      | true =>
        obtain ⟨href, haddrs, hlinks⟩ := hacc
        refine .inr ⟨href, ?_, ?_⟩
        · rw [hlinks]; split <;> omega
        · rw [haddrs]; exact List.mem_append_right _ (List.mem_singleton.2 rfl)
    · exact .inl (get_of_le (by omega))

theorem FrameSent.headKept {w : Written} {q₁ : HeapQueue} {l₁ : List (Nat × Pbuf)} (h : FrameSent q held l w q₁ l₁)
    (hl : Chain q.heap q.chain l) : HeadKept q q₁ := by
  intro c hc
  cases hw : w.frame with
  | none =>
    obtain ⟨rfl, -⟩ := h.noFrame hw
    exact .inl hc
  | some d =>
    obtain ⟨f, acc⟩ := d
    obtain ⟨rfl, -, hacc⟩ := h.newFrame f acc hw
    have hchain := h.chain
    cases l with
    | nil =>
      -- only a frame pushed on the empty queue is a new head
      cases acc with
      | false =>
        rw [List.map_eq_nil_iff.1 hacc.2.1] at hchain
        rw [show q₁.chain = none from hchain] at hc
        cases hc
      | true =>
        obtain ⟨-, haddrs, hlinks⟩ := hacc
        cases l₁ with
        | nil => cases haddrs
        | cons d l₁ =>
          obtain ⟨hd, -⟩ := hchain
          rw [hd] at hc
          cases hc
          rw [(List.cons.inj haddrs).1, hlinks]
          exact .inr ⟨le_rfl, if_pos rfl⟩
    | cons d l =>
      have hhead : (addrs l₁).head? = some d.1 := by
        cases acc with
        | false => rw [hacc.2.1]; rfl
        | true => rw [hacc.2.1]; rfl
      cases l₁ with
      | nil => cases hhead
      | cons d₁ l₁ =>
        obtain ⟨hd, -⟩ := hchain
        obtain ⟨hd', -⟩ := hl
        rw [hd] at hc
        rw [hd', ← hhead]
        exact .inl hc

theorem FrameSent.mem {w : Written} {q₁ : HeapQueue} {l₁ : List (Nat × Pbuf)} (h : FrameSent q held l w q₁ l₁) {x : Nat}
    (hx : x ∈ addrs l₁) : x ∈ addrs l ∨ q.heap.length ≤ x := by
  cases hw : w.frame with
  | none => exact .inl ((h.noFrame hw).2 ▸ hx)
  | some d =>
    obtain ⟨f, acc⟩ := d
    obtain ⟨rfl, -, hacc⟩ := h.newFrame f acc hw
    cases acc with
    | false => exact .inl (hacc.2.1 ▸ hx)
    | true =>
      rw [hacc.2.1] at hx
      rcases List.mem_append.1 hx with hold | hnew
      · exact .inl hold
      · exact .inr (List.mem_singleton.1 hnew).ge

/-- What a transmit operation leaves of the memory and the queue. -/
structure Sent (q : HeapQueue) (l : List (Nat × Pbuf)) (q' : HeapQueue) (held' : Nat → Nat)
    (l' : List (Nat × Pbuf)) : Prop where
  chain : Chain q'.heap q'.chain l'
  owned : q'.Owned held'
  wf : (q'.view l').WF
  capacity : q'.capacity = q.capacity
  length : q.heap.length ≤ q'.heap.length
  look : ∀ x, x < q.heap.length → x ∉ addrs l → q'.heap.get x = none ∨ q'.heap.look x = q.heap.look x
  links : ∀ x, x < q.heap.length → q'.heap.links x ≤ q.heap.links x
  frames : OnlyFrames q q' l'
  mem : ∀ x ∈ addrs l', x ∈ addrs l ∨ q.heap.length ≤ x
  head : HeadKept q q'
  front : SameFront q l q' l'

theorem FrameSent.length {w : Written} {q₁ : HeapQueue} {l₁ : List (Nat × Pbuf)} (h : FrameSent q held l w q₁ l₁) :
    q.heap.length ≤ q₁.heap.length := by
  cases hw : w.frame with
  | none => rw [(h.noFrame hw).1]
  | some d =>
    have := (h.newFrame d.1 d.2 hw).2.1
    omega

/-- `pppossl_write` gives up one reference to its packet on every path. The frame that the queue has taken has
the reference of the queue and no other, and one that it has refused is freed. -/
theorem write_spec (ho : q.Owned held) (hl : Chain q.heap q.chain l) (hwf : (q.view l).WF) (hcap : q.capacity < 65536)
    (hown : ∀ x, held x = held' x + toward (some b) x) (a : Alloc) :
    ∃ w q' l', ppposslWrite q a (some b) = some (w, q') ∧ Sent q l q' held' l' ∧
      q'.heap.refs b = q.heap.refs b - 1 ∧
      ∀ f acc, w.frame = some (f, acc) → if acc then q'.heap.refs f = 1 ∧ f ∈ addrs l' else q'.heap.get f = none := by
  have hb : 0 < held b := by rw [hown, toward_self]; omega
  obtain ⟨w, q₁, l₁, hrun, hsent⟩ := writeFrame_spec ho hl hwf hcap hb a
  obtain ⟨h', hfree, hc', hshr, hmore, hlast⟩ := pbufFree_spec (p := b) hsent.owned
    (u := fun x => held' x + toward q₁.chain x) (fun x => by rw [hown]; exact Nat.add_right_comm _ _ _)
  obtain ⟨ob, hob, -⟩ := ho.alive (x := b) (by omega)
  have hblt := lt_of_get hob
  have hchain : Chain h' q₁.chain l₁ := hc'.chain_kept hsent.chain (fun y _ => hshr.look y)
    fun x hx => by rw [hx, toward_self]; omega
  -- a frame has no other reference than the one of the queue, so its count cannot have changed
  have hframe : ∀ x, q.heap.length ≤ x → h'.get x = none ∨ (h'.refs x = 1 ∧ h'.links x ≤ 1 ∧ x ∈ addrs l₁) := by
    intro x hx
    rcases hsent.onlyFrames x hx with hgone | ⟨href, hlinks, hmem⟩
    · exact .inl (hshr.gone hgone)
    · obtain ⟨d, hd, rfl⟩ := List.mem_map.1 hmem
      obtain ⟨n, hlook⟩ := hchain.look hd
      obtain ⟨o, ho', -⟩ := get_of_look hlook
      have hpos := hc'.pos _ o ho'
      have hcount := hc'.count d.1
      have hcount₁ := hsent.owned.count d.1
      have hle := hshr.links d.1
      have := hown d.1
      rw [refs_of_get ho'] at hcount
      refine .inr ⟨?_, hle.trans hlinks, hmem⟩
      rw [refs_of_get ho']
      omega
  refine ⟨w, { q₁ with heap := h' }, l₁, ?_, ⟨hchain, hc', hsent.wf, hsent.capacity, ?_, fun x hx hxl => ?_,
    fun x hx => ?_, hframe, fun x hx => hsent.mem hx, fun c hc => ?_, hsent.front⟩, ?_, fun f acc hf => ?_⟩
  · simp only [ppposslWrite, hrun, hfree, Option.bind_eq_bind, Option.bind_some]
  · show _ ≤ h'.length
    rw [hshr.length]
    exact hsent.length
  · rw [← hsent.look x hx hxl]
    exact hshr.look x
  · rw [← hsent.links x hx]
    exact hshr.links x
  · rcases hsent.headKept hl c hc with hold | ⟨hnew, hzero⟩
    · exact .inl hold
    · exact .inr ⟨hnew, Nat.le_zero.1 (hzero ▸ hshr.links c)⟩
  · have hrefs := hsent.refs b hblt
    have hpos : 0 < q.heap.refs b := by have := ho.pos b ob hob; rwa [refs_of_get hob]
    show h'.refs b = _
    by_cases hone : q.heap.refs b = 1
    · rw [refs, hlast (hrefs.trans hone), hone]
      rfl
    · have := (hmore (by omega)).2 b
      rw [toward_self] at this
      omega
  · obtain ⟨rfl, hlen, hacc⟩ := hsent.newFrame f acc hf
    cases acc with
    | false =>
      exact hshr.gone hacc.1
    | true =>
      have hmem : q.heap.length ∈ addrs l₁ := by
        rw [hacc.2.1]
        exact List.mem_append_right _ (List.mem_singleton.2 rfl)
      rcases hframe _ le_rfl with hgone | ⟨href, -⟩
      · obtain ⟨d, hd, hdx⟩ := List.mem_map.1 hmem
        obtain ⟨n, hlook⟩ := hchain.look hd
        rw [hdx, Heap.look, hgone] at hlook
        cases hlook
      · exact ⟨href, hmem⟩

/-- An operation that allocates nothing and frees nothing of what was there. -/
theorem Sent.refl (ho : q.Owned held) (hl : Chain q.heap q.chain l) (hwf : (q.view l).WF) : Sent q l q held l :=
  ⟨hl, ho, hwf, rfl, le_rfl, fun _ _ _ => .inr rfl, fun _ _ => le_rfl, fun _ hx => .inl (get_of_le hx),
    fun _ hx => .inl hx, fun _ hc => .inl hc, .refl q l⟩

/-- The length of `pbuf_alloc`, for a length that is small. -/
theorem pbufAlloc_len {a : Alloc} {n : Nat} {p : Pbuf} (h : pbufAlloc a n = some p) (hn : n < 65536) (d : Bytes) :
    TotOk [{ p with payload := overwrite p.payload 0 d }] := by
  obtain ⟨junk, -, rfl⟩ := Option.map_eq_some_iff.1 h
  simp [TotOk, Pbuf.len, Nat.mod_eq_of_lt hn]

/-- The memory with a header `v` in front of the packet `b`, which has one reference more for it. -/
structure InFront (q : HeapQueue) (held : Nat → Nat) (l : List (Nat × Pbuf)) (b : Nat) (h₁ : Heap Pbuf) : Prop where
  length : h₁.length = q.heap.length + 1
  owned : HeapQueue.Owned { q with heap := h₁ } fun x => held x + toward (some q.heap.length) x
  chain : Chain h₁ q.chain l
  header : ∃ v, h₁.look q.heap.length = some (some b, v)
  look : ∀ x, x ≠ q.heap.length → h₁.look x = q.heap.look x
  one : h₁.refs q.heap.length = 1
  refs : ∀ x, x < q.heap.length → h₁.refs x = q.heap.refs x + toward (some b) x
  links : ∀ x, h₁.links x = q.heap.links x + toward (some b) x

theorem chain_header (ho : q.Owned held) (hl : Chain q.heap q.chain l) (hb : 0 < held b) (href : q.heap.refs b + 1 < 256)
    {v : Pbuf} (hv : TotOk [v]) :
    ∃ h₁, pbufChain (q.heap.alloc none v) q.heap.length b = some h₁ ∧ InFront q held l b h₁ := by
  obtain ⟨ob, hob, -⟩ := ho.alive (x := b) (by omega)
  have hblt := lt_of_get hob
  obtain ⟨lb, hlb⟩ := ho.chain (x := b) (by omega)
  obtain ⟨ho₀, hl₀, hln, hout⟩ := alloc_single ho hl v
  have hlb₀ : Chain (q.heap.alloc none v) (some b) lb := hlb.congr fun y hy => by
    rw [look_alloc, if_neg (hlb.lt hy).ne]
  have hdis : ∀ x ∈ addrs [(q.heap.length, v)], x ∉ addrs lb := by
    intro x hx hxb
    rw [show x = q.heap.length from List.mem_singleton.1 hx] at hxb
    exact Nat.lt_irrefl _ (hlb.lt hxb)
  obtain ⟨h₁, hch, hln₁, hlk, hrefs₁, hc₁⟩ := pbufChain_spec (t := b) ho₀ (by show 0 < held b + _ + _; omega) hln hlb₀
    hdis hv (by rw [refs_alloc, if_neg hblt.ne]; exact href)
  have hlook : ∀ x, x ≠ q.heap.length → h₁.look x = q.heap.look x := fun x hx => by
    rw [hlk.look x fun hm => hx (List.mem_singleton.1 hm), look_alloc, if_neg hx]
  refine ⟨h₁, hch, by rw [hlk.length, length_alloc], hc₁, hl.congr fun y hy => hlook y fun hyn => hout (hyn ▸ hy), ?_,
    hlook, ?_, fun x hx => ?_, fun x => ?_⟩
  · obtain ⟨-, m, hlookn, hmchain⟩ := hln₁
    cases lb with
    | nil => cases hlb
    | cons d lb =>
      rw [show m = some b by rw [hmchain.1, Option.some.inj hlb.1]] at hlookn
      exact ⟨_, hlookn⟩
  · rw [hrefs₁, refs_alloc, if_pos rfl, toward_ne hblt.ne']
  · rw [hrefs₁, refs_alloc, if_neg hx.ne]
  · rw [hlk.links, links_alloc, toward_none, Nat.add_zero]

/-- `pppossl_netif_output` leaves its packet, and all other pbufs that were there, with the count they had. -/
theorem netifOutput_spec (ho : q.Owned held) (hl : Chain q.heap q.chain l) (hwf : (q.view l).WF)
    (hcap : q.capacity < 65536) (hb : 0 < held b) (href : q.heap.refs b + 1 < 256) (a a' : Alloc) (protocol : Nat) :
    ∃ w q' l', ppposslNetifOutput q a a' b protocol = some (w, q') ∧ Sent q l q' held l' ∧
      ∀ x, x < q.heap.length → q'.heap.refs x = q.heap.refs x := by
  unfold ppposslNetifOutput
  cases halloc : pbufAlloc a 4 with
  | none => exact ⟨_, q, l, rfl, .refl ho hl hwf, fun _ _ => rfl⟩
  | some nb =>
    obtain ⟨ob, hob, -⟩ := ho.alive (x := b) (by omega)
    have hblt := lt_of_get hob
    have hout : q.heap.length ∉ addrs l := fun hm => Nat.lt_irrefl _ (hl.lt hm)
    obtain ⟨h₁, hch, hf⟩ := chain_header ho hl hb href
      (pbufAlloc_len halloc (by decide) [0xFF, 0x03, hi8 protocol, lo8 protocol])
    have hlen := hf.length
    have hin : ∀ {x}, x < q.heap.length + 1 → x < h₁.length := fun hx => hlen ▸ hx
    -- the header is the packet that is written, and the only reference to it is given up
    obtain ⟨w, q₂, l₂, hrun, hsent⟩ := writeFrame_spec (q := { q with heap := h₁ }) (b := q.heap.length) hf.owned hf.chain
      hwf hcap (by rw [toward_self]; omega) a'
    have hrefs₂ : ∀ x, x < q.heap.length + 1 → q₂.heap.refs x = h₁.refs x := fun x hx => hsent.refs x (hin hx)
    have hlinks₂ : ∀ x, x < q.heap.length + 1 → q₂.heap.links x = h₁.links x := fun x hx => hsent.links x (hin hx)
    have hrefn : q₂.heap.refs q.heap.length = 1 := (hrefs₂ _ (Nat.lt_succ_self _)).trans hf.one
    have hrefb : 1 < q₂.heap.refs b := by
      have hpos := ho.pos b ob hob
      rw [hrefs₂ b (by omega), hf.refs b hblt, toward_self, refs_of_get hob]
      omega
    obtain ⟨v, hv⟩ := hf.header
    obtain ⟨on, hon, hnext, -⟩ := get_of_look ((hsent.look _ (hin (Nat.lt_succ_self _)) hout).trans hv)
    obtain ⟨h', hfree, hc', hlen', hgone, hlook', hrefs', hlinks'⟩ := pbufFree_front hsent.owned
      (fun x => Nat.add_right_comm (held x) _ (toward q₂.chain x)) hon (refs_of_get hon ▸ hrefn) hnext hrefb
    have hlate : ∀ {x}, h₁.length ≤ x → q.heap.length < x := fun hx => by omega
    refine ⟨w, { q₂ with heap := h' }, l₂, ?_, ⟨?_, hc', hsent.wf, hsent.capacity, ?_, fun x hx hxl => ?_, fun x hx => ?_,
      fun x hx => ?_, fun x hx => (hsent.mem hx).imp_right fun hnew => (hlate hnew).le, fun c hc => ?_,
      hsent.front⟩, fun x hx => ?_⟩
    · simp only [hch, ppposslWrite, hrun, hfree, Option.bind_eq_bind, Option.bind_some]
    · refine hsent.chain.congr fun y hy => hlook' y ?_
      rintro rfl
      rcases hsent.mem hy with hold | hnew
      · exact hout hold
      · exact Nat.lt_irrefl _ (hlate hnew)
    · have : h₁.length ≤ q₂.heap.length := hsent.length
      show _ ≤ h'.length
      omega
    · refine .inr ?_
      show h'.look x = _
      rw [hlook' x (by omega), hsent.look x (hin (by omega)) hxl]
      exact hf.look x (by omega)
    · have hlinks := hlinks' x
      rw [hlinks₂ x (by omega), hf.links] at hlinks
      show h'.links x ≤ _
      omega
    · by_cases hxn : x = q.heap.length
      · rw [hxn]
        exact .inl hgone
      · have hlook := hlook' x hxn
        rcases hsent.onlyFrames x (by show h₁.length ≤ x; omega) with hdead | ⟨hone, hlinks, hmem⟩
        · exact .inl (gone_of_look hlook hdead)
        · have hrefs := hrefs' x hxn
          rw [toward_ne (by omega)] at hrefs
          have := hlinks' x
          refine .inr ⟨?_, ?_, hmem⟩
          · show h'.refs x = 1
            omega
          · show h'.links x ≤ 1
            omega
    · rcases hsent.headKept hf.chain c hc with hold | ⟨hnew, hzero⟩
      · exact .inl hold
      · have := hlinks' c
        refine .inr ⟨(hlate hnew).le, ?_⟩
        show h'.links c = 0
        omega
    · have hrefs := hrefs' x (by omega)
      rw [hrefs₂ x (by omega), hf.refs x hx] at hrefs
      show h'.refs x = _
      omega

/-- A pbuf that was allocated before a transmit operation, and has no other reference behind it, is freed without
a trace. -/
theorem sent_free_new {v : Pbuf} {q₂ : HeapQueue} {l₂ : List (Nat × Pbuf)} (hout : q.heap.length ∉ addrs l)
    (hs : Sent { q with heap := q.heap.alloc none v } l q₂ (fun x => held x + toward (some q.heap.length) x) l₂)
    (href : q₂.heap.refs q.heap.length = 1) :
    ∃ h', pbufFree q₂.heap q.heap.length = some h' ∧ Sent q l { q₂ with heap := h' } held l₂ ∧
      ∀ x, x < q.heap.length → h'.refs x = q₂.heap.refs x := by
  have hlen : (q.heap.alloc none v).length = q.heap.length + 1 := length_alloc ..
  have hin : ∀ {x}, x < q.heap.length + 1 → x < (q.heap.alloc none v).length := fun hx => hlen ▸ hx
  have hlate : ∀ {x}, (q.heap.alloc none v).length ≤ x → q.heap.length + 1 ≤ x := fun hx => hlen ▸ hx
  have hgrow : q.heap.length + 1 ≤ q₂.heap.length := hlate hs.length
  -- it is still there, alone
  obtain ⟨o, ho', hnext⟩ : ∃ o, q₂.heap.get q.heap.length = some o ∧ o.next = none := by
    rcases hs.look _ (hin (Nat.lt_succ_self _)) hout with hdead | hlook
    · rw [refs, hdead] at href
      cases href
    · rw [show look (q.heap.alloc none v) q.heap.length = _ from look_alloc .., if_pos rfl] at hlook
      obtain ⟨o, ho', hn, -⟩ := get_of_look hlook
      exact ⟨o, ho', hn⟩
  have hone : o.ref = 1 := refs_of_get ho' ▸ href
  have hlt := lt_of_get ho'
  have hc' := (hs.owned.free ho' hone fun x => Nat.add_right_comm (held x) _ (toward q₂.chain x)).of_eq
    (u := fun x => held x + toward q₂.chain x) fun x => by rw [hnext, toward_none, Nat.add_zero]
  have hlinks : ∀ x, links (q₂.heap.set q.heap.length none) x = q₂.heap.links x := fun x => by
    have := links_set hlt none x
    rwa [ho', pointsTo, Option.bind_some, hnext, toward_none] at this
  have hshr := shrinks_free ho'
  refine ⟨q₂.heap.set q.heap.length none, pbufFree_single ho' hone hnext, ⟨?_, hc', hs.wf, hs.capacity, ?_,
    fun x hx hxl => ?_, fun x hx => ?_, fun x hx => ?_, fun x hx => ?_, fun c hc => ?_, hs.front⟩, fun x hx => ?_⟩
  · exact hc'.chain_kept hs.chain (fun y _ => hshr.look y) fun x hx => by rw [hx, toward_self]; omega
  · show _ ≤ (q₂.heap.set _ _).length
    rw [hshr.length]
    omega
  · show get (q₂.heap.set _ _) x = none ∨ look (q₂.heap.set _ _) x = _
    rw [get_set hlt, if_neg (by omega), look_set hlt, if_neg (by omega)]
    rcases hs.look x (hin (by omega)) hxl with hdead | hlook
    · exact .inl hdead
    · rw [hlook]
      exact .inr ((look_alloc ..).trans (if_neg (by omega)))
  · have hle := hs.links x (hin (by omega))
    rw [show links (q.heap.alloc none v) x = _ from links_alloc .., toward_none] at hle
    exact (hlinks x).trans_le hle
  · show get (q₂.heap.set _ _) x = none ∨ refs (q₂.heap.set _ _) x = 1 ∧ links (q₂.heap.set _ _) x ≤ 1 ∧ x ∈ addrs l₂
    rw [get_set hlt, refs_set hlt, hlinks]
    by_cases hxn : x = q.heap.length
    · exact .inl (if_pos hxn)
    · rw [if_neg hxn, if_neg hxn]
      exact hs.frames x (by show (q.heap.alloc none v).length ≤ x; omega)
  · exact (hs.mem x hx).imp_right fun hnew => Nat.le_of_succ_le (hlate hnew)
  · rcases hs.head c hc with hold | ⟨hnew, hzero⟩
    · exact .inl hold
    · exact .inr ⟨Nat.le_of_succ_le (hlate hnew), (hlinks c).trans hzero⟩
  · rw [refs_set hlt, if_neg (by omega)]

/-- `ppossl_send_ka` frees the request that it has allocated, and leaves the count of every other pbuf. -/
theorem sendKa_spec (ho : q.Owned held) (hl : Chain q.heap q.chain l) (hwf : (q.view l).WF) (hcap : q.capacity < 65536)
    (opened : Bool) (id : UInt8) (magic : Bytes) (a a' a'' : Alloc) :
    ∃ r q' l', ppposslSendKa q opened id magic a a' a'' = some (r, q') ∧ Sent q l q' held l' ∧
      ∀ x, x < q.heap.length → q'.heap.refs x = q.heap.refs x := by
  unfold ppposslSendKa
  by_cases hopen : opened = false
  · rw [if_pos hopen]
    exact ⟨_, q, l, rfl, .refl ho hl hwf, fun _ _ => rfl⟩
  rw [if_neg hopen]
  cases halloc : pbufAlloc a 8 with
  | none => exact ⟨_, q, l, rfl, .refl ho hl hwf, fun _ _ => rfl⟩
  | some pb =>
    generalize hv : ({ pb with payload := overwrite pb.payload 0 ([11, id + 1, 0, 8] ++ magic.take 4) } : Pbuf) = request
    obtain ⟨ho₀, hl₀, -, hout⟩ := alloc_single ho hl request
    have hlen : (q.heap.alloc none request).length = q.heap.length + 1 := length_alloc ..
    have hone : refs (q.heap.alloc none request) q.heap.length = 1 := by rw [refs_alloc, if_pos rfl]
    obtain ⟨w, q₂, l₂, hrun, hsent, hrefs⟩ := netifOutput_spec ho₀ hl₀ hwf hcap (b := q.heap.length)
      (by rw [toward_self]; omega) (show refs (q.heap.alloc none request) _ + 1 < 256 by rw [hone]; decide) a' a'' 0xC021
    have hold : ∀ x, x < q.heap.length + 1 → q₂.heap.refs x = refs (q.heap.alloc none request) x := fun x hx =>
      hrefs x (hlen ▸ hx)
    obtain ⟨h', hfree, hsent', hrefs'⟩ := sent_free_new hout hsent ((hold _ (Nat.lt_succ_self _)).trans hone)
    refine ⟨some w, { q₂ with heap := h' }, l₂, ?_, hsent', fun x hx => ?_⟩
    · simp only [hv, hrun, hfree, Option.bind_eq_bind, Option.bind_some]
    · show h'.refs x = _
      rw [hrefs' x hx, hold x (by omega), refs_alloc, if_neg (by omega)]

end FortiRdp.Net.Mem
