/-
Packet buffers in memory: what `pbuf_ref`, `pbuf_free`, `pbuf_cat` and `pbuf_chain` do to the counts and the
links of the pbufs. An operation on memory that is freed, or one that fails an assertion, has no result.
-/
import FortiRdp.Lwip.Pbuf
import FortiRdp.Run.RefCount

namespace FortiRdp.Lwip.Mem

open FortiRdp.Run FortiRdp.Run.Heap

/-- `pbuf_ref`; the count is a `u8_t`. -/
def pbufRef (h : Heap Pbuf) (p : Nat) : Option (Heap Pbuf) := h.retain 256 p

def pbufFree (h : Heap Pbuf) (p : Nat) : Option (Heap Pbuf) := h.release h.length (some p)

/-- The loop of `pbuf_cat` from the pbuf `p` on: its total grows by the one of `t`, and the last pbuf, whose
total is its own length, links to `t`. -/
def catLoop : Nat → Heap Pbuf → Nat → Nat → Option (Heap Pbuf)
  | 0, _, _, _ => none
  | fuel + 1, h, p, t => do
    let o ← h.get p
    let ot ← h.get t
    let grown := { o.val with totLen := (o.val.totLen + ot.val.totLen) % 65536 }
    match o.next with
    | some n => do catLoop fuel (← h.put p (some n) grown) n t
    | none => if o.val.totLen = o.val.len then h.put p (some t) grown else none

def pbufCat (h : Heap Pbuf) (p t : Nat) : Option (Heap Pbuf) := if p = t then none else catLoop h.length h p t

def pbufChain (h : Heap Pbuf) (p t : Nat) : Option (Heap Pbuf) := do pbufRef (← pbufCat h p t) t

/-- The addresses of a chain. -/
def addrs (l : List (Nat × Pbuf)) : List Nat := l.map Prod.fst

/-- The pbufs of a chain. -/
def pbufs (l : List (Nat × Pbuf)) : List Pbuf := l.map Prod.snd

/-- A chain with a total added to the ones of its pbufs. -/
def grow (l : List (Nat × Pbuf)) (tot : Nat) : List (Nat × Pbuf) :=
  l.map fun d => (d.1, { d.2 with totLen := (d.2.totLen + tot) % 65536 })

@[simp] theorem addrs_grow (l : List (Nat × Pbuf)) (tot : Nat) : addrs (grow l tot) = addrs l := by
  simp [addrs, grow]

@[simp] theorem addrs_append (l l' : List (Nat × Pbuf)) : addrs (l ++ l') = addrs l ++ addrs l' := List.map_append

/-- Linked behind each other, the pbufs are those of `pbuf_cat`. -/
theorem pbufs_grow (l lt : List (Nat × Pbuf)) :
    pbufs (grow l (totLen (pbufs lt)) ++ lt) = Lwip.pbufCat (pbufs l) (pbufs lt) := by
  simp [pbufs, grow, Lwip.pbufCat]

variable {h : Heap Pbuf} {own u : Nat → Nat} {l lt : List (Nat × Pbuf)} {p t : Nat}

/-- What is known after `t` is linked behind the chain `l`. -/
structure Linked (h h' : Heap Pbuf) (l : List (Nat × Pbuf)) (t : Nat) : Prop where
  length : h'.length = h.length
  look : ∀ x, x ∉ addrs l → h'.look x = h.look x
  links : ∀ x, h'.links x = h.links x + toward (some t) x

/-- The caller's reference to `t` becomes the one of the link. -/
theorem catLoop_spec (hc : Counted h own) (hown : ∀ x, own x = u x + toward (some t) x) (hl : Chain h (some p) l)
    (hlt : Chain h (some t) lt) (hdis : ∀ x ∈ addrs l, x ∉ addrs lt) (htot : TotOk (pbufs l)) {fuel : Nat}
    (hfuel : l.length ≤ fuel) :
    ∃ h', catLoop fuel h p t = some h' ∧ Chain h' (some p) (grow l (totLen (pbufs lt)) ++ lt) ∧ Linked h h' l t ∧
      (∀ x, h'.refs x = h.refs x) ∧ Counted h' u := by
  induction l generalizing h own p fuel with
  | nil => cases hl
  | cons d l ih =>
    obtain ⟨a, v⟩ := d
    obtain ⟨hp, n, hlook, htail⟩ := hl
    cases hp
    obtain ⟨fuel, rfl⟩ : ∃ k, fuel = k + 1 := ⟨fuel - 1, by rw [List.length_cons] at hfuel; omega⟩
    obtain ⟨o, ho, rfl, rfl⟩ := get_of_look hlook
    have hself : Chain h (some p) ((p, o.val) :: l) := ⟨rfl, o.next, hlook, htail⟩
    have hnodup := hself.nodup
    rw [List.map_cons, List.nodup_cons] at hnodup
    have hpt : p ∉ addrs lt := hdis p (List.mem_cons_self ..)
    -- the total that is added is the one of the head of the second chain
    obtain ⟨vt, ltail, rfl⟩ : ∃ vt ltail, lt = (t, vt) :: ltail := by
      cases lt with
      | nil => cases hlt
      | cons d' l' => cases hlt.1; exact ⟨_, _, rfl⟩
    obtain ⟨-, nt, hlookt, htailt⟩ := id hlt
    obtain ⟨ot, hot, -, rfl⟩ := get_of_look hlookt
    have hgrown : totLen (pbufs ((t, ot.val) :: ltail)) = ot.val.totLen := rfl
    rw [hgrown]
    simp only [catLoop, ho, hot, Option.bind_eq_bind, Option.bind_some]
    cases hn : o.next with
    | none =>
      rw [hn] at hlook htail
      have hl : l = [] := chain_nil.1 htail
      subst hl
      have hlast : o.val.totLen = o.val.len := by
        have := htot.1
        simpa [content] using this
      obtain ⟨h', hput, hlen, hlook', hrefs, hlinks, hc'⟩ := hc.put (u := u) (some t) hlook
        { o.val with totLen := (o.val.totLen + ot.val.totLen) % 65536 } (fun x => by rw [hown]; rfl) ⟨_, hlt, hpt⟩
      refine ⟨h', by rw [if_pos hlast]; exact hput, ⟨rfl, some t, by rw [hlook', if_pos rfl], ?_⟩,
        ⟨hlen, fun x hx => ?_, fun x => ?_⟩, hrefs, hc'⟩
      · refine hlt.congr fun y hy => ?_
        rw [hlook', if_neg (fun hyp : y = p => hpt (hyp ▸ hy))]
      · rw [hlook', if_neg (fun hxp : x = p => hx (hxp ▸ List.mem_cons_self ..))]
      · have := hlinks x
        rwa [toward_none, Nat.add_zero] at this
    | some n =>
      rw [hn] at hlook htail
      obtain ⟨h₁, hput, hlen, hlook', hrefs, hlinks, hc₁⟩ := hc.put (u := own) (some n) hlook
        { o.val with totLen := (o.val.totLen + ot.val.totLen) % 65536 } (fun x => rfl) ⟨_, htail, hnodup.1⟩
      have hkept : ∀ y, y ≠ p → h₁.look y = h.look y := fun y hy => by rw [hlook', if_neg hy]
      have htail₁ : Chain h₁ (some n) l := htail.congr fun y hy => hkept y fun hyp => hnodup.1 (hyp ▸ hy)
      have hlt₁ : Chain h₁ (some t) ((t, ot.val) :: ltail) := hlt.congr fun y hy => hkept y fun hyp => hpt (hyp ▸ hy)
      obtain ⟨h', hcat, hch, hlk, hrefs', hc'⟩ := ih hc₁ hown htail₁ hlt₁
        (fun x hx => hdis x (List.mem_cons_of_mem _ hx)) htot.2 (show l.length ≤ fuel by rw [List.length_cons] at hfuel; omega)
      have hrun := congrArg (fun z => z.bind fun h₂ => catLoop fuel h₂ n t) hput
      refine ⟨h', hrun.trans hcat, ⟨rfl, some n, ?_, hch⟩, ⟨hlk.length.trans hlen, fun x hx => ?_, fun x => ?_⟩,
        fun x => (hrefs' x).trans (hrefs x), hc'⟩
      · rw [hlk.look p hnodup.1, hlook', if_pos rfl]
      · have hxl : x ∉ addrs l := fun hm => hx (List.mem_cons_of_mem _ hm)
        rw [hlk.look x hxl, hkept x fun hxp => hx (hxp ▸ List.mem_cons_self ..)]
      · have := hlinks x
        rw [hlk.links]
        omega

/-- `pbuf_chain` gives the link a reference of its own. -/
theorem pbufChain_spec (hc : Counted h own) (ht : 0 < own t) (hl : Chain h (some p) l) (hlt : Chain h (some t) lt)
    (hdis : ∀ x ∈ addrs l, x ∉ addrs lt) (htot : TotOk (pbufs l)) (href : h.refs t + 1 < 256) :
    ∃ h', pbufChain h p t = some h' ∧ Chain h' (some p) (grow l (totLen (pbufs lt)) ++ lt) ∧ Linked h h' l t ∧
      (∀ x, h'.refs x = h.refs x + toward (some t) x) ∧ Counted h' own := by
  have hne : p ≠ t := fun hpt => hdis p hl.head_mem (hpt ▸ hlt.head_mem)
  have hown : ∀ x, own x = (own x - toward (some t) x) + toward (some t) x := by
    intro x
    by_cases hx : x = t
    · rw [hx, toward_self]; omega
    · rw [toward_ne hx]; omega
  obtain ⟨h₁, hcat, hch, hlk, hrefs, hc₁⟩ := catLoop_spec hc hown hl hlt hdis htot hl.length_le
  have hlinks : 0 < h₁.links t := by rw [hlk.links, toward_self]; omega
  obtain ⟨h', hret, hsame, hrefs', hc'⟩ := hc₁.retain 256 (a := t) (by omega) (by rw [hrefs]; exact href)
  refine ⟨h', ?_, hch.congr fun y _ => hsame.look y, ⟨hsame.length.trans hlk.length, fun x hx => ?_, fun x => ?_⟩,
    fun x => by rw [hrefs', hrefs], hc'.of_eq hown⟩
  · rw [pbufChain, pbufCat, if_neg hne, hcat]
    exact hret
  · rw [hsame.look, hlk.look x hx]
  · rw [hsame.links, hlk.links]

/-- `pbuf_free` gives up one reference. -/
theorem pbufFree_spec (hc : Counted h own) (hown : ∀ x, own x = u x + toward (some p) x) :
    ∃ h', pbufFree h p = some h' ∧ Counted h' u ∧ Shrinks h h' ∧
      (1 < h.refs p → SameObjs h h' ∧ ∀ x, h'.refs x + toward (some p) x = h.refs x) ∧
      (h.refs p = 1 → h'.get p = none) :=
  hc.release hown List.countP_le_length

/-- The last reference to a single pbuf frees it, and nothing else. -/
theorem pbufFree_single {o : Obj Pbuf} (hget : h.get p = some o) (href : o.ref = 1) (hnext : o.next = none) :
    pbufFree h p = some (h.set p none) := by
  obtain ⟨k, hk⟩ : ∃ k, h.length = k + 1 := ⟨h.length - 1, by have := lt_of_get hget; omega⟩
  rw [pbufFree, hk, release_last hget href, hnext, Heap.release]

/-- The last reference to a pbuf in front of one that is held elsewhere frees the first and leaves the second. -/
theorem pbufFree_front {o : Obj Pbuf} {n : Nat} (hc : Counted h own) (hown : ∀ x, own x = u x + toward (some p) x)
    (hget : h.get p = some o) (href : o.ref = 1) (hnext : o.next = some n) (hmore : 1 < h.refs n) :
    ∃ h', pbufFree h p = some h' ∧ Counted h' u ∧ h'.length = h.length ∧ h'.get p = none ∧
      (∀ x, x ≠ p → h'.look x = h.look x) ∧ (∀ x, x ≠ p → h'.refs x + toward (some n) x = h.refs x) ∧
      ∀ x, h'.links x + toward (some n) x = h.links x := by
  have hp := lt_of_get hget
  have hself : n ≠ p := by
    rintro rfl
    rw [refs_of_get hget] at hmore
    omega
  have hfree := hc.free hget href hown
  rw [hnext] at hfree
  obtain ⟨k, hk⟩ : ∃ k, h.length = k + 1 := ⟨h.length - 1, by omega⟩
  have hlive : live (h.set p none) ≤ k := by
    have := live_set_none hget
    have : live h ≤ h.length := List.countP_le_length
    omega
  obtain ⟨h', hrel, hc', -, hkeep, -⟩ := hfree.release (fun x => rfl) hlive
  obtain ⟨hsame, hrefs⟩ := hkeep (by rw [refs_set hp, if_neg hself]; exact hmore)
  refine ⟨h', ?_, hc', hsame.length.trans List.length_set, ?_, fun x hx => ?_, fun x hx => ?_, fun x => ?_⟩
  · rw [pbufFree, hk, release_last hget href, hnext, hrel]
  · have hlook := hsame.look p
    rw [look_set hp, if_pos rfl] at hlook
    exact Option.map_eq_none_iff.1 hlook
  · rw [hsame.look, look_set hp, if_neg hx]
  · rw [hrefs, refs_set hp, if_neg hx]
  · have := links_set hp none x
    rw [hget, pointsTo, pointsTo, Option.bind_some, Option.bind_none, hnext, toward_none] at this
    rw [hsame.links]
    exact this

end FortiRdp.Lwip.Mem
