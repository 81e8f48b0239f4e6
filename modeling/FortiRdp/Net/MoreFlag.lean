/-
The more flag of a block (`PBufQueue::get_cblock`) against its documentation, and what
`OutputQueue::write(tcp_pcb*)` makes of it. The code joins the flags and `PBUF_FLAG_PUSH` with a logical and, so
that every flag counts.
-/
import FortiRdp.Net.OutputQueue

namespace FortiRdp.Net

open FortiRdp.Lwip FortiRdp.Util

/-- `PBUF_FLAG_PUSH` is set. -/
def pushed (p : Pbuf) : Bool := p.flags &&& pbufFlagPush != 0

/-- The lengths are 16-bit numbers, and the offset is in the head or at its end. -/
structure Within (q : PBufQueue) : Prop where
  lengths : ∀ p ∈ q.chain, p.len < 65536
  offset : ∀ p ∈ q.chain.head?, q.offset ≤ p.len

/-- What `cblock` says of its flag: there is more in the head, or the head ends here and neither it nor the next pbuf was
pushed. -/
def MoreFollows (q : PBufQueue) (block : Cblock) : Prop :=
  ∃ p c, q.chain = p :: c ∧ (q.offset + block.data.length < p.len ∨
    q.offset + block.data.length = p.len ∧ pushed p = false ∧ ∃ n ∈ c.head?, pushed n = false)

/-- The block ends the head, neither the head nor the next pbuf was pushed, and one of them has another flag. -/
def OtherFlags (q : PBufQueue) (len : Nat) : Prop :=
  ∃ p n c, q.chain = p :: n :: c ∧ p.len ≤ q.offset + len ∧ pushed p = false ∧ pushed n = false ∧
    (p.flags ≠ 0 ∨ n.flags ≠ 0)

def tcpWriteFlagCopy : UInt8 := 0x01

def tcpWriteFlagMore : UInt8 := 0x02

/-- The flags of the call of `tcp_write` for a block. -/
def writeFlags (block : Cblock) : UInt8 := tcpWriteFlagCopy ||| if block.more then tcpWriteFlagMore else 0

/-- The calls of `tcp_write` in `OutputQueue::write(tcp_pcb*)` that succeed: the queue before each and its block. -/
def tcpWrites : List (Nat × Err) → PBufQueue → List (PBufQueue × Cblock)
  | [], _ => []
  | (sndbuf, rc) :: answers, q =>
    if q.isEmpty = true ∨ sndbuf = 0 then []
    else
      let block := q.getCblock sndbuf
      if rc = .errOk then
        match q.move block.data.length with
        | none => []
        | some q' => (q, block) :: tcpWrites answers q'
      else []

/-- The block ends the head of the queue, and there is nothing behind it, or the head or the next pbuf was pushed. -/
def EndsAtPush (q : PBufQueue) (block : Cblock) : Prop :=
  ∃ p c, q.chain = p :: c ∧ q.offset + block.data.length = p.len ∧
    (c = [] ∨ pushed p = true ∨ ∃ n ∈ c.head?, pushed n = true)

/-! ## A block -/

section

variable {q q' : PBufQueue} {p : Pbuf} {c : List Pbuf}

/-- The queues that the class keeps are such. -/
theorem within_of_wf (h : q.WF) : Within q := by
  refine ⟨fun p hp => ?_, fun p hp => (h.offset p hp).le⟩
  have hle : p.len ≤ (content q.chain).length := by
    unfold content Pbuf.len
    rw [List.length_flatMap]
    exact List.le_sum_of_mem (List.mem_map_of_mem hp)
  have hbound := h.bound
  omega

theorem pushed_of_clear (h : p.flags = 0) : pushed p = false := by
  unfold pushed
  rw [h]
  rfl

theorem anyFlag_eq_false : PBufQueue.anyFlag p = false ↔ p.flags = 0 := by
  unfold PBufQueue.anyFlag
  rw [Bool.and_eq_false_iff, bne_eq_false_iff_eq]
  exact or_iff_left (by decide)

/-- How long a block is, and the flag that comes with it. -/
theorem getCblock_cons (h : Within q) (hc : q.chain = p :: c) (len : Nat) :
    (q.getCblock len).data.length = min len (p.len - q.offset) ∧
      ((q.getCblock len).more = true ↔ len < p.len - q.offset ∨ p.flags = 0 ∧ ∃ n ∈ c.head?, n.flags = 0) := by
  have hlen := h.lengths p (hc ▸ List.mem_cons_self ..)
  unfold PBufQueue.getCblock
  rw [hc]
  constructor
  · have hmod : min len (p.len - q.offset) % 65536 = min len (p.len - q.offset) := Nat.mod_eq_of_lt (by omega)
    rw [List.length_take, List.length_drop, hmod]
    exact min_eq_left (min_le_right _ _)
  · dsimp only
    rw [Bool.or_eq_true, decide_eq_true_iff, Bool.and_eq_true, beq_iff_eq, anyFlag_eq_false]
    cases c with
    | nil =>
      refine or_congr_right (and_congr_right fun _ => iff_of_false Bool.false_ne_true ?_)
      rintro ⟨n, hn, -⟩
      cases hn
    | cons n c =>
      refine or_congr_right (and_congr_right fun _ => ?_)
      rw [List.head?_cons, Option.map_some, Option.getD_some, beq_iff_eq, anyFlag_eq_false]
      constructor
      · exact fun hflags => ⟨n, rfl, hflags⟩
      · rintro ⟨_, ⟨⟩, hflags⟩
        exact hflags

/-- The documented flag of a block, in the same terms. -/
theorem moreFollows_iff (h : Within q) (hc : q.chain = p :: c) (len : Nat) :
    MoreFollows q (q.getCblock len) ↔
      len < p.len - q.offset ∨ p.len - q.offset ≤ len ∧ pushed p = false ∧ ∃ n ∈ c.head?, pushed n = false := by
  have hoffset := h.offset p (by rw [hc]; rfl)
  have hlength := (getCblock_cons h hc len).1
  unfold MoreFollows
  rw [hlength, hc]
  constructor
  · rintro ⟨_, _, ⟨⟩, hmore | ⟨hend, hflags⟩⟩
    · exact .inl (by omega)
    · exact .inr ⟨by omega, hflags⟩
  · rintro (hmore | ⟨hend, hflags⟩)
    · exact ⟨p, c, rfl, .inl (by omega)⟩
    · exact ⟨p, c, rfl, .inr ⟨by omega, hflags⟩⟩

/-- A set flag is documented: no flag at all means that nothing was pushed. -/
theorem moreFollows_of_more (h : Within q) {len : Nat} (hmore : (q.getCblock len).more = true) :
    MoreFollows q (q.getCblock len) := by
  cases hc : q.chain with
  | nil =>
    unfold PBufQueue.getCblock at hmore
    rw [hc] at hmore
    cases hmore
  | cons p c =>
    rw [moreFollows_iff h hc]
    by_cases hlt : len < p.len - q.offset
    · exact .inl hlt
    · obtain ⟨hp, n, hn, hflags⟩ := ((getCblock_cons h hc len).2.1 hmore).resolve_left hlt
      exact .inr ⟨Nat.not_lt.1 hlt, pushed_of_clear hp, n, hn, pushed_of_clear hflags⟩

/-- The flag is the documented one exactly when no other flag is taken for `PBUF_FLAG_PUSH`. -/
theorem more_iff_documented (h : Within q) (len : Nat) :
    ((q.getCblock len).more = true ↔ MoreFollows q (q.getCblock len)) ↔ ¬ OtherFlags q len := by
  constructor
  · rintro hiff ⟨p, n, c, hc, hend, hp, hn, hflags⟩
    have hoffset := h.offset p (by rw [hc]; rfl)
    have hdoc : MoreFollows q (q.getCblock len) := (moreFollows_iff h hc len).2 (.inr ⟨by omega, hp, n, rfl, hn⟩)
    rcases (getCblock_cons h hc len).2.1 (hiff.2 hdoc) with hlt | ⟨hp', _, ⟨⟩, hn'⟩
    · omega
    · rcases hflags with hne | hne
      · exact hne hp'
      · exact hne hn'
  · intro hother
    refine ⟨moreFollows_of_more h, fun hdoc => ?_⟩
    obtain ⟨p, c, hc, -⟩ := id hdoc
    have hoffset := h.offset p (by rw [hc]; rfl)
    rw [moreFollows_iff h hc] at hdoc
    rw [(getCblock_cons h hc len).2]
    rcases hdoc with hlt | ⟨hend, hp, n, hn, hpushed⟩
    · exact .inl hlt
    · obtain ⟨d, rfl⟩ : ∃ d, c = n :: d := List.head?_eq_some_iff.1 hn
      have hclear : p.flags = 0 ∧ n.flags = 0 := by
        by_contra hne
        exact hother ⟨p, n, d, hc, by omega, hp, hpushed, not_and_or.1 hne⟩
      exact .inr ⟨hclear.1, n, hn, hclear.2⟩

/-! ## The blocks that are written -/

/-- Behind a block that ends at a push nothing follows, as the documentation has it. -/
theorem EndsAtPush.nothing_follows {block : Cblock} (h : EndsAtPush q block) : ¬ MoreFollows q block := by
  obtain ⟨p, c, hc, hend, hpush⟩ := h
  rintro ⟨p', c', hc', hmore⟩
  obtain ⟨rfl, rfl⟩ := List.cons.inj (hc.symm.trans hc')
  obtain ⟨-, hp, n, hn, hclear⟩ := hmore.resolve_left (by omega)
  rcases hpush with rfl | hpushed | ⟨n', hn', hpushed⟩
  · cases hn
  · rw [hp] at hpushed
    cases hpushed
  · obtain rfl := Option.some.inj (hn.symm.trans hn')
    rw [hclear] at hpushed
    cases hpushed

theorem within_move (h : Within q) {n : Nat} (hm : q.move n = some q') : Within q' := by
  unfold PBufQueue.move PBufQueue.pop at hm
  cases hc : q.chain with
  | nil =>
    rw [hc] at hm
    cases hm
  | cons p c =>
    have hlengths := h.lengths
    rw [hc] at hm hlengths
    dsimp only at hm
    split at hm
    · rename_i hin
      split at hm
      · cases hm
        exact ⟨fun d hd => hlengths d (List.mem_cons_of_mem _ hd), fun _ _ => Nat.zero_le _⟩
      · cases hm
        refine ⟨hlengths, ?_⟩
        rintro _ ⟨⟩
        exact hin
    · cases hm

/-- The blocks of the loop are those of its calls of `tcp_write`. -/
theorem tcpLoop_writes : ∀ (answers : List (Nat × Err)) (q : PBufQueue) (blocks : List Cblock),
    (tcpLoop answers q blocks).2.2 = blocks ++ (tcpWrites answers q).map Prod.snd
  | [], _, blocks => (List.append_nil blocks).symm
  | (sndbuf, rc) :: answers, q, blocks => by
    rw [tcpLoop, tcpWrites]
    split
    · exact (List.append_nil blocks).symm
    dsimp only
    split
    · cases q.move (q.getCblock sndbuf).data.length with
      | none => exact (List.append_nil blocks).symm
      | some q' =>
        dsimp only
        rw [tcpLoop_writes answers q', List.map_cons, List.append_assoc]
        rfl
    · exact (List.append_nil blocks).symm

/-- Every block that is written is the first one of a queue within its bounds. -/
theorem mem_tcpWrites : ∀ {answers : List (Nat × Err)} {q : PBufQueue}, Within q → ∀ x ∈ tcpWrites answers q,
    Within x.1 ∧ ∃ len, x.2 = x.1.getCblock len
  | [], _, _, _, hx => absurd hx List.not_mem_nil
  | (sndbuf, rc) :: answers, q, h, x, hx => by
    rw [tcpWrites] at hx
    split at hx
    · cases hx
    dsimp only at hx
    split at hx
    · split at hx
      · cases hx
      · rename_i q' hm
        rcases List.mem_cons.1 hx with rfl | hx
        · exact ⟨h, sndbuf, rfl⟩
        · exact mem_tcpWrites (within_move h hm) x hx
    · cases hx

theorem writeFlags_more {block : Cblock} (h : block.more = false) : writeFlags block &&& tcpWriteFlagMore = 0 := by
  unfold writeFlags
  rw [h]
  rfl

/-- The more flag of a block is the documented one exactly when, where the block ends the head and neither the head nor the
next pbuf was pushed, they have no other flag either. The last block that is written before a push or the end of the queue
is without the flag in any case. -/
theorem getCblock_more_iff (hq : Within q) :
    (∀ len, ((q.getCblock len).more = true ↔ MoreFollows q (q.getCblock len)) ↔ ¬ OtherFlags q len) ∧
      ∀ answers, ∀ x ∈ tcpWrites answers q, EndsAtPush x.1 x.2 → writeFlags x.2 &&& tcpWriteFlagMore = 0 := by
  refine ⟨more_iff_documented hq, fun answers x hx hend => ?_⟩
  obtain ⟨hwithin, len, hblock⟩ := mem_tcpWrites hq x hx
  refine writeFlags_more (Bool.eq_false_iff.2 fun hmore => hend.nothing_follows ?_)
  rw [hblock] at hmore ⊢
  exact moreFollows_of_more hwithin hmore

/-- Two pbufs without `PBUF_FLAG_PUSH`, the first with the flag of a FIN. -/
def finQueue : PBufQueue :=
  { capacity := 8, chain := [{ payload := [1], totLen := 2, flags := 0x20 }, { payload := [2], totLen := 1, flags := 0 }]
    offset := 0 }

theorem finQueue_within : Within finQueue := ⟨by decide, by rintro _ ⟨⟩; decide⟩

/-- Another flag stops the more flag. -/
theorem more_finQueue : (finQueue.getCblock 1).more = false ∧ MoreFollows finQueue (finQueue.getCblock 1) :=
  ⟨rfl, _, _, rfl, .inr ⟨rfl, rfl, _, rfl, rfl⟩⟩

theorem more_finQueue_cut : ((finQueue.getCblock 0).more = true ↔ MoreFollows finQueue (finQueue.getCblock 0)) ∧
    ∀ x ∈ tcpWrites [(4, .errOk), (4, .errOk)] finQueue,
      EndsAtPush x.1 x.2 → writeFlags x.2 &&& tcpWriteFlagMore = 0 := by
  have hcut : ¬ OtherFlags finQueue 0 := by
    rintro ⟨_, _, _, ⟨⟩, hend, -⟩
    exact absurd hend (by decide)
  exact ⟨((getCblock_more_iff finQueue_within).1 0).2 hcut, (getCblock_more_iff finQueue_within).2 _⟩

end

end FortiRdp.Net
