/-
lwIP packet buffers. A chain is the list of its pbufs in the order of `next`; the null pointer is
the empty list. Every pbuf has its payload (`len` bytes), the length `tot_len` of the chain from it
to the end as the code maintains it (a `u16_t`), and its flags.
-/
import FortiRdp.Lwip.Err
import FortiRdp.Util.Bytes

namespace FortiRdp.Lwip

structure Pbuf where
  payload : Bytes
  totLen : Nat
  flags : UInt8
  deriving DecidableEq, Repr

def Pbuf.len (p : Pbuf) : Nat := p.payload.length

def pbufFlagPush : UInt8 := 0x01

/-- The bytes of a chain. -/
def content (c : List Pbuf) : Bytes := c.flatMap Pbuf.payload

/-- `tot_len` of the head; the callers never read it off a null pointer. -/
def totLen (c : List Pbuf) : Nat := (c.head?.map Pbuf.totLen).getD 0

/-- The `tot_len` of every pbuf is the length of the chain from it to the end. -/
def TotOk : List Pbuf → Prop
  | [] => True
  | p :: c => p.totLen = p.len + (content c).length ∧ TotOk c

/-- A chain as the stack hands it over: not null, `tot_len` right, every pbuf of positive length,
and at most 65535 bytes. -/
structure PbufChain where
  pbufs : List Pbuf
  ne : pbufs ≠ []
  tot : TotOk pbufs
  pos : ∀ p ∈ pbufs, 0 < p.len
  bound : (content pbufs).length < 65536

/-- The bytes `[1, 2]` in one pbuf. -/
def PbufChain.two : PbufChain where
  pbufs := [{ payload := [1, 2], totLen := 2, flags := 0 }]
  ne := by decide
  tot := ⟨rfl, trivial⟩
  pos := by decide
  bound := by decide

@[simp] theorem content_nil : content [] = [] := rfl

@[simp] theorem content_cons (p : Pbuf) (c : List Pbuf) : content (p :: c) = p.payload ++ content c := rfl

@[simp] theorem content_append (c d : List Pbuf) : content (c ++ d) = content c ++ content d := by
  simp [content]

@[simp] theorem totLen_cons (p : Pbuf) (c : List Pbuf) : totLen (p :: c) = p.totLen := rfl

theorem totLen_eq : ∀ {c : List Pbuf}, TotOk c → totLen c = (content c).length
  | [], _ => rfl
  | _ :: _, ⟨h, _⟩ => by simp [h, Pbuf.len]

theorem content_pos {c : List Pbuf} (hne : c ≠ []) (hpos : ∀ p ∈ c, 0 < p.len) : 0 < (content c).length := by
  cases c with
  | nil => exact absurd rfl hne
  | cons p c =>
    have := hpos p (List.mem_cons_self ..)
    simp only [content_cons, List.length_append, Pbuf.len] at *
    omega

/-! ## Allocation and copies -/

/-- What the allocator answers to one call: no memory, or memory with whatever bytes it held. -/
abbrev Alloc := Option (Nat → UInt8)

/-- `pbuf_alloc(PBUF_RAW, length, PBUF_RAM)`: one pbuf, its length a `u16_t`. -/
def pbufAlloc (a : Alloc) (length : Nat) : Option Pbuf :=
  a.map fun junk => { payload := (List.range (length % 65536)).map junk, totLen := length % 65536, flags := 0 }

/-- `pbuf_skip`: the part of the chain that starts with the pbuf holding `offset`, the offset left
in that pbuf, and the pbufs skipped. -/
def pbufSkip : List Pbuf → Nat → List Pbuf × Nat × List Pbuf
  | [], off => ([], off, [])
  | p :: c, off =>
    if p.len ≤ off then
      let (q, o, pre) := pbufSkip c (off - p.len)
      (q, o, p :: pre)
    else (p :: c, off, [])

/-- The copy loop of `pbuf_take`. -/
def takeLoop : List Pbuf → Bytes → List Pbuf
  | [], _ => []
  | p :: c, d =>
    if d = [] then p :: c
    else { p with payload := overwrite p.payload 0 (d.take p.len) } :: takeLoop c (d.drop p.len)

/-- `pbuf_take`. -/
def pbufTake (c : List Pbuf) (d : Bytes) : Err × List Pbuf :=
  if c = [] then (.errArg, c)
  else if totLen c < d.length then (.errMem, c)
  else (.errOk, takeLoop c d)

/-- `pbuf_take_at`. -/
def pbufTakeAt (c : List Pbuf) (d : Bytes) (offset : Nat) : Err × List Pbuf :=
  match pbufSkip c offset with
  | ([], _, _) => (.errMem, c)
  | (q :: rest, target, pre) =>
    if q.totLen < target + d.length then (.errMem, c)
    else
      let first := min (q.len - target) d.length
      let q' := { q with payload := overwrite q.payload target (d.take first) }
      if d.length - first = 0 then (.errOk, pre ++ q' :: rest)
      else
        let (err, rest') := pbufTake rest (d.drop first)
        (err, pre ++ q' :: rest')

/-- On the single pbuf of `pbuf_alloc` a copy inside its length is one `memcpy`. -/
theorem pbufTakeAt_single {p : Pbuf} {d : Bytes} {off : Nat} (ht : p.totLen = p.len) (ho : off < p.len)
    (h : off + d.length ≤ p.len) :
    pbufTakeAt [p] d off = (.errOk, [{ p with payload := overwrite p.payload off d }]) := by
  have hskip : pbufSkip [p] off = ([p], off, []) := by
    simp [pbufSkip, Nat.not_le.2 ho]
  have hmin : min (p.len - off) d.length = d.length := by omega
  unfold pbufTakeAt
  rw [hskip]
  simp only [ht, Nat.not_lt.2 h, if_false, hmin, Nat.sub_self, if_true, List.take_length, List.nil_append]

/-- Behind the end of the chain there is nothing to copy to. -/
theorem pbufTakeAt_end {p : Pbuf} {d : Bytes} {off : Nat} (ho : p.len ≤ off) :
    pbufTakeAt [p] d off = (.errMem, [p]) := by
  unfold pbufTakeAt
  simp [pbufSkip, ho]

/-! ## Chaining -/

/-- `pbuf_cat`: the totals of the first chain grow by the total of the second (`u16_t`). -/
def pbufCat (h t : List Pbuf) : List Pbuf :=
  h.map (fun p => { p with totLen := (p.totLen + totLen t) % 65536 }) ++ t

theorem content_pbufCat (h t : List Pbuf) : content (pbufCat h t) = content h ++ content t := by
  unfold pbufCat
  rw [content_append]
  congr 1
  simp [content, List.flatMap_map]

theorem totOk_pbufCat {h t : List Pbuf} (hh : TotOk h) (ht : TotOk t)
    (hb : (content h).length + (content t).length < 65536) : TotOk (pbufCat h t) := by
  induction h with
  | nil => exact ht
  | cons p c ih =>
    obtain ⟨hp, hc⟩ := hh
    simp only [content_cons, List.length_append] at hb
    refine ⟨?_, ih hc (by omega)⟩
    have hcat : (content (pbufCat c t)).length = (content c).length + (content t).length := by
      rw [content_pbufCat, List.length_append]
    show (p.totLen + totLen t) % 65536 = p.payload.length + (content (pbufCat c t)).length
    rw [hcat, hp, totLen_eq ht, Pbuf.len]
    omega

theorem pos_pbufCat {h t : List Pbuf} (hh : ∀ p ∈ h, 0 < p.len) (ht : ∀ p ∈ t, 0 < p.len) :
    ∀ p ∈ pbufCat h t, 0 < p.len := by
  intro p hp
  rcases List.mem_append.1 hp with hp | hp
  · obtain ⟨q, hq, rfl⟩ := List.mem_map.1 hp
    exact hh q hq
  · exact ht p hp

end FortiRdp.Lwip
