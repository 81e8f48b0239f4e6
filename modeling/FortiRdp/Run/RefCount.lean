/-
Objects that are counted: each has a link to at most one other, a count of the references to it, and a
value. A reference is held from outside or by a link, and an object is freed with its last one. A freed
object stays in its place as `none`, so that its address is not used again.
-/
import Mathlib.Data.List.Basic
import Mathlib.Tactic

namespace FortiRdp.Run

structure Obj (α : Type*) where
  next : Option Nat
  ref : Nat
  val : α
  deriving DecidableEq, Repr

/-- The objects by their addresses. -/
abbrev Heap (α : Type*) := List (Option (Obj α))

namespace Heap

variable {α : Type*}

/-- The object at an address, `none` when it is freed or was never there. -/
def get (h : Heap α) (a : Nat) : Option (Obj α) := (h[a]?).join

/-- A new object; its address is the length of the heap. -/
def alloc (h : Heap α) (next : Option Nat) (val : α) : Heap α := h ++ [some { next, ref := 1, val }]

/-- Changes the link and the value of an object. -/
def put (h : Heap α) (a : Nat) (next : Option Nat) (val : α) : Option (Heap α) :=
  (h.get a).map fun o => h.set a (some { o with next, val })

/-- One reference more, on a counter that ends below `limit`. -/
def retain (limit : Nat) (h : Heap α) (a : Nat) : Option (Heap α) :=
  match h.get a with
  | none => none
  | some o => if o.ref + 1 < limit then some (h.set a (some { o with ref := o.ref + 1 })) else none

/-- One reference less; the last one frees the object and gives up the reference of its link. -/
def release : Nat → Heap α → Option Nat → Option (Heap α)
  | _, h, none => some h
  | 0, _, some _ => none
  | fuel + 1, h, some a =>
    match h.get a with
    | none => none
    | some o =>
      match o.ref with
      | 0 => none
      | 1 => release fuel (h.set a none) o.next
      | n + 2 => some (h.set a (some { o with ref := n + 1 }))

/-- The link and the value of an object. -/
def look (h : Heap α) (a : Nat) : Option (Option Nat × α) := (h.get a).map fun o => (o.next, o.val)

/-- The count of an object, 0 when it is freed. -/
def refs (h : Heap α) (a : Nat) : Nat := ((h.get a).map Obj.ref).getD 0

/-- How many links lead to an address. -/
def links (h : Heap α) (a : Nat) : Nat := h.countP fun c => c.any fun o => o.next == some a

/-- The values of the objects from an address on, as a loop along the links reads them. -/
def values : Nat → Heap α → Option Nat → Option (List α)
  | _, _, none => some []
  | 0, _, some _ => none
  | fuel + 1, h, some a => (h.get a).bind fun o => (values fuel h o.next).map (o.val :: ·)

/-- The objects from an address on, with their values, up to the end of the links. -/
def Chain (h : Heap α) : Option Nat → List (Nat × α) → Prop
  | p, [] => p = none
  | p, (a, v) :: l => p = some a ∧ ∃ n, h.look a = some (n, v) ∧ Chain h n l

/-! ## Places -/

variable {h h' : Heap α} {a b x : Nat} {o : Obj α} {c : Option (Obj α)} {n : Option Nat} {v : α}

theorem lt_of_get (h₀ : h.get a = some o) : a < h.length := by
  by_contra hlt
  rw [get, List.getElem?_eq_none (by omega)] at h₀
  cases h₀

theorem get_of_le (h₀ : h.length ≤ a) : h.get a = none := by rw [get, List.getElem?_eq_none h₀]; rfl

theorem get_set (ha : a < h.length) (c : Option (Obj α)) (x : Nat) :
    get (h.set a c) x = if x = a then c else h.get x := by
  by_cases hx : x = a
  · subst hx
    rw [get, List.getElem?_set_self ha, if_pos rfl]
    rfl
  · rw [get, List.getElem?_set_ne (fun hxa => hx hxa.symm), if_neg hx]
    rfl

theorem get_alloc (h : Heap α) (n : Option Nat) (v : α) (x : Nat) :
    (h.alloc n v).get x = if x = h.length then some { next := n, ref := 1, val := v } else h.get x := by
  unfold get alloc
  by_cases hx : x = h.length
  · simp [hx]
  · rw [if_neg hx]
    by_cases hlt : x < h.length
    · rw [List.getElem?_append_left hlt]
    · have hout : (h ++ [some ⟨n, 1, v⟩])[x]? = none := by
        apply List.getElem?_eq_none
        rw [List.length_append, List.length_singleton]
        omega
      rw [hout, List.getElem?_eq_none (by omega)]

@[simp] theorem length_alloc (h : Heap α) (n : Option Nat) (v : α) : (h.alloc n v).length = h.length + 1 := by
  simp [alloc]

theorem get_of_look (h₀ : h.look a = some (n, v)) : ∃ o, h.get a = some o ∧ o.next = n ∧ o.val = v := by
  obtain ⟨o, ho, hnv⟩ := Option.map_eq_some_iff.1 h₀
  exact ⟨o, ho, (Prod.mk.inj hnv).1, (Prod.mk.inj hnv).2⟩

theorem look_of_get (h₀ : h.get a = some o) : h.look a = some (o.next, o.val) := by rw [look, h₀]; rfl

/-- Where two heaps look the same, what is gone in one is gone in the other. -/
theorem gone_of_look (hlook : h'.look a = h.look a) (h₀ : h.get a = none) : h'.get a = none := by
  rw [look, look, h₀] at hlook
  exact Option.map_eq_none_iff.1 hlook

theorem refs_of_get (h₀ : h.get a = some o) : h.refs a = o.ref := by rw [refs, h₀]; rfl

theorem lt_of_look {d : Option Nat × α} (h₀ : h.look a = some d) : a < h.length := by
  obtain ⟨o, ho, -⟩ := get_of_look (n := d.1) (v := d.2) h₀
  exact lt_of_get ho

theorem look_alloc (h : Heap α) (n : Option Nat) (v : α) (x : Nat) :
    (h.alloc n v).look x = if x = h.length then some (n, v) else h.look x := by
  unfold look
  rw [get_alloc]
  split <;> rfl

theorem refs_alloc (h : Heap α) (n : Option Nat) (v : α) (x : Nat) :
    (h.alloc n v).refs x = if x = h.length then 1 else h.refs x := by
  unfold refs
  rw [get_alloc]
  split <;> rfl

/-! ## Links -/

/-- One at the address that a pointer leads to, nothing elsewhere. -/
def toward (p : Option Nat) (x : Nat) : Nat := if p = some x then 1 else 0

@[simp] theorem toward_none (x : Nat) : toward none x = 0 := rfl

@[simp] theorem toward_self (a : Nat) : toward (some a) a = 1 := if_pos rfl

theorem toward_ne (hx : x ≠ a) : toward (some a) x = 0 := if_neg fun ha => hx (Option.some.inj ha).symm

theorem toward_le (p : Option Nat) (x : Nat) : toward p x ≤ 1 := by
  unfold toward
  split <;> omega

/-- Whether the object in a place links to `x`, as a number. -/
def pointsTo (c : Option (Obj α)) (x : Nat) : Nat := toward (c.bind Obj.next) x

theorem pointsTo_le_links (h : Heap α) (a x : Nat) : pointsTo (h.get a) x ≤ h.links x := by
  unfold pointsTo toward
  split
  · rename_i hp
    obtain ⟨o, ho, hn⟩ := Option.bind_eq_some_iff.1 hp
    have hlt := lt_of_get ho
    rw [get, List.getElem?_eq_getElem hlt] at ho
    apply List.countP_pos_iff.2
    refine ⟨_, List.getElem_mem hlt, ?_⟩
    rw [show h[a] = some o from ho]
    exact beq_iff_eq.2 hn
  · exact Nat.zero_le _

theorem pointsTo_eq (c : Option (Obj α)) (x : Nat) :
    pointsTo c x = if c.any (fun o => o.next == some x) then 1 else 0 := by
  cases c <;> simp [pointsTo, toward]

theorem links_set (ha : a < h.length) (c : Option (Obj α)) (x : Nat) :
    links (h.set a c) x + pointsTo (h.get a) x = h.links x + pointsTo c x := by
  have hle := pointsTo_le_links h a x
  have hget : h.get a = h[a] := by rw [get, List.getElem?_eq_getElem ha]; rfl
  rw [hget, pointsTo_eq] at hle
  rw [hget, pointsTo_eq, pointsTo_eq]
  unfold links at *
  rw [List.countP_set ha]
  omega

theorem links_alloc (h : Heap α) (n : Option Nat) (v : α) (x : Nat) :
    (h.alloc n v).links x = h.links x + toward n x := by
  unfold links alloc
  rw [List.countP_append]
  simp [toward, List.countP_singleton]

/-- Where something links to an address, something does. -/
theorem exists_of_links (h₀ : 0 < h.links x) : ∃ a v, h.look a = some (some x, v) := by
  obtain ⟨c, hc, hp⟩ := List.countP_pos_iff.1 h₀
  obtain ⟨o, rfl, hn⟩ := Option.any_eq_true _ _ |>.1 hp
  obtain ⟨a, ha, hget⟩ := List.getElem_of_mem hc
  have hget' : h.get a = some o := by rw [get, List.getElem?_eq_getElem ha, hget]; rfl
  exact ⟨a, o.val, by rw [look_of_get hget', beq_iff_eq.1 hn]⟩

theorem links_pos (h₀ : h.look a = some (some x, v)) : 0 < h.links x := by
  obtain ⟨o, ho, hn, -⟩ := get_of_look h₀
  have hle := pointsTo_le_links h a x
  rw [ho, pointsTo, Option.bind_some, hn, toward_self] at hle
  omega

/-- Two objects that link to one address are two links. -/
theorem links_two {w : α} (ha : h.look a = some (some x, v)) (hb : h.look b = some (some x, w)) (hne : a ≠ b) :
    2 ≤ h.links x := by
  obtain ⟨o, ho, hn, -⟩ := get_of_look ha
  have hset := links_set (lt_of_look ha) none x
  have hpos : 0 < links (h.set a none) x := by
    apply links_pos (a := b) (v := w)
    unfold look
    rw [get_set (lt_of_look ha), if_neg hne.symm]
    exact hb
  rw [ho, pointsTo, Option.bind_some, hn, toward_self] at hset
  simp only [pointsTo, Option.bind_none, toward_none] at hset
  omega

/-! ## Chains -/

variable {p : Option Nat} {l l' : List (Nat × α)}

theorem chain_nil : Chain h none l ↔ l = [] := by
  cases l with
  | nil => simp [Chain]
  | cons d l => simp [Chain]

/-- The chain from a pointer is the only one. -/
theorem Chain.unique (hl : Chain h p l) (hl' : Chain h p l') : l = l' := by
  induction l generalizing p l' with
  | nil => rw [hl] at hl'; exact (chain_nil.1 hl').symm
  | cons d l ih =>
    obtain ⟨a, v⟩ := d
    obtain ⟨rfl, n, hlook, htail⟩ := hl
    cases l' with
    | nil => cases hl'
    | cons d' l' =>
      obtain ⟨a', v'⟩ := d'
      obtain ⟨hp, n', hlook', htail'⟩ := hl'
      cases hp
      rw [hlook] at hlook'
      cases hlook'
      rw [ih htail htail']

/-- A chain depends only on the objects on it. -/
theorem Chain.congr (hl : Chain h p l) (heq : ∀ y ∈ l.map Prod.fst, h'.look y = h.look y) : Chain h' p l := by
  induction l generalizing p with
  | nil => exact hl
  | cons d l ih =>
    obtain ⟨a, v⟩ := d
    obtain ⟨hp, n, hlook, htail⟩ := hl
    refine ⟨hp, n, ?_, ih htail fun y hy => heq y (List.mem_cons_of_mem _ hy)⟩
    rw [heq a (List.mem_cons_self ..), hlook]

/-- From an object of a chain on, the rest of it is a chain. -/
theorem Chain.suffix {k : List (Nat × α)} (hl : Chain h p (k ++ (a, v) :: l)) : Chain h (some a) ((a, v) :: l) := by
  induction k generalizing p with
  | nil =>
    obtain ⟨rfl, hrest⟩ := hl
    exact ⟨rfl, hrest⟩
  | cons d k ih =>
    obtain ⟨-, n, -, htail⟩ := hl
    exact ih htail

theorem Chain.nodup (hl : Chain h p l) : (l.map Prod.fst).Nodup := by
  induction l generalizing p with
  | nil => exact List.nodup_nil
  | cons d l ih =>
    obtain ⟨a, v⟩ := d
    obtain ⟨rfl, n, hlook, htail⟩ := hl
    rw [List.map_cons, List.nodup_cons]
    refine ⟨fun hmem => ?_, ih htail⟩
    -- met again, the object would start a shorter chain than its own
    obtain ⟨⟨y, w⟩, hy, rfl⟩ := List.mem_map.1 hmem
    obtain ⟨k, m, rfl⟩ := List.append_of_mem hy
    have hself : Chain h (some y) ((y, v) :: (k ++ (y, w) :: m)) := ⟨rfl, n, hlook, htail⟩
    have heq := hself.unique htail.suffix
    have hlen := congrArg List.length heq
    simp only [List.length_cons, List.length_append] at hlen
    omega

theorem Chain.look (hl : Chain h p l) {d : Nat × α} (hd : d ∈ l) : ∃ n, h.look d.1 = some (n, d.2) := by
  obtain ⟨k, m, rfl⟩ := List.append_of_mem hd
  obtain ⟨-, n, hlook, -⟩ := Chain.suffix (a := d.1) (v := d.2) hl
  exact ⟨n, hlook⟩

theorem Chain.lt (hl : Chain h p l) (hx : x ∈ l.map Prod.fst) : x < h.length := by
  obtain ⟨d, hd, rfl⟩ := List.mem_map.1 hx
  obtain ⟨n, hn⟩ := hl.look hd
  exact lt_of_look hn

/-- An object of a chain is its first one or has a link from another one of it. -/
theorem Chain.linked (hl : Chain h (some a) l) (hx : x ∈ l.map Prod.fst) : x = a ∨ 0 < h.links x := by
  obtain ⟨⟨y, w⟩, hy, rfl⟩ := List.mem_map.1 hx
  obtain ⟨k, m, rfl⟩ := List.append_of_mem hy
  cases k using List.reverseRecOn with
  | nil => exact .inl (Option.some.inj hl.1).symm
  | append_singleton k d =>
    rw [List.append_assoc, List.singleton_append] at hl
    obtain ⟨-, n, hlook, rfl, -⟩ := Chain.suffix (a := d.1) (v := d.2) hl
    exact .inr (links_pos hlook)

theorem Chain.head_mem (hl : Chain h (some a) l) : a ∈ l.map Prod.fst := by
  cases l with
  | nil => cases hl
  | cons d l =>
    rw [Option.some.inj hl.1]
    exact List.mem_cons_self ..

theorem Chain.values (hl : Chain h p l) {fuel : Nat} (hfuel : l.length ≤ fuel) :
    h.values fuel p = some (l.map Prod.snd) := by
  induction l generalizing p fuel with
  | nil =>
    rw [hl]
    cases fuel <;> rfl
  | cons d l ih =>
    obtain ⟨a, v⟩ := d
    obtain ⟨rfl, n, hlook, htail⟩ := hl
    obtain ⟨o, ho, rfl, rfl⟩ := get_of_look hlook
    obtain ⟨fuel, rfl⟩ : ∃ k, fuel = k + 1 := ⟨fuel - 1, by rw [List.length_cons] at hfuel; omega⟩
    rw [Heap.values, ho, Option.bind_some, ih htail (by rw [List.length_cons] at hfuel; omega)]
    rfl

/-- Where no address has more than one link, two chains that meet and whose heads have none are one. -/
theorem Chain.meet (hlin : ∀ x, h.links x ≤ 1) (hl : Chain h (some a) l) (hl' : Chain h (some b) l')
    (ha : h.links a = 0) (hb : h.links b = 0) (hx : x ∈ l.map Prod.fst) (hx' : x ∈ l'.map Prod.fst) : a = b := by
  obtain ⟨⟨y, w⟩, hy, rfl⟩ := List.mem_map.1 hx
  obtain ⟨⟨y', w'⟩, hy', hyy⟩ := List.mem_map.1 hx'
  obtain ⟨k, m, rfl⟩ := List.append_of_mem hy
  obtain ⟨k', m', rfl⟩ := List.append_of_mem hy'
  simp only at hyy
  subst hyy
  -- from the place where they meet on the two are equal; go back to their heads
  have hsame : (y', w') :: m' = (y', w) :: m := Chain.unique hl'.suffix hl.suffix
  rw [hsame] at hl'
  clear hx hx' hy hy' hsame
  generalize y' = y at hl hl'
  induction k using List.reverseRecOn generalizing k' y w m with
  | nil =>
    have hay : a = y := Option.some.inj hl.1
    cases k' using List.reverseRecOn with
    | nil => exact hay.trans (Option.some.inj hl'.1).symm
    | append_singleton k' d' =>
      rw [List.append_assoc, List.singleton_append] at hl'
      obtain ⟨-, n, hlook, rfl, -⟩ := Chain.suffix (a := d'.1) (v := d'.2) hl'
      have hpos := links_pos hlook
      rw [← hay, ha] at hpos
      cases hpos
  | append_singleton k d ih =>
    rw [List.append_assoc, List.singleton_append] at hl
    obtain ⟨-, n, hlook, rfl, -⟩ := Chain.suffix (a := d.1) (v := d.2) hl
    cases k' using List.reverseRecOn with
    | nil =>
      have hby : b = y := Option.some.inj hl'.1
      have hpos := links_pos hlook
      rw [← hby, hb] at hpos
      cases hpos
    | append_singleton k' d' =>
      rw [List.append_assoc, List.singleton_append] at hl'
      obtain ⟨-, n', hlook', rfl, -⟩ := Chain.suffix (a := d'.1) (v := d'.2) hl'
      have hdd : d = d' := by
        by_contra hne
        have h1 : d.1 ≠ d'.1 := by
          intro hfst
          rw [hfst, hlook'] at hlook
          exact hne (Prod.ext hfst (Prod.mk.inj (Option.some.inj hlook)).2.symm)
        have := links_two hlook hlook' h1
        have := hlin y
        omega
      subst hdd
      exact ih _ _ _ _ hl hl'

/-! ## What the operations change -/

theorem refs_set (ha : a < h.length) (c : Option (Obj α)) (x : Nat) :
    refs (h.set a c) x = if x = a then (c.map Obj.ref).getD 0 else h.refs x := by
  unfold refs
  rw [get_set ha]
  split <;> rfl

theorem look_set (ha : a < h.length) (c : Option (Obj α)) (x : Nat) :
    look (h.set a c) x = if x = a then c.map (fun o => (o.next, o.val)) else h.look x := by
  unfold look
  rw [get_set ha]
  split <;> rfl

/-- The same objects, but for their counts. -/
structure SameObjs (h h' : Heap α) : Prop where
  length : h'.length = h.length
  look : ∀ x, h'.look x = h.look x
  links : ∀ x, h'.links x = h.links x

theorem sameObjs_set (hget : h.get a = some o) (k : Nat) : SameObjs h (h.set a (some { o with ref := k })) := by
  have ha := lt_of_get hget
  refine ⟨List.length_set, fun x => ?_, fun x => ?_⟩
  · rw [look_set ha]
    split
    · rename_i hx
      rw [hx, look_of_get hget]
      rfl
    · rfl
  · have hlinks := links_set ha (some { o with ref := k }) x
    rw [hget] at hlinks
    exact Nat.add_right_cancel hlinks

theorem retain_spec {limit : Nat} (hget : h.get a = some o) (hlim : o.ref + 1 < limit) :
    ∃ h', retain limit h a = some h' ∧ SameObjs h h' ∧ ∀ x, h'.refs x = h.refs x + toward (some a) x := by
  refine ⟨h.set a (some { o with ref := o.ref + 1 }), ?_, sameObjs_set hget _, fun x => ?_⟩
  · rw [retain, hget]
    exact if_pos hlim
  · rw [refs_set (lt_of_get hget)]
    by_cases hx : x = a
    · rw [hx, if_pos rfl, toward_self, refs_of_get hget]
      rfl
    · rw [if_neg hx, toward_ne hx, Nat.add_zero]

theorem put_spec (hlook : h.look a = some (n, v)) (n' : Option Nat) (v' : α) :
    ∃ h', h.put a n' v' = some h' ∧ h'.length = h.length ∧
      (∀ x, h'.look x = if x = a then some (n', v') else h.look x) ∧ (∀ x, h'.refs x = h.refs x) ∧
      ∀ x, h'.links x + toward n x = h.links x + toward n' x := by
  obtain ⟨o, ho, rfl, rfl⟩ := get_of_look hlook
  have ha := lt_of_get ho
  refine ⟨h.set a (some { o with next := n', val := v' }), by rw [put, ho]; rfl, List.length_set, look_set ha _,
    fun x => ?_, fun x => ?_⟩
  · rw [refs_set ha]
    split
    · rename_i hx
      rw [hx, refs_of_get ho]
      rfl
    · rfl
  · have hlinks := links_set ha (some { o with next := n', val := v' }) x
    rwa [ho] at hlinks

/-- Objects may be gone, but the ones that are left are the same, with no more links to them. -/
structure Shrinks (h h' : Heap α) : Prop where
  length : h'.length = h.length
  look : ∀ x, h'.get x = none ∨ h'.look x = h.look x
  links : ∀ x, h'.links x ≤ h.links x

theorem SameObjs.shrinks (hs : SameObjs h h') : Shrinks h h' :=
  ⟨hs.length, fun x => .inr (hs.look x), fun x => (hs.links x).le⟩

theorem Shrinks.trans {h₁ h₂ h₃ : Heap α} (h₁₂ : Shrinks h₁ h₂) (h₂₃ : Shrinks h₂ h₃) : Shrinks h₁ h₃ := by
  refine ⟨h₂₃.length.trans h₁₂.length, fun x => ?_, fun x => (h₂₃.links x).trans (h₁₂.links x)⟩
  rcases h₂₃.look x with hx | hx
  · exact .inl hx
  · rcases h₁₂.look x with hx' | hx'
    · exact .inl (gone_of_look hx hx')
    · exact .inr (hx.trans hx')

theorem Shrinks.gone (hs : Shrinks h h') (h₀ : h.get a = none) : h'.get a = none := by
  rcases hs.look a with hgone | hsame
  · exact hgone
  · exact gone_of_look hsame h₀

theorem shrinks_free (hget : h.get a = some o) : Shrinks h (h.set a none) := by
  have ha := lt_of_get hget
  refine ⟨List.length_set, fun x => ?_, fun x => ?_⟩
  · rw [get_set ha, look_set ha]
    by_cases hx : x = a
    · exact .inl (if_pos hx)
    · exact .inr (if_neg hx)
  · have hlinks := links_set ha none x
    simp only [pointsTo, Option.bind_none, toward_none] at hlinks
    omega

/-! ## Counted references -/

/-- The count of an object is the number of references held from outside, which is `own`, and of links to it;
an object has a reference, and the links from it end. -/
structure Counted (h : Heap α) (own : Nat → Nat) : Prop where
  count : ∀ x, h.refs x = own x + h.links x
  pos : ∀ x o, h.get x = some o → 0 < o.ref
  ends : ∀ x o, h.get x = some o → ∃ l, Chain h (some x) l

variable {own u : Nat → Nat}

theorem counted_nil : Counted ([] : Heap α) fun _ => 0 := ⟨fun _ => rfl, nofun, nofun⟩

theorem Counted.of_eq (hc : Counted h own) (heq : ∀ x, u x = own x) : Counted h u := by
  rwa [show u = own from funext heq]

theorem Counted.alive (hc : Counted h own) (hx : 0 < own x + h.links x) : ∃ o, h.get x = some o ∧ o.ref = h.refs x := by
  rw [← hc.count] at hx
  cases hget : h.get x with
  | none => rw [refs, hget] at hx; cases hx
  | some o => exact ⟨o, rfl, (refs_of_get hget).symm⟩

theorem Counted.chain (hc : Counted h own) (hx : 0 < own x) : ∃ l, Chain h (some x) l := by
  obtain ⟨o, ho, -⟩ := hc.alive (x := x) (by omega)
  exact hc.ends x o ho

/-- Nothing refers to what is not there. -/
theorem Counted.links_dead (hc : Counted h own) (h₀ : h.get x = none) : h.links x = 0 := by
  have hcount := hc.count x
  rw [refs, h₀] at hcount
  simp only [Option.map_none, Option.getD_none] at hcount
  omega

/-- A chain of objects that are the same or gone survives as long as its head is held. -/
theorem Counted.chain_kept (hc : Counted h' own) (hl : Chain h p l)
    (hs : ∀ y ∈ l.map Prod.fst, h'.get y = none ∨ h'.look y = h.look y)
    (hp : ∀ x, p = some x → 0 < own x + h'.links x) : Chain h' p l := by
  induction l generalizing p with
  | nil => exact hl
  | cons d l ih =>
    obtain ⟨a, v⟩ := d
    obtain ⟨rfl, n, hlook, htail⟩ := hl
    obtain ⟨o, ho, -⟩ := hc.alive (hp a rfl)
    have hlook' : h'.look a = some (n, v) := by
      rcases hs a (List.mem_cons_self ..) with hx | hx
      · rw [ho] at hx; cases hx
      · rw [hx, hlook]
    refine ⟨rfl, n, hlook', ih htail (fun y hy => hs y (List.mem_cons_of_mem _ hy)) fun x hx => ?_⟩
    rw [hx] at hlook'
    have := links_pos hlook'
    omega

/-- A new object is held, and takes the reference to the object it links to from outside. -/
theorem Counted.alloc (hc : Counted h own) (n : Option Nat) (v : α)
    (hown : ∀ x, u x + toward n x = own x + toward (some h.length) x) (hn : ∃ l, Chain h n l) :
    Counted (h.alloc n v) u := by
  have hnew : h.refs h.length = 0 := by rw [refs, get_of_le le_rfl]; rfl
  have hold {p : Option Nat} {l : List (Nat × α)} (hl : Chain h p l) : Chain (h.alloc n v) p l := by
    refine hl.congr fun y hy => ?_
    rw [look_alloc, if_neg (hl.lt hy).ne]
  refine ⟨fun x => ?_, fun x o ho => ?_, fun x o ho => ?_⟩
  · rw [refs_alloc, links_alloc]
    have := hc.count x
    have := hown x
    split
    · rename_i hx
      subst hx
      rw [toward_self] at *
      omega
    · rename_i hx
      rw [toward_ne hx] at *
      omega
  · rw [get_alloc] at ho
    split at ho
    · cases ho; exact Nat.one_pos
    · exact hc.pos x o ho
  · rw [get_alloc] at ho
    split at ho
    · rename_i hx
      obtain ⟨l, hl⟩ := hn
      exact ⟨(x, v) :: l, rfl, n, by rw [look_alloc, if_pos hx], hold hl⟩
    · obtain ⟨l, hl⟩ := hc.ends x o ho
      exact ⟨l, hold hl⟩

theorem Counted.retain (limit : Nat) (hc : Counted h own) (hx : 0 < own a + h.links a) (hlim : h.refs a + 1 < limit) :
    ∃ h', h.retain limit a = some h' ∧ SameObjs h h' ∧ (∀ x, h'.refs x = h.refs x + toward (some a) x) ∧
      Counted h' fun x => own x + toward (some a) x := by
  obtain ⟨o, ho, href⟩ := hc.alive hx
  obtain ⟨h', hret, hsame, hrefs⟩ := retain_spec ho (href ▸ hlim)
  refine ⟨h', hret, hsame, hrefs, fun x => ?_, fun x o' ho' => ?_, fun x o' ho' => ?_⟩
  · rw [hrefs, hsame.links, hc.count]
    omega
  · have hlt : 0 < h'.refs x := by
      have hlook := hsame.look x
      rw [look_of_get ho'] at hlook
      obtain ⟨o'', ho'', -⟩ := get_of_look hlook.symm
      have := hc.pos x o'' ho''
      rw [hrefs, refs_of_get ho'']
      omega
    rwa [refs_of_get ho'] at hlt
  · have hlook := hsame.look x
    rw [look_of_get ho'] at hlook
    obtain ⟨o'', ho'', -⟩ := get_of_look hlook.symm
    obtain ⟨l, hl⟩ := hc.ends x o'' ho''
    exact ⟨l, hl.congr fun y _ => hsame.look y⟩

/-- A link that changes takes the reference to its new object from outside, and leaves the old one there. -/
theorem Counted.put (n' : Option Nat) (hc : Counted h own) (hlook : h.look a = some (n, v)) (v' : α)
    (hown : ∀ x, u x + toward n' x = own x + toward n x)
    (hend : ∃ l, Chain h n' l ∧ a ∉ l.map Prod.fst) :
    ∃ h', h.put a n' v' = some h' ∧ h'.length = h.length ∧
      (∀ x, h'.look x = if x = a then some (n', v') else h.look x) ∧ (∀ x, h'.refs x = h.refs x) ∧
      (∀ x, h'.links x + toward n x = h.links x + toward n' x) ∧ Counted h' u := by
  obtain ⟨h', hput, hlen, hlook', hrefs, hlinks⟩ := put_spec hlook n' v'
  obtain ⟨r, hr, har⟩ := hend
  have hends : ∀ l p, Chain h p l → ∃ l', Chain h' p l' := by
    intro l
    induction l with
    | nil => exact fun p hl => ⟨[], hl⟩
    | cons d l ih =>
      obtain ⟨y, w⟩ := d
      rintro p ⟨rfl, m, hy, htail⟩
      by_cases hya : y = a
      · refine ⟨(y, v') :: r, rfl, n', by rw [hlook', if_pos hya], hr.congr fun z hz => ?_⟩
        rw [hlook', if_neg (fun hza : z = a => har (hza ▸ hz))]
      · obtain ⟨l', hl'⟩ := ih m htail
        exact ⟨(y, w) :: l', rfl, m, by rw [hlook', if_neg hya, hy], hl'⟩
  have hback : ∀ x o, h'.get x = some o → ∃ o', h.get x = some o' ∧ o'.ref = o.ref := by
    intro x o ho
    have hx := hlook' x
    rw [look_of_get ho] at hx
    have hlive : ∃ o', h.get x = some o' := by
      split at hx
      · rename_i hxa
        obtain ⟨o', ho', -⟩ := get_of_look hlook
        exact ⟨o', hxa ▸ ho'⟩
      · obtain ⟨o', ho', -⟩ := get_of_look hx.symm
        exact ⟨o', ho'⟩
    obtain ⟨o', ho'⟩ := hlive
    exact ⟨o', ho', by rw [← refs_of_get ho', ← hrefs, refs_of_get ho]⟩
  refine ⟨h', hput, hlen, hlook', hrefs, hlinks, fun x => ?_, fun x o ho => ?_, fun x o ho => ?_⟩
  · have := hown x
    have := hlinks x
    have := hc.count x
    rw [hrefs]
    omega
  · obtain ⟨o', ho', href⟩ := hback x o ho
    exact href ▸ hc.pos x o' ho'
  · obtain ⟨o', ho', -⟩ := hback x o ho
    obtain ⟨l, hl⟩ := hc.ends x o' ho'
    exact hends l _ hl

/-- With its only reference an object is freed, and its link becomes a reference from outside. -/
theorem Counted.free (hc : Counted h own) (hget : h.get a = some o) (href : o.ref = 1)
    (hown : ∀ x, own x = u x + toward (some a) x) :
    Counted (h.set a none) fun x => u x + toward o.next x := by
  have ha := lt_of_get hget
  have hself := hc.count a
  rw [refs_of_get hget, href, hown, toward_self] at hself
  have hlinks : ∀ x, links (h.set a none) x + toward o.next x = h.links x := by
    intro x
    have := links_set ha none x
    rwa [hget] at this
  refine ⟨fun x => ?_, fun x o' ho' => ?_, fun x o' ho' => ?_⟩
  · have hx := hc.count x
    have hl := hlinks x
    rw [refs_set ha]
    by_cases hxa : x = a
    · rw [hxa] at hl ⊢
      rw [if_pos rfl, Option.map_none, Option.getD_none]
      omega
    · rw [if_neg hxa]
      rw [hown, toward_ne hxa] at hx
      omega
  · rw [get_set ha] at ho'
    split at ho'
    · cases ho'
    · exact hc.pos x o' ho'
  · rw [get_set ha] at ho'
    split at ho'
    · cases ho'
    · rename_i hxa
      obtain ⟨l, hl⟩ := hc.ends x o' ho'
      -- nothing links to the object that is gone, so no other chain has it
      have hnot : a ∉ l.map Prod.fst := fun hmem => by
        rcases hl.linked hmem with hax | hpos
        · exact hxa hax.symm
        · omega
      refine ⟨l, hl.congr fun y hy => ?_⟩
      rw [look_set ha, if_neg (fun hya : y = a => hnot (hya ▸ hy))]

theorem release_last {fuel : Nat} (hget : h.get a = some o) (href : o.ref = 1) :
    release (fuel + 1) h (some a) = release fuel (h.set a none) o.next := by
  rw [release, hget]
  simp only [href]

theorem release_more {fuel : Nat} (hget : h.get a = some o) (href : 1 < o.ref) :
    release (fuel + 1) h (some a) = some (h.set a (some { o with ref := o.ref - 1 })) := by
  obtain ⟨k, hk⟩ : ∃ k, o.ref = k + 2 := ⟨o.ref - 2, by omega⟩
  rw [release, hget]
  simp only [hk]
  rfl

/-- A chain whose objects have one reference each is freed as a whole. -/
theorem release_chain {fuel : Nat} (hl : Chain h p l) (hone : ∀ d ∈ l, h.refs d.1 = 1) (hfuel : l.length ≤ fuel) :
    ∃ h', release fuel h p = some h' ∧ (∀ d ∈ l, h'.get d.1 = none) ∧ ∀ x, h.get x = none → h'.get x = none := by
  induction l generalizing h p fuel with
  | nil =>
    refine ⟨h, ?_, nofun, fun _ hx => hx⟩
    rw [show p = none from hl]
    cases fuel <;> rfl
  | cons d l ih =>
    obtain ⟨a, v⟩ := d
    obtain ⟨fuel, rfl⟩ : ∃ k, fuel = k + 1 := ⟨fuel - 1, by rw [List.length_cons] at hfuel; omega⟩
    have hnodup := hl.nodup
    rw [List.map_cons, List.nodup_cons] at hnodup
    obtain ⟨rfl, n, hlook, htail⟩ := hl
    obtain ⟨o, ho, rfl, rfl⟩ := get_of_look hlook
    have ha := lt_of_get ho
    have hother : ∀ y ∈ l.map Prod.fst, y ≠ a := fun y hy hya => hnodup.1 (hya ▸ hy)
    have htail' : Chain (h.set a none) o.next l :=
      htail.congr fun y hy => by rw [look_set ha, if_neg (hother y hy)]
    obtain ⟨h', hrun, hdead, hstay⟩ := ih htail'
      (fun d hd => by
        rw [refs_set ha, if_neg (hother _ (List.mem_map_of_mem hd))]
        exact hone d (List.mem_cons_of_mem _ hd))
      (show l.length ≤ fuel by rw [List.length_cons] at hfuel; omega)
    refine ⟨h', ?_, fun d hd => ?_, fun x hx => hstay x ?_⟩
    · rw [release_last ho (refs_of_get ho ▸ hone _ (List.mem_cons_self ..)), hrun]
    · rcases List.mem_cons.1 hd with rfl | hd
      · exact hstay _ (by rw [get_set ha, if_pos rfl])
      · exact hdead d hd
    · rw [get_set ha]
      split
      · rfl
      · exact hx

/-- How many objects are left. -/
def live (h : Heap α) : Nat := h.countP Option.isSome

theorem live_set_none (hget : h.get a = some o) : live (h.set a none) + 1 = live h := by
  have ha := lt_of_get hget
  have hval : h[a] = some o := by rw [get, List.getElem?_eq_getElem ha] at hget; exact hget
  have hpos : 0 < h.countP Option.isSome := List.countP_pos_iff.2 ⟨_, List.getElem_mem ha, by rw [hval]; rfl⟩
  unfold live
  rw [List.countP_set ha, hval]
  simp only [Option.isSome_some, if_true, Option.isSome_none]
  simp only [Bool.false_eq_true, if_false]
  omega

theorem live_pos (hget : h.get a = some o) : 0 < live h := by
  have := live_set_none hget
  omega

/-- A reference that is given up: of several, the count goes down; of the last one, the object is freed. -/
theorem Counted.release {fuel : Nat} (hc : Counted h own) (hown : ∀ x, own x = u x + toward (some a) x)
    (hfuel : live h ≤ fuel) :
    ∃ h', h.release fuel (some a) = some h' ∧ Counted h' u ∧ Shrinks h h' ∧
      (1 < h.refs a → SameObjs h h' ∧ ∀ x, h'.refs x + toward (some a) x = h.refs x) ∧
      (h.refs a = 1 → h'.get a = none) := by
  induction fuel generalizing h own u a with
  | zero =>
    obtain ⟨o, ho, -⟩ := hc.alive (x := a) (by rw [hown, toward_self]; omega)
    have := live_pos ho
    omega
  | succ fuel ih =>
    obtain ⟨o, ho, hrefa⟩ := hc.alive (x := a) (by rw [hown, toward_self]; omega)
    have ha := lt_of_get ho
    have hpos := hc.pos a o ho
    by_cases hone : o.ref = 1
    · rw [release_last ho hone]
      have hfree := hc.free ho hone hown
      have hlive := live_set_none ho
      have hgone : Shrinks h (h.set a none) := shrinks_free ho
      cases hn : o.next with
      | none =>
        refine ⟨h.set a none, by rw [Heap.release], hfree.of_eq fun x => by rw [hn]; rfl, hgone, fun hmore => ?_,
          fun _ => by rw [get_set ha, if_pos rfl]⟩
        omega
      | some n =>
        rw [hn] at hfree
        obtain ⟨h', hrel, hc', hs, -⟩ := ih hfree (fun x => rfl) (by omega)
        refine ⟨h', hrel, hc', hgone.trans hs, fun hmore => by omega, fun _ => ?_⟩
        rcases hs.look a with hx | hx
        · exact hx
        · rw [look_set ha, if_pos rfl] at hx
          exact Option.map_eq_none_iff.1 hx
    · have hmore : 1 < o.ref := by omega
      have hsame := sameObjs_set ho (o.ref - 1)
      have hrefs : ∀ x, refs (h.set a (some { o with ref := o.ref - 1 })) x + toward (some a) x = h.refs x := by
        intro x
        rw [refs_set ha]
        by_cases hx : x = a
        · rw [hx, if_pos rfl, toward_self, refs_of_get ho]
          simp only [Option.map_some, Option.getD_some]
          omega
        · rw [if_neg hx, toward_ne hx, Nat.add_zero]
      refine ⟨_, release_more ho hmore, ⟨fun x => ?_, fun x o' ho' => ?_, fun x o' ho' => ?_⟩, hsame.shrinks,
        fun _ => ⟨hsame, hrefs⟩, fun hlast => by omega⟩
      · have := hrefs x
        have := hc.count x
        have := hown x
        rw [hsame.links]
        omega
      · rw [get_set ha] at ho'
        split at ho'
        · cases ho'
          simp only
          omega
        · exact hc.pos x o' ho'
      · have hlook := hsame.look x
        rw [look_of_get ho'] at hlook
        obtain ⟨o'', ho'', -⟩ := get_of_look hlook.symm
        obtain ⟨l, hl⟩ := hc.ends x o'' ho''
        exact ⟨l, hl.congr fun y _ => hsame.look y⟩

theorem Chain.length_le (hl : Chain h p l) : l.length ≤ h.length := by
  have hsub : l.map Prod.fst ⊆ List.range h.length := by
    intro z hz
    exact List.mem_range.2 (hl.lt hz)
  have hle := (List.subperm_of_subset hl.nodup hsub).length_le
  rwa [List.length_map, List.length_range] at hle

/-- An object that is not held has a link from another one. -/
theorem Counted.linked (hc : Counted h own) (hl : Chain h (some x) l) (hx : own x = 0) :
    ∃ y v, h.look y = some (some x, v) := by
  obtain ⟨d, hd, hdx⟩ := List.mem_map.1 hl.head_mem
  obtain ⟨n, hlook⟩ := hl.look hd
  obtain ⟨o, ho, -⟩ := get_of_look hlook
  have hpos := hc.pos _ _ ho
  have hcount := hc.count d.1
  rw [refs_of_get ho, hdx] at hcount
  exact exists_of_links (by omega)

/-- Nothing leaks: an object that is left is on the chain of one that is held. -/
theorem Counted.reached (hc : Counted h own) (hget : h.get a = some o) :
    ∃ x l, 0 < own x ∧ Chain h (some x) l ∧ a ∈ l.map Prod.fst := by
  -- against the links the chains grow, but not beyond the number of places
  have key : ∀ k x l, Chain h (some x) l → a ∈ l.map Prod.fst → h.length ≤ k + l.length →
      ∃ y l', 0 < own y ∧ Chain h (some y) l' ∧ a ∈ l'.map Prod.fst := by
    intro k
    induction k with
    | zero =>
      intro x l hl ha hk
      rcases Nat.eq_zero_or_pos (own x) with hx | hx
      · obtain ⟨y, v, hy⟩ := hc.linked hl hx
        have hlong : Chain h (some y) ((y, v) :: l) := ⟨rfl, _, hy, hl⟩
        have := hlong.length_le
        rw [List.length_cons] at this
        omega
      · exact ⟨x, l, hx, hl, ha⟩
    | succ k ih =>
      intro x l hl ha hk
      rcases Nat.eq_zero_or_pos (own x) with hx | hx
      · obtain ⟨y, v, hy⟩ := hc.linked hl hx
        have hlong : Chain h (some y) ((y, v) :: l) := ⟨rfl, _, hy, hl⟩
        exact ih y _ hlong (List.mem_cons_of_mem _ ha) (by rw [List.length_cons]; omega)
      · exact ⟨x, l, hx, hl, ha⟩
  obtain ⟨l, hl⟩ := hc.ends a o hget
  exact key h.length a l hl hl.head_mem (by omega)

end Heap

end FortiRdp.Run
