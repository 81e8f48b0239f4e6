/-
The length of the network mask (`PPInterface::netmask`). lwIP keeps the mask in network byte order; the probe of the loop
starts in the middle of the word.
-/
import FortiRdp.Run.Bits

namespace FortiRdp.Net

open FortiRdp.Run.Bits

/-- `PPInterface::netmask`, of the word that lwIP has for the mask. -/
def netmask (addr : BitVec 32) : Nat := probed addr 32 0x8000#32 0

/-- The order of the bytes of a word in memory. -/
inductive ByteOrder
  | littleEndian | bigEndian
  deriving DecidableEq, Repr

/-- `lwip_htonl`. -/
def htonl (x : BitVec 32) : ByteOrder → BitVec 32
  | .bigEndian => x
  | .littleEndian =>
    ((x &&& 0x000000ff#32) <<< 24) ||| ((x &&& 0x0000ff00#32) <<< 8) |||
      ((x &&& 0x00ff0000#32) >>> 8) ||| ((x &&& 0xff000000#32) >>> 24)

/-- The mask with `n` bits set from the left, at most all of them. -/
def prefixMask (n : Nat) : BitVec 32 := BitVec.ofNat 32 (2 ^ 32 - 2 ^ (32 - n))

/-- The longest prefix whose mask is in the half of the word that the loop visits. -/
def visitedPrefix : ByteOrder → Nat
  | .littleEndian => 16
  | .bigEndian => 0

/-- The loop visits the low half of the word. -/
theorem netmask_eq (addr : BitVec 32) : netmask addr = onesBelow addr 16 := by
  have hprobe : 0x8000#32 = BitVec.twoPow 32 15 := rfl
  unfold netmask
  rw [hprobe, probed_twoPow addr 0 (by decide) (by decide), Nat.zero_add]

theorem onesBelow_le_places (addr : BitVec 32) (n : Nat) : onesBelow addr n ≤ n := by
  have h := (List.range n).countP_le_length (p := addr.getLsbD)
  rwa [List.length_range] at h

/-- The bits of the masks in memory, and where they are. -/
theorem prefixMask_spec : ∀ order : ByteOrder, ∀ n < 33, ones (htonl (prefixMask n) order) = n ∧
    ((htonl (prefixMask n) order).toNat < 2 ^ 16 ↔ n ≤ visitedPrefix order) := by
  rintro (_ | _) <;> decide

/-- `netmask` gives the number of bits of the mask exactly when they are all in the low half of the word: the length of a
prefix up to 16 where the first byte is the low one, and of none but the empty prefix where it is the high one. -/
theorem netmask_iff (addr : BitVec 32) (order : ByteOrder) (n : Nat) :
    (netmask addr = ones addr ↔ addr.toNat < 2 ^ 16) ∧
      (netmask (htonl (prefixMask n) order) = n ↔ n ≤ visitedPrefix order) := by
  have hbits : ∀ addr : BitVec 32, netmask addr = ones addr ↔ addr.toNat < 2 ^ 16 := by
    intro addr
    rw [netmask_eq]
    exact onesBelow_eq_ones_iff addr (by decide)
  refine ⟨hbits addr, ?_⟩
  by_cases hn : n < 33
  · obtain ⟨hones, hlow⟩ := prefixMask_spec order n hn
    rw [← hlow, ← hbits, hones]
  · -- the loop never counts so far
    have hle : netmask (htonl (prefixMask n) order) ≤ 16 := by
      rw [netmask_eq]
      exact onesBelow_le_places _ 16
    have hvisited : visitedPrefix order ≤ 16 := by cases order <;> decide
    constructor <;> intro h <;> omega

/-- The mask of a single host, in either order. -/
theorem netmask_host : netmask 0xffffffff#32 = 16 ∧ ones 0xffffffff#32 = 32 := by decide

end FortiRdp.Net
