/-
Byte strings, the copy into a buffer (`memcpy`), and 16-bit words in memory. The program runs on
little-endian hosts: a `u16_t` at word index `i` of a buffer is the bytes `2·i` and `2·i + 1`, low
byte first, and `lwip_htons`/`lwip_ntohs` exchange the two bytes of a word.
-/
import Mathlib.Data.List.Basic
import Mathlib.Tactic

namespace FortiRdp

abbrev Bytes := List UInt8

/-- `memcpy(m + off, d, …)`; what would fall behind the end of `m` is not stored. -/
def overwrite (m : Bytes) (off : Nat) (d : Bytes) : Bytes :=
  (m.take off ++ d ++ m.drop (off + d.length)).take m.length

@[simp] theorem length_overwrite (m : Bytes) (off : Nat) (d : Bytes) :
    (overwrite m off d).length = m.length := by
  simp only [overwrite, List.length_take, List.length_append, List.length_drop]
  omega

@[simp] theorem overwrite_nil (m : Bytes) (off : Nat) : overwrite m off [] = m := by
  simp [overwrite]

theorem overwrite_eq {m d : Bytes} {off : Nat} (h : off + d.length ≤ m.length) :
    overwrite m off d = m.take off ++ d ++ m.drop (off + d.length) := by
  unfold overwrite
  apply List.take_of_length_le
  simp only [List.length_append, List.length_take, List.length_drop]
  omega

/-- Two copies one behind the other are one copy. -/
theorem overwrite_overwrite {m a b : Bytes} {off off' : Nat} (ho : off' = off + a.length)
    (h : off + a.length + b.length ≤ m.length) : overwrite (overwrite m off a) off' b = overwrite m off (a ++ b) := by
  subst ho
  have ha : off + a.length ≤ m.length := by omega
  have hlen : (m.take off ++ a).length = off + a.length := by
    simp only [List.length_append, List.length_take]; omega
  rw [overwrite_eq (by simpa using h), overwrite_eq ha,
    overwrite_eq (m := m) (d := a ++ b) (by simp only [List.length_append]; omega)]
  rw [List.take_left' hlen, ← List.drop_drop, List.drop_left' hlen, List.drop_drop]
  simp only [List.append_assoc, List.length_append, Nat.add_assoc]

/-- A copy over the whole buffer leaves nothing of it. -/
theorem overwrite_all {m d : Bytes} (h : d.length = m.length) : overwrite m 0 d = d := by
  rw [overwrite_eq (by omega), Nat.zero_add, h, List.drop_length]
  simp

/-! ## 16-bit words -/

/-- The word at index `i`. -/
def load16 (m : Bytes) (i : Nat) : Nat := (m.getD (2 * i) 0).toNat + 256 * (m.getD (2 * i + 1) 0).toNat

/-- The low and the high byte of a word. -/
def lo8 (v : Nat) : UInt8 := UInt8.ofNat v
def hi8 (v : Nat) : UInt8 := UInt8.ofNat (v / 256)

/-- Stores a word at index `i`. -/
def store16 (m : Bytes) (i v : Nat) : Bytes := overwrite m (2 * i) [lo8 v, hi8 v]

/-- `lwip_htons` and `lwip_ntohs`. -/
def htons (v : Nat) : Nat := v % 256 * 256 + v / 256 % 256

@[simp] theorem length_store16 (m : Bytes) (i v : Nat) : (store16 m i v).length = m.length := by
  simp [store16]

theorem toNat_lo8 (v : Nat) : (lo8 v).toNat = v % 256 := by
  simp [lo8]

theorem toNat_hi8 (v : Nat) : (hi8 v).toNat = v / 256 % 256 := by
  simp [hi8]

theorem htons_div (v : Nat) : htons v / 256 = v % 256 := by
  have hb : v / 256 % 256 < 256 := Nat.mod_lt _ (by omega)
  unfold htons
  omega

theorem htons_mod (v : Nat) : htons v % 256 = v / 256 % 256 := by
  have hb : v / 256 % 256 < 256 := Nat.mod_lt _ (by omega)
  unfold htons
  omega

theorem hi8_htons (v : Nat) : hi8 (htons v) = lo8 v := by
  apply UInt8.toNat_inj.1
  rw [toNat_hi8, toNat_lo8, htons_div]
  omega

theorem lo8_htons (v : Nat) : lo8 (htons v) = hi8 v := by
  apply UInt8.toNat_inj.1
  rw [toNat_hi8, toNat_lo8, htons_mod]

end FortiRdp
