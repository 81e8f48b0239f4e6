/-
Byte buffers (`ByteBuffer`, over `std::vector`): an append beyond the capacity makes it grow by one half,
or to what is needed.
-/
import FortiRdp.Util.Env

namespace FortiRdp.Util

structure ByteBuffer where
  bytes : Bytes
  capacity : Nat
  fits : bytes.length ≤ capacity
  deriving DecidableEq, Repr

namespace ByteBuffer

def ofCapacity (capacity : Nat) : ByteBuffer := ⟨[], capacity, Nat.zero_le _⟩

def clear (b : ByteBuffer) : ByteBuffer := ⟨[], b.capacity, Nat.zero_le _⟩

def reserve (b : ByteBuffer) (capacity : Nat) : ByteBuffer :=
  ⟨b.bytes, max b.capacity capacity, b.fits.trans (Nat.le_max_left _ _)⟩

/-- The capacity after an append to a vector. -/
def grown (capacity needed : Nat) : Nat :=
  if needed ≤ capacity then capacity else max (capacity + capacity / 2) needed

theorem le_grown (capacity needed : Nat) : needed ≤ grown capacity needed := by
  unfold grown
  split <;> omega

def append (b : ByteBuffer) (data : Bytes) : ByteBuffer :=
  ⟨b.bytes ++ data, grown b.capacity (b.bytes.length + data.length), by
    rw [List.length_append]
    exact le_grown _ _⟩

/-- `to_obfstring`. -/
def toObfstring (b : ByteBuffer) : EnvM ObfString := newObf b.bytes

@[simp] theorem bytes_clear (b : ByteBuffer) : b.clear.bytes = [] := rfl

@[simp] theorem capacity_clear (b : ByteBuffer) : b.clear.capacity = b.capacity := rfl

@[simp] theorem bytes_append (b : ByteBuffer) (data : Bytes) : (b.append data).bytes = b.bytes ++ data := rfl

/-- The capacity does not shrink. -/
theorem le_capacity_append (b : ByteBuffer) (data : Bytes) : b.capacity ≤ (b.append data).capacity := by
  unfold append grown
  simp only
  split <;> omega

/-- An append that fits leaves the capacity. -/
theorem capacity_append {b : ByteBuffer} {data : Bytes} (h : b.bytes.length + data.length ≤ b.capacity) :
    (b.append data).capacity = b.capacity := if_pos h

end ByteBuffer

end FortiRdp.Util
