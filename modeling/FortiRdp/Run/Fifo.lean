/-
A byte channel as its two ends see it: what was put in, what came out, and what is still inside.
The three fit together in every value of the type, so a machine that is followed by a channel
never loses, repeats or reorders anything.
-/
import FortiRdp.Run.Machine

namespace FortiRdp.Run

structure Fifo (α : Type*) where
  accepted : List α
  taken : List α
  held : List α
  conserved : taken ++ held = accepted

inductive FifoOp (α : Type*) where
  | put (d : List α)
  | get (n : Nat)

variable {α : Type*}

def Fifo.empty : Fifo α := { accepted := [], taken := [], held := [], conserved := rfl }

def Fifo.put (f : Fifo α) (d : List α) : Fifo α :=
  { accepted := f.accepted ++ d
    taken := f.taken
    held := f.held ++ d
    conserved := by rw [← List.append_assoc, f.conserved] }

def Fifo.get (f : Fifo α) (n : Nat) : Fifo α :=
  { accepted := f.accepted
    taken := f.taken ++ f.held.take n
    held := f.held.drop n
    conserved := by rw [List.append_assoc, List.take_append_drop, f.conserved] }

/-- The channel as a machine: one can always put, and get at most what is inside. -/
def fifo : Machine (Fifo α) (FifoOp α)
  | f, .put d => some (f.put d)
  | f, .get n => if n ≤ f.held.length then some (f.get n) else none

theorem fifo_put (f : Fifo α) (d : List α) : exec fifo f [.put d] = some (f.put d) := rfl

theorem fifo_get {f : Fifo α} {n : Nat} (h : n ≤ f.held.length) : exec fifo f [.get n] = some (f.get n) := by
  simp [exec, fifo, h]

end FortiRdp.Run
