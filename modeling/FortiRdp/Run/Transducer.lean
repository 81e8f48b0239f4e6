/-
Deterministic stream transducers: a machine that answers every symbol of its input with output, until it
has come to the end or has failed. A caller that has room for so much output at a time pulls on it; what
it gets in the end does not depend on the room or on how the input was cut.
-/
import Mathlib.Data.List.Basic
import Mathlib.Tactic

namespace FortiRdp.Run

inductive Condition (ε : Type) where
  | running
  | ended
  | failed (e : ε)
  deriving DecidableEq, Repr

structure Transducer (ι ο ε : Type) where
  State : Type
  feed : State → ι → List ο × State
  condition : State → Condition ε

namespace Transducer

variable {ι ο ε : Type} (t : Transducer ι ο ε)

/-! ## Whole inputs -/

/-- The output for an input; what comes after the end is not looked at. -/
def output (s : t.State) : List ι → List ο
  | [] => []
  | c :: input =>
    match t.condition s with
    | .running => (t.feed s c).1 ++ output (t.feed s c).2 input
    | .ended | .failed _ => []

/-- The state after an input. -/
def after (s : t.State) : List ι → t.State
  | [] => s
  | c :: input =>
    match t.condition s with
    | .running => after (t.feed s c).2 input
    | .ended | .failed _ => s

variable {t}

theorem after_stopped {s : t.State} (h : t.condition s ≠ .running) (input : List ι) : t.after s input = s := by
  cases input with
  | nil => rfl
  | cons c input =>
    unfold after
    split
    · rename_i hrun
      exact absurd hrun h
    · rfl
    · rfl

theorem output_stopped {s : t.State} (h : t.condition s ≠ .running) (input : List ι) : t.output s input = [] := by
  cases input with
  | nil => rfl
  | cons c input =>
    unfold output
    split
    · rename_i hrun
      exact absurd hrun h
    · rfl
    · rfl

theorem after_cons {s : t.State} (h : t.condition s = .running) (c : ι) (input : List ι) :
    t.after s (c :: input) = t.after (t.feed s c).2 input := by
  rw [after, h]

theorem output_cons {s : t.State} (h : t.condition s = .running) (c : ι) (input : List ι) :
    t.output s (c :: input) = (t.feed s c).1 ++ t.output (t.feed s c).2 input := by
  rw [output, h]

theorem after_append : ∀ (a b : List ι) (s : t.State), t.after s (a ++ b) = t.after (t.after s a) b
  | [], b, s => rfl
  | c :: a, b, s => by
    by_cases h : t.condition s = .running
    · rw [List.cons_append, after_cons h, after_cons h, after_append a b]
    · rw [after_stopped h, after_stopped h, after_stopped h]

theorem output_append : ∀ (a b : List ι) (s : t.State),
    t.output s (a ++ b) = t.output s a ++ t.output (t.after s a) b
  | [], b, s => rfl
  | c :: a, b, s => by
    by_cases h : t.condition s = .running
    · rw [List.cons_append, output_cons h, output_cons h, after_cons h, output_append a b, List.append_assoc]
    · rw [output_stopped h, output_stopped h, after_stopped h, output_stopped h]
      rfl

/-! ## Pulling -/

/-- Why a pull has stopped. -/
inductive Stop (ε : Type) where
  | full
  | starved
  | ended
  | failed (e : ε)
  deriving DecidableEq, Repr

/-- What a pull answers: its output, and the output that had no room, the state and the input that are left. -/
structure Pulled (t : Transducer ι ο ε) where
  stop : Stop ε
  output : List ο
  pending : List ο
  state : t.State
  input : List ι

variable (t) in
/-- Take output for as long as there is room for it, first what is pending. -/
def pull (pending : List ο) (s : t.State) (input : List ι) (room : Nat) : Pulled t :=
  if room < pending.length then
    { stop := .full, output := pending.take room, pending := pending.drop room, state := s, input }
  else
    match t.condition s, input with
    | .ended, input => { stop := .ended, output := pending, pending := [], state := s, input }
    | .failed e, input => { stop := .failed e, output := pending, pending := [], state := s, input }
    | .running, [] => { stop := .starved, output := pending, pending := [], state := s, input := [] }
    | .running, c :: input =>
      let r := pull (t.feed s c).1 (t.feed s c).2 input (room - pending.length)
      { r with output := pending ++ r.output }

/-- What a pull leaves to do: nothing is lost, and with room left the input is used up. -/
structure PullSpec (pending : List ο) (s : t.State) (input : List ι) (room : Nat) (r : Pulled t) : Prop where
  output : r.output ++ (r.pending ++ t.output r.state r.input) = pending ++ t.output s input
  after : t.after r.state r.input = t.after s input
  le_room : r.output.length ≤ room
  full : r.stop = .full → r.output.length = room
  drained : r.output.length < room → r.pending = [] ∧ t.output r.state r.input = [] ∧ r.state = t.after s input
  failed : ∀ e, r.stop = .failed e ↔ r.stop ≠ .full ∧ t.condition r.state = .failed e

/-- There is no room for what is pending. -/
theorem pull_full {pending : List ο} {room : Nat} (h : room < pending.length) (s : t.State) (input : List ι) :
    t.pull pending s input room =
      { stop := .full, output := pending.take room, pending := pending.drop room, state := s, input } := by
  cases input <;> (unfold pull; rw [if_pos h])

theorem pullSpec_full {pending : List ο} {room : Nat} (h : room < pending.length) (s : t.State) (input : List ι) :
    PullSpec pending s input room
      { stop := .full, output := pending.take room, pending := pending.drop room, state := s, input : Pulled t } where
  output := by rw [← List.append_assoc, List.take_append_drop]
  after := rfl
  le_room := List.length_take_le ..
  full _ := by
    rw [List.length_take]
    omega
  drained hlt := by
    rw [List.length_take] at hlt
    omega
  failed e := ⟨nofun, fun h => absurd rfl h.1⟩

/-- All that is pending is taken, and there is nothing more to come from this input. -/
theorem pullSpec_last {pending : List ο} {room : Nat} {s : t.State} {input : List ι} {stop : Stop ε}
    (h : ¬ room < pending.length) (hout : t.output s input = []) (hafter : t.after s input = s) (hfull : stop ≠ .full)
    (hfailed : ∀ e, stop = .failed e ↔ t.condition s = .failed e) :
    PullSpec pending s input room { stop, output := pending, pending := [], state := s, input : Pulled t } where
  output := rfl
  after := rfl
  le_room := Nat.not_lt.1 h
  full hs := absurd hs hfull
  drained _ := ⟨rfl, hout, hafter.symm⟩
  failed e := (hfailed e).trans ⟨fun hc => ⟨hfull, hc⟩, fun hc => hc.2⟩

theorem pull_spec : ∀ (input : List ι) (pending : List ο) (s : t.State) (room : Nat),
    PullSpec pending s input room (t.pull pending s input room)
  | input, pending, s, room => by
    by_cases hroom : room < pending.length
    · rw [pull_full hroom]
      exact pullSpec_full hroom s input
    · have hstopped : ∀ {stop : Stop ε}, t.condition s ≠ .running → stop ≠ .full →
          (∀ e, stop = .failed e ↔ t.condition s = .failed e) →
            PullSpec pending s input room { stop, output := pending, pending := [], state := s, input } :=
        fun hc hfull hfailed => pullSpec_last hroom (output_stopped hc input) (after_stopped hc input) hfull hfailed
      cases hc : t.condition s with
      | ended =>
        have hpull : t.pull pending s input room =
            { stop := .ended, output := pending, pending := [], state := s, input } := by
          cases input <;> (unfold pull; rw [if_neg hroom]; simp only [hc])
        rw [hpull]
        refine hstopped (by rw [hc]; nofun) nofun fun e => ?_
        rw [hc]
        exact ⟨nofun, nofun⟩
      | failed d =>
        have hpull : t.pull pending s input room =
            { stop := .failed d, output := pending, pending := [], state := s, input } := by
          cases input <;> (unfold pull; rw [if_neg hroom]; simp only [hc])
        rw [hpull]
        refine hstopped (by rw [hc]; nofun) nofun fun e => ?_
        rw [hc, Stop.failed.injEq, Condition.failed.injEq]
      | running =>
        cases input with
        | nil =>
          unfold pull
          rw [if_neg hroom]
          simp only [hc]
          refine pullSpec_last hroom rfl rfl nofun fun e => ?_
          rw [hc]
          exact ⟨nofun, nofun⟩
        | cons c input =>
          have hrest := pull_spec input (t.feed s c).1 (t.feed s c).2 (room - pending.length)
          have hle := hrest.le_room
          unfold pull
          rw [if_neg hroom]
          simp only [hc]
          constructor
          · rw [List.append_assoc, hrest.output, output_cons hc]
          · rw [hrest.after, after_cons hc]
          · rw [List.length_append]
            omega
          · intro hs
            have hlen := hrest.full hs
            rw [List.length_append]
            omega
          · intro hlt
            rw [List.length_append] at hlt
            rw [after_cons hc]
            exact hrest.drained (by omega)
          · exact hrest.failed

end Transducer

end FortiRdp.Run
