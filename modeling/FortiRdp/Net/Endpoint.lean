/-
Network addresses (`Endpoint`): a host name and a port, read from `hostname{:port}`.
-/
import FortiRdp.Util.Str

namespace FortiRdp.Net

open Util

structure Endpoint where
  hostname : Bytes
  port : UInt16
  deriving DecidableEq, Repr

namespace Endpoint

/-- The decimal text of a number, `std::to_string`. -/
def decimal (n : Nat) : Bytes := ascii (toString n)

theorem isdigit_decimal {n : Nat} {c : UInt8} (h : c ∈ decimal n) : isdigit c = true := by
  obtain ⟨d, hd, rfl⟩ := List.mem_map.1 h
  have hrepr : (toString n).toList = Nat.toDigits 10 n := Nat.toList_repr
  rw [hrepr] at hd
  have hdigit := Nat.isDigit_of_mem_toDigits (by decide) (by decide) hd
  simp only [Char.isDigit, Bool.and_eq_true, decide_eq_true_eq] at hdigit
  have hlow : 48 ≤ d.toNat := hdigit.1
  have hhigh : d.toNat ≤ 57 := hdigit.2
  have key : ∀ k < 10, isdigit (48 + k).toUInt8 = true := by decide
  obtain ⟨k, hk⟩ := Nat.exists_eq_add_of_le hlow
  rw [hk]
  exact key k (by omega)

/-- `to_string`. -/
def toBytes (ep : Endpoint) : Bytes := ep.hostname ++ [58] ++ decimal ep.port.toNat

/-- The position of the last `:` or `]`. -/
def lastDelim (address : Bytes) : Option Nat := findLastNotOf (fun c => c != 58 && c != 93) address

/-- The port of an address, `none` when it is not valid. -/
def parsePort (s : Bytes) : Option UInt16 :=
  match str2i s with
  | none => none
  | some portValue => if 0 < portValue ∧ portValue ≤ 65535 then some portValue.toNat.toUInt16 else none

/-- The constructor from an address, `init`. -/
def init (address : Bytes) (defaultPort : UInt16) : Except Exn Endpoint :=
  match lastDelim address with
  | some p =>
    if address[p]? = some 58 then
      match trim (address.take p), parsePort (address.drop (p + 1)) with
      | .ok hostname, some port => if hostname = [] then .error .invalidArgument else .ok { hostname, port }
      | .ok _, none => .error .invalidArgument
      | .error e, _ => .error e
    else whole
  | none => whole
where
  whole : Except Exn Endpoint := do
    let hostname ← trim (cStr address)
    if hostname = [] then throw .invalidArgument
    pure { hostname, port := defaultPort }

end Endpoint

end FortiRdp.Net
