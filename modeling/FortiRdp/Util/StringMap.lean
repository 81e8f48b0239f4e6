/-
String maps (`StringMap`, over `strimap`): names are compared with `_stricmp`, which ignores case and
ends at the first NUL.
-/
import FortiRdp.Run.SortedMap
import FortiRdp.Util.Str

namespace FortiRdp.Util

/-- What `_stricmp` compares. -/
def foldName (name : Bytes) : List Nat := (lower (cStr name)).map UInt8.toNat

/-- What `std::string` compares. -/
def strKey (s : Bytes) : List Nat := s.map UInt8.toNat

abbrev StringMap := Run.SortedMap Bytes foldName

namespace StringMap

/-- `get_str`. -/
def getStr (m : StringMap) (name : Bytes) : Option Bytes := m.get name

/-- `get_str_value`. -/
def getStrValue (m : StringMap) (name defaultValue : Bytes) : Bytes := (m.getStr name).getD defaultValue

/-- `get_int`. -/
def getInt (m : StringMap) (name : Bytes) : Option Int := (m.getStr name).bind str2i

/-- `get_int_value`. -/
def getIntValue (m : StringMap) (name : Bytes) (defaultValue : Int) : Int := (m.getInt name).getD defaultValue

/-- `add` of a list of named values; an item without a value is a name. -/
def add (m : StringMap) (line : Bytes) (delim : UInt8) : Except Exn StringMap :=
  (split delim line).foldlM (fun m item =>
    if item = [] then .ok m
    else match find 61 item with
      | some pos => do
        let name ← trim (item.take pos)
        let value ← trimleft (item.drop (pos + 1))
        pure (m.set name value)
      | none => do
        let name ← trim item
        pure (m.set name [])) m

/-- The constructor from a line. -/
def ofLine (line : Bytes) (delim : UInt8) : Except Exn StringMap := add .empty line delim

/-- `join`. -/
def join (m : StringMap) (delim : Bytes) : Bytes :=
  let buffer := m.entries.flatMap fun e => e.1 ++ [61] ++ e.2 ++ delim
  buffer.take (buffer.length - delim.length)

/-- An item whose value is made of blanks only: cutting them throws. -/
def blankValue (item : Bytes) : Bool :=
  match find 61 item with
  | some pos => onlyBlanks (item.drop (pos + 1))
  | none => false

/-- A name and a value are set without their blanks, unless the value has nothing else. -/
theorem set_trimmed (m : StringMap) (name value : Bytes) :
    (do
      let name ← trim name
      let value ← trimleft value
      pure (m.set name value) : Except Exn StringMap) =
      if onlyBlanks value then .error .outOfRange else .ok (m.set (trimmed name) (value.dropWhile isBlank)) := by
  rw [trim_eq]
  cases hblank : onlyBlanks value with
  | true =>
    rw [trimleft_onlyBlanks hblank]
    rfl
  | false =>
    rw [trimleft_ok hblank]
    rfl

/-- The items are set one after the other, up to one with a value of blanks. -/
theorem add_outcome (m : StringMap) (line : Bytes) (delim : UInt8) :
    if (split delim line).any blankValue = true then add m line delim = .error .outOfRange
    else ∃ m', add m line delim = .ok m' := by
  unfold add
  generalize split delim line = items
  induction items generalizing m with
  | nil => exact ⟨m, rfl⟩
  | cons item items ih =>
    rw [List.any_cons, List.foldlM_cons]
    by_cases hempty : item = []
    · subst hempty
      exact ih m
    rw [if_neg hempty]
    unfold blankValue
    cases hfind : find 61 item with
    | none =>
      simp only [Bool.false_or]
      rw [trim_eq]
      exact ih _
    | some pos =>
      simp only
      rw [set_trimmed]
      cases hblank : onlyBlanks (item.drop (pos + 1)) with
      | true => rfl
      | false =>
        rw [Bool.false_or]
        exact ih _

end StringMap

/-! ## Names -/

/-- Names without NUL that `iequal` tells apart are told apart by the map. -/
theorem foldName_ne {a b : Bytes} (ha : 0 ∉ a) (hb : 0 ∉ b) (h : iequal a b = false) : foldName a ≠ foldName b := by
  intro heq
  unfold foldName at heq
  rw [cStr_eq ha, cStr_eq hb] at heq
  have hlower : lower a = lower b := List.map_injective_iff.2 (fun _ _ h => UInt8.toNat_inj.1 h) heq
  unfold iequal at h
  rw [hlower, beq_self_eq_true] at h
  cases h

end FortiRdp.Util
