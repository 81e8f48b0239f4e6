/-
Obfuscated strings (`obfstring`): every character is rotated left by a key between 1 and 7. The
operations work on the obfuscated text; on a text without NUL each of them is the operation on the text
that is hidden. A cut string goes through `c_str`, so it ends at the first NUL.
-/
import FortiRdp.Util.Str

namespace FortiRdp.Util

/-- `_rotl8`. -/
def rotl8 (c k : UInt8) : UInt8 := ⟨c.toBitVec.rotateLeft k.toNat⟩

/-- `_rotr8`. -/
def rotr8 (c k : UInt8) : UInt8 := ⟨c.toBitVec.rotateRight k.toNat⟩

structure ObfString where
  key : UInt8
  text : Bytes
  deriving DecidableEq, Repr

/-- `create_obfuscation_key`, from `std::clock`. -/
def createObfuscationKey (clock : Nat) : UInt8 := (clock % 7 + 1).toUInt8

namespace ObfString

def encode (c k : UInt8) : UInt8 := rotl8 c k

def decode (c k : UInt8) : UInt8 := rotr8 c k

/-- `append` of a plain string. -/
def append (o : ObfString) (s : Bytes) : ObfString := { o with text := o.text ++ s.map (encode · o.key) }

/-- The constructor from a plain string. -/
def ofBytes (clock : Nat) (s : Bytes) : ObfString := append { key := createObfuscationKey clock, text := [] } s

/-- `operator[]`. -/
def at' (o : ObfString) (i : Nat) : UInt8 := decode (o.text.getD i 0) o.key

/-- `uncrypt`. -/
def uncrypt (o : ObfString) : Bytes := o.text.map (decode · o.key)

/-- `append` of an obfuscated string. -/
def appendObf (o str : ObfString) : ObfString := o.append str.uncrypt

def find (ch : UInt8) (o : ObfString) : Option Nat := Util.find (encode ch o.key) o.text

/-- `substr`. -/
def substr (o : ObfString) (pos : Nat) (len : Option Nat) : Except Exn ObfString :=
  (Util.substr o.text pos len).map fun t => { o with text := cStr t }

/-- An obfuscated blank. -/
def isBlank (o : ObfString) (c : UInt8) : Bool := c == encode 32 o.key || c == encode 9 o.key

def trimright (o : ObfString) : Except Exn ObfString :=
  if o.text = [] then .ok o else o.substr 0 (some (afterLast o.isBlank o.text))

def trimleft (o : ObfString) : Except Exn ObfString :=
  if o.text = [] then .ok o
  else match findFirstNotOf o.isBlank o.text with
    | none => .error .outOfRange
    | some i => o.substr i none

def trim (o : ObfString) : Except Exn ObfString :=
  if o.text = [] then .ok o else o.trimright.bind trimleft

/-- `str::split`: a delimiter at the end does not begin another part. -/
def split (o : ObfString) (delim : UInt8) : List ObfString :=
  go [] o.text
where
  go (part : Bytes) : Bytes → List ObfString
    | [] => [{ o with text := cStr part }]
    | c :: text =>
      if decode c o.key ≠ delim then go (part ++ [c]) text
      else if text = [] then [{ o with text := cStr part }]
      else { o with text := cStr part } :: go [] text

/-! ## What is hidden -/

/-- The string hides `s`. -/
def Hides (o : ObfString) (s : Bytes) : Prop := o.text = s.map (encode · o.key)

theorem decode_encode (c k : UInt8) : decode (encode c k) k = c := by
  have key : ∀ (m : Fin 8) (b : BitVec 8), (b.rotateLeft m.val).rotateRight m.val = b := by decide +kernel
  have h := key ⟨k.toNat % 8, Nat.mod_lt _ (by decide)⟩ c.toBitVec
  simp only [BitVec.rotateLeft_mod_eq_rotateLeft, BitVec.rotateRight_mod_eq_rotateRight] at h
  unfold decode encode rotr8 rotl8
  rw [h]

theorem encode_injective {c d k : UInt8} (h : encode c k = encode d k) : c = d := by
  rw [← decode_encode c k, h, decode_encode]

theorem encode_zero (k : UInt8) : encode 0 k = 0 := by
  have key : ∀ m : Fin 8, (0 : BitVec 8).rotateLeft m.val = 0 := by decide
  have h := key ⟨k.toNat % 8, Nat.mod_lt _ (by decide)⟩
  simp only [BitVec.rotateLeft_mod_eq_rotateLeft] at h
  show (⟨(0 : BitVec 8).rotateLeft k.toNat⟩ : UInt8) = 0
  rw [h]
  rfl

theorem encode_beq (c d k : UInt8) : (encode c k == encode d k) = (c == d) := by
  rw [Bool.eq_iff_iff, beq_iff_eq, beq_iff_eq]
  exact ⟨encode_injective, congrArg (encode · k)⟩

theorem hides_ofBytes (clock : Nat) (s : Bytes) : (ofBytes clock s).Hides s := by
  simp [Hides, ofBytes, append]

theorem uncrypt_hides {o : ObfString} {s : Bytes} (h : o.Hides s) : o.uncrypt = s := by
  unfold uncrypt
  rw [h, List.map_map]
  exact (List.map_congr_left fun c _ => decode_encode c o.key).trans (List.map_id s)

theorem uncrypt_append (o : ObfString) (s : Bytes) : (o.append s).uncrypt = o.uncrypt ++ s := by
  unfold uncrypt append
  rw [List.map_append, List.map_map]
  exact congrArg (_ ++ ·) ((List.map_congr_left fun c _ => decode_encode c o.key).trans (List.map_id s))

theorem find_hides {o : ObfString} {s : Bytes} (h : o.Hides s) (ch : UInt8) : o.find ch = Util.find ch s := by
  unfold find Util.find
  rw [h, List.findIdx?_map]
  congr 1
  funext c
  exact encode_beq c ch o.key

theorem cStr_map (k : UInt8) (s : Bytes) : cStr (s.map (encode · k)) = (cStr s).map (encode · k) := by
  unfold cStr
  rw [List.takeWhile_map]
  congr 2
  funext c
  have h := encode_beq c 0 k
  rw [encode_zero] at h
  simp only [Function.comp, bne, h]

/-- Cutting the hidden text is cutting the string, up to the first NUL. -/
theorem substr_hides {o : ObfString} {s t : Bytes} (h : o.Hides s) {pos : Nat} {len : Option Nat}
    (ht : Util.substr s pos len = .ok t) : ∃ o', o.substr pos len = .ok o' ∧ o'.Hides (cStr t) ∧ o'.key = o.key := by
  unfold substr Util.substr at *
  rw [h, List.length_map]
  split at ht
  · cases ht
  rename_i hpos
  rw [if_neg hpos]
  refine ⟨_, rfl, ?_, rfl⟩
  show cStr _ = _
  rw [← cStr_map]
  cases ht
  cases len with
  | none => simp [List.map_drop]
  | some n => simp [List.map_drop, List.map_take]

theorem isBlank_encode (o : ObfString) (c : UInt8) : o.isBlank (encode c o.key) = Util.isBlank c := by
  unfold isBlank Util.isBlank
  rw [encode_beq, encode_beq]

theorem findFirstNotOf_hides {o : ObfString} {s : Bytes} (h : o.Hides s) :
    findFirstNotOf o.isBlank o.text = findFirstNotOf Util.isBlank s := by
  unfold findFirstNotOf
  rw [h, List.findIdx?_map]
  congr 1
  funext c
  simp only [Function.comp, isBlank_encode]

theorem afterLast_hides {o : ObfString} {s : Bytes} (h : o.Hides s) :
    afterLast o.isBlank o.text = afterLast Util.isBlank s := by
  have hlast : findLastNotOf o.isBlank o.text = findLastNotOf Util.isBlank s := by
    unfold findLastNotOf
    rw [h, ← List.map_reverse, List.findIdx?_map, List.length_map]
    congr 2
    funext c
    simp only [Function.comp, isBlank_encode]
  unfold afterLast
  rw [hlast]

theorem text_eq_nil {o : ObfString} {s : Bytes} (h : o.Hides s) : o.text = [] ↔ s = [] := by
  rw [h, List.map_eq_nil_iff]

/-- Trimming the string is trimming the hidden text. -/
theorem trim_hides {o : ObfString} {s t : Bytes} (h : o.Hides s) (hnul : 0 ∉ s) (ht : Util.trim s = .ok t) :
    ∃ o', o.trim = .ok o' ∧ o'.Hides t := by
  unfold Util.trim at ht
  unfold trim trimright
  by_cases hs : s = []
  · rw [if_pos hs] at ht
    rw [if_pos ((text_eq_nil h).2 hs)]
    cases ht
    exact ⟨o, rfl, h⟩
  rw [if_neg hs] at ht
  rw [if_neg fun h' => hs ((text_eq_nil h).1 h'), if_neg fun h' => hs ((text_eq_nil h).1 h'), afterLast_hides h]
  have hcut : Util.substr s 0 (some (afterLast Util.isBlank s)) = .ok (Util.trimright s) := rfl
  obtain ⟨r, hr, hides, hkey⟩ := substr_hides h hcut
  have hright : 0 ∉ Util.trimright s := fun h0 => hnul (List.mem_of_mem_take h0)
  rw [cStr_eq hright] at hides
  rw [hr]
  show ∃ o', r.trimleft = .ok o' ∧ o'.Hides t
  unfold Util.trimleft at ht
  unfold trimleft
  by_cases hr' : Util.trimright s = []
  · rw [if_pos hr'] at ht
    rw [if_pos ((text_eq_nil hides).2 hr')]
    cases ht
    exact ⟨r, rfl, hides⟩
  rw [if_neg hr'] at ht
  rw [if_neg fun h' => hr' ((text_eq_nil hides).1 h'), findFirstNotOf_hides hides]
  cases hf : findFirstNotOf Util.isBlank (Util.trimright s) with
  | none => rw [hf] at ht; cases ht
  | some i =>
    rw [hf] at ht
    obtain ⟨o', ho', hides', -⟩ := substr_hides hides ht
    refine ⟨o', ho', ?_⟩
    have hleft : 0 ∉ t := by
      simp only [Util.substr] at ht
      split at ht
      · cases ht
      · obtain rfl := Except.ok.inj ht
        exact fun h0 => hright (List.mem_of_mem_drop h0)
    rwa [cStr_eq hleft] at hides'

/-- The parts between the delimiters of a plain string; a delimiter at its end begins no part. -/
def parts (delim : UInt8) (s : Bytes) : List Bytes :=
  go [] s
where
  go (part : Bytes) : Bytes → List Bytes
    | [] => [part]
    | c :: s =>
      if c ≠ delim then go (part ++ [c]) s
      else if s = [] then [part]
      else part :: go [] s

/-- Splitting the string is splitting the hidden text. -/
theorem split_hides {o : ObfString} {s : Bytes} (h : o.Hides s) (hnul : 0 ∉ s) (delim : UInt8) :
    List.Forall₂ (fun o' p => o'.Hides p ∧ 0 ∉ p) (o.split delim) (parts delim s) := by
  have hcut : ∀ part : Bytes, 0 ∉ part →
      ({ o with text := cStr (part.map (encode · o.key)) } : ObfString).Hides part ∧ 0 ∉ part := by
    intro part hpart
    refine ⟨?_, hpart⟩
    show cStr _ = _
    rw [cStr_map, cStr_eq hpart]
  have hgo : ∀ (s part : Bytes), 0 ∉ part → 0 ∉ s → List.Forall₂ (fun o' p => o'.Hides p ∧ 0 ∉ p)
      (split.go o delim (part.map (encode · o.key)) (s.map (encode · o.key))) (parts.go delim part s) := by
    intro s
    induction s with
    | nil =>
      intro part hpart _
      exact .cons (hcut part hpart) .nil
    | cons c s ih =>
      intro part hpart hs
      have hc : 0 ≠ c := fun hc => hs (hc ▸ List.mem_cons_self ..)
      have hs' : 0 ∉ s := fun h0 => hs (List.mem_cons_of_mem _ h0)
      rw [List.map_cons]
      unfold split.go parts.go
      rw [decode_encode]
      split
      · have hpart' : 0 ∉ part ++ [c] := by
          rw [List.mem_append, List.mem_singleton]
          rintro (h0 | h0)
          · exact hpart h0
          · exact hc h0
        have ih' := ih (part ++ [c]) hpart' hs'
        rwa [List.map_append] at ih'
      · by_cases hnil : s = []
        · subst hnil
          rw [if_pos rfl, if_pos List.map_nil]
          exact .cons (hcut part hpart) .nil
        · rw [if_neg hnil, if_neg fun h => hnil (List.map_eq_nil_iff.1 h)]
          exact .cons (hcut part hpart) (ih [] List.not_mem_nil hs')
  have hrun := hgo s [] List.not_mem_nil hnul
  rw [← h] at hrun
  exact hrun

end ObfString

end FortiRdp.Util
