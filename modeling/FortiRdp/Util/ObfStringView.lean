/-
What programs do with obfuscated strings, seen as what they do with the clear texts. Two operations tell the two
apart: a cut goes through `c_str`, and the loops over the characters count with an `int`.
-/
import FortiRdp.Run.View
import FortiRdp.Util.ByteBuffer

namespace FortiRdp.Util

namespace ObfString

/-! ## The operations -/

/-- The loop of `append`, from an index on; the overflow of an `int` is not defined. -/
def encodeLoop (key : UInt8) : Nat → Bytes → Option Bytes
  | _, [] => some []
  | index, c :: str => if index = intMax then none else (encodeLoop key (index + 1) str).map (encode c key :: ·)

/-- `append` of the first `n` characters of a buffer. -/
def appendBuffer (o : ObfString) (str : Bytes) (n : Nat) : Option ObfString :=
  (encodeLoop o.key 0 (str.take n)).map fun text => { o with text := o.text ++ text }

/-- `append` of a string. -/
def appendString (o : ObfString) (str : Bytes) : Option ObfString := o.appendBuffer str str.length

/-- `append` of another obfuscated string, character by character. -/
def appendOther (o str : ObfString) : Option ObfString :=
  (encodeLoop o.key 0 (str.text.map (decode · str.key))).map fun text => { o with text := o.text ++ text }

def pushBack (o : ObfString) (c : UInt8) : ObfString := { o with text := o.text ++ [encode c o.key] }

def findFirstNotOf (o : ObfString) (str : Bytes) : Option Nat :=
  Util.findFirstNotOf (fun c => decide (c ∈ str.map (encode · o.key))) o.text

def findLastNotOf (o : ObfString) (str : Bytes) : Option Nat :=
  Util.findLastNotOf (fun c => decide (c ∈ str.map (encode · o.key))) o.text

def size (o : ObfString) : Nat := o.text.length

/-- The loop of `uncrypt` into a buffer of `size` characters. -/
def decodeLoop (key : UInt8) (size offset : Nat) : Nat → Bytes → Bytes → Option Bytes
  | _, [], buffer => some buffer
  | index, c :: text, buffer =>
    if index + offset < size then
      if index = intMax then none else decodeLoop key size offset (index + 1) text (buffer.set (offset + index) (decode c key))
    else some buffer

end ObfString

/-- `append` of an obfuscated string: the buffer is resized, and the string decoded into its end. -/
def ByteBuffer.appendObf (b : ByteBuffer) (data : ObfString) : Option ByteBuffer :=
  let resized := b.append (List.replicate data.size 0)
  (ObfString.decodeLoop data.key resized.capacity b.bytes.length 0 data.text resized.bytes).bind fun bytes =>
    if h : bytes.length ≤ resized.capacity then some ⟨bytes, resized.capacity, h⟩ else none

namespace ObfString

/-! ## Each of them on the clear text -/

theorem encode_decode (c k : UInt8) : encode (decode c k) k = c := by
  have key : ∀ (m : Fin 8) (b : BitVec 8), (b.rotateRight m.val).rotateLeft m.val = b := by decide +kernel
  have h := key ⟨k.toNat % 8, Nat.mod_lt _ (by decide)⟩ c.toBitVec
  simp only [BitVec.rotateLeft_mod_eq_rotateLeft, BitVec.rotateRight_mod_eq_rotateRight] at h
  unfold decode encode rotr8 rotl8
  rw [h]

/-- Every string hides its clear text. -/
theorem hides_uncrypt (o : ObfString) : o.Hides o.uncrypt := by
  unfold Hides uncrypt
  rw [List.map_map]
  exact ((List.map_congr_left fun c _ => encode_decode c o.key).trans (List.map_id o.text)).symm

theorem encodeLoop_eq (key : UInt8) : ∀ (index : Nat) (str : Bytes), index ≤ intMax → encodeLoop key index str =
    if index + str.length ≤ intMax then some (str.map (encode · key)) else none
  | index, [], h => by
    rw [List.length_nil, if_pos (by omega)]
    rfl
  | index, c :: str, h => by
    rw [encodeLoop, List.length_cons]
    by_cases hlast : index = intMax
    · rw [if_pos hlast, if_neg (by omega)]
    · rw [if_neg hlast, encodeLoop_eq key (index + 1) str (by omega)]
      by_cases hfits : index + (str.length + 1) ≤ intMax
      · rw [if_pos (by omega), if_pos hfits]
        rfl
      · rw [if_neg (by omega), if_neg hfits]
        rfl

theorem uncrypt_appendBuffer (o : ObfString) (str : Bytes) (n : Nat) : (o.appendBuffer str n).map uncrypt =
    if (str.take n).length ≤ intMax then some (o.uncrypt ++ str.take n) else none := by
  unfold appendBuffer
  rw [encodeLoop_eq _ _ _ (Nat.zero_le _), Nat.zero_add]
  split
  · exact congrArg some (uncrypt_append o (str.take n))
  · rfl

theorem uncrypt_appendOther (o str : ObfString) : (o.appendOther str).map uncrypt =
    if str.uncrypt.length ≤ intMax then some (o.uncrypt ++ str.uncrypt) else none := by
  have hclear : str.text.map (decode · str.key) = str.uncrypt := rfl
  unfold appendOther
  rw [hclear, encodeLoop_eq _ _ _ (Nat.zero_le _), Nat.zero_add]
  split
  · exact congrArg some (uncrypt_append o str.uncrypt)
  · rfl

theorem uncrypt_pushBack (o : ObfString) (c : UInt8) : (o.pushBack c).uncrypt = o.uncrypt ++ [c] := uncrypt_append o [c]

theorem mem_map_encode (k c : UInt8) (str : Bytes) : encode c k ∈ str.map (encode · k) ↔ c ∈ str :=
  List.mem_map_of_injective fun _ _ h => encode_injective h

theorem findFirstNotOf_uncrypt (o : ObfString) (str : Bytes) :
    o.findFirstNotOf str = Util.findFirstNotOf (fun c => decide (c ∈ str)) o.uncrypt := by
  unfold findFirstNotOf Util.findFirstNotOf
  rw [show o.text = o.uncrypt.map (encode · o.key) from o.hides_uncrypt, List.findIdx?_map]
  congr 1
  funext c
  simp only [Function.comp_apply, mem_map_encode]

theorem findLastNotOf_uncrypt (o : ObfString) (str : Bytes) :
    o.findLastNotOf str = Util.findLastNotOf (fun c => decide (c ∈ str)) o.uncrypt := by
  unfold findLastNotOf Util.findLastNotOf
  rw [show o.text = o.uncrypt.map (encode · o.key) from o.hides_uncrypt, ← List.map_reverse, List.findIdx?_map,
    List.length_map]
  congr 2
  funext c
  simp only [Function.comp_apply, mem_map_encode]

theorem size_uncrypt (o : ObfString) : o.size = o.uncrypt.length := (List.length_map _).symm

theorem at'_uncrypt (o : ObfString) (i : Nat) : o.at' i = o.uncrypt.getD i 0 := by
  have hzero : decode 0 o.key = 0 := by
    rw [← encode_zero o.key, decode_encode]
    exact encode_zero o.key |>.symm
  unfold at' uncrypt
  rw [List.getD_eq_getElem?_getD, List.getD_eq_getElem?_getD, List.getElem?_map]
  cases o.text[i]? with
  | none => exact hzero
  | some c => rfl

/-- A cut of the string is the cut of the clear text up to its first NUL, or throws where that does. -/
theorem uncrypt_substr (o : ObfString) (pos : Nat) (len : Option Nat) :
    (o.substr pos len).map uncrypt = (Util.substr o.uncrypt pos len).map cStr := by
  cases hcut : Util.substr o.uncrypt pos len with
  | error e =>
    have hlen : o.uncrypt.length = o.text.length := List.length_map _
    unfold substr
    unfold Util.substr at hcut ⊢
    rw [hlen] at hcut
    split at hcut
    · rename_i hpos
      rw [if_pos hpos]
      cases hcut
      rfl
    · cases hcut
  | ok t =>
    obtain ⟨o', ho', hides, -⟩ := substr_hides o.hides_uncrypt hcut
    rw [ho']
    exact congrArg Except.ok (uncrypt_hides hides)

/-- The loop fills the rest of the buffer. -/
theorem decodeLoop_eq (key : UInt8) (size offset : Nat) : ∀ (index : Nat) (text pre rest : Bytes), index ≤ intMax →
    pre.length = offset + index → rest.length = text.length → offset + index + text.length ≤ size →
      decodeLoop key size offset index text (pre ++ rest) =
        if index + text.length ≤ intMax then some (pre ++ text.map (decode · key)) else none
  | index, [], pre, rest, hindex, _, hrest, _ => by
    rw [List.length_nil, if_pos (by omega), List.eq_nil_of_length_eq_zero hrest]
    rfl
  | index, c :: text, pre, [], _, _, hrest, _ => by cases hrest
  | index, c :: text, pre, d :: rest, hindex, hpre, hrest, hsize => by
    rw [List.length_cons] at hsize
    rw [decodeLoop, if_pos (by omega), List.length_cons]
    by_cases hlast : index = intMax
    · rw [if_pos hlast, if_neg (by omega)]
    have hset : (pre ++ d :: rest).set (offset + index) (decode c key) = pre ++ [decode c key] ++ rest := by
      rw [← hpre, List.set_append_right _ _ (Nat.le_refl _), Nat.sub_self, List.append_assoc]
      rfl
    have hlen : (pre ++ [decode c key]).length = offset + (index + 1) := by
      rw [List.length_append, hpre]
      rfl
    rw [if_neg hlast, hset, decodeLoop_eq key size offset (index + 1) text _ rest (by omega) hlen (by simpa using hrest)
      (by omega)]
    by_cases hfits : index + (text.length + 1) ≤ intMax
    · rw [if_pos (by omega), if_pos hfits, List.append_assoc]
      rfl
    · rw [if_neg (by omega), if_neg hfits]

end ObfString

theorem ByteBuffer.bytes_appendObf (b : ByteBuffer) (data : ObfString) : (b.appendObf data).map ByteBuffer.bytes =
    if data.uncrypt.length ≤ intMax then some (b.bytes ++ data.uncrypt) else none := by
  have hsize : data.size = data.text.length := rfl
  have hclear : data.uncrypt.length = data.text.length := List.length_map _
  have hcapacity : b.bytes.length + data.text.length ≤ (b.append (List.replicate data.size 0)).capacity := by
    have hfits := (b.append (List.replicate data.size 0)).fits
    rwa [ByteBuffer.bytes_append, List.length_append, List.length_replicate] at hfits
  unfold ByteBuffer.appendObf
  simp only [ByteBuffer.bytes_append]
  rw [ObfString.decodeLoop_eq _ _ _ 0 _ _ _ (Nat.zero_le _) rfl (List.length_replicate.trans hsize) hcapacity,
    Nat.zero_add, hclear]
  split
  · rw [Option.bind_some, dif_pos (by rw [List.length_append, List.length_map]; exact hcapacity)]
    rfl
  · rfl

/-! ## Programs -/

/-- An operation on the objects of a program, which are numbered; a cut and a copy make a new one. -/
inductive StringOp where
  | append (i : Nat) (str : Bytes)
  | appendBuffer (i : Nat) (str : Bytes) (n : Nat)
  | appendOther (i j : Nat) (other : i ≠ j)
  | pushBack (i : Nat) (c : UInt8)
  | substr (i pos : Nat) (len : Option Nat)
  | find (i : Nat) (ch : UInt8)
  | findFirstNotOf (i : Nat) (str : Bytes)
  | findLastNotOf (i : Nat) (str : Bytes)
  | charAt (i pos : Nat)
  | size (i : Nat)
  | copy (i : Nat)
  | toBuffer (i : Nat)

/-- What an operation returns, or throws. -/
inductive StringOut where
  | done
  | position (pos : Option Nat)
  | char (c : UInt8)
  | count (n : Nat)
  | thrown (e : Exn)
  deriving DecidableEq, Repr

/-- The clear texts, the bytes of a buffer and what was returned. -/
structure Clear where
  strings : List Bytes
  buffer : Bytes
  outs : List StringOut
  deriving DecidableEq, Repr

namespace Clear

def store (s : Clear) (i : Nat) (t : Bytes) : Clear := { s with strings := s.strings.set i t, outs := s.outs ++ [.done] }

def create (s : Clear) (t : Bytes) : Clear := { s with strings := s.strings ++ [t], outs := s.outs ++ [.done] }

def output (s : Clear) (out : StringOut) : Clear := { s with outs := s.outs ++ [out] }

/-- The operations of `std::string`. -/
def step : Run.Machine Clear StringOp
  | s, .append i str => s.strings[i]?.map fun t => s.store i (t ++ str)
  | s, .appendBuffer i str n => s.strings[i]?.map fun t => s.store i (t ++ str.take n)
  | s, .appendOther i j _ => s.strings[i]?.bind fun t => s.strings[j]?.map fun t' => s.store i (t ++ t')
  | s, .pushBack i c => s.strings[i]?.map fun t => s.store i (t ++ [c])
  | s, .substr i pos len => s.strings[i]?.map fun t =>
    match substr t pos len with
    | .ok t' => s.create t'
    | .error e => s.output (.thrown e)
  | s, .find i ch => s.strings[i]?.map fun t => s.output (.position (find ch t))
  | s, .findFirstNotOf i str => s.strings[i]?.map fun t => s.output (.position (findFirstNotOf (fun c => decide (c ∈ str)) t))
  | s, .findLastNotOf i str => s.strings[i]?.map fun t => s.output (.position (findLastNotOf (fun c => decide (c ∈ str)) t))
  | s, .charAt i pos => s.strings[i]?.bind fun t => if pos ≤ t.length then some (s.output (.char (t.getD pos 0))) else none
  | s, .size i => s.strings[i]?.map fun t => s.output (.count t.length)
  | s, .copy i => s.strings[i]?.map s.create
  | s, .toBuffer i => s.strings[i]?.map fun t => { s with buffer := s.buffer ++ t, outs := s.outs ++ [.done] }

end Clear

/-- The objects of a program with obfuscated strings. -/
structure Obfuscated where
  strings : List ObfString
  buffer : ByteBuffer
  outs : List StringOut

namespace Obfuscated

def store (s : Obfuscated) (i : Nat) (o : ObfString) : Obfuscated :=
  { s with strings := s.strings.set i o, outs := s.outs ++ [.done] }

def create (s : Obfuscated) (o : ObfString) : Obfuscated := { s with strings := s.strings ++ [o], outs := s.outs ++ [.done] }

def output (s : Obfuscated) (out : StringOut) : Obfuscated := { s with outs := s.outs ++ [out] }

/-- The operations of `obfstring`. -/
def step : Run.Machine Obfuscated StringOp
  | s, .append i str => s.strings[i]?.bind fun o => (o.appendString str).map (s.store i)
  | s, .appendBuffer i str n => s.strings[i]?.bind fun o => (o.appendBuffer str n).map (s.store i)
  | s, .appendOther i j _ => s.strings[i]?.bind fun o => s.strings[j]?.bind fun o' => (o.appendOther o').map (s.store i)
  | s, .pushBack i c => s.strings[i]?.map fun o => s.store i (o.pushBack c)
  | s, .substr i pos len => s.strings[i]?.map fun o =>
    match o.substr pos len with
    | .ok o' => s.create o'
    | .error e => s.output (.thrown e)
  | s, .find i ch => s.strings[i]?.map fun o => s.output (.position (o.find ch))
  | s, .findFirstNotOf i str => s.strings[i]?.map fun o => s.output (.position (o.findFirstNotOf str))
  | s, .findLastNotOf i str => s.strings[i]?.map fun o => s.output (.position (o.findLastNotOf str))
  | s, .charAt i pos => s.strings[i]?.bind fun o => if pos ≤ o.size then some (s.output (.char (o.at' pos))) else none
  | s, .size i => s.strings[i]?.map fun o => s.output (.count o.size)
  | s, .copy i => s.strings[i]?.map s.create
  | s, .toBuffer i => s.strings[i]?.bind fun o =>
    (s.buffer.appendObf o).map fun buffer => { s with buffer, outs := s.outs ++ [.done] }

/-- What the program would have with clear texts. -/
def view (s : Obfuscated) : Clear where
  strings := s.strings.map ObfString.uncrypt
  buffer := s.buffer.bytes
  outs := s.outs

end Obfuscated

/-- The operation is within what `obfstring` can do: an appended text can be counted with an `int`, and a cut has
no NUL. -/
def Clear.Fits (s : Clear) : StringOp → Prop
  | .append _ str => str.length ≤ intMax
  | .appendBuffer _ str n => (str.take n).length ≤ intMax
  | .appendOther _ j _ | .toBuffer j => ∀ t, s.strings[j]? = some t → t.length ≤ intMax
  | .substr i pos len => ∀ t, s.strings[i]? = some t → ∀ t', substr t pos len = .ok t' → 0 ∉ t'
  | .pushBack _ _ | .find _ _ | .findFirstNotOf _ _ | .findLastNotOf _ _ | .charAt _ _ | .size _ | .copy _ => True

namespace Obfuscated

theorem view_get (s : Obfuscated) (i : Nat) : s.view.strings[i]? = s.strings[i]?.map ObfString.uncrypt := List.getElem?_map ..

theorem view_store (s : Obfuscated) (i : Nat) (o : ObfString) : (s.store i o).view = s.view.store i o.uncrypt := by
  unfold view store Clear.store
  simp only [List.map_set]

theorem view_create (s : Obfuscated) (o : ObfString) : (s.create o).view = s.view.create o.uncrypt := by
  unfold view create Clear.create
  simp only [List.map_append, List.map_cons, List.map_nil]

theorem view_output (s : Obfuscated) (out : StringOut) : (s.output out).view = s.view.output out := rfl

/-- A string that is made where it fits is stored as its clear text exactly there. -/
theorem view_stored {s : Obfuscated} {i : Nat} {x : Option ObfString} {t : Bytes} {fits : Prop} [Decidable fits]
    (h : x.map ObfString.uncrypt = if fits then some t else none) :
    (x.map (s.store i)).map view = some (s.view.store i t) ↔ fits := by
  by_cases hfits : fits
  · rw [if_pos hfits] at h
    obtain ⟨o, rfl, rfl⟩ := Option.map_eq_some_iff.1 h
    exact iff_of_true (congrArg some (view_store s i o)) hfits
  · rw [if_neg hfits] at h
    rw [Option.map_eq_none_iff.1 h]
    exact iff_of_false nofun hfits

theorem view_buffer (s : Obfuscated) (o : ObfString) :
    ((s.buffer.appendObf o).map fun buffer => { s with buffer, outs := s.outs ++ [.done] }).map view =
      some { s.view with buffer := s.view.buffer ++ o.uncrypt, outs := s.view.outs ++ [.done] } ↔ o.uncrypt.length ≤ intMax := by
  have h := s.buffer.bytes_appendObf o
  by_cases hfits : o.uncrypt.length ≤ intMax
  · rw [if_pos hfits] at h
    obtain ⟨buffer, hbuffer, hbytes⟩ := Option.map_eq_some_iff.1 h
    refine iff_of_true ?_ hfits
    rw [hbuffer]
    show some (Clear.mk _ buffer.bytes _) = _
    rw [hbytes]
    rfl
  · rw [if_neg hfits] at h
    rw [Option.map_eq_none_iff.1 h]
    exact iff_of_false nofun hfits

theorem cStr_eq_iff {t : Bytes} : cStr t = t ↔ 0 ∉ t := by
  constructor
  · intro h hnul
    exact cStr_nul t (h.symm ▸ hnul)
  · exact cStr_eq

theorem create_injective (s : Clear) {t t' : Bytes} (h : s.create t = s.create t') : t = t' := by
  have hstrings : s.strings ++ [t] = s.strings ++ [t'] := congrArg Clear.strings h
  simpa using hstrings

theorem view_substr (s : Obfuscated) (o : ObfString) (pos : Nat) (len : Option Nat) :
    some (match o.substr pos len with
      | .ok o' => s.create o'
      | .error e => s.output (.thrown e)).view =
      some (match substr o.uncrypt pos len with
        | .ok t => s.view.create t
        | .error e => s.view.output (.thrown e)) ↔ ∀ t, substr o.uncrypt pos len = .ok t → 0 ∉ t := by
  have hcut := o.uncrypt_substr pos len
  cases hclear : substr o.uncrypt pos len with
  | error e =>
    rw [hclear] at hcut
    cases hobf : o.substr pos len with
    | error e' =>
      rw [hobf] at hcut
      cases hcut
      exact iff_of_true rfl nofun
    | ok o' =>
      rw [hobf] at hcut
      cases hcut
  | ok t =>
    rw [hclear] at hcut
    cases hobf : o.substr pos len with
    | error e' =>
      rw [hobf] at hcut
      cases hcut
    | ok o' =>
      rw [hobf] at hcut
      have hcut : o'.uncrypt = cStr t := Except.ok.inj hcut
      simp only [view_create, hcut, Option.some.injEq, Except.ok.injEq, forall_eq', ← cStr_eq_iff]
      exact ⟨create_injective s.view, fun h => by rw [h]⟩

/-- An operation is seen as the one on the clear texts exactly when it is within what `obfstring` can do. -/
theorem step_view (s : Obfuscated) (op : StringOp) : (step s op).map view = Clear.step s.view op ↔
    ∀ t, Clear.step s.view op = some t → s.view.Fits op := by
  cases op with
  | append i str =>
    simp only [step, Clear.step, Clear.Fits, view_get]
    cases s.strings[i]? with
    | none => simp
    | some o =>
      have hstr : (o.appendString str).map ObfString.uncrypt = _ := o.uncrypt_appendBuffer str str.length
      rw [List.take_length] at hstr
      simpa using view_stored (s := s) (i := i) hstr
  | appendBuffer i str n =>
    simp only [step, Clear.step, Clear.Fits, view_get]
    cases s.strings[i]? with
    | none => simp
    | some o => simpa using view_stored (s := s) (i := i) (o.uncrypt_appendBuffer str n)
  | appendOther i j other =>
    simp only [step, Clear.step, Clear.Fits, view_get]
    cases s.strings[i]? with
    | none => simp
    | some o =>
      cases s.strings[j]? with
      | none => simp
      | some o' => simpa using view_stored (s := s) (i := i) (o.uncrypt_appendOther o')
  | substr i pos len =>
    simp only [step, Clear.step, Clear.Fits, view_get]
    cases s.strings[i]? with
    | none => simp
    | some o => simpa using view_substr s o pos len
  | toBuffer i =>
    simp only [step, Clear.step, Clear.Fits, view_get]
    cases s.strings[i]? with
    | none => simp
    | some o => simpa using view_buffer s o
  | charAt i pos =>
    simp only [step, Clear.step, Clear.Fits, view_get]
    cases s.strings[i]? with
    | none => simp
    | some o =>
      by_cases hpos : pos ≤ o.uncrypt.length
      · simp [hpos, o.size_uncrypt, view_output, o.at'_uncrypt]
      · simp [hpos, o.size_uncrypt]
  | pushBack i c | find i ch | findFirstNotOf i str | findLastNotOf i str | size i | copy i =>
    simp only [step, Clear.step, Clear.Fits, view_get]
    cases s.strings[i]? with
    | none => simp
    | some o =>
      simp [view_store, view_create, view_output, ObfString.uncrypt_pushBack, ObfString.find_hides o.hides_uncrypt,
        o.findFirstNotOf_uncrypt, o.findLastNotOf_uncrypt, o.size_uncrypt]

end Obfuscated

/-- A program with obfuscated strings is seen as the one with the clear texts, after any number of its operations
and under any keys, exactly when every operation is within what `obfstring` can do. -/
theorem obfstring_view_iff (s : Obfuscated) (ops : List StringOp) :
    (∀ pre, pre <+: ops → (Run.exec Obfuscated.step s pre).map Obfuscated.view = Run.exec Clear.step s.view pre) ↔
      Run.Meets Clear.step Clear.Fits s.view ops := Run.exec_view_iff Obfuscated.step_view

/-- A cut with a NUL in it ends in front of the NUL. -/
theorem substr_nul : (Run.exec Obfuscated.step ⟨[.ofBytes 2 [97, 0, 98]], .ofCapacity 0, []⟩ [.substr 0 0 none]).map Obfuscated.view =
      some ⟨[[97, 0, 98], [97]], [], [.done]⟩ ∧
    Run.exec Clear.step ⟨[[97, 0, 98]], [], []⟩ [.substr 0 0 none] = some ⟨[[97, 0, 98], [97, 0, 98]], [], [.done]⟩ := by
  constructor
  · decide
  · decide

end FortiRdp.Util
