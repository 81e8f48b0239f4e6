/-
Certificates as text (`X509Crt`): the base64 encoder and the PEM writer of the TLS library, and the loop
of `X509crt_to_pem`, which enlarges the buffer until the text fits. A certificate is its DER encoding.
-/
import FortiRdp.Util.Str
import Mathlib.Data.List.Forall2

namespace FortiRdp.Util

/-! ## Base64 -/

/-- `mbedtls_ct_base64_enc_char`. -/
def encChar (value : Nat) : UInt8 :=
  if value ≤ 25 then (65 + value).toUInt8
  else if value ≤ 51 then (97 + (value - 26)).toUInt8
  else if value ≤ 61 then (48 + (value - 52)).toUInt8
  else if value = 62 then 43
  else if value = 63 then 47
  else 0

/-- What `mbedtls_base64_encode` stores. -/
def base64Encode : Bytes → Bytes
  | c1 :: c2 :: c3 :: src =>
    encChar ((c1.toNat >>> 2) &&& 0x3F) ::
    encChar ((((c1.toNat &&& 3) <<< 4) + (c2.toNat >>> 4)) &&& 0x3F) ::
    encChar ((((c2.toNat &&& 15) <<< 2) + (c3.toNat >>> 6)) &&& 0x3F) ::
    encChar (c3.toNat &&& 0x3F) :: base64Encode src
  | [c1, c2] => [
    encChar ((c1.toNat >>> 2) &&& 0x3F),
    encChar ((((c1.toNat &&& 3) <<< 4) + (c2.toNat >>> 4)) &&& 0x3F),
    encChar (((c2.toNat &&& 15) <<< 2) &&& 0x3F), 61]
  | [c1] => [encChar ((c1.toNat >>> 2) &&& 0x3F), encChar (((c1.toNat &&& 3) <<< 4) &&& 0x3F), 61, 61]
  | [] => []

/-- The size that `mbedtls_base64_encode` asks for: the text and a NUL. -/
def base64Size (src : Bytes) : Nat :=
  if src.length = 0 then 0 else (src.length / 3 + (if src.length % 3 ≠ 0 then 1 else 0)) * 4 + 1

/-- The groups of six bits of a byte string, the last one filled up with zeros. -/
def sixBits : Bytes → List Nat
  | a :: b :: c :: s =>
    a.toNat / 4 :: (a.toNat % 4 * 16 + b.toNat / 16) :: (b.toNat % 16 * 4 + c.toNat / 64) :: c.toNat % 64 :: sixBits s
  | [a, b] => [a.toNat / 4, a.toNat % 4 * 16 + b.toNat / 16, b.toNat % 16 * 4]
  | [a] => [a.toNat / 4, a.toNat % 4 * 16]
  | [] => []

/-- The padding behind the groups. -/
def padding (s : Bytes) : Bytes := List.replicate ((3 - s.length % 3) % 3) 61

theorem and_sixBits (x : Nat) : x &&& 0x3F = x % 64 := Nat.and_two_pow_sub_one_eq_mod x 6

theorem and_fourBits (x : Nat) : x &&& 15 = x % 16 := Nat.and_two_pow_sub_one_eq_mod x 4

theorem and_twoBits (x : Nat) : x &&& 3 = x % 4 := Nat.and_two_pow_sub_one_eq_mod x 2

theorem sixBits_lt (s : Bytes) : ∀ x ∈ sixBits s, x < 64 := by
  fun_induction sixBits s with
  | case1 a b c s ih =>
    have ha := a.toNat_lt
    have hb := b.toNat_lt
    have hc := c.toNat_lt
    simp only [List.mem_cons, forall_eq_or_imp]
    exact ⟨by omega, by omega, by omega, by omega, ih⟩
  | case2 a b =>
    have ha := a.toNat_lt
    have hb := b.toNat_lt
    simp only [List.mem_cons, List.not_mem_nil, or_false, forall_eq_or_imp, forall_eq]
    exact ⟨by omega, by omega, by omega⟩
  | case3 a =>
    have ha := a.toNat_lt
    simp only [List.mem_cons, List.not_mem_nil, or_false, forall_eq_or_imp, forall_eq]
    exact ⟨by omega, by omega⟩
  | case4 => simp

theorem length_sixBits (s : Bytes) : (sixBits s).length = (4 * s.length + 2) / 3 := by
  fun_induction sixBits s with
  | case1 a b c s ih => simp only [List.length_cons, ih]; omega
  | case2 a b => simp
  | case3 a => simp
  | case4 => simp

/-- The encoder writes one character for each group. -/
theorem base64Encode_eq (s : Bytes) : base64Encode s = (sixBits s).map encChar ++ padding s := by
  have h1 (a : UInt8) : (a.toNat >>> 2) &&& 0x3F = a.toNat / 4 := by
    have := a.toNat_lt
    rw [and_sixBits, Nat.shiftRight_eq_div_pow]
    omega
  have h2 (a b : UInt8) : (((a.toNat &&& 3) <<< 4) + (b.toNat >>> 4)) &&& 0x3F = a.toNat % 4 * 16 + b.toNat / 16 := by
    have := b.toNat_lt
    rw [and_sixBits, and_twoBits, Nat.shiftRight_eq_div_pow, Nat.shiftLeft_eq]
    omega
  have h3 (b c : UInt8) : (((b.toNat &&& 15) <<< 2) + (c.toNat >>> 6)) &&& 0x3F = b.toNat % 16 * 4 + c.toNat / 64 := by
    have := c.toNat_lt
    rw [and_sixBits, and_fourBits, Nat.shiftRight_eq_div_pow, Nat.shiftLeft_eq]
    omega
  have h4 (b : UInt8) : ((b.toNat &&& 15) <<< 2) &&& 0x3F = b.toNat % 16 * 4 := by
    rw [and_sixBits, and_fourBits, Nat.shiftLeft_eq]
    omega
  have h5 (a : UInt8) : ((a.toNat &&& 3) <<< 4) &&& 0x3F = a.toNat % 4 * 16 := by
    rw [and_sixBits, and_twoBits, Nat.shiftLeft_eq]
    omega
  fun_induction base64Encode s with
  | case1 c1 c2 c3 src ih =>
    have hpad : padding (c1 :: c2 :: c3 :: src) = padding src := by simp [padding, Nat.add_assoc]
    simp only [sixBits, List.map_cons, List.cons_append, hpad, ih, h1, h2, h3, and_sixBits]
  | case2 c1 c2 => simp only [sixBits, List.map_cons, List.map_nil, h1, h2, h4]; rfl
  | case3 c1 => simp only [sixBits, List.map_cons, List.map_nil, h1, h5]; rfl
  | case4 => rfl

/-! ## Base64 without case -/

/-- Two groups have the same letter, up to its case: they are equal, or one stands for the upper case and the
other for the lower case of a letter. -/
def SameLetter (x y : Nat) : Prop := x = y ∨ (x ≤ 25 ∧ y = x + 26) ∨ (y ≤ 25 ∧ x = y + 26)

instance (x y : Nat) : Decidable (SameLetter x y) := by unfold SameLetter; infer_instance

/-- Two byte strings of one length that agree in each group of six bits, up to the case of its letter. -/
def CaseTwins (a b : Bytes) : Prop := a.length = b.length ∧ List.Forall₂ SameLetter (sixBits a) (sixBits b)

instance (a b : Bytes) : Decidable (CaseTwins a b) := by unfold CaseTwins; infer_instance

theorem tolower_encChar_iff {x y : Nat} (hx : x < 64) (hy : y < 64) :
    tolower (encChar x) = tolower (encChar y) ↔ SameLetter x y := by
  have key : ∀ x y : Fin 64, tolower (encChar x) = tolower (encChar y) ↔ SameLetter x y := by decide +kernel
  exact key ⟨x, hx⟩ ⟨y, hy⟩

/-- No letter of the alphabet is the padding or the end of a line. -/
theorem tolower_encChar_ne {x : Nat} (hx : x < 64) : tolower (encChar x) ≠ 61 ∧ tolower (encChar x) ≠ 10 := by
  have key : ∀ x : Fin 64, tolower (encChar x) ≠ 61 ∧ tolower (encChar x) ≠ 10 := by decide +kernel
  exact key ⟨x, hx⟩

theorem lower_append (a b : Bytes) : lower (a ++ b) = lower a ++ lower b := List.map_append

theorem lower_padding (s : Bytes) : lower (padding s) = padding s := by
  simp only [lower, padding, List.map_replicate]
  rfl

theorem count_lower_base64 (s : Bytes) : (lower (base64Encode s)).count 61 = (3 - s.length % 3) % 3 := by
  have hnone : (lower ((sixBits s).map encChar)).count 61 = 0 := by
    apply List.count_eq_zero.2
    simp only [lower, List.map_map, List.mem_map, Function.comp_apply, not_exists, not_and]
    intro x hx
    exact (tolower_encChar_ne (sixBits_lt s x hx)).left
  rw [base64Encode_eq, lower_append, List.count_append, hnone, lower_padding, padding, List.count_replicate_self,
    Nat.zero_add]

theorem length_lower_base64 (s : Bytes) :
    (lower (base64Encode s)).length = (4 * s.length + 2) / 3 + (3 - s.length % 3) % 3 := by
  simp only [lower, base64Encode_eq, List.length_map, List.length_append, length_sixBits, padding,
    List.length_replicate]

/-- The base64 texts of two byte strings agree up to case exactly for case twins. -/
theorem lower_base64_iff (a b : Bytes) : lower (base64Encode a) = lower (base64Encode b) ↔ CaseTwins a b := by
  have hletters (hlen : (sixBits a).length = (sixBits b).length) :
      lower ((sixBits a).map encChar) = lower ((sixBits b).map encChar) ↔
        List.Forall₂ SameLetter (sixBits a) (sixBits b) := by
    rw [← List.forall₂_eq_eq_eq]
    simp only [lower, List.map_map, List.forall₂_map_left_iff, List.forall₂_map_right_iff, Function.comp_apply]
    simp only [List.forall₂_iff_get, hlen, true_and]
    refine forall_congr' fun i => forall_congr' fun hi => forall_congr' fun hi' => ?_
    exact tolower_encChar_iff (sixBits_lt a _ (List.get_mem _ _)) (sixBits_lt b _ (List.get_mem _ _))
  constructor
  · intro h
    have hcount := congrArg (List.count 61) h
    have hlength := congrArg List.length h
    rw [count_lower_base64, count_lower_base64] at hcount
    rw [length_lower_base64, length_lower_base64] at hlength
    -- the padding tells the length modulo 3, the length of the text the rest
    have hlen : a.length = b.length := by omega
    have hsix : (sixBits a).length = (sixBits b).length := by rw [length_sixBits, length_sixBits, hlen]
    rw [base64Encode_eq, base64Encode_eq, lower_append, lower_append] at h
    have hsame := (List.append_inj h (by simp only [lower, List.length_map, hsix])).left
    exact ⟨hlen, (hletters hsix).1 hsame⟩
  · rintro ⟨hlen, hall⟩
    have hpad : padding a = padding b := by rw [padding, padding, hlen]
    rw [base64Encode_eq, base64Encode_eq, lower_append, lower_append, (hletters hall.length_eq).2 hall, hpad]

/-! ## PEM -/

def errBase64BufferTooSmall : Int := -0x002A

def errPemAllocFailed : Int := -0x1180

/-- The lines of the PEM writer: 64 characters, and what is left on the last one. -/
def pemLines (c : Bytes) : Bytes :=
  if c = [] then [] else c.take 64 ++ 10 :: pemLines (c.drop 64)
termination_by c.length
decreasing_by
  rename_i h
  have := List.length_pos_iff.2 h
  rw [List.length_drop]
  omega

/-- The size that `mbedtls_pem_write_buffer` asks for. -/
def pemSize (header footer derData : Bytes) : Nat :=
  let useLen := base64Size derData
  let addLen := header.length + footer.length + (if useLen > 2 then useLen - 2 else 0) / 64 + 1
  useLen + addLen

/-- The base64 text has its buffer: `calloc` tells which allocations succeed, and no bytes need none. -/
def pemMemory (calloc : Nat → Bool) (derData : Bytes) : Bool :=
  base64Size derData == 0 || calloc (base64Size derData)

/-- `mbedtls_pem_write_buffer`: what the buffer of `bufLen` bytes holds afterwards. -/
def pemWriteBuffer (calloc : Nat → Bool) (header footer derData : Bytes) (bufLen : Nat) : Except Int Bytes :=
  if pemSize header footer derData > bufLen then .error errBase64BufferTooSmall
  else if pemMemory calloc derData = false then .error errPemAllocFailed
  else
    let text := header ++ pemLines (base64Encode derData) ++ footer ++ [0]
    .ok (text ++ List.replicate (bufLen - text.length) 0)

def pemBeginCrt : Bytes := ascii "-----BEGIN CERTIFICATE-----\n"

def pemEndCrt : Bytes := ascii "-----END CERTIFICATE-----\n"

/-- The PEM text of a certificate. -/
def pemText (der : Bytes) : Bytes := pemBeginCrt ++ pemLines (base64Encode der) ++ pemEndCrt

/-- The writer refuses a small buffer, fails without memory, or stores the text. -/
theorem pemWriteBuffer_cases (calloc : Nat → Bool) (raw : Bytes) (bufLen : Nat) :
    (bufLen < pemSize pemBeginCrt pemEndCrt raw ∧
      pemWriteBuffer calloc pemBeginCrt pemEndCrt raw bufLen = .error errBase64BufferTooSmall) ∨
    (pemMemory calloc raw = false ∧
      pemWriteBuffer calloc pemBeginCrt pemEndCrt raw bufLen = .error errPemAllocFailed) ∨
    (pemMemory calloc raw = true ∧
      ∃ zeros, pemWriteBuffer calloc pemBeginCrt pemEndCrt raw bufLen = .ok (pemText raw ++ 0 :: zeros)) := by
  unfold pemWriteBuffer
  split
  · rename_i hsmall
    exact .inl ⟨hsmall, rfl⟩
  · split
    · rename_i hno
      exact .inr (.inl ⟨hno, rfl⟩)
    · rename_i hm
      exact .inr (.inr ⟨by simpa using hm, _, congrArg Except.ok (List.append_assoc _ [0] _)⟩)

/-- The loop of `X509crt_to_pem` with a buffer of `bufferSize` bytes; `none` when the writer fails. -/
def writePem (calloc : Nat → Bool) (raw : Bytes) (bufferSize : Nat) : Option Bytes :=
  match h : pemWriteBuffer calloc pemBeginCrt pemEndCrt raw bufferSize with
  | .ok buffer => some (cStr buffer)
  | .error ret => if hret : ret = errBase64BufferTooSmall then writePem calloc raw (bufferSize + 1024) else none
termination_by pemSize pemBeginCrt pemEndCrt raw - bufferSize
decreasing_by
  -- the buffer grows only while it is too small
  obtain ⟨hsmall, -⟩ | ⟨-, hr⟩ | ⟨-, z, hr⟩ := pemWriteBuffer_cases calloc raw bufferSize
  · omega
  · rw [hr] at h
    exact absurd (Except.error.inj h) (hret ▸ by decide)
  · rw [hr] at h
    cases h

/-- `X509crt_to_pem`, for the DER encoding of the certificate, when there is one. -/
def x509CrtToPem (calloc : Nat → Bool) (crt : Option Bytes) : Option Bytes :=
  crt.bind fun raw => writePem calloc raw 1024

theorem pemLines_nul {c : Bytes} (h : (0 : UInt8) ∉ c) : (0 : UInt8) ∉ pemLines c := by
  fun_induction pemLines c with
  | case1 => simp
  | case2 c hc ih =>
    simp only [List.mem_append, List.mem_cons, not_or]
    exact ⟨fun hm => h (List.mem_of_mem_take hm), by decide, ih fun hm => h (List.mem_of_mem_drop hm)⟩

theorem base64Encode_nul (s : Bytes) : (0 : UInt8) ∉ base64Encode s := by
  have key : ∀ x : Fin 64, encChar x ≠ 0 := by decide +kernel
  rw [base64Encode_eq, List.mem_append, not_or]
  constructor
  · rw [List.mem_map]
    rintro ⟨x, hx, h⟩
    exact key ⟨x, sixBits_lt s x hx⟩ h
  · rw [padding, List.mem_replicate]
    rintro ⟨-, h⟩
    exact absurd h (by decide)

theorem pemText_nul (der : Bytes) : (0 : UInt8) ∉ pemText der := by
  simp only [pemText, List.mem_append, not_or]
  exact ⟨⟨by decide, pemLines_nul (base64Encode_nul der)⟩, by decide⟩

theorem cStr_append_zeros {t : Bytes} (h : (0 : UInt8) ∉ t) (z : Bytes) : cStr (t ++ 0 :: z) = t := by
  rw [cStr, List.takeWhile_append_of_pos]
  · simp
  · intro c hc
    simpa using fun hz : c = 0 => h (hz ▸ hc)

/-- The loop ends with the PEM text, whatever the size it starts from, unless memory is missing. -/
theorem writePem_eq (calloc : Nat → Bool) (raw : Bytes) (bufferSize : Nat) :
    writePem calloc raw bufferSize = if pemMemory calloc raw then some (pemText raw) else none := by
  fun_induction writePem calloc raw bufferSize with
  | case1 size buffer h =>
    obtain ⟨-, hr⟩ | ⟨-, hr⟩ | ⟨hm, zeros, hr⟩ := pemWriteBuffer_cases calloc raw size
    · rw [hr] at h; cases h
    · rw [hr] at h; cases h
    · rw [hr] at h
      cases h
      rw [if_pos hm, cStr_append_zeros (pemText_nul raw)]
  | case2 size h ih => exact ih
  | case3 size ret h hret =>
    obtain ⟨-, hr⟩ | ⟨hm, -⟩ | ⟨-, zeros, hr⟩ := pemWriteBuffer_cases calloc raw size
    · rw [hr] at h
      exact absurd (Except.error.inj h).symm hret
    · rw [hm]; rfl
    · rw [hr] at h; cases h

/-! ## PEM without case -/

theorem lower_pemLines (c : Bytes) : lower (pemLines c) = pemLines (lower c) := by
  fun_induction pemLines c with
  | case1 => simp [lower, pemLines]
  | case2 c hc ih =>
    have hne : lower c ≠ [] := by simpa [lower] using hc
    have hnl : tolower 10 = 10 := by decide
    rw [pemLines.eq_1 (lower c), if_neg hne, lower_append]
    simp only [lower, List.map_cons, List.map_take, List.map_drop, hnl] at ih ⊢
    rw [ih]

/-- Without the line ends the text is back. -/
theorem filter_pemLines {c : Bytes} (h : (10 : UInt8) ∉ c) : (pemLines c).filter (· ≠ 10) = c := by
  fun_induction pemLines c with
  | case1 => rfl
  | case2 c hc ih =>
    have htake : (c.take 64).filter (· ≠ 10) = c.take 64 := by
      rw [List.filter_eq_self]
      intro x hx
      simpa using fun hx' : x = 10 => h (hx' ▸ List.mem_of_mem_take hx)
    rw [List.filter_append, htake, List.filter_cons_of_neg (by simp), ih fun hm => h (List.mem_of_mem_drop hm),
      List.take_append_drop]

theorem lower_base64_newline (s : Bytes) : (10 : UInt8) ∉ lower (base64Encode s) := by
  rw [base64Encode_eq, lower_append, lower_padding, List.mem_append, not_or]
  constructor
  · simp only [lower, List.map_map, List.mem_map, Function.comp_apply, not_exists, not_and]
    intro x hx
    exact (tolower_encChar_ne (sixBits_lt s x hx)).right
  · rw [padding, List.mem_replicate]
    rintro ⟨-, h⟩
    exact absurd h (by decide)

/-- The comparison of two PEM texts without case is the comparison of the certificates up to case twins. -/
theorem iequal_pemText_iff (a b : Bytes) : iequal (pemText a) (pemText b) = true ↔ CaseTwins a b := by
  rw [← lower_base64_iff, iequal, beq_iff_eq]
  simp only [pemText, lower_append, lower_pemLines, List.append_assoc, List.append_right_inj, List.append_left_inj]
  constructor
  · -- texts that agree also agree without their line ends
    intro h
    rw [← filter_pemLines (lower_base64_newline a), ← filter_pemLines (lower_base64_newline b), h]
  · intro h
    rw [h]

end FortiRdp.Util
