/-
The percent coding of `HttpsClient`. `encode_url` writes what the standard rules decode again.
`decode_url` reads only digits: it takes the letters of a triple like digits and drops the eighth bit,
it throws away the two characters after a % that starts no triple, and it needs a text of two characters.
-/
import FortiRdp.Http.HttpsClient

namespace FortiRdp.Http

open Util

/-! ## The standard rules -/

def hexValue (c : UInt8) : Nat := (digitValue c).getD 0

/-- The byte that a triple with these digits stands for. -/
def hexByte (c1 c2 : UInt8) : UInt8 := (hexValue c1 * 16 + hexValue c2).toUInt8

/-- Whether a % in front of the text starts a triple. -/
def startsHex : Bytes → Bool
  | c1 :: c2 :: _ => HttpsClient.isxdigit c1 && HttpsClient.isxdigit c2
  | _ => false

/-- The text with its triples decoded. -/
def percentDecode : Bytes → Bytes
  | c :: c1 :: c2 :: rest =>
    if c = 37 ∧ startsHex (c1 :: c2 :: rest) = true then hexByte c1 c2 :: percentDecode rest
    else c :: percentDecode (c1 :: c2 :: rest)
  | rest => rest

/-- Whether the text has a triple. -/
def hasTriple : Bytes → Bool
  | [] => false
  | c :: text => (c == 37 && startsHex text) || hasTriple text

theorem percentDecode_plainText : ∀ {text : Bytes}, hasTriple text = false → percentDecode text = text
  | [], _ => rfl
  | [_], _ => rfl
  | [_, _], _ => rfl
  | c :: c1 :: c2 :: rest, h => by
    obtain ⟨hc, hrest⟩ := Bool.or_eq_false_iff.1 h
    rw [percentDecode, if_neg, percentDecode_plainText hrest]
    rintro ⟨rfl, hstart⟩
    rw [hstart] at hc
    cases hc

theorem length_percentDecode_le : ∀ text : Bytes, (percentDecode text).length ≤ text.length
  | [] => Nat.le_refl _
  | [_] => Nat.le_refl _
  | [_, _] => Nat.le_refl _
  | c :: c1 :: c2 :: rest => by
    unfold percentDecode
    split
    · have ih := length_percentDecode_le rest
      simp only [List.length_cons]
      omega
    · have ih := length_percentDecode_le (c1 :: c2 :: rest)
      simp only [List.length_cons] at ih ⊢
      omega

/-- A triple makes the text shorter. -/
theorem length_percentDecode_lt : ∀ {text : Bytes}, hasTriple text = true → (percentDecode text).length < text.length
  | [], h => by cases h
  | [c], h => by simp [hasTriple, startsHex] at h
  | [c, c1], h => by simp [hasTriple, startsHex] at h
  | c :: c1 :: c2 :: rest, h => by
    unfold percentDecode
    split
    · have hle := length_percentDecode_le rest
      simp only [List.length_cons]
      omega
    · rename_i hno
      have hrest : hasTriple (c1 :: c2 :: rest) = true := by
        rcases Bool.or_eq_true_iff.1 h with hc | hc
        · obtain ⟨hc, hstart⟩ := Bool.and_eq_true_iff.1 hc
          exact absurd ⟨beq_iff_eq.1 hc, hstart⟩ hno
        · exact hc
      have ih := length_percentDecode_lt hrest
      simp only [List.length_cons] at ih ⊢
      omega

/-! ## What `decode_url` does with each character -/

namespace HttpsClient

/-- What `decode_url` appends for each character of the text; for a triple it is at its %. -/
def decodeTrace : Bytes → List Bytes
  | c :: c1 :: c2 :: rest =>
    if c = 37 then
      if isxdigit c1 && isxdigit c2 then [decodeHex c1 c2] :: [] :: [] :: decodeTrace rest
      else [] :: [] :: [] :: decodeTrace rest
    else [c] :: decodeTrace (c1 :: c2 :: rest)
  | rest => rest.map fun c => [c]

theorem decodeTrace_flatten : ∀ str : Bytes, (decodeTrace str).flatten = decodeUrl.go str
  | [] => rfl
  | [_] => rfl
  | [_, _] => rfl
  | c :: c1 :: c2 :: rest => by
    unfold decodeTrace decodeUrl.go
    split
    · split
      · simp [decodeTrace_flatten rest]
      · simp [decodeTrace_flatten rest]
    · rw [List.flatten_cons, decodeTrace_flatten (c1 :: c2 :: rest)]
      rfl

end HttpsClient

/-- What has to be appended for each character: a triple is decoded, and every character outside a triple
that is not % is copied. What becomes of another % is left open. -/
inductive Decodes : Bytes → List Bytes → Prop
  | nil : Decodes [] []
  | triple {c1 c2 : UInt8} {rest : Bytes} {out : List Bytes} (h : startsHex (c1 :: c2 :: rest) = true)
      (hrest : Decodes rest out) : Decodes (37 :: c1 :: c2 :: rest) ([hexByte c1 c2] :: [] :: [] :: out)
  | plain {c : UInt8} {rest : Bytes} {out : List Bytes} (h : c ≠ 37) (hrest : Decodes rest out) :
      Decodes (c :: rest) ([c] :: out)
  | percent {rest : Bytes} {o : Bytes} {out : List Bytes} (h : startsHex rest = false) (hrest : Decodes rest out) :
      Decodes (37 :: rest) (o :: out)

/-- A triple that `decode_url` decodes: a digit up to 7, and a digit. -/
def isDigitTriple (c1 c2 : UInt8) : Bool := 48 ≤ c1 && c1 ≤ 55 && 48 ≤ c2 && c2 ≤ 57

/-- The text, read as `decode_url` reads it, has only such triples, and each other % with two characters
after it has two more % there, the last of which starts no triple. -/
def escapes : Bytes → Bool
  | c :: c1 :: c2 :: rest =>
    if c = 37 then
      if HttpsClient.isxdigit c1 && HttpsClient.isxdigit c2 then isDigitTriple c1 c2 && escapes rest
      else c1 == 37 && c2 == 37 && !startsHex rest && escapes rest
    else escapes (c1 :: c2 :: rest)
  | _ => true

theorem hexValue_cases {c : UInt8} (h : HttpsClient.isxdigit c = true) :
    (48 ≤ c.toNat ∧ c.toNat ≤ 57 ∧ hexValue c = c.toNat - 48) ∨ (65 ≤ c.toNat ∧ c.toNat ≤ 70 ∧ hexValue c = c.toNat - 55) ∨
      (97 ≤ c.toNat ∧ c.toNat ≤ 102 ∧ hexValue c = c.toNat - 87) := by
  unfold hexValue digitValue tolower
  simp only [HttpsClient.isxdigit, isdigit, isalpha, Bool.or_eq_true, Bool.and_eq_true, decide_eq_true_eq,
    UInt8.le_iff_toNat_le] at h ⊢
  simp only [UInt8.reduceToNat] at h ⊢
  rcases h with (⟨hlo, hhi⟩ | ⟨hlo, hhi⟩) | ⟨hlo, hhi⟩
  · rw [if_pos ⟨hlo, hhi⟩]
    exact .inl ⟨hlo, hhi, rfl⟩
  · rw [if_neg (by omega), if_pos (.inl ⟨hlo, by omega⟩), if_pos ⟨hlo, by omega⟩, UInt8.toNat_add]
    refine .inr (.inl ⟨hlo, hhi, ?_⟩)
    simp only [UInt8.reduceToNat, Option.getD_some]
    omega
  · rw [if_neg (by omega), if_pos (.inr ⟨hlo, by omega⟩), if_neg (by omega)]
    exact .inr (.inr ⟨hlo, hhi, rfl⟩)

/-- Taken like digits, only digits up to 7 and 9 give the byte. -/
theorem decodeHex_eq_iff {c1 c2 : UInt8} (h1 : HttpsClient.isxdigit c1 = true) (h2 : HttpsClient.isxdigit c2 = true) :
    HttpsClient.decodeHex c1 c2 = hexByte c1 c2 ↔ isDigitTriple c1 c2 = true := by
  have hdigits : isDigitTriple c1 c2 = true ↔ (48 ≤ c1.toNat ∧ c1.toNat ≤ 55) ∧ 48 ≤ c2.toNat ∧ c2.toNat ≤ 57 := by
    simp [isDigitTriple, UInt8.le_iff_toNat_le]
    tauto
  rw [hdigits]
  unfold HttpsClient.decodeHex hexByte
  rw [← UInt8.toNat_inj]
  simp only [Nat.toUInt8, UInt8.toNat_ofNat']
  rcases hexValue_cases h1 with ⟨hlo1, hhi1, hv1⟩ | ⟨hlo1, hhi1, hv1⟩ | ⟨hlo1, hhi1, hv1⟩ <;>
    rcases hexValue_cases h2 with ⟨hlo2, hhi2, hv2⟩ | ⟨hlo2, hhi2, hv2⟩ | ⟨hlo2, hhi2, hv2⟩ <;> omega

theorem decodes_short : ∀ {rest : Bytes}, rest.length ≤ 2 → Decodes rest (rest.map fun c => [c])
  | [], _ => .nil
  | c :: rest, h => by
    rw [List.length_cons] at h
    have htail : Decodes rest (rest.map fun c => [c]) := decodes_short (by omega)
    by_cases hc : c = 37
    · subst hc
      refine .percent ?_ htail
      match rest with
      | [] => rfl
      | [_] => rfl
      | _ :: _ :: _ => simp at h
    · exact .plain hc htail

/-- Nothing is appended for two characters after a % only if they are % too. -/
theorem decodes_dropped {c1 c2 : UInt8} {rest : Bytes} {out : List Bytes} :
    Decodes (c1 :: c2 :: rest) ([] :: [] :: out) ↔ c1 = 37 ∧ c2 = 37 ∧ startsHex rest = false ∧ Decodes rest out := by
  constructor
  · rintro (_ | _ | _ | ⟨-, hrest⟩)
    cases hrest with
    | percent h hrest => exact ⟨rfl, rfl, h, hrest⟩
  · rintro ⟨rfl, rfl, h, hrest⟩
    refine .percent ?_ (.percent h hrest)
    cases rest with
    | nil => rfl
    | cons c rest => rfl

theorem decodes_iff : ∀ str : Bytes, Decodes str (HttpsClient.decodeTrace str) ↔ escapes str = true
  | [] => ⟨fun _ => rfl, fun _ => decodes_short (by decide)⟩
  | [c] => ⟨fun _ => rfl, fun _ => decodes_short (by simp)⟩
  | [c, c1] => ⟨fun _ => rfl, fun _ => decodes_short (by simp)⟩
  | c :: c1 :: c2 :: rest => by
    unfold HttpsClient.decodeTrace escapes
    by_cases hc : c = 37
    · subst hc
      simp only [if_true]
      by_cases hhex : (HttpsClient.isxdigit c1 && HttpsClient.isxdigit c2) = true
      · -- a triple
        obtain ⟨h1, h2⟩ := Bool.and_eq_true_iff.1 hhex
        rw [if_pos hhex, if_pos hhex, Bool.and_eq_true, ← decodes_iff rest, ← decodeHex_eq_iff h1 h2]
        constructor
        · intro h
          generalize hbyte : [HttpsClient.decodeHex c1 c2] = o at h
          cases h with
          | triple h hrest => exact ⟨List.singleton_inj.1 hbyte, hrest⟩
          | plain h hrest => exact absurd rfl h
          | percent h hrest =>
            have hstart : startsHex (c1 :: c2 :: rest) = true := hhex
            rw [hstart] at h
            cases h
        · rintro ⟨hbyte, hrest⟩
          rw [hbyte]
          exact .triple hhex hrest
      · -- the two characters after the % are dropped
        rw [if_neg hhex, if_neg hhex]
        simp only [Bool.and_eq_true, beq_iff_eq, Bool.not_eq_true']
        rw [and_assoc, and_assoc, ← decodes_iff rest, ← decodes_dropped]
        constructor
        · intro h
          cases h with
          | percent h hrest => exact hrest
        · intro h
          exact .percent (Bool.eq_false_iff.2 hhex) h
    · rw [if_neg hc, if_neg hc, ← decodes_iff (c1 :: c2 :: rest)]
      constructor
      · intro h
        generalize hbyte : [c] = o at h
        generalize HttpsClient.decodeTrace (c1 :: c2 :: rest) = out at h ⊢
        cases h with
        | plain h hrest => exact hrest
        | triple h hrest => exact absurd rfl hc
        | percent h hrest => exact absurd rfl hc
      · intro h
        exact .plain hc h

/-! ## Encoding and decoding -/

/-- The characters that `encode_url` leaves. -/
def isUnreserved (c : UInt8) : Bool := isalnum c || c == 45 || c == 95 || c == 46 || c == 126

theorem isUnreserved_ne {c : UInt8} (h : isUnreserved c = true) : c ≠ 37 := by
  rintro rfl
  exact absurd h (by decide)

theorem isxdigit_hexDigit {n : Nat} (h : n < 16) : HttpsClient.isxdigit (HttpsClient.hexDigit n) = true := by
  revert n
  decide

theorem hexValue_hexDigit {n : Nat} (h : n < 16) : hexValue (HttpsClient.hexDigit n) = n := by
  revert n
  decide

theorem hexByte_hexDigit (c : UInt8) :
    hexByte (HttpsClient.hexDigit (c.toNat / 16)) (HttpsClient.hexDigit (c.toNat % 16)) = c := by
  have hlt := c.toNat_lt
  rw [hexByte, hexValue_hexDigit (by omega), hexValue_hexDigit (by omega), Nat.div_add_mod']
  exact UInt8.ofNat_toNat

theorem encodeUrl_cons (c : UInt8) (str : Bytes) : HttpsClient.encodeUrl (c :: str) =
    (if isUnreserved c then [c] else [37, HttpsClient.hexDigit (c.toNat / 16), HttpsClient.hexDigit (c.toNat % 16)]) ++
      HttpsClient.encodeUrl str := rfl

theorem not_mem_encodeUrl {c : UInt8} (hplain : isUnreserved c = false) (hpercent : c ≠ 37)
    (hdigit : HttpsClient.isxdigit c = false) : ∀ str : Bytes, c ∉ HttpsClient.encodeUrl str
  | [] => List.not_mem_nil
  | d :: str => by
    have hdigits {n : Nat} (hn : n < 16) : c ≠ HttpsClient.hexDigit n := by
      rintro rfl
      rw [isxdigit_hexDigit hn] at hdigit
      cases hdigit
    have hlt := d.toNat_lt
    rw [encodeUrl_cons, List.mem_append]
    rintro (h | h)
    · split at h
      · rename_i hd
        obtain rfl := List.mem_singleton.1 h
        rw [hplain] at hd
        cases hd
      · simp only [List.mem_cons, List.not_mem_nil, or_false] at h
        rcases h with h | h | h
        · exact hpercent h
        · exact hdigits (by omega) h
        · exact hdigits (by omega) h
    · exact not_mem_encodeUrl hplain hpercent hdigit str h

theorem go_plain {c : UInt8} (hc : c ≠ 37) (rest : Bytes) :
    HttpsClient.decodeUrl.go (c :: rest) = c :: HttpsClient.decodeUrl.go rest := by
  match rest with
  | [] => rfl
  | [_] => rfl
  | c1 :: c2 :: rest => rw [HttpsClient.decodeUrl.go, if_neg hc]

theorem percentDecode_plain {c : UInt8} (hc : c ≠ 37) (rest : Bytes) : percentDecode (c :: rest) = c :: percentDecode rest := by
  match rest with
  | [] => rfl
  | [_] => rfl
  | c1 :: c2 :: rest => rw [percentDecode, if_neg fun h => hc h.1]

/-- By the standard rules the encoded text is decoded again. -/
theorem percentDecode_encodeUrl : ∀ str rest : Bytes,
    percentDecode (HttpsClient.encodeUrl str ++ rest) = str ++ percentDecode rest
  | [], rest => rfl
  | c :: str, rest => by
    rw [encodeUrl_cons, List.append_assoc]
    split
    · rename_i hc
      rw [List.singleton_append, percentDecode_plain (isUnreserved_ne hc), percentDecode_encodeUrl str rest]
      rfl
    · have hlt := c.toNat_lt
      have hhigh : c.toNat / 16 < 16 := by omega
      have hlow : c.toNat % 16 < 16 := by omega
      have hstart : startsHex (HttpsClient.hexDigit (c.toNat / 16) :: HttpsClient.hexDigit (c.toNat % 16) ::
          (HttpsClient.encodeUrl str ++ rest)) = true :=
        Bool.and_eq_true_iff.2 ⟨isxdigit_hexDigit hhigh, isxdigit_hexDigit hlow⟩
      show percentDecode (37 :: HttpsClient.hexDigit (c.toNat / 16) :: HttpsClient.hexDigit (c.toNat % 16) ::
        (HttpsClient.encodeUrl str ++ rest)) = _
      rw [percentDecode, if_pos ⟨rfl, hstart⟩, hexByte_hexDigit, percentDecode_encodeUrl str rest]
      rfl

/-- The text has two characters or one that is escaped, and what is escaped has a triple of digits. -/
def Reversible (str : Bytes) : Prop :=
  (2 ≤ str.length ∨ ∃ c ∈ str, isUnreserved c = false) ∧
    ∀ c ∈ str, isUnreserved c = false → c.toNat < 128 ∧ c.toNat % 16 < 10

theorem length_encodeUrl_cons (c : UInt8) (str : Bytes) : (HttpsClient.encodeUrl (c :: str)).length =
    (if isUnreserved c then 1 else 3) + (HttpsClient.encodeUrl str).length := by
  rw [encodeUrl_cons, List.length_append]
  split <;> rfl

theorem two_le_encodeUrl (str : Bytes) :
    2 ≤ (HttpsClient.encodeUrl str).length ↔ 2 ≤ str.length ∨ ∃ c ∈ str, isUnreserved c = false := by
  match str with
  | [] =>
    simp [HttpsClient.encodeUrl]
  | [c] =>
    have hlen := length_encodeUrl_cons c []
    rw [show HttpsClient.encodeUrl [] = [] from rfl] at hlen
    rw [hlen]
    cases hc : isUnreserved c <;> simp [hc]
  | c :: d :: str =>
    have hpos (x : UInt8) : 1 ≤ if isUnreserved x = true then 1 else 3 := by split <;> decide
    have hc := hpos c
    have hd := hpos d
    rw [length_encodeUrl_cons, length_encodeUrl_cons]
    constructor
    · intro _
      exact .inl (by simp)
    · intro _
      omega

/-- What `decode_url` makes of the text that `encode_url` writes for a character. -/
def recoded (c : UInt8) : UInt8 :=
  if isUnreserved c then c else HttpsClient.decodeHex (HttpsClient.hexDigit (c.toNat / 16)) (HttpsClient.hexDigit (c.toNat % 16))

theorem isDigitTriple_hexDigit {m n : Nat} (hm : m < 16) (hn : n < 16) :
    isDigitTriple (HttpsClient.hexDigit m) (HttpsClient.hexDigit n) = true ↔ m < 8 ∧ n < 10 := by
  have hall : ∀ m < 16, ∀ n < 16,
      (isDigitTriple (HttpsClient.hexDigit m) (HttpsClient.hexDigit n) = true ↔ m < 8 ∧ n < 10) := by
    decide
  exact hall m hm n hn

theorem recoded_eq_iff (c : UInt8) : recoded c = c ↔ (isUnreserved c = false → c.toNat < 128 ∧ c.toNat % 16 < 10) := by
  unfold recoded
  cases hc : isUnreserved c with
  | true => simp
  | false =>
    have hlt := c.toNat_lt
    have hhigh : c.toNat / 16 < 16 := by omega
    have hlow : c.toNat % 16 < 16 := by omega
    have hiff := decodeHex_eq_iff (isxdigit_hexDigit hhigh) (isxdigit_hexDigit hlow)
    rw [hexByte_hexDigit, isDigitTriple_hexDigit hhigh hlow] at hiff
    rw [if_neg Bool.false_ne_true, hiff]
    constructor
    · rintro ⟨h1, h2⟩ _
      exact ⟨by omega, h2⟩
    · intro h
      have := h rfl
      omega

theorem go_encodeUrl : ∀ str : Bytes, HttpsClient.decodeUrl.go (HttpsClient.encodeUrl str) = str.map recoded
  | [] => rfl
  | c :: str => by
    rw [encodeUrl_cons, List.map_cons, ← go_encodeUrl str, recoded]
    cases hc : isUnreserved c with
    | true => exact go_plain (isUnreserved_ne hc) _
    | false =>
      have hlt := c.toNat_lt
      have h1 : HttpsClient.isxdigit (HttpsClient.hexDigit (c.toNat / 16)) = true := isxdigit_hexDigit (by omega)
      have h2 : HttpsClient.isxdigit (HttpsClient.hexDigit (c.toNat % 16)) = true := isxdigit_hexDigit (by omega)
      simp [HttpsClient.decodeUrl.go, h1, h2]

theorem decodeUrl_encodeUrl_iff (str : Bytes) :
    HttpsClient.decodeUrl (HttpsClient.encodeUrl str) = .ok str ↔ Reversible str := by
  unfold HttpsClient.decodeUrl Reversible
  rw [← two_le_encodeUrl, go_encodeUrl]
  have hmap : str.map recoded = str ↔ ∀ c ∈ str, isUnreserved c = false → c.toNat < 128 ∧ c.toNat % 16 < 10 := by
    have hself : str.map recoded = str.map id ↔ ∀ c ∈ str, recoded c = id c := List.map_inj_left
    rw [List.map_id] at hself
    exact hself.trans (forall₂_congr fun c _ => recoded_eq_iff c)
  rw [← hmap]
  split
  · rename_i hshort
    constructor
    · intro h
      cases h
    · rintro ⟨hlong, -⟩
      omega
  · rename_i hlong
    rw [Except.ok.injEq]
    constructor
    · intro h
      exact ⟨by omega, h⟩
    · rintro ⟨-, h⟩
      exact h

/-- What the decoder has to do with a text: it returns, with every triple decoded and every other character
but % copied. -/
def DecodesUrl (str : Bytes) : Prop :=
  HttpsClient.decodeUrl str = .ok (HttpsClient.decodeTrace str).flatten ∧ Decodes str (HttpsClient.decodeTrace str)

theorem decodesUrl_iff (str : Bytes) : DecodesUrl str ↔ 2 ≤ str.length ∧ escapes str = true := by
  unfold DecodesUrl HttpsClient.decodeUrl
  rw [HttpsClient.decodeTrace_flatten, decodes_iff]
  split
  · rename_i hshort
    constructor
    · rintro ⟨h, -⟩
      cases h
    · rintro ⟨hlong, -⟩
      omega
  · rename_i hlong
    constructor
    · rintro ⟨-, h⟩
      exact ⟨by omega, h⟩
    · rintro ⟨-, h⟩
      exact ⟨rfl, h⟩

/-- Exactly which texts survive the encoding and the decoding, and which ones are decoded by the rules. -/
theorem decodeUrl_exact (str : Bytes) : (HttpsClient.decodeUrl (HttpsClient.encodeUrl str) = .ok str ↔ Reversible str) ∧
    (DecodesUrl str ↔ 2 ≤ str.length ∧ escapes str = true) :=
  ⟨decodeUrl_encodeUrl_iff str, decodesUrl_iff str⟩

/-- A plus comes back as R, and the empty text cannot be decoded. -/
theorem decodeUrl_plus : HttpsClient.decodeUrl (HttpsClient.encodeUrl (ascii "+")) = .ok (ascii "R") ∧
    HttpsClient.decodeUrl (HttpsClient.encodeUrl (ascii "+")) ≠ .ok (ascii "+") ∧
    HttpsClient.decodeUrl [] = .error .outOfRange ∧ ¬ DecodesUrl [] := by
  refine ⟨by rfl, ?_, by rfl, ?_⟩
  · intro h
    have hplus : HttpsClient.decodeUrl (HttpsClient.encodeUrl (ascii "+")) = .ok (ascii "R") := by rfl
    rw [hplus] at h
    exact absurd (Except.ok.inj h) (by decide)
  · rintro ⟨h, -⟩
    cases h

end FortiRdp.Http
