/-
Endpoints as texts. The constructor takes the port with `strtol`, so a port text only has to begin with a number in
range: what is behind that number is cut. A host without a port is cut at a NUL. What `to_string` writes of an
endpoint is read as the same endpoint.
-/
import FortiRdp.Net.Endpoint

namespace FortiRdp.Net.Endpoint

open Util

/-! ## Host and port text -/

/-- The host and the port text, at the last `:` that no `]` follows. -/
def PortSplit (address host text : Bytes) : Prop := address = host ++ 58 :: text ∧ 58 ∉ text ∧ 93 ∉ text

theorem findIdx_noDelim {text : Bytes} (hcolon : 58 ∉ text) (hbracket : 93 ∉ text) :
    text.reverse.findIdx? (fun c => !(c != 58 && c != 93)) = none := by
  rw [List.findIdx?_eq_none_iff]
  intro x hx
  have hx58 : x ≠ 58 := by
    rintro rfl
    exact hcolon (List.mem_reverse.1 hx)
  have hx93 : x ≠ 93 := by
    rintro rfl
    exact hbracket (List.mem_reverse.1 hx)
  simp [hx58, hx93]

theorem lastDelim_append {host text : Bytes} {c : UInt8} (hc : c = 58 ∨ c = 93) (hcolon : 58 ∉ text) (hbracket : 93 ∉ text) :
    lastDelim (host ++ c :: text) = some host.length := by
  have hdelim : (!(c != 58 && c != 93)) = true := by
    rcases hc with rfl | rfl
    · rfl
    · rfl
  unfold lastDelim findLastNotOf
  rw [List.reverse_append, List.reverse_cons, List.append_assoc, List.findIdx?_append, findIdx_noDelim hcolon hbracket,
    List.singleton_append, List.findIdx?_cons, hdelim]
  simp

theorem PortSplit.lastDelim {address host text : Bytes} (h : PortSplit address host text) :
    lastDelim address = some host.length := by
  obtain ⟨rfl, hcolon, hbracket⟩ := h
  exact lastDelim_append (.inl rfl) hcolon hbracket

/-- An address has at most one port text. -/
theorem PortSplit.unique {address host host' text text' : Bytes} (h : PortSplit address host text)
    (h' : PortSplit address host' text') : host = host' ∧ text = text' := by
  have hlength : host.length = host'.length := Option.some.inj (h.lastDelim.symm.trans h'.lastDelim)
  obtain ⟨hhost, htext⟩ := List.append_inj (h.1.symm.trans h'.1) hlength
  exact ⟨hhost, (List.cons.inj htext).2⟩

/-- Every address ends in a text without delimiters, and one of them is in front of it if there is any. -/
theorem delim_cases (address : Bytes) : (58 ∉ address ∧ 93 ∉ address) ∨
    ∃ host c text, address = host ++ c :: text ∧ (c = 58 ∨ c = 93) ∧ 58 ∉ text ∧ 93 ∉ text := by
  induction address with
  | nil => exact .inl ⟨List.not_mem_nil, List.not_mem_nil⟩
  | cons x address ih =>
    rcases ih with ⟨hcolon, hbracket⟩ | ⟨host, c, text, rfl, hc, hcolon, hbracket⟩
    · by_cases hx : x = 58 ∨ x = 93
      · exact .inr ⟨[], x, address, rfl, hx, hcolon, hbracket⟩
      · refine .inl ⟨?_, ?_⟩
        · intro hmem
          rcases List.mem_cons.1 hmem with rfl | hmem
          · exact hx (.inl rfl)
          · exact hcolon hmem
        · intro hmem
          rcases List.mem_cons.1 hmem with rfl | hmem
          · exact hx (.inr rfl)
          · exact hbracket hmem
    · exact .inr ⟨x :: host, c, text, rfl, hc, hcolon, hbracket⟩

theorem init_portSplit {address host text : Bytes} (h : PortSplit address host text) (defaultPort : UInt16) :
    init address defaultPort = match parsePort text with
      | some port => if trimmed host = [] then .error .invalidArgument else .ok { hostname := trimmed host, port }
      | none => .error .invalidArgument := by
  have hdelim := h.lastDelim
  obtain ⟨rfl, -, -⟩ := h
  have hcolon : (host ++ 58 :: text)[host.length]? = some 58 := by simp
  have hhost : (host ++ 58 :: text).take host.length = host := by simp
  have htext : (host ++ 58 :: text).drop (host.length + 1) = text := by simp
  unfold init
  rw [hdelim]
  simp only
  rw [if_pos hcolon, hhost, htext, trim_eq]
  cases parsePort text with
  | none => rfl
  | some port => rfl

theorem init_whole {address : Bytes} (h : ∀ host text, ¬ PortSplit address host text) (defaultPort : UInt16) :
    init address defaultPort = if trimmed (cStr address) = [] then .error .invalidArgument
      else .ok { hostname := trimmed (cStr address), port := defaultPort } := by
  have hwhole : init.whole address defaultPort = if trimmed (cStr address) = [] then .error .invalidArgument
      else .ok { hostname := trimmed (cStr address), port := defaultPort } := by
    unfold init.whole
    rw [trim_eq]
    show (if trimmed (cStr address) = [] then _ else _) = _
    split
    · rfl
    · rfl
  rw [← hwhole]
  unfold init
  rcases delim_cases address with ⟨hcolon, hbracket⟩ | ⟨host, c, text, rfl, hc, hcolon, hbracket⟩
  · have hnone : lastDelim address = none := by
      unfold lastDelim findLastNotOf
      rw [Option.map_eq_none_iff, findIdx_noDelim hcolon hbracket]
    rw [hnone]
  · rw [lastDelim_append hc hcolon hbracket]
    rcases hc with rfl | rfl
    · exact absurd ⟨rfl, hcolon, hbracket⟩ (h host text)
    · simp only
      rw [if_neg (by simp)]

/-! ## Port texts -/

/-- The text begins with the number: white space, perhaps a plus sign, and digits that no digit follows. -/
def BeginsWith (n : Nat) (text : Bytes) : Prop :=
  ∃ spaces sign digits rest, text = spaces ++ (sign ++ (digits ++ rest)) ∧ (∀ c ∈ spaces, isspace c = true) ∧
    (sign = [] ∨ sign = [43]) ∧ Numeral 10 n digits ∧ ∀ c ∈ rest.head?, isdigit c = false

theorem isRadixDigit_ten (c : UInt8) : isRadixDigit 10 c = isdigit c := by
  unfold isRadixDigit digitValue
  by_cases hdigit : isdigit c = true
  · rw [if_pos hdigit, hdigit, Option.any_some, decide_eq_true_eq]
    simp only [isdigit, Bool.and_eq_true, decide_eq_true_eq, UInt8.le_iff_toNat_le, UInt8.reduceToNat] at hdigit
    omega
  · rw [if_neg hdigit, Bool.eq_false_iff.2 hdigit]
    by_cases halpha : isalpha c = true
    · rw [if_pos halpha, Option.any_some, decide_eq_false_iff_not]
      have hlow : 97 ≤ (tolower c).toNat := by
        simp only [isalpha, Bool.or_eq_true, Bool.and_eq_true, decide_eq_true_eq, UInt8.le_iff_toNat_le,
          UInt8.reduceToNat] at halpha
        unfold tolower
        split
        · rename_i hupper
          simp only [Bool.and_eq_true, decide_eq_true_eq, UInt8.le_iff_toNat_le, UInt8.reduceToNat] at hupper
          rw [UInt8.toNat_add]
          simp only [UInt8.reduceToNat]
          omega
        · rename_i hupper
          simp only [Bool.and_eq_true, decide_eq_true_eq, UInt8.le_iff_toNat_le, UInt8.reduceToNat] at hupper
          omega
      omega
    · rw [if_neg halpha]
      rfl

theorem skipPrefix_ten (s : Bytes) : skipPrefix 10 s = s := by
  unfold skipPrefix
  split
  · exact if_neg fun hx => absurd hx.1 (by decide)
  · rfl

/-- `strtol` converts the number that the text begins with. -/
theorem BeginsWith.leading {n : Nat} {text : Bytes} (h : BeginsWith n text) : leadingNumber 10 text = n := by
  obtain ⟨spaces, sign, digits, rest, rfl, hspaces, hsign, hnum, hrest⟩ := h
  have hdigit : ∀ c ∈ digits, isRadixDigit 10 c = true := by
    intro c hc
    obtain ⟨d, hd, hlt⟩ := hnum.digits c hc
    simp [isRadixDigit, hd, hlt]
  have halnum : ∀ c ∈ digits, isalnum c = true := by
    intro c hc
    obtain ⟨d, hd, -⟩ := hnum.digits c hc
    exact isalnum_of_digit hd
  have hsigned : ∀ c ∈ sign, c = 43 := by
    rcases hsign with rfl | rfl
    · exact fun c hc => absurd hc List.not_mem_nil
    · exact fun c hc => List.mem_singleton.1 hc
  have htext : cStr (spaces ++ (sign ++ (digits ++ rest))) = spaces ++ (sign ++ (digits ++ cStr rest)) := by
    unfold cStr
    rw [List.takeWhile_append_of_pos, List.takeWhile_append_of_pos, List.takeWhile_append_of_pos]
    · intro c hc
      exact bne_iff_ne.2 (isalnum_ne (halnum c hc) (by decide))
    · intro c hc
      rw [hsigned c hc]
      decide
    · intro c hc
      rw [bne_iff_ne]
      rintro rfl
      exact absurd (hspaces 0 hc) (by decide)
  obtain ⟨c, t, hct⟩ := List.exists_cons_of_ne_nil hnum.ne
  have hc : isalnum c = true := halnum c (by rw [hct]; exact List.mem_cons_self)
  have hskip : (sign ++ (digits ++ cStr rest)).dropWhile isspace = sign ++ (digits ++ cStr rest) := by
    rcases hsign with rfl | rfl
    · rw [hct]
      exact List.dropWhile_cons_of_neg (by rw [isspace_of_alnum hc]; exact Bool.false_ne_true)
    · rfl
  have hread : readSign (sign ++ (digits ++ cStr rest)) = (false, digits ++ cStr rest) := by
    rcases hsign with rfl | rfl
    · rw [hct]
      exact readSign_alnum hc _
    · rfl
  have hdigits : (digits ++ cStr rest).takeWhile (isRadixDigit 10) = digits := by
    rw [List.takeWhile_append_of_pos hdigit]
    have hnone : (cStr rest).takeWhile (isRadixDigit 10) = [] := by
      cases rest with
      | nil => rfl
      | cons x rest =>
        unfold cStr
        rw [List.takeWhile_cons]
        split
        · exact List.takeWhile_cons_of_neg (by rw [isRadixDigit_ten, hrest x rfl]; exact Bool.false_ne_true)
        · rfl
    rw [hnone, List.append_nil]
  unfold leadingNumber
  rw [htext, List.dropWhile_append_of_pos hspaces, hskip, hread]
  simp only [Bool.false_eq_true, if_false]
  rw [skipPrefix_ten, hdigits]
  exact congrArg Int.ofNat hnum.value

theorem readSign_cases (s : Bytes) : (readSign s).1 = true ∨
    ∃ sign rest, (sign = [] ∨ sign = [43]) ∧ s = sign ++ rest ∧ readSign s = (false, rest) := by
  unfold readSign
  split
  · exact .inl rfl
  · exact .inr ⟨[43], _, .inr rfl, rfl, rfl⟩
  · exact .inr ⟨[], _, .inl rfl, rfl, rfl⟩

theorem head_dropWhile {p : UInt8 → Bool} {s : Bytes} : ∀ c ∈ (s.dropWhile p).head?, p c = false := by
  intro c hc
  have hhead := List.head?_dropWhile_not p s
  rw [hc] at hhead
  exact hhead

/-- A text begins with the positive number that `strtol` converts. -/
theorem beginsWith_of_leading {n : Nat} {text : Bytes} (hpos : 1 ≤ n) (h : leadingNumber 10 text = n) : BeginsWith n text := by
  unfold leadingNumber at h
  rcases readSign_cases ((cStr text).dropWhile isspace) with hneg | ⟨sign, rest, hsign, hrem, hread⟩
  · simp only [hneg, if_true] at h
    omega
  simp only [hread, Bool.false_eq_true, if_false, skipPrefix_ten] at h
  have hvalue : digitsValue 10 (rest.takeWhile (isRadixDigit 10)) = n := Int.ofNat.inj h
  have hsplit : text = (cStr text).takeWhile isspace ++ (sign ++ (rest.takeWhile (isRadixDigit 10) ++
      (rest.dropWhile (isRadixDigit 10) ++ text.dropWhile (· != 0)))) := by
    calc text = cStr text ++ text.dropWhile (· != 0) := List.takeWhile_append_dropWhile.symm
      _ = (cStr text).takeWhile isspace ++ (cStr text).dropWhile isspace ++ text.dropWhile (· != 0) := by
        rw [List.takeWhile_append_dropWhile]
      _ = (cStr text).takeWhile isspace ++ (sign ++ (rest.takeWhile (isRadixDigit 10) ++ rest.dropWhile (isRadixDigit 10))) ++
          text.dropWhile (· != 0) := by
        rw [hrem, List.takeWhile_append_dropWhile]
      _ = _ := by simp only [List.append_assoc]
  refine ⟨_, sign, _, _, hsplit, fun c hc => List.mem_takeWhile_imp hc, hsign, ?_, ?_⟩
  · constructor
    · intro hnil
      rw [hnil] at hvalue
      rw [← hvalue] at hpos
      cases hpos
    · intro c hc
      have hdigit := List.mem_takeWhile_imp hc
      unfold isRadixDigit at hdigit
      rw [Option.any_eq_true] at hdigit
      obtain ⟨d, hd, hlt⟩ := hdigit
      exact ⟨d, hd, of_decide_eq_true hlt⟩
    · exact hvalue
  · intro c hc
    cases hmore : rest.dropWhile (isRadixDigit 10) with
    | nil =>
      rw [hmore, List.nil_append] at hc
      have hzero : (c != 0) = false := head_dropWhile c hc
      rw [bne_eq_false_iff_eq.1 hzero]
      decide
    | cons x more =>
      rw [hmore] at hc
      obtain rfl : x = c := Option.some.inj hc
      rw [← isRadixDigit_ten]
      exact head_dropWhile x (by rw [hmore]; rfl)

theorem BeginsWith.unique {n m : Nat} {text : Bytes} (h : BeginsWith n text) (h' : BeginsWith m text) : n = m :=
  Int.ofNat.inj (h.leading.symm.trans h'.leading)

theorem parsePort_iff {text : Bytes} {port : UInt16} :
    parsePort text = some port ↔ ∃ n, BeginsWith n text ∧ 1 ≤ n ∧ n ≤ 65535 ∧ port = n.toUInt16 := by
  have hlow : longMin ≤ 1 := by decide
  have hhigh : 65535 ≤ longMax := by decide
  have hread : parsePort text = if 1 ≤ leadingNumber 10 text ∧ leadingNumber 10 text ≤ 65535 then
      some (leadingNumber 10 text).toNat.toUInt16 else none := by
    unfold parsePort str2i
    rw [str2num_leading text 10 (Int.le_refl _) (by decide) (Int.le_refl _)]
    generalize leadingNumber 10 text = l
    by_cases hrange : 1 ≤ l ∧ l ≤ 65535
    · rw [if_pos (by omega), if_pos hrange]
      exact if_pos (by omega)
    · rw [if_neg hrange]
      by_cases hlong : longMin ≤ l ∧ l ≤ longMax
      · rw [if_pos hlong]
        exact if_neg (by omega)
      · rw [if_neg hlong]
  rw [hread]
  constructor
  · intro h
    by_cases hrange : 1 ≤ leadingNumber 10 text ∧ leadingNumber 10 text ≤ 65535
    · rw [if_pos hrange] at h
      obtain ⟨n, hn⟩ := Int.eq_ofNat_of_zero_le (a := leadingNumber 10 text) (by omega)
      refine ⟨n, beginsWith_of_leading (by omega) hn, by omega, by omega, ?_⟩
      rw [hn] at h
      exact (Option.some.inj h).symm
    · rw [if_neg hrange] at h
      cases h
  · rintro ⟨n, hbegins, hpos, hle, rfl⟩
    rw [hbegins.leading, if_pos (by omega)]
    rfl

/-! ## The syntax -/

/-- The port text as a whole, up to blanks around it, is the number. -/
def IsPort (n : Nat) (text : Bytes) : Prop := Numeral 10 n (trimmed text) ∧ 1 ≤ n ∧ n ≤ 65535

/-- The endpoint that an address denotes, `hostname{:port}`. -/
inductive Denotes (address : Bytes) (defaultPort : UInt16) : Endpoint → Prop where
  | port {host text : Bytes} {n : Nat} : PortSplit address host text → trimmed host ≠ [] → IsPort n text →
      Denotes address defaultPort { hostname := trimmed host, port := n.toUInt16 }
  | whole : (∀ host text, ¬ PortSplit address host text) → trimmed address ≠ [] →
      Denotes address defaultPort { hostname := trimmed address, port := defaultPort }

/-- The address is accepted exactly when it denotes an endpoint, and that endpoint is stored. -/
def ReadExactly (address : Bytes) (defaultPort : UInt16) : Prop :=
  (∀ ep, init address defaultPort = .ok ep ↔ Denotes address defaultPort ep) ∧
    ((∀ ep, ¬ Denotes address defaultPort ep) → init address defaultPort = .error .invalidArgument)

theorem IsPort.beginsWith {n : Nat} {text : Bytes} (h : IsPort n text) : BeginsWith n text := by
  obtain ⟨before, after, htext, hbefore, hafter⟩ := exists_trimmed text
  have hblank : ∀ c, isBlank c = true → isspace c = true ∧ isdigit c = false := by
    intro c hc
    simp only [isBlank, Bool.or_eq_true, beq_iff_eq] at hc
    rcases hc with rfl | rfl
    · decide
    · decide
  refine ⟨before, [], trimmed text, after, htext, fun c hc => (hblank c (hbefore c hc)).1, .inl rfl, h.1, ?_⟩
  intro c hc
  exact (hblank c (hafter c (List.mem_of_mem_head? hc))).2

theorem denotes_portSplit {address host text : Bytes} {defaultPort : UInt16} {ep : Endpoint} (h : PortSplit address host text) :
    Denotes address defaultPort ep ↔
      trimmed host ≠ [] ∧ ∃ n, IsPort n text ∧ ep = { hostname := trimmed host, port := n.toUInt16 } := by
  constructor
  · rintro (⟨hsplit, hhost, hport⟩ | ⟨hnone, -⟩)
    · obtain ⟨rfl, rfl⟩ := h.unique hsplit
      exact ⟨hhost, _, hport, rfl⟩
    · exact absurd h (hnone host text)
  · rintro ⟨hhost, n, hport, rfl⟩
    exact .port h hhost hport

theorem denotes_whole {address : Bytes} {defaultPort : UInt16} {ep : Endpoint} (h : ∀ host text, ¬ PortSplit address host text) :
    Denotes address defaultPort ep ↔
      trimmed address ≠ [] ∧ ep = { hostname := trimmed address, port := defaultPort } := by
  constructor
  · rintro (⟨hsplit, -, -⟩ | ⟨-, hhost⟩)
    · exact absurd hsplit (h _ _)
    · exact ⟨hhost, rfl⟩
  · rintro ⟨hhost, rfl⟩
    exact .whole h hhost

/-- What is not accepted throws `std::invalid_argument`. -/
theorem init_refused {address : Bytes} {defaultPort : UInt16} (h : ∀ ep, init address defaultPort ≠ .ok ep) :
    init address defaultPort = .error .invalidArgument := by
  by_cases hsplit : ∃ host text, PortSplit address host text
  · obtain ⟨host, text, hsplit⟩ := hsplit
    rw [init_portSplit hsplit] at h ⊢
    cases hport : parsePort text with
    | none => rfl
    | some port =>
      rw [hport] at h
      by_cases hhost : trimmed host = []
      · exact if_pos hhost
      · exact absurd (if_neg hhost) (h _)
  · rw [init_whole fun host text hs => hsplit ⟨host, text, hs⟩] at h ⊢
    by_cases hhost : trimmed (cStr address) = []
    · exact if_pos hhost
    · exact absurd (if_neg hhost) (h _)

theorem readExactly_of {address : Bytes} {defaultPort : UInt16}
    (h : ∀ ep, init address defaultPort = .ok ep ↔ Denotes address defaultPort ep) : ReadExactly address defaultPort :=
  ⟨h, fun hnone => init_refused fun ep hok => hnone ep ((h ep).1 hok)⟩

/-- An address with a port is read exactly when the number in range that its port text begins with is all of it. -/
theorem readExactly_portSplit {address host text : Bytes} (h : PortSplit address host text) (defaultPort : UInt16) :
    ReadExactly address defaultPort ↔
      (trimmed host ≠ [] → ∀ n, BeginsWith n text → 1 ≤ n → n ≤ 65535 → IsPort n text) := by
  constructor
  · rintro ⟨hok, -⟩ hhost n hbegins hpos hle
    have hport : parsePort text = some n.toUInt16 := parsePort_iff.2 ⟨n, hbegins, hpos, hle, rfl⟩
    have hinit : init address defaultPort = .ok { hostname := trimmed host, port := n.toUInt16 } := by
      rw [init_portSplit h, hport]
      exact if_neg hhost
    obtain ⟨-, m, hm, -⟩ := (denotes_portSplit h).1 ((hok _).1 hinit)
    rwa [hbegins.unique hm.beginsWith]
  · intro hwhole
    refine readExactly_of fun ep => ?_
    rw [init_portSplit h, denotes_portSplit h]
    constructor
    · intro hok
      cases hport : parsePort text with
      | none =>
        rw [hport] at hok
        cases hok
      | some port =>
        rw [hport] at hok
        by_cases hhost : trimmed host = []
        · cases (if_pos hhost).symm.trans hok
        · obtain rfl := Except.ok.inj ((if_neg hhost).symm.trans hok)
          obtain ⟨n, hbegins, hpos, hle, rfl⟩ := parsePort_iff.1 hport
          exact ⟨hhost, n, hwhole hhost n hbegins hpos hle, rfl⟩
    · rintro ⟨hhost, n, hport, rfl⟩
      rw [parsePort_iff.2 ⟨n, hport.beginsWith, hport.2.1, hport.2.2, rfl⟩]
      exact if_neg hhost

/-- An address without a port is read exactly when it has no NUL. -/
theorem readExactly_whole {address : Bytes} (h : ∀ host text, ¬ PortSplit address host text) (defaultPort : UInt16) :
    ReadExactly address defaultPort ↔ 0 ∉ address := by
  constructor
  · rintro ⟨hok, -⟩ hnul
    have hmem : 0 ∈ trimmed address := mem_trimmed hnul (by decide)
    have hinit := (hok _).2 (.whole h (List.ne_nil_of_mem hmem))
    rw [init_whole h] at hinit
    split at hinit
    · cases hinit
    · have hhost : trimmed (cStr address) = trimmed address := congrArg hostname (Except.ok.inj hinit)
      rw [← hhost] at hmem
      exact cStr_nul address (mem_of_mem_trimmed hmem)
  · intro hnul
    refine readExactly_of fun ep => ?_
    rw [init_whole h, cStr_eq hnul, denotes_whole h]
    split
    · rename_i hhost
      exact iff_of_false nofun fun hep => hep.1 hhost
    · rename_i hhost
      constructor
      · rintro ⟨⟩
        exact ⟨hhost, rfl⟩
      · rintro ⟨-, rfl⟩
        rfl

/-- The constructor reads an address exactly, unless its port text only begins with a port, or it has no port and
is cut at a NUL. -/
theorem init_exactly (address : Bytes) (defaultPort : UInt16) : ReadExactly address defaultPort ↔
    ((∀ host text, ¬ PortSplit address host text) → 0 ∉ address) ∧
      ∀ host text n, PortSplit address host text → trimmed host ≠ [] → BeginsWith n text → 1 ≤ n → n ≤ 65535 →
        IsPort n text := by
  by_cases hsplit : ∃ host text, PortSplit address host text
  · obtain ⟨host, text, hsplit⟩ := hsplit
    rw [readExactly_portSplit hsplit]
    constructor
    · intro h
      refine ⟨fun hnone => absurd hsplit (hnone host text), ?_⟩
      intro host' text' n hsplit'
      obtain ⟨rfl, rfl⟩ := hsplit.unique hsplit'
      exact fun hhost => h hhost n
    · rintro ⟨-, h⟩ hhost n
      exact h host text n hsplit hhost
  · have hnone : ∀ host text, ¬ PortSplit address host text := fun host text h => hsplit ⟨host, text, h⟩
    rw [readExactly_whole hnone]
    exact ⟨fun h => ⟨fun _ => h, fun host text _ h' => absurd h' (hnone host text)⟩, fun h => h.1 hnone⟩

/-- A port text of digits and letters is cut behind the digits. -/
theorem init_cuts : ¬ ReadExactly (ascii "fw:443abc") 10443 := by
  rintro ⟨hok, -⟩
  have hinit : init (ascii "fw:443abc") 10443 = .ok { hostname := ascii "fw", port := 443 } := by decide
  have hsplit : PortSplit (ascii "fw:443abc") (ascii "fw") (ascii "443abc") := ⟨by decide, by decide, by decide⟩
  obtain ⟨-, n, ⟨hport, -⟩, -⟩ := (denotes_portSplit hsplit).1 ((hok _).1 hinit)
  obtain ⟨d, hd, hlt⟩ := hport.digits 97 (by decide)
  cases hd
  exact absurd hlt (by decide)

/-! ## The round trip -/

theorem digits_value : ∀ (digits : List Char) (n : Nat), (∀ c ∈ digits, c.isDigit = true) →
    (digits.map fun c => c.toNat.toUInt8).foldl (fun n c => n * 10 + (digitValue c).getD 0) n = Nat.ofDigitChars 10 digits n
  | [], _, _ => rfl
  | c :: digits, n, h => by
    have hdigit : (digitValue c.toNat.toUInt8).getD 0 = c.toNat - '0'.toNat := by
      have hc := h c List.mem_cons_self
      simp only [Char.isDigit, Bool.and_eq_true, decide_eq_true_eq] at hc
      have hlow : 48 ≤ c.toNat := hc.1
      have hhigh : c.toNat ≤ 57 := hc.2
      have key : ∀ k < 10, (digitValue (48 + k).toUInt8).getD 0 = k := by decide
      obtain ⟨k, hk⟩ := Nat.exists_eq_add_of_le hlow
      rw [hk, key k (by omega)]
      exact (Nat.add_sub_cancel_left 48 k).symm
    rw [List.map_cons, List.foldl_cons, Nat.ofDigitChars_cons, hdigit, Nat.mul_comm n 10]
    exact digits_value digits _ fun x hx => h x (List.mem_cons_of_mem _ hx)

theorem numeral_decimal (n : Nat) : Numeral 10 n (decimal n) := by
  have hdecimal : decimal n = (Nat.toDigits 10 n).map fun c => c.toNat.toUInt8 := by
    unfold decimal ascii
    rw [show (toString n).toList = Nat.toDigits 10 n from Nat.toList_repr]
  constructor
  · rw [hdecimal]
    exact fun h => Nat.toDigits_ne_nil (List.map_eq_nil_iff.1 h)
  · intro c hc
    have hdigit := isdigit_decimal hc
    rw [← isRadixDigit_ten, isRadixDigit, Option.any_eq_true] at hdigit
    obtain ⟨d, hd, hlt⟩ := hdigit
    exact ⟨d, hd, of_decide_eq_true hlt⟩
  · rw [hdecimal, digits_value _ 0 fun c hc => Nat.isDigit_of_mem_toDigits (by decide) (by decide) hc]
    exact Nat.ofDigitChars_ten_toDigits

/-- What the constructor makes. -/
structure Complete (ep : Endpoint) : Prop where
  ne : ep.hostname ≠ []
  trimmed : Trimmed ep.hostname
  port : 0 < ep.port

theorem init_complete {address : Bytes} {defaultPort : UInt16} {ep : Endpoint} (hdefault : 0 < defaultPort)
    (h : init address defaultPort = .ok ep) : Complete ep := by
  by_cases hsplit : ∃ host text, PortSplit address host text
  · obtain ⟨host, text, hsplit⟩ := hsplit
    rw [init_portSplit hsplit] at h
    cases hport : parsePort text with
    | none =>
      rw [hport] at h
      cases h
    | some port =>
      rw [hport] at h
      by_cases hhost : trimmed host = []
      · cases (if_pos hhost).symm.trans h
      · obtain rfl := Except.ok.inj ((if_neg hhost).symm.trans h)
        refine ⟨hhost, trimmed_trimmed host, ?_⟩
        obtain ⟨n, -, hpos, hle, rfl⟩ := parsePort_iff.1 hport
        rw [UInt16.lt_iff_toNat_lt, Nat.toUInt16_eq, UInt16.toNat_ofNat']
        simp only [UInt16.reduceToNat]
        omega
  · rw [init_whole fun host text hs => hsplit ⟨host, text, hs⟩] at h
    split at h
    · cases h
    · rename_i hhost
      obtain rfl := Except.ok.inj h
      exact ⟨hhost, trimmed_trimmed _, hdefault⟩

/-- What `to_string` writes is split at the colon it writes, whatever the host name. -/
theorem portSplit_toBytes (ep : Endpoint) : PortSplit ep.toBytes ep.hostname (decimal ep.port.toNat) := by
  refine ⟨?_, fun h => absurd (isdigit_decimal h) (by decide), fun h => absurd (isdigit_decimal h) (by decide)⟩
  rw [toBytes, List.append_assoc, List.singleton_append]

theorem parsePort_decimal {port : UInt16} (h : 0 < port) : parsePort (decimal port.toNat) = some port := by
  have hlt := port.toNat_lt
  have hpos : 0 < port.toNat := UInt16.lt_iff_toNat_lt.1 h
  refine parsePort_iff.2 ⟨port.toNat, ?_, hpos, by omega, UInt16.ofNat_toNat.symm⟩
  refine ⟨[], [], decimal port.toNat, [], (List.append_nil _).symm, ?_, .inl rfl, numeral_decimal _, ?_⟩
  · exact fun c hc => absurd hc List.not_mem_nil
  · exact nofun

/-- The text of an endpoint is read as this endpoint, with any default port. -/
theorem init_toBytes {address : Bytes} {defaultPort : UInt16} {ep : Endpoint} (hdefault : 0 < defaultPort)
    (h : init address defaultPort = .ok ep) (otherPort : UInt16) : init ep.toBytes otherPort = .ok ep := by
  have hcomplete := init_complete hdefault h
  have hhost : trimmed ep.hostname = ep.hostname := by
    rw [trimmed, hcomplete.trimmed.right, hcomplete.trimmed.left]
  rw [init_portSplit (portSplit_toBytes ep), parsePort_decimal hcomplete.port, hhost]
  exact if_neg hcomplete.ne

theorem init_toBytes_bracketed : init (Endpoint.toBytes { hostname := ascii "[::1]", port := 443 }) 80 =
    .ok { hostname := ascii "[::1]", port := 443 } :=
  init_toBytes (by decide) (by decide : init (ascii " [::1]") 443 = .ok { hostname := ascii "[::1]", port := 443 }) 80

end FortiRdp.Net.Endpoint
