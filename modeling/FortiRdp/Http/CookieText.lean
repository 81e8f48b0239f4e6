/-
Cookie definitions as texts. A name, a value and attributes as a server may write them, in any order and any case of
letters and with blanks in front, are read as the cookie that they define: of repeated attributes the last one counts.
-/
import FortiRdp.Http.Cookie

namespace FortiRdp.Http

open Util

/-! ## Attributes -/

/-- The attributes of a definition. -/
inductive Attribute where
  | domain (domain : Bytes)
  | path (path : Bytes)
  | secure
  | httpOnly
  | maxAge (age : Bytes)
  | expires (date : Bytes)
  deriving DecidableEq, Repr

namespace Attribute

def name : Attribute → Bytes
  | .domain _ => ascii "domain"
  | .path _ => ascii "path"
  | .secure => ascii "secure"
  | .httpOnly => ascii "httponly"
  | .maxAge _ => ascii "max-age"
  | .expires _ => ascii "expires"

def value : Attribute → Option Bytes
  | .domain text | .path text | .maxAge text | .expires text => some text
  | .secure | .httpOnly => none

def domain? : Attribute → Option Bytes
  | .domain text => some text
  | _ => none

def path? : Attribute → Option Bytes
  | .path text => some text
  | _ => none

def expires? : Attribute → Option Bytes
  | .expires text => some text
  | _ => none

/-- What an attribute sets. -/
def apply (lib : DateLib) (attrs : Cookie.Attributes) : Attribute → Cookie.Attributes
  | .domain text => { attrs with domain := text }
  | .path text => { attrs with path := text }
  | .secure => { attrs with secure := true }
  | .httpOnly => { attrs with httpOnly := true }
  | .maxAge _ => attrs
  | .expires text => { attrs with expires := Cookie.parseHttpDate lib text }

/-- The names have letters and hyphens only. -/
theorem name_plain (a : Attribute) : ∀ c ∈ [0, 9, 32, 59, 61], tolower c ∉ a.name := by
  cases a <;> simp only [name] <;> decide +kernel

theorem name_ne (a : Attribute) : a.name ≠ [] := by
  cases a <;> simp only [name] <;> decide

end Attribute

/-- An attribute as it is written: blanks in front, and its name in any case of letters. -/
structure AttributeText where
  kind : Attribute
  blanks : Bytes
  spelling : Bytes
  blank : ∀ c ∈ blanks, isBlank c = true
  spelled : lower spelling = kind.name
  plain : ∀ value, kind.value = some value → 59 ∉ value ∧ 0 ∉ value

namespace AttributeText

/-- The text between the semicolons. -/
def part (w : AttributeText) : Bytes :=
  w.blanks ++ (w.spelling ++ match w.kind.value with
    | some value => 61 :: value
    | none => [])

def text (w : AttributeText) : Bytes := 59 :: w.part

theorem spelling_plain (w : AttributeText) {c : UInt8} (h : c ∈ [0, 9, 32, 59, 61]) : c ∉ w.spelling := by
  intro hmem
  refine w.kind.name_plain c h ?_
  rw [← w.spelled]
  exact List.mem_map_of_mem hmem

theorem spelling_ne (w : AttributeText) : w.spelling ≠ [] := by
  intro hnil
  apply w.kind.name_ne
  rw [← w.spelled, hnil]
  rfl

theorem part_ne (w : AttributeText) : w.part ≠ [] := by
  intro hnil
  exact w.spelling_ne (List.append_eq_nil_iff.1 (List.append_eq_nil_iff.1 hnil).2).1

theorem part_plain (w : AttributeText) : 59 ∉ w.part ∧ 0 ∉ w.part := by
  have hblanks : 59 ∉ w.blanks ∧ 0 ∉ w.blanks :=
    ⟨fun h => absurd (w.blank 59 h) (by decide), fun h => absurd (w.blank 0 h) (by decide)⟩
  have hspelling : 59 ∉ w.spelling ∧ 0 ∉ w.spelling := ⟨w.spelling_plain (by decide), w.spelling_plain (by decide)⟩
  unfold part
  cases hvalue : w.kind.value with
  | none => simp [hblanks, hspelling]
  | some value =>
    have hplain := w.plain value hvalue
    simp [hblanks, hspelling, hplain]

/-- Behind the blanks there is the name. -/
theorem dropWhile_part (w : AttributeText) : w.part.dropWhile isBlank =
    w.spelling ++ match w.kind.value with
      | some value => 61 :: value
      | none => [] := by
  unfold part
  rw [List.dropWhile_append_of_pos w.blank]
  obtain ⟨c, spelling, hspelling⟩ := List.exists_cons_of_ne_nil w.spelling_ne
  have hc : isBlank c = false := by
    have h9 : 9 ∉ w.spelling := w.spelling_plain (by decide)
    have h32 : 32 ∉ w.spelling := w.spelling_plain (by decide)
    rw [hspelling] at h9 h32
    simp only [List.mem_cons, not_or] at h9 h32
    simp [isBlank, Ne.symm h9.1, Ne.symm h32.1]
  rw [hspelling]
  exact List.dropWhile_cons_of_neg (by rw [hc]; exact Bool.false_ne_true)

/-- `parse` takes an attribute for what it is. -/
theorem parseAttribute (lib : DateLib) (attrs : Cookie.Attributes) (w : AttributeText) {part : ObfString} (h : part.Hides w.part) :
    Cookie.parseAttribute lib attrs part = .ok (w.kind.apply lib attrs) := by
  have hequal : ∀ name : Bytes, iequal w.spelling name = (w.kind.name == lower name) := by
    intro name
    rw [iequal, w.spelled]
  have hblank : onlyBlanks w.part = false := by
    refine decide_eq_false fun hnil => w.spelling_ne ?_
    rw [w.dropWhile_part] at hnil
    exact (List.append_eq_nil_iff.1 hnil.2).1
  have heq : 61 ∉ w.spelling := w.spelling_plain (by decide)
  unfold Cookie.parseAttribute
  rw [ObfString.uncrypt_hides h, trimleft_ok hblank, w.dropWhile_part]
  rw [ok_bind]
  cases hvalue : w.kind.value with
  | none =>
    have hfind : find 61 w.spelling = none := by
      unfold find
      rw [List.findIdx?_eq_none_iff]
      intro c hc
      rw [beq_eq_false_iff_ne]
      rintro rfl
      exact heq hc
    simp only [List.append_nil, hfind, hequal]
    cases hkind : w.kind with
    | secure => rfl
    | httpOnly => rfl
    | domain _ | path _ | maxAge _ | expires _ =>
      rw [hkind] at hvalue
      cases hvalue
  | some value =>
    have hname : substr (w.spelling ++ 61 :: value) 0 (some w.spelling.length) = .ok w.spelling := by
      simp [substr]
    have hrest : substr (w.spelling ++ 61 :: value) (w.spelling.length + 1) none = .ok value := by
      simp [substr]
    simp only [find_append heq, hname, hrest]
    show Except.ok (if iequal w.spelling _ = true then _ else _) = _
    simp only [hequal]
    cases hkind : w.kind with
    | secure | httpOnly =>
      rw [hkind] at hvalue
      cases hvalue
    | domain _ | path _ | maxAge _ | expires _ =>
      rw [hkind] at hvalue
      cases hvalue
      rfl

end AttributeText

/-! ## Definitions -/

section Parts

variable {delim : UInt8}

theorem parts_go (seg : Bytes) (hseg : delim ∉ seg) : ∀ part rest : Bytes,
    ObfString.parts.go delim part (seg ++ rest) = ObfString.parts.go delim (part ++ seg) rest := by
  induction seg with
  | nil =>
    intro part rest
    rw [List.append_nil]
    rfl
  | cons c seg ih =>
    intro part rest
    have hc : c ≠ delim := fun h => hseg (h ▸ List.mem_cons_self)
    rw [List.cons_append, ObfString.parts.go, if_pos hc, ih fun h => hseg (List.mem_cons_of_mem _ h)]
    rw [List.append_assoc, List.singleton_append]

/-- The text is split at the delimiters that are written between the parts. -/
theorem parts_delimited {segs : List Bytes} (hsegs : ∀ seg ∈ segs, delim ∉ seg ∧ seg ≠ []) : ∀ {pair : Bytes}, delim ∉ pair →
    ObfString.parts delim (pair ++ segs.flatMap (delim :: ·)) = pair :: segs := by
  have hgo : ∀ pair : Bytes, ObfString.parts.go delim pair (segs.flatMap (delim :: ·)) = pair :: segs := by
    induction segs with
    | nil => exact fun _ => rfl
    | cons seg segs ih =>
      intro pair
      have hseg := hsegs seg List.mem_cons_self
      rw [List.flatMap_cons, List.cons_append, ObfString.parts.go, if_neg (not_not_intro rfl), if_neg, parts_go seg hseg.1,
        List.nil_append, ih fun x hx => hsegs x (List.mem_cons_of_mem _ hx)]
      exact fun h => hseg.2 (List.append_eq_nil_iff.1 h).1
  intro pair hpair
  rw [ObfString.parts, parts_go pair hpair, List.nil_append, hgo]

end Parts

section Fold

variable (lib : DateLib) (attrs : List Attribute)

/-- A part of a cookie that only some attributes set is what the last of these has set. -/
theorem foldl_last {α : Type} (get : Cookie.Attributes → α) (sets : Attribute → Option α)
    (hset : ∀ init a, get (Attribute.apply lib init a) = (sets a).getD (get init)) : ∀ init : Cookie.Attributes,
      get (attrs.foldl (Attribute.apply lib) init) = (attrs.filterMap sets).getLastD (get init) := by
  induction attrs with
  | nil => exact fun _ => rfl
  | cons a attrs ih =>
    intro init
    rw [List.foldl_cons, ih, hset]
    cases ha : sets a with
    | none => rw [List.filterMap_cons_none ha, Option.getD_none]
    | some text => rw [List.filterMap_cons_some ha, List.getLastD_cons, Option.getD_some]

theorem foldl_domain (init : Cookie.Attributes) :
    (attrs.foldl (Attribute.apply lib) init).domain = (attrs.filterMap Attribute.domain?).getLastD init.domain :=
  foldl_last _ _ _ _ (fun _ a => by cases a <;> rfl) init

theorem foldl_path (init : Cookie.Attributes) :
    (attrs.foldl (Attribute.apply lib) init).path = (attrs.filterMap Attribute.path?).getLastD init.path :=
  foldl_last _ _ _ _ (fun _ a => by cases a <;> rfl) init

theorem foldl_expires (init : Cookie.Attributes) : (attrs.foldl (Attribute.apply lib) init).expires =
    match (attrs.filterMap Attribute.expires?).getLast? with
    | some text => Cookie.parseHttpDate lib text
    | none => init.expires := by
  have hset : ∀ (init : Cookie.Attributes) (a : Attribute), (a.apply lib init).expires =
      (a.expires?.map (Cookie.parseHttpDate lib)).getD init.expires := by
    intro init a
    cases a <;> rfl
  rw [foldl_last lib attrs Cookie.Attributes.expires _ hset, ← List.map_filterMap, List.getLastD_eq_getLast?,
    List.getLast?_map]
  cases (attrs.filterMap Attribute.expires?).getLast? <;> rfl

theorem foldl_flags : ∀ init : Cookie.Attributes,
    (attrs.foldl (Attribute.apply lib) init).secure = (init.secure || decide (Attribute.secure ∈ attrs)) ∧
      (attrs.foldl (Attribute.apply lib) init).httpOnly = (init.httpOnly || decide (Attribute.httpOnly ∈ attrs)) := by
  induction attrs with
  | nil => exact fun init => ⟨(Bool.or_false _).symm, (Bool.or_false _).symm⟩
  | cons a attrs ih =>
    intro init
    rw [List.foldl_cons]
    obtain ⟨hsecure, hhttpOnly⟩ := ih (a.apply lib init)
    rw [hsecure, hhttpOnly]
    cases a with
    | domain | path | maxAge | expires => simp [Attribute.apply]
    | secure | httpOnly => simp [Attribute.apply]

end Fold

theorem foldlM_written (lib : DateLib) : ∀ {parts : List ObfString} {attrs : List AttributeText},
    List.Forall₂ (fun o p => o.Hides p ∧ 0 ∉ p) parts (attrs.map AttributeText.part) → ∀ init,
      parts.foldlM (Cookie.parseAttribute lib) init =
        .ok ((attrs.map AttributeText.kind).foldl (Attribute.apply lib) init)
  | [], [], .nil, _ => rfl
  | part :: parts, w :: attrs, .cons hpart hparts, init => by
    rw [List.foldlM_cons, w.parseAttribute lib init hpart.1]
    exact foldlM_written lib hparts _

/-- The text of a definition. -/
def definitionText (name value : Bytes) (attrs : List AttributeText) : Bytes := name ++ 61 :: value ++ attrs.flatMap AttributeText.text

/-- The domain and the path that the last attribute of their kind sets. -/
def lastDomain (attrs : List AttributeText) : Bytes := ((attrs.map AttributeText.kind).filterMap Attribute.domain?).getLastD []

def lastPath (attrs : List AttributeText) : Bytes := ((attrs.map AttributeText.kind).filterMap Attribute.path?).getLastD []

/-- The date that the last attribute of expiry names. -/
def lastDate (attrs : List AttributeText) : Option Bytes := ((attrs.map AttributeText.kind).filterMap Attribute.expires?).getLast?

/-- The expiry that a definition names; a negative one is none. -/
def lastExpires (lib : DateLib) (attrs : List AttributeText) : Int :=
  match lastDate attrs with
  | some text => if Cookie.parseHttpDate lib text < 0 then expiresUnspecified else Cookie.parseHttpDate lib text
  | none => expiresUnspecified

/-- The cookie of a definition. -/
theorem parse_definition (lib : DateLib) {name value : Bytes} (attrs : List AttributeText) {o : ObfString}
    (hname : 59 ∉ name ∧ 61 ∉ name ∧ 0 ∉ name) (hvalue : 59 ∉ value ∧ 0 ∉ value) (h : o.Hides (definitionText name value attrs)) :
    ∃ hidden, hidden.uncrypt = value ∧ Cookie.parse lib o = .ok {
      name
      value := hidden
      domain := trimmed (lower (lastDomain attrs))
      path := if trimmed (lastPath attrs) = [] then ascii "/" else trimmed (lastPath attrs)
      expires := lastExpires lib attrs
      secure := decide (.secure ∈ attrs.map AttributeText.kind)
      httpOnly := decide (.httpOnly ∈ attrs.map AttributeText.kind) } := by
  have htext : definitionText name value attrs = (name ++ 61 :: value) ++ (attrs.map AttributeText.part).flatMap (59 :: ·) := by
    rw [definitionText, List.flatMap_map]
    rfl
  have hpair : 59 ∉ name ++ 61 :: value ∧ 0 ∉ name ++ 61 :: value := by simp [hname, hvalue]
  have hparts : ∀ seg ∈ attrs.map AttributeText.part, 59 ∉ seg ∧ seg ≠ [] := by
    intro seg hseg
    obtain ⟨w, -, rfl⟩ := List.mem_map.1 hseg
    exact ⟨w.part_plain.1, w.part_ne⟩
  have hnul : 0 ∉ definitionText name value attrs := by
    rw [htext, List.mem_append, List.mem_flatMap]
    rintro (hmem | ⟨seg, hseg, hmem⟩)
    · exact hpair.2 hmem
    · obtain ⟨w, -, rfl⟩ := List.mem_map.1 hseg
      rcases List.mem_cons.1 hmem with h0 | hmem
      · cases h0
      · exact w.part_plain.2 hmem
  have hsplit := ObfString.split_hides h hnul 59
  rw [htext, parts_delimited hparts hpair.1] at hsplit
  cases hrun : o.split 59 with
  | nil =>
    rw [hrun] at hsplit
    cases hsplit
  | cons cookiePair parts =>
    rw [hrun] at hsplit
    obtain ⟨⟨hides, -⟩, hattrs⟩ := List.forall₂_cons.1 hsplit
    have hfind : cookiePair.find 61 = some name.length := by rw [ObfString.find_hides hides, find_append hname.2.1]
    have hnameText : substr (name ++ 61 :: value) 0 (some name.length) = .ok name := by simp [substr]
    have hvalueText : substr (name ++ 61 :: value) (name.length + 1) none = .ok value := by simp [substr]
    obtain ⟨oname, honame, hidesName, -⟩ := ObfString.substr_hides hides hnameText
    obtain ⟨ovalue, hovalue, hidesValue, -⟩ := ObfString.substr_hides hides hvalueText
    rw [cStr_eq hname.2.2] at hidesName
    rw [cStr_eq hvalue.2] at hidesValue
    let init : Cookie.Attributes :=
      { domain := [], path := [], expires := expiresUnspecified, secure := false, httpOnly := false }
    have hfold := foldlM_written lib hattrs init
    obtain ⟨hsecure, hhttpOnly⟩ := foldl_flags lib (attrs.map AttributeText.kind) init
    have hexpires : (if ((attrs.map AttributeText.kind).foldl (Attribute.apply lib) init).expires < 0 then expiresUnspecified
        else ((attrs.map AttributeText.kind).foldl (Attribute.apply lib) init).expires) = lastExpires lib attrs := by
      rw [foldl_expires]
      unfold lastExpires lastDate
      cases ((attrs.map AttributeText.kind).filterMap Attribute.expires?).getLast? with
      | some text => rfl
      | none => rfl
    refine ⟨ovalue, ObfString.uncrypt_hides hidesValue, ?_⟩
    unfold Cookie.parse
    rw [hrun]
    simp only
    rw [hfind]
    simp only [honame, hovalue]
    show (parts.foldlM (Cookie.parseAttribute lib) init >>= fun _ => _) = _
    rw [hfold]
    show Cookie.make _ _ _ _ _ _ _ = _
    rw [Cookie.make_eq, ObfString.uncrypt_hides hidesName, foldl_domain, foldl_path, hexpires, hsecure, hhttpOnly]
    rfl

/-- `parse` reads back the definition of a session cookie that a text has been written for, under any key. -/
theorem parse_definitionText (lib : DateLib) {name value : Bytes} (attrs : List AttributeText) {o : ObfString}
    (hname : 59 ∉ name ∧ 61 ∉ name ∧ 0 ∉ name) (hvalue : 59 ∉ value ∧ 0 ∉ value)
    (hsession : ∀ w ∈ attrs, w.kind.expires? = none) (h : o.Hides (definitionText name value attrs)) :
    ∃ c, Cookie.parse lib o = .ok c ∧ c.name = name ∧ c.value.uncrypt = value ∧
      c.domain = trimmed (lower (lastDomain attrs)) ∧
      c.path = (if trimmed (lastPath attrs) = [] then ascii "/" else trimmed (lastPath attrs)) ∧
      c.isSession = true ∧ (c.secure = true ↔ .secure ∈ attrs.map AttributeText.kind) ∧
      (c.httpOnly = true ↔ .httpOnly ∈ attrs.map AttributeText.kind) := by
  obtain ⟨hidden, hclear, hparse⟩ := parse_definition lib attrs hname hvalue h
  have hnone : lastDate attrs = none := by
    unfold lastDate
    rw [List.getLast?_eq_none_iff, List.filterMap_eq_nil_iff]
    intro a ha
    obtain ⟨w, hw, rfl⟩ := List.mem_map.1 ha
    exact hsession w hw
  have hexpires : lastExpires lib attrs = expiresUnspecified := by
    unfold lastExpires
    rw [hnone]
  refine ⟨_, hparse, rfl, hclear, rfl, rfl, ?_, decide_eq_true_iff, decide_eq_true_iff⟩
  rw [hexpires]
  rfl

/-- A session cookie of a portal: repeated paths, and an age that is ignored. -/
theorem parse_definitionText_session : ∃ c,
    Cookie.parse noDates (.ofBytes 3 (ascii "SVPN=a=b; Path=/x;\tSECURE;Max-Age=60; path= / ;HttpOnly")) = .ok c ∧
      c.name = ascii "SVPN" ∧ c.value.uncrypt = ascii "a=b" ∧ c.domain = trimmed (lower []) ∧
      c.path = (if trimmed (ascii " / ") = [] then ascii "/" else trimmed (ascii " / ")) ∧ c.isSession = true ∧
      (c.secure = true ↔ Attribute.secure ∈ [.path (ascii "/x"), .secure, .maxAge (ascii "60"), .path (ascii " / "), .httpOnly]) ∧
      (c.httpOnly = true ↔ Attribute.httpOnly ∈ [.path (ascii "/x"), .secure, .maxAge (ascii "60"), .path (ascii " / "), .httpOnly]) :=
  parse_definitionText noDates [
    ⟨.path (ascii "/x"), ascii " ", ascii "Path", List.all_eq_true.1 rfl, by decide, by rintro _ ⟨⟩; decide⟩,
    ⟨.secure, ascii "\t", ascii "SECURE", List.all_eq_true.1 rfl, by decide, nofun⟩,
    ⟨.maxAge (ascii "60"), [], ascii "Max-Age", List.all_eq_true.1 rfl, by decide, by rintro _ ⟨⟩; decide⟩,
    ⟨.path (ascii " / "), ascii " ", ascii "path", List.all_eq_true.1 rfl, by decide, by rintro _ ⟨⟩; decide⟩,
    ⟨.httpOnly, [], ascii "HttpOnly", List.all_eq_true.1 rfl, by decide, nofun⟩] (by decide) (by decide) (by decide) (ObfString.hides_ofBytes 3 _)

end FortiRdp.Http
