/-
URLs as texts. What `to_string` writes of an absolute URL is split into the same parts again. A reference that
starts with one slash is split as well, except that the state behind that slash knows neither ? nor #: behind a
path of one slash they become part of the path.
-/
import FortiRdp.Http.Url

namespace FortiRdp.Http.Url

open Util Net

/-! ## Runs of the parser -/

/-- The parser behind the text. -/
def Parser.run (p : Parser) (text : Bytes) : Parser := text.foldl Parser.next p

theorem Parser.run_append (p : Parser) (a b : Bytes) : p.run (a ++ b) = (p.run a).run b := List.foldl_append

/-- The states that collect a part. -/
def State.collects : State → Bool
  | .scheme | .authority | .path | .query | .fragment => true
  | .start | .afterScheme | .slash | .slashes | .queryStart | .fragmentStart => false

/-- The characters that end the part. -/
def State.ends : State → Bytes
  | .scheme => [58, 63, 35]
  | .authority => [47, 63, 35]
  | .path => [63, 35]
  | .query => [35]
  | _ => []

theorem Parser.next_collects {p : Parser} {c : UInt8} (hstate : p.state.collects = true) (hc : c ∉ p.state.ends) :
    p.next c = { p with buffer := p.buffer ++ [c] } := by
  obtain ⟨state, buffer, url⟩ := p
  cases state with
  | scheme | authority =>
    simp only [State.ends, List.mem_cons, List.not_mem_nil, or_false, not_or] at hc
    obtain ⟨h1, h2, h3⟩ := hc
    unfold Parser.next
    simp only
    rw [if_neg h1, if_neg h2, if_neg h3]
  | path =>
    simp only [State.ends, List.mem_cons, List.not_mem_nil, or_false, not_or] at hc
    obtain ⟨h1, h2⟩ := hc
    unfold Parser.next
    simp only
    rw [if_neg h1, if_neg h2]
  | query => exact if_neg fun h => hc (List.mem_singleton.2 h)
  | fragment => rfl
  | start | afterScheme | slash | slashes | queryStart | fragmentStart => cases hstate

/-- A part is collected up to a character that ends it. -/
theorem Parser.run_collects {text : Bytes} : ∀ {p : Parser}, p.state.collects = true → (∀ c ∈ text, c ∉ p.state.ends) →
    p.run text = { p with buffer := p.buffer ++ text } := by
  induction text with
  | nil =>
    intro p _ _
    rw [List.append_nil]
    rfl
  | cons c text ih =>
    intro p hstate hends
    have hnext := Parser.next_collects hstate (hends c List.mem_cons_self)
    show (p.next c).run text = _
    rw [hnext, ih (p := { p with buffer := p.buffer ++ [c] }) hstate fun x hx => hends x (List.mem_cons_of_mem _ hx)]
    simp only [List.append_assoc, List.singleton_append]

/-! ## Query and fragment -/

/-- Query and fragment as `to_string` writes them. -/
def tailText (query fragment : Bytes) : Bytes :=
  (if query = [] then [] else 63 :: query) ++ (if fragment = [] then [] else 35 :: fragment)

theorem run_fragment {fragment : Bytes} (hfragment : fragment ≠ []) (buffer : Bytes) (url : Url) :
    (Parser.run { state := .fragmentStart, buffer, url } fragment).finish = { url with fragment } := by
  obtain ⟨c, fragment, rfl⟩ := List.exists_cons_of_ne_nil hfragment
  show (Parser.run { state := .fragment, buffer := [c], url } fragment).finish = _
  rw [Parser.run_collects rfl fun _ _ => List.not_mem_nil]
  rfl

theorem run_query {query : Bytes} (hquery : query ≠ []) (hends : 35 ∉ query) (fragment buffer : Bytes) {url : Url}
    (hnone : url.fragment = []) :
    (Parser.run { state := .queryStart, buffer, url } (query ++ (if fragment = [] then [] else 35 :: fragment))).finish =
      { url with query, fragment } := by
  obtain ⟨c, query, rfl⟩ := List.exists_cons_of_ne_nil hquery
  have hcollects : ∀ x ∈ query, x ∉ State.query.ends := by
    intro x hx hmem
    rw [List.mem_singleton.1 hmem] at hx
    exact hends (List.mem_cons_of_mem _ hx)
  show (Parser.run { state := .query, buffer := [c], url } (query ++ _)).finish = _
  rw [Parser.run_append, Parser.run_collects (p := ⟨.query, [c], url⟩) rfl hcollects]
  by_cases hfragment : fragment = []
  · obtain ⟨scheme, authority, path, urlQuery, urlFragment⟩ := url
    obtain rfl : urlFragment = [] := hnone
    rw [if_pos hfragment, hfragment]
    rfl
  · rw [if_neg hfragment]
    exact run_fragment hfragment [] _

/-- Query and fragment behind the part that has been collected. -/
theorem run_tailText {p : Parser} (hstate : p.state = .authority ∨ p.state = .path) (hquery : p.url.query = [])
    (hfragment : p.url.fragment = []) {query fragment : Bytes} (hends : 35 ∉ query) :
    (p.run (tailText query fragment)).finish = { p.finish with query, fragment } := by
  obtain ⟨state, buffer, scheme, authority, path, urlQuery, urlFragment⟩ := p
  obtain rfl : urlQuery = [] := hquery
  obtain rfl : urlFragment = [] := hfragment
  let url : Url := ⟨scheme, authority, path, [], []⟩
  have hnone : Parser.finish ⟨state, buffer, url⟩ = { Parser.finish ⟨state, buffer, url⟩ with query := [], fragment := [] } := by
    rcases hstate with rfl | rfl
    · rfl
    · rfl
  have hask : ∃ buffer', Parser.next ⟨state, buffer, url⟩ 63 = ⟨.queryStart, buffer', Parser.finish ⟨state, buffer, url⟩⟩ := by
    rcases hstate with rfl | rfl
    · exact ⟨buffer, rfl⟩
    · exact ⟨[], rfl⟩
  have hhash : ∃ buffer', Parser.next ⟨state, buffer, url⟩ 35 = ⟨.fragmentStart, buffer', Parser.finish ⟨state, buffer, url⟩⟩ := by
    rcases hstate with rfl | rfl
    · exact ⟨buffer, rfl⟩
    · exact ⟨[], rfl⟩
  unfold tailText
  by_cases hq : query = []
  · rw [if_pos hq, List.nil_append, hq]
    by_cases hf : fragment = []
    · rw [if_pos hf, hf]
      exact hnone
    · obtain ⟨buffer', hhash⟩ := hhash
      rw [if_neg hf]
      show ((Parser.next _ 35).run fragment).finish = _
      rw [hhash, run_fragment hf, hnone]
  · obtain ⟨buffer', hask⟩ := hask
    rw [if_neg hq]
    show ((Parser.next _ 63).run (query ++ _)).finish = _
    rw [hask, hnone, run_query hq hends fragment buffer' rfl]

theorem tailText_nul {query fragment : Bytes} (hquery : 0 ∉ query) (hfragment : 0 ∉ fragment) :
    0 ∉ tailText query fragment := by
  unfold tailText
  split <;> split <;> simp_all

/-- The path and what is behind it. -/
theorem run_pathText (url : Url) (hquery : url.query = []) (hfragment : url.fragment = []) {path query fragment : Bytes}
    (hpath : 63 ∉ path ∧ 35 ∉ path) (hends : 35 ∉ query) (buffer : Bytes) :
    (Parser.run { state := .path, buffer, url } (path ++ tailText query fragment)).finish =
      { url with path := buffer ++ path, query, fragment } := by
  have hcollects : ∀ c ∈ path, c ∉ State.path.ends := by
    intro c hc hmem
    simp only [State.ends, List.mem_cons, List.not_mem_nil, or_false] at hmem
    rcases hmem with rfl | rfl
    · exact hpath.1 hc
    · exact hpath.2 hc
  rw [Parser.run_append, Parser.run_collects (p := ⟨.path, buffer, url⟩) rfl hcollects, run_tailText (.inr rfl) hquery hfragment hends]
  rfl

/-! ## Absolute URLs -/

/-- The parts of an absolute URL, each without the characters that end it. -/
structure Absolute (u : Url) : Prop where
  letter : (u.scheme.head?.any isalpha) = true
  scheme : ∀ c ∈ [58, 63, 35], c ∉ u.scheme
  ne : u.authority ≠ []
  authority : ∀ c ∈ [47, 63, 35], c ∉ u.authority
  rooted : u.path = [] ∨ u.path.head? = some 47
  path : 63 ∉ u.path ∧ 35 ∉ u.path
  query : 35 ∉ u.query
  nul : ∀ part ∈ [u.scheme, u.authority, u.path, u.query, u.fragment], 0 ∉ part
  trimmed : ∀ part ∈ [u.scheme, u.authority, u.path, u.query, u.fragment], Trimmed part

theorem toBytes_absolute {u : Url} (h : Absolute u) :
    u.toBytes false = u.scheme ++ 58 :: 47 :: 47 :: (u.authority ++ (u.path ++ tailText u.query u.fragment)) := by
  have hscheme : u.scheme ≠ [] := by
    intro hnil
    have hletter := h.letter
    rw [hnil] at hletter
    cases hletter
  unfold toBytes tailText
  rw [if_neg Bool.false_ne_true, if_neg hscheme, if_neg h.ne]
  simp only [List.append_assoc, List.cons_append, List.nil_append]

/-- The parser behind scheme and authority. -/
theorem run_absolute {u : Url} (h : Absolute u) :
    Parser.run { state := .start, buffer := [], url := empty } (u.scheme ++ 58 :: 47 :: 47 :: u.authority) =
      { state := .authority, buffer := u.authority, url := { empty with scheme := u.scheme } } := by
  obtain ⟨scheme, authority, path, query, fragment⟩ := u
  cases scheme with
  | nil => cases h.letter
  | cons c scheme =>
    obtain ⟨x, authority, rfl⟩ := List.exists_cons_of_ne_nil h.ne
    have hletter : isalpha c = true := h.letter
    have halnum : isalnum c = true := by rw [isalnum, hletter, Bool.or_true]
    have hstart : Parser.next { state := .start, buffer := [], url := empty } c =
        { state := .scheme, buffer := [c], url := empty } := by
      unfold Parser.next
      simp only
      rw [if_neg (isalnum_ne halnum (by decide)), if_neg (isalnum_ne halnum (by decide)),
        if_neg (isalnum_ne halnum (by decide)), if_neg (isalnum_ne halnum (by decide))]
    have hscheme : ∀ y ∈ scheme, y ∉ State.scheme.ends := fun y hy hmem => h.scheme y hmem (List.mem_cons_of_mem _ hy)
    have hauthority : ∀ y ∈ authority, y ∉ State.authority.ends :=
      fun y hy hmem => h.authority y hmem (List.mem_cons_of_mem _ hy)
    rw [Parser.run_append]
    show Parser.run (Parser.run (Parser.next _ c) scheme) _ = _
    rw [hstart, Parser.run_collects (p := ⟨.scheme, [c], empty⟩) rfl hscheme]
    show Parser.run ⟨.authority, [x], { empty with scheme := c :: scheme }⟩ authority = _
    rw [Parser.run_collects rfl hauthority]
    rfl

/-- What `to_string` writes of an absolute URL is split into the parts it was made of. -/
theorem ofBytes_toBytes (scheme authority path query fragment : Bytes)
    (h : Absolute { scheme, authority, path, query, fragment }) : ∃ u, ofParts scheme authority path query fragment = .ok u ∧
      u = { scheme, authority, path, query, fragment } ∧ ofBytes (u.toBytes false) = u := by
  have hparts : ofParts scheme authority path query fragment = .ok { scheme, authority, path, query, fragment } := by
    unfold ofParts
    rw [trim_trimmed (h.trimmed scheme (by simp)), trim_trimmed (h.trimmed authority (by simp)),
      trim_trimmed (h.trimmed path (by simp)), trim_trimmed (h.trimmed query (by simp)),
      trim_trimmed (h.trimmed fragment (by simp))]
    rfl
  have hnul : 0 ∉ scheme ++ 58 :: 47 :: 47 :: (authority ++ (path ++ tailText query fragment)) := by
    have htail := tailText_nul (h.nul query (by simp)) (h.nul fragment (by simp))
    have hscheme := h.nul scheme (by simp)
    have hauthority := h.nul authority (by simp)
    have hpath := h.nul path (by simp)
    simp [hscheme, hauthority, hpath, htail]
  have hspace : (scheme ++ 58 :: 47 :: 47 :: (authority ++ (path ++ tailText query fragment))).dropWhile isspace =
      scheme ++ 58 :: 47 :: 47 :: (authority ++ (path ++ tailText query fragment)) := by
    cases scheme with
    | nil => cases h.letter
    | cons c scheme =>
      have hletter : isalpha c = true := h.letter
      have halnum : isalnum c = true := by rw [isalnum, hletter, Bool.or_true]
      exact List.dropWhile_cons_of_neg (by rw [isspace_of_alnum halnum]; exact Bool.false_ne_true)
  refine ⟨_, hparts, rfl, ?_⟩
  rw [toBytes_absolute h, ofBytes, cStr_eq hnul, hspace]
  show (Parser.run _ (scheme ++ ([58, 47, 47] ++ (authority ++ (path ++ tailText query fragment))))).finish = _
  have hsplit : scheme ++ ([58, 47, 47] ++ (authority ++ (path ++ tailText query fragment))) =
      (scheme ++ 58 :: 47 :: 47 :: authority) ++ (path ++ tailText query fragment) := by simp
  rw [hsplit, Parser.run_append, run_absolute h]
  rcases h.rooted with rfl | hrooted
  · exact run_tailText (.inl rfl) rfl rfl h.query
  · cases path with
    | nil => cases hrooted
    | cons c path =>
      obtain rfl : c = 47 := Option.some.inj hrooted
      have hpath : 63 ∉ path ∧ 35 ∉ path :=
        ⟨fun hc => h.path.1 (List.mem_cons_of_mem _ hc), fun hc => h.path.2 (List.mem_cons_of_mem _ hc)⟩
      exact run_pathText { empty with scheme, authority } rfl rfl hpath h.query [47]

theorem ofBytes_toBytes_portal : ∃ u, ofParts (ascii "https") (ascii "fw:10443") (ascii "/remote") (ascii "lang=en") [] = .ok u ∧
    u = { scheme := ascii "https", authority := ascii "fw:10443", path := ascii "/remote", query := ascii "lang=en",
          fragment := [] } ∧
    ofBytes (u.toBytes false) = u :=
  ofBytes_toBytes _ _ _ _ _ {
    letter := by decide
    scheme := by decide +kernel
    ne := by decide
    authority := by decide +kernel
    rooted := by decide
    path := by decide
    query := by decide
    nul := by decide
    trimmed := by
      have hparts : ∀ part ∈ [ascii "https", ascii "fw:10443", ascii "/remote", ascii "lang=en", []],
          part.dropWhile isBlank = part ∧ part.rdropWhile isBlank = part := by decide
      exact fun part hpart => ⟨(hparts part hpart).1, (hparts part hpart).2⟩ }

/-! ## References -/

/-- A path that starts with one slash, without the characters that end it. -/
structure SlashLed (path : Bytes) : Prop where
  slash : path.head? = some 47
  single : path[1]? ≠ some 47
  ends : 63 ∉ path ∧ 35 ∉ path
  nul : 0 ∉ path

/-- The path begins with the text, whether it is complete or not. -/
def PathLed (text : Bytes) (p : Parser) : Prop :=
  (p.state = .path ∧ text <+: p.buffer) ∨
    (p.state ∈ [State.queryStart, .query, .fragmentStart, .fragment] ∧ text <+: p.url.path)

theorem PathLed.next {text : Bytes} {p : Parser} (h : PathLed text p) (c : UInt8) : PathLed text (p.next c) := by
  obtain ⟨state, buffer, url⟩ := p
  rcases h with ⟨hstate, hbuffer⟩ | ⟨hstate, hpath⟩
  · obtain rfl : state = .path := hstate
    unfold Parser.next
    simp only
    split
    · exact .inr ⟨by simp, hbuffer⟩
    · split
      · exact .inr ⟨by simp, hbuffer⟩
      · exact .inl ⟨rfl, hbuffer.trans (List.prefix_append _ _)⟩
  · simp only [List.mem_cons, List.not_mem_nil, or_false] at hstate
    rcases hstate with rfl | rfl | rfl | rfl
    · exact .inr ⟨by simp [Parser.next], hpath⟩
    · unfold Parser.next
      simp only
      split
      · exact .inr ⟨by simp, hpath⟩
      · exact .inr ⟨by simp, hpath⟩
    · exact .inr ⟨by simp [Parser.next], hpath⟩
    · exact .inr ⟨by simp [Parser.next], hpath⟩

theorem PathLed.run {text more : Bytes} : ∀ {p : Parser}, PathLed text p → PathLed text (p.run more) := by
  induction more with
  | nil => exact id
  | cons c more ih => exact fun h => ih (h.next c)

theorem PathLed.finish {text : Bytes} {p : Parser} (h : PathLed text p) : text <+: p.finish.path := by
  obtain ⟨state, buffer, url⟩ := p
  rcases h with ⟨hstate, hbuffer⟩ | ⟨hstate, hpath⟩
  · obtain rfl : state = .path := hstate
    exact hbuffer
  · simp only [List.mem_cons, List.not_mem_nil, or_false] at hstate
    rcases hstate with rfl | rfl | rfl | rfl <;> exact hpath

theorem tailText_eq_nil {query fragment : Bytes} : tailText query fragment = [] ↔ query = [] ∧ fragment = [] := by
  unfold tailText
  by_cases hq : query = []
  · by_cases hf : fragment = []
    · rw [if_pos hq, if_pos hf]
      exact iff_of_true rfl ⟨hq, hf⟩
    · rw [if_pos hq, if_neg hf]
      exact iff_of_false (List.cons_ne_nil _ _) fun h => hf h.2
  · rw [if_neg hq]
    exact iff_of_false (List.cons_ne_nil _ _) fun h => hq h.1

theorem ofBytes_slash {text : Bytes} (h : 0 ∉ text) :
    ofBytes (47 :: text) = (Parser.run { state := .slash, buffer := [47], url := empty } text).finish := by
  have hnul : 0 ∉ 47 :: text := by
    intro hmem
    rcases List.mem_cons.1 hmem with h0 | hmem
    · cases h0
    · exact h hmem
  rw [ofBytes, cStr_eq hnul]
  rfl

/-- What is behind a single slash becomes part of the path. -/
theorem slash_path_ne {c : UInt8} (hslash : c ≠ 47) (text : Bytes) :
    (Parser.run { state := .slash, buffer := [47], url := empty } (c :: text)).finish.path ≠ [47] := by
  intro hpath
  have hled : PathLed [47, c] (Parser.next { state := .slash, buffer := [47], url := empty } c) := by
    unfold Parser.next
    simp only
    rw [if_neg hslash]
    exact .inl ⟨rfl, List.prefix_refl _⟩
  have hprefix : [47, c] <+: (Parser.run { state := .slash, buffer := [47], url := empty } (c :: text)).finish.path :=
    hled.run.finish
  rw [hpath] at hprefix
  exact absurd hprefix.length_le (by simp)

/-- A reference is split into its parts, unless the path is one slash and something is behind it. -/
theorem ofBytes_reference {path query fragment : Bytes} (hpath : SlashLed path) (hquery : 35 ∉ query ∧ 0 ∉ query)
    (hfragment : 0 ∉ fragment) :
    ofBytes (path ++ tailText query fragment) = { scheme := [], authority := [], path, query, fragment } ↔
      (path = [47] → query = [] ∧ fragment = []) := by
  have htail := tailText_nul hquery.2 hfragment
  cases path with
  | nil => cases hpath.slash
  | cons x rest =>
    obtain rfl : x = 47 := Option.some.inj hpath.slash
    have hnul : 0 ∉ rest ++ tailText query fragment := by
      rw [List.mem_append]
      rintro (hmem | hmem)
      · exact hpath.nul (List.mem_cons_of_mem _ hmem)
      · exact htail hmem
    rw [List.cons_append, ofBytes_slash hnul]
    cases rest with
    | nil =>
      rw [List.nil_append, ← tailText_eq_nil]
      constructor
      · intro hsplit _
        cases hmore : tailText query fragment with
        | nil => rfl
        | cons c more =>
          have hslash : c ≠ 47 := by
            rintro rfl
            unfold tailText at hmore
            split at hmore <;> split at hmore <;> simp at hmore
          rw [hmore] at hsplit
          exact absurd (congrArg Url.path hsplit) (slash_path_ne hslash more)
      · intro hnone
        obtain ⟨rfl, rfl⟩ := tailText_eq_nil.1 (hnone rfl)
        rfl
    | cons c rest =>
      refine iff_of_true ?_ fun h => absurd h (by simp)
      have hslash : c ≠ 47 := by
        rintro rfl
        exact hpath.single rfl
      have hends : 63 ∉ rest ∧ 35 ∉ rest :=
        ⟨fun h => hpath.ends.1 (by simp [h]), fun h => hpath.ends.2 (by simp [h])⟩
      have hnext : Parser.next { state := .slash, buffer := [47], url := empty } c =
          { state := .path, buffer := [47, c], url := empty } := if_neg hslash
      show (Parser.run (Parser.next _ c) (rest ++ tailText query fragment)).finish = _
      rw [hnext, run_pathText _ rfl rfl hends hquery.1]
      rfl

theorem ofBytes_reference_login : ofBytes (ascii "/remote/login" ++ tailText (ascii "lang=en") (ascii "top")) =
      { scheme := [], authority := [], path := ascii "/remote/login", query := ascii "lang=en", fragment := ascii "top" } ↔
    (ascii "/remote/login" = [47] → ascii "lang=en" = [] ∧ ascii "top" = []) :=
  ofBytes_reference ⟨by decide, by decide, by decide, by decide⟩ (by decide) (by decide)

/-- The reference /?a has no query. -/
theorem ofBytes_reference_root : ¬ ∀ path query fragment : Bytes, SlashLed path → 35 ∉ query ∧ 0 ∉ query → 0 ∉ fragment →
    ofBytes (path ++ tailText query fragment) = { scheme := [], authority := [], path, query, fragment } := by
  intro h
  have hroot := h (ascii "/") (ascii "a") [] ⟨by decide, by decide, by decide, by decide⟩ (by decide) (by decide)
  have hpath : ofBytes (ascii "/" ++ tailText (ascii "a") []) =
      { scheme := [], authority := [], path := ascii "/?a", query := [], fragment := [] } := by
    decide
  rw [hpath] at hroot
  cases hroot

end FortiRdp.Http.Url
