/-
Requests on the wire. A server reads lines up to the empty one, each of them up to its CR LF, and then the
body; a CR or an LF by itself, which some take for the end of a line too, makes the request malformed. What
`send` writes is read back exactly when its parts have no such characters.
-/
import FortiRdp.Http.HttpsClient

namespace FortiRdp.Http

open Util Net

/-! ## Lines -/

/-- No line break in the text. -/
def IsLine (text : Bytes) : Prop := 13 ∉ text ∧ 10 ∉ text

instance (text : Bytes) : Decidable (IsLine text) := inferInstanceAs (Decidable (_ ∧ _))

theorem isLine_append {a b : Bytes} : IsLine (a ++ b) ↔ IsLine a ∧ IsLine b := by
  unfold IsLine
  rw [List.mem_append, List.mem_append, not_or, not_or]
  exact ⟨fun h => ⟨⟨h.1.1, h.2.1⟩, h.1.2, h.2.2⟩, fun h => ⟨⟨h.1.1, h.2.1⟩, h.1.2, h.2.2⟩⟩

theorem IsLine.sublist {a b : Bytes} (h : IsLine b) (hsub : ∀ c ∈ a, c ∈ b) : IsLine a :=
  ⟨fun hc => h.1 (hsub _ hc), fun hc => h.2 (hsub _ hc)⟩

/-- The first line of the bytes, and the bytes behind its CR LF. -/
def takeLine : Bytes → Option (Bytes × Bytes)
  | [] => none
  | c :: bytes =>
    if c = 13 then if bytes.head? = some 10 then some ([], bytes.tail) else none
    else if c = 10 then none
    else (takeLine bytes).map fun r => (c :: r.1, r.2)

theorem takeLine_iff : ∀ {bytes line rest : Bytes},
    takeLine bytes = some (line, rest) ↔ IsLine line ∧ bytes = line ++ 13 :: 10 :: rest
  | [], line, rest => by simp [takeLine]
  | c :: bytes, line, rest => by
    unfold takeLine
    by_cases hcr : c = 13
    · rw [if_pos hcr]
      cases line with
      | nil =>
        cases bytes with
        | nil => simp
        | cons d bytes => simp [hcr, IsLine]
      | cons d line =>
        constructor
        · intro h
          split at h
          · cases h
          · cases h
        · rintro ⟨hline, h⟩
          rw [List.cons_append] at h
          injection h with hd
          exact absurd (List.mem_cons.2 (.inl (hcr.symm.trans hd))) hline.1
    rw [if_neg hcr]
    by_cases hlf : c = 10
    · rw [if_pos hlf]
      constructor
      · intro h
        cases h
      · rintro ⟨hline, h⟩
        cases line with
        | nil =>
          injection h with hc
          exact absurd hc hcr
        | cons d line =>
          rw [List.cons_append] at h
          injection h with hd
          exact absurd (List.mem_cons.2 (.inl (hlf.symm.trans hd))) hline.2
    rw [if_neg hlf, Option.map_eq_some_iff]
    constructor
    · rintro ⟨⟨line', rest'⟩, h, heq⟩
      obtain ⟨rfl, rfl⟩ := Prod.mk.inj heq
      obtain ⟨hline, rfl⟩ := takeLine_iff.1 h
      refine ⟨⟨?_, ?_⟩, rfl⟩
      · exact List.not_mem_cons_of_ne_of_not_mem (Ne.symm hcr) hline.1
      · exact List.not_mem_cons_of_ne_of_not_mem (Ne.symm hlf) hline.2
    · rintro ⟨hline, h⟩
      cases line with
      | nil =>
        injection h with hc
        exact absurd hc hcr
      | cons d line =>
        rw [List.cons_append] at h
        injection h with hd hbytes
        subst hd
        refine ⟨(line, rest), takeLine_iff.2 ⟨hline.sublist fun x hx => List.mem_cons_of_mem _ hx, hbytes⟩, rfl⟩

/-- The text of lines, with the empty line behind them. -/
def linesText (lines : List Bytes) : Bytes := lines.flatMap (· ++ [13, 10]) ++ [13, 10]

/-- The lines up to the empty one, and the bytes behind it. -/
def takeLines : Nat → Bytes → Option (List Bytes × Bytes)
  | 0, _ => none
  | n + 1, bytes =>
    match takeLine bytes with
    | none => none
    | some ([], rest) => some ([], rest)
    | some (c :: line, rest) => (takeLines n rest).map fun r => ((c :: line) :: r.1, r.2)

@[simp] theorem linesText_nil : linesText [] = [13, 10] := rfl

theorem linesText_cons (line : Bytes) (lines : List Bytes) : linesText (line :: lines) = line ++ 13 :: 10 :: linesText lines := by
  unfold linesText
  rw [List.flatMap_cons, List.append_assoc, List.append_assoc]
  rfl

theorem takeLines_iff : ∀ {n : Nat} {bytes rest : Bytes} {lines : List Bytes}, takeLines n bytes = some (lines, rest) ↔
    lines.length < n ∧ (∀ l ∈ lines, l ≠ [] ∧ IsLine l) ∧ bytes = linesText lines ++ rest
  | 0, bytes, rest, lines => by simp [takeLines]
  | n + 1, bytes, rest, lines => by
    constructor
    · intro h
      unfold takeLines at h
      split at h
      · cases h
      · rename_i hline
        cases h
        exact ⟨Nat.succ_pos _, fun _ hl => absurd hl List.not_mem_nil, (takeLine_iff.1 hline).2⟩
      · rename_i c line rest' hline
        obtain ⟨hfirst, rfl⟩ := takeLine_iff.1 hline
        rw [Option.map_eq_some_iff] at h
        obtain ⟨⟨lines', rest''⟩, hrest, heq⟩ := h
        obtain ⟨rfl, rfl⟩ := Prod.mk.inj heq
        obtain ⟨hlen, hall, rfl⟩ := takeLines_iff.1 hrest
        refine ⟨Nat.succ_lt_succ hlen, ?_, ?_⟩
        · rintro l hl
          rcases List.mem_cons.1 hl with rfl | hl
          · exact ⟨List.cons_ne_nil _ _, hfirst⟩
          · exact hall l hl
        · rw [linesText_cons, List.append_assoc]
          rfl
    · rintro ⟨hlen, hall, rfl⟩
      unfold takeLines
      cases lines with
      | nil =>
        have hline : takeLine (linesText [] ++ rest) = some ([], rest) :=
          takeLine_iff.2 ⟨⟨List.not_mem_nil, List.not_mem_nil⟩, rfl⟩
        rw [hline]
      | cons line lines =>
        obtain ⟨hne, hfirst⟩ := hall line List.mem_cons_self
        have hline : takeLine (linesText (line :: lines) ++ rest) = some (line, linesText lines ++ rest) :=
          takeLine_iff.2 ⟨hfirst, by rw [linesText_cons, List.append_assoc]; rfl⟩
        rw [hline]
        cases line with
        | nil => exact absurd rfl hne
        | cons c line =>
          have hrest : takeLines n (linesText lines ++ rest) = some (lines, rest) := takeLines_iff.2
            ⟨Nat.lt_of_succ_lt_succ hlen, fun l hl => hall l (List.mem_cons_of_mem _ hl), rfl⟩
          exact Option.map_eq_some_iff.2 ⟨(lines, rest), hrest, rfl⟩

theorem length_linesText : ∀ lines : List Bytes, lines.length < (linesText lines).length
  | [] => by decide
  | line :: lines => by
    rw [linesText_cons, List.length_append, List.length_cons, List.length_cons, List.length_cons]
    have ih := length_linesText lines
    omega

/-- The lines of a request and its body. -/
def readRequest (bytes : Bytes) : Option (List Bytes × Bytes) := takeLines (bytes.length + 1) bytes

theorem readRequest_iff {bytes body : Bytes} {lines : List Bytes} : readRequest bytes = some (lines, body) ↔
    (∀ l ∈ lines, l ≠ [] ∧ IsLine l) ∧ bytes = linesText lines ++ body := by
  unfold readRequest
  rw [takeLines_iff]
  constructor
  · exact fun h => h.2
  · rintro ⟨hall, rfl⟩
    refine ⟨?_, hall, rfl⟩
    have hlen := length_linesText lines
    rw [List.length_append]
    omega

/-! ## Well-formed requests -/

/-- A target in origin form: a path, and no blank, line break or fragment. -/
def IsTarget (target : Bytes) : Prop := target.head? = some 47 ∧ 32 ∉ target ∧ 35 ∉ target ∧ IsLine target

instance (target : Bytes) : Decidable (IsTarget target) := inferInstanceAs (Decidable (_ ∧ _))

/-- The length that the headers announce. -/
def announced (body : Bytes) : List Bytes :=
  if body = [] then [] else [ascii "Content-Length: " ++ Endpoint.decimal body.length]

/-- The message is one request with that verb, these header lines, and a body of the announced length. -/
structure WellFormed (verb : Bytes) (fields : List Bytes) (body message : Bytes) : Prop where
  reads : ∃ target, IsTarget target ∧
    readRequest message = some ((verb ++ ascii " " ++ target ++ ascii " HTTP/1.1") :: fields, body)
  length : fields.filter (ascii "Content-Length: ").isPrefixOf = announced body

namespace Request

/-- The headers that `send` writes. -/
def sentHeaders (r : Request) : StringMap :=
  if r.body = [] then r.headers else r.headers.set (ascii "Content-Length") (Endpoint.decimal r.body.length)

/-- The lines behind the request line, for the text of the `Cookie` header. -/
def fields (r : Request) (cookie : Bytes) : List Bytes :=
  (r.sentHeaders.entries.map fun e => e.1 ++ ascii ": " ++ e.2) ++ if cookie = [] then [] else [ascii "Cookie: " ++ cookie]

def requestLine (r : Request) : Bytes := r.verb ++ ascii " " ++ r.url.toBytes true ++ ascii " HTTP/1.1"

theorem linesText_append (a b : List Bytes) : linesText (a ++ b) = a.flatMap (· ++ [13, 10]) ++ linesText b := by
  unfold linesText
  rw [List.flatMap_append, List.append_assoc]

/-- What `head` builds. -/
theorem head_text {r : Request} {cookies : Cookies} {env env' : Env} {text : Bytes} (h : r.head cookies env = .ok text env') :
    ∃ o env'', cookies.toHeader r.url env = .ok o env'' ∧ text = linesText (r.requestLine :: r.fields o.uncrypt) := by
  obtain ⟨o, env'', ho, h⟩ := Run.bind_eq_ok h
  refine ⟨o, env'', ho, ?_⟩
  cases h
  have hheaders : ∀ m : StringMap, writeHeaders m = (m.entries.map fun e => e.1 ++ ascii ": " ++ e.2).flatMap (· ++ [13, 10]) := by
    intro m
    rw [List.flatMap_map]
    rfl
  have hcookie : (if 0 < o.text.length then ascii "Cookie: " ++ o.uncrypt ++ ascii "\r\n" else []) ++ ascii "\r\n" =
      linesText (if o.uncrypt = [] then [] else [ascii "Cookie: " ++ o.uncrypt]) := by
    have hempty : o.uncrypt = [] ↔ o.text = [] := List.map_eq_nil_iff
    by_cases hnil : o.text = []
    · rw [if_neg (by rw [hnil]; decide), if_pos (hempty.2 hnil)]
      rfl
    · rw [if_pos (List.length_pos_of_ne_nil hnil), if_neg (fun h => hnil (hempty.1 h)), linesText_cons, List.append_assoc]
      rfl
  unfold fields
  rw [linesText_cons, linesText_append, ← hheaders, ← hcookie]
  unfold requestLine sentHeaders
  simp only [List.append_assoc]
  rfl

theorem fields_ne_nil {r : Request} {cookie : Bytes} : ∀ l ∈ r.fields cookie, l ≠ [] := by
  rintro l hl rfl
  rcases List.mem_append.1 hl with hl | hl
  · obtain ⟨e, -, he⟩ := List.mem_map.1 hl
    rw [List.append_eq_nil_iff, List.append_eq_nil_iff] at he
    exact absurd he.1.2 (by decide)
  · split at hl
    · cases hl
    · rw [List.mem_singleton] at hl
      exact absurd (List.append_eq_nil_iff.1 hl.symm).1 (by decide)

theorem isLine_requestLine {r : Request} (hverb : IsLine r.verb) (h : IsLine (r.url.toBytes true)) : IsLine r.requestLine :=
  isLine_append.2 ⟨isLine_append.2 ⟨isLine_append.2 ⟨hverb, by decide⟩, h⟩, by decide⟩

/-- What a server reads is what was meant exactly when the target is one and no line has a break. -/
theorem wellFormed_iff {r : Request} {cookie : Bytes} (hverb : IsLine r.verb)
    (hlength : (r.fields cookie).filter (ascii "Content-Length: ").isPrefixOf = announced r.body) :
    WellFormed r.verb (r.fields cookie) r.body (linesText (r.requestLine :: r.fields cookie) ++ r.body) ↔
      IsTarget (r.url.toBytes true) ∧ ∀ l ∈ r.fields cookie, IsLine l := by
  constructor
  · rintro ⟨⟨target, htarget, hread⟩, -⟩
    obtain ⟨hall, hbytes⟩ := readRequest_iff.1 hread
    have hfields : ∀ l ∈ r.fields cookie, IsLine l := fun l hl => (hall l (List.mem_cons_of_mem _ hl)).2
    refine ⟨?_, hfields⟩
    -- behind the request line both texts are the same
    rw [List.append_cancel_right_eq, linesText_cons, linesText_cons, List.append_cancel_right_eq] at hbytes
    unfold requestLine at hbytes
    rw [List.append_cancel_right_eq, List.append_cancel_left_eq] at hbytes
    rw [hbytes]
    exact htarget
  · rintro ⟨htarget, hall⟩
    refine ⟨⟨r.url.toBytes true, htarget, readRequest_iff.2 ⟨?_, rfl⟩⟩, hlength⟩
    rintro l hl
    rcases List.mem_cons.1 hl with rfl | hl
    · refine ⟨fun hnil => ?_, isLine_requestLine hverb htarget.2.2.2⟩
      exact absurd (List.append_eq_nil_iff.1 hnil).2 (by decide)
    · exact ⟨fields_ne_nil l hl, hall l hl⟩

/-- The bytes of the request, for the text of the `Cookie` header. -/
def message (r : Request) (cookie : Bytes) : Bytes := linesText (r.requestLine :: r.fields cookie) ++ r.body

end Request

/-! ## The `Cookie` header -/

/-- The cookie goes with requests to the URL, at some time at least. -/
def Cookie.GoesTo (cookie : Cookie) (url : Url) : Prop :=
  ∃ urlDomain env env', url.getHostname = .ok urlDomain ∧
    cookie.eligible (iequal url.scheme (ascii "https")) urlDomain url.path env = .ok true env'

/-- The text of a cookie has no line break. -/
def Cookie.IsLine (cookie : Cookie) : Prop := Http.IsLine cookie.name ∧ Http.IsLine cookie.value.uncrypt

theorem toHeader_uncrypt (cookie : Cookie) (env : Env) :
    ∃ o env', cookie.toHeader env = .ok o env' ∧ o.uncrypt = cookie.name ++ ascii "=" ++ cookie.value.uncrypt := by
  obtain ⟨o, env', ho, hides⟩ := newObf_hides (cookie.name ++ ascii "=") env
  refine ⟨o.appendObf cookie.value, env', Run.bind_ok ho, ?_⟩
  unfold ObfString.appendObf
  rw [ObfString.uncrypt_append, ObfString.uncrypt_hides hides]

/-- What `to_header` does with a cookie. -/
def Cookie.appendTo (url : Url) (urlDomain : Bytes) (buffer : ObfString) (cookie : Cookie) : EnvM ObfString := do
  if ← cookie.eligible (iequal url.scheme (ascii "https")) urlDomain url.path then
    pure ((buffer.appendObf (← cookie.toHeader)).append (ascii "; "))
  else pure buffer

theorem foldlM_isLine {url : Url} {urlDomain : Bytes} (hname : url.getHostname = .ok urlDomain) : ∀ {cookies : List Cookie}
    {buffer o : ObfString} {env env' : Env}, (∀ c ∈ cookies, c.GoesTo url → c.IsLine) → IsLine buffer.uncrypt →
      cookies.foldlM (Cookie.appendTo url urlDomain) buffer env = .ok o env' → IsLine o.uncrypt
  | [], buffer, o, env, env', _, hbuffer, h => by
    cases h
    exact hbuffer
  | c :: cookies, buffer, o, env, env', hall, hbuffer, h => by
    rw [List.foldlM_cons] at h
    obtain ⟨buffer', env₂, hround, hrest⟩ := Run.bind_eq_ok h
    obtain ⟨goes, env₁, hgoes, hround⟩ := Run.bind_eq_ok hround
    refine foldlM_isLine hname (fun d hd => hall d (List.mem_cons_of_mem _ hd)) ?_ hrest
    cases goes with
    | false =>
      cases hround
      exact hbuffer
    | true =>
      obtain ⟨text, env₃, htext, huncrypt⟩ := toHeader_uncrypt c env₁
      rw [if_pos rfl, Run.bind_ok htext] at hround
      cases hround
      obtain ⟨hcname, hcvalue⟩ := hall c List.mem_cons_self ⟨urlDomain, env, env₁, hname, hgoes⟩
      unfold ObfString.appendObf
      rw [ObfString.uncrypt_append, ObfString.uncrypt_append, huncrypt]
      exact isLine_append.2 ⟨isLine_append.2 ⟨hbuffer, isLine_append.2 ⟨isLine_append.2 ⟨hcname, by decide⟩, hcvalue⟩⟩, by decide⟩

/-- The header has no line break when the cookies that go with the request have none. -/
theorem Cookies.toHeader_isLine {cookies : Cookies} {url : Url} {o : ObfString} {env env' : Env}
    (hall : ∀ c ∈ cookies.toList, c.GoesTo url → c.IsLine) (h : cookies.toHeader url env = .ok o env') : IsLine o.uncrypt := by
  obtain ⟨buffer, env₁, hbuffer, hides⟩ := newObf_hides [] env
  unfold Cookies.toHeader at h
  rw [Run.bind_ok hbuffer] at h
  obtain ⟨urlDomain, env₂, hname, h⟩ := Run.bind_eq_ok h
  obtain ⟨text, env₃, hfold, h⟩ := Run.bind_eq_ok h
  have hurl : url.getHostname = .ok urlDomain := by
    cases hresult : url.getHostname with
    | error e =>
      rw [hresult] at hname
      cases hname
    | ok name =>
      rw [hresult] at hname
      cases hname
      rfl
  have htext := foldlM_isLine hurl hall (by rw [ObfString.uncrypt_hides hides]; decide) hfold
  split at h
  · have hcut : text.substr 0 (some (text.text.length - 2)) =
        .ok { text with text := cStr (text.text.take (text.text.length - 2)) } := rfl
    rw [hcut] at h
    cases h
    refine htext.sublist fun c hc => ?_
    obtain ⟨d, hd, rfl⟩ := List.mem_map.1 hc
    exact List.mem_map_of_mem (List.mem_of_mem_take (List.takeWhile_subset _ hd))
  · obtain ⟨empty, env₄, hempty, hnone⟩ := newObf_hides [] env₃
    rw [hempty] at h
    cases h
    rw [ObfString.uncrypt_hides hnone]
    decide

/-! ## Sending -/

def returned {α : Type} : EStateM.Result Exn HttpsClient α → Bool
  | .ok _ _ => true
  | .error _ _ => false

/-- The data that was written: all of the buffer, or not all when the write failed. -/
theorem writeBuffer_written (buffer : Bytes) (s : HttpsClient) : ∃ e : Written,
    (Run.endState (HttpsClient.writeBuffer buffer s)).written = s.written ++ [e] ∧
      if returned (HttpsClient.writeBuffer buffer s) = true then e.data = buffer else e.data <+: buffer ∧ e.data ≠ buffer := by
  have houtcome := writeLoop_outcome (connOutgoing s.conn) buffer []
  rw [List.nil_append] at houtcome
  unfold HttpsClient.writeBuffer tcpWrite
  rw [Run.get_bind]
  generalize writeLoop (connOutgoing s.conn) buffer [] = r at houtcome
  obtain ⟨⟨code, rc, sbytes⟩, sent, outgoing⟩ := r
  cases code with
  | netctxSndOk => exact ⟨_, rfl, houtcome⟩
  | netctxSndError => exact ⟨_, rfl, houtcome⟩
  | netctxSndRetry => exact ⟨_, rfl, houtcome⟩

/-- The data is the message of the request, whole, or a part of it when the sending failed. -/
def Carries (r : Request) (cookies : Cookies) (whole : Bool) (data : Bytes) : Prop :=
  ∃ env o env', cookies.toHeader r.url env = .ok o env' ∧
    (data = r.message o.uncrypt ∨ whole = false ∧ data <+: r.message o.uncrypt ∧ data ≠ r.message o.uncrypt)

theorem send_written (r : Request) (cookies : Cookies) (s : HttpsClient) : ∃ entries : List Written,
    (Run.endState (HttpsClient.send r cookies s)).written = s.written ++ entries ∧
      ((entries = [] ∧ returned (HttpsClient.send r cookies s) = false) ∨
        Carries r cookies (returned (HttpsClient.send r cookies s)) (entries.flatMap Written.data)) := by
  unfold HttpsClient.send
  cases hhead : r.head cookies s.env with
  | error e env =>
    have hzoom : HttpsClient.onEnv (r.head cookies) s = .error e { s with env } := Run.zoom_error hhead
    rw [Run.bind_error hzoom]
    exact ⟨[], (List.append_nil _).symm, .inl ⟨rfl, rfl⟩⟩
  | ok text env =>
    have hzoom : HttpsClient.onEnv (r.head cookies) s = .ok text { s with env } := Run.zoom_ok hhead
    obtain ⟨o, env', ho, rfl⟩ := Request.head_text hhead
    rw [Run.bind_ok hzoom]
    obtain ⟨e, hwritten, hdata⟩ := writeBuffer_written (linesText (r.requestLine :: r.fields o.uncrypt)) { s with env }
    cases hfirst : HttpsClient.writeBuffer (linesText (r.requestLine :: r.fields o.uncrypt)) { s with env } with
    | error x t =>
      rw [hfirst] at hwritten hdata
      rw [Run.bind_error hfirst]
      obtain ⟨hlead, hne⟩ := hdata
      refine ⟨[e], hwritten, .inr ⟨s.env, o, env', ho, .inr ⟨rfl, ?_, ?_⟩⟩⟩
      · rw [List.flatMap_singleton]
        exact hlead.trans (List.prefix_append _ _)
      · rw [List.flatMap_singleton]
        rintro heq
        have hlen := hlead.length_le
        rw [heq, Request.message, List.length_append] at hlen
        have hbody : r.body = [] := List.eq_nil_of_length_eq_zero (by omega)
        rw [Request.message, hbody, List.append_nil] at heq
        exact hne heq
    | ok u t =>
      rw [hfirst] at hwritten hdata
      rw [Run.bind_ok hfirst]
      have hdata : e.data = linesText (r.requestLine :: r.fields o.uncrypt) := hdata
      have hwritten : t.written = s.written ++ [e] := hwritten
      by_cases hbody : r.body = []
      · rw [if_neg (not_not.2 hbody)]
        refine ⟨[e], hwritten, .inr ⟨s.env, o, env', ho, .inl ?_⟩⟩
        rw [List.flatMap_singleton, hdata, Request.message, hbody, List.append_nil]
      · rw [if_pos hbody]
        obtain ⟨e', hwritten', hdata'⟩ := writeBuffer_written r.body t
        refine ⟨[e, e'], by rw [hwritten', hwritten, List.append_assoc]; rfl, .inr ⟨s.env, o, env', ho, ?_⟩⟩
        have hall : [e, e'].flatMap Written.data = linesText (r.requestLine :: r.fields o.uncrypt) ++ e'.data := by
          rw [List.flatMap_cons, List.flatMap_singleton, hdata]
        rw [hall, Request.message]
        cases hsecond : HttpsClient.writeBuffer r.body t with
        | ok v u =>
          rw [hsecond] at hdata'
          exact .inl (congrArg _ hdata')
        | error x u =>
          rw [hsecond] at hdata'
          obtain ⟨hlead, hne⟩ := hdata'
          exact .inr ⟨rfl, (List.prefix_append_right_inj _).2 hlead, fun heq => hne (List.append_cancel_left heq)⟩

theorem Carries.weaken {r : Request} {cookies : Cookies} {data : Bytes} (h : Carries r cookies true data) (whole : Bool) :
    Carries r cookies whole data := by
  obtain ⟨env, o, env', ho, hdata⟩ := h
  rcases hdata with hdata | ⟨hfalse, -⟩
  · exact ⟨env, o, env', ho, .inl hdata⟩
  · cases hfalse

theorem sendRequest_carries (r : Request) (cookies : Cookies) (s : HttpsClient) : ∃ entries : List Written,
    (Run.endState (HttpsClient.sendRequest r cookies s)).written = s.written ++ entries ∧
      ((entries = [] ∧ returned (HttpsClient.sendRequest r cookies s) = false) ∨
        Carries r cookies (returned (HttpsClient.sendRequest r cookies s)) (entries.flatMap Written.data)) := by
  obtain ⟨entries, hwritten, hsent⟩ := send_written r cookies s
  refine ⟨entries, ?_⟩
  unfold HttpsClient.sendRequest
  cases hrun : HttpsClient.send r cookies s with
  | error e t =>
    rw [hrun] at hwritten hsent
    rw [Run.bind_error hrun]
    exact ⟨hwritten, hsent⟩
  | ok u t =>
    rw [hrun] at hwritten hsent
    rw [Run.bind_ok hrun]
    exact ⟨hwritten, hsent⟩

end FortiRdp.Http
