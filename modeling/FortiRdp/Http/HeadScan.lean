/-
What the header lines of a stream do, from their bytes alone: they are refused, or they end in a map of
headers, or a cookie among them is a fault. A cookie definition with an attribute of blanks only is one:
the cut of leading blanks throws, and not as an ill-formed cookie.
-/
import FortiRdp.Http.AnswerOutcome

namespace FortiRdp.Http

open Util Net

/-! ## Cookies -/

/-- Whether a cookie definition makes `parse` throw something else than a `cookie_error`. -/
def cookieFault (value : Bytes) : Bool :=
  match ObfString.parts 59 value with
  | [] => false
  | pair :: attrs => (find 61 pair).isSome && attrs.any onlyBlanks

theorem parseAttribute_fault {lib : DateLib} {attrs : Cookie.Attributes} {part : ObfString} {p : Bytes}
    (hides : part.Hides p) (h : onlyBlanks p = true) : Cookie.parseAttribute lib attrs part = .error .outOfRange := by
  unfold Cookie.parseAttribute
  rw [ObfString.uncrypt_hides hides, trimleft_onlyBlanks h]
  rfl

theorem parseAttribute_ok (lib : DateLib) (attrs : Cookie.Attributes) {part : ObfString} {p : Bytes}
    (hides : part.Hides p) (h : onlyBlanks p = false) : ∃ attrs', Cookie.parseAttribute lib attrs part = .ok attrs' := by
  unfold Cookie.parseAttribute
  rw [ObfString.uncrypt_hides hides, trimleft_ok h, ok_bind]
  cases hfind : find 61 (p.dropWhile isBlank) with
  | none => exact ⟨_, rfl⟩
  | some pos =>
    obtain ⟨name, hname⟩ := substr_ok (Nat.zero_le (p.dropWhile isBlank).length) (some pos)
    obtain ⟨value, hvalue⟩ := substr_ok (find_lt hfind) none
    simp only [hname, hvalue]
    exact ⟨_, rfl⟩

/-- The attributes are read one after the other, up to the first one of blanks. -/
theorem parseAttributes (lib : DateLib) : ∀ {parts : List ObfString} {attrs : List Bytes},
    List.Forall₂ (fun o p => o.Hides p ∧ 0 ∉ p) parts attrs → ∀ init,
      if attrs.any onlyBlanks = true then parts.foldlM (Cookie.parseAttribute lib) init = .error .outOfRange
      else ∃ out, parts.foldlM (Cookie.parseAttribute lib) init = .ok out
  | [], [], .nil, init => ⟨init, rfl⟩
  | part :: parts, p :: attrs, .cons hpart hparts, init => by
    rw [List.foldlM_cons, List.any_cons]
    cases hp : onlyBlanks p with
    | true =>
      rw [parseAttribute_fault hpart.1 hp]
      rfl
    | false =>
      obtain ⟨next, hnext⟩ := parseAttribute_ok lib init hpart.1 hp
      rw [hnext]
      exact parseAttributes lib hparts next

/-- `parse` returns or throws a `cookie_error`, but for the faults. -/
theorem parse_outcome (lib : DateLib) {o : ObfString} {value : Bytes} (h : o.Hides value) (hnul : 0 ∉ value) :
    if cookieFault value = true then Cookie.parse lib o = .error .outOfRange
    else (∃ c, Cookie.parse lib o = .ok c) ∨ ∃ message, Cookie.parse lib o = .error (.cookieError message) := by
  have hsplit := ObfString.split_hides h hnul 59
  unfold cookieFault Cookie.parse
  generalize o.split 59 = parts at hsplit
  generalize ObfString.parts 59 value = plain at hsplit
  cases hsplit with
  | nil => exact .inr ⟨_, rfl⟩
  | @cons cookiePair pair parts attrs hpair hparts =>
    simp only
    rw [ObfString.find_hides hpair.1]
    cases hfind : find 61 pair with
    | none => exact .inr ⟨_, rfl⟩
    | some pos =>
      obtain ⟨name, hname⟩ := substr_ok (Nat.zero_le pair.length) (some pos)
      obtain ⟨text, htext⟩ := substr_ok (find_lt hfind) none
      obtain ⟨oname, honame, -⟩ := ObfString.substr_hides hpair.1 hname
      obtain ⟨ovalue, hovalue, -⟩ := ObfString.substr_hides hpair.1 htext
      have hattrs := parseAttributes lib hparts
        { domain := [], path := [], expires := expiresUnspecified, secure := false, httpOnly := false }
      simp only [honame, hovalue, Option.isSome_some, Bool.true_and]
      split at hattrs
      · rename_i hblank
        rw [if_pos hblank]
        simp only [bind, Except.bind, hattrs]
      · rename_i hblank
        rw [if_neg hblank]
        obtain ⟨out, hout⟩ := hattrs
        have hmake := Cookie.make_eq oname.uncrypt ovalue out.domain out.path out.expires out.secure out.httpOnly
        refine .inl ⟨_, Eq.trans ?_ hmake⟩
        simp only [bind, Except.bind, hout]

/-! ## Header lines -/

/-- What a header line says. -/
inductive HeaderField where
  | skip
  | invalid
  | field (name value : Bytes)
  deriving DecidableEq, Repr

def headerField (line : Bytes) : HeaderField :=
  match find 58 line with
  | none => .skip
  | some pos =>
    if pos = 0 then .skip
    else if Answer.isValidFieldName (cStr (line.take pos)) then
      .field (cStr (line.take pos)) (trimmed (cStr (line.drop (pos + 1))))
    else .invalid

/-- How the lines end: refused or cut off, with a fault, or with the headers and the bytes after them. -/
inductive HeadScan where
  | stopped
  | fault
  | done (headers : StringMap) (rest : Bytes)

def scanHeaders : Nat → ByteBuffer → StringMap → Bytes → HeadScan
  | 0, _, _, _ => .stopped
  | n + 1, buffer, headers, bytes =>
    match lineBytes (.start buffer) bytes with
    | none => .stopped
    | some (line, rest) =>
      if line.bytes = [] then .done headers rest
      else
      match headerField line.bytes with
      | .skip => scanHeaders n line headers rest
      | .invalid => .stopped
      | .field name value =>
        if iequal name (ascii "Set-Cookie") then
          if cookieFault value then .fault
          else scanHeaders n line headers rest
        else scanHeaders n line (headers.set name value) rest

theorem storeHeader_cookie (lib : DateLib) {name value : Bytes} {o : ObfString} (hname : iequal name (ascii "Set-Cookie") = true)
    (h : o.Hides value) (hnul : 0 ∉ value) (s : Receiver) :
    if cookieFault value = true then Answer.storeHeader lib name o s = .error .outOfRange s
    else ∃ s', Answer.storeHeader lib name o s = .ok () s' ∧ s'.incoming = s.incoming ∧
      s'.answer.headers = s.answer.headers := by
  have hparse := parse_outcome lib h hnul
  unfold Answer.storeHeader
  rw [if_pos hname]
  split at hparse
  · rename_i hfault
    rw [if_pos hfault, hparse]
    rfl
  · rename_i hfault
    rw [if_neg hfault]
    rcases hparse with ⟨c, hc⟩ | ⟨message, hm⟩
    · rw [hc]
      exact ⟨_, rfl, rfl, rfl⟩
    · rw [hm]
      exact ⟨_, rfl, rfl, rfl⟩

theorem readHeaderLine_outcome (lib : DateLib) {line : Bytes} {o : ObfString} (h : o.Hides line) (s : Receiver) :
    match headerField line with
    | .skip => Answer.readHeaderLine lib o s = .ok .errNone s
    | .invalid => Answer.readHeaderLine lib o s = .ok .errInvalidField s
    | .field name value =>
      if iequal name (ascii "Set-Cookie") = true then
        if cookieFault value = true then Answer.readHeaderLine lib o s = .error .outOfRange s
        else ∃ s', Answer.readHeaderLine lib o s = .ok .errNone s' ∧ s'.incoming = s.incoming ∧
          s'.answer.headers = s.answer.headers
      else ∃ s', Answer.readHeaderLine lib o s = .ok .errNone s' ∧ s'.incoming = s.incoming ∧
        s'.answer.headers = s.answer.headers.set name value := by
  unfold headerField Answer.readHeaderLine
  rw [ObfString.find_hides h]
  cases hfind : find 58 line with
  | none => rfl
  | some pos =>
    simp only
    by_cases hpos : pos = 0
    · rw [if_pos hpos, if_pos hpos]
      rfl
    rw [if_neg hpos, if_neg hpos]
    have htake : substr line 0 (some pos) = .ok (line.take pos) := by
      unfold substr
      rw [if_neg (Nat.not_lt_zero _)]
      rfl
    have hdrop : substr line (pos + 1) none = .ok (line.drop (pos + 1)) := by
      unfold substr
      rw [if_neg (Nat.not_lt.2 (find_lt hfind))]
    obtain ⟨oname, honame, hname, -⟩ := ObfString.substr_hides h htake
    obtain ⟨orest, horest, hrest, -⟩ := ObfString.substr_hides h hdrop
    have hnul := cStr_nul (line.drop (pos + 1))
    obtain ⟨ovalue, hovalue, hvalue⟩ := ObfString.trim_hides hrest hnul (trim_eq _)
    rw [Run.except_bind honame, ObfString.uncrypt_hides hname]
    generalize cStr (line.take pos) = name
    by_cases hvalid : Answer.isValidFieldName name = true
    swap
    · rw [if_neg hvalid, if_neg hvalid]
      rfl
    rw [if_pos hvalid, if_pos hvalid, Run.except_bind horest, Run.except_bind hovalue]
    simp only
    by_cases hcookie : iequal name (ascii "Set-Cookie") = true
    · rw [if_pos hcookie]
      have hstore := storeHeader_cookie lib hcookie hvalue (trimmed_nul hnul) s
      unfold trimmed
      split at hstore
      · rename_i hfault
        rw [if_pos hfault]
        exact Run.bind_error hstore
      · rename_i hfault
        rw [if_neg hfault]
        obtain ⟨s', hrun, hincoming, hheaders⟩ := hstore
        exact ⟨s', Run.bind_ok hrun, hincoming, hheaders⟩
    · rw [if_neg hcookie]
      have hstore : Answer.storeHeader lib name ovalue s =
          .ok () { s with answer := { s.answer with headers := s.answer.headers.set name ovalue.uncrypt } } := by
        unfold Answer.storeHeader
        rw [if_neg hcookie]
        rfl
      refine ⟨_, Run.bind_ok hstore, rfl, ?_⟩
      simp only [ObfString.uncrypt_hides hvalue, trimmed]

/-! ## The header section -/

/-- How the reading of the header lines ends, given what the lines are. -/
def HeadersEnd (scan : HeadScan) (r : EStateM.Result Exn Receiver AnswerStatus) : Prop :=
  match scan with
  | .stopped => (∃ status s', r = .ok status s' ∧ status ≠ .errNone) ∨ Refused r
  | .fault => ∃ s', r = .error .outOfRange s'
  | .done headers rest => ∃ s', r = .ok .errNone s' ∧ s'.answer.headers = headers ∧ available s'.incoming = rest

/-- A line that is not empty is read, and then it is looked at. -/
theorem readHeadersStep_line (lib : DateLib) {buffer line : ByteBuffer} {a rest : Bytes} {tail : List Seg} {s : Receiver}
    (h : lineBytes (.start buffer) (a ++ rest) = some (line, rest)) (hne : line.bytes ≠ [])
    (harr : Arrives tail s.incoming (a ++ rest)) :
    ∃ o t, o.Hides line.bytes ∧ t.answer = s.answer ∧ Arrives tail t.incoming rest ∧
      Answer.readHeadersStep lib buffer s = (Answer.readHeaderLine lib o >>= fun status =>
        if status ≠ .errNone then pure (.inr status) else pure (.inl line)) t := by
  have hread : Consumes (· = s.answer) (Answer.readLine buffer) a _ := readLine_bytes rest h
  obtain ⟨v, t, hrun, ⟨rfl, hans⟩, harr'⟩ := hread tail s rest rfl harr
  -- the line becomes an obfuscated string
  obtain ⟨o, env, hobf, hides⟩ := newObf_hides line.bytes t.env
  have hzoom : Answer.onEnv line.toObfstring t = .ok o { t with env } := Run.zoom_ok hobf
  refine ⟨o, { t with env }, hides, hans, harr', ?_⟩
  unfold Answer.readHeadersStep
  rw [Run.bind_ok hrun]
  simp only [hne, ne_eq, not_true_eq_false, or_self, if_false]
  rw [Run.bind_ok hzoom]

/-- An empty line is the last one. -/
theorem readHeadersStep_empty (lib : DateLib) {buffer line : ByteBuffer} {a rest : Bytes} {I : Answer → Prop}
    (h : lineBytes (.start buffer) (a ++ rest) = some (line, rest)) (hempty : line.bytes = []) :
    Consumes I (Answer.readHeadersStep lib buffer) a fun r ans => r = .inr .errNone ∧ I ans := by
  rw [← List.append_nil a]
  refine Consumes.bind_eq (readLine_bytes rest h) ?_
  simp only [hempty, or_true, if_true]
  exact Consumes.pure fun _ hs => ⟨rfl, hs⟩

theorem readHeaders_rest_outcome (lib : DateLib) : ∀ (m n : Nat) (buffer : ByteBuffer) (s : Receiver),
    (available s.incoming).length < m → (available s.incoming).length < n →
      HeadersEnd (scanHeaders m buffer s.answer.headers (available s.incoming))
        (Run.iterate .exhausted (Answer.readHeadersStep lib) n buffer s)
  | 0, _, _, _, hm, _ => absurd hm (Nat.not_lt_zero _)
  | _ + 1, 0, _, _, _, hn => absurd hn (Nat.not_lt_zero _)
  | m + 1, n + 1, buffer, s, hm, hn => by
    unfold scanHeaders
    cases hline : lineBytes (.start buffer) (available s.incoming) with
    | none =>
      -- the stream ends within the line
      simp only
      have heof := readLine_none (I := fun _ => True) hline
      cases hread : Answer.readLine buffer s with
      | error e t =>
        exact .inr ⟨e, t, Run.iterate_error (Run.bind_error hread), raises_readLine buffer s e t hread⟩
      | ok v t =>
        have hv : v.1 = .errEof := heof.of_ok trivial rfl hread
        have hround : Answer.readHeadersStep lib buffer s = .ok (.inr .errEof) t := by
          unfold Answer.readHeadersStep
          rw [Run.bind_ok hread]
          obtain ⟨status, line⟩ := v
          simp only at hv
          subst hv
          rfl
        exact .inl ⟨.errEof, t, Run.iterate_done hround, by decide⟩
    | some r =>
      obtain ⟨line, rest⟩ := r
      obtain ⟨a, ha, hpos⟩ := lineBytes_append hline
      have hlen : (available s.incoming).length = a.length + rest.length := by rw [ha, List.length_append]
      simp only
      by_cases hempty : line.bytes = []
      · rw [if_pos hempty]
        have hround := readHeadersStep_empty lib (I := (· = s.answer)) (ha ▸ hline) hempty
        obtain ⟨v, t, hrun, ⟨rfl, hans⟩, hav⟩ := hround.exists_ok rfl ha
        exact ⟨t, Run.iterate_done hrun, by rw [hans], hav⟩
      rw [if_neg hempty]
      obtain ⟨tail, harr, hdead⟩ := arrives_available s.incoming
      rw [ha] at harr
      obtain ⟨o, t, hides, hans, harr', hstep⟩ := readHeadersStep_line lib (ha ▸ hline) hempty harr
      have hav := available_arrives hdead harr'
      have hfield := readHeaderLine_outcome lib hides t
      have ih : ∀ u : Receiver, u.incoming = t.incoming → HeadersEnd
          (scanHeaders m line u.answer.headers rest) (Run.iterate .exhausted (Answer.readHeadersStep lib) n line u) := by
        intro u hu
        have hrest := readHeaders_rest_outcome lib m n line u
        rw [hu, hav] at hrest
        exact hrest (by omega) (by omega)
      have hmore : ∀ u, Answer.readHeaderLine lib o t = .ok .errNone u →
          Answer.readHeadersStep lib buffer s = .ok (.inl line) u := by
        intro u hu
        rw [hstep, Run.bind_ok hu]
        rfl
      cases hf : headerField line.bytes with
      | skip =>
        rw [hf] at hfield
        rw [Run.iterate_more (hmore t hfield), ← hans]
        exact ih t rfl
      | invalid =>
        rw [hf] at hfield
        have hround : Answer.readHeadersStep lib buffer s = .ok (.inr .errInvalidField) t := by
          rw [hstep, Run.bind_ok hfield]
          rfl
        exact .inl ⟨_, _, Run.iterate_done hround, by decide⟩
      | field name value =>
        rw [hf] at hfield
        simp only at hfield ⊢
        split at hfield
        · rename_i hcookie
          rw [if_pos hcookie]
          split at hfield
          · rename_i hfault
            rw [if_pos hfault]
            refine ⟨t, Run.iterate_error ?_⟩
            rw [hstep, Run.bind_error hfield]
          · rename_i hfault
            rw [if_neg hfault]
            obtain ⟨u, hu, hincoming, hheaders⟩ := hfield
            have hnext := ih u hincoming
            rw [hheaders, hans] at hnext
            rw [Run.iterate_more (hmore u hu)]
            exact hnext
        · rename_i hcookie
          rw [if_neg hcookie]
          obtain ⟨u, hu, hincoming, hheaders⟩ := hfield
          have hnext := ih u hincoming
          rw [hheaders, hans] at hnext
          rw [Run.iterate_more (hmore u hu)]
          exact hnext

/-- How a head ends, from the first byte of the stream on. -/
def scanHead (bytes : Bytes) : HeadScan :=
  match statusBytes bytes with
  | none => .stopped
  | some rest => scanHeaders (rest.length + 1) (.ofCapacity maxHeaderSize) .empty rest

theorem readHeaders_outcome (lib : DateLib) (s : Receiver) :
    HeadersEnd (scanHeaders ((available s.incoming).length + 1) (.ofCapacity maxHeaderSize) s.answer.headers
      (available s.incoming)) (Answer.readHeaders lib s) :=
  readHeaders_rest_outcome lib _ _ _ s (Nat.lt_succ_self _) (length_available_lt _)

end FortiRdp.Http
