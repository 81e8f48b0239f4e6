/-
Reading JSON: the parser as a function of what is left of the text. It gives the value and what comes after it, or
the error. The parser over positions reads as this function does, and never reads behind the terminator.
-/
import FortiRdp.Util.Json

namespace FortiRdp.Util

open Run

namespace JsonReader

abbrev ReadM (α : Type) := Reader UInt8 Bytes α

variable {F : Type} (strategy : JsonParse)

/-! ## What is passed over -/

def closeComment : ReadM Bool
  | a :: b :: rest => if a = 42 ∧ b = 47 then .ok (true, rest) else closeComment (b :: rest)
  | _ => .error (ascii "unexpected end of input inside multi-line comment")

/-- A comment behind its first `/`. -/
def openComment : ReadM Bool :=
  fun rest =>
    if rest = [] then .error (ascii "unexpected end of input after start of comment")
    else if rest.headD 0 == 47 then .ok (true, rest.tail.dropWhile (· != 10))
    else if rest.headD 0 == 42 then closeComment rest.tail
    else .error (ascii "malformed comment")

def comment : ReadM Bool := fun rest => if rest.headD 0 == 47 then openComment rest.tail else .ok (false, rest)

def white : ReadM Unit := fun rest => .ok ((), rest.dropWhile JsonParser.isWhite)

def comments : Nat → ReadM Unit
  | 0 => fun _ => .error []
  | n + 1 => do
    let found ← comment
    white
    if found then comments n else pure ()

def garbage (n : Nat) : ReadM Unit := do
  white
  if strategy = .comments then comments n else pure ()

/-- The next token, left where it is. -/
def token (n : Nat) : ReadM UInt8 := do
  garbage strategy n
  uncons (fun _ => .error (ascii "unexpected end of input")) fun ch rest => .ok (ch, ch :: rest)

/-- What comes behind a token. -/
def behind {α : Type} (f : UInt8 → ReadM α) : UInt8 → ReadM α := fun ch rest => f ch (rest.drop 1)

/-! ## Strings -/

def string : Nat → Bytes → Option Nat → ReadM Bytes
  | 0, _, _ => fun _ => .error []
  | n + 1, out, last =>
    uncons (fun _ => .error (ascii "unexpected end of input in string")) fun ch =>
      if ch = 34 then pure (out ++ JsonParser.flush last)
      else if ch ≤ 0x1f then fun _ => .error (ascii "unescaped " ++ JsonParser.esc ch ++ ascii " in string")
      else if ch ≠ 92 then string n (out ++ JsonParser.flush last ++ [ch]) none
      else uncons (fun _ => .error (ascii "unexpected end of input in string")) fun ch =>
        if ch = 117 then fun rest =>
          if (rest.take 4).length < 4 ∨ (rest.take 4).any (fun c => !JsonParser.isHex c) then
            .error (ascii "bad \\u escape: " ++ rest.take 4)
          else string n (out ++ (JsonParser.addCodepoint last (readDigits 16 0 (rest.take 4))).1)
            (JsonParser.addCodepoint last (readDigits 16 0 (rest.take 4))).2 (rest.drop 4)
        else match JsonParser.unescape ch with
          | some c => string n (out ++ JsonParser.flush last ++ [c]) none
          | none => fun _ => .error (ascii "invalid escape character " ++ JsonParser.esc ch)

/-! ## Numbers -/

def optional (p : UInt8 → Bool) (f : ReadM (Json F)) : ReadM (Json F) :=
  fun rest => if p (rest.headD 0) then f rest.tail else f rest

def someDigits (message : Bytes) (f : ReadM (Json F)) : ReadM (Json F) :=
  fun rest => if isdigit (rest.headD 0) then f (rest.dropWhile isdigit) else .error message

def integerPart (f : ReadM (Json F)) : ReadM (Json F) :=
  fun rest =>
    if rest.headD 0 == 48 then
      if isdigit (rest.tail.headD 0) then .error (ascii "leading 0s not permitted in numbers") else f rest.tail
    else if 49 ≤ rest.headD 0 && rest.headD 0 ≤ 57 then f (rest.tail.dropWhile isdigit)
    else .error (ascii "invalid " ++ JsonParser.esc (rest.headD 0) ++ ascii " in number")

def decimalPart (f : ReadM (Json F)) : ReadM (Json F) :=
  fun rest =>
    if rest.headD 0 == 46 then someDigits (ascii "at least one digit required in fractional part") f rest.tail else f rest

def exponentPart (f : ReadM (Json F)) : ReadM (Json F) :=
  fun rest =>
    if rest.headD 0 == 101 || rest.headD 0 == 69 then
      optional (fun c => c == 43 || c == 45) (someDigits (ascii "at least one digit required in exponent") f) rest.tail
    else f rest

def number (lib : DoubleLib F) : ReadM (Json F) :=
  fun all => optional (· == 45) (integerPart fun rest =>
    if rest.headD 0 ≠ 46 ∧ rest.headD 0 ≠ 101 ∧ rest.headD 0 ≠ 69 ∧ all.length - rest.length ≤ 9 then
      .ok (.int (JsonParser.atoi all), rest)
    else decimalPart (exponentPart fun rest => .ok (.double (lib.strtod all), rest)) rest) all

/-! ## Values -/

def expect (expected : Bytes) (res : Json F) : ReadM (Json F) :=
  fun rest =>
    if rest.take expected.length = expected then .ok (res, rest.drop expected.length)
    else .error (ascii "parse error: expected " ++ expected ++ ascii ", got " ++ rest.take expected.length)

/-- Members behind the first character of one. -/
def members (fuel : Nat) (value : ReadM (Json F)) : Nat → SortedMap (Json F) strKey → UInt8 → ReadM (Json F)
  | 0, _, _ => fun _ => .error []
  | n + 1, data, ch =>
    if ch ≠ 34 then fun _ => .error (ascii "expected '\"' in object, got " ++ JsonParser.esc ch)
    else do
      let key ← string fuel [] none
      token strategy fuel >>= behind fun ch =>
        if ch ≠ 58 then fun _ => .error (ascii "expected ':' in object, got " ++ JsonParser.esc ch)
        else do
          let v ← value
          token strategy fuel >>= behind fun ch =>
            if ch = 125 then pure (.object (data.set key v).entries)
            else if ch ≠ 44 then fun _ => .error (ascii "expected ',' in object, got " ++ JsonParser.esc ch)
            else token strategy fuel >>= behind (members fuel value n (data.set key v))

/-- Items, from the first character of one on. -/
def items (fuel : Nat) (value : ReadM (Json F)) : Nat → List (Json F) → ReadM (Json F)
  | 0, _ => fun _ => .error []
  | n + 1, data => do
    let v ← value
    token strategy fuel >>= behind fun ch =>
      if ch = 93 then pure (.array (data ++ [v]))
      else if ch ≠ 44 then fun _ => .error (ascii "expected ',' in list, got " ++ JsonParser.esc ch)
      else token strategy fuel >>= fun _ => items fuel value n (data ++ [v])

/-- A value that begins with this character; `read` reads the values inside. -/
def valueAt (fuel : Nat) (lib : DoubleLib F) (read : ReadM (Json F)) (ch : UInt8) : ReadM (Json F) :=
  if ch = 45 ∨ isdigit ch then number lib
  else if ch = 116 then expect (ascii "true") (.bool true)
  else if ch = 102 then expect (ascii "false") (.bool false)
  else if ch = 110 then expect (ascii "null") .null
  else if ch = 34 then behind (fun _ => string fuel [] none >>= fun s => pure (.string s)) ch
  else if ch = 123 then behind (fun _ => token strategy fuel >>= behind fun ch =>
    if ch = 125 then pure (.object []) else members strategy fuel read fuel .empty ch) ch
  else if ch = 91 then behind (fun _ => token strategy fuel >>= fun ch =>
    if ch = 93 then behind (fun _ => pure (.array [])) ch else items strategy fuel read fuel []) ch
  else fun _ => .error (ascii "expected value, got " ++ JsonParser.esc ch)

/-- A value where `room` levels of nesting are left. -/
def json (fuel : Nat) (lib : DoubleLib F) : Nat → ReadM (Json F)
  | 0 => fun _ => .error (ascii "exceeded maximum nesting depth")
  | room + 1 => token strategy fuel >>= valueAt strategy fuel lib (json fuel lib room)

def document (fuel : Nat) (lib : DoubleLib F) : ReadM (Json F) := do
  let result ← json strategy fuel lib (JsonParser.maxDepth + 1)
  garbage strategy fuel
  fun rest => if rest = [] then .ok (result, []) else .error (ascii "unexpected trailing " ++ JsonParser.esc (rest.headD 0))

end JsonReader

/-! ## The parser over positions -/

namespace JsonParser

variable {F : Type} {str : Bytes} {strategy : JsonParse}

theorem reads_consumeWhitespace : Reads str 0 (consumeWhitespace str) JsonReader.white := Reads.skipWhile _

theorem closeComment_short {rest : Bytes} (h : rest.length < 2) :
    JsonReader.closeComment rest = .error (ascii "unexpected end of input inside multi-line comment") := by
  rcases rest with - | ⟨a, - | ⟨b, rest⟩⟩
  · rfl
  · rfl
  · rw [List.length_cons, List.length_cons] at h
    omega

/-- The loop to the end of a comment has as many passes as there are characters. -/
theorem reads_closeComment : ∀ (n : Nat) (c : Cursor Bytes), c.i ≤ str.length → str.length < c.i + n →
    ∃ a d, closeComment str n c = some (a, d) ∧ Moves str 0 c d ∧
      (c.failed = false → Agrees str c.err (JsonReader.closeComment (str.drop c.i)) a d)
  | 0, c, hc, hn => absurd hn (by omega)
  | n + 1, c, hc, hn => by
    show ∃ a d, (if str.length < c.i + 2 then Scan.fail (ascii "unexpected end of input inside multi-line comment") false
      else (Scan.cur str >>= fun ch => Scan.ahead str >>= fun ch' => if ch = 42 ∧ ch' = 47 then
        (Scan.next 2 >>= fun _ => pure true) else (Scan.next 1 >>= fun _ => closeComment str n)) : ParseM Bool) c =
          some (a, d) ∧ _
    by_cases hshort : str.length < c.i + 2
    · rw [if_pos hshort, closeComment_short (by rw [List.length_drop]; omega)]
      exact Reads.fail _ _ c (Nat.zero_le _) hc
    · have hnext : str.drop (c.i + 1) = str[c.i + 1] :: str.drop (c.i + 2) := List.drop_eq_getElem_cons (by omega)
      have hdrop : str.drop c.i = str[c.i] :: str[c.i + 1] :: str.drop (c.i + 2) := by
        rw [List.drop_eq_getElem_cons (by omega), hnext]
      rw [if_neg hshort, Reads.cur_bind hc, Reads.ahead_bind (by omega), hdrop, hnext]
      show ∃ a d, (if str[c.i] = 42 ∧ str[c.i + 1] = 47 then (Scan.next 2 >>= fun _ => pure true) else
        (Scan.next 1 >>= fun _ => closeComment str n) : ParseM Bool) c = some (a, d) ∧ _ ∧ (_ → Agrees str c.err
          (if str[c.i] = 42 ∧ str[c.i + 1] = 47 then .ok (true, str.drop (c.i + 2)) else
            JsonReader.closeComment (str[c.i + 1] :: str.drop (c.i + 2))) a d)
      by_cases hclose : str[c.i] = 42 ∧ str[c.i + 1] = 47
      · rw [if_pos hclose, if_pos hclose]
        exact ⟨true, { c with i := c.i + 2 }, rfl,
          ⟨by show c.i ≤ c.i + 2 + 0; omega, by show c.i + 2 ≤ _; omega, fun h => ⟨h, rfl⟩⟩,
          fun h => ⟨rfl, h, rfl, rfl⟩⟩
      · rw [if_neg hclose, if_neg hclose, ← hnext]
        obtain ⟨a, d, hrun, ⟨hle, hd, hkept⟩, hok⟩ :=
          reads_closeComment n { c with i := c.i + 1 } (by show c.i + 1 ≤ _; omega)
          (by show _ < c.i + 1 + n; omega)
        exact ⟨a, d, hrun, ⟨Nat.le_of_succ_le hle, hd, hkept⟩, hok⟩

/-- A comment is read from its first `/` on. -/
theorem reads_consumeComment : Reads str 0 (consumeComment str) JsonReader.comment := by
  have hclose : Reads str 0 (closeComment str (str.length + 1)) JsonReader.closeComment :=
    fun c _ hc => reads_closeComment _ c hc (by omega)
  have hline : Reads str 0 (Scan.skipWhile str (· != 10) >>= fun _ => pure true : ParseM Bool)
      fun rest => .ok (true, rest.dropWhile (· != 10)) := (Reads.skipWhile _).bind fun _ => Reads.pure true
  have hopen : Reads str 0 (do
      if (← get).i = str.length then Scan.fail (ascii "unexpected end of input after start of comment") false
      else do
        let ch ← Scan.cur str
        if ch == 47 then do
          Scan.next 1
          Scan.skipWhile str (· != 10)
          pure true
        else if ch == 42 then do
          Scan.next 1
          closeComment str (str.length + 1)
        else Scan.fail (ascii "malformed comment") false : ParseM Bool) JsonReader.openComment := by
    refine Reads.ifEnd (Reads.fail _ _) (Reads.curAt (g := fun ch rest =>
      if ch == 47 then .ok (true, rest.tail.dropWhile (· != 10))
      else if ch == 42 then JsonReader.closeComment rest.tail else .error (ascii "malformed comment")) fun c hc ch hlt => ?_)
    refine ReadsAt.ite (fun h => Reads.next hline (hlt fun h0 => ?_)) fun _ =>
      ReadsAt.ite (fun h => Reads.next hclose (hlt fun h0 => ?_))
      fun _ => Reads.fail _ _ c (Nat.zero_le _) hc
    · rw [h0] at h
      cases h
    · rw [h0] at h
      cases h
  exact Reads.curIf rfl (fun _ _ => hopen) fun _ _ => Reads.pure false

theorem reads_consumeComments : ∀ n, Reads str 0 (consumeComments str n) (JsonReader.comments n)
  | 0 => Reads.fail _ _
  | n + 1 => reads_consumeComment.bind fun _ => Reads.unlessFailed
      (reads_consumeWhitespace.bind fun _ => Reads.ite (fun _ => reads_consumeComments n) fun _ => Reads.pure ())

theorem reads_consumeGarbage : Reads str 0 (consumeGarbage str strategy) (JsonReader.garbage strategy (str.length + 1)) :=
  reads_consumeWhitespace.bind fun _ => Reads.ite (fun _ => reads_consumeComments _) fun _ => Reads.pure ()

theorem takes_getNextToken : Takes str (getNextToken str strategy) (JsonReader.token strategy (str.length + 1)) :=
  Takes.after reads_consumeGarbage

/-! ### Strings -/

/-- The four digits of an escaped code point. -/
theorem reads_codepoint {n : Nat} {out : Bytes} {last : Option Nat}
    (ih : ∀ out last, Reads str 0 (parseString str n out last) (JsonReader.string n out last)) :
    Reads str 0 (do
      let esc := (str.drop (← get).i).take 4
      if esc.length < 4 ∨ esc.any (fun c => !isHex c) then Scan.fail (ascii "bad \\u escape: " ++ esc) []
      else do
        Scan.next 4
        let added := addCodepoint last (readDigits 16 0 esc)
        parseString str n (out ++ added.1) added.2) fun rest =>
          if (rest.take 4).length < 4 ∨ (rest.take 4).any (fun c =>
            !isHex c) then .error (ascii "bad \\u escape: " ++ rest.take 4)
          else JsonReader.string n (out ++ (addCodepoint last (readDigits 16 0 (rest.take 4))).1)
            (addCodepoint last (readDigits 16 0 (rest.take 4))).2 (rest.drop 4) :=
  Reads.look 4 (p := fun w => w.length < 4 ∨ w.any (fun c => !isHex c)) (fun _ h => not_lt.1 (not_or.1 h).1)
    (x := fun w => Scan.fail (ascii "bad \\u escape: " ++ w) []) (fun _ => Reads.fail _ _)
    (y := fun w => parseString str n (out ++
    (addCodepoint last (readDigits 16 0 w)).1) (addCodepoint last (readDigits 16 0 w)).2)
    fun _ _ => ih _ _

theorem reads_parseString : ∀ (n : Nat) (out : Bytes) (last : Option Nat),
    Reads str 0 (parseString str n out last) (JsonReader.string n out last)
  | 0, _, _ => Reads.fail _ _
  | n + 1, out, last => by
    refine Reads.take (Reads.fail _ _) fun ch => Reads.ite (fun _ => Reads.pure _) fun _ =>
        Reads.ite (fun _ => Reads.fail _ _) fun _ =>
      Reads.ite (fun _ => reads_parseString n _ _) fun _ => Reads.take (Reads.fail _ _) fun ch =>
        Reads.ite (fun _ => ?_) fun _ => ?_
    · exact reads_codepoint (reads_parseString n)
    · cases unescape ch with
      | some c => exact reads_parseString n _ _
      | none => exact Reads.fail _ _

/-! ### Numbers -/

theorem reads_skipIf {p : UInt8 → Bool} (hp : p 0 = false) {x : ParseM (Json F)} {f : JsonReader.ReadM (Json F)}
    (hx : Reads str 0 x f) :
    Reads str 0 (skipIf str p x) (JsonReader.optional p f) :=
  Reads.curIf hp (fun _ _ => hx) fun _ _ => hx

theorem reads_someDigits (message : Bytes) {x : ParseM (Json F)} {f : JsonReader.ReadM (Json F)} (hx : Reads str 0 x f) :
    Reads str 0 (someDigits str message x) (JsonReader.someDigits message f) :=
  Reads.cur (g := fun ch rest => if isdigit ch then f (rest.dropWhile isdigit) else .error message) fun _ =>
    Reads.iteAt (fun _ => (Reads.skipWhile _).bind fun _ => hx) fun _ => Reads.fail _ _

theorem reads_integerPart {x : ParseM (Json F)} {f : JsonReader.ReadM (Json F)} (hx : Reads str 0 x f) :
    Reads str 0 (integerPart str x) (JsonReader.integerPart f) := by
  have hzero : Reads str 0 (do
      let ch ← Scan.cur str
      if isdigit ch then Scan.fail (ascii "leading 0s not permitted in numbers") .null else x) fun rest =>
        if isdigit (rest.headD 0) then .error (ascii "leading 0s not permitted in numbers") else f rest :=
    Reads.cur (g := fun ch rest => if isdigit ch then .error (ascii "leading 0s not permitted in numbers") else f rest) fun _ =>
      Reads.iteAt (fun _ => Reads.fail _ _) fun _ => hx
  have hdigits : Reads str 0 (Scan.skipWhile str isdigit >>= fun _ => x) fun rest => f (rest.dropWhile isdigit) :=
    (Reads.skipWhile _).bind fun _ => hx
  refine Reads.curAt (g := fun ch rest =>
    if ch == 48 then if isdigit (rest.tail.headD 0) then .error (ascii "leading 0s not permitted in numbers") else f rest.tail
    else if 49 ≤ ch && ch ≤ 57 then f (rest.tail.dropWhile isdigit)
    else .error (ascii "invalid " ++ esc ch ++ ascii " in number")) fun c hc ch hlt => ?_
  refine ReadsAt.ite (fun h => Reads.next hzero (hlt fun h0 => ?_)) fun _ =>
    ReadsAt.ite (fun h => Reads.next hdigits (hlt fun h0 => ?_))
    fun _ => Reads.fail _ _ c (Nat.zero_le _) hc
  · rw [h0] at h
    cases h
  · rw [h0] at h
    cases h

theorem reads_decimalPart {x : ParseM (Json F)} {f : JsonReader.ReadM (Json F)} (hx : Reads str 0 x f) :
    Reads str 0 (decimalPart str x) (JsonReader.decimalPart f) :=
  Reads.curIf rfl (fun _ _ => reads_someDigits _ hx) fun _ _ => hx

theorem reads_exponentPart {x : ParseM (Json F)} {f : JsonReader.ReadM (Json F)} (hx : Reads str 0 x f) :
    Reads str 0 (exponentPart str x) (JsonReader.exponentPart f) :=
  Reads.curIf rfl (fun _ _ => reads_skipIf rfl (reads_someDigits _ hx)) fun _ _ => hx

theorem reads_parseNumber (lib : DoubleLib F) : Reads str 0 (parseNumber str lib) (JsonReader.number lib) := by
  refine Reads.start (y := fun startPos => skipIf str (· == 45) (integerPart str (do
    let ch ← Scan.cur str
    if ch ≠ 46 ∧ ch ≠ 101 ∧ ch ≠ 69 ∧ (← get).i - startPos ≤ 9 then pure (.int (atoi (str.drop startPos)))
    else decimalPart str (exponentPart str (pure (.double (lib.strtod (str.drop startPos))))))))
    (g := fun all => JsonReader.optional (· == 45) (JsonReader.integerPart fun rest =>
      if rest.headD 0 ≠ 46 ∧ rest.headD 0 ≠ 101 ∧ rest.headD 0 ≠ 69 ∧
        all.length - rest.length ≤ 9 then .ok (.int (atoi all), rest)
      else JsonReader.decimalPart (JsonReader.exponentPart fun rest => .ok (.double (lib.strtod all), rest)) rest))
    fun startPos hstart => reads_skipIf rfl (reads_integerPart ?_)
  refine Reads.cur (g := fun ch rest =>
    if ch ≠ 46 ∧ ch ≠ 101 ∧ ch ≠ 69 ∧ (str.drop startPos).length - rest.length ≤
      9 then .ok (.int (atoi (str.drop startPos)), rest)
    else JsonReader.decimalPart (JsonReader.exponentPart fun rest =>
      .ok (.double (lib.strtod (str.drop startPos)), rest)) rest) fun ch => ?_
  refine Reads.start (y := fun i => if ch ≠ 46 ∧ ch ≠ 101 ∧ ch ≠ 69 ∧
    i - startPos ≤ 9 then pure (.int (atoi (str.drop startPos)))
      else decimalPart str (exponentPart str (pure (.double (lib.strtod (str.drop startPos))))))
    (g := fun left rest => if ch ≠ 46 ∧ ch ≠ 101 ∧ ch ≠ 69 ∧ (str.drop startPos).length - left.length ≤ 9 then
        .ok (.int (atoi (str.drop startPos)), rest)
      else JsonReader.decimalPart (JsonReader.exponentPart fun rest =>
        .ok (.double (lib.strtod (str.drop startPos)), rest)) rest) fun i hi => ?_
  have hlen : (str.drop startPos).length - (str.drop i).length ≤ 9 ↔ i - startPos ≤ 9 := by
    rw [List.length_drop, List.length_drop]
    omega
  simp only [hlen]
  exact Reads.iteAt (fun _ => Reads.pure _) fun _ => reads_decimalPart (reads_exponentPart (Reads.pure _))

/-! ### Values -/

theorem reads_expect (expected : Bytes) (res : Json F) :
    Reads str 1 (expect str expected res) (JsonReader.expect expected res) := by
  have hlook : Reads str 0 (do
      let got := (str.drop (← get).i).take expected.length
      if got ≠ expected then Scan.fail (ascii "parse error: expected " ++ expected ++ ascii ", got " ++ got) .null
      else do
        Scan.next expected.length
        pure res) fun rest => if rest.take expected.length ≠ expected then
          .error (ascii "parse error: expected " ++ expected ++ ascii ", got " ++ rest.take expected.length)
        else .ok (res, rest.drop expected.length) :=
    Reads.look expected.length (p := fun w => w ≠ expected) (fun w h => by rw [not_not.1 h])
      (x := fun w => Scan.fail (ascii "parse error: expected " ++ expected ++ ascii ", got " ++ w) .null) (fun _ =>
        Reads.fail _ _)
      (y := fun _ => pure res) fun _ _ => Reads.pure _
  simp only [ne_eq, ite_not] at hlook
  exact hlook.back

section Loops

variable {value : ParseM (Json F)} {read : JsonReader.ReadM (Json F)}

theorem reads_objectLoop (hvalue : Reads str 0 value read) : ∀ (n : Nat) (ch : UInt8) (data : SortedMap (Json F) strKey),
    Reads str 0 (objectLoop str strategy value n ch data) (JsonReader.members strategy (str.length + 1) read n data ch)
  | 0, _, _ => Reads.fail _ _
  | n + 1, _, data => Reads.ite (fun _ => Reads.fail _ _) fun _ => (reads_parseString _ _ _).bind fun key =>
      Reads.unlessFailed (takes_getNextToken.reads fun _ => Reads.ite (fun _ => Reads.fail _ _) fun _ => hvalue.bind fun v =>
        Reads.unlessFailed (takes_getNextToken.reads fun _ => Reads.ite (fun _ => Reads.pure _) fun _ =>
          Reads.ite (fun _ => Reads.fail _ _) fun _ => takes_getNextToken.reads fun ch =>
            reads_objectLoop hvalue n ch (data.set key v)))

/-- Behind a token the cases are the same. -/
theorem behind_ite {α : Type} {p : UInt8 → Prop} [DecidablePred p] (f g : UInt8 → JsonReader.ReadM α) (ch : UInt8) :
    JsonReader.behind (fun ch => if p ch then f ch else g ch) ch =
        if p ch then JsonReader.behind f ch else JsonReader.behind g ch := by
  unfold JsonReader.behind
  by_cases h : p ch
  · simp only [if_pos h]
  · simp only [if_neg h]

theorem reads_arrayLoop (hvalue : Reads str 0 value read) : ∀ (n : Nat) (data : List (Json F)),
    Reads str 1 (arrayLoop str strategy value n data) (JsonReader.items strategy (str.length + 1) read n data)
  | 0, _ => (Reads.fail _ _).forward
  | n + 1, data => by
    refine Reads.back (hvalue.bind fun v =>
      Reads.unlessFailed (Reads.token takes_getNextToken (fun ch => ?_) (Reads.fail _ _).passes))
    have ih := reads_arrayLoop hvalue n (data ++ [v])
    rw [behind_ite, behind_ite (p := fun ch => ch ≠ 44)]
    exact Reads.ite (fun _ => (Reads.pure _).forward) fun _ => Reads.ite (fun _ => (Reads.fail _ _).forward) fun _ =>
      Reads.token takes_getNextToken (fun _ => ih) ih.passes

end Loops

theorem reads_parseJson (lib : DoubleLib F) : ∀ room,
    Reads str 0 (parseJson str strategy lib room) (JsonReader.json strategy (str.length + 1) lib room)
  | 0 => Reads.fail _ _
  | room + 1 => by
    have ih := reads_parseJson lib room
    have hstring : Reads str 0 (do
        let s ← parseString str (str.length + 1) [] none
        pure (Json.string s : Json F)) _ := (reads_parseString _ _ _).bind fun s => Reads.pure (Json.string s)
    have hobject (ch : UInt8) : Reads str 0 (if ch = 125 then pure (.object []) else
        objectLoop str strategy (parseJson str strategy lib room) (str.length + 1) ch .empty) _ :=
      Reads.ite (fun _ => Reads.pure _) fun _ => reads_objectLoop ih (str.length + 1) ch .empty
    have harray (ch : UInt8) : Reads str 1 (if ch = 93 then pure (.array []) else
        arrayLoop str strategy (parseJson str strategy lib room) (str.length + 1) []) _ :=
      Reads.ite (fun _ => (Reads.pure _).forward) fun _ => reads_arrayLoop ih (str.length + 1) []
    refine Reads.token takes_getNextToken (fun ch => Reads.unlessFailed ?_) Passes.unlessFailed
    refine Reads.ite (fun _ => (reads_parseNumber lib).back) fun _ => Reads.ite (fun _ => reads_expect _ _) fun _ =>
      Reads.ite (fun _ => reads_expect _ _) fun _ => Reads.ite (fun _ => reads_expect _ _) fun _ =>
      Reads.ite (fun _ => hstring.forward) fun _ =>
      Reads.ite (fun _ => (takes_getNextToken.reads hobject).forward) fun _ =>
      Reads.ite (fun _ => Reads.token takes_getNextToken harray (harray 0).passes) fun _ => (Reads.fail _ _).forward

theorem reads_parseDocument (lib : DoubleLib F) :
    Reads str 0 (parseDocument str strategy lib) (JsonReader.document strategy (str.length + 1) lib) := by
  refine (reads_parseJson lib _).bind fun result => reads_consumeGarbage.bind fun _ => Reads.unlessFailed ?_
  refine (Reads.ifEnd (Reads.pure result) (Reads.cur fun ch => Reads.fail _ _)).congr fun rest => ?_
  by_cases h : rest = []
  · rw [if_pos h, if_pos h, h]
    rfl
  · rw [if_neg h, if_neg h]

/-- The value of a parse that failed is null. -/
theorem parseDocument_failed {lib : DoubleLib F} {c d : Cursor Bytes} {v : Json F}
    (h : parseDocument str strategy lib c = some (v, d)) (hd : d.failed = true) : v = .null := by
  obtain ⟨⟨result, c₁⟩, -, h⟩ := Option.bind_eq_some_iff.1 h
  obtain ⟨⟨u, c₂⟩, -, h⟩ := Option.bind_eq_some_iff.1 h
  change (if c₂.failed = true then (pure .null : ParseM (Json F)) else _) c₂ = some (v, d) at h
  by_cases hfailed : c₂.failed = true
  · rw [if_pos hfailed] at h
    cases h
    rfl
  · rw [if_neg hfailed] at h
    change (if c₂.i = str.length then (pure result : ParseM (Json F)) else _) c₂ = some (v, d) at h
    by_cases hend : c₂.i = str.length
    · rw [if_pos hend] at h
      cases h
      exact absurd hd hfailed
    · rw [if_neg hend] at h
      obtain ⟨⟨ch, c₃⟩, -, h⟩ := Option.bind_eq_some_iff.1 h
      cases h
      rfl

end JsonParser

/-- What `parse` gives back. -/
def JsonReader.outcome {F : Type} : Except Bytes (Json F × Bytes) → Json F × Bytes
  | .ok (v, _) => (v, [])
  | .error err => (.null, err)

/-- `Json::parse` never reads outside of the text, and it gives what the reader gives. -/
theorem Json.parse_eq {F : Type} (lib : DoubleLib F) (str : Bytes) (strategy : JsonParse) :
    Json.parse lib str strategy = some (JsonReader.outcome (JsonReader.document strategy (str.length + 1) lib str)) := by
  have hreads : Reads str 0 (JsonParser.parseDocument str strategy lib) _ := JsonParser.reads_parseDocument lib
  obtain ⟨v, d, hrun, -, hok⟩ := hreads ⟨0, [], false⟩ (Nat.zero_le _) (Nat.zero_le _)
  have hagrees : Agrees str [] (JsonReader.document strategy (str.length + 1) lib str) v d := hok rfl
  unfold Json.parse
  rw [hrun]
  show some (v, d.err) = _
  congr 1
  cases hread : JsonReader.document strategy (str.length + 1) lib str with
  | ok p =>
    rw [hread] at hagrees
    obtain ⟨rfl, -, herr, -⟩ := hagrees
    rw [herr]
    rfl
  | error err =>
    rw [hread] at hagrees
    obtain ⟨hfailed, herr⟩ := hagrees
    rw [herr, JsonParser.parseDocument_failed hrun hfailed]
    rfl

end FortiRdp.Util
