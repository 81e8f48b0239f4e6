/-
JSON texts (`Json`, `JsonParser`): the tree of a text, its printing, and the parser, which keeps a position
in the text and the first error. A character of the text is read through `charAt`, which has no value behind
the terminator; a parser without a value has read there, stepped back in front of the text or run out of fuel.
-/
import Mathlib
import FortiRdp.Run.Cursor
import FortiRdp.Util.StringMap
import FortiRdp.Net.Endpoint

namespace FortiRdp.Util

/-- What the code takes from `double` and from the library: the value of an `int`, `strtod`, `%.17g`,
`isfinite` and `==`. -/
structure DoubleLib (F : Type) where
  ofInt : Int → F
  strtod : Bytes → F
  print : F → Bytes
  isFinite : F → Bool
  eq : F → F → Bool

/-- A value of one of the classes derived from `JsonValue`. The entries of an object are in the order of
`std::map`. -/
inductive Json (F : Type) where
  | null
  | bool (value : Bool)
  | int (value : Int)
  | double (value : F)
  | string (value : Bytes)
  | array (values : List (Json F))
  | object (values : List (Bytes × Json F))

/-- `%d`. -/
def intText (n : Int) : Bytes := if n < 0 then 45 :: Net.Endpoint.decimal n.natAbs else Net.Endpoint.decimal n.natAbs

namespace Json

variable {F : Type}

/-! ## Accessors -/

def isObject : Json F → Bool
  | object _ => true
  | _ => false

def isString : Json F → Bool
  | string _ => true
  | _ => false

/-- `string_value`: empty for any other type. -/
def stringValue : Json F → Bytes
  | string s => s
  | _ => []

/-- `operator[]` with a key: null for any other type and for a key that is not there. -/
def member (key : Bytes) : Json F → Json F
  | object values => ((values.find? fun e => decide (strKey e.1 = strKey key)).map Prod.snd).getD null
  | _ => null

/-- `number_value`. -/
def numberValue (lib : DoubleLib F) : Json F → F
  | int n => lib.ofInt n
  | double x => x
  | _ => lib.ofInt 0

/-! ## Printing -/

/-- A digit of `%x`. -/
def hexChar (n : Nat) : UInt8 := (if n < 10 then 48 + n else 87 + n).toUInt8

/-- A character that is not the first one of a line or paragraph separator. -/
def dumpChar (ch : UInt8) : Bytes :=
  if ch = 92 then ascii "\\\\"
  else if ch = 34 then ascii "\\\""
  else if ch = 8 then ascii "\\b"
  else if ch = 12 then ascii "\\f"
  else if ch = 10 then ascii "\\n"
  else if ch = 13 then ascii "\\r"
  else if ch = 9 then ascii "\\t"
  else if ch ≤ 0x1f then ascii "\\u00" ++ [hexChar (ch.toNat / 16), hexChar (ch.toNat % 16)]
  else [ch]

/-- The characters of a string, the first `skip` of them passed over (`i += 2`). -/
def dumpChars : Nat → Bytes → Bytes
  | _, [] => []
  | skip + 1, _ :: s => dumpChars skip s
  | 0, ch :: s =>
    if ch = 0xe2 ∧ s.take 2 = [0x80, 0xa8] then ascii "\\u2028" ++ dumpChars 2 s
    else if ch = 0xe2 ∧ s.take 2 = [0x80, 0xa9] then ascii "\\u2029" ++ dumpChars 2 s
    else dumpChar ch ++ dumpChars 0 s

def dumpString (value : Bytes) : Bytes := [34] ++ dumpChars 0 value ++ [34]

def dumpDouble (lib : DoubleLib F) (value : F) : Bytes :=
  if lib.isFinite value then lib.print value else ascii "null"

mutual

/-- `dump`. -/
def dump (lib : DoubleLib F) : Json F → Bytes
  | null => ascii "null"
  | bool value => ascii (if value then "true" else "false")
  | int value => intText value
  | double value => dumpDouble lib value
  | string value => dumpString value
  | array values => ascii "[" ++ dumpItems lib true values ++ ascii "]"
  | object values => ascii "\x7b" ++ dumpEntries lib true values ++ ascii "\x7d"

def dumpItems (lib : DoubleLib F) (first : Bool) : List (Json F) → Bytes
  | [] => []
  | value :: values => (if first then [] else ascii ", ") ++ value.dump lib ++ dumpItems lib false values

def dumpEntries (lib : DoubleLib F) (first : Bool) : List (Bytes × Json F) → Bytes
  | [] => []
  | (key, value) :: values =>
    (if first then [] else ascii ", ") ++ dumpString key ++ ascii ": " ++ value.dump lib ++ dumpEntries lib false values

end

/-! ## Comparison -/

mutual

/-- `operator==`, but for the comparison of the pointers that it begins with. -/
def equals (lib : DoubleLib F) : Json F → Json F → Bool
  | null, null => true
  | bool a, bool b => a == b
  | int a, int b => lib.eq (lib.ofInt a) (lib.ofInt b)
  | int a, double y => lib.eq (lib.ofInt a) y
  | double x, int b => lib.eq x (lib.ofInt b)
  | double x, double y => lib.eq x y
  | string a, string b => a == b
  | array a, array b => equalItems lib a b
  | object a, object b => equalEntries lib a b
  | _, _ => false

def equalItems (lib : DoubleLib F) : List (Json F) → List (Json F) → Bool
  | [], [] => true
  | a :: as, b :: bs => a.equals lib b && equalItems lib as bs
  | _, _ => false

def equalEntries (lib : DoubleLib F) : List (Bytes × Json F) → List (Bytes × Json F) → Bool
  | [], [] => true
  | (k, a) :: as, (l, b) :: bs => k == l && a.equals lib b && equalEntries lib as bs
  | _, _ => false

end

end Json

/-! ## The parser -/

inductive JsonParse where
  | standard
  | comments
  deriving DecidableEq

namespace JsonParser

open Run

abbrev ParseM (α : Type) := Scan Bytes α

variable {F : Type} (str : Bytes) (strategy : JsonParse)

def maxDepth : Nat := 200

/-- `esc`: a character in an error message, with its value as a signed number. -/
def esc (c : UInt8) : Bytes :=
  let value : Int := if c < 0x80 then c.toNat else c.toNat - 256
  if 0x20 ≤ c ∧ c ≤ 0x7f then ascii "'" ++ [c] ++ ascii "' (" ++ intText value ++ ascii ")"
  else ascii "(" ++ intText value ++ ascii ")"

def isWhite (c : UInt8) : Bool := c == 32 || c == 13 || c == 10 || c == 9

def consumeWhitespace : ParseM Unit := Scan.skipWhile str isWhite

/-- The loop to the closing tokens of a comment, from the check of the position on. -/
def closeComment : Nat → ParseM Bool
  | 0 => Scan.fail [] false
  | n + 1 => do
    -- `i > str.size() - 2`
    if str.length < (← get).i + 2 then
      Scan.fail (ascii "unexpected end of input inside multi-line comment") false
    else do
      let ch ← Scan.cur str
      let ch' ← Scan.ahead str
      if ch = 42 ∧ ch' = 47 then do
        Scan.next 2
        pure true
      else do
        Scan.next 1
        closeComment n

/-- `consume_comment`. -/
def consumeComment : ParseM Bool := do
  let ch ← Scan.cur str
  if ch == 47 then do
    Scan.next 1
    if (← get).i = str.length then
      Scan.fail (ascii "unexpected end of input after start of comment") false
    else do
      let ch ← Scan.cur str
      if ch == 47 then do
        Scan.next 1
        Scan.skipWhile str (· != 10)
        pure true
      else if ch == 42 then do
        Scan.next 1
        closeComment str (str.length + 1)
      else Scan.fail (ascii "malformed comment") false
  else pure false

/-- The loop of `consume_garbage` over comments. -/
def consumeComments : Nat → ParseM Unit
  | 0 => Scan.fail [] ()
  | n + 1 => do
    let commentFound ← consumeComment str
    if (← get).failed then pure ()
    else do
      consumeWhitespace str
      if commentFound then consumeComments n
      else pure ()

def consumeGarbage : ParseM Unit := do
  consumeWhitespace str
  if strategy = .comments then consumeComments str (str.length + 1) else pure ()

def getNextToken : ParseM UInt8 := do
  consumeGarbage str strategy
  if (← get).failed then pure 0
  else if (← get).i = str.length then Scan.fail (ascii "unexpected end of input") 0
  else do
    let ch ← Scan.cur str
    Scan.next 1
    pure ch

/-! ### Strings -/

def encodeUtf8 (pt : Nat) : Bytes :=
  if pt < 0x80 then [pt.toUInt8]
  else if pt < 0x800 then [((pt >>> 6) ||| 0xc0).toUInt8, ((pt &&& 0x3f) ||| 0x80).toUInt8]
  else if pt < 0x10000 then
    [((pt >>> 12) ||| 0xe0).toUInt8, (((pt >>> 6) &&& 0x3f) ||| 0x80).toUInt8, ((pt &&& 0x3f) ||| 0x80).toUInt8]
  else
    [((pt >>> 18) ||| 0xf0).toUInt8, (((pt >>> 12) &&& 0x3f) ||| 0x80).toUInt8,
      (((pt >>> 6) &&& 0x3f) ||| 0x80).toUInt8, ((pt &&& 0x3f) ||| 0x80).toUInt8]

/-- The last escaped code point, which may still be the first half of a pair, is written. -/
def flush (last : Option Nat) : Bytes := (last.map encodeUtf8).getD []

def isHex (c : UInt8) : Bool := (97 ≤ c && c ≤ 102) || (65 ≤ c && c ≤ 70) || (48 ≤ c && c ≤ 57)

/-- The character of an escape of two characters. -/
def unescape (ch : UInt8) : Option UInt8 :=
  if ch = 98 then some 8
  else if ch = 102 then some 12
  else if ch = 110 then some 10
  else if ch = 114 then some 13
  else if ch = 116 then some 9
  else if ch = 34 ∨ ch = 92 ∨ ch = 47 then some ch
  else none

def isLead (pt : Nat) : Bool := 0xd800 ≤ pt && pt ≤ 0xdbff

def isTrail (pt : Nat) : Bool := 0xdc00 ≤ pt && pt ≤ 0xdfff

/-- The code point of a pair of surrogates. -/
def astral (lead trail : Nat) : Nat := (((lead - 0xd800) <<< 10) ||| (trail - 0xdc00)) + 0x10000

/-- An escaped code point: a trail surrogate completes the lead surrogate before it. -/
def addCodepoint (last : Option Nat) (codepoint : Nat) : Bytes × Option Nat :=
  match last with
  | some lead =>
    if isLead lead && isTrail codepoint then (encodeUtf8 (astral lead codepoint), none)
    else (encodeUtf8 lead, some codepoint)
  | none => ([], some codepoint)

/-- The loop of `parse_string`; `last` is `last_escaped_codepoint`, `none` for -1. -/
def parseString : Nat → Bytes → Option Nat → ParseM Bytes
  | 0, _, _ => Scan.fail [] []
  | n + 1, out, last => do
    if (← get).i = str.length then Scan.fail (ascii "unexpected end of input in string") []
    else do
      let ch ← Scan.cur str
      Scan.next 1
      if ch = 34 then pure (out ++ flush last)
      else if ch ≤ 0x1f then Scan.fail (ascii "unescaped " ++ esc ch ++ ascii " in string") []
      else if ch ≠ 92 then parseString n (out ++ flush last ++ [ch]) none
      else if (← get).i = str.length then Scan.fail (ascii "unexpected end of input in string") []
      else do
        let ch ← Scan.cur str
        Scan.next 1
        if ch = 117 then do
          let esc := (str.drop (← get).i).take 4
          if esc.length < 4 ∨ esc.any (fun c => !isHex c) then Scan.fail (ascii "bad \\u escape: " ++ esc) []
          else do
            Scan.next 4
            let added := addCodepoint last (readDigits 16 0 esc)
            parseString n (out ++ added.1) added.2
        else match unescape ch with
          | some c => parseString n (out ++ flush last ++ [c]) none
          | none => Scan.fail (ascii "invalid escape character " ++ esc ch) []

/-! ### Numbers -/

/-- `atoi`, for a number that an `int` can hold. -/
def atoi (s : Bytes) : Int :=
  let (neg, s) := readSign (s.dropWhile isspace)
  let n : Int := readDigits 10 0 s
  if neg then -n else n

/-- `if (str[i] is one of these) i++`. -/
def skipIf (p : UInt8 → Bool) (rest : ParseM (Json F)) : ParseM (Json F) := do
  let ch ← Scan.cur str
  if p ch then do
    Scan.next 1
    rest
  else rest

/-- At least one digit. -/
def someDigits (message : Bytes) (rest : ParseM (Json F)) : ParseM (Json F) := do
  let ch ← Scan.cur str
  if isdigit ch then do
    Scan.skipWhile str isdigit
    rest
  else Scan.fail message .null

/-- The integer part, and what comes after it. -/
def integerPart (rest : ParseM (Json F)) : ParseM (Json F) := do
  let ch ← Scan.cur str
  if ch == 48 then do
    Scan.next 1
    let ch ← Scan.cur str
    if isdigit ch then Scan.fail (ascii "leading 0s not permitted in numbers") .null else rest
  else if 49 ≤ ch && ch ≤ 57 then do
    Scan.next 1
    Scan.skipWhile str isdigit
    rest
  else Scan.fail (ascii "invalid " ++ esc ch ++ ascii " in number") .null

/-- The decimal part, if there is one. -/
def decimalPart (rest : ParseM (Json F)) : ParseM (Json F) := do
  let ch ← Scan.cur str
  if ch == 46 then do
    Scan.next 1
    someDigits str (ascii "at least one digit required in fractional part") rest
  else rest

/-- The exponent part, if there is one. -/
def exponentPart (rest : ParseM (Json F)) : ParseM (Json F) := do
  let ch ← Scan.cur str
  if ch == 101 || ch == 69 then do
    Scan.next 1
    skipIf str (fun c => c == 43 || c == 45) (someDigits str (ascii "at least one digit required in exponent") rest)
  else rest

/-- A number without decimal part and exponent that is short enough is an `int`: `digits10` is 9. -/
def parseNumber (lib : DoubleLib F) : ParseM (Json F) := do
  let startPos := (← get).i
  skipIf str (· == 45) (integerPart str (do
    let ch ← Scan.cur str
    if ch ≠ 46 ∧ ch ≠ 101 ∧ ch ≠ 69 ∧ (← get).i - startPos ≤ 9 then pure (.int (atoi (str.drop startPos)))
    else decimalPart str (exponentPart str (pure (.double (lib.strtod (str.drop startPos)))))))

/-! ### Values -/

/-- `expect`. -/
def expect (expected : Bytes) (res : Json F) : ParseM (Json F) := do
  Scan.back
  let got := (str.drop (← get).i).take expected.length
  if got = expected then do
    Scan.next expected.length
    pure res
  else Scan.fail (ascii "parse error: expected " ++ expected ++ ascii ", got " ++ got) .null

/-- The loop over the members of an object, from the first character of a member on. -/
def objectLoop (value : ParseM (Json F)) : Nat → UInt8 → Run.SortedMap (Json F) strKey → ParseM (Json F)
  | 0, _, _ => Scan.fail [] .null
  | n + 1, ch, data => do
    if ch ≠ 34 then Scan.fail (ascii "expected '\"' in object, got " ++ esc ch) .null
    else do
      let key ← parseString str (str.length + 1) [] none
      if (← get).failed then pure .null
      else do
        let ch ← getNextToken str strategy
        if ch ≠ 58 then Scan.fail (ascii "expected ':' in object, got " ++ esc ch) .null
        else do
          let v ← value
          let data := data.set key v
          if (← get).failed then pure .null
          else do
            let ch ← getNextToken str strategy
            if ch = 125 then pure (.object data.entries)
            else if ch ≠ 44 then Scan.fail (ascii "expected ',' in object, got " ++ esc ch) .null
            else do
              let ch ← getNextToken str strategy
              objectLoop value n ch data

/-- The loop over the items of an array, behind the first character of an item. -/
def arrayLoop (value : ParseM (Json F)) : Nat → List (Json F) → ParseM (Json F)
  | 0, _ => Scan.fail [] .null
  | n + 1, data => do
    Scan.back
    let v ← value
    let data := data ++ [v]
    if (← get).failed then pure .null
    else do
      let ch ← getNextToken str strategy
      if ch = 93 then pure (.array data)
      else if ch ≠ 44 then Scan.fail (ascii "expected ',' in list, got " ++ esc ch) .null
      else do
        let _ ← getNextToken str strategy
        arrayLoop value n data

/-- `parse_json` where `room` levels of nesting are left, of `maxDepth + 1`. -/
def parseJson (lib : DoubleLib F) : Nat → ParseM (Json F)
  | 0 => Scan.fail (ascii "exceeded maximum nesting depth") .null
  | room + 1 => do
    let ch ← getNextToken str strategy
    if (← get).failed then pure .null
    else if ch = 45 ∨ isdigit ch then do
      Scan.back
      parseNumber str lib
    else if ch = 116 then expect str (ascii "true") (.bool true)
    else if ch = 102 then expect str (ascii "false") (.bool false)
    else if ch = 110 then expect str (ascii "null") .null
    else if ch = 34 then do
      let s ← parseString str (str.length + 1) [] none
      pure (.string s)
    else if ch = 123 then do
      let ch ← getNextToken str strategy
      if ch = 125 then pure (.object [])
      else objectLoop str strategy (parseJson lib room) (str.length + 1) ch .empty
    else if ch = 91 then do
      let ch ← getNextToken str strategy
      if ch = 93 then pure (.array [])
      else arrayLoop str strategy (parseJson lib room) (str.length + 1) []
    else Scan.fail (ascii "expected value, got " ++ esc ch) .null

/-- `parse`, without the test for trailing text. -/
def parseDocument (lib : DoubleLib F) : ParseM (Json F) := do
  let result ← parseJson str strategy lib (maxDepth + 1)
  consumeGarbage str strategy
  if (← get).failed then pure .null
  else if (← get).i = str.length then pure result
  else do
    let ch ← Scan.cur str
    Scan.fail (ascii "unexpected trailing " ++ esc ch) .null

end JsonParser

/-- `Json::parse`: the value and the error, which is empty when there was none. -/
def Json.parse {F : Type} (lib : DoubleLib F) (str : Bytes) (strategy : JsonParse) : Option (Json F × Bytes) :=
  (JsonParser.parseDocument str strategy lib ⟨0, [], false⟩).map fun r => (r.1, r.2.err)

end FortiRdp.Util
