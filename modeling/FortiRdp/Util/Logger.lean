/-
The logger: what it is given is a format, and the text that `vsnprintf` makes of it goes to the writers. The conversions
of the C library are parameters; one that finds no argument reads what was never passed.
-/
import FortiRdp.Util.StringFormat

namespace FortiRdp.Util

/-- The conversions of the C library: of a specification and the arguments that are left, the text and the arguments
behind it. Without an argument its behaviour is not defined. -/
structure Conversions (Arg : Type) where
  convert : Bytes → List Arg → Option (Bytes × List Arg)
  missing : ∀ spec, convert spec [] = none

/-- The flags, the width, the precision and the length of a conversion. -/
def specChars : Bytes := ascii "-+ #0123456789.*hljztLIw"

/-- The text of a format, in or out of a conversion specification; `none` when it is not defined. -/
def render {Arg : Type} (lib : Conversions Arg) : Option Bytes → Bytes → List Arg → Option Bytes
  | none, [], _ => some []
  | some _, [], _ => none
  | none, c :: fmt, args =>
    if c = 37 then render lib (some []) fmt args else (render lib none fmt args).map (c :: ·)
  | some spec, c :: fmt, args =>
    if c = 37 ∧ spec = [] then (render lib none fmt args).map (37 :: ·)
    else if c ∈ specChars then render lib (some (spec ++ [c])) fmt args
    else do
      let (text, args) ← lib.convert (spec ++ [c]) args
      let rest ← render lib none fmt args
      pure (text ++ rest)

/-- What `vsnprintf` renders: a text that is too long for an `int` is an error. -/
def rendered {Arg : Type} (lib : Conversions Arg) (fmt : Bytes) (args : List Arg) : Option (Option RenderedText) :=
  (render lib none (cStr fmt) args).map fun text => if h : text.length ≤ intMax then some ⟨text, h⟩ else none

inductive LogLevel
  | trace | debug | info | error
  deriving DecidableEq, Repr

def LogLevel.toNat : LogLevel → Nat
  | trace => 1
  | debug => 2
  | info => 3
  | error => 4

/-- Why a call does not come back: what it does is not defined, or `string_format` throws. -/
inductive LogFault
  | undefined | lengthError
  deriving DecidableEq, Repr

/-- The logger, with what its writers have got. -/
structure Logger where
  level : LogLevel
  written : List (LogLevel × Bytes)
  deriving DecidableEq, Repr

namespace Logger

variable {Arg : Type} (lib : Conversions Arg)

def isEnabled (l : Logger) (level : LogLevel) : Bool := decide (l.level.toNat ≤ level.toNat)

/-- `write` of a text. -/
def writeText (l : Logger) (level : LogLevel) (text : Bytes) : Logger := { l with written := l.written ++ [(level, text)] }

/-- `write` of a format. -/
def write (l : Logger) (level : LogLevel) (fmt : Bytes) (args : List Arg) : Except LogFault Logger :=
  match rendered lib fmt args with
  | none => .error .undefined
  | some r =>
    match stringFormat r 56 with
    | some (.text s) => .ok (l.writeText level s)
    | _ => .error .lengthError

/-- `debug`, `info` and the others, for the levels that can be turned off. -/
def log (l : Logger) (level : LogLevel) (fmt : Bytes) (args : List Arg) : Except LogFault Logger :=
  if l.isEnabled level then l.write lib level fmt args else .ok l

def debug (l : Logger) (fmt : Bytes) (args : List Arg) : Except LogFault Logger := l.log lib .debug fmt args

def info (l : Logger) (fmt : Bytes) (args : List Arg) : Except LogFault Logger := l.log lib .info fmt args

/-- What the logger is for: the text goes to the writers as it is, when the level is on. -/
def logText (l : Logger) (level : LogLevel) (text : Bytes) : Logger :=
  if l.isEnabled level then l.writeText level text else l

end Logger

/-! ## A text as a format -/

section

variable {Arg : Type} {lib : Conversions Arg}

/-- Without arguments a text is not made longer, and a percent sign makes it shorter or is not defined. -/
theorem length_render : ∀ (fmt : Bytes) (spec : Option Bytes) {text : Bytes}, render lib spec fmt [] = some text →
    text.length ≤ fmt.length ∧ (spec = none → 37 ∈ fmt → text.length < fmt.length)
  | [], none, text, h => by
    cases h
    exact ⟨Nat.le_refl 0, fun _ hin => absurd hin List.not_mem_nil⟩
  | [], some spec, text, h => by cases h
  | c :: fmt, none, text, h => by
    rw [render] at h
    by_cases hpercent : c = 37
    · rw [if_pos hpercent] at h
      have ih := length_render fmt (some []) h
      rw [List.length_cons]
      exact ⟨by omega, fun _ _ => by omega⟩
    · rw [if_neg hpercent] at h
      obtain ⟨rest, hrest, rfl⟩ := Option.map_eq_some_iff.1 h
      have ih := length_render fmt none hrest
      rw [List.length_cons, List.length_cons]
      refine ⟨by omega, fun _ hin => ?_⟩
      have hlt := ih.2 rfl ((List.mem_cons.1 hin).resolve_left (Ne.symm hpercent))
      omega
  | c :: fmt, some spec, text, h => by
    rw [render] at h
    refine ⟨?_, nofun⟩
    rw [List.length_cons]
    split at h
    · obtain ⟨rest, hrest, rfl⟩ := Option.map_eq_some_iff.1 h
      have ih := length_render fmt none hrest
      rw [List.length_cons]
      omega
    · split at h
      · have ih := length_render fmt (some (spec ++ [c])) h
        omega
      · rw [lib.missing] at h
        cases h

theorem render_plain : ∀ {fmt : Bytes}, 37 ∉ fmt → render lib none fmt [] = some fmt
  | [], _ => rfl
  | c :: fmt, h => by
    have hpercent : c ≠ 37 := fun heq => h (heq ▸ List.mem_cons_self ..)
    rw [render, if_neg hpercent, render_plain fun hin => h (List.mem_cons_of_mem _ hin)]
    rfl

/-- What `write` makes of a rendered text: the part before its first NUL, when there is a text at all. -/
theorem Logger.write_rendered (l : Logger) (level : LogLevel) {fmt text t : Bytes} {args : List Arg}
    (hrender : render lib none (cStr fmt) args = some t) (hfits : t.length ≤ intMax) :
    l.write lib level fmt args = .ok (l.writeText level text) ↔ t ≠ [] ∧ text = cStr t := by
  have hrendered : rendered lib fmt args = some (some ⟨t, hfits⟩) := by
    unfold rendered
    rw [hrender, Option.map_some, dif_pos hfits]
  rw [← stringFormat_text_iff ⟨t, hfits⟩]
  unfold Logger.write
  rw [hrendered]
  dsimp only
  constructor
  · intro h
    split at h
    · have hwritten := congrArg Logger.written (Except.ok.inj h)
      obtain rfl := congrArg Prod.snd (List.singleton_inj.1 (List.append_cancel_left hwritten))
      assumption
    · cases h
  · intro h
    rw [h]

/-- A text that is given as the format, without arguments, is written as it is exactly when it has no percent sign and is
not empty. -/
theorem Logger.write_iff (l : Logger) (level : LogLevel) {text : Bytes} (hnul : 0 ∉ text) (hfits : text.length ≤ intMax) :
    l.write lib level text [] = .ok (l.writeText level text) ↔ text ≠ [] ∧ 37 ∉ text := by
  cases hrender : render lib none text [] with
  | none =>
    have hnone : rendered lib text [] = none := by
      unfold rendered
      rw [cStr_eq hnul, hrender]
      rfl
    unfold Logger.write
    rw [hnone]
    refine iff_of_false nofun fun h => ?_
    rw [render_plain h.2] at hrender
    cases hrender
  | some t =>
    obtain ⟨hle, hlt⟩ := length_render text none hrender
    rw [l.write_rendered level ((congrArg (render lib none · []) (cStr_eq hnul)).trans hrender) (hle.trans hfits)]
    constructor
    · rintro ⟨hne, htext⟩
      -- what is written is not longer than the text that was rendered
      have hshort : (cStr t).length ≤ t.length := (List.takeWhile_sublist _).length_le
      rw [← htext] at hshort
      constructor
      · rintro rfl
        cases hrender
        exact hne rfl
      · intro hin
        have := hlt rfl hin
        omega
    · rintro ⟨hne, hpercent⟩
      rw [render_plain hpercent] at hrender
      cases hrender
      exact ⟨hne, (cStr_eq hnul).symm⟩

namespace Logger

theorem level_logText (l : Logger) (level : LogLevel) (text : Bytes) : (l.logText level text).level = l.level := by
  unfold logText
  split <;> rfl

theorem isEnabled_logText (l : Logger) (level other : LogLevel) (text : Bytes) :
    (l.logText level text).isEnabled other = l.isEnabled other := by
  unfold isEnabled
  rw [level_logText]

/-- A call that comes back has written one text. -/
theorem log_record {l l' : Logger} {level : LogLevel} {fmt : Bytes} {args : List Arg} (h : l.log lib level fmt args = .ok l') :
    ∃ text, l' = l.logText level text := by
  unfold log at h
  unfold logText
  by_cases hon : l.isEnabled level
  · rw [if_pos hon] at h
    unfold write at h
    split at h
    · cases h
    · split at h
      · exact ⟨_, (Except.ok.inj h).symm.trans (if_pos hon).symm⟩
      · cases h
  · rw [if_neg hon] at h
    exact ⟨[], (Except.ok.inj h).symm.trans (if_neg hon).symm⟩

/-- What was written before the last text can be read back. -/
theorem logText_cancel {l m : Logger} {level : LogLevel} {s t : Bytes} (hlevel : l.level = m.level)
    (h : l.logText level s = m.logText level t) : l = m := by
  have hon : l.isEnabled level = m.isEnabled level := by
    unfold isEnabled
    rw [hlevel]
  unfold logText at h
  rw [hon] at h
  split at h
  · obtain ⟨_, lw⟩ := l
    obtain ⟨_, mw⟩ := m
    obtain rfl := hlevel
    have hwritten : lw = mw := List.append_inj_left' (congrArg written h) rfl
    rw [hwritten]
  · exact h

/-- `debug` or `info` with a text as the format. -/
theorem log_iff (l : Logger) (level : LogLevel) {text : Bytes} (hnul : 0 ∉ text) (hfits : text.length ≤ intMax) :
    l.log lib level text [] = .ok (l.logText level text) ↔ (l.isEnabled level → text ≠ [] ∧ 37 ∉ text) := by
  unfold log logText
  by_cases hon : l.isEnabled level
  · rw [if_pos hon, if_pos hon, l.write_iff level hnul hfits]
    exact ⟨fun h _ => h, fun h => h hon⟩
  · rw [if_neg hon, if_neg hon]
    exact iff_of_true rfl fun h => absurd h hon

end Logger

end

end FortiRdp.Util
