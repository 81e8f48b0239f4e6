/-
The parameters of the program (`CmdlineParams`): the options of the command line set them one after the other, then
they are checked against each other, and the operands are the addresses of the firewall and of the host.
-/
import FortiRdp.Ui.UserCrt
import FortiRdp.Util.Getopt

namespace FortiRdp.Ui

open Util Run Run.Options

@[ext] structure ScreenSize where
  height : Int
  width : Int
  deriving DecidableEq, Repr

/-- `max_height`, which is `max_width` as well. -/
def ScreenSize.maxSize : Int := 32766

def ScreenSize.isValid (s : ScreenSize) : Bool :=
  0 ≤ s.height && s.height ≤ maxSize && 0 ≤ s.width && s.width ≤ maxSize

@[ext] structure CmdlineParams where
  authMethod : AuthMethod
  username : WString
  fwAddress : WString
  hostAddress : WString
  caCertFilename : WString
  usCertFilename : WString
  appName : WString
  rdpFilename : WString
  screenSize : ScreenSize
  localPort : UInt16
  fullScreen : Bool
  adminConsole : Bool
  multiClients : Bool
  spanMode : Bool
  multimonMode : Bool
  clearLastuser : Bool
  tcpNodelay : Bool
  verbose : Bool
  trace : Bool
  deriving DecidableEq, Repr

/-- The options that the `switch` knows. -/
inductive CmdOption where
  | usage | username | fullScreen | adminConsole | port | caCert | verbose | trace | app | spanMode | multimonMode
  | rdpFile | clearLastuser | multiClients | tcpNodelay | width | height | usCert | auth
  deriving DecidableEq, Repr

namespace CmdOption

def all : List CmdOption := [usage, username, fullScreen, adminConsole, port, caCert, verbose, trace, app, spanMode,
  multimonMode, rdpFile, clearLastuser, multiClients, tcpNodelay, width, height, usCert, auth]

def letter : CmdOption → Char
  | usage => '?'
  | username => 'u'
  | fullScreen => 'f'
  | adminConsole => 'a'
  | port => 'p'
  | caCert => 'c'
  | verbose => 'v'
  | trace => 't'
  | app => 'x'
  | spanMode => 's'
  | multimonMode => 'm'
  | rdpFile => 'r'
  | clearLastuser => 'C'
  | multiClients => 'M'
  | tcpNodelay => 'n'
  | width => 'w'
  | height => 'h'
  | usCert => 'U'
  | auth => 'A'

def ofLetter (c : UInt16) : Option CmdOption := all.find? fun o => wchar o.letter == c

theorem ofLetter_eq_some {c : UInt16} {o : CmdOption} : ofLetter c = some o ↔ c = wchar o.letter := by
  constructor
  · intro h
    exact (beq_iff_eq.1 (List.find?_some (p := fun o : CmdOption => wchar o.letter == c) h)).symm
  · rintro rfl
    cases o <;> rfl

theorem letter_inj {o o' : CmdOption} (h : wchar o.letter = wchar o'.letter) : o = o' :=
  Option.some.inj ((ofLetter_eq_some.2 rfl).symm.trans (ofLetter_eq_some.2 h))

end CmdOption

/-! ## Wide strings -/

def trimrightW (str : WString) : WString := str.rdropWhile Argv.isSep

/-- `trimleft`: there is no position behind the blanks of a text that has nothing else. -/
def trimleftW (str : WString) : Except Exn WString :=
  if str = [] then .ok str
  else if str.all Argv.isSep then .error .outOfRange
  else .ok (str.dropWhile Argv.isSep)

def trimW (str : WString) : Except Exn WString := if str = [] then .ok str else trimleftW (trimrightW str)

/-- `str2i` of a wide string, which is converted first. -/
def str2iW (wstr2str : WString → Bytes) (str : WString) : Option Int := str2i (wstr2str str)

namespace CmdlineParams

def isMstsc (params : CmdlineParams) : Bool := params.appName == wide "mstsc"

/-- The parameters before the first option. -/
def start : CmdlineParams where
  authMethod := .default
  username := []
  fwAddress := []
  hostAddress := []
  caCertFilename := []
  usCertFilename := []
  appName := wide "mstsc"
  rdpFilename := []
  screenSize := ⟨0, 0⟩
  localPort := 0
  fullScreen := false
  adminConsole := false
  multiClients := false
  spanMode := false
  multimonMode := false
  clearLastuser := false
  tcpNodelay := false
  verbose := false
  trace := false

def optstring : WString := wide "?u:famvc:tx:p:sr:lCMnw:h:U:A:"

section Initialize

variable (wstr2str : WString → Bytes)

/-- The `switch` over the options: `none` when the option is refused. `optarg` is the value of an option that has one. -/
def setOption (s : CmdlineParams × Int) (c : UInt16) (optarg : WString) : Except Exn (Option (CmdlineParams × Int)) :=
  let (params, port) := s
  match CmdOption.ofLetter c with
  | some .usage => pure none
  | some .username => pure (some ({ params with username := optarg }, port))
  | some .fullScreen => pure (some ({ params with fullScreen := true }, port))
  | some .adminConsole => pure (some ({ params with adminConsole := true }, port))
  | some .port => pure (some (params, (str2iW wstr2str optarg).getD (-1)))
  | some .caCert => do pure (some ({ params with caCertFilename := ← trimW optarg }, port))
  | some .verbose => pure (some ({ params with verbose := true }, port))
  | some .trace => pure (some ({ params with trace := true }, port))
  | some .app => do pure (some ({ params with appName := ← trimW optarg }, port))
  | some .spanMode => pure (some ({ params with spanMode := true }, port))
  | some .multimonMode => pure (some ({ params with multimonMode := true }, port))
  | some .rdpFile => do pure (some ({ params with rdpFilename := ← trimW optarg }, port))
  | some .clearLastuser => pure (some ({ params with clearLastuser := true }, port))
  | some .multiClients => pure (some ({ params with multiClients := true }, port))
  | some .tcpNodelay => pure (some ({ params with tcpNodelay := true }, port))
  | some .width =>
    pure (some ({ params with screenSize := { params.screenSize with width := (str2iW wstr2str optarg).getD (-1) } }, port))
  | some .height =>
    pure (some ({ params with screenSize := { params.screenSize with height := (str2iW wstr2str optarg).getD (-1) } }, port))
  | some .usCert => do pure (some ({ params with usCertFilename := ← trimW optarg }, port))
  | some .auth =>
    if optarg = wide "basic" then pure (some ({ params with authMethod := .basic }, port))
    else if optarg = wide "cert" then pure (some ({ params with authMethod := .certificate }, port))
    else if optarg = wide "saml" then pure (some ({ params with authMethod := .saml }, port))
    else pure none
  | none => pure (some (params, port))

/-- A round of the loop over the options. -/
def optionStep (argv : List WString) (s : CmdlineParams × Int) :
    GetoptM ((CmdlineParams × Int) ⊕ Option (CmdlineParams × Int)) := do
  match ← Getopt.getopt argv optstring with
  | (none, _) => pure (.inr (some s))
  | (some c, optarg) => do
    match ← ofExcept (setOption wstr2str s c (optarg.getD [])) with
    | none => pure (.inr none)
    | some s => pure (.inl s)

/-- The check of the authentication method. -/
def authMethodValid (params : CmdlineParams) : Bool :=
  match params.authMethod with
  | .default => params.usCertFilename.length == 0
  | .basic => params.usCertFilename.length == 0
  | .saml => params.username.length == 0 && params.usCertFilename.length == 0
  | .certificate => params.username.length == 0 && decide (0 < params.usCertFilename.length)

/-- The checks between the options and the operands. -/
def checkParams (params : CmdlineParams) (port : Int) : Option CmdlineParams :=
  if params.trace && !params.verbose then none
  else if (params.adminConsole || params.fullScreen || params.spanMode || params.multimonMode ||
    !params.rdpFilename.isEmpty) && !params.isMstsc then none
  else if (params.screenSize.height != 0 || params.screenSize.width != 0) && !params.isMstsc then none
  else if !params.screenSize.isValid then none
  else if 0 ≤ port && port ≤ 65535 then
    let params := { params with localPort := port.toNat.toUInt16 }
    if params.authMethodValid then some params else none
  else none

/-- The operands: `i` of them were read before. -/
def readOperands : Nat → List WString → CmdlineParams → Except Exn (Option CmdlineParams)
  | _, [], params => pure (some params)
  | 0, operand :: operands, params => do readOperands 1 operands { params with fwAddress := ← trimW operand }
  | 1, operand :: operands, params => do readOperands 2 operands { params with hostAddress := ← trimW operand }
  | _, _ :: _, _ => pure none

/-- The last step: a connection of the remote desktop never delays. -/
def setNodelay (params : CmdlineParams) : CmdlineParams :=
  if params.isMstsc then { params with tcpNodelay := true } else params

/-- The characters of a command line, which bound the calls of `getopt`. -/
def size (argv : List WString) : Nat := (argv.map fun w => w.length + 1).sum

/-- `initialize`: `none` stands for `false`. -/
def initializeArgs (argv : List WString) : GetoptM (Option CmdlineParams) := do
  match ← Run.iterate .exhausted (optionStep wstr2str argv) (size argv + 1) (start, 0) with
  | none => pure none
  | some (params, port) =>
    match checkParams params port with
    | none => pure none
    | some params =>
      pure ((← ofExcept (readOperands 0 (argv.drop (← get).optind) params)).map setNodelay)

end Initialize

/-! ## What the options say -/

/-- The text without the blanks around it. -/
def trimmedW (str : WString) : WString := (str.rdropWhile Argv.isSep).dropWhile Argv.isSep

theorem trimW_eq (str : WString) : trimW str = .ok (trimmedW str) := by
  unfold trimW trimmedW trimrightW trimleftW
  by_cases hstr : str = []
  · rw [if_pos hstr, hstr]
    rfl
  rw [if_neg hstr]
  by_cases hright : str.rdropWhile Argv.isSep = []
  · rw [if_pos hright, hright]
    rfl
  rw [if_neg hright, if_neg]
  intro hall
  have hlast := List.rdropWhile_last_not Argv.isSep str hright
  exact hlast (List.all_eq_true.1 hall _ (List.getLast_mem hright))

/-- The method of authentication that a value names. -/
def authMethodOf (v : WString) : Option AuthMethod :=
  if v = wide "basic" then some .basic
  else if v = wide "cert" then some .certificate
  else if v = wide "saml" then some .saml
  else none

section Described

variable (wstr2str : WString → Bytes) (opts : List (UInt16 × Option WString))

/-- The option is given. -/
def given (o : CmdOption) : Bool := (last (wchar o.letter) opts).isSome

/-- The value of an option, where it is given last. -/
def lastValue (o : CmdOption) : Option WString := (last (wchar o.letter) opts).map (·.getD [])

/-- The number of an option: 0 when it is not given, and -1 when its last value is no number. -/
def lastNumber (o : CmdOption) : Int := ((lastValue opts o).map fun v => (str2iW wstr2str v).getD (-1)).getD 0

/-- The parameters that the options describe, in whatever order they stand. -/
def described : CmdlineParams where
  authMethod := ((lastValue opts .auth).bind authMethodOf).getD .default
  username := (lastValue opts .username).getD []
  fwAddress := []
  hostAddress := []
  caCertFilename := ((lastValue opts .caCert).map trimmedW).getD []
  usCertFilename := ((lastValue opts .usCert).map trimmedW).getD []
  appName := ((lastValue opts .app).map trimmedW).getD (wide "mstsc")
  rdpFilename := ((lastValue opts .rdpFile).map trimmedW).getD []
  screenSize := ⟨lastNumber wstr2str opts .height, lastNumber wstr2str opts .width⟩
  localPort := 0
  fullScreen := given opts .fullScreen
  adminConsole := given opts .adminConsole
  multiClients := given opts .multiClients
  spanMode := given opts .spanMode
  multimonMode := given opts .multimonMode
  clearLastuser := given opts .clearLastuser
  tcpNodelay := given opts .tcpNodelay
  verbose := given opts .verbose
  trace := given opts .trace

end Described

/-- What an option that is not refused sets. -/
def apply (wstr2str : WString → Bytes) (s : CmdlineParams × Int) (o : UInt16 × Option WString) : CmdlineParams × Int :=
  match setOption wstr2str s o.1 (o.2.getD []) with
  | .ok (some s') => s'
  | _ => s

/-- An option that is refused. -/
def Refused (o : UInt16 × Option WString) : Prop :=
  o.1 = wchar CmdOption.usage.letter ∨ o.1 = wchar CmdOption.auth.letter ∧ authMethodOf (o.2.getD []) = none

theorem not_refused {o : CmdOption} (v : Option WString) (husage : o ≠ .usage) (hauth : o ≠ .auth) :
    ¬ Refused (wchar o.letter, v) := by
  rintro (h | ⟨h, -⟩)
  · exact husage (CmdOption.letter_inj h)
  · exact hauth (CmdOption.letter_inj h)

theorem setOption_auth (wstr2str : WString → Bytes) (s : CmdlineParams × Int) (v : WString) :
    setOption wstr2str s (wchar CmdOption.auth.letter) v =
      .ok ((authMethodOf v).map fun m => ({ s.1 with authMethod := m }, s.2)) := by
  have hof : CmdOption.ofLetter (wchar CmdOption.auth.letter) = some .auth := CmdOption.ofLetter_eq_some.2 rfl
  unfold setOption authMethodOf
  rw [hof]
  dsimp only
  split
  · rfl
  split
  · rfl
  split
  · rfl
  · rfl

theorem setOption_eq (wstr2str : WString → Bytes) (s : CmdlineParams × Int) (o : UInt16 × Option WString) :
    (Refused o ∧ setOption wstr2str s o.1 (o.2.getD []) = .ok none) ∨
      (¬ Refused o ∧ setOption wstr2str s o.1 (o.2.getD []) = .ok (some (apply wstr2str s o))) := by
  obtain ⟨c, v⟩ := o
  unfold apply setOption
  cases hc : CmdOption.ofLetter c with
  | none =>
    have hother (o : CmdOption) : c ≠ wchar o.letter := fun h => by
      rw [CmdOption.ofLetter_eq_some.2 h] at hc
      cases hc
    exact .inr ⟨fun h => h.elim (hother .usage) fun h => hother .auth h.1, rfl⟩
  | some o =>
    obtain rfl := CmdOption.ofLetter_eq_some.1 hc
    cases o with
    | usage => exact .inl ⟨.inl rfl, rfl⟩
    | auth =>
      have hauth := setOption_auth wstr2str s (v.getD [])
      unfold setOption at hauth
      rw [hc] at hauth
      dsimp only at hauth ⊢
      rw [hauth]
      cases hmethod : authMethodOf (v.getD []) with
      | none => exact .inl ⟨.inr ⟨rfl, hmethod⟩, rfl⟩
      | some m =>
        refine .inr ⟨?_, rfl⟩
        rintro (h | ⟨-, h⟩)
        · cases CmdOption.letter_inj h
        · rw [hmethod] at h
          cases h
    | caCert | app | rdpFile | usCert =>
      refine .inr ⟨not_refused v (by decide) (by decide), ?_⟩
      simp only [trimW_eq]
      rfl
    | _ => exact .inr ⟨not_refused v (by decide) (by decide), rfl⟩

/-- The value that an option sets. -/
inductive Setting where
  | flag (value : Bool)
  | text (value : WString)
  | number (value : Int)
  | method (value : AuthMethod)

/-- The setting of an option. -/
def setting (s : CmdlineParams × Int) : CmdOption → Setting
  | .usage => .flag false
  | .username => .text s.1.username
  | .fullScreen => .flag s.1.fullScreen
  | .adminConsole => .flag s.1.adminConsole
  | .port => .number s.2
  | .caCert => .text s.1.caCertFilename
  | .verbose => .flag s.1.verbose
  | .trace => .flag s.1.trace
  | .app => .text s.1.appName
  | .spanMode => .flag s.1.spanMode
  | .multimonMode => .flag s.1.multimonMode
  | .rdpFile => .text s.1.rdpFilename
  | .clearLastuser => .flag s.1.clearLastuser
  | .multiClients => .flag s.1.multiClients
  | .tcpNodelay => .flag s.1.tcpNodelay
  | .width => .number s.1.screenSize.width
  | .height => .number s.1.screenSize.height
  | .usCert => .text s.1.usCertFilename
  | .auth => .method s.1.authMethod

/-- What an option with that value sets. -/
def newSetting (wstr2str : WString → Bytes) (v : WString) : CmdOption → Setting
  | .usage => .flag false
  | .username => .text v
  | .caCert | .app | .rdpFile | .usCert => .text (trimmedW v)
  | .port | .width | .height => .number ((str2iW wstr2str v).getD (-1))
  | .auth => .method ((authMethodOf v).getD .default)
  | _ => .flag true

/-- What no option sets. -/
structure SameFixed (s t : CmdlineParams × Int) : Prop where
  fwAddress : s.1.fwAddress = t.1.fwAddress
  hostAddress : s.1.hostAddress = t.1.hostAddress
  localPort : s.1.localPort = t.1.localPort

/-- The option with that value sets what it is for, and nothing else. -/
structure Sets (wstr2str : WString → Bytes) (o : CmdOption) (v : WString) (s s' : CmdlineParams × Int) : Prop where
  setting : ∀ o', setting s' o' = if o = o' then newSetting wstr2str v o else setting s o'
  fixed : SameFixed s' s

theorem sets_apply (wstr2str : WString → Bytes) (s : CmdlineParams × Int) {o : CmdOption} {v : Option WString}
    (h : ¬ Refused (wchar o.letter, v)) : Sets wstr2str o (v.getD []) s (apply wstr2str s (wchar o.letter, v)) := by
  have hof : CmdOption.ofLetter (wchar o.letter) = some o := CmdOption.ofLetter_eq_some.2 rfl
  have hauth := setOption_auth wstr2str s (v.getD [])
  unfold apply
  unfold setOption at hauth ⊢
  dsimp only at hauth ⊢
  rw [hof]
  cases o with
  | usage => exact absurd (.inl rfl) h
  | auth =>
    rw [hof] at hauth
    dsimp only at hauth ⊢
    rw [hauth]
    cases hmethod : authMethodOf (v.getD []) with
    | none => exact absurd (.inr ⟨rfl, hmethod⟩) h
    | some m =>
      refine ⟨fun o' => ?_, rfl, rfl, rfl⟩
      unfold newSetting
      rw [hmethod]
      cases o' <;> rfl
  | caCert | app | rdpFile | usCert =>
    simp only [trimW_eq]
    exact ⟨fun o' => by cases o' <;> rfl, rfl, rfl, rfl⟩
  | _ => exact ⟨fun o' => by cases o' <;> rfl, rfl, rfl, rfl⟩

theorem apply_other (wstr2str : WString → Bytes) (s : CmdlineParams × Int) {p : UInt16 × Option WString}
    (h : CmdOption.ofLetter p.1 = none) : apply wstr2str s p = s := by
  unfold apply setOption
  rw [h]
  rfl

/-- An option sets nothing but what it is for. -/
theorem apply_keeps (wstr2str : WString → Bytes) (s : CmdlineParams × Int) {p : UInt16 × Option WString} (h : ¬ Refused p) :
    (∀ o, p.1 ≠ wchar o.letter → setting (apply wstr2str s p) o = setting s o) ∧ SameFixed (apply wstr2str s p) s := by
  obtain ⟨c, v⟩ := p
  cases hc : CmdOption.ofLetter c with
  | none =>
    rw [apply_other wstr2str s hc]
    exact ⟨fun _ _ => rfl, rfl, rfl, rfl⟩
  | some o' =>
    obtain rfl := CmdOption.ofLetter_eq_some.1 hc
    obtain ⟨hset, hfixed⟩ := sets_apply wstr2str s h
    exact ⟨fun o hp => by rw [hset, if_neg fun heq => hp (congrArg (fun o => wchar o.letter) heq)], hfixed⟩

theorem setting_ext {s t : CmdlineParams × Int} (h : ∀ o, setting s o = setting t o) (hfixed : SameFixed s t) : s = t := by
  refine Prod.ext (CmdlineParams.ext (Setting.method.inj (h .auth)) (Setting.text.inj (h .username)) hfixed.fwAddress
    hfixed.hostAddress (Setting.text.inj (h .caCert)) (Setting.text.inj (h .usCert)) (Setting.text.inj (h .app))
    (Setting.text.inj (h .rdpFile)) (ScreenSize.ext (Setting.number.inj (h .height)) (Setting.number.inj (h .width)))
    hfixed.localPort (Setting.flag.inj (h .fullScreen)) (Setting.flag.inj (h .adminConsole))
    (Setting.flag.inj (h .multiClients)) (Setting.flag.inj (h .spanMode)) (Setting.flag.inj (h .multimonMode))
    (Setting.flag.inj (h .clearLastuser)) (Setting.flag.inj (h .tcpNodelay)) (Setting.flag.inj (h .verbose))
    (Setting.flag.inj (h .trace))) (Setting.number.inj (h .port))

theorem setting_described (wstr2str : WString → Bytes) (opts : List (UInt16 × Option WString)) (o : CmdOption) :
    setting (described wstr2str opts, lastNumber wstr2str opts .port) o =
      ((last (wchar o.letter) opts).map fun v => newSetting wstr2str (v.getD []) o).getD (setting (start, 0) o) := by
  unfold described lastNumber lastValue given
  cases o
  all_goals
    dsimp only [setting]
    generalize last _ opts = value
    cases value <;> rfl

theorem sameFixed_foldl (wstr2str : WString → Bytes) : ∀ {opts : List (UInt16 × Option WString)} (s : CmdlineParams × Int),
    (∀ o ∈ opts, ¬ Refused o) → SameFixed (opts.foldl (apply wstr2str) s) s
  | [], _, _ => ⟨rfl, rfl, rfl⟩
  | o :: opts, s, h => by
    obtain ⟨ho, hopts⟩ := List.forall_mem_cons.1 h
    obtain ⟨hfw, hhost, hport⟩ := sameFixed_foldl wstr2str (apply wstr2str s o) hopts
    obtain ⟨hfw', hhost', hport'⟩ := (apply_keeps wstr2str s ho).2
    exact ⟨hfw.trans hfw', hhost.trans hhost', hport.trans hport'⟩

/-- The settings that are made one after the other are those that the options describe. -/
theorem foldl_apply (wstr2str : WString → Bytes) {opts : List (UInt16 × Option WString)} (h : ∀ o ∈ opts, ¬ Refused o) :
    opts.foldl (apply wstr2str) (start, 0) = (described wstr2str opts, lastNumber wstr2str opts .port) := by
  refine setting_ext (fun o => ?_) ?_
  · rw [setting_described]
    refine foldl_last (fun s => setting s o) (wchar o.letter) (fun v => newSetting wstr2str (v.getD []) o) (fun s v hv => ?_)
      (fun s p hp hne => (apply_keeps wstr2str s hp).1 o hne) (start, 0) h
    rw [(sets_apply wstr2str s hv).setting, if_pos rfl]
  · obtain ⟨hfw, hhost, hport⟩ := sameFixed_foldl wstr2str (start, 0) h
    exact ⟨hfw, hhost, hport⟩

/-! ## The whole command line -/

/-- The parameters that are set fit together. -/
structure Consistent (params : CmdlineParams) (port : Int) : Prop where
  trace : params.trace = true → params.verbose = true
  mstsc : params.appName ≠ wide "mstsc" → params.adminConsole = false ∧ params.fullScreen = false ∧ params.spanMode = false ∧
    params.multimonMode = false ∧ params.rdpFilename = [] ∧ params.screenSize = ⟨0, 0⟩
  height : 0 ≤ params.screenSize.height ∧ params.screenSize.height ≤ ScreenSize.maxSize
  width : 0 ≤ params.screenSize.width ∧ params.screenSize.width ≤ ScreenSize.maxSize
  port : 0 ≤ port ∧ port ≤ 65535
  usCert : params.usCertFilename ≠ [] ↔ params.authMethod = .certificate
  username : params.authMethod = .saml ∨ params.authMethod = .certificate → params.username = []

theorem authMethodValid_iff (params : CmdlineParams) : params.authMethodValid = true ↔
    (params.usCertFilename ≠ [] ↔ params.authMethod = .certificate) ∧
      (params.authMethod = .saml ∨ params.authMethod = .certificate → params.username = []) := by
  unfold authMethodValid
  cases params.authMethod with
  | default | basic => simp [List.length_eq_zero_iff]
  | saml => simp [List.length_eq_zero_iff, and_comm]
  | certificate => simp [List.length_eq_zero_iff, List.length_pos_iff, and_comm]

theorem isMstsc_iff (params : CmdlineParams) : params.isMstsc = true ↔ params.appName = wide "mstsc" := beq_iff_eq

theorem mstscOptions_iff (params : CmdlineParams) : ((params.adminConsole || params.fullScreen || params.spanMode ||
    params.multimonMode || !params.rdpFilename.isEmpty) && !params.isMstsc) = false ↔ (params.appName ≠ wide "mstsc" →
      params.adminConsole = false ∧ params.fullScreen = false ∧ params.spanMode = false ∧ params.multimonMode = false ∧
        params.rdpFilename = []) := by
  rw [Bool.and_eq_false_iff, Bool.not_eq_false', isMstsc_iff, or_comm, ← imp_iff_not_or.trans (or_congr_left not_not)]
  simp [and_assoc]

theorem mstscScreen_iff (params : CmdlineParams) : ((params.screenSize.height != 0 || params.screenSize.width != 0) &&
    !params.isMstsc) = false ↔ (params.appName ≠ wide "mstsc" → params.screenSize = ⟨0, 0⟩) := by
  rw [Bool.and_eq_false_iff, Bool.not_eq_false', isMstsc_iff, or_comm, ← imp_iff_not_or.trans (or_congr_left not_not)]
  simp [ScreenSize.ext_iff]

theorem isValid_iff (s : ScreenSize) : s.isValid = true ↔
    (0 ≤ s.height ∧ s.height ≤ ScreenSize.maxSize) ∧ 0 ≤ s.width ∧ s.width ≤ ScreenSize.maxSize := by
  unfold ScreenSize.isValid
  simp [and_assoc]

theorem consistent_iff (params : CmdlineParams) (port : Int) : Consistent params port ↔
    (params.trace && !params.verbose) = false ∧
      ((params.adminConsole || params.fullScreen || params.spanMode || params.multimonMode ||
        !params.rdpFilename.isEmpty) && !params.isMstsc) = false ∧
      ((params.screenSize.height != 0 || params.screenSize.width != 0) && !params.isMstsc) = false ∧
      params.screenSize.isValid = true ∧ (decide (0 ≤ port) && decide (port ≤ 65535)) = true ∧
          params.authMethodValid = true := by
  rw [mstscOptions_iff, mstscScreen_iff, isValid_iff, authMethodValid_iff, Bool.and_eq_true, decide_eq_true_eq,
    decide_eq_true_eq]
  constructor
  · intro h
    refine ⟨?_, fun happ => ?_, fun happ => ?_, ⟨h.height, h.width⟩, h.port, h.usCert, h.username⟩
    · cases htrace : params.trace with
      | false => rfl
      | true => rw [h.trace htrace]; rfl
    · obtain ⟨hadmin, hfull, hspan, hmulti, hrdp, -⟩ := h.mstsc happ
      exact ⟨hadmin, hfull, hspan, hmulti, hrdp⟩
    · obtain ⟨-, -, -, -, -, hscreen⟩ := h.mstsc happ
      exact hscreen
  · rintro ⟨htrace, hmstsc, hscreen, ⟨hheight, hwidth⟩, hport, husCert, husername⟩
    refine ⟨fun ht => ?_, fun happ => ?_, hheight, hwidth, hport, husCert, husername⟩
    · rw [ht, Bool.true_and, Bool.not_eq_false'] at htrace
      exact htrace
    · obtain ⟨hadmin, hfull, hspan, hmulti, hrdp⟩ := hmstsc happ
      exact ⟨hadmin, hfull, hspan, hmulti, hrdp, hscreen happ⟩

theorem checkParams_eq_some (params : CmdlineParams) (port : Int) (checked : CmdlineParams) :
    checkParams params port = some checked ↔
        Consistent params port ∧ checked = { params with localPort := port.toNat.toUInt16 } := by
  rw [consistent_iff]
  unfold checkParams
  have hlocal : ({ params with localPort := port.toNat.toUInt16 } : CmdlineParams).authMethodValid =
    params.authMethodValid := rfl
  dsimp only
  rw [hlocal]
  split
  · rename_i htrace
    simp only [htrace, reduceCtorEq, false_and]
  split
  · rename_i hmstsc
    simp only [hmstsc, reduceCtorEq, false_and, and_false]
  split
  · rename_i hscreen
    simp only [hscreen, reduceCtorEq, false_and, and_false]
  split
  · rename_i hvalid
    rw [Bool.not_eq_true'] at hvalid
    simp only [hvalid, reduceCtorEq, Bool.false_eq_true, false_and, and_false]
  split
  swap
  · rename_i hport
    simp only [hport, reduceCtorEq, false_and, and_false]
  split
  swap
  · rename_i hmethod
    simp only [hmethod, reduceCtorEq, and_false, false_and]
  rename_i htrace hmstsc hscreen hvalid hport hmethod
  rw [Bool.not_eq_true] at htrace hmstsc hscreen
  rw [Bool.not_eq_true, Bool.not_eq_false'] at hvalid
  simp only [htrace, hmstsc, hscreen, hvalid, hport, hmethod, true_and, Option.some.injEq, eq_comm]

theorem readOperands_eq (params : CmdlineParams) (operands : List WString) : readOperands 0 operands params =
    .ok (if operands.length ≤ 2 then some { params with
      fwAddress := (operands[0]?.map trimmedW).getD params.fwAddress
      hostAddress := (operands[1]?.map trimmedW).getD params.hostAddress } else none) := by
  rcases operands with _ | ⟨a, _ | ⟨b, _ | ⟨c, operands⟩⟩⟩
  · rfl
  · simp only [readOperands, trimW_eq]
    rfl
  · simp only [readOperands, trimW_eq]
    rfl
  · simp only [readOperands, trimW_eq]
    rw [if_neg (by simp)]
    rfl

theorem optionStep_refused (wstr2str : WString → Bytes) (argv : List WString) (p : CmdlineParams × Int) {s t : Getopt}
    {c : UInt16}
    {v : Option WString} (hget : Getopt.getopt argv optstring s = .ok (some c, v) t) (h : Refused (c, v)) :
    optionStep wstr2str argv p s = .ok (.inr none) t := by
  rcases setOption_eq wstr2str p (c, v) with ⟨-, hset⟩ | ⟨hnot, -⟩
  · exact (Run.bind_ok hget).trans (Run.except_bind hset _ t)
  · exact absurd h hnot

theorem optionStep_set (wstr2str : WString → Bytes) (argv : List WString) (p : CmdlineParams × Int) {s t : Getopt}
    {c : UInt16}
    {v : Option WString} (hget : Getopt.getopt argv optstring s = .ok (some c, v) t) (h : ¬ Refused (c, v)) :
    optionStep wstr2str argv p s = .ok (.inl (apply wstr2str p (c, v))) t := by
  rcases setOption_eq wstr2str p (c, v) with ⟨hrefused, -⟩ | ⟨-, hset⟩
  · exact absurd hrefused h
  · exact (Run.bind_ok hget).trans (Run.except_bind hset _ t)

/-- What is left of the command line, in calls of `getopt`. -/
def left (argv : List WString) (s : Getopt) : Nat := s.pending.length + size (argv.drop s.optind)

/-- What the loop over the options gives on what is left of the command line. -/
def Loops (wstr2str : WString → Bytes) (argv : List WString) (p : CmdlineParams × Int) (cs : WString) (rest : List WString)
    (r : Option (CmdlineParams × Int)) (s' : Getopt) : Prop :=
  (∃ opts, Scan (wchar '-') (optionKind optstring) cs rest opts (argv.drop s'.optind) ∧ (∀ o ∈ opts, ¬ Refused o) ∧
    r = some (opts.foldl (apply wstr2str) p)) ∨
  (∀ opts operands, Scan (wchar '-') (optionKind optstring) cs rest opts operands → ∃ o ∈ opts, Refused o) ∧ r = none

theorem loop_spec (wstr2str : WString → Bytes) (argv : List WString) : ∀ (fuel : Nat) (p : CmdlineParams × Int) (s : Getopt),
    left argv s < fuel → ∃ r s', Run.iterate .exhausted (optionStep wstr2str argv) fuel p s = .ok r s' ∧
      Loops wstr2str argv p s.pending (argv.drop s.optind) r s'
  | 0, _, _, h => absurd h (Nat.not_lt_zero _)
  | fuel + 1, p, s, h => by
    obtain ⟨⟨c, v⟩, t, hget, htakes⟩ : ∃ r t, Getopt.getopt argv optstring s = .ok r t ∧ _ := Getopt.getopt_takes s
    cases htakes with
    | ended hscan hoptarg =>
      have hstep : optionStep wstr2str argv p s = .ok (.inr (some p)) t := Run.bind_ok hget
      exact ⟨some p, t, Run.iterate_done hstep, .inl ⟨[], hscan, fun o ho => absurd ho List.not_mem_nil, rfl⟩⟩
    | refused hrefused =>
      have hstep := optionStep_refused wstr2str argv p hget (.inl rfl)
      exact ⟨none, t, Run.iterate_done hstep, .inr ⟨fun opts operands hscan => absurd hscan (hrefused opts operands), rfl⟩⟩
    | @option _ c v hc hpos hscan hless =>
      by_cases hrefused : Refused (c, v)
      · have hstep := optionStep_refused wstr2str argv p hget hrefused
        refine ⟨none, t, Run.iterate_done hstep, .inr ⟨fun opts operands h => ?_, rfl⟩⟩
        obtain ⟨more, rfl, -⟩ := (hscan opts operands).1 h
        exact ⟨_, List.mem_cons_self .., hrefused⟩
      · have hstep := optionStep_set wstr2str argv p hget hrefused
        have hfuel : left argv t < fuel := Nat.lt_of_lt_of_le hless (Nat.lt_succ_iff.1 h)
        obtain ⟨r, s', hrun, hloops⟩ := loop_spec wstr2str argv fuel (apply wstr2str p (c, v)) t hfuel
        refine ⟨r, s', (Run.iterate_more hstep).trans hrun, ?_⟩
        rcases hloops with ⟨opts, hopts, hall, rfl⟩ | ⟨hnone, rfl⟩
        · exact .inl ⟨(c, v) :: opts, (hscan _ _).2 ⟨opts, rfl, hopts⟩, List.forall_mem_cons.2 ⟨hrefused, hall⟩, rfl⟩
        · refine .inr ⟨fun opts operands h => ?_, rfl⟩
          obtain ⟨more, rfl, hmore⟩ := (hscan opts operands).1 h
          obtain ⟨o, ho, hor⟩ := hnone more operands hmore
          exact ⟨o, List.mem_cons_of_mem _ ho, hor⟩

/-- The parameters, completed by the port and by the operands. -/
def complete (params : CmdlineParams) (port : Int) (operands : List WString) : CmdlineParams :=
  setNodelay { params with
    localPort := port.toNat.toUInt16
    fwAddress := (operands[0]?.map trimmedW).getD []
    hostAddress := (operands[1]?.map trimmedW).getD [] }

/-- A choice of options and operands that is allowed. -/
structure Allowed (wstr2str : WString → Bytes) (opts : List (UInt16 × Option WString)) (operands : List WString) : Prop where
  accepted : ∀ o ∈ opts, ¬ Refused o
  atMostTwo : operands.length ≤ 2
  consistent : Consistent (described wstr2str opts) (lastNumber wstr2str opts .port)

/-- The command line gives options and operands that are allowed, and they describe the parameters. -/
def Accepts (wstr2str : WString → Bytes) (argv : List WString) (params : CmdlineParams) : Prop :=
  ∃ opts operands, Scan (wchar '-') (optionKind optstring) [] argv opts operands ∧ Allowed wstr2str opts operands ∧
    params = complete (described wstr2str opts) (lastNumber wstr2str opts .port) operands

theorem initializeArgs_run (wstr2str : WString → Bytes) (argv : List WString) (next : Option WString) : ∃ r s',
    initializeArgs wstr2str argv ⟨0, next⟩ = .ok r s' ∧ ∀ params, r = some params ↔ Accepts wstr2str argv params := by
  obtain ⟨p, s', hrun, hloops⟩ := loop_spec wstr2str argv (size argv + 1) (start, 0) ⟨0, next⟩ (by
    show (0 : Nat) + size argv < size argv + 1
    omega)
  have hargs : initializeArgs wstr2str argv ⟨0, next⟩ = _ := Run.bind_ok hrun
  change Loops wstr2str argv (start, 0) [] argv p s' at hloops
  rcases hloops with ⟨opts, hscan, hall, rfl⟩ | ⟨hnone, rfl⟩
  swap
  · refine ⟨none, s', hargs, fun params => ⟨(by cases ·), ?_⟩⟩
    rintro ⟨opts, operands, hscan, hallowed, -⟩
    obtain ⟨o, ho, hrefused⟩ := hnone opts operands hscan
    exact absurd hrefused (hallowed.accepted o ho)
  rw [foldl_apply wstr2str hall] at hargs
  dsimp only at hargs
  cases hchecked : checkParams (described wstr2str opts) (lastNumber wstr2str opts .port) with
  | none =>
    rw [hchecked] at hargs
    refine ⟨none, s', hargs, fun params => ⟨(by cases ·), ?_⟩⟩
    rintro ⟨opts', operands, hscan', hallowed, -⟩
    obtain ⟨rfl, -⟩ := hscan.unique hscan'
    rw [(checkParams_eq_some _ _ _).2 ⟨hallowed.consistent, rfl⟩] at hchecked
    cases hchecked
  | some checked =>
    obtain ⟨hconsistent, rfl⟩ := (checkParams_eq_some _ _ _).1 hchecked
    rw [hchecked] at hargs
    have hend := hargs.trans ((Run.get_bind _ s').trans (Run.except_bind (readOperands_eq _ (argv.drop s'.optind)) _ s'))
    by_cases hlength : (argv.drop s'.optind).length ≤ 2
    · rw [if_pos hlength] at hend
      refine ⟨_, s', hend, fun params => ⟨fun h => ?_, ?_⟩⟩
      · exact ⟨opts, _, hscan, ⟨hall, hlength, hconsistent⟩, (Option.some.inj h).symm⟩
      · rintro ⟨opts', operands, hscan', -, rfl⟩
        obtain ⟨rfl, rfl⟩ := hscan.unique hscan'
        rfl
    · rw [if_neg hlength] at hend
      refine ⟨_, s', hend, fun params => ⟨(by cases ·), ?_⟩⟩
      rintro ⟨opts', operands, hscan', hallowed, -⟩
      obtain ⟨-, rfl⟩ := hscan.unique hscan'
      exact absurd hallowed.atMostTwo hlength

theorem accepts_write (wstr2str : WString → Bytes) {opts : List (UInt16 × Option WString)} {operands : List WString}
    (hform : ∀ o ∈ opts, WellFormed (optionKind optstring) o) (h : Allowed wstr2str opts operands) :
    Accepts wstr2str (write (wchar '-') opts operands)
      (complete (described wstr2str opts) (lastNumber wstr2str opts .port) operands) := by
  have hdash : optionKind optstring (wchar '-') = none := by decide
  refine ⟨opts, operands, scan_write operands fun o ho => ⟨hform o ho, fun heq => ?_⟩, h, rfl⟩
  rcases hform o ho with ⟨hkind, -⟩ | ⟨hkind, -⟩
  · rw [heq, hdash] at hkind
    cases hkind
  · rw [heq, hdash] at hkind
    cases hkind

/-- A command line is accepted exactly when its options and operands are allowed, and they describe the parameters,
whatever the order of the options is; and any choice that is allowed can be given, whatever the values look like. -/
theorem initializeArgs_accepts (wstr2str : WString → Bytes) (next : Option WString) :
    (∀ argv, ∃ r s', initializeArgs wstr2str argv ⟨0, next⟩ = .ok r s' ∧ ∀ params, r = some params ↔
    Accepts wstr2str argv params) ∧
      ∀ opts operands, (∀ o ∈ opts, WellFormed (optionKind optstring) o) → Allowed wstr2str opts operands →
        Accepts wstr2str (write (wchar '-') opts operands)
          (complete (described wstr2str opts) (lastNumber wstr2str opts .port) operands) :=
  ⟨fun argv => initializeArgs_run wstr2str argv next, fun _ _ => accepts_write wstr2str⟩

end CmdlineParams

end FortiRdp.Ui
